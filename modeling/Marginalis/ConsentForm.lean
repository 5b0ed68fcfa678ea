import Marginalis.BlankTokens
import Marginalis.Framing
import Marginalis.ScopeCeiling

/-!
# The consent page and its form

A client asks for authorization with parameters (`McpAuthorizeInput`), and the Authorization
Server validates them. The consent page shows the validated request and carries it in hidden
fields, signed with the session id as key (`consentPage`). The form that comes back is parsed on
its own (`McpAuthorizeForm.parse`) and validated again.

The signed bytes are the fields of the request, each behind its length. They determine the fields
(`signedBytes_inj`), an absent state being as the empty one, and a form that is sent as it was shown
is parsed to what was shown (`parse_submitted`).
-/

namespace Marginalis

open BlankTokens Framing

/-! ## Requests -/

/-- `u8::is_ascii_whitespace`. -/
def isAsciiWhitespace (c : Char) : Bool :=
  c = ' ' ∨ c = '\t' ∨ c = '\n' ∨ c = '\x0c' ∨ c = '\r'

/-- `split_ascii_whitespace`. -/
def splitAsciiWhitespace (s : String) : List String :=
  (tokens isAsciiWhitespace s.toList).map String.ofList

/-- `scopes.join(" ")`. -/
def joinScopes (scopes : List Scope) : String :=
  String.ofList ([' '].intercalate (scopes.map String.toList))

/-- A scope is a text without blanks in it, and not empty. -/
def IsScope (scope : Scope) : Prop := IsToken isAsciiWhitespace scope.toList

instance (scope : Scope) : Decidable (IsScope scope) := by
  unfold IsScope
  infer_instance

structure McpAuthorizeInput where
  responseType : Option String
  clientId : Option String
  redirectUri : Option String
  resource : Option String
  scope : Option String
  codeChallenge : Option String
  codeChallengeMethod : Option String
  state : Option String
  deriving DecidableEq, Repr

structure McpAuthorizationRequest where
  clientId : ClientId
  redirectUri : Option String
  resourceUri : String
  scopes : List Scope
  codeChallenge : String
  deriving DecidableEq, Repr

/-- `McpValidatedAuthorizationRequest`, with the client and how it was registered in one. -/
structure McpValidatedAuthorizationRequest where
  client : McpRegisteredOAuthClient
  redirectUri : McpResolvedRedirectUri
  resourceUri : String
  scopes : List Scope
  codeChallenge : String
  deriving DecidableEq, Repr

namespace McpValidatedAuthorizationRequest

variable (request : McpValidatedAuthorizationRequest)

def clientId : ClientId := request.client.client.clientId

/-- The request that the hidden fields of a page spell, for some scopes. -/
def shown (scopes : List Scope) : McpAuthorizationRequest where
  clientId := request.clientId
  redirectUri := if request.redirectUri.wasSupplied then some request.redirectUri.asStr else none
  resourceUri := request.resourceUri
  scopes := scopes
  codeChallenge := request.codeChallenge

end McpValidatedAuthorizationRequest

/-! ## The form -/

structure McpAuthorizeForm where
  clientId : String
  redirectUri : Option String
  resource : String
  scope : String
  codeChallenge : String
  state : Option String
  csrfToken : String
  consentSignature : String
  selectedScopes : List Scope
  decision : String
  deriving DecidableEq, Repr

namespace McpAuthorizeForm

/-- The names of the fields that occur at most once. -/
def fieldNames : List String :=
  ["client_id", "redirect_uri", "resource", "scope", "code_challenge", "state", "csrf_token",
    "consent_signature", "decision"]

/-- One field of the form : the fields so far, and the scopes that were selected so far. -/
def parseField (fields : List (String × String) × List Scope) (field : String × String) :
    Option (List (String × String) × List Scope) :=
  if field.1 = "selected_scope" then
    if field.2 = "" then none else some (fields.1, fields.2 ++ [field.2])
  else if field.1 ∉ fieldNames ∨ (fields.1.lookup field.1).isSome then none
  else some (field :: fields.1, fields.2)

/-- `McpAuthorizeForm::parse`, of the names and values that the body encodes. -/
def parse (body : List (String × String)) : Option McpAuthorizeForm := do
  let (values, selectedScopes) ← body.foldlM parseField ([], [])
  let clientId ← values.lookup "client_id"
  let resource ← values.lookup "resource"
  let scope ← values.lookup "scope"
  let codeChallenge ← values.lookup "code_challenge"
  let csrfToken ← values.lookup "csrf_token"
  let consentSignature ← values.lookup "consent_signature"
  let decision ← values.lookup "decision"
  return { clientId, redirectUri := values.lookup "redirect_uri", resource, scope, codeChallenge,
           state := values.lookup "state", csrfToken, consentSignature, selectedScopes, decision }

/-- The parameters of the request that the form carries. -/
def input (form : McpAuthorizeForm) : McpAuthorizeInput where
  responseType := some "code"
  clientId := some form.clientId
  redirectUri := form.redirectUri
  resource := some form.resource
  scope := some form.scope
  codeChallenge := some form.codeChallenge
  codeChallengeMethod := some "S256"
  state := form.state

def request (form : McpAuthorizeForm) : McpAuthorizationRequest where
  clientId := ⟨form.clientId⟩
  redirectUri := form.redirectUri
  resourceUri := form.resource
  scopes := splitAsciiWhitespace form.scope
  codeChallenge := form.codeChallenge

end McpAuthorizeForm

/-! ## The signature -/

/-- The values `consent_signature` feeds to the MAC, in order. -/
def signedValues (input : McpAuthorizeInput) (request : McpValidatedAuthorizationRequest) :
    List String :=
  [request.clientId.value, if request.redirectUri.wasSupplied then "1" else "0",
    request.redirectUri.asStr, request.resourceUri, joinScopes request.scopes,
    request.codeChallenge, input.state.getD ""]

/-- The bytes under the MAC : `update_signature` puts the length of each value before it. -/
def signedBytes (input : McpAuthorizeInput) (request : McpValidatedAuthorizationRequest) :
    List UInt8 :=
  frames ((signedValues input request).map textBytes)

/-- Texts in memory are shorter than `2 ^ 64` bytes. -/
def SignedInRange (input : McpAuthorizeInput) (request : McpValidatedAuthorizationRequest) : Prop :=
  ∀ value ∈ signedValues input request, value.utf8ByteSize < 2 ^ 64

/-! ## The page -/

/-- What a consent page shows and carries. -/
structure ConsentPage where
  request : McpValidatedAuthorizationRequest
  input : McpAuthorizeInput
  withheldScopes : List Scope
  csrf : String
  signature : String
  selectionError : Option String
  deriving DecidableEq, Repr

/-- `consent_page`. `sign` is the HMAC of some bytes under a key, in base 64. -/
def consentPage (sign : String → List UInt8 → String) (input : McpAuthorizeInput)
    (request : McpValidatedAuthorizationRequest) (withheldScopes : List Scope)
    (csrf signatureKey : String) (selectionError : Option String) : ConsentPage :=
  { request, input, withheldScopes, csrf
    signature := sign signatureKey (signedBytes input request)
    selectionError }

namespace ConsentPage

variable (page : ConsentPage)

/-- The hidden fields of `consent_form`. -/
def hiddenFields : List (String × String) :=
  [("client_id", page.request.clientId.value)] ++
    (if page.request.redirectUri.wasSupplied then
      [("redirect_uri", page.request.redirectUri.asStr)] else []) ++
    [("resource", page.request.resourceUri), ("scope", joinScopes page.request.scopes),
      ("code_challenge", page.request.codeChallenge)] ++
    (page.input.state.map fun state => ("state", state)).toList ++
    [("csrf_token", page.csrf), ("consent_signature", page.signature)]

/-- The body of the form as it was shown, with some of the scopes ticked and the button pressed. -/
def submit (selected : List Scope) : List (String × String) :=
  selected.map (fun scope => ("selected_scope", scope)) ++ page.hiddenFields ++
    [("decision", "approve")]

/-- The form that such a body is. -/
def form (selected : List Scope) : McpAuthorizeForm where
  clientId := page.request.clientId.value
  redirectUri :=
    if page.request.redirectUri.wasSupplied then some page.request.redirectUri.asStr else none
  resource := page.request.resourceUri
  scope := joinScopes page.request.scopes
  codeChallenge := page.request.codeChallenge
  state := page.input.state
  csrfToken := page.csrf
  consentSignature := page.signature
  selectedScopes := selected
  decision := "approve"

@[simp] theorem signature_form (selected : List Scope) :
    (page.form selected).consentSignature = page.signature := rfl

@[simp] theorem csrfToken_form (selected : List Scope) :
    (page.form selected).csrfToken = page.csrf := rfl

end ConsentPage

/-! ## Lists of scopes -/

variable {scopes scopes' : List Scope}

theorem isToken_of_isScope (h : ∀ scope ∈ scopes, IsScope scope) :
    ∀ t ∈ scopes.map String.toList, IsToken isAsciiWhitespace t := by
  intro t ht
  obtain ⟨scope, hscope, rfl⟩ := List.mem_map.mp ht
  exact h scope hscope

/-- Scopes are read back from the text they are joined to. -/
theorem splitAsciiWhitespace_joinScopes (h : ∀ scope ∈ scopes, IsScope scope) :
    splitAsciiWhitespace (joinScopes scopes) = scopes := by
  unfold splitAsciiWhitespace joinScopes
  rw [String.toList_ofList, tokens_intercalate (by decide) (isToken_of_isScope h), List.map_map]
  simp

/-- The joined text determines the scopes. -/
theorem joinScopes_inj (h : ∀ scope ∈ scopes, IsScope scope)
    (h' : ∀ scope ∈ scopes', IsScope scope) (heq : joinScopes scopes = joinScopes scopes') :
    scopes = scopes' := by
  rw [← splitAsciiWhitespace_joinScopes h, heq, splitAsciiWhitespace_joinScopes h']

/-! ## What is signed -/

variable {input input' : McpAuthorizeInput} {request request' : McpValidatedAuthorizationRequest}

theorem redirectUri_eq {uri uri' : McpResolvedRedirectUri}
    (hsupplied : uri.wasSupplied = uri'.wasSupplied)
    (htext : uri.asStr = uri'.asStr) : uri = uri' := by
  cases uri <;> cases uri' <;> simp_all [McpResolvedRedirectUri.wasSupplied,
    McpResolvedRedirectUri.asStr]

/-- The signed bytes determine the fields of the request. An absent state is as the empty one. -/
theorem signedBytes_inj (hrange : SignedInRange input request)
    (hrange' : SignedInRange input' request') (hscopes : ∀ scope ∈ request.scopes, IsScope scope)
    (hscopes' : ∀ scope ∈ request'.scopes, IsScope scope)
    (h : signedBytes input request = signedBytes input' request') :
    request.clientId = request'.clientId ∧ request.redirectUri = request'.redirectUri ∧
      request.resourceUri = request'.resourceUri ∧ request.scopes = request'.scopes ∧
      request.codeChallenge = request'.codeChallenge ∧
      input.state.getD "" = input'.state.getD "" := by
  have hparts : ∀ {input : McpAuthorizeInput} {request : McpValidatedAuthorizationRequest},
      SignedInRange input request →
        ∀ part ∈ (signedValues input request).map textBytes, part.length < 2 ^ 64 := by
    intro input request hrange part hpart
    obtain ⟨value, hvalue, rfl⟩ := List.mem_map.mp hpart
    rw [length_textBytes]
    exact hrange value hvalue
  have hvalues : signedValues input request = signedValues input' request' :=
    List.map_injective_iff.mpr (fun _ _ => textBytes_inj)
      (frames_inj (hparts hrange) (hparts hrange') h)
  simp only [signedValues, List.cons.injEq, and_true] at hvalues
  obtain ⟨hclient, hsupplied, huri, hresource, hjoined, hchallenge, hstate⟩ := hvalues
  refine ⟨?_, redirectUri_eq ?_ huri, hresource, joinScopes_inj hscopes hscopes' hjoined,
    hchallenge, hstate⟩
  · cases hid : request.clientId
    cases hid' : request'.clientId
    simp_all
  · cases hs : request.redirectUri.wasSupplied <;> cases hs' : request'.redirectUri.wasSupplied <;>
      simp_all

/-! ## What is sent back -/

/-- Ticked scopes are collected, and leave the fields alone. -/
theorem foldlM_parseField_selected {selected : List Scope}
    (hselected : ∀ scope ∈ selected, scope ≠ "")
    (fields : List (String × String)) (before : List Scope) :
    (selected.map fun scope => ("selected_scope", scope)).foldlM McpAuthorizeForm.parseField
      (fields, before) = some (fields, before ++ selected) := by
  induction selected generalizing before with
  | nil => simp
  | cons scope selected ih =>
    have hscope := hselected scope (List.mem_cons_self ..)
    have hstep : McpAuthorizeForm.parseField (fields, before) ("selected_scope", scope) =
        some (fields, before ++ [scope]) := by
      rw [McpAuthorizeForm.parseField, if_pos rfl, if_neg hscope]
    rw [List.map_cons, List.foldlM_cons, hstep]
    exact (ih (fun other hother => hselected other (List.mem_cons_of_mem _ hother)) _).trans
      (by rw [List.append_assoc, List.singleton_append])

/-- The form of a page comes back as it was shown. -/
theorem parse_submit (page : ConsentPage) {selected : List Scope}
    (hselected : ∀ scope ∈ selected, scope ≠ "") :
    McpAuthorizeForm.parse (page.submit selected) = some (page.form selected) := by
  unfold McpAuthorizeForm.parse ConsentPage.submit
  rw [List.append_assoc, List.foldlM_append, foldlM_parseField_selected hselected]
  unfold ConsentPage.hiddenFields ConsentPage.form
  cases page.request.redirectUri.wasSupplied <;> cases page.input.state
  all_goals
    simp [McpAuthorizeForm.parseField, McpAuthorizeForm.fieldNames]
    rfl

/-- A form that comes back as it was shown asks for what the page shows. -/
theorem request_form (page : ConsentPage) (selected : List Scope)
    (hscopes : ∀ scope ∈ page.request.scopes, IsScope scope) :
    (page.form selected).request = page.request.shown page.request.scopes := by
  simp only [ConsentPage.form, McpAuthorizeForm.request, McpValidatedAuthorizationRequest.shown,
    splitAsciiWhitespace_joinScopes hscopes]

end Marginalis
