import Marginalis.Attachments
import Marginalis.ConsentForm
import Marginalis.Result

/-!
# The authorization endpoint

`mcp_authorize` answers an authorization request with a consent page, and `mcp_authorize_consent`
takes the form of such a page. The first changes nothing; the second issues an authorization code
when the form was approved. Client registrations and scope ceilings are read from the store, once
for each question, so that other transactions can come in between : every read has a state of its
own.

The Authorization Server, the HMAC, the URL library and the session store are parts of
`ConsentServer`.
-/

namespace Marginalis

/-! ## The environment -/

/-- A problem response. -/
structure HttpProblem where
  status : ℕ
  code : String
  detail : String
  deriving DecidableEq, Repr

inductive McpOAuthUseCaseError
  | invalidScope
  | invalidTarget
  | unavailable
  | other
  deriving DecidableEq, Repr

structure McpAuthorizationClient where
  client : McpRegisteredOAuthClient
  redirectUri : String
  deriving DecidableEq, Repr

/-- What the endpoints use. `σ` is a state of the store. -/
structure ConsentServer (σ : Type) extends AuthorizationServer where
  /-- `authorization_server_uri`, when the MCP endpoint is configured. -/
  issuer : Option String
  browserOrigin : String
  urlParses : String → Bool
  /-- The path that resumes the request after a login, with its query. -/
  loginResumePath : List (String × String) → String
  /-- HMAC-SHA-256 under a key, in base 64. -/
  sign : String → List UInt8 → String
  verify : String → List UInt8 → String → Bool
  registration : σ → ClientId → Option McpRegisteredOAuthClient
  resolveAuthorizationClient : σ → ClientId → Option String →
    Except McpOAuthUseCaseError McpAuthorizationClient
  validateResolvedAuthorizationRequest : McpAuthorizationRequest → McpAuthorizationClient →
    Except McpOAuthUseCaseError McpValidatedAuthorizationRequest
  validateAuthorizationRequest : σ → McpAuthorizationRequest →
    Except McpOAuthUseCaseError McpValidatedAuthorizationRequest
  /-- The stored ceilings of a principal for a client, unless the store fails. -/
  storedScopeCeilings : σ → PrincipalId → ClientId → Option McpStoredScopeCeilings
  /-- The next code and when it expires. -/
  drawCode : σ → String × ℤ
  store : σ → TokenAction → Except McpOAuthUseCaseError Unit

/-- What the headers of a request say. -/
structure Caller where
  contentType : Option String
  origin : Option String
  sessionCookie : Option String
  csrfCookie : Option String
  authenticateSession : String → Except HttpProblem (Option Actor)
  verifyCsrf : String → String → Except HttpProblem Bool

inductive OAuthResponse
  | problem (problem : HttpProblem)
  | oauthError (status : ℕ) (error description : String)
  | redirect (uri : String) (parameters : List (String × String))
  | loginRedirect (next : String)
  | page (status : ℕ) (page : ConsentPage)

/-- A response, and the transaction that issued a code, if one did. -/
structure ConsentOutcome where
  response : OAuthResponse
  issued : Option TokenAction

/-- The state that goes back to the client. -/
def stateValue (state : Option String) : Option String := state.filter fun value => value ≠ ""

/-- `content_type_is`. -/
def contentTypeIs (caller : Caller) (expected : String) : Bool :=
  match caller.contentType with
  | none => false
  | some value =>
    (trim (((value.toList.splitOn ';').head?).getD [])).map Char.toLower =
      expected.toList.map Char.toLower

/-! ## Parameters -/

/-- `OAuthParameters`. -/
structure OAuthParameters where
  values : List (String × String)
  repeated : Bool
  deriving DecidableEq, Repr

namespace OAuthParameters

/-- `AUTHORIZATION_PARAMETERS`. -/
def authorizationParameters : List String :=
  ["response_type", "client_id", "redirect_uri", "resource", "scope", "code_challenge",
    "code_challenge_method", "state"]

/-- `append`, of decoded names and values. -/
def append (parameters : OAuthParameters) (pairs : List (String × String)) : OAuthParameters :=
  pairs.foldl (fun parameters pair =>
    if pair.1 ∉ authorizationParameters ∨ pair.2 = "" then parameters
    else
      { values := pair :: parameters.values.filter fun old => old.1 ≠ pair.1
        repeated := parameters.repeated || (parameters.values.lookup pair.1).isSome }) parameters

/-- `McpAuthorizeInput::from_parameters`. -/
def input (parameters : OAuthParameters) : McpAuthorizeInput where
  responseType := parameters.values.lookup "response_type"
  clientId := parameters.values.lookup "client_id"
  redirectUri := parameters.values.lookup "redirect_uri"
  resource := parameters.values.lookup "resource"
  scope := parameters.values.lookup "scope"
  codeChallenge := parameters.values.lookup "code_challenge"
  codeChallengeMethod := parameters.values.lookup "code_challenge_method"
  state := parameters.values.lookup "state"

end OAuthParameters

/-! ## Responses -/

/-- `unsafe_authorization_error`. -/
def unsafeAuthorizationError : McpOAuthUseCaseError → OAuthResponse
  | .unavailable => .oauthError 503 "temporarily_unavailable" "OAuth service is unavailable"
  | _ => .oauthError 400 "invalid_request" "authorization request is invalid"

namespace Caller

variable (caller : Caller)

/-- `authenticated_actor`, with the session. -/
def authenticatedActor : Except HttpProblem (String × Actor) :=
  match caller.sessionCookie with
  | none => .error ⟨401, "authentication_required", "authentication is required"⟩
  | some sessionId => do
    match ← caller.authenticateSession sessionId with
    | none => throw ⟨401, "authentication_required", "authentication is required"⟩
    | some actor => return (sessionId, actor)

/-- `authenticated_form_actor`, with the session. -/
def authenticatedFormActor (browserOrigin csrfToken : String) :
    Except HttpProblem (String × Actor) := do
  let (sessionId, actor) ← caller.authenticatedActor
  if caller.origin.any fun origin => origin ≠ "null" ∧ origin ≠ browserOrigin then
    throw ⟨403, "same_origin_required", "same-origin request is required"⟩
  else if caller.csrfCookie ≠ some csrfToken then
    throw ⟨403, "csrf_invalid", "CSRF token is invalid"⟩
  else
    let verified ← caller.verifyCsrf sessionId csrfToken
    if verified then return (sessionId, actor)
    else throw ⟨403, "csrf_invalid", "CSRF token is invalid"⟩

end Caller

namespace ConsentServer

variable {σ : Type} (server : ConsentServer σ)

/-- `oauth_redirect`, to a redirect URI with parameters added. -/
def oauthRedirect (issuer redirectUri : String) (state code error : Option String) :
    OAuthResponse :=
  if server.urlParses redirectUri then
    .redirect redirectUri ((code.map fun code => ("code", code)).toList ++
      (error.map fun error => ("error", error)).toList ++
      (state.map fun state => ("state", state)).toList ++ [("iss", issuer)])
  else .oauthError 400 "invalid_request" "redirect URI is invalid"

/-- `oauth_redirect_error`. -/
def oauthRedirectError (issuer redirectUri : String) (state : Option String) (error : String) :
    OAuthResponse :=
  server.oauthRedirect issuer redirectUri state none (some error)

/-- `safe_authorization_error`. -/
def safeAuthorizationError (issuer redirectUri : String) (state : Option String)
    (error : McpOAuthUseCaseError) : OAuthResponse :=
  server.oauthRedirectError issuer redirectUri state <|
    match error with
    | .invalidScope => "invalid_scope"
    | .invalidTarget => "invalid_target"
    | .unavailable => "server_error"
    | .other => "invalid_request"

/-! ## Scope ceilings -/

/-- `resolved_scope_ceilings` of stored ceilings : those of the principal and of the client. -/
def resolvedScopeCeilings (stored : McpStoredScopeCeilings) :
    Except McpOAuthUseCaseError (List Scope × List Scope) :=
  let principal := effectiveScopes server.supportedScopes stored.principal
  let client := effectiveScopes server.supportedScopes stored.client
  if server.scopeCeilings principal client then .ok (principal, client) else .error .unavailable

/-- `scope_ceilings` of the repository. -/
def readScopeCeilings (state : σ) (actor : Actor) (clientId : ClientId) :
    Except McpOAuthUseCaseError McpStoredScopeCeilings :=
  match server.storedScopeCeilings state actor.principalId clientId with
  | none => .error .unavailable
  | some stored => .ok stored

/-- `grantable_scopes`. -/
def grantableScopes (state : σ) (actor : Actor) (clientId : ClientId) (requested : List Scope) :
    Except McpOAuthUseCaseError (List Scope) := do
  let stored ← server.readScopeCeilings state actor clientId
  let (principal, client) ← server.resolvedScopeCeilings stored
  return (server.eligibleScopes requested principal client).getD []

/-- `authorize` : the code and the transaction that issued it. -/
def authorizeRequest (state : σ) (actor : Actor) (request : McpValidatedAuthorizationRequest) :
    Except McpOAuthUseCaseError (String × TokenAction) := do
  let stored ← server.readScopeCeilings state actor request.clientId
  let _ ← server.resolvedScopeCeilings stored
  match server.authorize
      ⟨⟨actor, request.client, request.redirectUri, request.resourceUri, request.scopes,
        request.codeChallenge⟩, stored⟩
      (server.drawCode state).1 (server.drawCode state).2 with
  | none => throw .invalidScope
  | some action =>
    server.store state action
    return ((server.drawCode state).1, action)

/-- `apply_scope_ceilings` : the request with what can be granted, and the scopes taken out. -/
def applyScopeCeilings (state : σ) (actor : Actor) (validated : McpValidatedAuthorizationRequest) :
    Except OAuthResponse (McpValidatedAuthorizationRequest × List Scope) := do
  let grantable ← (server.grantableScopes state actor validated.clientId validated.scopes).mapError
    unsafeAuthorizationError
  return ({ validated with scopes := grantable },
    validated.scopes.filter fun scope => scope ∉ grantable)

/-! ## The first request -/

/-- `login_redirect`. -/
def loginRedirect (input : McpAuthorizeInput) (request : McpValidatedAuthorizationRequest) :
    Option OAuthResponse :=
  let next := server.loginResumePath <|
    [("response_type", "code"), ("client_id", request.clientId.value)] ++
    (if request.redirectUri.wasSupplied then
      [("redirect_uri", request.redirectUri.asStr)] else []) ++
    [("resource", request.resourceUri), ("scope", joinScopes request.scopes),
      ("code_challenge", request.codeChallenge), ("code_challenge_method", "S256")] ++
    (input.state.map fun state => ("state", state)).toList
  if 2800 < next.utf8ByteSize then none else some (.loginRedirect next)

/-- The page for a validated request, and a login if there is no session. -/
def consentForSession (caller : Caller) (issuer : String) (input : McpAuthorizeInput)
    (validated : McpValidatedAuthorizationRequest) (ceilings : σ) :
    Except OAuthResponse OAuthResponse :=
  match caller.authenticatedActor with
  | .error problem =>
    if problem.status = 401 then
      .ok ((server.loginRedirect input validated).getD
        (server.oauthRedirectError issuer validated.redirectUri.asStr input.state
          "invalid_request"))
    else .error (.problem problem)
  | .ok (sessionId, actor) => do
    let (validated, withheld) ← server.applyScopeCeilings ceilings actor validated
    if validated.scopes = [] ∧ withheld ≠ [] then
      return server.oauthRedirectError issuer validated.redirectUri.asStr input.state
        "invalid_scope"
    else
      match caller.csrfCookie with
      | none => throw (.problem ⟨403, "csrf_required", "CSRF token is required"⟩)
      | some csrf =>
        return .page 200 (consentPage server.sign input validated withheld csrf sessionId none)

/-- `mcp_authorize_request`. -/
def mcpAuthorizeRequest (caller : Caller) (parameters : OAuthParameters) (resolve ceilings : σ) :
    Except OAuthResponse OAuthResponse :=
  match server.issuer with
  | none => .error (.problem ⟨404, "not_found", "MCP is not available"⟩)
  | some issuer =>
    let input := parameters.input
    match input.clientId with
    | none => .error (.oauthError 400 "invalid_request" "client_id is required")
    | some clientId => do
      let resolved ← (server.resolveAuthorizationClient resolve ⟨clientId⟩
        input.redirectUri).mapError unsafeAuthorizationError
      if parameters.repeated then
        return server.oauthRedirectError issuer resolved.redirectUri input.state "invalid_request"
      else if input.responseType ≠ some "code" then
        return server.oauthRedirectError issuer resolved.redirectUri input.state
          "unsupported_response_type"
      else if input.codeChallengeMethod ≠ some "S256" then
        return server.oauthRedirectError issuer resolved.redirectUri input.state "invalid_request"
      else
        let request : McpAuthorizationRequest :=
          { clientId := ⟨clientId⟩
            redirectUri := input.redirectUri
            resourceUri := input.resource.getD ""
            scopes := splitAsciiWhitespace (input.scope.getD "")
            codeChallenge := input.codeChallenge.getD "" }
        let validated ← (server.validateResolvedAuthorizationRequest request resolved).mapError
          (server.safeAuthorizationError issuer resolved.redirectUri input.state)
        server.consentForSession caller issuer input validated ceilings

/-- `mcp_authorize_post`, and `mcp_authorize` when there is no body. A body is `none` inside when
it is not UTF-8. -/
def mcpAuthorize (caller : Caller) (query : List (String × String))
    (body : Option (Option (List (String × String)))) (resolve ceilings : σ) :
    Except OAuthResponse OAuthResponse :=
  let parameters := OAuthParameters.append ⟨[], false⟩ query
  match body with
  | none => server.mcpAuthorizeRequest caller parameters resolve ceilings
  | some encoded =>
    if ¬contentTypeIs caller "application/x-www-form-urlencoded" then
      .error (.oauthError 400 "invalid_request" "authorization request body must be form encoded")
    else
      match encoded with
      | none => .error (.oauthError 400 "invalid_request"
        "authorization request encoding is invalid")
      | some pairs => server.mcpAuthorizeRequest caller (parameters.append pairs) resolve ceilings

/-! ## The form -/

/-- The approval of a form whose signature is right. -/
def approve (issuer : String) (actor : Actor) (sessionId : String) (form : McpAuthorizeForm)
    (validated : McpValidatedAuthorizationRequest) (ceilings authorize : σ) :
    Except OAuthResponse ConsentOutcome := do
  let (validated, withheld) ← server.applyScopeCeilings ceilings actor validated
  if withheld ≠ [] then
    return ⟨.page 409 (consentPage server.sign form.input validated withheld form.csrfToken
      sessionId (some "scope上限が変更されたため、選択できる権限が変わりました。内容を確認してもう一度選択してください。")), none⟩
  else if form.selectedScopes = [] then
    return ⟨.page 400 (consentPage server.sign form.input validated withheld form.csrfToken
      sessionId (some "少なくとも1つの権限を選択するか、拒否してください。")), none⟩
  else if ∃ scope ∈ form.selectedScopes,
      scope ∉ validated.scopes ∨ form.selectedScopes.count scope ≠ 1 then
    throw (.oauthError 400 "invalid_scope" "selected scopes exceed the authorization request")
  else
    let (code, action) ← (server.authorizeRequest authorize actor { validated with
      scopes := validated.scopes.filter fun scope => scope ∈ form.selectedScopes }).mapError
        unsafeAuthorizationError
    return ⟨server.oauthRedirect issuer validated.redirectUri.asStr (stateValue form.state)
      (some code) none, some action⟩

/-- `mcp_authorize_consent_inner`. -/
def mcpAuthorizeConsentInner (caller : Caller) (form : McpAuthorizeForm)
    (validate ceilings authorize : σ) : Except OAuthResponse ConsentOutcome :=
  match server.issuer with
  | none => .error (.problem ⟨404, "not_found", "MCP is not available"⟩)
  | some issuer => do
    let (sessionId, actor) ← (caller.authenticatedFormActor server.browserOrigin
      form.csrfToken).mapError .problem
    let validated ← (server.validateAuthorizationRequest validate form.request).mapError
      unsafeAuthorizationError
    if ¬server.verify sessionId (signedBytes form.input validated) form.consentSignature then
      throw (.oauthError 400 "invalid_request" "authorization consent form was modified")
    else if form.decision = "deny" then
      return ⟨server.oauthRedirectError issuer validated.redirectUri.asStr (stateValue form.state)
        "access_denied", none⟩
    else if form.decision = "approve" then
      server.approve issuer actor sessionId form validated ceilings authorize
    else throw (.oauthError 400 "invalid_request" "authorization decision is invalid")

/-- `mcp_authorize_consent`, of the names and values of the body. -/
def mcpAuthorizeConsent (caller : Caller) (body : List (String × String))
    (validate ceilings authorize : σ) : Except OAuthResponse ConsentOutcome :=
  if ¬contentTypeIs caller "application/x-www-form-urlencoded" then
    .error (.oauthError 400 "invalid_request" "authorization consent must be form encoded")
  else
    match McpAuthorizeForm.parse body with
    | none => .error (.oauthError 400 "invalid_request" "authorization consent form is invalid")
    | some form => server.mcpAuthorizeConsentInner caller form validate ceilings authorize

/-! ## What a page shows -/

/-- A request that the Authorization Server has validated. -/
def Validates (state : σ) (request : McpAuthorizationRequest)
    (validated : McpValidatedAuthorizationRequest) : Prop :=
  server.validateAuthorizationRequest state request = .ok validated ∨
    ∃ resolved, server.resolveAuthorizationClient state request.clientId request.redirectUri =
      .ok resolved ∧ server.validateResolvedAuthorizationRequest request resolved = .ok validated

/-- A page shows what is left of a validated request after the ceilings, signed for the session. -/
structure Displays (validate ceilings : σ) (sessionId : String) (actor : Actor)
    (page : ConsentPage) : Prop where
  configured : ∃ issuer, server.issuer = some issuer
  validated : ∃ request validated, server.Validates validate request validated ∧
    server.grantableScopes ceilings actor validated.clientId validated.scopes =
      .ok page.request.scopes ∧
    page.request = { validated with scopes := page.request.scopes }
  signature : page.signature = server.sign sessionId (signedBytes page.input page.request)

/-- What has to be so for a form to be approved. -/
structure Approves (caller : Caller) (body : List (String × String))
    (validate ceilings : σ) (sessionId : String) (actor : Actor) (form : McpAuthorizeForm)
    (validated : McpValidatedAuthorizationRequest)
    (grantable : List Scope) : Prop where
  parsed : McpAuthorizeForm.parse body = some form
  authenticated : caller.authenticatedFormActor server.browserOrigin form.csrfToken =
    .ok (sessionId, actor)
  valid : server.validateAuthorizationRequest validate form.request = .ok validated
  verified : server.verify sessionId (signedBytes form.input validated) form.consentSignature = true
  granted : server.grantableScopes ceilings actor validated.clientId validated.scopes =
    .ok grantable
  withheld : ∀ scope ∈ validated.scopes, scope ∈ grantable
  selected : form.selectedScopes ≠ []
  once : ∀ scope ∈ form.selectedScopes,
    scope ∈ grantable ∧ form.selectedScopes.count scope = 1

variable {server} {validate ceilings authorize : σ} {caller : Caller} {sessionId issuer : String}
  {actor : Actor} {validated : McpValidatedAuthorizationRequest} {page : ConsentPage} {status : ℕ}

theorem resolvedScopeCeilings_eq_ok {stored : McpStoredScopeCeilings}
    {principal client : List Scope} :
    server.resolvedScopeCeilings stored = .ok (principal, client) ↔
      principal = effectiveScopes server.supportedScopes stored.principal ∧
      client = effectiveScopes server.supportedScopes stored.client ∧
      server.scopeCeilings principal client = true := by
  unfold resolvedScopeCeilings
  dsimp only
  split_ifs with hceilings
  · simp only [Except.ok.injEq, Prod.mk.injEq]
    constructor
    · rintro ⟨rfl, rfl⟩
      exact ⟨rfl, rfl, hceilings⟩
    · rintro ⟨rfl, rfl, -⟩
      exact ⟨rfl, rfl⟩
  · constructor
    · intro h
      cases h
    · rintro ⟨rfl, rfl, h⟩
      exact absurd h hceilings

theorem grantableScopes_eq_ok {clientId : ClientId} {requested granted : List Scope} :
    server.grantableScopes ceilings actor clientId requested = .ok granted ↔
      ∃ stored principal client, server.readScopeCeilings ceilings actor clientId = .ok stored ∧
        server.resolvedScopeCeilings stored = .ok (principal, client) ∧
        granted = (server.eligibleScopes requested principal client).getD [] := by
  unfold grantableScopes
  rw [Except.bind_eq_ok]
  constructor
  · rintro ⟨stored, hstored, h⟩
    obtain ⟨⟨principal, client⟩, hresolved, h⟩ := Except.bind_eq_ok.mp h
    exact ⟨stored, principal, client, hstored, hresolved, (Except.ok.inj h).symm⟩
  · rintro ⟨stored, principal, client, hstored, hresolved, rfl⟩
    exact ⟨stored, hstored, Except.bind_eq_ok.mpr ⟨(principal, client), hresolved, rfl⟩⟩

theorem applyScopeCeilings_eq_ok {narrowed : McpValidatedAuthorizationRequest}
    {withheld : List Scope} :
    server.applyScopeCeilings ceilings actor validated = .ok (narrowed, withheld) ↔
      ∃ grantable, server.grantableScopes ceilings actor validated.clientId validated.scopes =
        .ok grantable ∧ narrowed = { validated with scopes := grantable } ∧
        withheld = validated.scopes.filter fun scope => scope ∉ grantable := by
  simp only [applyScopeCeilings, Except.bind_eq_ok, Except.mapError_eq_ok, pure, Except.pure,
    Except.ok.injEq, Prod.mk.injEq]
  exact ⟨fun ⟨grantable, hok, hnarrowed, hwithheld⟩ =>
    ⟨grantable, hok, hnarrowed.symm, hwithheld.symm⟩,
    fun ⟨grantable, hok, hnarrowed, hwithheld⟩ => ⟨grantable, hok, hnarrowed.symm, hwithheld.symm⟩⟩

theorem oauthRedirect_ne_page {redirectUri : String} {state code error : Option String} :
    server.oauthRedirect issuer redirectUri state code error ≠ .page status page := by
  unfold oauthRedirect
  split_ifs <;> simp

/-- A page is shown to a session. -/
theorem consentForSession_page {input : McpAuthorizeInput} {request : McpAuthorizationRequest}
    (hissuer : server.issuer = some issuer) (hvalid : server.Validates validate request validated)
    (h : server.consentForSession caller issuer input validated ceilings =
      .ok (.page status page)) :
    ∃ sessionId actor, caller.authenticatedActor = .ok (sessionId, actor) ∧
      server.Displays validate ceilings sessionId actor page := by
  unfold consentForSession at h
  cases hactor : caller.authenticatedActor with
  | error problem =>
    rw [hactor] at h
    dsimp only at h
    split_ifs at h
    rw [Except.ok.injEq] at h
    cases hlogin : server.loginRedirect input validated with
    | none =>
      rw [hlogin] at h
      exact absurd h oauthRedirect_ne_page
    | some response =>
      rw [hlogin] at h
      simp only [loginRedirect, Option.ite_none_left_eq_some, Option.some.injEq] at hlogin
      rw [← hlogin.2] at h
      cases h
  | ok session =>
    obtain ⟨sessionId, actor⟩ := session
    rw [hactor] at h
    obtain ⟨⟨narrowed, withheld⟩, happly, h⟩ := Except.bind_eq_ok.mp h
    obtain ⟨grantable, hgrantable, rfl, -⟩ := applyScopeCeilings_eq_ok.mp happly
    dsimp only at h
    split_ifs at h with hnone
    · exact absurd (Except.ok.inj h) oauthRedirect_ne_page
    · cases hcsrf : caller.csrfCookie with
      | none =>
        rw [hcsrf] at h
        cases h
      | some csrf =>
        rw [hcsrf] at h
        cases h
        exact ⟨sessionId, actor, rfl, ⟨issuer, hissuer⟩,
          ⟨request, validated, hvalid, hgrantable, rfl⟩, rfl⟩

/-- The first request is answered with a page for a session. -/
theorem mcpAuthorizeRequest_page {parameters : OAuthParameters}
    (h : server.mcpAuthorizeRequest caller parameters validate ceilings = .ok (.page status page)) :
    ∃ sessionId actor, caller.authenticatedActor = .ok (sessionId, actor) ∧
      server.Displays validate ceilings sessionId actor page := by
  unfold mcpAuthorizeRequest at h
  cases hissuer : server.issuer with
  | none =>
    rw [hissuer] at h
    cases h
  | some issuer =>
    rw [hissuer] at h
    dsimp only at h
    cases hclient : parameters.input.clientId with
    | none =>
      rw [hclient] at h
      cases h
    | some clientId =>
      rw [hclient] at h
      obtain ⟨resolved, hresolved, h⟩ := Except.bind_eq_ok.mp h
      rw [Except.mapError_eq_ok] at hresolved
      split_ifs at h
      · exact absurd (Except.ok.inj h) oauthRedirect_ne_page
      · exact absurd (Except.ok.inj h) oauthRedirect_ne_page
      · exact absurd (Except.ok.inj h) oauthRedirect_ne_page
      · obtain ⟨validated, hvalidated, h⟩ := Except.bind_eq_ok.mp h
        rw [Except.mapError_eq_ok] at hvalidated
        exact consentForSession_page hissuer (.inr ⟨resolved, hresolved, hvalidated⟩) h

theorem mcpAuthorize_page {query : List (String × String)}
    {body : Option (Option (List (String × String)))}
    (h : server.mcpAuthorize caller query body validate ceilings = .ok (.page status page)) :
    ∃ sessionId actor, caller.authenticatedActor = .ok (sessionId, actor) ∧
      server.Displays validate ceilings sessionId actor page := by
  unfold mcpAuthorize at h
  rcases body with - | encoded
  · exact mcpAuthorizeRequest_page h
  · dsimp only at h
    split_ifs at h
    rcases encoded with - | pairs
    · cases h
    · exact mcpAuthorizeRequest_page h

/-! ## What a form does -/

/-- The session of a form is the one that is authenticated. -/
theorem authenticatedFormActor_eq_ok {browserOrigin csrfToken : String}
    (h : caller.authenticatedFormActor browserOrigin csrfToken = .ok (sessionId, actor)) :
    caller.authenticatedActor = .ok (sessionId, actor) := by
  obtain ⟨⟨id, who⟩, hactor, h⟩ := Except.bind_eq_ok.mp h
  rw [hactor]
  dsimp only at h
  split_ifs at h
  obtain ⟨verified, -, h⟩ := Except.bind_eq_ok.mp h
  split_ifs at h
  exact h

section Form

variable {body : List (String × String)} {form : McpAuthorizeForm} {outcome : ConsentOutcome}
  {action : TokenAction}

/-- An approval that issues a code took nothing out of the request. -/
theorem approve_issued
    (h : server.approve issuer actor sessionId form validated ceilings authorize = .ok outcome)
    (hissued : outcome.issued = some action) :
    ∃ grantable code, server.grantableScopes ceilings actor validated.clientId validated.scopes =
        .ok grantable ∧
      (∀ scope ∈ validated.scopes, scope ∈ grantable) ∧ form.selectedScopes ≠ [] ∧
      (∀ scope ∈ form.selectedScopes,
        scope ∈ grantable ∧ form.selectedScopes.count scope = 1) ∧
      server.authorizeRequest authorize actor { validated with
        scopes := grantable.filter fun scope => scope ∈ form.selectedScopes } = .ok (code, action) ∧
      outcome.response = server.oauthRedirect issuer validated.redirectUri.asStr
        (stateValue form.state) (some code) none := by
  obtain ⟨⟨narrowed, withheld⟩, happly, h⟩ := Except.bind_eq_ok.mp h
  obtain ⟨grantable, hgrantable, rfl, rfl⟩ := applyScopeCeilings_eq_ok.mp happly
  dsimp only at h
  split_ifs at h with hwithheld hselected hexceeds
  · cases h
    cases hissued
  · cases h
    cases hissued
  · obtain ⟨⟨code, issued⟩, hauthorize, h⟩ := Except.bind_eq_ok.mp h
    rw [Except.mapError_eq_ok] at hauthorize
    cases h
    obtain rfl : issued = action := Option.some.inj hissued
    refine ⟨grantable, code, hgrantable, ?_, hselected, ?_, hauthorize, rfl⟩
    · simpa using hwithheld
    · simpa using hexceeds

/-- A form that is not approved as it is can be shown again. -/
theorem approve_page (hissuer : server.issuer = some issuer)
    (hvalid : server.validateAuthorizationRequest validate form.request = .ok validated)
    (h : server.approve issuer actor sessionId form validated ceilings authorize = .ok outcome)
    (hpage : outcome.response = .page status page) :
    server.Displays validate ceilings sessionId actor page := by
  obtain ⟨⟨narrowed, withheld⟩, happly, h⟩ := Except.bind_eq_ok.mp h
  obtain ⟨grantable, hgrantable, rfl, rfl⟩ := applyScopeCeilings_eq_ok.mp happly
  dsimp only at h
  split_ifs at h with hwithheld hselected hexceeds
  · cases h
    cases hpage
    exact ⟨⟨issuer, hissuer⟩, ⟨form.request, validated, .inl hvalid, hgrantable, rfl⟩, rfl⟩
  · cases h
    cases hpage
    exact ⟨⟨issuer, hissuer⟩, ⟨form.request, validated, .inl hvalid, hgrantable, rfl⟩, rfl⟩
  · obtain ⟨⟨code, issued⟩, -, h⟩ := Except.bind_eq_ok.mp h
    cases h
    exact absurd hpage oauthRedirect_ne_page

/-- A form that is answered came from a session and has the right signature. It is denied, or it
is approved or shown again. -/
theorem mcpAuthorizeConsent_eq_ok
    (h : server.mcpAuthorizeConsent caller body validate ceilings authorize = .ok outcome) :
    ∃ issuer sessionId actor form validated, server.issuer = some issuer ∧
      McpAuthorizeForm.parse body = some form ∧
      caller.authenticatedFormActor server.browserOrigin form.csrfToken = .ok (sessionId, actor) ∧
      server.validateAuthorizationRequest validate form.request = .ok validated ∧
      server.verify sessionId (signedBytes form.input validated) form.consentSignature = true ∧
      (outcome = ⟨server.oauthRedirectError issuer validated.redirectUri.asStr
          (stateValue form.state) "access_denied", none⟩ ∨
        server.approve issuer actor sessionId form validated ceilings authorize = .ok outcome) := by
  unfold mcpAuthorizeConsent at h
  split_ifs at h
  cases hform : McpAuthorizeForm.parse body with
  | none =>
    rw [hform] at h
    cases h
  | some form =>
    rw [hform] at h
    dsimp only at h
    unfold mcpAuthorizeConsentInner at h
    cases hissuer : server.issuer with
    | none =>
      rw [hissuer] at h
      cases h
    | some issuer =>
      rw [hissuer] at h
      obtain ⟨⟨sessionId, actor⟩, hactor, h⟩ := Except.bind_eq_ok.mp h
      obtain ⟨validated, hvalid, h⟩ := Except.bind_eq_ok.mp h
      rw [Except.mapError_eq_ok] at hactor hvalid
      split_ifs at h with hverified hdeny happrove
      · refine ⟨issuer, sessionId, actor, form, validated, rfl, rfl, hactor, hvalid,
          hverified, .inl ?_⟩
        exact (Except.ok.inj h).symm
      · exact ⟨issuer, sessionId, actor, form, validated, rfl, rfl, hactor, hvalid,
          hverified, .inr h⟩

/-- A code is issued for a form that was approved, with what was ticked. -/
theorem mcpAuthorizeConsent_issued
    (h : server.mcpAuthorizeConsent caller body validate ceilings authorize = .ok outcome)
    (hissued : outcome.issued = some action) :
    ∃ issuer sessionId actor form validated grantable code,
      server.Approves caller body validate ceilings sessionId actor form validated grantable ∧
      server.authorizeRequest authorize actor { validated with
        scopes := grantable.filter fun scope => scope ∈ form.selectedScopes } = .ok (code, action) ∧
      server.issuer = some issuer ∧
      outcome.response = server.oauthRedirect issuer validated.redirectUri.asStr
        (stateValue form.state) (some code) none := by
  obtain ⟨issuer, sessionId, actor, form, validated, hissuer, hform, hactor, hvalid, hverified,
    rfl | happrove⟩ := mcpAuthorizeConsent_eq_ok h
  · cases hissued
  · obtain ⟨grantable, code, hgrantable, hwithheld, hselected, honce, hauthorize, hresponse⟩ :=
      approve_issued happrove hissued
    exact ⟨issuer, sessionId, actor, form, validated, grantable, code,
      ⟨hform, hactor, hvalid, hverified, hgrantable, hwithheld, hselected, honce⟩, hauthorize,
      hissuer, hresponse⟩

/-- A form is answered with a page for its session. -/
theorem mcpAuthorizeConsent_page
    (h : server.mcpAuthorizeConsent caller body validate ceilings authorize = .ok outcome)
    (hpage : outcome.response = .page status page) :
    ∃ sessionId actor, caller.authenticatedActor = .ok (sessionId, actor) ∧
      server.Displays validate ceilings sessionId actor page := by
  obtain ⟨issuer, sessionId, actor, form, validated, hissuer, -, hactor, hvalid, -, rfl |
    happrove⟩ :=
    mcpAuthorizeConsent_eq_ok h
  · exact absurd hpage oauthRedirect_ne_page
  · exact ⟨sessionId, actor, authenticatedFormActor_eq_ok hactor,
      approve_page hissuer hvalid happrove hpage⟩

end Form

end ConsentServer

end Marginalis
