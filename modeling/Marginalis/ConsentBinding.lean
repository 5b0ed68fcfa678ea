import Mathlib.Data.List.Nodup
import Marginalis.ConsentEndpoint
import Marginalis.Run

/-!
# Consent is bound to what was shown

The pages that were shown to sessions are the state of a system, whose steps are authorization
requests and consent forms, each with any states of the store it reads (`ConsentEvent`). A MAC that
nobody forges verifies only bytes that were signed for a page of the same session (`Unforgeable`).

`consent_binds` : a code is issued for the client, the redirect URI, the resource, the challenge
and the state of a page that was shown to the session, with scopes that the page shows and that
were selected once each. In the other direction, a form that comes back as it was shown, with a
scope ticked, gets a code for what was ticked, as long as the client and the ceilings are as they
were.
-/

namespace Marginalis

/-! ## What the Authorization Server and the MAC promise -/

/-- The behaviour of the parts that `ConsentServer` stands for. -/
structure ConsentServer.Lawful {σ : Type} (server : ConsentServer σ) : Prop where
  /-- A signature verifies under its key. -/
  verify_sign : ∀ key message, server.verify key message (server.sign key message) = true
  /-- Validated scopes are scope tokens. -/
  validated_scopes : ∀ state request validated, server.Validates state request validated →
    ∀ scope ∈ validated.scopes, IsScope scope
  /-- Validated scopes are a set. -/
  validated_nodup : ∀ state request validated, server.Validates state request validated →
    validated.scopes.Nodup
  /-- What was validated is valid again, also with fewer scopes, while the client is as it was. -/
  validates_again : ∀ state state' request validated scopes,
    server.Validates state request validated →
    server.registration state' validated.clientId = server.registration state validated.clientId →
    scopes.Sublist validated.scopes → scopes ≠ [] →
    server.validateAuthorizationRequest state' (validated.shown scopes) =
      .ok { validated with scopes := scopes }
  /-- Eligible scopes are some of those requested. -/
  eligible_sublist : ∀ requested principal client granted,
    server.eligibleScopes requested principal client = some granted → granted.Sublist requested
  /-- A request of which nothing is eligible is not granted. -/
  eligible_ne_nil : ∀ requested principal client granted,
    server.eligibleScopes requested principal client = some granted → granted ≠ []
  /-- A request within both ceilings is granted as it is. -/
  eligible_within : ∀ requested principal client, requested ≠ [] → requested.Nodup →
    requested ⊆ principal → requested ⊆ client →
    server.eligibleScopes requested principal client = some requested

/-! ## Runs -/

/-- An authorization request or a consent form, with the states of the store it reads. -/
inductive ConsentEvent (σ : Type)
  | authorize (caller : Caller) (query : List (String × String))
      (body : Option (Option (List (String × String)))) (validate ceilings : σ)
  | consent (caller : Caller) (body : List (String × String)) (validate ceilings issuance : σ)

/-- The pages that were shown, with their sessions. -/
abbrev ShownPages := List (String × ConsentPage)

namespace ConsentEvent

variable {σ : Type} (server : ConsentServer σ)

def caller : ConsentEvent σ → Caller
  | authorize caller .. | consent caller .. => caller

/-- The state in which the client and its request are looked up. -/
def validation : ConsentEvent σ → σ
  | authorize _ _ _ validate _ | consent _ _ validate _ _ => validate

/-- The state in which the ceilings are read for the page. -/
def ceilings : ConsentEvent σ → σ
  | authorize _ _ _ _ ceilings | consent _ _ _ ceilings _ => ceilings

/-- The form that was posted. -/
def form : ConsentEvent σ → Option McpAuthorizeForm
  | authorize .. => none
  | consent _ body _ _ _ => McpAuthorizeForm.parse body

def respond : ConsentEvent σ → Except OAuthResponse ConsentOutcome
  | authorize caller query body validate ceilings =>
    (server.mcpAuthorize caller query body validate ceilings).map fun response => ⟨response, none⟩
  | consent caller body validate ceilings issuance =>
    server.mcpAuthorizeConsent caller body validate ceilings issuance

/-- The page in a response. -/
def shownPage (e : ConsentEvent σ) : Option ConsentPage :=
  match e.respond server with
  | .ok ⟨.page _ page, _⟩ => some page
  | _ => none

/-- The pages after a response. -/
def next (shown : ShownPages) (e : ConsentEvent σ) : ShownPages :=
  match e.shownPage server, e.caller.sessionCookie with
  | some page, some sessionId => (sessionId, page) :: shown
  | _, _ => shown

/-- The texts that are signed and verified fit into memory. -/
structure InRange (e : ConsentEvent σ) : Prop where
  shown : ∀ page ∈ e.shownPage server, SignedInRange page.input page.request
  posted : ∀ caller body validate ceilings issuance form validated,
    e = .consent caller body validate ceilings issuance →
    McpAuthorizeForm.parse body = some form →
    server.validateAuthorizationRequest validate form.request = .ok validated →
    SignedInRange form.input validated

def Step (shown : ShownPages) (e : ConsentEvent σ) (shown' : ShownPages) : Prop :=
  e.InRange server ∧ shown' = e.next server shown

end ConsentEvent

variable {σ : Type} {server : ConsentServer σ}

/-- Nobody forges the MAC : what verifies under the key of a session was signed for a page that was
shown to it. -/
def Unforgeable (server : ConsentServer σ) (moves : List (Move ShownPages (ConsentEvent σ))) :
    Prop :=
  ∀ m ∈ moves, ∀ caller body validate ceilings issuance form sessionId message,
    m.label = .consent caller body validate ceilings issuance →
    McpAuthorizeForm.parse body = some form → caller.sessionCookie = some sessionId →
    server.verify sessionId message form.consentSignature = true →
    ∃ page, (sessionId, page) ∈ m.pre ∧ signedBytes page.input page.request = message

/-- The code is for what the page shows : the scopes are some of the page's, each selected once. -/
def ConsentPage.Covers (page : ConsentPage) (actor : Actor) (selected : List Scope) (code : String)
    (action : TokenAction) : Prop :=
  ∃ registered granted expiresAt,
    action = .issue code registered
      ⟨actor.authenticatedIdentity, page.request.clientId, page.request.redirectUri,
        page.request.resourceUri, granted⟩ page.request.codeChallenge expiresAt ∧
    granted ≠ [] ∧ ∀ scope ∈ granted, scope ∈ page.request.scopes ∧ selected.count scope = 1

/-! ## Pages that were shown -/

namespace ConsentEvent

variable {shown : ShownPages} {e : ConsentEvent σ} {page : ConsentPage}

theorem sessionCookie_of_authenticatedActor {caller : Caller} {sessionId : String} {actor : Actor}
    (h : caller.authenticatedActor = .ok (sessionId, actor)) :
    caller.sessionCookie = some sessionId := by
  unfold Caller.authenticatedActor at h
  cases hcookie : caller.sessionCookie with
  | none =>
    rw [hcookie] at h
    cases h
  | some id =>
    rw [hcookie] at h
    obtain ⟨session, -, h⟩ := Except.bind_eq_ok.mp h
    cases session with
    | none => cases h
    | some who =>
      cases h
      rfl

/-- A page is shown to the session of the request. -/
theorem displays_of_shownPage (h : e.shownPage server = some page) : ∃ sessionId actor,
    e.caller.authenticatedActor = .ok (sessionId, actor) ∧
      server.Displays e.validation e.ceilings sessionId actor page := by
  unfold shownPage at h
  split at h
  · rename_i status shown issued hrespond
    obtain rfl : shown = page := Option.some.inj h
    cases e with
    | authorize caller query body validate ceilings =>
      obtain ⟨response, hresponse, heq⟩ := Except.map_eq_ok.mp hrespond
      cases heq
      exact ConsentServer.mcpAuthorize_page hresponse
    | consent caller body validate ceilings issuance =>
      exact ConsentServer.mcpAuthorizeConsent_page hrespond rfl
  · cases h

/-- What is known of the pages that were shown. -/
def Sound (server : ConsentServer σ) (shown : ShownPages) : Prop :=
  ∀ entry ∈ shown, SignedInRange entry.2.input entry.2.request ∧
    ∃ validate ceilings actor, server.Displays validate ceilings entry.1 actor entry.2

theorem Sound.step (h : Sound server shown) {shown' : ShownPages}
    (hstep : e.Step server shown shown') : Sound server shown' := by
  obtain ⟨hrange, rfl⟩ := hstep
  unfold next
  split
  · rename_i page sessionId hpage hcookie
    intro entry hentry
    rcases List.mem_cons.mp hentry with rfl | hentry
    · obtain ⟨id, actor, hactor, hdisplays⟩ := displays_of_shownPage hpage
      have hid := sessionCookie_of_authenticatedActor hactor
      rw [hcookie, Option.some.injEq] at hid
      exact ⟨hrange.shown page hpage, _, _, actor, hid ▸ hdisplays⟩
    · exact h entry hentry
  · exact h

end ConsentEvent

/-- The scopes of a page are those that are granted of validated ones. -/
theorem ConsentServer.Lawful.sublist_of_grantable (hlawful : server.Lawful) {state : σ}
    {actor : Actor}
    {clientId : ClientId} {requested granted : List Scope}
    (h : server.grantableScopes state actor clientId requested = .ok granted) :
    granted.Sublist requested := by
  obtain ⟨stored, principal, client, -, -, rfl⟩ := ConsentServer.grantableScopes_eq_ok.mp h
  cases heligible : server.eligibleScopes requested principal client with
  | none => exact List.nil_sublist _
  | some eligible => exact hlawful.eligible_sublist _ _ _ _ heligible

theorem ConsentServer.Displays.isScope (hlawful : server.Lawful) {validate ceilings : σ}
    {sessionId : String} {actor : Actor} {page : ConsentPage}
    (h : server.Displays validate ceilings sessionId actor page) :
    ∀ scope ∈ page.request.scopes, IsScope scope := by
  obtain ⟨request, validated, hvalid, hgrantable, -⟩ := h.validated
  intro scope hscope
  exact hlawful.validated_scopes _ _ _ hvalid scope
    ((hlawful.sublist_of_grantable hgrantable).subset hscope)

/-! ## Codes -/

/-- What `authorize` issues a code for. -/
theorem ConsentServer.Lawful.authorizeRequest_eq_ok (hlawful : server.Lawful) {state : σ}
    {actor : Actor} {request : McpValidatedAuthorizationRequest} {code : String}
    {action : TokenAction} (h : server.authorizeRequest state actor request = .ok (code, action)) :
    ∃ granted expiresAt, granted ≠ [] ∧ granted.Sublist request.scopes ∧
      action = .issue code request.client ⟨actor.authenticatedIdentity, request.clientId,
        request.redirectUri, request.resourceUri, granted⟩ request.codeChallenge expiresAt := by
  obtain ⟨stored, -, h⟩ := Except.bind_eq_ok.mp h
  obtain ⟨ceilings, -, h⟩ := Except.bind_eq_ok.mp h
  split at h
  · cases h
  · rename_i issued hissued
    obtain ⟨-, -, h⟩ := Except.bind_eq_ok.mp h
    cases h
    unfold AuthorizationServer.authorize at hissued
    dsimp only at hissued
    split_ifs at hissued
    obtain ⟨granted, hgranted, rfl⟩ := Option.map_eq_some_iff.mp hissued
    exact ⟨granted, _, hlawful.eligible_ne_nil _ _ _ _ hgranted,
      hlawful.eligible_sublist _ _ _ _ hgranted, rfl⟩

/-- An absent state goes back as the empty one does. -/
theorem stateValue_eq_of_getD {state state' : Option String} (h : state.getD "" = state'.getD "") :
    stateValue state = stateValue state' := by
  have hvalue : ∀ state : Option String,
      stateValue state = if state.getD "" = "" then none else some (state.getD "") := by
    intro state
    cases state with
    | none => rfl
    | some value => by_cases hvalue : value = "" <;> simp [stateValue, hvalue]
  rw [hvalue, hvalue, h]

/-- The codes of a step are for pages that were shown before to its session, and the state goes back
with them. -/
def ConsentEvent.Bound (server : ConsentServer σ) (shown : ShownPages) (e : ConsentEvent σ) :
    Prop :=
  ∀ outcome action, e.respond server = .ok outcome → outcome.issued = some action →
    ∃ sessionId actor form page issuer code,
      e.caller.authenticatedActor = .ok (sessionId, actor) ∧ e.form = some form ∧
      (sessionId, page) ∈ shown ∧ page.Covers actor form.selectedScopes code action ∧
      outcome.response = server.oauthRedirect issuer page.request.redirectUri.asStr
        (stateValue page.input.state) (some code) none

theorem ConsentServer.Lawful.bound (hlawful : server.Lawful)
    {moves : List (Move ShownPages (ConsentEvent σ))} {shown : ShownPages}
    (hrun : Run (fun shown e shown' => ConsentEvent.Step server shown e shown') [] moves shown)
    (hunforgeable : Unforgeable server moves) {m : Move ShownPages (ConsentEvent σ)}
    (hm : m ∈ moves) : m.label.Bound server m.pre := by
  intro outcome action h hissued
  cases hlabel : m.label with
  | authorize caller query body validate ceilings =>
    rw [hlabel] at h
    obtain ⟨response, -, rfl⟩ := Except.map_eq_ok.mp h
    cases hissued
  | consent caller body validate ceilings issuance =>
  rw [hlabel] at h
  obtain ⟨issuer, sessionId, actor, form, validated, grantable, code, happroves, hauthorize, -,
    hresponse⟩ := ConsentServer.mcpAuthorizeConsent_issued h hissued
  have hactor := ConsentServer.authenticatedFormActor_eq_ok happroves.authenticated
  have hcookie := ConsentEvent.sessionCookie_of_authenticatedActor hactor
  obtain ⟨page, hpage, hsigned⟩ := hunforgeable m hm caller body validate ceilings issuance form
    sessionId _ hlabel happroves.parsed hcookie happroves.verified
  have hsound : ConsentEvent.Sound server m.pre :=
    hrun.invariant_of_mem (P := ConsentEvent.Sound server) (fun _ _ _ hs hstep => hs.step hstep)
      (by simp [ConsentEvent.Sound]) hm
  obtain ⟨hrange, _, _, _, hdisplays⟩ := hsound _ hpage
  have hposted : SignedInRange form.input validated :=
    (hrun.of_mem hm).2.1.1.posted caller body validate ceilings issuance form validated hlabel
      happroves.parsed happroves.valid
  obtain ⟨hclient, huri, hresource, hscopes, hchallenge, hstate⟩ := signedBytes_inj hrange hposted
    (hdisplays.isScope hlawful)
    (hlawful.validated_scopes _ _ _ (.inl happroves.valid)) hsigned
  obtain ⟨granted, expiresAt, hne, hsub, rfl⟩ := hlawful.authorizeRequest_eq_ok hauthorize
  refine ⟨sessionId, actor, form, page, issuer, code, hactor, happroves.parsed, hpage, ?_, ?_⟩
  · refine ⟨validated.client, granted, expiresAt, ?_, hne, fun scope hscope => ?_⟩
    · rw [hclient, huri, hresource, hchallenge]
      rfl
    · have hmem := List.mem_filter.mp (hsub.subset hscope)
      have hselected : scope ∈ form.selectedScopes := by simpa using hmem.2
      refine ⟨?_, (happroves.once scope hselected).2⟩
      rw [hscopes]
      exact (hlawful.sublist_of_grantable happroves.granted).subset hmem.1
  · rw [hresponse, huri]
    congr 1
    exact stateValue_eq_of_getD hstate.symm

/-! ## Forms that come back as they were shown -/

/-- Filtering for the members of a part of a list without repetitions gives that part. -/
theorem filter_eq_of_sublist {α : Type*} {part l : List α} {p : α → Bool} (h : part.Sublist l)
    (hnodup : l.Nodup) (hp : ∀ a ∈ l, p a = true ↔ a ∈ part) : l.filter p = part := by
  induction h with
  | slnil => rfl
  | @cons part l a h ih =>
    rw [List.nodup_cons] at hnodup
    have hnot : ¬p a = true := fun hpa =>
      hnodup.1 (h.subset ((hp a (List.mem_cons_self ..)).mp hpa))
    rw [List.filter_cons_of_neg hnot]
    exact ih hnodup.2 fun b hb => hp b (List.mem_cons_of_mem _ hb)
  | @cons_cons part l a h ih =>
    rw [List.nodup_cons] at hnodup
    have ha : p a = true := (hp a (List.mem_cons_self ..)).mpr (List.mem_cons_self ..)
    rw [List.filter_cons_of_pos ha]
    congr 1
    refine ih hnodup.2 fun b hb => ?_
    have hne : b ≠ a := fun hba => hnodup.1 (hba ▸ hb)
    rw [hp b (List.mem_cons_of_mem _ hb), List.mem_cons, or_iff_right hne]

/-- The ceilings that a page was made with grant again what it shows, and any part of it. -/
theorem ConsentServer.Lawful.eligible_again (hlawful : server.Lawful)
    {requested principal client granted part : List Scope}
    (h : server.eligibleScopes requested principal client = some granted)
    (hnodup : requested.Nodup) (hpart : part.Sublist granted) (hne : part ≠ []) :
    server.eligibleScopes part principal client = some part := by
  obtain ⟨hprincipal, hclient⟩ := server.eligibleScopes_subset _ _ _ _ h
  have hsub := hpart.trans (hlawful.eligible_sublist _ _ _ _ h)
  exact hlawful.eligible_within _ _ _ hne (hsub.nodup hnodup)
    (fun scope hscope => hprincipal (hpart.subset hscope))
    fun scope hscope => hclient (hpart.subset hscope)

/-- The action that issues a code for what a page shows, with the scopes that were ticked. -/
def ConsentPage.issue (page : ConsentPage) (actor : Actor) (selected : List Scope) (code : String)
    (expiresAt : ℤ) : TokenAction :=
  .issue code page.request.client
    ⟨actor.authenticatedIdentity, page.request.clientId, page.request.redirectUri,
      page.request.resourceUri, selected⟩ page.request.codeChallenge expiresAt

/-- The form of a page is accepted : when it comes back as it was shown, with some of the scopes
ticked and while the client and its ceilings are as they were, the store is asked to issue a code
for the page. -/
def ConsentServer.Accepts (server : ConsentServer σ) (validate ceilings : σ) (sessionId : String)
    (actor : Actor) (page : ConsentPage) : Prop :=
  ∀ (caller : Caller) (selected : List Scope) (validate' ceilings' issuance : σ),
    contentTypeIs caller "application/x-www-form-urlencoded" = true →
    caller.authenticatedFormActor server.browserOrigin page.csrf = .ok (sessionId, actor) →
    selected.Sublist page.request.scopes → selected ≠ [] →
    server.registration validate' page.request.clientId =
      server.registration validate page.request.clientId →
    (∀ state ∈ [ceilings', issuance],
      server.storedScopeCeilings state actor.principalId page.request.clientId =
        server.storedScopeCeilings ceilings actor.principalId page.request.clientId) →
    ∃ code expiresAt response,
      server.mcpAuthorizeConsent caller (page.submit selected) validate' ceilings' issuance =
        ((server.store issuance (page.issue actor selected code expiresAt)).mapError
          unsafeAuthorizationError).map fun _ =>
            ⟨response, some (page.issue actor selected code expiresAt)⟩

section Accepted

variable {validate ceilings : σ} {sessionId : String} {actor : Actor} {page : ConsentPage}

/-- The ceilings that a page was made with grant any part of what it shows. -/
theorem ConsentServer.Displays.grantable_again (hlawful : server.Lawful)
    (hdisplays : server.Displays validate ceilings sessionId actor page)
    (hshown : page.request.scopes ≠ []) : ∃ stored principal client,
      server.readScopeCeilings ceilings actor page.request.clientId = .ok stored ∧
      server.resolvedScopeCeilings stored = .ok (principal, client) ∧
      page.request.scopes.Nodup ∧
      ∀ part : List Scope, part.Sublist page.request.scopes → part ≠ [] →
        server.eligibleScopes part principal client = some part := by
  obtain ⟨request, validated, hvalid, hgrantable, hrequest⟩ := hdisplays.validated
  have hid : page.request.clientId = validated.clientId := by
    rw [hrequest]
    rfl
  obtain ⟨stored, principal, client, hstored, hresolved, hgranted⟩ :=
    ConsentServer.grantableScopes_eq_ok.mp hgrantable
  have heligible : server.eligibleScopes validated.scopes principal client =
      some page.request.scopes := by
    cases hcases : server.eligibleScopes validated.scopes principal client with
    | none =>
      rw [hcases] at hgranted
      exact absurd hgranted hshown
    | some granted =>
      rw [hcases] at hgranted
      rw [hgranted]
      rfl
  have hnodup := hlawful.validated_nodup _ _ _ hvalid
  rw [hid]
  exact ⟨stored, principal, client, hstored, hresolved,
    (hlawful.eligible_sublist _ _ _ _ heligible).nodup hnodup,
    fun part => hlawful.eligible_again heligible hnodup⟩

/-- The request that a form of a page carries is validated again, with the scopes of the page. -/
theorem ConsentServer.Displays.validated_again (hlawful : server.Lawful)
    (hdisplays : server.Displays validate ceilings sessionId actor page)
    (hshown : page.request.scopes ≠ []) {validate' : σ} (selected : List Scope)
    (hclient : server.registration validate' page.request.clientId =
      server.registration validate page.request.clientId) :
    server.validateAuthorizationRequest validate' (page.form selected).request =
      .ok page.request := by
  obtain ⟨request, validated, hvalid, hgrantable, hrequest⟩ := hdisplays.validated
  have hid : validated.clientId = page.request.clientId := by
    rw [hrequest]
    rfl
  rw [request_form page selected (hdisplays.isScope hlawful)]
  have hvalidates := hlawful.validates_again validate validate' request validated
    page.request.scopes hvalid (by rw [hid, hclient]) (hlawful.sublist_of_grantable hgrantable)
    hshown
  rw [← hrequest] at hvalidates
  rw [← hvalidates, hrequest]
  rfl

/-- A code is issued for a part of what a page shows. -/
theorem ConsentServer.authorizeRequest_again {state : σ} {stored : McpStoredScopeCeilings}
    {principal client selected : List Scope}
    (hread : server.readScopeCeilings state actor page.request.clientId = .ok stored)
    (hresolved : server.resolvedScopeCeilings stored = .ok (principal, client))
    (heligible : server.eligibleScopes selected principal client = some selected) :
    server.authorizeRequest state actor { page.request with scopes := selected } =
      (server.store state (page.issue actor selected (server.drawCode state).1
        (server.drawCode state).2)).map fun _ =>
          ((server.drawCode state).1, page.issue actor selected (server.drawCode state).1
            (server.drawCode state).2) := by
  obtain ⟨hprincipal, hclient, hboth⟩ := ConsentServer.resolvedScopeCeilings_eq_ok.mp hresolved
  have hauthorize : server.authorize ⟨⟨actor, page.request.client, page.request.redirectUri,
      page.request.resourceUri, selected, page.request.codeChallenge⟩, stored⟩
      (server.drawCode state).1 (server.drawCode state).2 =
      some (page.issue actor selected (server.drawCode state).1 (server.drawCode state).2) := by
    unfold AuthorizationServer.authorize
    dsimp only
    rw [← hprincipal, ← hclient, if_pos hboth, heligible]
    rfl
  have hread' : server.readScopeCeilings state actor
      { page.request with scopes := selected }.clientId = .ok stored := hread
  unfold ConsentServer.authorizeRequest
  rw [hread']
  dsimp only [bind, Except.bind]
  rw [hresolved]
  dsimp only
  rw [hauthorize]
  dsimp only
  cases server.store state (page.issue actor selected (server.drawCode state).1
    (server.drawCode state).2) <;> rfl

/-- The form of a page that is displayed is accepted. -/
theorem ConsentServer.Displays.accepts (hlawful : server.Lawful)
    (hdisplays : server.Displays validate ceilings sessionId actor page) :
    server.Accepts validate ceilings sessionId actor page := by
  intro caller selected validate' ceilings' issuance hcontent hactor hselected hne hclient hceilings
  obtain ⟨issuer, hissuer⟩ := hdisplays.configured
  have hscopes := hdisplays.isScope hlawful
  have hshown : page.request.scopes ≠ [] := by
    rintro hnil
    rw [hnil, List.sublist_nil] at hselected
    exact hne hselected
  obtain ⟨stored, principal, client, hstored, hresolved, hnodup, hagain⟩ :=
    hdisplays.grantable_again hlawful hshown
  have hread : ∀ state ∈ [ceilings', issuance],
      server.readScopeCeilings state actor page.request.clientId = .ok stored := by
    intro state hstate
    rw [← hstored]
    unfold ConsentServer.readScopeCeilings
    rw [hceilings state hstate]
  have happly : server.applyScopeCeilings ceilings' actor page.request =
      .ok (page.request, []) := by
    refine ConsentServer.applyScopeCeilings_eq_ok.mpr ⟨page.request.scopes, ?_, rfl, ?_⟩
    · refine ConsentServer.grantableScopes_eq_ok.mpr
        ⟨stored, principal, client, hread _ (by simp), hresolved, ?_⟩
      rw [hagain _ (List.Sublist.refl _) hshown]
      rfl
    · simp
  have honce : ¬∃ scope ∈ selected, scope ∉ page.request.scopes ∨ selected.count scope ≠ 1 := by
    rintro ⟨scope, hscope, hnot | hcount⟩
    · exact hnot (hselected.subset hscope)
    · exact hcount (List.count_eq_one_of_mem (hselected.nodup hnodup) hscope)
  have happrove : server.approve issuer actor sessionId (page.form selected) page.request ceilings'
      issuance = ((server.store issuance (page.issue actor selected (server.drawCode issuance).1
        (server.drawCode issuance).2)).mapError unsafeAuthorizationError).map fun _ =>
          ⟨server.oauthRedirect issuer page.request.redirectUri.asStr
            (stateValue page.input.state) (some (server.drawCode issuance).1) none,
            some (page.issue actor selected (server.drawCode issuance).1
              (server.drawCode issuance).2)⟩ := by
    unfold ConsentServer.approve
    rw [happly]
    dsimp only [ConsentPage.form, bind, Except.bind]
    rw [if_neg (by simp)]
    refine (if_neg hne).trans ((if_neg honce).trans ?_)
    rw [filter_eq_of_sublist hselected hnodup]
    · rw [ConsentServer.authorizeRequest_again (hread _ (by simp)) hresolved
        (hagain selected hselected hne)]
      cases server.store issuance (page.issue actor selected (server.drawCode issuance).1
        (server.drawCode issuance).2) <;> rfl
    · exact fun _ _ => decide_eq_true_iff
  refine ⟨(server.drawCode issuance).1, (server.drawCode issuance).2, _, Eq.trans ?_ happrove⟩
  unfold ConsentServer.mcpAuthorizeConsent
  rw [if_neg (by simpa using hcontent), parse_submit page fun scope hscope hempty => ?_]
  · dsimp only
    unfold ConsentServer.mcpAuthorizeConsentInner
    rw [hissuer]
    dsimp only
    rw [ConsentPage.csrfToken_form, hactor,
      hdisplays.validated_again hlawful hshown selected hclient]
    have hverified : server.verify sessionId (signedBytes (page.form selected).input page.request)
        (page.form selected).consentSignature = true := by
      rw [ConsentPage.signature_form, hdisplays.signature]
      exact hlawful.verify_sign _ _
    dsimp only [bind, Except.bind, Except.mapError]
    rw [if_neg (by simpa using hverified), if_neg (by simp [ConsentPage.form])]
    exact if_pos rfl
  · have hscope := hscopes scope (hselected.subset hscope)
    rw [hempty] at hscope
    exact hscope.1 rfl

end Accepted

/-! ## Consent -/

/-- Codes are issued for pages that the same session was shown, what is signed determines the fields
of a page, and the form of every page that is shown is accepted. -/
theorem consent_binds (hlawful : server.Lawful)
    {moves : List (Move ShownPages (ConsentEvent σ))} {shown : ShownPages}
    (hrun : Run (fun shown e shown' => ConsentEvent.Step server shown e shown') [] moves shown)
    (hunforgeable : Unforgeable server moves) :
    (∀ m ∈ moves, m.label.Bound server m.pre) ∧
    (∀ input request input' request', SignedInRange input request → SignedInRange input' request' →
      (∀ scope ∈ request.scopes, IsScope scope) → (∀ scope ∈ request'.scopes, IsScope scope) →
      signedBytes input request = signedBytes input' request' →
      request.clientId = request'.clientId ∧ request.redirectUri = request'.redirectUri ∧
        request.resourceUri = request'.resourceUri ∧ request.scopes = request'.scopes ∧
        request.codeChallenge = request'.codeChallenge ∧
        input.state.getD "" = input'.state.getD "") ∧
    ∀ m ∈ moves, ∀ page, m.label.shownPage server = some page → ∃ sessionId actor,
      m.label.caller.authenticatedActor = .ok (sessionId, actor) ∧
      server.Accepts m.label.validation m.label.ceilings sessionId actor page := by
  refine ⟨fun m hm => hlawful.bound hrun hunforgeable hm, ?_, fun m _ page hpage => ?_⟩
  · intro input request input' request' hrange hrange' hscopes hscopes' h
    exact signedBytes_inj hrange hrange' hscopes hscopes' h
  · obtain ⟨sessionId, actor, hactor, hdisplays⟩ := ConsentEvent.displays_of_shownPage hpage
    exact ⟨sessionId, actor, hactor, hdisplays.accepts hlawful⟩

/-! ## A consent -/

/-- The request of a client for reading and writing. -/
def sampleConsentRequest : McpValidatedAuthorizationRequest where
  client := sampleClient
  redirectUri := .supplied "https://client.example.test/callback"
  resourceUri := "https://notes.example.test/mcp"
  scopes := ["notes:read", "notes:write"]
  codeChallenge := "challenge-1"

def sampleConsentInput : McpAuthorizeInput where
  responseType := some "code"
  clientId := some "client-1"
  redirectUri := some "https://client.example.test/callback"
  resource := some "https://notes.example.test/mcp"
  scope := some "notes:read notes:write"
  codeChallenge := some "challenge-1"
  codeChallengeMethod := some "S256"
  state := some "state-1"

/-- The MAC of that request under the key of a session. -/
def sampleConsentSignature (key : String) (message : List UInt8) : String :=
  if key = "session-1" ∧ message = signedBytes sampleConsentInput sampleConsentRequest then
    "FS-hKC-mN4wptfSfqLHT9lFkCpmPHZRTjXqo3665sqc"
  else ""

/-- The client that is registered, with a redirect URI of its own. -/
def sampleResolve (clientId : ClientId) (redirectUri : Option String) :
    Except McpOAuthUseCaseError McpAuthorizationClient :=
  if clientId = ⟨"client-1"⟩ ∧
      redirectUri.getD "https://client.example.test/callback" =
        "https://client.example.test/callback" then
    .ok ⟨sampleClient, "https://client.example.test/callback"⟩
  else .error .other

def sampleValidateResolved (request : McpAuthorizationRequest) (resolved : McpAuthorizationClient) :
    Except McpOAuthUseCaseError McpValidatedAuthorizationRequest :=
  if request.scopes ≠ [] ∧ request.scopes.Sublist ["notes:read", "notes:write"] then
    .ok { client := resolved.client
          redirectUri := if request.redirectUri.isSome then .supplied resolved.redirectUri
            else .inferred resolved.redirectUri
          resourceUri := request.resourceUri
          scopes := request.scopes
          codeChallenge := request.codeChallenge }
  else .error .invalidScope

/-- The scopes of a request that are within both ceilings, if there are any. -/
def sampleEligible (requested principal client : List Scope) : Option (List Scope) :=
  if (requested.filter fun scope => scope ∈ principal ∧ scope ∈ client) = [] then none
  else some (requested.filter fun scope => scope ∈ principal ∧ scope ∈ client)

theorem sampleEligible_eq_some {requested principal client granted : List Scope} :
    sampleEligible requested principal client = some granted ↔
      granted = (requested.filter fun scope => scope ∈ principal ∧ scope ∈ client) ∧
      granted ≠ [] := by
  unfold sampleEligible
  split_ifs with hnil
  · refine ⟨fun h => absurd h (by simp), ?_⟩
    rintro ⟨rfl, hne⟩
    exact absurd hnil hne
  · refine ⟨?_, ?_⟩
    · rintro h
      obtain rfl := Option.some.inj h
      exact ⟨rfl, hnil⟩
    · rintro ⟨rfl, -⟩
      rfl

def sampleConsentServer : ConsentServer Unit where
  __ := sampleServer
  eligibleScopes := sampleEligible
  eligibleScopes_subset requested principal client granted h := by
    obtain ⟨rfl, -⟩ := sampleEligible_eq_some.mp h
    refine ⟨fun scope hscope => ?_, fun scope hscope => ?_⟩
    · exact (of_decide_eq_true (List.mem_filter.mp hscope).2).1
    · exact (of_decide_eq_true (List.mem_filter.mp hscope).2).2
  issuer := some "https://notes.example.test"
  browserOrigin := "https://notes.example.test"
  urlParses uri := uri = "https://client.example.test/callback"
  loginResumePath _ := "/oauth/authorize"
  sign := sampleConsentSignature
  verify key message signature := signature = sampleConsentSignature key message
  registration _ clientId := if clientId = ⟨"client-1"⟩ then some sampleClient else none
  resolveAuthorizationClient _ := sampleResolve
  validateResolvedAuthorizationRequest := sampleValidateResolved
  validateAuthorizationRequest _ request := do
    sampleValidateResolved request (← sampleResolve request.clientId request.redirectUri)
  storedScopeCeilings _ _ _ := some ⟨none, none⟩
  drawCode _ := ("code-alice", 300000)
  store _ _ := .ok ()

theorem sampleResolve_eq_ok {clientId : ClientId} {redirectUri : Option String}
    {resolved : McpAuthorizationClient} : sampleResolve clientId redirectUri = .ok resolved ↔
      (clientId = ⟨"client-1"⟩ ∧ redirectUri.getD "https://client.example.test/callback" =
        "https://client.example.test/callback") ∧
      resolved = ⟨sampleClient, "https://client.example.test/callback"⟩ := by
  unfold sampleResolve
  split_ifs with h
  · simp [h, eq_comm]
  · simp [h]

theorem sampleValidateResolved_eq_ok {request : McpAuthorizationRequest}
    {resolved : McpAuthorizationClient} {validated : McpValidatedAuthorizationRequest} :
    sampleValidateResolved request resolved = .ok validated ↔
      (request.scopes ≠ [] ∧ request.scopes.Sublist ["notes:read", "notes:write"]) ∧
      validated = { client := resolved.client
                    redirectUri := if request.redirectUri.isSome then .supplied resolved.redirectUri
                      else .inferred resolved.redirectUri
                    resourceUri := request.resourceUri
                    scopes := request.scopes
                    codeChallenge := request.codeChallenge } := by
  unfold sampleValidateResolved
  by_cases h : request.scopes ≠ [] ∧ request.scopes.Sublist ["notes:read", "notes:write"]
  · rw [if_pos h, Except.ok.injEq, eq_comm, and_iff_right h]
  · rw [if_neg h]
    simp only [reduceCtorEq, h, false_and]

/-- What the server has validated. -/
theorem validates_sampleConsentServer {state : Unit} {request : McpAuthorizationRequest}
    {validated : McpValidatedAuthorizationRequest}
    (h : sampleConsentServer.Validates state request validated) :
    sampleResolve request.clientId request.redirectUri =
        .ok ⟨sampleClient, "https://client.example.test/callback"⟩ ∧
      sampleValidateResolved request
        ⟨sampleClient, "https://client.example.test/callback"⟩ = .ok validated := by
  obtain h | ⟨resolved, hresolved, h⟩ := h
  · obtain ⟨resolved, hresolved, h⟩ := Except.bind_eq_ok.mp h
    obtain ⟨-, rfl⟩ := sampleResolve_eq_ok.mp hresolved
    exact ⟨hresolved, h⟩
  · obtain ⟨-, rfl⟩ := sampleResolve_eq_ok.mp hresolved
    exact ⟨hresolved, h⟩

theorem verify_sampleConsentServer {key signature : String} {message : List UInt8} :
    sampleConsentServer.verify key message signature = true ↔
      signature = sampleConsentSignature key message :=
  decide_eq_true_iff

theorem lawful_sampleConsentServer : sampleConsentServer.Lawful where
  verify_sign key message := decide_eq_true rfl
  validated_scopes state request validated h scope hscope := by
    obtain ⟨⟨-, hsub⟩, rfl⟩ := sampleValidateResolved_eq_ok.mp (validates_sampleConsentServer h).2
    have hsupported : ∀ scope ∈ ["notes:read", "notes:write"], IsScope scope := by decide
    exact hsupported scope (hsub.subset hscope)
  validated_nodup state request validated h := by
    obtain ⟨⟨-, hsub⟩, rfl⟩ := sampleValidateResolved_eq_ok.mp (validates_sampleConsentServer h).2
    exact hsub.nodup (by decide)
  validates_again state state' request validated scopes h _ hscopes hne := by
    obtain ⟨hresolved, hvalidated⟩ := validates_sampleConsentServer h
    obtain ⟨⟨-, hsub⟩, rfl⟩ := sampleValidateResolved_eq_ok.mp hvalidated
    refine Except.bind_eq_ok.mpr ⟨⟨sampleClient, _⟩, sampleResolve_eq_ok.mpr ⟨⟨rfl, ?_⟩,
      rfl⟩, sampleValidateResolved_eq_ok.mpr ⟨⟨hne, hscopes.trans hsub⟩, ?_⟩⟩
    · cases request.redirectUri <;> rfl
    · cases request.redirectUri <;> rfl
  eligible_sublist requested principal client granted h := by
    obtain ⟨rfl, -⟩ := sampleEligible_eq_some.mp h
    exact List.filter_sublist
  eligible_ne_nil requested principal client granted h := (sampleEligible_eq_some.mp h).2
  eligible_within requested principal client hne _ hprincipal hclient := by
    have hall : (requested.filter fun scope => scope ∈ principal ∧ scope ∈ client) = requested :=
      List.filter_eq_self.mpr fun scope hscope =>
        decide_eq_true ⟨hprincipal hscope, hclient hscope⟩
    exact sampleEligible_eq_some.mpr ⟨hall.symm, hne⟩

/-- The page that is shown for the request. -/
def sampleConsentPage : ConsentPage :=
  consentPage sampleConsentSignature sampleConsentInput sampleConsentRequest [] "csrf-1" "session-1"
    none

theorem signature_sampleConsentPage :
    sampleConsentPage.signature = "FS-hKC-mN4wptfSfqLHT9lFkCpmPHZRTjXqo3665sqc" := by
  unfold sampleConsentPage consentPage sampleConsentSignature
  dsimp only
  rw [if_pos (And.intro rfl rfl)]

/-- A browser with the session of Alice. -/
def sampleCaller : Caller where
  contentType := some "application/x-www-form-urlencoded"
  origin := some "https://notes.example.test"
  sessionCookie := some "session-1"
  csrfCookie := some "csrf-1"
  authenticateSession id := .ok (if id = "session-1" then some Database.alice else none)
  verifyCsrf id token := .ok (id = "session-1" ∧ token = "csrf-1")

/-- Alice opens the page and lets the client read. -/
def readingAllowed : List (ConsentEvent Unit) :=
  [.authorize sampleCaller
      [("response_type", "code"), ("client_id", "client-1"),
        ("redirect_uri", "https://client.example.test/callback"),
        ("resource", "https://notes.example.test/mcp"), ("scope", "notes:read notes:write"),
        ("code_challenge", "challenge-1"), ("code_challenge_method", "S256"),
        ("state", "state-1")] none () (),
    .consent sampleCaller (sampleConsentPage.submit ["notes:read"]) () () ()]

/-- The moves of that run. -/
def readingAllowedMoves : List (Move ShownPages (ConsentEvent Unit)) :=
  Run.trace (fun shown e => e.next sampleConsentServer shown) [] readingAllowed

theorem shownPage_readingAllowed :
    readingAllowed.map (ConsentEvent.shownPage sampleConsentServer) =
      [some sampleConsentPage, none] := by
  decide +kernel

theorem signedInRange_sampleConsent : SignedInRange sampleConsentInput sampleConsentRequest := by
  unfold SignedInRange
  decide

/-- The form that comes back is the page's. -/
theorem parse_readingAllowed {form : McpAuthorizeForm}
    (h : McpAuthorizeForm.parse (sampleConsentPage.submit ["notes:read"]) = some form) :
    form = sampleConsentPage.form ["notes:read"] := by
  rw [parse_submit sampleConsentPage (by simp)] at h
  exact (Option.some.inj h).symm

theorem run_readingAllowed :
    Run (fun shown e shown' => ConsentEvent.Step sampleConsentServer shown e shown') []
      readingAllowedMoves
      (readingAllowed.foldl (fun shown e => e.next sampleConsentServer shown) []) := by
  refine Run.run_trace_of_legal _ _ _ ?_
  have hpages := shownPage_readingAllowed
  simp only [readingAllowed, List.map_cons, List.map_nil, List.cons.injEq, and_true] at hpages
  refine List.forall_mem_cons.mpr ⟨⟨fun page hpage => ?_, fun _ _ _ _ _ _ _ h => (by cases h)⟩, ?_⟩
  · rw [hpages.1, Option.mem_some_iff] at hpage
    subst hpage
    exact signedInRange_sampleConsent
  refine List.forall_mem_cons.mpr ⟨⟨fun page hpage => ?_, ?_⟩, List.forall_mem_nil _⟩
  · rw [hpages.2] at hpage
    cases hpage
  · rintro _ _ _ _ _ form validated h hform hvalid
    cases h
    obtain rfl := parse_readingAllowed hform
    have hrequest : sampleConsentServer.validateAuthorizationRequest ()
        (sampleConsentPage.form ["notes:read"]).request = .ok sampleConsentRequest := by
      decide +kernel
    obtain rfl := Except.ok.inj (hrequest.symm.trans hvalid)
    exact signedInRange_sampleConsent

theorem unforgeable_readingAllowed : Unforgeable sampleConsentServer readingAllowedMoves := by
  have hpages := shownPage_readingAllowed
  simp only [readingAllowed, List.map_cons, List.map_nil, List.cons.injEq, and_true] at hpages
  refine List.forall_mem_cons.mpr ⟨fun _ _ _ _ _ _ _ _ h => (by cases h), ?_⟩
  refine List.forall_mem_cons.mpr ⟨?_, List.forall_mem_nil _⟩
  intro caller body validate ceilings issuance form sessionId message h hform hcookie hverify
  cases h
  obtain rfl := parse_readingAllowed hform
  obtain rfl : "session-1" = sessionId := Option.some.inj hcookie
  refine ⟨sampleConsentPage, ?_, ?_⟩
  · dsimp only [Run.trace, ConsentEvent.next]
    rw [hpages.1]
    exact List.mem_singleton_self _
  · have hsignature := verify_sampleConsentServer.mp hverify
    rw [ConsentPage.signature_form] at hsignature
    rw [signature_sampleConsentPage, sampleConsentSignature] at hsignature
    split_ifs at hsignature with hmessage
    · exact hmessage.2.symm
    · exact absurd hsignature (by decide)

/-- The code for reading is for the page that was shown. -/
theorem consent_binds_readingAllowed :
    (∀ m ∈ readingAllowedMoves, m.label.Bound sampleConsentServer m.pre) ∧
    ∀ m ∈ readingAllowedMoves, ∀ page, m.label.shownPage sampleConsentServer = some page →
      ∃ sessionId actor, m.label.caller.authenticatedActor = .ok (sessionId, actor) ∧
      sampleConsentServer.Accepts m.label.validation m.label.ceilings sessionId actor page :=
  have h := consent_binds lawful_sampleConsentServer run_readingAllowed unforgeable_readingAllowed
  ⟨h.1, h.2.2⟩

end Marginalis
