import Marginalis.McpTransport
import Marginalis.Principals
import Marginalis.Result

/-!
# The envelope of MCP responses

A response has a result or an error, and the id of its request, when that is a string or an integer
of an object, and no id otherwise. The parser of requests and the check of their shape keep to this.
The check of the protocol version comes between them and sends back the id as it was, and a request
that is an array has an id that the rule does not know.

`mcp_envelope_iff` : with a valid token, the envelope is kept exactly when the request is not one
whose id is sent back although it is none (`EchoesId`).
-/

namespace Marginalis

open McpServer Framing

/-! ## The envelope -/

/-- A response with a result or an error, and not both. -/
def JsonRpcResponse.Exclusive (response : JsonRpcResponse) : Prop :=
  response.result.isSome = true ↔ response.error.isSome = false

/-- The scopes have one of each list. -/
def SatisfiesScopes (granted : List Scope) (requirements : List (List Scope)) : Prop :=
  ∀ alternatives ∈ requirements, ∃ scope ∈ alternatives, scope ∈ granted

/-- What JSON-RPC and MCP ask of an answer to a request with a valid token. -/
structure KeepsEnvelope (server : McpServer) (headers : HeaderMap) (body : List UInt8)
    (authenticated : McpAuthenticatedActor) : Prop where
  exclusive : ∀ status response, (server.mcpPost headers body).response = .rpc status response →
    response.Exclusive
  requestId : ∀ status response fields id,
    (server.mcpPost headers body).response = .rpc status response →
    server.parse body = some (.object fields) → fields.lookup "id" = some id →
    isMcpIdValue id = true → response.id = id
  noId : ∀ status response, (server.mcpPost headers body).response = .rpc status response →
    (∀ fields id, server.parse body = some (.object fields) → fields.lookup "id" = some id →
      isMcpIdValue id = false) → response.id = .null
  executed : ∀ tool, (server.mcpPost headers body).executed = some tool →
    ∃ value request id, server.parse body = some value ∧
      JsonRpcRequest.ofValue value = some request ∧ request.jsonrpc = some "2.0" ∧
      request.id = .present id ∧ isMcpIdValue id = true ∧
      SatisfiesScopes authenticated.scopes tool.scopeRequirements

/-- The request is answered with the id it carries, which is not the one of the envelope : the check
of the protocol refuses it, or its id is a string or an integer of an array. -/
structure EchoesId (server : McpServer) (endpoint : McpEndpoint) (headers : HeaderMap)
    (body : List UInt8) (authenticated : McpAuthenticatedActor) (value : Json)
    (request : JsonRpcRequest) : Prop where
  origin : validateMcpOrigin server endpoint headers = .ok ()
  mediaTypes : refuseUnsupportedMediaTypes headers = .ok ()
  parsed : server.parse body = some value
  decoded : JsonRpcRequest.ofValue value = some request
  differs : request.id.responseValue ≠ detectedRequestId value
  answered : (∀ era, validateProtocol server.base64Decode headers request ≠ .ok era) ∨
    request.id.isValidMcpId = true ∧
      SatisfiesScopes authenticated.scopes request.scopeRequirements

/-! ## Ids -/

section Ids

variable {value : Json} {request : JsonRpcRequest}

/-- The detected id of an object is the id of its request, when that is valid. -/
theorem detectedRequestId_object {fields : List (String × Json)}
    (h : JsonRpcRequest.ofValue (.object fields) = some request) :
    detectedRequestId (.object fields) =
      if request.id.isValidMcpId then request.id.responseValue else .null := by
  simp only [JsonRpcRequest.ofValue, Option.bind_eq_bind, Option.bind_eq_some_iff] at h
  obtain ⟨jsonrpc, -, method, -, h⟩ := h
  cases h
  show ((fields.lookup "id").filter isMcpIdValue).getD .null = _
  cases hid : fields.lookup "id" with
  | none => rfl
  | some id =>
    show ((some id).filter isMcpIdValue).getD .null = if isMcpIdValue id then id else .null
    by_cases hvalid : isMcpIdValue id
    · rw [if_pos hvalid, Option.filter_some_pos hvalid, Option.getD_some]
    · rw [if_neg hvalid, Option.filter_some_neg (Bool.eq_false_iff.mpr hvalid), Option.getD_none]

/-- A request is an object, or its id is there and none is detected. -/
theorem ofValue_cases (h : JsonRpcRequest.ofValue value = some request) :
    (∃ fields, value = .object fields) ∨
      detectedRequestId value = .null ∧ ∃ id, request.id = .present id := by
  cases value with
  | object fields => exact .inl ⟨fields, rfl⟩
  | array elements =>
    refine .inr ⟨rfl, ?_⟩
    match elements, h with
    | [jsonrpc, id, method, params], h =>
      simp only [JsonRpcRequest.ofValue, Option.bind_eq_bind, Option.bind_eq_some_iff] at h
      obtain ⟨jsonrpc, -, method, -, h⟩ := h
      cases h
      exact ⟨id, rfl⟩
  | _ => cases h

/-- A request that has no valid id is answered without one. -/
theorem detectedRequestId_of_not_valid (h : JsonRpcRequest.ofValue value = some request)
    (hvalid : ¬request.id.isValidMcpId = true) : detectedRequestId value = .null := by
  rcases ofValue_cases h with ⟨fields, rfl⟩ | ⟨hnull, -⟩
  · rw [detectedRequestId_object h, if_neg hvalid]
  · exact hnull

/-- A request without an id is an object without one. -/
theorem detectedRequestId_of_notification (h : JsonRpcRequest.ofValue value = some request)
    (hmissing : request.id = .missing) : detectedRequestId value = .null := by
  rcases ofValue_cases h with ⟨fields, rfl⟩ | ⟨hnull, -⟩
  · rw [detectedRequestId_object h, hmissing]
    rfl
  · exact hnull

end Ids

/-! ## The checks -/

/-- The id of the envelope. -/
def McpServer.expectedId (server : McpServer) (body : List UInt8) : Json :=
  ((server.parse body).map detectedRequestId).getD .null

theorem exclusive_success (id result : Json) : (JsonRpcResponse.success id result).Exclusive :=
  ⟨fun _ => rfl, fun _ => rfl⟩

theorem exclusive_ofError (id : Json) (code : ℤ) (message : String) :
    (JsonRpcResponse.ofError id code message).Exclusive := by
  refine ⟨fun h => ?_, fun h => ?_⟩ <;> cases h

theorem exclusive_errorWithData (id : Json) (code : ℤ) (message : String) (data : Json) :
    (JsonRpcResponse.errorWithData id code message data).Exclusive := by
  refine ⟨fun h => ?_, fun h => ?_⟩ <;> cases h

section Checks

variable {server : McpServer} {endpoint : McpEndpoint} {headers : HeaderMap} {body : List UInt8}
  {request : JsonRpcRequest} {era : ProtocolEra} {status : ℕ} {response : JsonRpcResponse}

theorem validateMcpOrigin_ne_rpc :
    validateMcpOrigin server endpoint headers ≠ .error (.rpc status response) := by
  unfold validateMcpOrigin
  cases headers.get "origin" with
  | none => simp
  | some value =>
    dsimp only
    split_ifs <;> simp

theorem refuseUnsupportedMediaTypes_ne_rpc :
    refuseUnsupportedMediaTypes headers ≠ .error (.rpc status response) := by
  unfold refuseUnsupportedMediaTypes
  split_ifs <;> simp

/-- A body that is no request is answered with the id of the envelope. -/
theorem parseJsonRpcRequest_rpc
    (h : parseJsonRpcRequest server body = .error (.rpc status response)) :
    response.Exclusive ∧ response.id = server.expectedId body := by
  unfold parseJsonRpcRequest at h
  unfold McpServer.expectedId
  cases hparse : server.parse body with
  | none =>
    rw [hparse] at h
    cases h
    exact ⟨exclusive_ofError _ _ _, rfl⟩
  | some value =>
    rw [hparse] at h
    dsimp only at h
    split_ifs at h
    · cases h
    · cases hvalue : JsonRpcRequest.ofValue value with
      | none =>
        rw [hvalue] at h
        cases h
        exact ⟨exclusive_ofError _ _ _, rfl⟩
      | some request =>
        rw [hvalue] at h
        cases h

theorem parseJsonRpcRequest_eq_ok : parseJsonRpcRequest server body = .ok request ↔
    ∃ value, server.parse body = some value ∧ JsonRpcRequest.ofValue value = some request := by
  unfold parseJsonRpcRequest
  cases server.parse body with
  | none => simp
  | some value =>
    dsimp only
    simp only [Option.some.injEq, exists_eq_left']
    by_cases hclient : isClientResponse value = true
    · have hnone : JsonRpcRequest.ofValue value = none := by
        cases value with
        | object fields =>
          have hmethod : fields.lookup "method" = none := by
            simp only [isClientResponse, Json.asObject, Option.any_some, Json.containsKey,
              Bool.and_eq_true, Bool.not_eq_true', Option.isSome_eq_false_iff,
              Option.isNone_iff_eq_none] at hclient
            exact hclient.1
          simp [JsonRpcRequest.ofValue, hmethod]
        | _ => simp [isClientResponse, Json.asObject] at hclient
      simp [hclient, hnone]
    · rw [if_neg hclient]
      cases JsonRpcRequest.ofValue value with
      | none => simp
      | some decoded => simp

theorem selectProtocolEra_eq_ok : selectProtocolEra server headers request = .ok era ↔
    validateProtocol server.base64Decode headers request = .ok era := by
  unfold selectProtocolEra
  split <;> simp_all

/-- What the check of the protocol refuses is answered with the id as it was. -/
theorem selectProtocolEra_eq_error {refusal : McpResponse}
    (h : selectProtocolEra server headers request = .error refusal) :
    ∃ status response, refusal = .rpc status response ∧ response.Exclusive ∧
      response.id = request.id.responseValue := by
  unfold selectProtocolEra at h
  split at h
  · cases h
  · cases h
    exact ⟨_, _, rfl, exclusive_ofError _ _ _, rfl⟩
  · cases h
    exact ⟨_, _, rfl, exclusive_errorWithData _ _ _ _, rfl⟩
  · cases h
    exact ⟨_, _, rfl, exclusive_ofError _ _ _, rfl⟩

/-- A request of another shape is answered with its id, when that is valid. -/
theorem validateRequestShape_rpc
    (h : validateRequestShape request era = .error (.rpc status response)) :
    response.Exclusive ∧
      response.id = if request.id.isValidMcpId then request.id.responseValue else .null := by
  unfold validateRequestShape at h
  split_ifs at h with hshape hsilent hvalid hrequired hinitialized hmodern
  · cases h
  · cases h
    refine ⟨exclusive_ofError _ _ _, ?_⟩
    rw [if_pos hvalid]
    rfl
  · cases h
    refine ⟨exclusive_ofError _ _ _, ?_⟩
    rw [if_neg hvalid]
    rfl
  · cases h
  · cases h
    have hvalid : request.id.isValidMcpId = true := by
      by_contra hnot
      exact hshape (.inr (.inl hnot))
    refine ⟨exclusive_ofError _ _ _, ?_⟩
    rw [if_pos hvalid]
    rfl
  · cases h

/-- A request with an id is not refused without a response. -/
theorem validateRequestShape_eq_error {refusal : McpResponse} {id : Json}
    (hid : request.id = .present id)
    (h : validateRequestShape request era = .error refusal) :
    ∃ status response, refusal = .rpc status response := by
  have hpresent : request.id.isNotification = false := by
    rw [hid]
    rfl
  unfold validateRequestShape at h
  rw [hpresent] at h
  simp only [Bool.false_eq_true, false_and, and_false, if_false] at h
  split_ifs at h
  all_goals
    cases h
    exact ⟨_, _, rfl⟩

theorem validateRequestShape_eq_ok (h : validateRequestShape request era = .ok ()) :
    request.jsonrpc = some "2.0" ∧ request.id.isValidMcpId = true ∧
      (request.method ∈ requestMethods → request.id.isNotification = false) := by
  unfold validateRequestShape at h
  split_ifs at h with hshape hsilent hrequired hinitialized hmodern
  simp only [not_or, not_not] at hshape
  refine ⟨hshape.1, hshape.2.1, fun hmethod => ?_⟩
  by_contra hnotification
  exact hrequired ⟨hmethod, by simpa using hnotification⟩

end Checks

/-! ## Scopes -/

section Scopes

variable {granted supported : List Scope} {requirements : List (List Scope)}

theorem satisfiesAny_iff {alternatives : List Scope} :
    satisfiesAny granted alternatives = true ↔ ∃ scope ∈ alternatives, scope ∈ granted := by
  simp [satisfiesAny]

/-- A token is not challenged when it has the scopes. -/
theorem incrementalScopeChallenge_eq_none (hne : ∀ alternatives ∈ requirements, alternatives ≠ []) :
    incrementalScopeChallenge supported granted requirements = none ↔
      SatisfiesScopes granted requirements := by
  have hmissing : (requirements.filter fun alternatives =>
      !satisfiesAny granted alternatives).filterMap List.head? = [] ↔
      SatisfiesScopes granted requirements := by
    simp only [List.filterMap_eq_nil_iff, List.mem_filter, Bool.not_eq_true', and_imp,
      List.head?_eq_none_iff, SatisfiesScopes]
    refine ⟨fun h alternatives hmem => ?_, fun h alternatives hmem hnot => ?_⟩
    · by_contra hnone
      refine hne alternatives hmem (h alternatives hmem (Bool.eq_false_iff.mpr fun hany => ?_))
      exact hnone (satisfiesAny_iff.mp hany)
    · exact absurd (satisfiesAny_iff.mpr (h alternatives hmem)) (Bool.eq_false_iff.mp hnot)
  rw [← hmissing]
  unfold incrementalScopeChallenge
  dsimp only
  split_ifs with hnil
  · exact iff_of_true rfl hnil
  · exact iff_of_false (by simp) hnil

theorem McpToolName.scopeRequirements_ne_nil (tool : McpToolName) :
    ∀ alternatives ∈ tool.scopeRequirements, alternatives ≠ [] := by
  cases tool <;> simp [McpToolName.scopeRequirements]

theorem JsonRpcRequest.scopeRequirements_ne_nil (request : JsonRpcRequest) :
    ∀ alternatives ∈ request.scopeRequirements, alternatives ≠ [] := by
  unfold JsonRpcRequest.scopeRequirements
  rcases request.toolCall.join with - | call
  · simp
  · show ∀ alternatives ∈ (call.tool.map McpToolName.scopeRequirements).getD [], alternatives ≠ []
    rcases call.tool with - | tool
    · simp
    · exact tool.scopeRequirements_ne_nil

end Scopes

/-! ## The dispatch -/

section Dispatch

variable {server : McpServer} {admitted : AdmittedRequest} {tool : McpToolName}

theorem mcpToolCall_spec (server : McpServer) (actor : Actor) (id : Json) (call : McpToolCall) :
    (server.mcpToolCall actor id call).id = id ∧ (server.mcpToolCall actor id call).Exclusive := by
  unfold mcpToolCall
  split
  · exact ⟨rfl, exclusive_success _ _⟩
  · exact ⟨rfl, exclusive_ofError _ _ _⟩
  · exact ⟨rfl, exclusive_ofError _ _ _⟩
  · exact ⟨rfl, exclusive_success _ _⟩

theorem callTool_spec (server : McpServer) (actor : Actor) (id : Json)
    (call : Option (Option McpToolCall)) :
    (server.callTool actor id call).1.id = id ∧ (server.callTool actor id call).1.Exclusive ∧
      ∀ tool, (server.callTool actor id call).2 = some tool →
        ∃ decoded, call = some (some decoded) ∧ decoded.tool = some tool := by
  unfold callTool
  split
  · rename_i decoded
    obtain ⟨hid, hexclusive⟩ := mcpToolCall_spec server actor id decoded
    exact ⟨hid, hexclusive, fun tool htool => ⟨decoded, rfl, htool⟩⟩
  · exact ⟨rfl, exclusive_ofError _ _ _, fun tool htool => by cases htool⟩

/-- What is dispatched is answered with the id of the request, and only a call executes a tool. -/
theorem dispatchMcpMethod_spec (server : McpServer) (admitted : AdmittedRequest) :
    (server.dispatchMcpMethod admitted).1.id = admitted.request.id.responseValue ∧
      (server.dispatchMcpMethod admitted).1.Exclusive ∧
      ∀ tool, (server.dispatchMcpMethod admitted).2 = some tool →
        admitted.request.method = "tools/call" ∧
          ∃ call, admitted.toolCall = some (some call) ∧ call.tool = some tool := by
  have hcall := callTool_spec server admitted.authenticated.actor
    admitted.request.id.responseValue admitted.toolCall
  have hsilent : ∀ response : JsonRpcResponse, response.id = admitted.request.id.responseValue →
      response.Exclusive → (response, (none : Option McpToolName)).1.id =
        admitted.request.id.responseValue ∧ response.Exclusive ∧
      ∀ tool, (response, (none : Option McpToolName)).2 = some tool →
        admitted.request.method = "tools/call" ∧
          ∃ call, admitted.toolCall = some (some call) ∧ call.tool = some tool :=
    fun _ hid hexclusive => ⟨hid, hexclusive, fun _ h => by cases h⟩
  unfold dispatchMcpMethod
  dsimp only
  split
  case h_1 => exact hsilent _ rfl (exclusive_success _ _)
  case h_2 =>
    by_cases hlist : validToolsListParams admitted.request.params = true
    · rw [if_pos hlist]
      exact hsilent _ rfl (exclusive_success _ _)
    · rw [if_neg hlist]
      exact hsilent _ rfl (exclusive_ofError _ _ _)
  case h_3 heq => exact ⟨hcall.1, hcall.2.1, fun tool h => ⟨heq, hcall.2.2 tool h⟩⟩
  case h_4 => exact hsilent _ rfl (exclusive_ofError _ _ _)
  case h_5 =>
    split
    · exact hsilent _ rfl (exclusive_success _ _)
    · exact hsilent _ rfl (exclusive_ofError _ _ _)
  case h_6 => exact hsilent _ rfl (exclusive_success _ _)
  case h_7 => exact hsilent _ rfl (exclusive_success _ _)
  case h_8 =>
    by_cases hlist : validToolsListParams admitted.request.params = true
    · rw [if_pos hlist]
      exact hsilent _ rfl (exclusive_success _ _)
    · rw [if_neg hlist]
      exact hsilent _ rfl (exclusive_ofError _ _ _)
  case h_9 heq => exact ⟨hcall.1, hcall.2.1, fun tool h => ⟨heq, hcall.2.2 tool h⟩⟩
  case h_10 => exact hsilent _ rfl (exclusive_ofError _ _ _)

/-- What is added to a result leaves the envelope as it is. -/
theorem addModernResultMetadata_spec (server : McpServer) (response : JsonRpcResponse) :
    (server.addModernResultMetadata response).id = response.id ∧
      (response.Exclusive → (server.addModernResultMetadata response).Exclusive) := by
  unfold addModernResultMetadata
  split
  · rename_i fields hresult
    refine ⟨rfl, fun h => ?_⟩
    unfold JsonRpcResponse.Exclusive at h ⊢
    rw [hresult] at h
    exact h
  · exact ⟨rfl, id⟩

/-- A response that is sent is the one of the dispatch, and a request is answered with one. -/
theorem finalizeMcpResponse_spec (server : McpServer) (era : ProtocolEra) (isNotification : Bool)
    (response : JsonRpcResponse) :
    (∀ status sent, server.finalizeMcpResponse era isNotification response = .rpc status sent →
      isNotification = false ∧ sent.id = response.id ∧ (response.Exclusive → sent.Exclusive)) ∧
    (isNotification = false → ∃ status sent,
      server.finalizeMcpResponse era isNotification response = .rpc status sent) := by
  have hadded : ∀ sent, sent = (if era = .modern then server.addModernResultMetadata response
      else response) → sent.id = response.id ∧ (response.Exclusive → sent.Exclusive) := by
    rintro sent rfl
    by_cases hmodern : era = .modern
    · rw [if_pos hmodern]
      exact addModernResultMetadata_spec server response
    · rw [if_neg hmodern]
      exact ⟨rfl, id⟩
  unfold finalizeMcpResponse
  dsimp only
  generalize (if era = .modern then server.addModernResultMetadata response else response) = added
    at hadded
  refine ⟨fun status sent h => ?_, ?_⟩
  · split_ifs at h with hnotification hunknown
    · cases h
      exact ⟨by simpa using hnotification, hadded _ rfl⟩
    · cases h
      exact ⟨by simpa using hnotification, hadded _ rfl⟩
  · rintro rfl
    rw [if_neg Bool.false_ne_true]
    by_cases hunknown : era = .modern ∧ added.error.any fun error => error.code = -32601
    · rw [if_pos hunknown]
      exact ⟨_, _, rfl⟩
    · rw [if_neg hunknown]
      exact ⟨_, _, rfl⟩

end Dispatch

/-! ## Requests with a valid token -/

section Envelope

variable {server : McpServer} {endpoint : McpEndpoint} {headers : HeaderMap} {body : List UInt8}
  {token : String} {authenticated : McpAuthenticatedActor} {requirements : List (List Scope)}
  {status : ℕ} {response : JsonRpcResponse} {admitted : AdmittedRequest}

theorem authenticate_eq_ok (hvalid : endpoint.oauth token endpoint.resourceUri =
      some (some authenticated)) {actor : McpAuthenticatedActor} :
    authenticate endpoint token requirements = .ok actor ↔ actor = authenticated ∧
      incrementalScopeChallenge endpoint.supportedScopes authenticated.scopes requirements =
        none := by
  unfold authenticate
  rw [hvalid]
  dsimp only
  cases incrementalScopeChallenge endpoint.supportedScopes authenticated.scopes requirements with
  | none => simp [eq_comm]
  | some scope => simp

theorem authenticate_ne_rpc (hvalid : endpoint.oauth token endpoint.resourceUri =
      some (some authenticated)) :
    authenticate endpoint token requirements ≠ .error (.rpc status response) := by
  unfold authenticate
  rw [hvalid]
  dsimp only
  cases incrementalScopeChallenge endpoint.supportedScopes authenticated.scopes requirements with
  | none => simp
  | some scope => simp [authenticationChallenge]

/-- A response with the id of its request has the one of the envelope, unless that is another. -/
theorem expectedId_or_echoes {request : JsonRpcRequest} {value id : Json}
    (horigin : validateMcpOrigin server endpoint headers = .ok ())
    (hmedia : refuseUnsupportedMediaTypes headers = .ok ())
    (hparsed : server.parse body = some value)
    (hdecoded : JsonRpcRequest.ofValue value = some request)
    (hanswered : (∀ era, validateProtocol server.base64Decode headers request ≠ .ok era) ∨
      request.id.isValidMcpId = true ∧
        SatisfiesScopes authenticated.scopes request.scopeRequirements)
    (hid : id = request.id.responseValue) : id = server.expectedId body ∨
      ∃ value request, EchoesId server endpoint headers body authenticated value request := by
  have hexpected : server.expectedId body = detectedRequestId value := by
    rw [McpServer.expectedId, hparsed]
    rfl
  by_cases hsame : request.id.responseValue = detectedRequestId value
  · exact .inl (by rw [hid, hsame, hexpected])
  · exact .inr ⟨value, request, horigin, hmedia, hparsed, hdecoded, hsame, hanswered⟩

section Admitted

variable (hmcp : server.mcp = some endpoint) (hbearer : bearerToken headers = .value token)
  (hvalid : endpoint.oauth token endpoint.resourceUri = some (some authenticated))

include hmcp hbearer

theorem passChecks_eq : passChecks server headers body = (do
    validateMcpOrigin server endpoint headers
    refuseUnsupportedMediaTypes headers
    let request ← parseJsonRpcRequest server body
    let era ← selectProtocolEra server headers request
    let authenticated ← authenticate endpoint token request.scopeRequirements
    validateRequestShape request era
    return ⟨request, era, request.toolCall, authenticated⟩) := by
  have htoken : requireBearerToken endpoint headers = .ok token := by
    rw [requireBearerToken, hbearer]
  unfold passChecks
  rw [hmcp]
  dsimp only
  rw [htoken]
  rfl

include hvalid

/-- What a request passes. -/
theorem passChecks_eq_ok : passChecks server headers body = .ok admitted ↔
    validateMcpOrigin server endpoint headers = .ok () ∧
    refuseUnsupportedMediaTypes headers = .ok () ∧
    parseJsonRpcRequest server body = .ok admitted.request ∧
    selectProtocolEra server headers admitted.request = .ok admitted.era ∧
    SatisfiesScopes authenticated.scopes admitted.request.scopeRequirements ∧
    validateRequestShape admitted.request admitted.era = .ok () ∧
    admitted.toolCall = admitted.request.toolCall ∧ admitted.authenticated = authenticated := by
  rw [passChecks_eq hmcp hbearer]
  simp only [Except.bind_eq_ok, authenticate_eq_ok hvalid, pure, Except.pure, Except.ok.injEq]
  refine ⟨?_, ?_⟩
  · rintro ⟨_, horigin, _, hmedia, request, hparse, era, hera, actor, ⟨rfl, hscopes⟩, _, hshape,
      rfl⟩
    exact ⟨horigin, hmedia, hparse, hera, (incrementalScopeChallenge_eq_none
      request.scopeRequirements_ne_nil).mp hscopes, hshape, rfl, rfl⟩
  · rintro ⟨horigin, hmedia, hparse, hera, hscopes, hshape, hcall, hactor⟩
    refine ⟨(), horigin, (), hmedia, admitted.request, hparse, admitted.era, hera, authenticated,
      ⟨rfl, (incrementalScopeChallenge_eq_none
        admitted.request.scopeRequirements_ne_nil).mpr hscopes⟩, (), hshape, ?_⟩
    rw [← hcall, ← hactor]

/-- Where a request is refused with a response. -/
theorem passChecks_rpc (h : passChecks server headers body = .error (.rpc status response)) :
    parseJsonRpcRequest server body = .error (.rpc status response) ∨
    ∃ request, validateMcpOrigin server endpoint headers = .ok () ∧
      refuseUnsupportedMediaTypes headers = .ok () ∧
      parseJsonRpcRequest server body = .ok request ∧
      (selectProtocolEra server headers request = .error (.rpc status response) ∨
        ∃ era, SatisfiesScopes authenticated.scopes request.scopeRequirements ∧
          validateRequestShape request era = .error (.rpc status response)) := by
  rw [passChecks_eq hmcp hbearer] at h
  rcases Except.bind_eq_error.mp h with h | ⟨_, horigin, h⟩
  · exact absurd h validateMcpOrigin_ne_rpc
  rcases Except.bind_eq_error.mp h with h | ⟨_, hmedia, h⟩
  · exact absurd h refuseUnsupportedMediaTypes_ne_rpc
  rcases Except.bind_eq_error.mp h with h | ⟨request, hparse, h⟩
  · exact .inl h
  refine .inr ⟨request, horigin, hmedia, hparse, ?_⟩
  rcases Except.bind_eq_error.mp h with h | ⟨era, -, h⟩
  · exact .inl h
  rcases Except.bind_eq_error.mp h with h | ⟨actor, hactor, h⟩
  · exact absurd h (authenticate_ne_rpc hvalid)
  rcases Except.bind_eq_error.mp h with h | ⟨-, -, h⟩
  · obtain ⟨-, hscopes⟩ := (authenticate_eq_ok hvalid).mp hactor
    exact .inr ⟨era, (incrementalScopeChallenge_eq_none
      request.scopeRequirements_ne_nil).mp hscopes, h⟩
  · cases h

/-- A response has the id of the envelope, unless it echoes another. -/
theorem mcpPost_rpc (h : (server.mcpPost headers body).response = .rpc status response) :
    response.Exclusive ∧ (response.id = server.expectedId body ∨
      ∃ value request, EchoesId server endpoint headers body authenticated value request) := by
  unfold mcpPost at h
  cases hpassed : passChecks server headers body with
  | error refusal =>
    rw [hpassed] at h
    obtain rfl : refusal = .rpc status response := h
    rcases passChecks_rpc hmcp hbearer hvalid hpassed with
      hparse | ⟨request, horigin, hmedia, hparse, hera | ⟨era, hscopes, hshape⟩⟩
    · obtain ⟨hexclusive, hid⟩ := parseJsonRpcRequest_rpc hparse
      exact ⟨hexclusive, .inl hid⟩
    · obtain ⟨value, hparsed, hdecoded⟩ := parseJsonRpcRequest_eq_ok.mp hparse
      obtain ⟨_, _, heq, hexclusive, hid⟩ := selectProtocolEra_eq_error hera
      cases heq
      refine ⟨hexclusive, expectedId_or_echoes horigin hmedia hparsed hdecoded
        (.inl fun era hok => ?_) hid⟩
      rw [selectProtocolEra_eq_ok.mpr hok] at hera
      cases hera
    · obtain ⟨value, hparsed, hdecoded⟩ := parseJsonRpcRequest_eq_ok.mp hparse
      obtain ⟨hexclusive, hid⟩ := validateRequestShape_rpc hshape
      refine ⟨hexclusive, ?_⟩
      by_cases hmcpId : request.id.isValidMcpId = true
      · rw [if_pos hmcpId] at hid
        exact expectedId_or_echoes horigin hmedia hparsed hdecoded
          (.inr ⟨hmcpId, hscopes⟩) hid
      · rw [if_neg hmcpId] at hid
        refine .inl ?_
        rw [hid, McpServer.expectedId, hparsed]
        exact (detectedRequestId_of_not_valid hdecoded hmcpId).symm
  | ok admitted =>
    rw [hpassed] at h
    obtain ⟨horigin, hmedia, hparse, -, hscopes, hshape, -⟩ :=
      (passChecks_eq_ok hmcp hbearer hvalid).mp hpassed
    obtain ⟨value, hparsed, hdecoded⟩ := parseJsonRpcRequest_eq_ok.mp hparse
    obtain ⟨hid, hexclusive, -⟩ := dispatchMcpMethod_spec server admitted
    obtain ⟨-, hsent, hkept⟩ := (finalizeMcpResponse_spec server _ _ _).1 _ _ h
    exact ⟨hkept hexclusive, expectedId_or_echoes horigin hmedia hparsed
      hdecoded (.inr ⟨(validateRequestShape_eq_ok hshape).2.1, hscopes⟩) (hsent.trans hid)⟩

/-- A request whose id is echoed is answered with it. -/
theorem EchoesId.rpc {value : Json} {request : JsonRpcRequest}
    (h : EchoesId server endpoint headers body authenticated value request) :
    ∃ status response, (server.mcpPost headers body).response = .rpc status response ∧
      response.id = request.id.responseValue := by
  obtain ⟨id, hid⟩ : ∃ id, request.id = .present id := by
    cases hrequest : request.id with
    | missing =>
      refine absurd ?_ h.differs
      rw [detectedRequestId_of_notification h.decoded hrequest, hrequest]
      rfl
    | present id => exact ⟨id, rfl⟩
  have hparse := parseJsonRpcRequest_eq_ok.mpr ⟨value, h.parsed, h.decoded⟩
  cases hera : selectProtocolEra server headers request with
  | error refusal =>
    obtain ⟨status, response, rfl, -, hecho⟩ := selectProtocolEra_eq_error hera
    refine ⟨status, response, ?_, hecho⟩
    unfold mcpPost
    rw [passChecks_eq hmcp hbearer, h.origin, h.mediaTypes, hparse]
    dsimp only [bind, Except.bind]
    rw [hera]
  | ok era =>
    obtain ⟨hmcpId, hscopes⟩ := h.answered.resolve_left fun hrefused =>
      hrefused era (selectProtocolEra_eq_ok.mp hera)
    cases hshape : validateRequestShape request era with
    | error refusal =>
      obtain ⟨status, response, rfl⟩ := validateRequestShape_eq_error hid hshape
      refine ⟨status, response, ?_, ?_⟩
      · have hactor : authenticate endpoint token request.scopeRequirements = .ok authenticated :=
          (authenticate_eq_ok hvalid).mpr
            ⟨rfl, (incrementalScopeChallenge_eq_none request.scopeRequirements_ne_nil).mpr hscopes⟩
        unfold mcpPost
        rw [passChecks_eq hmcp hbearer, h.origin, h.mediaTypes, hparse]
        dsimp only [bind, Except.bind]
        rw [hera]
        dsimp only
        rw [hactor]
        dsimp only
        rw [hshape]
      · rw [(validateRequestShape_rpc hshape).2, if_pos hmcpId]
    | ok _ =>
      have hpassed : passChecks server headers body =
          .ok ⟨request, era, request.toolCall, authenticated⟩ :=
        (passChecks_eq_ok hmcp hbearer hvalid).mpr
          ⟨h.origin, h.mediaTypes, hparse, hera, hscopes, hshape, rfl, rfl⟩
      obtain ⟨hdispatched, -, -⟩ := dispatchMcpMethod_spec server
        ⟨request, era, request.toolCall, authenticated⟩
      obtain ⟨hsent, hsend⟩ := finalizeMcpResponse_spec server era request.id.isNotification
        (server.dispatchMcpMethod ⟨request, era, request.toolCall, authenticated⟩).1
      obtain ⟨status, response, hfinal⟩ := hsend (by rw [hid]; rfl)
      refine ⟨status, response, ?_, (hsent _ _ hfinal).2.1.trans hdispatched⟩
      unfold mcpPost
      rw [hpassed]
      exact hfinal

/-- A tool is executed for a message with an id and the scopes of the tool. -/
theorem mcpPost_executed {tool : McpToolName}
    (h : (server.mcpPost headers body).executed = some tool) :
    ∃ value request id, server.parse body = some value ∧
      JsonRpcRequest.ofValue value = some request ∧ request.jsonrpc = some "2.0" ∧
      request.id = .present id ∧ isMcpIdValue id = true ∧
      SatisfiesScopes authenticated.scopes tool.scopeRequirements := by
  unfold mcpPost at h
  cases hpassed : passChecks server headers body with
  | error refusal =>
    rw [hpassed] at h
    cases h
  | ok admitted =>
    rw [hpassed] at h
    obtain ⟨-, -, hparse, -, hscopes, hshape, hcall, -⟩ :=
      (passChecks_eq_ok hmcp hbearer hvalid).mp hpassed
    obtain ⟨value, hparsed, hdecoded⟩ := parseJsonRpcRequest_eq_ok.mp hparse
    obtain ⟨hversion, hmcpId, hrequest⟩ := validateRequestShape_eq_ok hshape
    obtain ⟨hmethod, call, htoolCall, htool⟩ := (dispatchMcpMethod_spec server admitted).2.2 tool h
    have hrequired := hrequest (by rw [hmethod]; simp [requestMethods])
    have hsatisfies : SatisfiesScopes authenticated.scopes tool.scopeRequirements := by
      rw [JsonRpcRequest.scopeRequirements, ← hcall, htoolCall] at hscopes
      simpa [McpToolCall.scopeRequirements, htool] using hscopes
    cases hid : admitted.request.id with
    | missing =>
      rw [hid] at hrequired
      cases hrequired
    | present id =>
      rw [hid] at hmcpId
      exact ⟨value, admitted.request, id, hparsed, hdecoded, hversion, hid, hmcpId, hsatisfies⟩

end Admitted

/-! ## The rule of the ids -/

theorem expectedId_eq_id {fields : List (String × Json)} {id : Json}
    (hparsed : server.parse body = some (.object fields)) (hid : fields.lookup "id" = some id)
    (hmcpId : isMcpIdValue id = true) : server.expectedId body = id := by
  rw [McpServer.expectedId, hparsed]
  show ((fields.lookup "id").filter isMcpIdValue).getD .null = id
  rw [hid, Option.filter_some_pos hmcpId, Option.getD_some]

theorem expectedId_eq_null (h : ∀ fields id, server.parse body = some (.object fields) →
    fields.lookup "id" = some id → isMcpIdValue id = false) :
    server.expectedId body = .null := by
  unfold McpServer.expectedId
  cases hparsed : server.parse body with
  | none => rfl
  | some value =>
    cases value with
    | object fields =>
      show ((fields.lookup "id").filter isMcpIdValue).getD .null = .null
      cases hid : fields.lookup "id" with
      | none => rfl
      | some id => rw [Option.filter_some_neg (h fields id hparsed hid), Option.getD_none]
    | _ => rfl

theorem KeepsEnvelope.id_eq (hkeeps : KeepsEnvelope server headers body authenticated)
    (h : (server.mcpPost headers body).response = .rpc status response) :
    response.id = server.expectedId body := by
  by_cases hid : ∃ fields id, server.parse body = some (.object fields) ∧
      fields.lookup "id" = some id ∧ isMcpIdValue id = true
  · obtain ⟨fields, id, hparsed, hlookup, hmcpId⟩ := hid
    rw [hkeeps.requestId _ _ _ _ h hparsed hlookup hmcpId, expectedId_eq_id hparsed hlookup hmcpId]
  · have hnone : ∀ fields id, server.parse body = some (.object fields) →
        fields.lookup "id" = some id → isMcpIdValue id = false := by
      intro fields id hparsed hlookup
      exact Bool.eq_false_iff.mpr fun hmcpId => hid ⟨fields, id, hparsed, hlookup, hmcpId⟩
    rw [hkeeps.noId _ _ h hnone, expectedId_eq_null hnone]

/-- With a valid token, the envelope is kept exactly when no id is echoed that is none. -/
theorem mcp_envelope_iff (hmcp : server.mcp = some endpoint)
    (hbearer : bearerToken headers = .value token)
    (hvalid : endpoint.oauth token endpoint.resourceUri = some (some authenticated)) :
    KeepsEnvelope server headers body authenticated ↔
      ¬∃ value request, EchoesId server endpoint headers body authenticated value request := by
  refine ⟨?_, fun hechoes => ?_⟩
  · rintro hkeeps ⟨value, request, hecho⟩
    obtain ⟨status, response, hresponse, hid⟩ := hecho.rpc hmcp hbearer hvalid
    have hexpected := hkeeps.id_eq hresponse
    rw [McpServer.expectedId, hecho.parsed] at hexpected
    exact hecho.differs (hid.symm.trans hexpected)
  · have hrpc : ∀ {status response}, (server.mcpPost headers body).response =
        .rpc status response → response.Exclusive ∧ response.id = server.expectedId body := by
      intro status response h
      obtain ⟨hexclusive, hid⟩ := mcpPost_rpc hmcp hbearer hvalid h
      exact ⟨hexclusive, hid.resolve_right hechoes⟩
    exact
      { exclusive := fun _ _ h => (hrpc h).1
        requestId := fun _ _ _ _ h hparsed hlookup hmcpId =>
          (hrpc h).2.trans (expectedId_eq_id hparsed hlookup hmcpId)
        noId := fun _ _ h hnone => (hrpc h).2.trans (expectedId_eq_null hnone)
        executed := fun _ h => mcpPost_executed hmcp hbearer hvalid h }

end Envelope

/-! ## An id that is none -/

/-- A request whose id is a truth value. -/
def booleanIdRequest : Json :=
  .object [("id", .bool true), ("jsonrpc", .string "2.0"), ("method", .string "tools/list")]

def booleanIdBody : List UInt8 :=
  textBytes "\x7b\"jsonrpc\":\"2.0\",\"id\":true,\"method\":\"tools/list\"\x7d"

def sampleMcpEndpoint : McpEndpoint where
  allowedOrigins := []
  resourceUri := "https://notes.example.test/mcp"
  supportedScopes := ["notes:read", "notes:write"]
  defaultScopes := ["notes:read"]
  metadataUri := "https://notes.example.test/.well-known/oauth-protected-resource/mcp"
  oauth token resourceUri :=
    if token = "valid-token" ∧ resourceUri = "https://notes.example.test/mcp" then
      some (some ⟨Database.alice, ["notes:read"]⟩)
    else some none

def sampleMcpServer : McpServer where
  mcp := some sampleMcpEndpoint
  browserOrigin := "https://notes.example.test"
  parse body := if body = booleanIdBody then some booleanIdRequest else none
  base64Decode _ := none
  tools _ _ _ := .error (.invalidArguments "list arguments are invalid")
  toolContracts := .array []
  packageVersion := "0.1.0"

/-- The headers of a request with a protocol version that nobody supports. -/
def unsupportedVersionHeaders : HeaderMap :=
  [("accept", textBytes "application/json, text/event-stream"),
    ("authorization", textBytes "Bearer valid-token"),
    ("content-type", textBytes "application/json"),
    ("mcp-protocol-version", textBytes "1999-01-01")]

theorem parse_booleanIdBody : sampleMcpServer.parse booleanIdBody = some booleanIdRequest := by
  unfold sampleMcpServer
  dsimp only
  rw [if_pos rfl]

theorem bearerToken_unsupportedVersion :
    bearerToken unsupportedVersionHeaders = .value "valid-token" := by
  decide +kernel

theorem oauth_sampleMcpEndpoint :
    sampleMcpEndpoint.oauth "valid-token" sampleMcpEndpoint.resourceUri =
      some (some ⟨Database.alice, ["notes:read"]⟩) := by
  decide +kernel

theorem mcp_envelope_iff_booleanId :
    KeepsEnvelope sampleMcpServer unsupportedVersionHeaders booleanIdBody
        ⟨Database.alice, ["notes:read"]⟩ ↔
      ¬∃ value request, EchoesId sampleMcpServer sampleMcpEndpoint unsupportedVersionHeaders
        booleanIdBody ⟨Database.alice, ["notes:read"]⟩ value request :=
  mcp_envelope_iff rfl bearerToken_unsupportedVersion oauth_sampleMcpEndpoint

/-- The truth value is sent back as the id. -/
theorem boolean_id_echoed :
    bearerToken unsupportedVersionHeaders = .value "valid-token" ∧
    sampleMcpEndpoint.oauth "valid-token" sampleMcpEndpoint.resourceUri =
      some (some ⟨Database.alice, ["notes:read"]⟩) ∧
    (∃ response, (sampleMcpServer.mcpPost unsupportedVersionHeaders booleanIdBody).response =
      .rpc 400 response ∧ response.id = .bool true) ∧
    ¬KeepsEnvelope sampleMcpServer unsupportedVersionHeaders booleanIdBody
      ⟨Database.alice, ["notes:read"]⟩ := by
  have hresponse : ∃ response,
      (sampleMcpServer.mcpPost unsupportedVersionHeaders booleanIdBody).response =
        .rpc 400 response ∧ response.id = .bool true := by
    refine ⟨_, rfl, rfl⟩
  refine ⟨bearerToken_unsupportedVersion, oauth_sampleMcpEndpoint, hresponse, fun hkeeps => ?_⟩
  obtain ⟨response, hrpc, hid⟩ := hresponse
  have hnull : response.id = .null := by
    refine hkeeps.noId _ _ hrpc fun fields id hparsed hlookup => ?_
    rw [parse_booleanIdBody] at hparsed
    cases hparsed
    cases hlookup
    rfl
  rw [hid] at hnull
  cases hnull

end Marginalis
