import Marginalis.ConsentEndpoint
import Marginalis.McpProtocol
import Marginalis.Result

/-!
# The MCP endpoint

`mcpPost` answers one request over HTTP. The checks come in the order of the source : the origin,
the bearer token, the media types, the JSON-RPC request, the era of the protocol, the scopes of the
token and the shape of the request (`passChecks`). What passes them is dispatched by its method.

The token service, the JSON parser, base 64 and the tools themselves are parts of `McpServer`.
-/

namespace Marginalis

/-! ## Tools -/

inductive McpToolName
  | listNotes
  | listNoteTemplates
  | getNoteProfile
  | getNote
  | getNoteOutline
  | getNoteFragment
  | createNote
  | applyNotePatch
  | replaceNoteSource
  | deleteNote
  | searchBibliography
  | addBibliographyItem
  | deleteBibliographyItem
  deriving DecidableEq, Repr

namespace McpToolName

def asStr : McpToolName → String
  | listNotes => "list_notes"
  | listNoteTemplates => "list_note_templates"
  | getNoteProfile => "get_note_profile"
  | getNote => "get_note"
  | getNoteOutline => "get_note_outline"
  | getNoteFragment => "get_note_fragment"
  | createNote => "create_note"
  | applyNotePatch => "apply_note_patch"
  | replaceNoteSource => "replace_note_source"
  | deleteNote => "delete_note"
  | searchBibliography => "search_bibliography"
  | addBibliographyItem => "add_bibliography_item"
  | deleteBibliographyItem => "delete_bibliography_item"

def all : List McpToolName :=
  [listNotes, listNoteTemplates, getNoteProfile, getNote, getNoteOutline, getNoteFragment,
    createNote, applyNotePatch, replaceNoteSource, deleteNote, searchBibliography,
    addBibliographyItem, deleteBibliographyItem]

/-- `try_from`. -/
def ofStr (name : String) : Option McpToolName := all.find? fun tool => tool.asStr = name

/-- `scope_requirements` : each of the lists has to have a scope of the token. -/
def scopeRequirements : McpToolName → List (List Scope)
  | listNotes | listNoteTemplates | getNote | getNoteOutline | getNoteFragment => [["notes:read"]]
  | getNoteProfile => [["notes:read", "notes:write"]]
  | createNote | applyNotePatch | replaceNoteSource => [["notes:write"]]
  | deleteNote => [["notes:delete"]]
  | searchBibliography => [["bibliography:read"]]
  | addBibliographyItem => [["bibliography:write"]]
  | deleteBibliographyItem => [["bibliography:delete"]]

end McpToolName

structure McpToolCall where
  tool : Option McpToolName
  arguments : Json

def McpToolCall.scopeRequirements (call : McpToolCall) : List (List Scope) :=
  (call.tool.map McpToolName.scopeRequirements).getD []

/-- `RawMcpToolCall` of a JSON value : the name and the arguments. -/
def rawMcpToolCall : Json → Option (String × Json)
  | .object fields => do
    let name ← (fields.lookup "name").bind Json.asStr
    return (name, (fields.lookup "arguments").getD (.object []))
  | .array [name] => do return (← name.asStr, .object [])
  | .array [name, arguments] => do return (← name.asStr, arguments)
  | _ => none

/-- `decode_tool_call`. -/
def decodeToolCall (params : Option Json) : Option McpToolCall := do
  let (name, arguments) ← rawMcpToolCall (params.getD .null)
  if arguments.isObject then return ⟨McpToolName.ofStr name, arguments⟩ else none

/-- The result of a tool, as text and as a value. -/
structure McpToolOutput where
  text : String
  value : Json

inductive McpToolFailure
  | invalidArguments (message : String)
  | unknownTool
  | useCase (problem : McpToolOutput)

/-! ## The server -/

structure McpAuthenticatedActor where
  actor : Actor
  scopes : List Scope
  deriving DecidableEq, Repr

structure McpEndpoint where
  allowedOrigins : List String
  resourceUri : String
  supportedScopes : List Scope
  defaultScopes : List Scope
  metadataUri : String
  /-- The owner of an access token for a resource. `none` when the store is unavailable. -/
  oauth : String → String → Option (Option McpAuthenticatedActor)

structure McpServer where
  mcp : Option McpEndpoint
  browserOrigin : String
  parse : List UInt8 → Option Json
  base64Decode : String → Option (List UInt8)
  /-- The tools. -/
  tools : Actor → McpToolName → Json → Except McpToolFailure McpToolOutput
  toolContracts : Json
  packageVersion : String

inductive McpResponse
  | problem (problem : HttpProblem)
  | status (status : ℕ)
  | challenge (status : ℕ) (wwwAuthenticate : String)
  | rpc (status : ℕ) (response : JsonRpcResponse)

/-- A response, and the tool that was executed for it, if one was. -/
structure McpOutcome where
  response : McpResponse
  executed : Option McpToolName

/-! ## Authorization -/

/-- `authentication_challenge`. -/
def authenticationChallenge (endpoint : McpEndpoint) (status : ℕ) (error : Option String)
    (scope : String) : McpResponse :=
  .challenge status ("Bearer resource_metadata=\"" ++ endpoint.metadataUri ++ "\", scope=\"" ++
    scope ++ "\"" ++ (error.map fun value => ", error=\"" ++ value ++ "\"").getD "")

/-- One of the scopes was granted. -/
def satisfiesAny (granted alternatives : List Scope) : Bool :=
  alternatives.any fun required => required ∈ granted

/-- `minimum_required_scopes`. -/
def minimumRequiredScopes (requirements : List (List Scope)) : List Scope :=
  requirements.filterMap List.head?

/-- `incremental_scope_challenge`. -/
def incrementalScopeChallenge (supported granted : List Scope)
    (requirements : List (List Scope)) : Option String :=
  let missing := (requirements.filter fun alternatives =>
    !satisfiesAny granted alternatives).filterMap List.head?
  if missing = [] then none
  else some (joinScopes (supported.filter fun scope => scope ∈ granted ∨ scope ∈ missing))

/-- `validate_mcp_origin`. -/
def validateMcpOrigin (server : McpServer) (endpoint : McpEndpoint) (headers : HeaderMap) :
    Except McpResponse Unit :=
  match headers.get "origin" with
  | none => .ok ()
  | some value =>
    if (headerText value).any fun origin =>
        origin = server.browserOrigin ∨ origin ∈ endpoint.allowedOrigins then .ok ()
    else .error (.problem
      ⟨403, "origin_not_allowed", "MCP browser request origin is not allowed"⟩)

/-- `require_bearer_token`. -/
def requireBearerToken (endpoint : McpEndpoint) (headers : HeaderMap) :
    Except McpResponse String :=
  match bearerToken headers with
  | .value token => .ok token
  | .missing => .error (authenticationChallenge endpoint 401 none "notes:read")
  | .malformed => .error (authenticationChallenge endpoint 401 (some "invalid_token") "notes:read")

/-- `authenticate`. -/
def authenticate (endpoint : McpEndpoint) (token : String) (requirements : List (List Scope)) :
    Except McpResponse McpAuthenticatedActor :=
  let required := minimumRequiredScopes requirements
  let challenged := joinScopes (if required = [] then endpoint.defaultScopes else required)
  match endpoint.oauth token endpoint.resourceUri with
  | none => .error (.problem ⟨503, "unavailable", "OAuth authentication is unavailable"⟩)
  | some none =>
    .error (authenticationChallenge endpoint 401 (some "invalid_token") challenged)
  | some (some authenticated) =>
    match incrementalScopeChallenge endpoint.supportedScopes authenticated.scopes requirements with
    | some scope => .error (authenticationChallenge endpoint 403 (some "insufficient_scope") scope)
    | none => .ok authenticated

/-! ## Checks -/

/-- `json_rpc_error_response`. -/
def jsonRpcErrorResponse (id : Json) (code : ℤ) (message : String) : McpResponse :=
  .rpc 200 (.ofError id code message)

/-- `refuse_unsupported_media_types`. -/
def refuseUnsupportedMediaTypes (headers : HeaderMap) : Except McpResponse Unit :=
  if ¬acceptsMediaType headers "application/json" ∨
      ¬acceptsMediaType headers "text/event-stream" then .error (.status 406)
  else if ¬contentTypeIsJson headers then .error (.status 415)
  else .ok ()

/-- The value is a response of a client. -/
def isClientResponse (value : Json) : Bool :=
  value.asObject.any fun fields =>
    !Json.containsKey fields "method" &&
      (Json.containsKey fields "result" || Json.containsKey fields "error")

/-- `parse_json_rpc_request`. -/
def parseJsonRpcRequest (server : McpServer) (body : List UInt8) :
    Except McpResponse JsonRpcRequest :=
  match server.parse body with
  | none => .error (jsonRpcErrorResponse .null (-32700) "Parse error")
  | some value =>
    if isClientResponse value then .error (.status 400)
    else
      match JsonRpcRequest.ofValue value with
      | none => .error (jsonRpcErrorResponse (detectedRequestId value) (-32600) "Invalid Request")
      | some request => .ok request

/-- The supported versions, as a value. -/
def supportedVersions : Json := .array (supportedMcpProtocolVersions.map Json.string)

/-- `select_protocol_era`. -/
def selectProtocolEra (server : McpServer) (headers : HeaderMap) (request : JsonRpcRequest) :
    Except McpResponse ProtocolEra :=
  match validateProtocol server.base64Decode headers request with
  | .ok era => .ok era
  | .error (.headerMismatch message) =>
    .error (.rpc 400 (.ofError request.id.responseValue (-32020) message))
  | .error (.unsupportedVersion requested) =>
    .error (.rpc 400 (.errorWithData request.id.responseValue (-32022)
      "Unsupported protocol version"
      (.object [("requested", .string requested), ("supported", supportedVersions)])))
  | .error .invalidMetadata =>
    .error (jsonRpcErrorResponse request.id.responseValue (-32602) "Invalid params")

/-- The methods that are requests. -/
def requestMethods : List String :=
  ["initialize", "ping", "server/discover", "tools/list", "tools/call"]

/-- `validate_request_shape`. -/
def validateRequestShape (request : JsonRpcRequest) (era : ProtocolEra) :
    Except McpResponse Unit :=
  if request.jsonrpc ≠ some "2.0" ∨ ¬request.id.isValidMcpId ∨
      ¬request.params.all Json.isObject then
    if request.id.isNotification ∧ request.jsonrpc = some "2.0" then .error (.status 400)
    else
      .error (jsonRpcErrorResponse
        (if request.id.isValidMcpId then request.id.responseValue else .null) (-32600)
        "Invalid Request")
  else if request.method ∈ requestMethods ∧ request.id.isNotification then .error (.status 400)
  else if request.method = "notifications/initialized" ∧ ¬request.id.isNotification then
    .error (jsonRpcErrorResponse request.id.responseValue (-32600) "Invalid Request")
  else if era = .modern ∧ request.id.isNotification then .error (.status 400)
  else .ok ()

/-- What has passed the checks. -/
structure AdmittedRequest where
  request : JsonRpcRequest
  era : ProtocolEra
  /-- The call of a tool, when the method is one. It can be no call. -/
  toolCall : Option (Option McpToolCall)
  authenticated : McpAuthenticatedActor

/-- The call of a tool that a request is. -/
def JsonRpcRequest.toolCall (request : JsonRpcRequest) : Option (Option McpToolCall) :=
  if request.method = "tools/call" then some (decodeToolCall request.params) else none

/-- The scopes that a request needs. -/
def JsonRpcRequest.scopeRequirements (request : JsonRpcRequest) : List (List Scope) :=
  (request.toolCall.join.map McpToolCall.scopeRequirements).getD []

/-- `mcp_post` up to the dispatch. -/
def passChecks (server : McpServer) (headers : HeaderMap) (body : List UInt8) :
    Except McpResponse AdmittedRequest :=
  match server.mcp with
  | none => .error (.problem ⟨404, "not_found", "MCP is not available"⟩)
  | some endpoint => do
    validateMcpOrigin server endpoint headers
    let token ← requireBearerToken endpoint headers
    refuseUnsupportedMediaTypes headers
    let request ← parseJsonRpcRequest server body
    let era ← selectProtocolEra server headers request
    let authenticated ← authenticate endpoint token request.scopeRequirements
    validateRequestShape request era
    return ⟨request, era, request.toolCall, authenticated⟩

/-! ## Dispatch -/

/-- `MCP_SERVER_INSTRUCTIONS`. -/
def mcpServerInstructions : String :=
  "Use get_note_profile before creating or updating notes. " ++
  "MCP note writes reject every warning-severity diagnostic; follow the profile's advisory " ++
  "rules and authoring guidance before writing. " ++
  "For long notes, read with get_note_outline and get_note_fragment instead of get_note, " ++
  "and edit with apply_note_patch instead of resending the whole source; " ++
  "replace_note_source rewrites the entire note. " ++
  "Before creating a note with create_note, list templates with list_note_templates and " ++
  "start from a matching template when one fits the intended content. " ++
  "Bibliography bulk import is not available through MCP; add items one at a time with " ++
  "add_bibliography_item."

namespace McpServer

variable (server : McpServer)

/-- The name and the version of the server. -/
def serverInfo : Json :=
  .object [("name", .string "marginalis"), ("version", .string server.packageVersion)]

/-- `server_metadata`. -/
def serverMetadata : Json := .object [("io.modelcontextprotocol/serverInfo", server.serverInfo)]

/-- `initialize_result`. -/
def initializeResult (params : Option Json) : Option Json := do
  let initialization ← McpInitialize.ofValue (params.getD .null)
  if ¬validClientCapabilities initialization.capabilities ∨
      ¬initialization.clientInfo.isNamed then none
  else
    let protocolVersion :=
      if initialization.protocolVersion = mcpProtocolVersion ∨
          initialization.protocolVersion = "2025-03-26" then initialization.protocolVersion
      else mcpProtocolVersion
    return .object [("capabilities", .object [("tools", .object [])]),
      ("instructions", .string mcpServerInstructions),
      ("protocolVersion", .string protocolVersion), ("serverInfo", server.serverInfo)]

/-- `execute_mcp_tool`. -/
def executeMcpTool (actor : Actor) (call : McpToolCall) : Except McpToolFailure McpToolOutput :=
  match call.tool with
  | none => .error .unknownTool
  | some tool => server.tools actor tool call.arguments

/-- The content of a result. -/
def toolContent (output : McpToolOutput) : List (String × Json) :=
  [("content", .array [.object [("text", .string output.text), ("type", .string "text")]])]

/-- `mcp_tool_call`. -/
def mcpToolCall (actor : Actor) (id : Json) (call : McpToolCall) : JsonRpcResponse :=
  match server.executeMcpTool actor call with
  | .ok output =>
    .success id (.object (toolContent output ++ [("structuredContent", output.value)]))
  | .error (.invalidArguments message) => .ofError id (-32602) message
  | .error .unknownTool => .ofError id (-32602) "Unknown tool"
  | .error (.useCase problem) =>
    .success id (.object (toolContent problem ++
      [("isError", .bool true), ("structuredContent", problem.value)]))

/-- The call of a tool, if the parameters are one : the response, and the tool that is executed. -/
def callTool (actor : Actor) (id : Json) :
    Option (Option McpToolCall) → JsonRpcResponse × Option McpToolName
  | some (some call) => (server.mcpToolCall actor id call, call.tool)
  | _ => (.ofError id (-32602) "Invalid params", none)

/-- `dispatch_mcp_method` : the response, and the tool that is executed. -/
def dispatchMcpMethod (admitted : AdmittedRequest) : JsonRpcResponse × Option McpToolName :=
  let id := admitted.request.id.responseValue
  let params := admitted.request.params
  match admitted.era, admitted.request.method with
  | .modern, "server/discover" =>
    (.success id (.object [("_meta", server.serverMetadata), ("cacheScope", .string "private"),
      ("capabilities", .object [("tools", .object [])]),
      ("instructions", .string mcpServerInstructions), ("resultType", .string "complete"),
      ("supportedVersions", supportedVersions), ("ttlMs", .number "3600000")]), none)
  | .modern, "tools/list" =>
    if validToolsListParams params then
      (.success id (.object [("cacheScope", .string "private"), ("tools", server.toolContracts),
        ("ttlMs", .number "3600000")]), none)
    else (.ofError id (-32602) "Invalid params", none)
  | .modern, "tools/call" =>
    server.callTool admitted.authenticated.actor id admitted.toolCall
  | .modern, _ => (.ofError id (-32601) "Method not found", none)
  | .legacy, "initialize" =>
    match server.initializeResult params with
    | some result => (.success id result, none)
    | none => (.ofError id (-32602) "Invalid params", none)
  | .legacy, "notifications/initialized" => (.success id (.object []), none)
  | .legacy, "ping" => (.success id (.object []), none)
  | .legacy, "tools/list" =>
    if validToolsListParams params then
      (.success id (.object [("tools", server.toolContracts)]), none)
    else (.ofError id (-32602) "Invalid params", none)
  | .legacy, "tools/call" =>
    server.callTool admitted.authenticated.actor id admitted.toolCall
  | .legacy, _ => (.ofError id (-32601) "Method not found", none)

/-- An entry that is set unless there is one. -/
def orInsert (key : String) (value : Json) (fields : List (String × Json)) :
    List (String × Json) :=
  if Json.containsKey fields key then fields else Json.insertField key value fields

/-- `add_modern_result_metadata`. -/
def addModernResultMetadata (response : JsonRpcResponse) : JsonRpcResponse :=
  match response.result with
  | some (.object fields) =>
    { response with result := some (.object (orInsert "_meta" server.serverMetadata
        (orInsert "resultType" (.string "complete") fields))) }
  | _ => response

/-- `finalize_mcp_response`. -/
def finalizeMcpResponse (era : ProtocolEra) (isNotification : Bool) (response : JsonRpcResponse) :
    McpResponse :=
  let response := if era = .modern then server.addModernResultMetadata response else response
  if isNotification then .status 202
  else if era = .modern ∧ response.error.any fun error => error.code = -32601 then
    .rpc 404 response
  else .rpc 200 response

/-- `mcp_post`. -/
def mcpPost (headers : HeaderMap) (body : List UInt8) : McpOutcome :=
  match passChecks server headers body with
  | .error response => ⟨response, none⟩
  | .ok admitted =>
    let (response, executed) := server.dispatchMcpMethod admitted
    ⟨server.finalizeMcpResponse admitted.era admitted.request.id.isNotification response, executed⟩

end McpServer

end Marginalis
