import Marginalis.Json
import Marginalis.McpHeaders

/-!
# JSON-RPC messages and protocol versions

A JSON-RPC request is decoded from any JSON value (`JsonRpcRequest.ofValue`) : from an object by its
keys, and from an array by its positions. The id is kept as it was sent, and only `isValidMcpId`
says whether it is one that MCP admits. `validateProtocol` finds the era of a request from a header
and the metadata of the body.
-/

namespace Json

def isObject (value : Json) : Bool := value.asObject.isSome

def isBoolean : Json → Bool
  | bool _ => true
  | _ => false

/-- `contains_key`. -/
def containsKey (fields : List (String × Json)) (key : String) : Bool := (fields.lookup key).isSome

/-- The literal of a number is that of an `i64` or a `u64`. `-0` is read as a float. -/
def isIntegerLiteral (literal : String) : Bool :=
  match literal.toList with
  | '-' :: digits =>
    digits ≠ [] && digits.all Char.isDigit && 0 < Nat.ofDigitChars 10 digits 0 &&
      Nat.ofDigitChars 10 digits 0 ≤ 2 ^ 63
  | digits => digits ≠ [] && digits.all Char.isDigit && Nat.ofDigitChars 10 digits 0 < 2 ^ 64

/-- `as_i64` or `as_u64` has a value. -/
def isInteger : Json → Bool
  | number literal => isIntegerLiteral literal
  | _ => false

end Json

namespace Marginalis

/-! ## Messages -/

def mcpProtocolVersion : String := "2025-11-25"

def modernMcpProtocolVersion : String := "2026-07-28"

def supportedMcpProtocolVersions : List String :=
  [modernMcpProtocolVersion, mcpProtocolVersion, "2025-03-26"]

/-- A value that MCP admits as the id of a request : a string or an integer. -/
def isMcpIdValue : Json → Bool
  | .string _ => true
  | value => value.isInteger

inductive JsonRpcId
  | missing
  | present (value : Json)

namespace JsonRpcId

def isNotification : JsonRpcId → Bool
  | missing => true
  | present _ => false

def isValidMcpId : JsonRpcId → Bool
  | missing => true
  | present value => isMcpIdValue value

def responseValue : JsonRpcId → Json
  | missing => .null
  | present value => value

end JsonRpcId

/-- `Option<String>`. -/
def optionalString : Json → Option (Option String)
  | .null => some none
  | .string s => some (some s)
  | _ => none

/-- `Option<Value>`. -/
def optionalValue : Json → Option Json
  | .null => none
  | value => some value

structure JsonRpcRequest where
  jsonrpc : Option String
  id : JsonRpcId
  method : String
  params : Option Json

/-- `JsonRpcRequest` of a JSON value. -/
def JsonRpcRequest.ofValue : Json → Option JsonRpcRequest
  | .object fields => do
    let jsonrpc ← ((fields.lookup "jsonrpc").map optionalString).getD (some none)
    let method ← (fields.lookup "method").bind Json.asStr
    return { jsonrpc
             id := ((fields.lookup "id").map JsonRpcId.present).getD .missing
             method
             params := (fields.lookup "params").bind optionalValue }
  | .array [jsonrpc, id, method, params] => do
    let jsonrpc ← optionalString jsonrpc
    let method ← method.asStr
    return { jsonrpc, id := .present id, method, params := optionalValue params }
  | _ => none

structure JsonRpcError where
  code : ℤ
  message : String
  data : Option Json

structure JsonRpcResponse where
  jsonrpc : String
  id : Json
  result : Option Json
  error : Option JsonRpcError

namespace JsonRpcResponse

def success (id result : Json) : JsonRpcResponse := ⟨"2.0", id, some result, none⟩

def ofError (id : Json) (code : ℤ) (message : String) : JsonRpcResponse :=
  ⟨"2.0", id, none, some ⟨code, message, none⟩⟩

def errorWithData (id : Json) (code : ℤ) (message : String) (data : Json) : JsonRpcResponse :=
  ⟨"2.0", id, none, some ⟨code, message, some data⟩⟩

end JsonRpcResponse

/-- `detected_request_id`. -/
def detectedRequestId (value : Json) : Json :=
  (((value.asObject).bind fun fields => fields.lookup "id").filter isMcpIdValue).getD .null

/-! ## Initialization -/

structure McpClientInfo where
  name : String
  version : String

def McpClientInfo.ofValue : Json → Option McpClientInfo
  | .object fields => do
    let name ← (fields.lookup "name").bind Json.asStr
    let version ← (fields.lookup "version").bind Json.asStr
    return ⟨name, version⟩
  | .array [name, version] => do
    return ⟨← name.asStr, ← version.asStr⟩
  | _ => none

/-- Neither the name nor the version is blank. -/
def McpClientInfo.isNamed (info : McpClientInfo) : Bool :=
  trim info.name.toList ≠ [] && trim info.version.toList ≠ []

structure McpInitialize where
  protocolVersion : String
  capabilities : Json
  clientInfo : McpClientInfo

def McpInitialize.ofValue : Json → Option McpInitialize
  | .object fields => do
    let protocolVersion ← (fields.lookup "protocolVersion").bind Json.asStr
    let capabilities ← fields.lookup "capabilities"
    let clientInfo ← (fields.lookup "clientInfo").bind McpClientInfo.ofValue
    return ⟨protocolVersion, capabilities, clientInfo⟩
  | .array [protocolVersion, capabilities, clientInfo] => do
    return ⟨← protocolVersion.asStr, capabilities, ← McpClientInfo.ofValue clientInfo⟩
  | _ => none

/-- `valid_client_capabilities`. -/
def validClientCapabilities (capabilities : Json) : Bool :=
  match capabilities.asObject with
  | none => false
  | some capabilities =>
    ["experimental", "sampling", "elicitation"].all (fun name =>
      (capabilities.lookup name).all Json.isObject) &&
    (capabilities.lookup "roots").all fun roots =>
      roots.asObject.any fun roots => (roots.lookup "listChanged").all Json.isBoolean

/-- `valid_tools_list_params`. -/
def validToolsListParams (params : Option Json) : Bool :=
  params.all fun params => params.asObject.any fun fields => !Json.containsKey fields "cursor"

/-! ## Protocol versions -/

inductive ProtocolEra
  | legacy
  | modern
  deriving DecidableEq, Repr

inductive ProtocolValidationError
  | headerMismatch (message : String)
  | unsupportedVersion (requested : String)
  | invalidMetadata

def protocolVersionMeta : String := "io.modelcontextprotocol/protocolVersion"

def clientCapabilitiesMeta : String := "io.modelcontextprotocol/clientCapabilities"

def clientInfoMeta : String := "io.modelcontextprotocol/clientInfo"

/-- `decode_mcp_name`, with a decoder of base 64. -/
def decodeMcpName (base64Decode : String → Option (List UInt8)) (value : String) : Option String :=
  match (stripPrefix "=?base64?".toList value.toList).bind fun rest =>
      (stripPrefix "?=".toList.reverse rest.reverse).map List.reverse with
  | none => some value
  | some encoded => do
    let bytes ← base64Decode (String.ofList encoded)
    String.fromUTF8? ⟨bytes.toArray⟩

/-- `validate_modern_headers`. -/
def validateModernHeaders (base64Decode : String → Option (List UInt8)) (headers : HeaderMap)
    (request : JsonRpcRequest) : Except ProtocolValidationError Unit :=
  if headerValue headers "mcp-method" ≠ some request.method then
    .error (.headerMismatch "Mcp-Method header does not match request method")
  else if request.method = "tools/call" then
    match request.params.bind fun params => params.getStr "name" with
    | none => .error .invalidMetadata
    | some bodyName =>
      match (headerValue headers "mcp-name").bind (decodeMcpName base64Decode) with
      | none => .error (.headerMismatch "Mcp-Name header is missing or malformed")
      | some headerName =>
        if headerName ≠ bodyName then
          .error (.headerMismatch "Mcp-Name header does not match request name")
        else .ok ()
  else .ok ()

/-- `validate_protocol`. -/
def validateProtocol (base64Decode : String → Option (List UInt8)) (headers : HeaderMap)
    (request : JsonRpcRequest) : Except ProtocolValidationError ProtocolEra :=
  let headerVersion := headerValue headers "mcp-protocol-version"
  let metadata := (request.params.bind fun params => params.get "_meta").bind Json.asObject
  let metadataVersion :=
    (metadata.bind fun fields => fields.lookup protocolVersionMeta).bind Json.asStr
  if headerVersion = some modernMcpProtocolVersion ∨
      metadataVersion = some modernMcpProtocolVersion then
    match headerVersion with
    | none => .error (.headerMismatch "MCP-Protocol-Version header is missing")
    | some headerVersion =>
      match metadataVersion with
      | none => .error (.headerMismatch "protocol version metadata is missing")
      | some metadataVersion =>
        if headerVersion ≠ metadataVersion then
          .error (.headerMismatch "protocol version header does not match request metadata")
        else if headerVersion ≠ modernMcpProtocolVersion then
          .error (.unsupportedVersion headerVersion)
        else
          match metadata with
          | none => .error .invalidMetadata
          | some metadata =>
            if ¬(metadata.lookup clientCapabilitiesMeta).any Json.isObject ∨
                ¬(metadata.lookup clientInfoMeta).all (fun clientInfo =>
                  (McpClientInfo.ofValue clientInfo).any McpClientInfo.isNamed) then
              .error .invalidMetadata
            else
              (validateModernHeaders base64Decode headers request).map fun _ => .modern
  else
    match headerVersion with
    | none => .ok .legacy
    | some version =>
      if version ≠ mcpProtocolVersion ∧ version ≠ "2025-03-26" then
        .error (.unsupportedVersion version)
      else .ok .legacy

end Marginalis
