import Jobu.Rpc.Json

/-!
# Requests and responses

`protocol.cpp`: what a JSON value means as a request, a response or a batch of either, and the values
that requests and responses are written as.  The members of an object that is written are given in
the order of their names, as the object of the source keeps them.
-/

namespace Jobu.Rpc

/-- `RequestId`: an identifier that is there and null differs from one that is absent. -/
inductive RequestId where
  | null
  | int (value : Int)
  | uint (value : Nat)
  | string (value : Bytes)
deriving DecidableEq, Repr

inductive ErrorCode where
  | parseError
  | invalidRequest
  | methodNotFound
  | invalidParams
  | internalError
  | applicationError
deriving DecidableEq, Repr

def ErrorCode.value : ErrorCode → Int
  | .parseError => -32700
  | .invalidRequest => -32600
  | .methodNotFound => -32601
  | .invalidParams => -32602
  | .internalError => -32603
  | .applicationError => -32000

structure RpcError where
  code : Int := ErrorCode.internalError.value
  message : Bytes := []
  data : Option JsonValue := none

/-- `make_standard_error`. -/
def makeStandardError (code : ErrorCode) : RpcError where
  code := code.value
  message := match code with
    | .parseError => text "Parse error"
    | .invalidRequest => text "Invalid Request"
    | .methodNotFound => text "Method not found"
    | .invalidParams => text "Invalid params"
    | .internalError => text "Internal error"
    | .applicationError => []

/-- `category_name`. -/
def categoryName : ErrorCategory → Bytes
  | .invalidArgument => text "invalid_argument"
  | .notFound => text "not_found"
  | .conflict => text "conflict"
  | .permissionDenied => text "permission_denied"
  | .unavailable => text "unavailable"
  | .resourceExhausted => text "resource_exhausted"
  | .cancelled => text "cancelled"
  | .timeout => text "timeout"
  | .io => text "io"
  | .unsupported => text "unsupported"
  | .internal => text "internal"

/-- `application_error`, for an error with this category, code and message. -/
def applicationError (category : ErrorCategory) (code message : Bytes) : RpcError where
  code := ErrorCode.applicationError.value
  message := message
  data := some (.object [(text "category", .string (categoryName category)), (text "code", .string code)])

/-! ## Requests -/

structure RequestEnvelope where
  id : Option RequestId
  method : Bytes
  params : Option JsonValue

inductive RequestEntry where
  | request (envelope : RequestEnvelope)
  | invalid

inductive RequestDocumentKind where
  | single
  | batch
  | rejectedBatch
deriving DecidableEq, Repr

structure RequestDocument where
  kind : RequestDocumentKind
  entries : List RequestEntry

/-- `find_member`. -/
def findMember (members : List (Bytes × JsonValue)) (name : String) : Option JsonValue :=
  members.lookup (text name)

/-- `has_valid_version`. -/
def hasValidVersion (members : List (Bytes × JsonValue)) : Bool :=
  match findMember members "jsonrpc" with
  | some (.string version) => version == text "2.0"
  | _ => false

/-- `decode_request_id`. -/
def decodeRequestId : JsonValue → Option RequestId
  | .null => some .null
  | .int value => some (.int value)
  | .uint value => some (.uint value)
  | .string value => some (.string value)
  | _ => none

/-- The params are absent or a container. -/
def hasValidParams (members : List (Bytes × JsonValue)) : Bool :=
  match findMember members "params" with
  | none | some (.array _) | some (.object _) => true
  | _ => false

/-- `decode_request_entry`. -/
def decodeRequestEntry : JsonValue → RequestEntry
  | .object members =>
    if hasValidVersion members = false then .invalid
    else
      match findMember members "method" with
      | some (.string method) =>
        if hasValidParams members = false then .invalid
        else
          match findMember members "id" with
          | none => .request { id := none, method, params := findMember members "params" }
          | some value =>
            match decodeRequestId value with
            | none => .invalid
            | some id => .request { id := some id, method, params := findMember members "params" }
      | _ => .invalid
  | _ => .invalid

/-- `decode_request_document`. -/
def decodeRequestDocument (value : JsonValue) (maxBatchEntries : Nat) : RequestDocument :=
  match value with
  | .array items =>
    if items = [] ∨ maxBatchEntries < items.length then
      { kind := .rejectedBatch, entries := [.invalid] }
    else { kind := .batch, entries := items.map decodeRequestEntry }
  | value => { kind := .single, entries := [decodeRequestEntry value] }

/-! ## Responses -/

inductive ResponsePayload where
  | result (value : JsonValue)
  | error (error : RpcError)

structure ResponseEnvelope where
  id : RequestId
  payload : ResponsePayload

/-- A code that a `std::int64_t` holds. -/
def decodeErrorCode : JsonValue → Option Int
  | .int value => some value
  | .uint value => if value ≤ 2 ^ 63 - 1 then some value else none
  | _ => none

/-- `decode_rpc_error`. -/
def decodeRpcError : JsonValue → Option RpcError
  | .object members => do
    let code ← findMember members "code"
    let message ← findMember members "message"
    match message with
    | .string message => do
      let code ← decodeErrorCode code
      pure { code, message, data := findMember members "data" }
    | _ => none
  | _ => none

/-- `decode_response_envelope`. -/
def decodeResponseEnvelope : JsonValue → Option ResponseEnvelope
  | .object members =>
    if hasValidVersion members = false then none
    else do
      let id ← findMember members "id"
      let id ← decodeRequestId id
      match findMember members "result", findMember members "error" with
      | some result, none => pure { id, payload := .result result }
      | none, some error => do
        let error ← decodeRpcError error
        pure { id, payload := .error error }
      | _, _ => none
  | _ => none

/-- `make_protocol_error`. -/
def makeProtocolError : Error where
  category := .invalidArgument
  code := "rpc.protocol_error"
  message := "The peer sent an invalid JSON-RPC response"

/-- `decode_response_document`: the responses of a document, one or a batch of them. -/
def decodeResponseDocument (value : JsonValue) (maxBatchEntries : Nat) : Except Error (List ResponseEnvelope) :=
  let entries := match value with
    | .array items =>
      if items = [] ∨ maxBatchEntries < items.length then none
      else items.mapM decodeResponseEnvelope
    | value => (decodeResponseEnvelope value).map fun response => [response]
  match entries with
  | none => .error makeProtocolError
  | some entries => .ok entries

/-- `encode_request_id`. -/
def encodeRequestId : RequestId → JsonValue
  | .null => .null
  | .int value => .int value
  | .uint value => .uint value
  | .string value => .string value

/-- `encode_request`. -/
def encodeRequest (id : RequestId) (method : Bytes) (params : Option JsonValue) : JsonValue :=
  .object ([(text "id", encodeRequestId id), (text "jsonrpc", .string (text "2.0")),
    (text "method", .string method)] ++ (params.map fun value => (text "params", value)).toList)

/-- `encode_notification`. -/
def encodeNotification (method : Bytes) (params : Option JsonValue) : JsonValue :=
  .object ([(text "jsonrpc", .string (text "2.0")), (text "method", .string method)] ++
    (params.map fun value => (text "params", value)).toList)

/-- `encode_error_object`. -/
def encodeErrorObject (error : RpcError) : JsonValue :=
  .object ([(text "code", .int error.code)] ++ (error.data.map fun value => (text "data", value)).toList ++
    [(text "message", .string error.message)])

/-- `encode_success_response`. -/
def encodeSuccessResponse (id : RequestId) (result : JsonValue) : JsonValue :=
  .object [(text "id", encodeRequestId id), (text "jsonrpc", .string (text "2.0")), (text "result", result)]

/-- `encode_error_response`. -/
def encodeErrorResponse (id : RequestId) (error : RpcError) : JsonValue :=
  .object [(text "error", encodeErrorObject error), (text "id", encodeRequestId id),
    (text "jsonrpc", .string (text "2.0"))]

/-- `encode_batch`. -/
def encodeBatch : List JsonValue → Option JsonValue
  | [] => none
  | entries => some (.array entries)

end Jobu.Rpc
