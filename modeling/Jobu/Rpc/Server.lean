import Jobu.Rpc.Protocol

/-!
# The server

`dispatch_document` and `dispatch_entry` of `server.cpp`: what a connection does with a request or a
batch of requests.

A handler may do anything to the world, including to the connection, and it may throw; what the server
reads of the world is only whether the connection is still there (`status`).  Beside the world the
session keeps the calls that were made, in their order.  The context of a handler also carries the
connection and its peer, which are the same for all calls.
-/

namespace Jobu.Rpc

inductive ConnectionStatus where
  /-- The connection takes and gives messages. -/
  | live
  /-- It is being closed. -/
  | closing
  /-- It is gone. -/
  | retired
deriving DecidableEq, Repr

/-- `ServerOptions`, as far as the dispatch of a document reads them. -/
structure ServerOptions where
  framing : FramingLimits := {}
  maxBatchEntries : Nat := 64
  responseLimitErrorCode : Bytes := text "rpc.response.too_large"

/-- What a handler comes back with. -/
inductive HandlerAnswer where
  | success (result : JsonValue)
  | failure (error : RpcError)
  | uninitialized
  | threw

/-- `RequestContext`. -/
structure RequestContext where
  successResultMaxBytes : Option Nat := none

/-- `MethodHandler`. -/
abbrev MethodHandler (σ : Type) := RequestContext → Option JsonValue → σ → HandlerAnswer × σ

/-- The members of the server that a dispatch reads. -/
structure Server (σ : Type) where
  options : ServerOptions := {}
  methods : Bytes → Option (MethodHandler σ)
  status : σ → ConnectionStatus

/-- A call of a handler: for which request, and whether the connection was live after it. -/
structure Call where
  request : RequestEnvelope
  live : Bool

structure Session (σ : Type) where
  world : σ
  calls : List Call := []

/-- `internal_error_response`. -/
def internalErrorResponse (id : RequestId) : JsonValue :=
  encodeErrorResponse id (makeStandardError .internalError)

/-- `batch_limit_error_response`. -/
def batchLimitErrorResponse (id : RequestId) (code : Bytes) : JsonValue :=
  encodeErrorResponse id (applicationError .resourceExhausted code
    (text "Resource result exceeds the configured response limit"))

/-- The loop of `batch_fits_body`, with what remains of the body. -/
def fitsRemaining (first : Bool) (remaining : Nat) : List JsonValue → Bool
  | [] => true
  | response :: rest =>
    let separator := if first then 0 else 1
    match serializeJson response with
    | none => false
    | some serialized =>
      if remaining < separator ∨ remaining - separator < serialized.length then false
      else fitsRemaining false (remaining - (separator + serialized.length)) rest

/-- `batch_fits_body`. -/
def batchFitsBody (responses : List JsonValue) (limit : Nat) : Bool :=
  if limit < 2 then false else fitsRemaining true (limit - 2) responses

namespace Server

variable {σ : Type} (server : Server σ)

def isLive (world : σ) : Bool := server.status world == .live

/-- What the server makes of the answer to a request, in the world after it. -/
def respond (request : RequestEnvelope) (answer : HandlerAnswer) (world : σ) : Option JsonValue :=
  match answer with
  | .threw =>
    match request.id with
    | none => none
    | some id => if server.status world = .retired then none else some (internalErrorResponse id)
  | answer =>
    if server.isLive world = false then none
    else
      match request.id with
      | none => none
      | some id =>
        let response := match answer with
          | .success result => encodeSuccessResponse id result
          | .failure error => encodeErrorResponse id error
          | .uninitialized | .threw => internalErrorResponse id
        if (serializeJson response).isNone then some (internalErrorResponse id) else some response

/-- Runs the handler. -/
def callHandler (handler : MethodHandler σ) (request : RequestEnvelope) (context : RequestContext)
    (session : Session σ) : Option JsonValue × Session σ :=
  let (answer, world) := handler context request.params session.world
  (server.respond request answer world, { world, calls := session.calls ++ [⟨request, server.isLive world⟩] })

/-- `dispatch_entry`. -/
def dispatchEntry (entry : RequestEntry) (session : Session σ) : Option JsonValue × Session σ :=
  match entry with
  | .invalid => (some (encodeErrorResponse .null (makeStandardError .invalidRequest)), session)
  | .request request =>
    match server.methods request.method with
    | none => (request.id.map fun id => encodeErrorResponse id (makeStandardError .methodNotFound), session)
    | some handler =>
      if server.isLive session.world = false then (none, session)
      else
        match request.id with
        | none => server.callHandler handler request {} session
        | some id =>
          match serializeJson (encodeSuccessResponse id .null) with
          | none => (some (internalErrorResponse id), session)
          | some envelope =>
            -- the four bytes of `null` are the result's
            let overhead := envelope.length - 4
            let limit := server.options.framing.maxBodyBytes
            server.callHandler handler request
              { successResultMaxBytes := some (if overhead ≤ limit then limit - overhead else 0) } session

/-- The loop over the entries of a document: the responses, unless the connection goes away. -/
def dispatchEntries (responses : List JsonValue) : List RequestEntry → Session σ → Option (List JsonValue) × Session σ
  | [], session => (some responses, session)
  | entry :: rest, session =>
    let (response, session) := server.dispatchEntry entry session
    if server.isLive session.world = false then (none, session)
    else dispatchEntries (responses ++ response.toList) rest session

/-- The error that stands for the answer to an entry, if it gets one. -/
def boundedError : RequestEntry → Option JsonValue
  | .invalid => some (encodeErrorResponse .null (makeStandardError .invalidRequest))
  | .request request =>
    request.id.map fun id => batchLimitErrorResponse id server.options.responseLimitErrorCode

/-- `dispatch_document`. -/
def dispatchDocument (document : RequestDocument) (session : Session σ) : Option JsonValue × Session σ :=
  let limit := server.options.framing.maxBodyBytes
  let boundedErrors :=
    if document.kind = .batch then document.entries.filterMap server.boundedError else []
  if boundedErrors ≠ [] ∧ batchFitsBody boundedErrors limit = false then
    (some (batchLimitErrorResponse .null server.options.responseLimitErrorCode), session)
  else
    match server.dispatchEntries [] document.entries session with
    | (none, session) => (none, session)
    | (some responses, session) =>
      if document.kind = .batch then
        if responses = [] then (none, session)
        else if batchFitsBody responses limit then (encodeBatch responses, session)
        else (encodeBatch boundedErrors, session)
      else (responses.head?, session)

end Server

end Jobu.Rpc
