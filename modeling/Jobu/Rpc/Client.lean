import Mathlib.Data.Finset.Sort
import Jobu.Rpc.Protocol

/-!
# The client

`client.cpp`: calls, their responses, and the end of a client.

The client hands control to others in the middle of what it does: to the device while it writes or
reads, and to listeners while it tells them something.  Whoever has control may use the client again.
The stack of the model holds the places where the client is waiting to get control back, the latest
first; with no such place it waits for the next event.  A move is what the one in control does: it
uses the client, or it gives control back (`wrote`, `read`, `resume`).

The log is what callers and listeners have seen, and a token numbers the calls.
-/

namespace Jobu.Rpc

namespace Client

/-- `ClientOptions`, with the codec: `parseJson` reads a body within the nesting limit, and
`serializeError` is the error for a value that has no text. -/
structure ClientOptions where
  framing : FramingLimits := {}
  maxBatchEntries : Nat := 64
  maxPendingRequests : Nat := 128
  maxQueuedOutputBytes : Nat := 2 * 1024 * 1024
  parseJson : Bytes → Except Error JsonValue
  serializeError : JsonValue → Error

/-! ## Errors -/

def invalidMethodError : Error :=
  { category := .invalidArgument, code := "rpc.invalid_argument", message := "RPC method must not be empty" }

def invalidParamsError : Error :=
  { category := .invalidArgument, code := "rpc.invalid_argument",
    message := "RPC parameters must be an object or array" }

def reentrantWriteError : Error :=
  { category := .invalidArgument, code := "rpc.invalid_argument",
    message := "RPC client does not permit reentrant writes" }

def closedOperationError : Error :=
  { category := .unavailable, code := "rpc.connection_closed", message := "RPC client is closed" }

def explicitCloseError : Error :=
  { category := .cancelled, code := "rpc.connection_closed", message := "RPC client was closed" }

def deviceClosedError : Error :=
  { category := .unavailable, code := "rpc.connection_closed", message := "RPC connection closed" }

def pendingLimitError : Error :=
  { category := .resourceExhausted, code := "rpc.pending_limit", message := "RPC client pending request limit reached" }

def outputLimitError : Error :=
  { category := .resourceExhausted, code := "rpc.output_limit", message := "RPC client output limit reached" }

def shortWriteError : Error :=
  { category := .io, code := "rpc.short_write", message := "RPC client device did not accept the complete frame" }

def responseProtocolError : Error :=
  { category := .invalidArgument, code := "rpc.protocol_error",
    message := "The peer sent an invalid JSON-RPC response" }

/-- `IOError`. -/
inductive IOError where
  | noError | invalidArgument | unsupported | resourceError | notOpen | openError | readError
  | writeError | closeError | seekError
deriving DecidableEq, Repr

/-- `device_error`. -/
def deviceError (error : IOError) : Error where
  category := match error with
    | .invalidArgument => .invalidArgument
    | .unsupported => .unsupported
    | .resourceError => .resourceExhausted
    | _ => .io
  code := "rpc.connection_closed"
  message := "RPC connection device failed"

/-! ## State -/

/-- What a request gets in the end. -/
inductive Outcome where
  | result (value : JsonValue)
  | error (error : RpcError)
  | failed (error : Error)

/-- What callers and listeners see. -/
inductive Event where
  /-- The frame of a call was written, and the call got its identifier. -/
  | accepted (token id : Nat)
  /-- A call returned. -/
  | returned (token : Nat) (result : Except Error Nat)
  /-- A request that was pending was cancelled. -/
  | cancelled (id : Nat)
  /-- `result_received`, `error_received` or `request_failed`. -/
  | delivered (id : Nat) (outcome : Outcome)
  | terminated (error : Error)
  | protocolError (error : Error)

/-- The signals of `terminate` after the first. -/
inductive Signal where
  | protocolError (error : Error)
  | requestFailed (id : Nat) (error : Error)

def Signal.event : Signal → Event
  | .protocolError error => .protocolError error
  | .requestFailed id error => .delivered id (.failed error)

/-- Where the client is waiting for control. -/
inductive Frame where
  /-- In `device->write`, for a call with its token and identifier or for a notification. -/
  | writing (call : Option (Nat × Nat)) (size : Nat)
  /-- In `on_accepted`. -/
  | accepted (token id : Nat)
  /-- In `device->read_all`. -/
  | reading
  /-- In the delivery of a response, before more of the same body and more bodies. -/
  | delivering (entries : List (Nat × Outcome)) (bodies : List Bytes)
  /-- In a signal of `terminate`, before more of them. -/
  | terminating (signals : List Signal)
  /-- A call that returns as soon as what is above is done. -/
  | returning (token : Nat) (result : Except Error Nat)

/-- The largest request identifier. -/
def maximumId : Nat := 2 ^ 64 - 1

end Client

open Client

/-- `Client::Private`. -/
structure Client (options : ClientOptions) where
  framer : StreamFramer options.framing := .fresh options.framing
  pendingIds : Finset Nat := ∅
  nextRequestId : Nat := 1
  lastIssuedId : Nat := 0
  queuedOutputBytes : Nat := 0
  terminalError : Option Error := none
  processingInput : Bool := false
  readPending : Bool := false
  writeInProgress : Bool := false
  closed : Bool := false
  stack : List Frame := []
  calls : Nat := 0
  log : List Event := []

namespace Client

variable {options : ClientOptions}

def emit (event : Event) (client : Client options) : Client options :=
  { client with log := client.log ++ [event] }

def push (frame : Frame) (client : Client options) : Client options :=
  { client with stack := frame :: client.stack }

variable (client : Client options)

/-- A call that has only to return does so. -/
def unwind : Client options :=
  match client.stack with
  | .returning token result :: rest => { client with stack := rest }.emit (.returned token result)
  | _ => client

/-! ## The end -/

/-- `terminate`, up to the first signal; the failures are told in the order of the identifiers. -/
def terminate (error : Error) (emitProtocolError : Bool) (client : Client options) : Client options :=
  if client.closed then client
  else
    let signals := (if emitProtocolError then [.protocolError error] else []) ++
      client.pendingIds.sort.map fun id => .requestFailed id error
    ({ client with
        closed := true, terminalError := some error, framer := .fresh options.framing,
        readPending := false, queuedOutputBytes := 0, pendingIds := ∅ }.push
      (.terminating signals)).emit (.terminated error)

/-! ## Reading -/

/-- `process_readable`, up to the first read. -/
def processReadable : Client options :=
  if client.closed then client.unwind
  else if client.writeInProgress || client.processingInput then
    { client with readPending := true }.unwind
  else { client with processingInput := true, readPending := false }.push .reading

/-- The end of the loop of `process_readable`: once more, or out. -/
def endRead : Client options :=
  if client.readPending then { client with readPending := false }.push .reading
  else { client with processingInput := false }.unwind

/-- `preflight_responses`: the identifiers of the responses, each issued and none twice. -/
def preflightResponses (lastIssuedId : Nat) (seen : List Nat) :
    List ResponseEnvelope → Except Error (List (Nat × Outcome))
  | [] => .ok []
  | response :: rest =>
    match response.id with
    | .uint id =>
      if id = 0 ∨ lastIssuedId < id ∨ id ∈ seen then .error responseProtocolError
      else do
        let others ← preflightResponses lastIssuedId (id :: seen) rest
        pure ((id, match response.payload with
          | .result value => .result value
          | .error error => .error error) :: others)
    | _ => .error responseProtocolError

/-- `process_body`, up to the deliveries. -/
def decodeBody (body : Bytes) : Except Error (List (Nat × Outcome)) := do
  let value ← options.parseJson body
  let responses ← decodeResponseDocument value options.maxBatchEntries
  preflightResponses client.lastIssuedId [] responses

/-- The deliveries of `process_body`, up to the next one that is pending; `next` follows the body. -/
def deliverEntries (bodies : List Bytes) (next : Client options → Client options) :
    List (Nat × Outcome) → Client options → Client options
  | [], client => next client
  | (id, outcome) :: more, client =>
    if id ∈ client.pendingIds then
      ({ client with pendingIds := client.pendingIds.erase id }.push (.delivering more bodies)).emit
        (.delivered id outcome)
    else deliverEntries bodies next more client

/-- The loop over the bodies of a read. -/
def processBodies : List Bytes → Client options → Client options
  | [], client => client.endRead
  | body :: rest, client =>
    match client.decodeBody body with
    | .error error => client.terminate error true
    | .ok entries => deliverEntries rest (processBodies rest) entries client

/-- `process_readable` after a read. -/
def processBytes (bytes : Bytes) (client : Client options) : Client options :=
  if client.closed then client.unwind
  else if bytes = [] then client.endRead
  else
    match client.framer.append bytes with
    | (.error error, framer) => { client with framer }.terminate error true
    | (.ok bodies, framer) => processBodies bodies { client with framer }

/-- `process_body` after a delivery. -/
def afterDelivery (entries : List (Nat × Outcome)) (bodies : List Bytes) (client : Client options) : Client options :=
  if client.closed then client.unwind
  else deliverEntries bodies (processBodies bodies) entries client

/-! ## Writing -/

/-- `validate_request`. -/
def validateRequest (method : Bytes) (params : Option JsonValue) : Except Error Unit :=
  if method = [] then .error invalidMethodError
  else
    match params with
    | none | some (.object _) | some (.array _) => .ok ()
    | some _ => .error invalidParamsError

/-- A call or a notification that is refused at once. -/
def refuse (token : Option Nat) (error : Error) (client : Client options) : Client options :=
  match token with
  | none => client
  | some token => client.emit (.returned token (.error error))

/-- A call returns the error after what follows. -/
def willFail (token : Option Nat) (error : Error) (client : Client options) : Client options :=
  match token with
  | none => client
  | some token => client.push (.returning token (.error error))

/-- `write_frame`, up to the write. -/
def writeFrame (frame : Bytes) (call : Option (Nat × Nat)) (client : Client options) : Client options :=
  if client.closed then client.refuse (call.map Prod.fst) closedOperationError
  else if client.writeInProgress then client.refuse (call.map Prod.fst) reentrantWriteError
  else if options.maxQueuedOutputBytes < client.queuedOutputBytes ∨
      options.maxQueuedOutputBytes - client.queuedOutputBytes < frame.length then
    (client.willFail (call.map Prod.fst) outputLimitError).terminate outputLimitError true
  else
    { client with
      queuedOutputBytes := client.queuedOutputBytes + frame.length, writeInProgress := true }.push
      (.writing call frame.length)

/-- The text of a request in its frame. -/
def encodeFrame (options : ClientOptions) (value : JsonValue) : Except Error Bytes :=
  match serializeJson value with
  | none => .error (options.serializeError value)
  | some serialized => frameMessage serialized options.framing

/-- `call`, up to `write_frame`: the identifier and the frame. -/
def prepareCall (method : Bytes) (params : Option JsonValue) (client : Client options) : Except Error (Nat × Bytes) :=
  if client.closed then .error closedOperationError
  else if client.writeInProgress then .error reentrantWriteError
  else do
    validateRequest method params
    if client.nextRequestId = 0 then .error pendingLimitError
    else do
      let frame ← encodeFrame options (encodeRequest (.uint client.nextRequestId) method params)
      if options.maxPendingRequests ≤ client.pendingIds.card then .error pendingLimitError
      else pure (client.nextRequestId, frame)

def call (method : Bytes) (params : Option JsonValue) (client : Client options) : Client options :=
  let token := client.calls
  let client := { client with calls := client.calls + 1 }
  match client.prepareCall method params with
  | .error error => client.refuse (some token) error
  | .ok (id, frame) => client.writeFrame frame (some (token, id))

/-- `notify`; its result is left out. -/
def notify (method : Bytes) (params : Option JsonValue) (client : Client options) : Client options :=
  if client.closed || client.writeInProgress then client
  else
    match (validateRequest method params).bind fun _ =>
      encodeFrame options (encodeNotification method params) with
    | .error _ => client
    | .ok frame => client.writeFrame frame none

/-- `advance_request_id`. -/
def advanceRequestId (id : Nat) (client : Client options) : Client options :=
  { client with lastIssuedId := id, nextRequestId := if id = maximumId then 0 else id + 1 }

/-- `write_frame` after the write: a request that was written whole is pending before anyone hears of
it. -/
def afterWrite (call : Option (Nat × Nat)) (size written : Nat) (client : Client options) : Client options :=
  let client := { client with writeInProgress := false }
  if client.closed then
    client.refuse (call.map Prod.fst) (client.terminalError.getD closedOperationError)
  else if written ≠ size then
    (client.willFail (call.map Prod.fst) shortWriteError).terminate shortWriteError true
  else
    match call with
    | none => if client.readPending then client.processReadable else client
    | some (token, id) =>
      (({ client with pendingIds := insert id client.pendingIds }.advanceRequestId id).push
        (.accepted token id)).emit (.accepted token id)

/-- `write_frame` after `on_accepted`. -/
def afterAccepted (token id : Nat) (client : Client options) : Client options :=
  let client := client.push (.returning token (.ok id))
  if client.readPending then client.processReadable else client.unwind

/-! ## The rest of the interface -/

def cancel (id : RequestId) (client : Client options) : Client options :=
  if client.closed then client
  else
    match id with
    | .uint id =>
      if id ∈ client.pendingIds then
        { client with pendingIds := client.pendingIds.erase id }.emit (.cancelled id)
      else client
    | _ => client

def close : Client options := client.terminate explicitCloseError false

/-- `acknowledge_output`. -/
def acknowledgeOutput (bytes : Nat) (client : Client options) : Client options :=
  if client.closed then client
  else
    { client with
      queuedOutputBytes := if client.queuedOutputBytes ≤ bytes then 0 else client.queuedOutputBytes - bytes }

/-- `handle_device_error`. -/
def handleDeviceError (error : IOError) (client : Client options) : Client options :=
  if error = .noError then client else client.terminate (deviceError error) false

/-! ## Moves -/

/-- What the one in control does. -/
inductive Move where
  | call (method : Bytes) (params : Option JsonValue)
  | notify (method : Bytes) (params : Option JsonValue)
  | cancel (id : RequestId)
  | close
  /-- Signals of the device. -/
  | readyRead
  | bytesWritten (bytes : Nat)
  | deviceFailed (error : IOError)
  | deviceClosed
  /-- The write returns. -/
  | wrote (bytes : Nat)
  /-- The read returns. -/
  | read (bytes : Bytes)
  /-- The listeners return. -/
  | resume

/-- The client after a move; control can only be given back to what waits for it. -/
def step (move : Move) : Option (Client options) :=
  match move with
  | .call method params => some (client.call method params)
  | .notify method params => some (client.notify method params)
  | .cancel id => some (client.cancel id)
  | .close => some client.close
  | .readyRead => some client.processReadable
  | .bytesWritten bytes => some (client.acknowledgeOutput bytes)
  | .deviceFailed error => some (client.handleDeviceError error)
  | .deviceClosed => some (client.terminate deviceClosedError false)
  | .wrote bytes =>
    match client.stack with
    | .writing call size :: rest => some ({ client with stack := rest }.afterWrite call size bytes)
    | _ => none
  | .read bytes =>
    match client.stack with
    | .reading :: rest => some ({ client with stack := rest }.processBytes bytes)
    | _ => none
  | .resume =>
    match client.stack with
    | .accepted token id :: rest => some ({ client with stack := rest }.afterAccepted token id)
    | .delivering entries bodies :: rest =>
      some ({ client with stack := rest }.afterDelivery entries bodies)
    | .terminating [] :: rest => some { client with stack := rest }.unwind
    | .terminating (signal :: signals) :: rest =>
      some (({ client with stack := rest }.push (.terminating signals)).emit signal.event)
    | _ => none

end Client

end Jobu.Rpc
