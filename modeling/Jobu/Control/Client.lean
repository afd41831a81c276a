import Jobu.Lib.Table
import Jobu.Rpc.Client

/-!
# The control client

`control_client.cpp`: typed calls over an RPC client, each of which is settled by a reply or a
failure.

As in the model of the RPC client, the stack holds what is under way, the latest first.  Where the top
of the stack is something that waits (a write, a signal that others hear) those others have control and
may use the client; where it is a piece of the client's own code, the next step is `work`.  With an
empty stack the event loop runs a posted task or the timer.  The RPC client under this one is modelled
by what it may do: take or refuse a call, write its frame, deliver a response, end.

The object is there in all states; its destruction is the end of a run.
-/

namespace Jobu

namespace Control

open Rpc (JsonValue RpcError)
open Lib (Keyed)

/-! ## Methods -/

/-- `Method`. -/
inductive Method where
  | handshake | systemInfo | systemStats | createQueue | getQueue | listQueues | updateQueue
  | suspendQueue | resumeQueue | deleteQueue | queueStats | createJob | getJob | listJobs | updateJob
  | suspendJob | resumeJob | moveJob | deleteJob | runNow | getRun | listRuns | cancelRun | getAttempt
  | listAttempts | readAttemptOutput | setSecret | listSecrets | deleteSecret | validateSchedule
  | nextSchedule
deriving DecidableEq, Repr

/-- The name a method has on the wire. -/
def Method.name : Method → String
  | .handshake | .systemInfo => "system.info"
  | .systemStats => "system.stats"
  | .createQueue => "queue.create"
  | .getQueue => "queue.get"
  | .listQueues => "queue.list"
  | .updateQueue => "queue.update"
  | .suspendQueue => "queue.suspend"
  | .resumeQueue => "queue.resume"
  | .deleteQueue => "queue.delete"
  | .queueStats => "queue.stats"
  | .createJob => "job.create"
  | .getJob => "job.get"
  | .listJobs => "job.list"
  | .updateJob => "job.update"
  | .suspendJob => "job.suspend"
  | .resumeJob => "job.resume"
  | .moveJob => "job.move"
  | .deleteJob => "job.delete"
  | .runNow => "job.run_now"
  | .getRun => "run.get"
  | .listRuns => "run.list"
  | .cancelRun => "run.cancel"
  | .getAttempt => "attempt.get"
  | .listAttempts => "attempt.list"
  | .readAttemptOutput => "attempt.output"
  | .setSecret => "secret.set"
  | .listSecrets => "secret.list"
  | .deleteSecret => "secret.delete"
  | .validateSchedule => "schedule.validate"
  | .nextSchedule => "schedule.next"

/-- `is_mutation`. -/
def Method.isMutation : Method → Bool
  | .createQueue | .updateQueue | .suspendQueue | .resumeQueue | .deleteQueue | .createJob | .updateJob
  | .suspendJob | .resumeJob | .moveJob | .deleteJob | .runNow | .cancelRun | .setSecret
  | .deleteSecret => true
  | _ => false

/-- The methods whose reply has a queue revision. -/
def Method.needsQueueRevision : Method → Bool
  | .createQueue | .getQueue | .listQueues | .updateQueue | .suspendQueue | .resumeQueue => true
  | _ => false

/-! ## Errors -/

def invalidStateError : Error :=
  { category := .unavailable, code := "jobu.client.not_ready", message := "JobU client is not ready" }

def timeoutError : Error :=
  { category := .timeout, code := "jobu.client.timeout", message := "JobU call timed out" }

def cancelledError : Error :=
  { category := .cancelled, code := "jobu.client.cancelled", message := "JobU call was cancelled" }

def closedError : Error :=
  { category := .cancelled, code := "jobu.client.closed", message := "JobU client was closed" }

def unsupportedMethodError : Error :=
  { category := .unsupported, code := "jobu.client.unsupported_method", message := "JobU method is not advertised" }

def invalidTimeoutError : Error :=
  { category := .invalidArgument, code := "jobu.client.invalid_timeout", message := "JobU call timeout is invalid" }

def pendingLimitError : Error :=
  { category := .resourceExhausted, code := "jobu.client.pending_limit",
    message := "JobU client pending call limit reached" }

def queueRevisionError : Error :=
  { category := .unsupported, code := "jobu.client.unsupported_feature",
    message := "Queue revision support requires JobU API 1.6 or newer" }

def stateSetsError : Error :=
  { category := .unsupported, code := "jobu.client.unsupported_feature",
    message := "Run-list state sets require JobU API 1.5 or newer" }

def invalidResponseError : Error :=
  { category := .invalidArgument, code := "jobu.client.invalid_response", message := "JobU response is invalid" }

def handshakeFailedError : Error :=
  { category := .unavailable, code := "jobu.client.handshake_failed", message := "JobU handshake failed" }

def unsupportedApiError : Error :=
  { category := .unsupported, code := "jobu.client.unsupported_api",
    message := "JobU API major version is unsupported" }

/-! ## State -/

/-- `SystemInfo`, as far as the client reads it. -/
structure SystemInfo where
  major : Nat
  minor : Nat
  capabilities : List String

/-- The codec of the replies and the limit of the RPC client. -/
structure Options where
  Reply : Type
  /-- What the result of a method other than the handshake means. -/
  decodeReply : Method → JsonValue → Option Reply
  systemInfoFromJson : JsonValue → Option SystemInfo
  maxPendingRequests : Nat := 128

inductive Phase where
  | uninitialized | initializing | ready | closed | failed
deriving DecidableEq, Repr

/-- What the peer answered. -/
inductive Answer where
  | result (value : JsonValue)
  | error (error : RpcError)

/-- `Pending`, with its identifier. -/
structure Call where
  id : Nat
  method : Method
  deadline : Int
  wireId : Option Nat := none
  outcome : Option Answer := none
  possiblySent : Bool := false

instance : Keyed Call Nat := ⟨Call.id⟩

/-- The call has its identifier on the wire. -/
def Call.bind (wire : Nat) (call : Call) : Call :=
  { call with wireId := some wire, possiblySent := true }

/-- The call has its response. -/
def Call.answered (answer : Answer) (call : Call) : Call := { call with outcome := some answer }

/-- A row of `wire_to_local`. -/
structure Wire where
  number : Nat
  localId : Nat

instance : Keyed Wire Nat := ⟨Wire.number⟩

/-- What the RPC client does with a call: refuse it, end because its output is full, or write it. -/
inductive Taken where
  | refused (error : Error)
  | overflow
  | written

/-- A posted task. -/
inductive Task where
  /-- `deliver_ready_outcomes`. -/
  | deliver (generation : Nat)
  /-- The failure of the connection, and the calls it ends. -/
  | failed (generation : Nat) (error : Error) (calls : List Call)
  /-- The failure of a handshake that was closed during its write. -/
  | handshakeClosed (generation : Nat)
  /-- The end of a call that was closed before its start returned. -/
  | callClosed (generation : Nat) (call : Call)

def Task.generation : Task → Nat
  | .deliver generation | .failed generation _ _ | .handshakeClosed generation
  | .callClosed generation _ => generation

/-- What is under way. -/
inductive Frame where
  /-- Others hear a signal of this client. -/
  | telling
  /-- The RPC client writes the frame of a call. -/
  | writing (id : Nat)
  /-- The RPC client has written the call, and reads what arrived meanwhile. -/
  | reading (id wire : Nat)
  /-- The RPC client has ended, and others hear of it first. -/
  | terminating (error : Error)
  /-- The RPC client has a response, and others hear of it first. -/
  | receiving (wire : Nat) (answer : Answer)
  /-- `start_call` or `initialize`, before and after the call of the RPC client. -/
  | entering (id : Nat) (taken : Taken)
  | returning (id : Nat) (result : Except Error Nat)
  /-- The loop of `deliver_ready_outcomes`. -/
  | delivering (generation : Nat)
  /-- The loop over the calls that the end of the connection leaves. -/
  | retiring (calls : List Call) (error : Error)
  /-- The loop of `close`, before the tasks it posts. -/
  | closing (calls : List Call) (handshake : Bool) (establishing : Option Call)
  /-- The loop of `on_timeout`. -/
  | expiring (expired : List (Nat × Bool))

/-- The client's own code. -/
def Frame.isBusy : Frame → Bool
  | .telling | .writing _ | .reading _ _ | .terminating _ | .receiving _ _ => false
  | _ => true

def Frame.isWriting : Frame → Bool
  | .writing _ => true
  | _ => false

/-- How a call ends: with its reply, with an error of the peer, or with a failure of this side. -/
inductive Settlement (Reply : Type) where
  | reply (reply : Reply)
  | remote (error : RpcError)
  | unobserved (error : Error) (outcomeUnknown : Bool)

/-- What happens, as far as callers and the device can tell. -/
inductive Event (Reply : Type) where
  /-- A start fails before it has an identifier. -/
  | refused (error : Error)
  /-- A start takes an identifier. -/
  | issued (id : Nat) (method : Method)
  /-- A start with an identifier fails. -/
  | abandoned (id : Nat) (error : Error)
  /-- A start returns its identifier. -/
  | started (id : Nat)
  /-- A frame is given to the device. -/
  | handed (id : Nat)
  /-- The response of a call is there. -/
  | received (id : Nat) (answer : Answer)
  /-- `reply_received` or `call_failed`. -/
  | settled (id : Nat) (settlement : Settlement Reply)
  | ready
  | failed (error : Error)

/-- The largest identifier. -/
def maximumId : Nat := 2 ^ 64 - 1

/-- `max_typed_calls`. -/
def maxTypedCalls : Nat := 128

end Control

open Rpc (JsonValue findMember)
open Rpc.Client (closedOperationError reentrantWriteError outputLimitError shortWriteError)
open Control

/-- `ControlClient::Private`, with what surrounds it. -/
structure ControlClient (options : Options) where
  phase : Phase := .uninitialized
  apiMinor : Nat := 0
  capabilities : List String := []
  pending : Lib.Table Call := .empty
  wireToLocal : Lib.Table Wire := .empty
  establishing : Option Nat := none
  readyOutcomes : List Nat := []
  nextId : Nat := 1
  deliveryScheduled : Bool := false
  generation : Nat := 0
  /-- When `deadline_timer` fires. -/
  timer : Option Int := none
  /-- Whether the RPC client has ended, and the identifiers it has not used yet. -/
  rpcClosed : Bool := false
  nextWire : Nat := 1
  tasks : List Task := []
  stack : List Frame := []
  log : List (Event options.Reply) := []

namespace ControlClient

variable {options : Options}

def emit (event : Event options.Reply) (client : ControlClient options) : ControlClient options :=
  { client with log := client.log ++ [event] }

def push (frame : Frame) (client : ControlClient options) : ControlClient options :=
  { client with stack := frame :: client.stack }

/-- A signal. -/
def tell (event : Event options.Reply) (client : ControlClient options) : ControlClient options :=
  (client.emit event).push .telling

def post (task : Task) (client : ControlClient options) : ControlClient options :=
  { client with tasks := client.tasks ++ [task] }

variable (client : ControlClient options)

/-- The phases in which responses are taken. -/
def isLive : Bool :=
  client.phase = .initializing || client.phase = .ready

def isOver : Bool :=
  client.phase = .closed || client.phase = .failed

/-- Whether the RPC client is in a write. -/
def isWriting : Bool := client.stack.any Frame.isWriting

/-! ## Deadlines -/

/-- The largest instant and duration of the clock, in nanoseconds. -/
def maximumTime : Int := 2 ^ 63 - 1

/-- `valid_deadline`; the timeout is in milliseconds. -/
def validDeadline (now timeout : Int) : Option Int :=
  if timeout ≤ 0 ∨ maximumTime / 1000000 < timeout then none
  else if maximumTime - now < timeout * 1000000 then none
  else some (now + timeout * 1000000)

/-- `rearm_deadline`: the timer is set for the earliest deadline of a call without a response. -/
def rearmDeadline : ControlClient options :=
  { client with
    timer := ((client.pending.select fun call => call.outcome.isNone).map Call.deadline).min? }

/-- `disconnect_sources`. -/
def disconnectSources : ControlClient options :=
  { client with timer := none }

/-! ## Responses -/

/-- `schedule_delivery`. -/
def scheduleDelivery : ControlClient options :=
  if client.deliveryScheduled then client
  else { client with deliveryScheduled := true }.post (.deliver client.generation)

/-- `record_response`. -/
def recordResponse (wire : Nat) (answer : Answer) (client : ControlClient options) : ControlClient options :=
  if client.isLive then
    match client.wireToLocal.find? wire with
    | none => client
    | some correlated =>
      let client := { client with
        wireToLocal := client.wireToLocal.delete fun row => row.number = wire }
      match client.pending.find? correlated.localId with
      | none => client
      | some _ =>
        (({ client with
            pending := client.pending.modify correlated.localId (.answered answer) fun _ => rfl
            readyOutcomes := client.readyOutcomes ++ [correlated.localId] }.emit
              (.received correlated.localId answer)).rearmDeadline).scheduleDelivery
  else client

/-- `fail_handshake`. -/
def failHandshake (error : Error) (client : ControlClient options) : ControlClient options :=
  ({ client with
    phase := .failed, pending := .empty, wireToLocal := .empty,
    readyOutcomes := [] }.disconnectSources).tell (.failed { error with detail := "" })

/-- What a response means to its call. -/
def settlementOf (options : Options) (method : Method) : Answer → Settlement options.Reply
  | .error error => .remote error
  | .result value =>
    match options.decodeReply method value with
    | some reply => .reply reply
    | none => .unobserved invalidResponseError method.isMutation

/-- The handshake of `deliver_one`. -/
def deliverHandshake : Answer → ControlClient options
  | .error _ => client.failHandshake handshakeFailedError
  | .result value =>
    match options.systemInfoFromJson value with
    | none => client.failHandshake invalidResponseError
    | some info =>
      if info.major ≠ 1 then client.failHandshake unsupportedApiError
      else
        { client with
          apiMinor := info.minor, capabilities := info.capabilities, phase := .ready }.tell .ready

/-- `deliver_one`. -/
def deliverOne (call : Call) (client : ControlClient options) : ControlClient options :=
  match call.outcome with
  | none => client
  | some answer =>
    if call.method = .handshake then client.deliverHandshake answer
    else client.tell (.settled call.id (settlementOf options call.method answer))

/-- One turn of the loop of `deliver_ready_outcomes`. -/
def deliverReadyOutcomes (generation : Nat) (client : ControlClient options) : ControlClient options :=
  if client.generation ≠ generation then client
  else if client.isLive then
    match client.readyOutcomes with
    | [] => client
    | id :: rest =>
      let client := { client with readyOutcomes := rest }.push (.delivering generation)
      match client.pending.find? id with
      | none => client
      | some call =>
        ({ client with
          pending := client.pending.delete fun row => row.id = id }.rearmDeadline).deliverOne call
  else client

/-- `deliver_retired_call`. -/
def deliverRetiredCall (call : Call) (error : Error) (client : ControlClient options) : ControlClient options :=
  match call.outcome with
  | some _ => client.deliverOne call
  | none =>
    client.tell (.settled call.id
      (.unobserved error (call.method.isMutation && call.possiblySent)))

/-! ## The end of the connection -/

/-- Whether the error can mean that a frame in the middle of its write reached the device. -/
def mayHaveSent (error : Error) : Bool :=
  error.code = "rpc.short_write" || error.code = "rpc.connection_closed"

/-- `on_terminated`. -/
def onTerminated (error : Error) (client : ControlClient options) : ControlClient options :=
  if client.isOver then client
  else
    let calls := (client.pending.select fun call => call.id ≠ 0).map fun call =>
      { call with possiblySent := call.possiblySent || mayHaveSent error }
    let generation := client.generation + 1
    ({ client with
      phase := .failed, pending := .empty, wireToLocal := .empty, readyOutcomes := [],
      generation }.disconnectSources).post (.failed generation { error with detail := "" } calls)

/-! ## Deadlines that pass -/

/-- `on_timeout`, up to the first failure; the handshake can only be the first to expire. -/
def onTimeout (now : Int) (client : ControlClient options) : ControlClient options :=
  let isExpired := fun call : Call => decide (call.deadline ≤ now) && call.outcome.isNone
  let expired := client.pending.select isExpired
  let wires := expired.filterMap Call.wireId
  let client := { client with
    pending := client.pending.delete isExpired,
    wireToLocal := client.wireToLocal.delete fun row => row.number ∈ wires }.rearmDeadline
  if expired.head?.map Call.id = some 0 then client.failHandshake timeoutError
  else
    client.push (.expiring
      (expired.map fun call => (call.id, call.method.isMutation && call.possiblySent)))

/-! ## Starting a call -/

/-- The checks of `start_encoded_call` and `start_call`; the result is the deadline. -/
def prepareStart (method : Method) (params : Option (Except Error JsonValue)) (now timeout : Int)
    (client : ControlClient options) : Except Error Int :=
  if client.phase ≠ .ready then .error invalidStateError
  else
    match params with
    | some (.error error) => .error error
    | _ =>
      if params.isSome ∧ client.apiMinor < 6 ∧ method.needsQueueRevision then
        .error queueRevisionError
      else if method = .listRuns ∧ client.apiMinor < 5 ∧ hasStates params then .error stateSetsError
      else if method.name ∉ client.capabilities then .error unsupportedMethodError
      else
        match validDeadline now timeout with
        | none => .error invalidTimeoutError
        | some deadline =>
          if min maxTypedCalls options.maxPendingRequests ≤ client.pending.rows.length ∨
              client.nextId = 0 then
            .error pendingLimitError
          else .ok deadline
where
  hasStates : Option (Except Error JsonValue) → Bool
    | some (.ok (.object members)) => (findMember members "states").isSome
    | _ => false

/-- `start_call`, up to the call of the RPC client. -/
def start (method : Method) (params : Option (Except Error JsonValue)) (now timeout : Int)
    (taken : Taken) (client : ControlClient options) : ControlClient options :=
  match client.prepareStart method params now timeout with
  | .error error => client.emit (.refused error)
  | .ok deadline =>
    let id := client.nextId
    ({ client with
      nextId := if id = maximumId then 0 else id + 1,
      pending := client.pending.insert { id, method, deadline },
      establishing := some id }.emit (.issued id method)).push (.entering id taken)

/-- `initialize`, up to the call of the RPC client. -/
def initializeClient (now timeout : Int) (taken : Taken) (client : ControlClient options) : ControlClient options :=
  if client.phase ≠ .uninitialized then client
  else
    match validDeadline now timeout with
    | none => client
    | some deadline =>
      { client with
        phase := .initializing, pending := client.pending.insert { id := 0, method := .handshake, deadline },
        establishing := some 0 }.push (.entering 0 taken)

/-- The RPC client gets the call. -/
def enterRpc (id : Nat) (taken : Taken) (client : ControlClient options) : ControlClient options :=
  if client.rpcClosed then client.push (.returning id (.error closedOperationError))
  else if client.isWriting then client.push (.returning id (.error reentrantWriteError))
  else
    match taken with
    | .refused error => client.push (.returning id (.error error))
    | .overflow =>
      ({ client with rpcClosed := true }.push (.returning id (.error outputLimitError))).push
        (.terminating outputLimitError)
    | .written => (client.emit (.handed id)).push (.writing id)

/-- `bind_wire_id`. -/
def bindWireId (id wire : Nat) (client : ControlClient options) : ControlClient options :=
  match client.pending.find? id with
  | none => client
  | some _ =>
    { client with
      pending := client.pending.modify id (.bind wire) fun _ => rfl
      wireToLocal := client.wireToLocal.insert ⟨wire, id⟩ }.rearmDeadline

/-- The write returns: the frame was taken whole and the call has this identifier on the wire, or the
write was short. -/
def afterWrite (id : Nat) (accepted : Option Nat) (client : ControlClient options) : Option (ControlClient options) :=
  if client.rpcClosed then some (client.push (.returning id (.error closedOperationError)))
  else
    match accepted with
    | none =>
      some (({ client with rpcClosed := true }.push (.returning id (.error shortWriteError))).push
        (.terminating shortWriteError))
    | some wire =>
      if wire < client.nextWire then none
      else some (({ client with nextWire := wire + 1 }.bindWireId id wire).push (.reading id wire))

/-- `start_call` and `initialize` after the call of the RPC client. -/
def afterRpc (id : Nat) (result : Except Error Nat) (client : ControlClient options) : ControlClient options :=
  let client := { client with establishing := none }
  if id = 0 then
    match client.isOver, result with
    | false, .error _ => { client with pending := .empty, phase := .uninitialized }
    | _, _ => client
  else
    match client.isOver, result with
    | false, .error error =>
      ({ client with pending := client.pending.delete fun row => row.id = id }.rearmDeadline).emit
        (.abandoned id error)
    | _, _ => client.emit (.started id)

/-! ## Cancelling and closing -/

/-- `cancel_call`. -/
def cancelCall (id : Nat) (client : ControlClient options) : ControlClient options :=
  match client.pending.find? id with
  | none => client
  | some call =>
    if id = 0 then client
    else
      let isError := match call.outcome with
        | some (.error _) => true
        | _ => false
      ({ client with
        pending := client.pending.delete fun row => row.id = id,
        wireToLocal := client.wireToLocal.delete fun row => call.wireId = some row.number,
        readyOutcomes := client.readyOutcomes.filter (· ≠ id) }.rearmDeadline).tell
          (.settled id (.unobserved cancelledError
            (call.method.isMutation && !isError && call.possiblySent)))

/-- `close`, up to the first signal. -/
def close : ControlClient options :=
  if client.isOver then client
  else
    let initializing := client.phase = .initializing
    let deferred := initializing ∧ client.establishing = some 0
    let isEstablishing := fun call : Call => call.id ≠ 0 && client.establishing = some call.id
    let calls := client.pending.select fun call => call.id ≠ 0 && !isEstablishing call
    let establishing := (client.pending.rows.find? isEstablishing).map fun call =>
      { call with possiblySent := true }
    let closed := ({ client with
      phase := .closed, pending := .empty, wireToLocal := .empty, readyOutcomes := [],
      generation := client.generation + 1 }.disconnectSources).push
        (.closing calls deferred establishing)
    if initializing ∧ ¬ deferred then closed.tell (.failed closedError) else closed

/-- The end of `close`. -/
def afterClosing (handshake : Bool) (establishing : Option Call) (client : ControlClient options) :
    ControlClient options :=
  let client := if handshake then client.post (.handshakeClosed client.generation) else client
  match establishing with
  | none => client
  | some call => client.post (.callClosed client.generation call)

/-! ## Steps -/

/-- What happens next. -/
inductive Move where
  | initializeClient (now timeout : Int) (taken : Taken)
  | start (method : Method) (params : Option (Except Error JsonValue)) (now timeout : Int)
      (taken : Taken)
  | cancel (id : Nat)
  | close
  /-- The RPC client has a response to one of its calls. -/
  | respond (wire : Nat) (answer : Answer)
  /-- The RPC client ends. -/
  | terminate (error : Error)
  /-- The write of the top of the stack returns. -/
  | wrote (accepted : Option Nat)
  /-- The signal or the read at the top of the stack is over. -/
  | resume
  /-- The client's own code goes on. -/
  | work
  /-- The event loop runs the first posted task. -/
  | runTask
  /-- The event loop runs the timer. -/
  | timeout (now : Int)

/-- A posted task. -/
def runTask : Task → ControlClient options
  | .deliver generation =>
    if client.generation = generation then
      { client with deliveryScheduled := false }.push (.delivering generation)
    else client
  | .failed generation error calls =>
    if client.generation = generation then (client.push (.retiring calls error)).tell (.failed error)
    else client
  | .handshakeClosed generation =>
    if client.generation = generation then client.tell (.failed closedError) else client
  | .callClosed generation call =>
    if client.generation = generation then client.deliverRetiredCall call closedError else client

/-- The client's own code, at the top of the stack. -/
def work : Frame → Option (ControlClient options)
  | .entering id taken => some (client.enterRpc id taken)
  | .returning id result => some (client.afterRpc id result)
  | .delivering generation => some (client.deliverReadyOutcomes generation)
  | .retiring [] _ => some client
  | .retiring (call :: calls) error =>
    some ((client.push (.retiring calls error)).deliverRetiredCall call error)
  | .closing [] handshake establishing => some (client.afterClosing handshake establishing)
  | .closing (call :: calls) handshake establishing =>
    some ((client.push (.closing calls handshake establishing)).deliverRetiredCall call closedError)
  | .expiring [] => some client
  | .expiring ((id, outcomeUnknown) :: expired) =>
    some ((client.push (.expiring expired)).tell
      (.settled id (.unobserved timeoutError outcomeUnknown)))
  | _ => none

/-- What waits at the top of the stack goes on. -/
def resume : Frame → Option (ControlClient options)
  | .telling => some client
  | .reading id wire => some (client.push (.returning id (.ok wire)))
  | .terminating error => some (client.onTerminated error)
  | .receiving wire answer => some (client.recordResponse wire answer)
  | _ => none

/-- Whether the callers know an identifier. -/
def isStarted (id : Nat) (client : ControlClient options) : Bool :=
  client.log.any fun
    | .started other => other = id
    | _ => false

/-- A move of the others, who have control. -/
def moveOfOthers : Move → Option (ControlClient options)
  | .initializeClient now timeout taken => some (client.initializeClient now timeout taken)
  | .start method params now timeout taken =>
    if method = .handshake then none else some (client.start method params now timeout taken)
  | .cancel id => if client.isStarted id then some (client.cancelCall id) else none
  | .close => some client.close
  | .respond wire answer =>
    -- The RPC client reads nothing while it writes.
    if client.rpcClosed || client.isWriting then none
    else some (client.push (.receiving wire answer))
  | .terminate error =>
    -- During a write only the device or a caller can end the RPC client.
    if client.rpcClosed || (client.isWriting && error.code ≠ "rpc.connection_closed") then none
    else some ({ client with rpcClosed := true }.push (.terminating error))
  | _ => none

/-- One step. -/
def step (move : Move) : Option (ControlClient options) :=
  match client.stack with
  | [] =>
    match move with
    | .runTask =>
      match client.tasks with
      | [] => none
      | task :: tasks => some ({ client with tasks }.runTask task)
    | .timeout now =>
      match client.timer with
      | none => none
      | some due => if due ≤ now then some ({ client with timer := none }.onTimeout now) else none
    | move => client.moveOfOthers move
  | top :: rest =>
    match top.isBusy, move with
    | true, .work => { client with stack := rest }.work top
    | true, _ => none
    | false, .resume => { client with stack := rest }.resume top
    | false, .wrote accepted =>
      match top with
      | .writing id => { client with stack := rest }.afterWrite id accepted
      | _ => none
    | false, move => client.moveOfOthers move

end ControlClient

end Jobu
