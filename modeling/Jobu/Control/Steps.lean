import Jobu.Control.Client

/-!
# What a step of the control client does

The steps sorted by what they change (`Small`).  A step that only replaces frames at the top of the
stack is a `shift`; every other one has its own case, with the conditions under which it is taken.

  > `step_small`: a step is one of these.
-/

namespace Jobu

open List

namespace Control

variable {rest : List Frame} {call : Call}

/-- The calls that a piece of code will end. -/
@[simp] def Frame.calls : Frame → List Call
  | .retiring calls _ => calls
  | .closing calls _ establishing => calls ++ establishing.toList
  | _ => []

@[simp] def Task.calls : Task → List Call
  | .failed _ _ calls => calls
  | .callClosed _ call => [call]
  | _ => []

/-- The call whose start is under way. -/
@[simp] def Frame.opened : Frame → Option Nat
  | .entering id _ | .writing id | .reading id _ | .returning id _ => if id = 0 then none else some id
  | _ => none

end Control

open Rpc (JsonValue)
open Rpc.Client (closedOperationError reentrantWriteError outputLimitError shortWriteError)
open Lib Control

namespace ControlClient

variable {options : Options} {c : ControlClient options}

/-- The calls whose start is under way. -/
def openedIds (stack : List Frame) : List Nat := stack.filterMap Frame.opened

/-- A client can be closed while the start of a call is under way only if it knows which, and if the
frame of the call is with the device. -/
def Careful (c : ControlClient options) : Prop :=
  ∀ id ∈ openedIds c.stack, c.establishing = some id ∧ .handed id ∈ c.log

/-- Others have control. -/
def Waits (c : ControlClient options) : Prop := ∀ top ∈ c.stack.head?, top.isBusy = false

/-- The turn of `deliver_ready_outcomes` is the last. -/
def Collected (generation : Nat) (c : ControlClient options) : Prop :=
  c.generation ≠ generation ∨ c.isLive = false ∨ c.readyOutcomes = []

/-- Frames that take the place of others without any other change. -/
inductive Swap (c : ControlClient options) : List Frame → List Frame → Prop
  | nothing : Swap c [] []
  | told : Swap c [.telling] []
  | heard (wire : Nat) (answer : Answer) : Swap c [] [.receiving wire answer]
  | unheard (wire : Nat) (answer : Answer) : Swap c [.receiving wire answer] []
  | late (error : Error) (ended : c.isOver = true) : Swap c [.terminating error] []
  | read (id wire : Nat) : Swap c [.reading id wire] [.returning id (.ok wire)]
  | refused (id : Nat) (taken : Taken) (error : Error) :
    Swap c [.entering id taken] [.returning id (.error error)]
  | wrote (id : Nat) (error : Error) (ended : c.rpcClosed = true) :
    Swap c [.writing id] [.returning id (.error error)]
  | retired (error : Error) : Swap c [.retiring [] error] []
  | expired : Swap c [.expiring []] []
  | collected (generation : Nat) (last : Collected generation c) :
    Swap c [.delivering generation] []

/-- How a call ends that is no longer pending. -/
def endOf (options : Options) (call : Call) (error : Error) : Settlement options.Reply :=
  match call.outcome with
  | some answer => settlementOf options call.method answer
  | none => .unobserved error (call.method.isMutation && call.possiblySent)

/-- The call that is cancelled. -/
def cancelUnknown (call : Call) : Bool :=
  let isError := match call.outcome with
    | some (.error _) => true
    | _ => false
  call.method.isMutation && !isError && call.possiblySent

/-- Whether `close` leaves the call to a task. -/
def isEstablishing (c : ControlClient options) (call : Call) : Bool :=
  call.id ≠ 0 && c.establishing = some call.id

/-- Whether a deadline has passed without a response. -/
def isExpired (now : Int) (call : Call) : Bool := decide (call.deadline ≤ now) && call.outcome.isNone

/-- One step, by what it changes. -/
inductive Small : ControlClient options → ControlClient options → Prop
  | shift {c : ControlClient options} {before after rest : List Frame}
    (top : c.stack = before ++ rest) (waits : before = [] → Waits c) (swap : Swap c before after) :
    Small c { c with stack := after ++ rest }
  | refuse {c : ControlClient options} (error : Error) : Small c (c.emit (.refused error))
  | issue {c : ControlClient options} (method : Method) (deadline : Int) (taken : Taken)
    (waits : Waits c) (ready : c.phase = .ready) (number : c.nextId ≠ 0)
    (call : method ≠ .handshake) :
    Small c (({ c with
      nextId := if c.nextId = maximumId then 0 else c.nextId + 1,
      pending := c.pending.insert { id := c.nextId, method, deadline },
      establishing := some c.nextId }.emit (.issued c.nextId method)).push
        (.entering c.nextId taken))
  | greet {c : ControlClient options} (deadline : Int) (taken : Taken) (waits : Waits c)
    (fresh : c.phase = .uninitialized) :
    Small c ({ c with
      phase := .initializing, pending := c.pending.insert { id := 0, method := .handshake, deadline },
      establishing := some 0 }.push (.entering 0 taken))
  | overflow {c : ControlClient options} {id : Nat} {taken : Taken} {rest : List Frame}
    (top : c.stack = .entering id taken :: rest) (live : c.rpcClosed = false)
    (idle : rest.any Frame.isWriting = false) :
    Small c { c with
      rpcClosed := true, stack := .terminating outputLimitError :: .returning id (.error outputLimitError) :: rest }
  | hand {c : ControlClient options} {id : Nat} {taken : Taken} {rest : List Frame}
    (top : c.stack = .entering id taken :: rest) (live : c.rpcClosed = false)
    (idle : rest.any Frame.isWriting = false) :
    Small c ({ c with stack := .writing id :: rest }.emit (.handed id))
  | short {c : ControlClient options} {id : Nat} {rest : List Frame}
    (top : c.stack = .writing id :: rest) (live : c.rpcClosed = false) :
    Small c { c with
      rpcClosed := true, stack := .terminating shortWriteError :: .returning id (.error shortWriteError) :: rest }
  | accept {c : ControlClient options} {id wire : Nat} {rest : List Frame}
    (top : c.stack = .writing id :: rest) (live : c.rpcClosed = false) (fresh : c.nextWire ≤ wire)
    {call : Call} (pending : call ∈ c.pending) (called : call.id = id) :
    Small c ({ c with
      stack := .reading id wire :: rest, nextWire := wire + 1, pending := c.pending.modify id (.bind wire) fun _ => rfl,
      wireToLocal := c.wireToLocal.insert ⟨wire, id⟩ }.rearmDeadline)
  | acceptLate {c : ControlClient options} {id wire : Nat} {rest : List Frame}
    (top : c.stack = .writing id :: rest) (live : c.rpcClosed = false) (fresh : c.nextWire ≤ wire)
    (gone : c.pending.find? id = none) :
    Small c { c with stack := .reading id wire :: rest, nextWire := wire + 1 }
  | reset {c : ControlClient options} {error : Error} {rest : List Frame}
    (top : c.stack = .returning 0 (.error error) :: rest) (going : c.isOver = false) :
    Small c { c with
      stack := rest, establishing := none, pending := .empty, phase := .uninitialized }
  | greeted {c : ControlClient options} {result : Except Error Nat} {rest : List Frame}
    (top : c.stack = .returning 0 result :: rest)
    (done : c.isOver = true ∨ result.isOk = true) :
    Small c { c with stack := rest, establishing := none }
  | abandon {c : ControlClient options} {id : Nat} {error : Error} {rest : List Frame}
    (top : c.stack = .returning id (.error error) :: rest) (call : id ≠ 0)
    (going : c.isOver = false) :
    Small c (({ c with
      stack := rest, establishing := none, pending := c.pending.delete fun row => row.id = id }.rearmDeadline).emit
        (.abandoned id error))
  | start {c : ControlClient options} {id : Nat} {result : Except Error Nat} {rest : List Frame}
    (top : c.stack = .returning id result :: rest) (call : id ≠ 0)
    (done : c.isOver = true ∨ result.isOk = true) :
    Small c ({ c with stack := rest, establishing := none }.emit (.started id))
  | terminate {c : ControlClient options} (error : Error) (waits : Waits c)
    (live : c.rpcClosed = false)
    (during : c.isWriting = true → error.code = "rpc.connection_closed") :
    Small c { c with rpcClosed := true, stack := .terminating error :: c.stack }
  | terminated {c : ControlClient options} {error : Error} {rest : List Frame}
    (top : c.stack = .terminating error :: rest) (going : c.isOver = false) :
    Small c { c with
      stack := rest, phase := .failed, pending := .empty, wireToLocal := .empty,
      readyOutcomes := [], generation := c.generation + 1, timer := none,
      tasks := c.tasks ++ [.failed (c.generation + 1) { error with detail := "" }
        ((c.pending.select fun call => call.id ≠ 0).map fun call =>
          { call with possiblySent := call.possiblySent || mayHaveSent error })] }
  | record {c : ControlClient options} {wire : Wire} {answer : Answer} {rest : List Frame}
    (top : c.stack = .receiving wire.number answer :: rest) (live : c.isLive = true)
    (known : wire ∈ c.wireToLocal) {call : Call} (pending : call ∈ c.pending)
    (called : call.id = wire.localId) :
    Small c (ControlClient.rearmDeadline { c with
      stack := rest, wireToLocal := c.wireToLocal.delete fun row => row.number = wire.number,
      pending := c.pending.modify wire.localId (.answered answer) fun _ => rfl,
      readyOutcomes := c.readyOutcomes ++ [wire.localId],
      log := c.log ++ [.received wire.localId answer], deliveryScheduled := true,
      tasks := c.tasks ++ if c.deliveryScheduled then [] else [.deliver c.generation] })
  | forget {c : ControlClient options} {wire : Nat} {answer : Answer} {rest : List Frame}
    (top : c.stack = .receiving wire answer :: rest) :
    Small c { c with
      stack := rest, wireToLocal := c.wireToLocal.delete fun row => row.number = wire }
  | cancel {c : ControlClient options} {call : Call} (waits : Waits c)
    (started : c.isStarted call.id = true) (pending : call ∈ c.pending) (real : call.id ≠ 0) :
    Small c (({ c with
      pending := c.pending.delete fun row => row.id = call.id,
      wireToLocal := c.wireToLocal.delete fun row => call.wireId = some row.number,
      readyOutcomes := c.readyOutcomes.filter (· ≠ call.id) }.rearmDeadline).tell
        (.settled call.id (.unobserved cancelledError (cancelUnknown call))))
  | close {c : ControlClient options} (waits : Waits c) (going : c.isOver = false)
    (careful : Careful c) (loud : Bool) (deferred : Bool) :
    Small c { c with
      phase := .closed, pending := .empty, wireToLocal := .empty, readyOutcomes := [],
      generation := c.generation + 1, timer := none, stack := (if loud then [.telling] else []) ++
        .closing (c.pending.select fun call => call.id ≠ 0 && !c.isEstablishing call) deferred
          ((c.pending.rows.find? c.isEstablishing).map fun call =>
            { call with possiblySent := true }) :: c.stack, log := c.log ++ if loud then [.failed closedError] else [] }
  | closed {c : ControlClient options} {deferred : Bool} {establishing : Option Call}
    {rest : List Frame} (top : c.stack = .closing [] deferred establishing :: rest) :
    Small c { c with
      stack := rest, tasks := c.tasks ++ (if deferred then [.handshakeClosed c.generation] else []) ++
        (establishing.map (Task.callClosed c.generation)).toList }
  | stale {c : ControlClient options} {task : Task} {tasks : List Task} (empty : c.stack = [])
    (first : c.tasks = task :: tasks) (old : task.generation ≠ c.generation) :
    Small c { c with tasks }
  | collect {c : ControlClient options} {tasks : List Task} (empty : c.stack = [])
    (first : c.tasks = .deliver c.generation :: tasks) :
    Small c { c with
      tasks, deliveryScheduled := false, stack := [.delivering c.generation] }
  | failing {c : ControlClient options} {error : Error} {calls : List Call} {tasks : List Task}
    (empty : c.stack = []) (first : c.tasks = .failed c.generation error calls :: tasks) :
    Small c ({ c with tasks, stack := [.retiring calls error] }.tell (.failed error))
  | notice {c : ControlClient options} {tasks : List Task} (empty : c.stack = [])
    (first : c.tasks = .handshakeClosed c.generation :: tasks) :
    Small c ({ c with tasks }.tell (.failed closedError))
  | settleTask {c : ControlClient options} {call : Call} {tasks : List Task} (empty : c.stack = [])
    (first : c.tasks = .callClosed c.generation call :: tasks) :
    Small c ({ c with tasks }.tell (.settled call.id (endOf options call closedError)))
  | skip {c : ControlClient options} {id : Nat} {ready : List Nat} {rest : List Frame}
    (top : c.stack = .delivering c.generation :: rest) (first : c.readyOutcomes = id :: ready)
    (gone : c.pending.find? id = none) :
    Small c { c with readyOutcomes := ready }
  | greetFailed {c : ControlClient options} {call : Call} (error : Error)
    (pending : call ∈ c.pending) (hello : call.id = 0 ∨ call.method = .handshake)
    (inLoop : c.stack = [] ∨ ∃ rest, c.stack = .delivering c.generation :: rest) :
    Small c ({ c with
      phase := .failed, pending := .empty, wireToLocal := .empty, readyOutcomes := [],
      timer := none }.tell (.failed error))
  | greetDone {c : ControlClient options} {call : Call} {ready : List Nat} {rest : List Frame}
    {info : SystemInfo} (top : c.stack = .delivering c.generation :: rest) (live : c.isLive = true)
    (first : c.readyOutcomes = call.id :: ready) (pending : call ∈ c.pending)
    (hello : call.method = .handshake) :
    Small c (({ c with
      readyOutcomes := ready, pending := c.pending.delete fun row => row.id = call.id,
      apiMinor := info.minor, capabilities := info.capabilities, phase := .ready }.rearmDeadline).tell
        .ready)
  | deliver {c : ControlClient options} {call : Call} {answer : Answer} {ready : List Nat}
    {rest : List Frame} (top : c.stack = .delivering c.generation :: rest)
    (live : c.isLive = true) (first : c.readyOutcomes = call.id :: ready)
    (pending : call ∈ c.pending) (answered : call.outcome = some answer)
    (real : call.method ≠ .handshake) :
    Small c (({ c with
      readyOutcomes := ready, pending := c.pending.delete fun row => row.id = call.id }.rearmDeadline).tell
        (.settled call.id (settlementOf options call.method answer)))
  | retire {c : ControlClient options} {call : Call} {calls : List Call} {error : Error}
    {rest : List Frame} (top : c.stack = .retiring (call :: calls) error :: rest) :
    Small c ({ c with stack := .retiring calls error :: rest }.tell
      (.settled call.id (endOf options call error)))
  | closeOne {c : ControlClient options} {call : Call} {calls : List Call} {deferred : Bool}
    {establishing : Option Call} {rest : List Frame}
    (top : c.stack = .closing (call :: calls) deferred establishing :: rest) :
    Small c ({ c with stack := .closing calls deferred establishing :: rest }.tell
      (.settled call.id (endOf options call closedError)))
  | expireOne {c : ControlClient options} {id : Nat} {outcomeUnknown : Bool}
    {expired : List (Nat × Bool)} {rest : List Frame}
    (top : c.stack = .expiring ((id, outcomeUnknown) :: expired) :: rest) :
    Small c ({ c with stack := .expiring expired :: rest }.tell
      (.settled id (.unobserved timeoutError outcomeUnknown)))
  | expire {c : ControlClient options} (now : Int) (empty : c.stack = []) {due : Int}
    (armed : c.timer = some due) (passed : due ≤ now)
    (calls : ∀ call ∈ c.pending, isExpired now call = true → call.id ≠ 0) :
    Small c ({ c with
      pending := c.pending.delete (isExpired now),
      wireToLocal := c.wireToLocal.delete fun row =>
        row.number ∈ (c.pending.select (isExpired now)).filterMap Call.wireId,
      stack := [.expiring ((c.pending.select (isExpired now)).map fun call : Call =>
        (call.id, call.method.isMutation && call.possiblySent))] }.rearmDeadline)

/-! ## Every step is one of these -/

/-- The calls that are not pending any more and have yet to end. -/
def retired (c : ControlClient options) : List Call :=
  c.stack.flatMap Frame.calls ++ c.tasks.flatMap Task.calls

theorem shift_top {frame : Frame} {after : List Frame} (hto : c.stack = frame :: rest)
    (hsw : Swap c [frame] after) : Small c { c with stack := after ++ rest } :=
  .shift (show c.stack = [frame] ++ rest from hto) (by simp) hsw

theorem idle_small (hw : Waits c) : Small c c :=
  .shift (show c.stack = [] ++ c.stack from rfl) (fun _ => hw) .nothing

theorem deliverRetiredCall_eq (hr : call.method ≠ .handshake) (error : Error) (c : ControlClient options) :
    c.deliverRetiredCall call error = c.tell (.settled call.id (endOf options call error)) := by
  unfold deliverRetiredCall endOf deliverOne
  cases call.outcome with
  | none => rfl
  | some => simp only [if_neg hr]

variable {id : Nat}

theorem enterRpc_small {taken : Taken} (hto : c.stack = .entering id taken :: rest) :
    Small c ({ c with stack := rest }.enterRpc id taken) := by
  have hr : ∀ error, Small c ({ c with stack := rest }.push (.returning id (.error error))) := by
    intro error
    exact shift_top hto (.refused id taken error)
  unfold enterRpc
  split
  · exact hr _
  rename_i hl
  split
  · exact hr _
  rename_i hi
  have hl : c.rpcClosed = false := Bool.eq_false_of_not_eq_true hl
  have hi : rest.any Frame.isWriting = false := Bool.eq_false_of_not_eq_true hi
  cases taken with
  | refused error => exact hr error
  | overflow => exact .overflow hto hl hi
  | written => exact .hand hto hl hi

theorem afterRpc_small {result : Except Error Nat} (hto : c.stack = .returning id result :: rest) :
    Small c ({ c with stack := rest }.afterRpc id result) := by
  have ho : ∀ {establishing : Option Nat},
    ({ c with stack := rest, establishing } : ControlClient options).isOver = c.isOver := rfl
  unfold afterRpc
  simp only [ho]
  by_cases hi : id = 0
  · subst hi
    rw [if_pos rfl]
    cases he : c.isOver with
    | true => exact .greeted hto (.inl he)
    | false =>
      cases result with
      | error => exact .reset hto he
      | ok => exact .greeted hto (.inr rfl)
  rw [if_neg hi]
  cases he : c.isOver with
  | true => exact .start hto hi (.inl he)
  | false =>
    cases result with
    | error => exact .abandon hto hi he
    | ok => exact .start hto hi (.inr rfl)

theorem deliverHandshake_small {ready : List Nat}
    (hto : c.stack = .delivering c.generation :: rest) (hl : c.isLive = true)
    (hfi : c.readyOutcomes = call.id :: ready) (hp : call ∈ c.pending)
    (hh : call.method = .handshake) (answer : Answer) :
    Small c (({ c with
      readyOutcomes := ready, pending := c.pending.delete fun row => row.id = call.id }.rearmDeadline).deliverHandshake
        answer) := by
  unfold deliverHandshake
  cases answer with
  | error => exact .greetFailed _ hp (.inr hh) (.inr ⟨rest, hto⟩)
  | result value =>
    simp only
    cases options.systemInfoFromJson value with
    | none => exact .greetFailed _ hp (.inr hh) (.inr ⟨rest, hto⟩)
    | some info =>
      simp only
      by_cases hm : info.major = 1
      · rw [if_neg (not_not.2 hm)]
        exact .greetDone hto hl hfi hp hh
      · rw [if_pos hm]
        exact .greetFailed _ hp (.inr hh) (.inr ⟨rest, hto⟩)

theorem deliverReadyOutcomes_small {generation : Nat} (hto : c.stack = .delivering generation :: rest)
    (han : ∀ call ∈ c.pending, call.id ∈ c.readyOutcomes → call.outcome ≠ none) :
    Small c ({ c with stack := rest }.deliverReadyOutcomes generation) := by
  have hpo : Collected generation c → Small c { c with stack := rest } := fun hla =>
    shift_top hto (.collected generation hla)
  have hli : ({ c with stack := rest } : ControlClient options).isLive = c.isLive := rfl
  unfold deliverReadyOutcomes
  simp only [hli]
  by_cases hg : c.generation = generation
  · subst hg
    rw [if_neg (not_not.2 rfl)]
    cases hl : c.isLive with
    | false => exact hpo (.inr (.inl hl))
    | true =>
      rw [if_pos rfl]
      split
      next hr => exact hpo (.inr (.inr hr))
      rename_i id ready hr
      -- The frame of the loop is put back on the stack, so the stack is the one before.
      have hba : (.delivering c.generation :: rest : List Frame) = c.stack := hto.symm
      simp only [push, hba]
      split
      next hfi => exact .skip hto hr hfi
      rename_i call hfi
      obtain ⟨hp, rfl⟩ := Table.find?_eq_some.1 hfi
      have hso := han call hp (by rw [hr]; exact mem_cons_self)
      unfold deliverOne
      cases ho : call.outcome with
      | none => exact absurd ho hso
      | some answer =>
        simp only
        by_cases hh : call.method = .handshake
        · rw [if_pos hh]
          exact deliverHandshake_small hto hl hr hp hh answer
        · rw [if_neg hh]
          exact .deliver hto hl hr hp ho hh
  · rw [if_pos hg]
    exact hpo (.inl hg)

theorem scheduleDelivery_eq (c : ControlClient options) : c.scheduleDelivery = { c with
    deliveryScheduled := true,
    tasks := c.tasks ++ if c.deliveryScheduled then [] else [.deliver c.generation] } := by
  unfold scheduleDelivery
  cases c with
  | mk phase apiMinor capabilities pending wireToLocal establishing readyOutcomes nextId
    deliveryScheduled generation timer rpcClosed nextWire tasks stack log =>
    cases deliveryScheduled with
    | true => simp
    | false => rfl

theorem recordResponse_small {wire : Nat} {answer : Answer} (hto : c.stack = .receiving wire answer :: rest) :
    Small c ({ c with stack := rest }.recordResponse wire answer) := by
  unfold recordResponse
  split
  next hl =>
    split
    · exact shift_top hto (.unheard wire answer)
    rename_i correlated hfi
    obtain ⟨hk, rfl⟩ := Table.find?_eq_some.1 hfi
    simp only
    split
    · exact .forget hto
    rename_i call hc
    obtain ⟨hp, hca⟩ := Table.find?_eq_some.1 hc
    rw [scheduleDelivery_eq]
    exact .record hto hl hk hp hca
  · exact shift_top hto (.unheard wire answer)

theorem onTerminated_small {error : Error} (hto : c.stack = .terminating error :: rest) :
    Small c ({ c with stack := rest }.onTerminated error) := by
  unfold onTerminated
  split
  next ho => exact shift_top hto (.late error ho)
  next hg => exact .terminated hto (Bool.eq_false_of_not_eq_true hg)

/-- The calls are in the order of their identifiers. -/
theorem head_of_zero {p : Call → Bool} {pending : Table Call} (hc : call ∈ pending.select p) (hz : call.id = 0) :
    (pending.select p).head?.map Call.id = some 0 := by
  have hso := pending.select_sorted p
  cases hl : pending.select p with
  | nil =>
    rw [hl] at hc
    cases hc
  | cons first =>
    rw [hl] at hc hso
    rcases mem_cons.1 hc with rfl | hc
    · exact congrArg some hz
    · have hlt : first.id < call.id := (pairwise_cons.1 hso).1 call hc
      omega

theorem onTimeout_small {now due : Int} (he : c.stack = []) (har : c.timer = some due)
    (hpa : due ≤ now) : Small c ({ c with timer := none }.onTimeout now) := by
  unfold onTimeout
  simp only
  split
  next hfi =>
    obtain ⟨call, hc, hz⟩ := Option.map_eq_some_iff.1 hfi
    have hm := mem_of_mem_head? hc
    exact .greetFailed _ (Table.mem_select.1 hm).1 (.inl hz) (.inl he)
  next hfi =>
    have hca : ∀ call ∈ c.pending, isExpired now call = true → call.id ≠ 0 := by
      intro _ hp hex hz
      exact hfi (head_of_zero (Table.mem_select.2 ⟨hp, hex⟩) hz)
    have hexp := Small.expire now he har hpa hca
    simp only [push, he]
    exact hexp

theorem start_small (hw : Waits c) {method : Method} (hc : method ≠ .handshake)
    (params : Option (Except Error JsonValue)) (now timeout : Int) (taken : Taken) :
    Small c (c.start method params now timeout taken) := by
  unfold start
  split
  · exact .refuse _
  rename_i deadline hp
  unfold prepareStart at hp
  split at hp
  · cases hp
  rename_i hr
  split at hp
  · cases hp
  split at hp
  · cases hp
  split at hp
  · cases hp
  split at hp
  · cases hp
  split at hp
  · cases hp
  split at hp
  · cases hp
  rename_i hro
  exact .issue method deadline taken hw (not_not.1 hr) (fun hz => hro (.inr hz)) hc

theorem initializeClient_small (hw : Waits c) (now timeout : Int) (taken : Taken) :
    Small c (c.initializeClient now timeout taken) := by
  unfold initializeClient
  split
  · exact idle_small hw
  rename_i hfr
  split
  · exact idle_small hw
  next deadline _ => exact .greet deadline taken hw (not_not.1 hfr)

theorem cancelCall_small (hw : Waits c) (hst : c.isStarted id = true) : Small c (c.cancelCall id) := by
  unfold cancelCall
  split
  · exact idle_small hw
  rename_i call hfi
  obtain ⟨hp, rfl⟩ := Table.find?_eq_some.1 hfi
  split
  · exact idle_small hw
  next hr => exact .cancel hw hst hp hr

theorem close_small (hw : Waits c) (hca : c.isOver = false → Careful c) : Small c c.close := by
  unfold close
  split
  · exact idle_small hw
  rename_i hg
  have hg : c.isOver = false := Bool.eq_false_of_not_eq_true hg
  have hc := Small.close hw hg (hca hg)
    (decide (c.phase = .initializing ∧ ¬ (c.phase = .initializing ∧ c.establishing = some 0)))
    (decide (c.phase = .initializing ∧ c.establishing = some 0))
  by_cases hl : c.phase = .initializing ∧ ¬ (c.phase = .initializing ∧ c.establishing = some 0)
  · simp only [decide_eq_true hl, if_pos hl] at hc ⊢
    exact hc
  rw [decide_eq_false hl] at hc
  simp only [Bool.false_eq_true, if_false, append_nil, nil_append] at hc
  simp only [if_neg hl]
  exact hc

theorem afterWrite_small (hto : c.stack = .writing id :: rest) {accepted : Option Nat} {c' : ControlClient options}
    (h : { c with stack := rest }.afterWrite id accepted = some c') : Small c c' := by
  unfold afterWrite at h
  split at h
  next he =>
    cases h
    exact shift_top hto (.wrote id _ he)
  rename_i hl
  have hl : c.rpcClosed = false := Bool.eq_false_of_not_eq_true hl
  cases accepted with
  | none =>
    cases h
    exact .short hto hl
  | some wire =>
    simp only at h
    split at h
    · cases h
    rename_i hfr
    cases h
    unfold bindWireId
    split
    next hg => exact .acceptLate hto hl (Nat.le_of_not_lt hfr) hg
    next _ hfi =>
      obtain ⟨hp, hc⟩ := Table.find?_eq_some.1 hfi
      exact .accept hto hl (Nat.le_of_not_lt hfr) hp hc

theorem runTask_small {task : Task} {tasks : List Task} (he : c.stack = [])
    (hfi : c.tasks = task :: tasks) (hr : ∀ call ∈ task.calls, call.method ≠ .handshake) :
    Small c ({ c with tasks }.runTask task) := by
  by_cases hg : task.generation = c.generation
  · cases task with
    | deliver generation =>
      obtain rfl : generation = c.generation := hg
      simp only [runTask, if_true, push, he]
      exact .collect he hfi
    | failed generation =>
      obtain rfl : generation = c.generation := hg
      simp only [runTask, if_true, push, he]
      exact .failing he hfi
    | handshakeClosed generation =>
      obtain rfl : generation = c.generation := hg
      simp only [runTask, if_true]
      exact .notice he hfi
    | callClosed generation call =>
      obtain rfl : generation = c.generation := hg
      simp only [runTask, if_true, deliverRetiredCall_eq (hr call mem_cons_self)]
      exact .settleTask he hfi
  · have hol := Small.stale he hfi hg
    -- Every task compares the generation it was posted in.
    have ho := Ne.symm hg
    cases task <;> simp only [Task.generation] at ho <;> simp only [runTask, if_neg ho] <;>
      exact hol

theorem work_small {top : Frame} (hto : c.stack = top :: rest)
    (han : ∀ call ∈ c.pending, call.id ∈ c.readyOutcomes → call.outcome ≠ none)
    (hr : ∀ call ∈ top.calls, call.method ≠ .handshake) {c' : ControlClient options}
    (h : { c with stack := rest }.work top = some c') : Small c c' := by
  cases top with
  | entering => exact Option.some.inj h ▸ enterRpc_small hto
  | returning => exact Option.some.inj h ▸ afterRpc_small hto
  | delivering => exact Option.some.inj h ▸ deliverReadyOutcomes_small hto han
  | retiring calls error =>
    cases calls with
    | nil => exact Option.some.inj h ▸ shift_top hto (.retired error)
    | cons call =>
      simp only [work, deliverRetiredCall_eq (hr call mem_cons_self)] at h
      exact Option.some.inj h ▸ .retire hto
  | closing calls deferred establishing =>
    cases calls with
    | nil =>
      cases h
      have hc := Small.closed hto
      cases deferred <;> cases establishing <;> simpa [afterClosing, post] using hc
    | cons call =>
      simp only [work, deliverRetiredCall_eq (hr call mem_cons_self)] at h
      exact Option.some.inj h ▸ .closeOne hto
  | expiring expired =>
    cases expired with
    | nil => exact Option.some.inj h ▸ shift_top hto .expired
    | cons => exact Option.some.inj h ▸ .expireOne hto
  | _ => cases h

variable {move : Move}

theorem moveOfOthers_small (hw : Waits c) {c' : ControlClient options}
    (hca : move = .close → c.isOver = false → Careful c) (h : c.moveOfOthers move = some c') : Small c c' := by
  cases move with
  | initializeClient now timeout taken =>
    exact Option.some.inj h ▸ initializeClient_small hw now timeout taken
  | start _ params now timeout taken =>
    simp only [moveOfOthers] at h
    split at h
    · cases h
    next hc => exact Option.some.inj h ▸ start_small hw hc params now timeout taken
  | cancel =>
    simp only [moveOfOthers] at h
    split at h
    next hst => exact Option.some.inj h ▸ cancelCall_small hw hst
    · cases h
  | close => exact Option.some.inj h ▸ close_small hw (hca rfl)
  | respond wire answer =>
    simp only [moveOfOthers] at h
    split at h
    · cases h
    · cases h
      exact .shift (show c.stack = [] ++ c.stack from rfl) (fun _ => hw) (.heard wire answer)
  | terminate error =>
    simp only [moveOfOthers] at h
    split at h
    · cases h
    rename_i hal
    cases h
    simp only [Bool.or_eq_true, Bool.and_eq_true, decide_eq_true_eq, not_or, not_and, not_not,
      Bool.not_eq_true] at hal
    exact .terminate error hw hal.1 hal.2
  | _ => cases h

/-- **A step is a small step**, when the calls that are ready have their response and no handshake is
among the calls that have yet to end, and when the client is closed with care. -/
theorem step_small (han : ∀ call ∈ c.pending, call.id ∈ c.readyOutcomes → call.outcome ≠ none)
    (hr : ∀ call ∈ c.retired, call.method ≠ .handshake)
    (hca : move = .close → c.isOver = false → Careful c) {c' : ControlClient options}
    (h : c.step move = some c') : Small c c' := by
  unfold step at h
  split at h
  next he =>
    have hw : Waits c := by simp [Waits, he]
    split at h
    · split at h
      · cases h
      next task _ hfi =>
        cases h
        refine runTask_small he hfi ?_
        intro call hc
        refine hr call (mem_append_right _ (mem_flatMap.2 ⟨task, ?_, hc⟩))
        rw [hfi]
        exact mem_cons_self
    · split at h
      · cases h
      next _ har =>
        split at h
        next hp => exact Option.some.inj h ▸ onTimeout_small he har hp
        · cases h
    · exact moveOfOthers_small hw hca h
  next top _ hto =>
    have hw : top.isBusy = false → Waits c := by
      intro hbu
      simpa [Waits, hto] using hbu
    split at h
    · refine work_small hto han ?_ h
      intro call hc
      refine hr call (mem_append_left _ (mem_flatMap.2 ⟨top, ?_, hc⟩))
      rw [hto]
      exact mem_cons_self
    · cases h
    · cases top with
      | telling => exact Option.some.inj h ▸ shift_top hto .told
      | reading id wire => exact Option.some.inj h ▸ shift_top hto (.read id wire)
      | terminating => exact Option.some.inj h ▸ onTerminated_small hto
      | receiving => exact Option.some.inj h ▸ recordResponse_small hto
      | _ => cases h
    · split at h
      · exact afterWrite_small hto h
      · cases h
    next hbu _ _ => exact moveOfOthers_small (hw hbu) hca h

end ControlClient

end Jobu
