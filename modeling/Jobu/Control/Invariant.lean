import Jobu.Control.Steps
import Jobu.Lib.Tickets

/-!
# What the control client keeps

The calls as tickets (`tickets`): a call waits while it is pending, and its end is owed by a task or by
a loop on the stack once it is not.
-/

namespace Jobu

open List

namespace Control

variable {Reply : Type}

/-! ## What the log says -/

@[simp] def Event.issuedId : Event Reply → Option Nat
  | .issued id _ => some id
  | _ => none

@[simp] def Event.startedId : Event Reply → Option Nat
  | .started id => some id
  | _ => none

@[simp] def Event.abandonedId : Event Reply → Option Nat
  | .abandoned id _ => some id
  | _ => none

@[simp] def Event.settledId : Event Reply → Option Nat
  | .settled id _ => some id
  | _ => none

/-! ## What the stack and the tasks hold -/

/-- The calls that timed out and have yet to be told. -/
@[simp] def Frame.expired : Frame → List (Nat × Bool)
  | .expiring expired => expired
  | _ => []

/-- The calls whose end this code owes. -/
@[simp] def Frame.owed (frame : Frame) : List Nat := frame.calls.map Call.id ++ frame.expired.map Prod.fst

@[simp] def Task.owed (task : Task) : List Nat := task.calls.map Call.id

/-- The calls that this code fails without waiting for a start to return. -/
@[simp] def Frame.prompt : Frame → List Nat
  | .closing calls _ _ => calls.map Call.id
  | .expiring expired => expired.map Prod.fst
  | _ => []

/-- The code that ends a client. -/
@[simp] def Frame.isEnd : Frame → Bool
  | .retiring _ _ | .closing _ _ _ => true
  | _ => false

@[simp] def Task.isEnd : Task → Bool
  | .deliver _ => false
  | _ => true

/-- The loops that the event loop starts. -/
def Frame.isLoop : Frame → Bool
  | .delivering _ | .retiring _ _ | .expiring _ => true
  | _ => false

/-- The start of the handshake. -/
def Frame.isHandshake : Frame → Bool
  | .entering id _ | .writing id | .reading id _ | .returning id _ => id = 0
  | _ => false

end Control

open Lib Control Table Frame

namespace ControlClient

variable {options : Options} {c c' : ControlClient options}

def issuedIds (log : List (Event options.Reply)) : List Nat := log.filterMap Event.issuedId

def startedIds (log : List (Event options.Reply)) : List Nat := log.filterMap Event.startedId

def abandonedIds (log : List (Event options.Reply)) : List Nat := log.filterMap Event.abandonedId

def settledIds (log : List (Event options.Reply)) : List Nat := log.filterMap Event.settledId

/-- The calls that are pending. -/
def waitingIds (pending : Table Call) : List Nat := (pending.rows.map Call.id).filter (· ≠ 0)

def owedIds (stack : List Frame) (tasks : List Task) : List Nat :=
  stack.flatMap Frame.owed ++ tasks.flatMap Task.owed

/-- The calls of the client as tickets. -/
def tickets (c : ControlClient options) : Tickets where
  issued := issuedIds c.log
  opened := openedIds c.stack
  started := startedIds c.log
  abandoned := abandonedIds c.log
  waiting := waitingIds c.pending
  owed := owedIds c.stack c.tasks
  settled := settledIds c.log

/-! ## The views after a change -/

theorem filterMap_snoc {α β : Type} (f : α → Option β) (list : List α) (last : α) :
    (list ++ [last]).filterMap f = list.filterMap f ++ (f last).toList := by
  rw [filterMap_append, filterMap_cons, filterMap_nil]
  cases f last <;> rfl

section Log

variable (log : List (Event options.Reply)) (event : Event options.Reply)

@[simp] theorem issuedIds_append : issuedIds (log ++ [event]) = issuedIds log ++ event.issuedId.toList := by
  exact filterMap_snoc _ log event

@[simp] theorem startedIds_append : startedIds (log ++ [event]) = startedIds log ++ event.startedId.toList := by
  exact filterMap_snoc _ log event

@[simp] theorem abandonedIds_append : abandonedIds (log ++ [event]) = abandonedIds log ++ event.abandonedId.toList := by
  exact filterMap_snoc _ log event

@[simp] theorem settledIds_append : settledIds (log ++ [event]) = settledIds log ++ event.settledId.toList := by
  exact filterMap_snoc _ log event

end Log

@[simp] theorem openedIds_cons (frame : Frame) (stack : List Frame) :
    openedIds (frame :: stack) = frame.opened.toList ++ openedIds stack := by
  unfold openedIds
  rw [filterMap_cons]
  cases frame.opened <;> rfl

@[simp] theorem owedIds_cons (frame : Frame) (stack : List Frame) (tasks : List Task) :
    owedIds (frame :: stack) tasks = frame.owed ++ owedIds stack tasks := by
  simp [owedIds]

@[simp] theorem owedIds_append (stack : List Frame) (tasks more : List Task) :
    owedIds stack (tasks ++ more) = owedIds stack tasks ++ more.flatMap Task.owed := by
  simp [owedIds]

@[simp] theorem openedIds_nil : openedIds [] = [] := rfl

@[simp] theorem waitingIds_empty : waitingIds .empty = [] := rfl

theorem waitingIds_eq (pending : Table Call) :
    waitingIds pending = (pending.select fun call => call.id ≠ 0).map Call.id := by
  unfold waitingIds Table.select
  rw [filter_map]
  rfl

theorem mem_waitingIds {pending : Table Call} {n : Nat} :
    n ∈ waitingIds pending ↔ n ≠ 0 ∧ ∃ call ∈ pending, call.id = n := by
  simp [waitingIds, mem_def, and_comm]

variable {before after : List Frame}

theorem Swap.opened (h : Swap c before after) (rest : List Frame) :
    openedIds (after ++ rest) = openedIds (before ++ rest) := by
  cases h <;> simp [openedIds, filterMap_cons, opened]

theorem Swap.owed (h : Swap c before after) (rest : List Frame)
    (tasks : List Task) : owedIds (after ++ rest) tasks = owedIds (before ++ rest) tasks := by
  cases h <;> simp [owedIds, owed, calls]

variable {call : Call}

theorem waitingIds_insert {pending : Table Call} (hr : call.id ≠ 0) (hn : pending.find? call.id = none) :
    (waitingIds (pending.insert call)).Perm (call.id :: waitingIds pending) := by
  have hro := ((rows_insert hn).map Call.id).filter (· ≠ 0)
  simpa [waitingIds, hr] using hro

theorem waitingIds_delete {pending : Table Call} (hr : call.id ≠ 0) (hc : call ∈ pending) :
    (waitingIds pending).Perm
      (call.id :: waitingIds (pending.delete fun row => row.id = call.id)) := by
  have hro : pending.rows.Perm (call :: (pending.delete fun row => row.id = call.id).rows) :=
    rows_delete_key hc
  simpa [waitingIds, hr] using (hro.map Call.id).filter (· ≠ 0)

variable {id : Nat}

theorem waitingIds_modify {pending : Table Call} (f : Call → Call) (hf : ∀ call, Keyed.key (f call) = Keyed.key call) :
    waitingIds (pending.modify id f hf) = waitingIds pending := by
  have hr : (pending.modify id f hf).rows.map Call.id = pending.rows.map Call.id :=
    rows_modify hf
  rw [waitingIds, hr]
  rfl

@[simp] theorem waitingIds_bind (pending : Table Call) (id wire : Nat) :
    waitingIds (pending.modify id (.bind wire) fun _ => rfl) = waitingIds pending :=
  waitingIds_modify (.bind wire) fun _ => rfl

@[simp] theorem waitingIds_answered (pending : Table Call) (id : Nat) (answer : Answer) :
    waitingIds (pending.modify id (.answered answer) fun _ => rfl) = waitingIds pending :=
  waitingIds_modify (.answered answer) fun _ => rfl

/-- The handshake is no call. -/
theorem waitingIds_eq_nil {pending : Table Call} (h : ∀ call ∈ pending, call.id = 0) : waitingIds pending = [] := by
  refine eq_nil_iff_forall_not_mem.2 ?_
  intro n hn
  obtain ⟨hr, call, hc, rfl⟩ := mem_waitingIds.1 hn
  exact hr (h call hc)

theorem waitingIds_expire (pending : Table Call) {p : Call → Bool} (h : ∀ call ∈ pending, p call = true → call.id ≠ 0) :
    (waitingIds pending).Perm ((pending.select p).map Call.id ++ waitingIds (pending.delete p)) := by
  have hr := ((rows_delete pending p).map Call.id).filter (· ≠ 0)
  rw [map_append, filter_append] at hr
  have hal : ((pending.select p).map Call.id).filter (· ≠ 0) = (pending.select p).map Call.id := by
    refine filter_eq_self.2 ?_
    intro n hn
    obtain ⟨call, hc, rfl⟩ := mem_map.1 hn
    have := h call (mem_select.1 hc).1 (mem_select.1 hc).2
    simpa using this
  rw [hal] at hr
  exact hr

/-! ## The stack -/

/-- The loops of the event loop are at the bottom of the stack. -/
def Bottom (stack : List Frame) : Prop := stack.Pairwise fun upper _ => upper.isLoop = false

variable {frame : Frame}

theorem bottom_cons {stack : List Frame} :
    Bottom (frame :: stack) ↔ (frame.isLoop = false ∨ stack = []) ∧ Bottom stack := by
  unfold Bottom
  rw [pairwise_cons]
  refine and_congr_left fun _ => ?_
  cases stack with
  | nil => simp
  | cons lower =>
    constructor
    · intro h
      exact .inl (h lower mem_cons_self)
    · rintro (h | h)
      · exact fun _ _ => h
      · cases h

theorem Bottom.push {stack : List Frame} (h : Bottom stack)
    (hfr : frame.isLoop = false) : Bottom (frame :: stack) := bottom_cons.2 ⟨.inl hfr, h⟩

variable {rest : List Frame}

theorem Bottom.replace {other : Frame} (h : Bottom (frame :: rest))
    (ho : other.isLoop = false ∨ frame.isLoop = true) : Bottom (other :: rest) := by
  obtain ⟨hfr, hr⟩ := bottom_cons.1 h
  refine bottom_cons.2 ⟨?_, hr⟩
  rcases ho with ho | hl
  · exact .inl ho
  · exact .inr (hfr.resolve_left (by simp [hl]))

theorem Bottom.pop (h : Bottom (frame :: rest)) : Bottom rest :=
  (bottom_cons.1 h).2

theorem Bottom.alone (h : Bottom (frame :: rest)) (hl : frame.isLoop = true) : rest = [] :=
  (bottom_cons.1 h).1.resolve_left (by simp [hl])

theorem Swap.bottom (hsw : Swap c before after) (h : Bottom (before ++ rest)) : Bottom (after ++ rest) := by
  cases hsw with
  | nothing => exact h
  | heard => exact h.push rfl
  | read | refused | wrote => exact h.replace (.inl rfl)
  | _ => exact h.pop

theorem Small.bottom (hsm : Small c c') (h : Bottom c.stack) : Bottom c'.stack := by
  cases hsm with
  | shift hto _ hsw => exact hsw.bottom (hto ▸ h)
  | refuse | stale | skip => exact h
  | issue | greet | terminate | cancel | notice | settleTask | greetFailed | greetDone | deliver =>
    exact h.push rfl
  | overflow hto | short hto | closeOne hto => exact ((hto ▸ h).replace (.inl rfl)).push rfl
  | hand hto | accept hto | acceptLate hto => exact (hto ▸ h).replace (.inl rfl)
  | reset hto | greeted hto | abandon hto | start hto | terminated hto | record hto | forget hto
  | closed hto => exact (hto ▸ h).pop
  | close _ _ _ loud =>
    cases loud with
    | false => exact h.push rfl
    | true => exact (h.push rfl).push rfl
  | collect | expire => exact bottom_cons.2 ⟨.inr rfl, .nil⟩
  | failing => exact Bottom.push (bottom_cons.2 ⟨.inr rfl, .nil⟩) rfl
  | retire hto | expireOne hto => exact ((hto ▸ h).replace (.inr rfl)).push rfl

/-! ## The phases -/

/-- What is pending in which phase; the handshake has identifier 0. -/
structure Phased (phase : Phase) (pending : Table Call) (stack : List Frame) : Prop where
  idle : phase ≠ .initializing → phase ≠ .ready → ∀ call, call ∉ pending
  greeting : phase = .initializing → ∀ call ∈ pending, call.id = 0
  ready : phase = .ready → ∀ call ∈ pending, call.id ≠ 0
  method : ∀ call ∈ pending, call.id = 0 ↔ call.method = .handshake
  starting : 0 < stack.countP Frame.isHandshake → phase ≠ .uninitialized ∧ phase ≠ .ready
  alone : stack.countP Frame.isHandshake ≤ 1

section Phased

variable {phase : Phase} {pending pending' : Table Call} {stack stack' : List Frame}

theorem Phased.none_over (h : Phased c.phase c.pending c.stack) (ho : c.isOver = true) :
    ∀ call, call ∉ c.pending := by
  have hp : c.phase = .closed ∨ c.phase = .failed := by simpa [isOver] using ho
  rcases hp with hp | hp
  · exact h.idle (by simp [hp]) (by simp [hp])
  · exact h.idle (by simp [hp]) (by simp [hp])

section

variable (h : Phased phase pending stack)

include h

theorem Phased.onStack (hle : stack'.countP isHandshake ≤ stack.countP isHandshake) : Phased phase pending stack' :=
  ⟨h.idle, h.greeting, h.ready, h.method, fun hp => h.starting (Nat.lt_of_lt_of_le hp hle), hle.trans h.alone⟩

/-- Fewer calls, or calls that changed otherwise. -/
theorem Phased.onPending (hsa : ∀ call ∈ pending', ∃ old ∈ pending, call.id = old.id ∧ call.method = old.method) :
    Phased phase pending' stack where
  idle hg hr call hc := by
    obtain ⟨old, ho, -⟩ := hsa call hc
    exact h.idle hg hr old ho
  greeting hp call hc := by
    obtain ⟨old, ho, hi, -⟩ := hsa call hc
    exact hi ▸ h.greeting hp old ho
  ready hp call hc := by
    obtain ⟨old, ho, hi, -⟩ := hsa call hc
    exact hi ▸ h.ready hp old ho
  method call hc := by
    obtain ⟨old, ho, hi, hm⟩ := hsa call hc
    rw [hi, hm]
    exact h.method old ho
  starting := h.starting
  alone := h.alone

theorem Phased.delete (p : Call → Bool) : Phased phase (pending.delete p) stack :=
  h.onPending fun call hc => ⟨call, (mem_delete.1 hc).1, rfl, rfl⟩

/-- A change of the calls that keeps who they are. -/
theorem Phased.modify (id : Nat) (f : Call → Call)
    (hf : ∀ call, Keyed.key (f call) = Keyed.key call) (hm : ∀ call, (f call).method = call.method) :
    Phased phase (pending.modify id f hf) stack := by
  refine h.onPending ?_
  intro call hc
  rcases (mem_modify hf).1 hc with ⟨old, ho, _, rfl⟩ | ⟨ho, _⟩
  · exact ⟨old, ho, hf old, hm old⟩
  · exact ⟨call, ho, rfl, rfl⟩

theorem Phased.insert (hr : phase = .ready)
    (hi : call.id ≠ 0) (hm : call.method ≠ .handshake) : Phased phase (pending.insert call) stack where
  idle _ hp := absurd hr hp
  greeting hp := nomatch hr.symm.trans hp
  ready _ other ho := by
    rcases mem_of_mem_insert ho with rfl | ho
    · exact hi
    · exact h.ready hr other ho
  method other ho := by
    rcases mem_of_mem_insert ho with rfl | ho
    · exact ⟨fun hz => absurd hz hi, fun hh => absurd hh hm⟩
    · exact h.method other ho
  starting := h.starting
  alone := h.alone

theorem Phased.end {final : Phase} (hfi : final = .closed ∨ final = .failed)
    (hle : stack'.countP isHandshake ≤ stack.countP isHandshake) :
    Phased final .empty stack' where
  idle _ _ call := not_mem_empty call
  greeting _ call hc := absurd hc (not_mem_empty call)
  ready _ call hc := absurd hc (not_mem_empty call)
  method call hc := absurd hc (not_mem_empty call)
  starting _ := by rcases hfi with rfl | rfl <;> exact ⟨nofun, nofun⟩
  alone := hle.trans h.alone

end

end Phased

theorem Swap.handshakes (hsw : Swap c before after) (rest : List Frame) :
    (after ++ rest).countP isHandshake ≤ (before ++ rest).countP isHandshake := by
  cases hsw <;> simp [countP_cons, isHandshake]

theorem Small.phased (hsm : Small c c') (hbo : Bottom c.stack)
    (h : Phased c.phase c.pending c.stack) : Phased c'.phase c'.pending c'.stack := by
  cases hsm with
  | shift hto _ hsw => exact h.onStack (hto ▸ hsw.handshakes _)
  | refuse | stale | skip => exact h
  | issue _ _ taken _ hre hnu hc =>
    have hpu : Phased c.phase c.pending (.entering c.nextId taken :: c.stack) :=
      h.onStack (by simp [isHandshake, hnu])
    exact hpu.insert hre hnu hc
  | greet deadline _ _ hfr =>
    have hn : c.stack.countP isHandshake = 0 := by
      by_contra hso
      exact (h.starting (Nat.pos_of_ne_zero hso)).1 hfr
    have ho : ∀ call ∈ c.pending.insert { id := 0, method := .handshake, deadline },
        call = { id := 0, method := .handshake, deadline } := by
      intro call hc
      exact (mem_of_mem_insert hc).resolve_right (h.idle (by simp [hfr]) (by simp [hfr]) call)
    refine ⟨fun hg => absurd rfl hg, ?_, by rintro ⟨⟩, ?_, fun _ => ⟨by rintro ⟨⟩, by rintro ⟨⟩⟩, ?_⟩
    · intro _ call hc
      rw [ho call hc]
    · intro call hc
      rw [ho call hc]
      exact ⟨fun _ => rfl, fun _ => rfl⟩
    · show countP isHandshake (_ :: c.stack) ≤ 1
      rw [countP_cons, hn]
      split <;> omega
  | overflow hto | short hto | acceptLate hto =>
    exact h.onStack (by simp [hto, countP_cons, isHandshake])
  | hand hto => exact h.onStack (by simp [emit, hto, countP_cons, isHandshake])
  | @accept id wire _ hto =>
    refine (h.onStack ?_).modify id (.bind wire) (fun _ => rfl) fun _ => rfl
    simp [rearmDeadline, hto, countP_cons, isHandshake]
  | @reset _ rest hto =>
    have hon := h.alone
    rw [hto, countP_cons_of_pos rfl] at hon
    refine ⟨fun _ _ call => not_mem_empty call, by rintro ⟨⟩, by rintro ⟨⟩,
      fun call hc => absurd hc (not_mem_empty call), ?_, ?_⟩
    · intro hp
      change 0 < rest.countP isHandshake at hp
      omega
    · show rest.countP isHandshake ≤ 1
      omega
  | greeted hto | forget hto | closed hto => exact h.onStack (by simp [hto, countP_cons])
  | abandon hto => exact (h.delete _).onStack (by simp [rearmDeadline, emit, hto, countP_cons])
  | start hto => exact h.onStack (by simp [emit, hto, countP_cons])
  | terminate | collect => exact h.onStack (by simp [isHandshake])
  | terminated hto => exact h.end (.inr rfl) (by simp [hto, countP_cons])
  | @record wire answer _ hto =>
    refine (h.onStack ?_).modify wire.localId (.answered answer) (fun _ => rfl) fun _ => rfl
    simp [rearmDeadline, hto, countP_cons]
  | cancel => exact (h.delete _).onStack (by simp [rearmDeadline, tell, push, emit, isHandshake])
  | close _ _ _ loud =>
    refine h.end (.inl rfl) ?_
    cases loud <;> simp [isHandshake]
  | failing | notice | settleTask => exact h.onStack (by simp [tell, push, emit, isHandshake])
  | greetFailed => exact h.end (.inr rfl) (by simp [tell, push, emit, isHandshake])
  | @greetDone call _ _ _ hto _ _ hpe hh =>
    have hn := (hto ▸ hbo).alone rfl
    have hz : call.id = 0 := (h.method call hpe).2 hh
    refine ⟨fun _ hr => absurd rfl hr, by rintro ⟨⟩, ?_, ?_, ?_, ?_⟩
    · intro _ other hot
      have := (mem_delete.1 hot).2
      simpa [hz] using this
    · intro other hot
      exact h.method other (mem_delete.1 hot).1
    · intro hp
      simp [rearmDeadline, tell, push, emit, hto, hn, isHandshake] at hp
    · simp [rearmDeadline, tell, push, emit, hto, hn, isHandshake]
  | deliver =>
    exact (h.delete _).onStack (by simp [rearmDeadline, tell, push, emit, isHandshake])
  | retire hto | closeOne hto | expireOne hto =>
    exact h.onStack (by simp [tell, push, emit, hto, isHandshake])
  | expire => exact (h.delete _).onStack (by simp [rearmDeadline, isHandshake])

/-! ## The tickets -/

/-- The identifiers that were issued are behind the next one. -/
def Numbered (c : ControlClient options) : Prop :=
  c.nextId = 0 ∨ ∀ id ∈ issuedIds c.log, id < c.nextId

theorem Small.numbered (hsm : Small c c') (h : Numbered c) : Numbered c' := by
  have hq : ∀ event : Event options.Reply, event.issuedId = none →
      c'.nextId = c.nextId → c'.log = c.log ++ [event] → Numbered c' := by
    intro _ he hn hl
    unfold Numbered
    rw [hn, hl, issuedIds_append, he, Option.toList_none, append_nil]
    exact h
  cases hsm with
  | refuse | hand | abandon | start | record | cancel | failing | notice | settleTask
  | greetFailed | greetDone | deliver | retire | closeOne | expireOne => exact hq _ rfl rfl rfl
  | issue method _ _ _ _ hnu =>
    by_cases hla : c.nextId = maximumId
    · exact .inl (if_pos hla)
    refine .inr ?_
    show ∀ id ∈ issuedIds (c.log ++ [.issued c.nextId method]), id < if c.nextId = maximumId then 0 else c.nextId + 1
    rw [if_neg hla, issuedIds_append]
    intro id hi
    rcases mem_append.1 hi with hi | hi
    · have := h.resolve_left hnu id hi
      omega
    · obtain rfl := mem_singleton.1 hi
      omega
  | close _ _ _ loud =>
    cases loud with
    | false =>
      show Numbered { c with log := c.log ++ [] }
      rw [append_nil]
      exact h
    | true => exact hq _ rfl rfl rfl
  | _ => exact h

/-- What is failed from the stack has been returned. -/
def Prompt (c : ControlClient options) : Prop :=
  ∀ frame ∈ c.stack, ∀ id ∈ frame.prompt, id ∈ startedIds c.log

/-- Calls are retired only at the end, and for the last generation. -/
structure Retired (c : ControlClient options) : Prop where
  tasks : ∀ task ∈ c.tasks, task.isEnd = true → task.generation = c.generation ∧ c.isOver = true
  stack : ∀ frame ∈ c.stack, frame.isEnd = true → c.isOver = true

theorem mem_startedIds_of_isStarted (h : c.isStarted id = true) : id ∈ startedIds c.log := by
  obtain ⟨event, he, hi⟩ := any_eq_true.1 h
  cases event with
  | started other =>
    obtain rfl : other = id := by simpa using hi
    exact mem_filterMap.2 ⟨_, he, rfl⟩
  | _ => cases hi

/-- While the client is not over, what is owed has been returned. -/
theorem Retired.owed_started (h : Retired c) (hp : Prompt c) (hg : c.isOver = false) :
    ∀ n ∈ owedIds c.stack c.tasks, n ∈ startedIds c.log := by
  intro n hn
  rcases mem_append.1 hn with hn | hn
  · obtain ⟨frame, hfr, hn⟩ := mem_flatMap.1 hn
    rcases mem_append.1 hn with hn | hn
    · have he : frame.isEnd = true := by
        cases frame with
        | retiring | closing => rfl
        | _ => cases hn
      have ho := h.stack frame hfr he
      rw [hg] at ho
      cases ho
    refine hp frame hfr n ?_
    cases frame with
    | expiring => exact hn
    | _ => cases hn
  · obtain ⟨task, hta, hn⟩ := mem_flatMap.1 hn
    have he : task.isEnd = true := by
      cases task with
      | deliver => cases hn
      | _ => rfl
    have ho := (h.tasks task hta he).2
    rw [hg] at ho
    cases ho

theorem kept_same (h : (tickets c).Kept) (he : tickets c' = tickets c) : (tickets c').Kept := he ▸ h

/-- The pending calls that `close` sorts out. -/
theorem waitingIds_close (c : ControlClient options) : (waitingIds c.pending).Perm
      ((c.pending.select fun call => call.id ≠ 0 && !c.isEstablishing call).map Call.id ++
        ((c.pending.rows.find? c.isEstablishing).map fun call : Call =>
          { call with possiblySent := true }).toList.map Call.id) := by
  have ho : c.pending.select c.isEstablishing = (c.pending.rows.find? c.isEstablishing).toList := by
    have hle : (c.pending.select c.isEstablishing).length ≤ 1 := by
      refine select_length_le_one ?_
      intro a ha b hb hpa hpb
      refine eq_of_key ha hb ?_
      simp only [isEstablishing, Bool.and_eq_true, decide_eq_true_eq] at hpa hpb
      exact Option.some.inj (hpa.2.symm.trans hpb.2)
    have hh : (c.pending.select c.isEstablishing).head? = c.pending.rows.find? c.isEstablishing :=
      head?_filter
    rw [← hh]
    match hli : c.pending.select c.isEstablishing with
    | [] => rfl
    | [call] => rfl
    | a :: b :: more =>
      rw [hli] at hle
      simp at hle
  have hi : ((c.pending.rows.find? c.isEstablishing).map fun call : Call =>
      { call with possiblySent := true }).toList.map Call.id = (c.pending.select c.isEstablishing).map Call.id := by
    rw [ho]
    cases c.pending.rows.find? c.isEstablishing <;> rfl
  rw [hi, waitingIds_eq, ← map_append]
  refine List.Perm.map Call.id ?_
  have hp := filter_append_perm (fun call => !c.isEstablishing call)
    (c.pending.select fun call => call.id ≠ 0)
  have hl : ((c.pending.select fun call => call.id ≠ 0).filter fun call => !c.isEstablishing call) =
      c.pending.select fun call => call.id ≠ 0 && !c.isEstablishing call := by
    simp [Table.select, filter_filter, Bool.and_comm]
  have hr : ((c.pending.select fun call => call.id ≠ 0).filter fun call => !!c.isEstablishing call) =
      c.pending.select c.isEstablishing := by
    unfold Table.select
    rw [filter_filter]
    refine filter_congr ?_
    intro _ _
    simp [isEstablishing]
    tauto
  rw [hl, hr] at hp
  exact hp.symm

/-- A start under way has its call pending. -/
theorem waits_of_opened (h : (tickets c).Kept) (hd : ∀ n ∈ owedIds c.stack c.tasks, n ∈ startedIds c.log)
    (ho : id ∈ openedIds c.stack) : id ∈ waitingIds c.pending := by
  have hp := h.placed id
  have han := h.answered id
  have hi := h.issued_le id
  have hpo := count_pos_iff.2 ho
  have hst : id ∉ startedIds c.log := fun hm => h.not_opened_of_started hm ho
  have how := count_eq_zero_of_not_mem fun hm => hst (hd id hm)
  have hse := count_eq_zero_of_not_mem fun hm => hst (h.inOrder id hm)
  simp only [tickets] at hp han hi hse
  exact count_pos_iff.1 (by omega)

theorem kept_owed (h : (tickets c).Kept) {owed : List Nat}
    (how : (owedIds c.stack c.tasks).Perm (id :: owed)) (ho : id ∉ openedIds c.stack) :
    Tickets.Kept { tickets c with owed, settled := settledIds c.log ++ [id] } := by
  have hh : (waitingIds c.pending ++ owedIds c.stack c.tasks).Perm
      (id :: (waitingIds c.pending ++ owed)) :=
    (how.append_left (waitingIds c.pending)).trans perm_middle
  exact h.settle hh ho

theorem Small.kept (hsm : Small c c') (hbo : Bottom c.stack)
    (hph : Phased c.phase c.pending c.stack) (hnum : Numbered c) (hpr : Prompt c)
    (hret : Retired c) (h : (tickets c).Kept) : (tickets c').Kept := by
  -- A call that waits or is owed is settled at the bottom of the stack, where no start is under way.
  have hno : ∀ {frame : Frame} {rest : List Frame}, c.stack = frame :: rest → frame.isLoop = true →
      frame.opened = none → openedIds c.stack = [] := by
    intro frame rest hto hl hop
    have hbo : Bottom (frame :: rest) := hto ▸ hbo
    rw [hto, hbo.alone hl, openedIds_cons, hop]
    rfl
  have hi : c.phase ≠ .ready → waitingIds c.pending = [] := by
    intro hp
    refine waitingIds_eq_nil ?_
    intro call hc
    by_cases hgr : c.phase = .initializing
    · exact hph.greeting hgr call hc
    · exact absurd hc (hph.idle hgr hp call)
  have hgre : ∀ {call : Call}, call ∈ c.pending → call.id = 0 ∨ call.method = .handshake → c.phase ≠ .ready := by
    intro call hc hhe hre
    have hz : call.id = 0 := hhe.elim id (hph.method call hc).2
    exact hph.ready hre call hc hz
  cases hsm with
  | shift hto _ hsw =>
    refine kept_same h ?_
    simp [tickets, hto, hsw.opened, hsw.owed]
  | refuse => exact kept_same h (by simp [tickets, emit])
  | issue method deadline _ _ _ hnu =>
    have hn : c.nextId ∉ issuedIds c.log := by
      intro hm
      exact Nat.lt_irrefl _ (hnum.resolve_left hnu _ hm)
    have hfre : c.pending.find? c.nextId = none := by
      rw [Table.find?_eq_none]
      intro call hc heq
      refine hn (count_pos_iff.1 ?_)
      have hw : c.nextId ∈ waitingIds c.pending := mem_waitingIds.2 ⟨hnu, call, hc, heq⟩
      have hpl := h.placed c.nextId
      have := count_pos_iff.2 hw
      simp only [tickets] at hpl
      omega
    have hw := @waitingIds_insert ⟨c.nextId, method, deadline, none, none, false⟩ c.pending
      hnu hfre
    have his := h.issue hn hw
    simpa [tickets, push, emit, hnu] using his
  | greet deadline _ _ hfr =>
    have hafter : waitingIds (c.pending.insert { id := 0, method := .handshake, deadline }) = [] := by
      refine waitingIds_eq_nil ?_
      intro call hc
      rcases mem_of_mem_insert hc with rfl | hc
      · rfl
      · exact absurd hc (hph.idle (by simp [hfr]) (by simp [hfr]) call)
    exact kept_same h (by simp [tickets, push, hafter, hi (by simp [hfr])])
  | overflow hto | short hto | acceptLate hto | greeted hto | forget hto =>
    exact kept_same h (by simp [tickets, hto])
  | hand hto => exact kept_same h (by simp [tickets, emit, hto])
  | accept hto => exact kept_same h (by simp [tickets, rearmDeadline, hto])
  | reset hto =>
    have hp := hph.starting (by rw [hto, countP_cons_of_pos rfl]; omega)
    exact kept_same h (by simp [tickets, hto, hi hp.2])
  | @abandon id error rest hto hc hg =>
    have hop : openedIds c.stack = id :: openedIds rest := by simp [hto, hc]
    have hw : id ∈ waitingIds c.pending :=
      waits_of_opened h (hret.owed_started hpr hg) (by rw [hop]; exact mem_cons_self)
    obtain ⟨-, call, hpe, rfl⟩ := mem_waitingIds.1 hw
    have hab := h.abandon (.of_eq hop) (waitingIds_delete hc hpe)
    simpa [tickets, rearmDeadline, emit, hto] using hab
  | @start id result rest hto hc _ =>
    have hop : openedIds c.stack = id :: openedIds rest := by simp [hto, hc]
    have hsta := h.start (.of_eq hop)
    simpa [tickets, emit, hto] using hsta
  | terminate => exact kept_same h (by simp [tickets])
  | @terminated error rest hto _ =>
    have hh : (waitingIds c.pending ++ owedIds c.stack c.tasks).Perm
        ([] ++ (owedIds c.stack c.tasks ++ waitingIds c.pending)) := perm_append_comm
    have how : owedIds rest (c.tasks ++ [.failed (c.generation + 1) { error with detail := "" }
        ((c.pending.select fun call => call.id ≠ 0).map fun call : Call =>
          { call with possiblySent := call.possiblySent || mayHaveSent error })]) =
        owedIds c.stack c.tasks ++ waitingIds c.pending := by
      simp [hto, waitingIds_eq, Function.comp_def]
    have hmo := h.move hh
    simp only [tickets]
    rw [how]
    simpa [tickets, hto] using hmo
  | record hto =>
    refine kept_same h ?_
    cases c.deliveryScheduled <;> simp [tickets, rearmDeadline, hto]
  | @cancel call _ hst hpe hr =>
    have ho : call.id ∉ openedIds c.stack :=
      h.not_opened_of_started (mem_startedIds_of_isStarted hst)
    have hh := (waitingIds_delete hr hpe).append_right (owedIds c.stack c.tasks)
    have hse := h.settle hh ho
    simpa [tickets, rearmDeadline, tell, push, emit] using hse
  | close _ _ _ loud =>
    have hh := (waitingIds_close c).append_right (owedIds c.stack c.tasks)
    have hmo := h.move (show (waitingIds c.pending ++ owedIds c.stack c.tasks).Perm ([] ++ _) from hh)
    cases loud <;> simpa [tickets] using hmo
  | @closed deferred establishing rest hto =>
    have hh : (waitingIds c.pending ++ owedIds c.stack c.tasks).Perm (waitingIds c.pending ++
        (owedIds rest c.tasks ++ establishing.toList.map Call.id)) := by
      refine List.Perm.append_left _ ?_
      simpa [hto] using perm_append_comm
    have hmo := h.move hh
    cases deferred <;> cases establishing <;> simpa [tickets, hto] using hmo
  | @stale task tasks he hfi hol =>
    have how : task.owed = [] := by
      cases task with
      | deliver => rfl
      | _ => exact absurd (hret.tasks _ (by simp [hfi]) rfl).1 hol
    refine kept_same h ?_
    simp only [tickets, owedIds, hfi, flatMap_cons, how, nil_append]
  | collect he hfi => exact kept_same h (by simp [tickets, he, hfi, owedIds])
  | failing he hfi | notice he hfi =>
    exact kept_same h (by simp [tickets, tell, push, emit, he, hfi, owedIds])
  | @settleTask call tasks he hfi =>
    have how : (owedIds c.stack c.tasks).Perm (call.id :: owedIds c.stack tasks) := by
      simp [he, hfi, owedIds]
    have hse := kept_owed h how (by simp [he])
    simpa [tickets, tell, push, emit] using hse
  | skip => exact h
  | greetFailed _ hpe hhe =>
    exact kept_same h (by simp [tickets, tell, push, emit, hi (hgre hpe hhe)])
  | @greetDone call _ _ _ hto _ _ hpe hhe =>
    have hbe := hi (hgre hpe (.inr hhe))
    have hafter : waitingIds (c.pending.delete fun row => row.id = call.id) = [] := by
      refine waitingIds_eq_nil ?_
      intro other hot
      by_contra hr
      have : other.id ∈ waitingIds c.pending :=
        mem_waitingIds.2 ⟨hr, other, (mem_delete.1 hot).1, rfl⟩
      rw [hbe] at this
      cases this
    exact kept_same h (by simp [tickets, rearmDeadline, tell, push, emit, hbe, hafter])
  | @deliver call answer _ _ hto _ _ hpe _ hr =>
    have hid : call.id ≠ 0 := fun hz => hr ((hph.method call hpe).1 hz)
    have ho : call.id ∉ openedIds c.stack := by
      rw [hno hto rfl rfl]
      exact not_mem_nil
    have hh := (waitingIds_delete hid hpe).append_right (owedIds c.stack c.tasks)
    have hse := h.settle hh ho
    simpa [tickets, rearmDeadline, tell, push, emit] using hse
  | @retire call calls error rest hto =>
    have ho : call.id ∉ openedIds c.stack := by
      rw [hno hto rfl rfl]
      exact not_mem_nil
    have hse := kept_owed h (.of_eq (by simp [hto] :
      owedIds c.stack c.tasks = call.id :: (calls.map Call.id ++ owedIds rest c.tasks))) ho
    simpa [tickets, tell, push, emit, hto] using hse
  | @closeOne call calls deferred establishing rest hto =>
    have hst : call.id ∈ startedIds c.log :=
      hpr _ (by rw [hto]; exact mem_cons_self) call.id mem_cons_self
    have ho : call.id ∉ openedIds c.stack := h.not_opened_of_started hst
    have hse := kept_owed h (.of_eq (by simp [hto] : owedIds c.stack c.tasks =
      call.id :: (calls.map Call.id ++ establishing.toList.map Call.id ++ owedIds rest c.tasks))) ho
    simpa [tickets, tell, push, emit, hto] using hse
  | @expireOne id outcomeUnknown expired rest hto =>
    have ho : id ∉ openedIds c.stack := by
      rw [hno hto rfl rfl]
      exact not_mem_nil
    have hse := kept_owed h (.of_eq (by simp [hto] :
      owedIds c.stack c.tasks = id :: (expired.map Prod.fst ++ owedIds rest c.tasks))) ho
    simpa [tickets, tell, push, emit, hto] using hse
  | expire now he _ _ hca =>
    have hh : (waitingIds c.pending ++ owedIds c.stack c.tasks).Perm
        (waitingIds (c.pending.delete (isExpired now)) ++
          ((c.pending.select (isExpired now)).map Call.id ++ owedIds c.stack c.tasks)) := by
      rw [← append_assoc]
      exact ((waitingIds_expire c.pending hca).trans perm_append_comm).append_right _
    have hmo := h.move hh
    simpa [tickets, rearmDeadline, he, Function.comp_def] using hmo

/-! ## What is failed from the stack -/

theorem Small.over (hsm : Small c c') (ho : c.isOver = true) : c'.isOver = true := by
  have hn : c.phase ≠ .uninitialized ∧ c.phase ≠ .ready ∧ c.phase ≠ .initializing := by
    simp only [isOver, Bool.or_eq_true, decide_eq_true_eq] at ho
    rcases ho with hp | hp <;> simp [hp]
  cases hsm with
  | greet _ _ _ hfr => exact absurd hfr hn.1
  | reset _ hg => simp [ho] at hg
  | terminated | close | greetFailed => rfl
  | greetDone _ hl =>
    simp [isLive, hn.2.1, hn.2.2] at hl
  | _ => exact ho

theorem mem_stack_of_top {top : Frame} (hto : c.stack = top :: rest) : ∀ frame ∈ rest, frame ∈ c.stack :=
  fun _ hfr => hto ▸ mem_cons_of_mem _ hfr

/-- Frames of one kind are put on a part of the stack. -/
theorem stack_or_after {P : Frame → Prop} (hst : c'.stack = after ++ rest)
    (hr : ∀ frame ∈ rest, frame ∈ c.stack) (hafter : ∀ frame ∈ after, P frame) :
    ∀ frame ∈ c'.stack, frame ∈ c.stack ∨ P frame := by
  intro frame hfr
  rw [hst] at hfr
  exact (mem_append.1 hfr).elim (fun hn => .inr (hafter frame hn)) fun ho => .inl (hr frame ho)

theorem Prompt.grow (h : Prompt c) (hst : ∀ frame ∈ c'.stack, frame ∈ c.stack ∨ frame.prompt = [])
    (hl : ∃ events, c'.log = c.log ++ events) : Prompt c' := by
  obtain ⟨_, hl⟩ := hl
  intro frame hfr id hi
  rcases hst frame hfr with ho | hn
  · rw [hl, startedIds, filterMap_append]
    exact mem_append_left _ (h frame ho id hi)
  · rw [hn] at hi
    cases hi

theorem Small.log_grows (hsm : Small c c') : ∃ events, c'.log = c.log ++ events := by
  cases hsm <;> first | exact ⟨_, rfl⟩ | exact ⟨[], (append_nil _).symm⟩

theorem Swap.prompt (hsw : Swap c before after)
    (hfr : frame ∈ after ++ rest) : frame ∈ before ++ rest ∨ frame.prompt = [] := by
  cases hsw <;> simp_all <;> grind [prompt]

/-- Frames that fail nothing take the place of the top one. -/
theorem Prompt.top (h : Prompt c) (after : List Frame) {top : Frame} (hto : c.stack = top :: rest)
    (hst : c'.stack = after ++ rest) (hn : ∀ frame ∈ after, frame.prompt = [])
    (hl : ∃ events, c'.log = c.log ++ events) : Prompt c' := by
  exact h.grow (stack_or_after hst (mem_stack_of_top hto) hn) hl

theorem Prompt.pushed (h : Prompt c) (after : List Frame) (hst : c'.stack = after ++ c.stack)
    (hn : ∀ frame ∈ after, frame.prompt = []) (hl : ∃ events, c'.log = c.log ++ events) :
    Prompt c' := by
  exact h.grow (stack_or_after hst (fun _ hfr => hfr) hn) hl

/-- The top frame fails the first of its calls. -/
theorem Prompt.next (h : Prompt c) {top next : Frame} (hto : c.stack = top :: rest)
    (hst : c'.stack = .telling :: next :: rest) (hfe : ∀ id ∈ next.prompt, id ∈ top.prompt)
    (hl : ∃ events, c'.log = c.log ++ events) : Prompt c' := by
  obtain ⟨_, hl⟩ := hl
  intro frame hfr id hi
  rw [hl, startedIds, filterMap_append]
  refine mem_append_left _ ?_
  rw [hst] at hfr
  rcases mem_cons.1 hfr with rfl | hfr
  · cases hi
  rcases mem_cons.1 hfr with rfl | hfr
  · exact h top (hto ▸ mem_cons_self) id (hfe id hi)
  · exact h frame (hto ▸ mem_cons_of_mem _ hfr) id hi

theorem Small.prompt (hsm : Small c c') (hk : (tickets c).Kept) (h : Prompt c) : Prompt c' := by
  have hl := hsm.log_grows
  have hw : ∀ {call : Call}, call ∈ c.pending → call.id ≠ 0 → call.id ∉ openedIds c.stack →
      call.id ∈ startedIds c.log := by
    intro call hc hr ho
    exact hk.started_of_held (.inl (mem_waitingIds.2 ⟨hr, call, hc, rfl⟩)) ho
  cases hsm with
  | shift hto _ hsw => exact h.grow (fun frame hfr => hto ▸ hsw.prompt hfr) hl
  | refuse | stale | skip => exact h.pushed [] rfl (by simp) hl
  | issue | greet | terminate | cancel | notice | settleTask | greetFailed | greetDone | deliver =>
    exact h.pushed [_] rfl (by simp) hl
  | overflow hto | short hto => exact h.top [_, _] hto rfl (by simp) hl
  | hand hto | accept hto | acceptLate hto => exact h.top [_] hto rfl (by simp) hl
  | reset hto | greeted hto | abandon hto | start hto | terminated hto | record hto | forget hto
  | closed hto => exact h.top [] hto rfl (by simp) hl
  | close _ _ hcar loud =>
    obtain ⟨_, hl⟩ := hl
    intro frame hfr id hi
    rw [hl, startedIds, filterMap_append]
    refine mem_append_left _ ?_
    rcases mem_append.1 hfr with hfr | hfr
    · have hte : frame = .telling := by
        cases loud with
        | false => cases hfr
        | true => exact mem_singleton.1 hfr
      rw [hte] at hi
      cases hi
    rcases mem_cons.1 hfr with rfl | hfr
    · obtain ⟨call, hc, rfl⟩ := mem_map.1 hi
      obtain ⟨hpe, hki⟩ := mem_select.1 hc
      obtain ⟨hr, hot⟩ : call.id ≠ 0 ∧ c.isEstablishing call = false := by simpa using hki
      refine hw hpe hr ?_
      intro hop
      simp [isEstablishing, hr, (hcar call.id hop).1] at hot
    · exact h frame hfr id hi
  | collect he => exact h.pushed [_] (by simp [he]; rfl) (by simp) hl
  | failing he => exact h.pushed [_, _] (by simp [tell, push, emit, he]; exact ⟨rfl, rfl⟩) (by simp) hl
  | retire hto => exact h.next hto rfl (by simp) hl
  | closeOne hto | expireOne hto => exact h.next hto rfl (by simp; tauto) hl
  | expire _ he _ _ hca =>
    intro _ hfr _ hi
    obtain rfl := mem_singleton.1 hfr
    obtain ⟨_, hp, rfl⟩ := mem_map.1 hi
    obtain ⟨call, hc, rfl⟩ := mem_map.1 hp
    obtain ⟨hpe, hex⟩ := mem_select.1 hc
    exact hw hpe (hca call hpe hex) (by simp [he])

theorem Swap.ends (hsw : Swap c before after)
    (hfr : frame ∈ after ++ rest) : frame ∈ before ++ rest ∨ frame.isEnd = false := by
  cases hsw <;> simp_all <;> grind [isEnd]

theorem Retired.keep (h : Retired c) (hg : c'.generation = c.generation)
    (ho : c.isOver = true → c'.isOver = true) (htas : ∀ task ∈ c'.tasks, task ∈ c.tasks ∨ task.isEnd = false)
    (hst : ∀ frame ∈ c'.stack, frame ∈ c.stack ∨ frame.isEnd = false) : Retired c' where
  tasks task hta hen := by
    obtain ⟨hol, he⟩ := h.tasks task ((htas task hta).resolve_right (ne_of_eq_of_ne hen nofun)) hen
    exact ⟨hol.trans hg.symm, ho he⟩
  stack frame hfr hen :=
    ho (h.stack frame ((hst frame hfr).resolve_right (ne_of_eq_of_ne hen nofun)) hen)

theorem Retired.top (h : Retired c) (after : List Frame) {top : Frame}
    (hg : c'.generation = c.generation) (ho : c.isOver = true → c'.isOver = true)
    (hta : ∀ task ∈ c'.tasks, task ∈ c.tasks ∨ task.isEnd = false) (hto : c.stack = top :: rest)
    (hst : c'.stack = after ++ rest) (hn : ∀ frame ∈ after, frame.isEnd = false) : Retired c' := by
  exact h.keep hg ho hta (stack_or_after hst (mem_stack_of_top hto) hn)

theorem Retired.pushed (h : Retired c) (after : List Frame) (hg : c'.generation = c.generation)
    (ho : c.isOver = true → c'.isOver = true) (hta : ∀ task ∈ c'.tasks, task ∈ c.tasks ∨ task.isEnd = false)
    (hst : c'.stack = after ++ c.stack) (hn : ∀ frame ∈ after, frame.isEnd = false) :
    Retired c' := by
  exact h.keep hg ho hta (stack_or_after hst (fun _ hfr => hfr) hn)

/-- Once the client is over, calls of its last generation may be retired. -/
theorem Retired.of_over (h : Retired c) (hg : c'.generation = c.generation) (ho : c'.isOver = true)
    (htas : ∀ task ∈ c'.tasks, task ∈ c.tasks ∨ task.generation = c.generation) : Retired c' where
  tasks task hta he := by
    rcases htas task hta with hol | hn
    · exact ⟨(h.tasks task hol he).1.trans hg.symm, ho⟩
    · exact ⟨hn.trans hg.symm, ho⟩
  stack _ _ _ := ho

theorem Small.retired (hsm : Small c c') (h : Retired c) : Retired c' := by
  have ho := hsm.over
  have hsa : ∀ task ∈ c.tasks, task ∈ c.tasks ∨ task.isEnd = false := fun _ hta => .inl hta
  have htai : ∀ {task : Task} {tasks : List Task}, c.tasks = task :: tasks →
      ∀ other ∈ tasks, other ∈ c.tasks ∨ other.isEnd = false := by
    intro task _ hfi _ hot
    exact .inl (hfi ▸ mem_cons_of_mem _ hot)
  -- Before the end no task ends anything.
  have hn : c.isOver = false → ∀ task ∈ c.tasks, task.isEnd ≠ true := by
    intro hg task hta hen
    simp [(h.tasks task hta hen).2] at hg
  cases hsm with
  | shift hto _ hsw =>
    exact h.keep rfl ho hsa fun frame hfr => hto ▸ hsw.ends hfr
  | refuse | skip => exact ⟨h.tasks, h.stack⟩
  | issue | greet | terminate | cancel | greetFailed | greetDone | deliver =>
    exact h.pushed [_] rfl ho hsa rfl (by simp)
  | overflow hto | short hto | expireOne hto => exact h.top [_, _] rfl ho hsa hto rfl (by simp)
  | hand hto | accept hto | acceptLate hto => exact h.top [_] rfl ho hsa hto rfl (by simp)
  | reset hto | greeted hto | abandon hto | start hto | forget hto =>
    exact h.top [] rfl ho hsa hto rfl (by simp)
  | terminated _ hg =>
    refine ⟨?_, fun _ _ _ => rfl⟩
    intro task hta hen
    rcases mem_append.1 hta with hta | hta
    · exact absurd hen (hn hg task hta)
    · obtain rfl := mem_singleton.1 hta
      exact ⟨rfl, rfl⟩
  | record hto =>
    refine h.top [] rfl ho ?_ hto rfl (by simp)
    intro task hta
    rcases mem_append.1 hta with hta | hta
    · exact .inl hta
    right
    split at hta
    · cases hta
    · rw [mem_singleton.1 hta]
      rfl
  | close _ hg =>
    refine ⟨?_, fun _ _ _ => rfl⟩
    intro task hta hen
    exact absurd hen (hn hg task hta)
  | @closed deferred establishing rest hto =>
    have hend := h.stack _ (hto ▸ mem_cons_self) rfl
    refine h.of_over rfl (ho hend) ?_
    intro task hta
    rcases mem_append.1 hta with hta | hta
    · rcases mem_append.1 hta with hta | hta
      · exact .inl hta
      · right
        split at hta
        · rw [mem_singleton.1 hta]
          rfl
        · cases hta
    cases establishing with
    | none => cases hta
    | some =>
      rw [mem_singleton.1 hta]
      exact .inr rfl
  | stale _ hfi => exact h.pushed [] rfl ho (htai hfi) rfl (by simp)
  | collect he hfi =>
    exact h.pushed [.delivering c.generation] rfl ho (htai hfi) (by simp [he]) (by simp)
  | failing _ hfi =>
    have hend := (h.tasks _ (hfi ▸ mem_cons_self) rfl).2
    exact h.of_over rfl (ho hend) fun task hta => .inl (hfi ▸ mem_cons_of_mem _ hta)
  | notice _ hfi | settleTask _ hfi => exact h.pushed [_] rfl ho (htai hfi) rfl (by simp)
  | retire hto | closeOne hto =>
    have hend := h.stack _ (hto ▸ mem_cons_self) rfl
    exact h.of_over rfl (ho hend) fun _ hta => .inl hta
  | expire =>
    refine h.keep rfl ho hsa ?_
    intro _ hfr
    rw [mem_singleton.1 hfr]
    exact .inr rfl

end ControlClient

end Jobu
