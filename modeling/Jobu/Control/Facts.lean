import Jobu.Control.Waiting

/-!
# What the control client knows of its calls

A call that is pending or has yet to end agrees with the log: with the method it was issued for, with
the response that was received, and with whether its frame was given to the device (`Facts`).  So does
the settlement with which it ends (`Right`).
-/

namespace Jobu

open Lib Control List Table Option Event

namespace ControlClient

variable {options : Options} {c c' : ControlClient options}

/-- A settlement agrees with the log: a response that was received is what settles the call, unless the
caller cancelled it, and a failure of this side leaves the outcome open exactly when a mutation was
given to the device and the peer did not answer with an error. -/
def Right (log : List (Event options.Reply)) (id : Nat) (settlement : Settlement options.Reply) : Prop :=
  ∃ method, .issued id method ∈ log ∧
    (∀ answer, .received id answer ∈ log → settlement = settlementOf options method answer ∨
      ∃ outcomeUnknown, settlement = .unobserved cancelledError outcomeUnknown) ∧
    ((∃ answer, .received id answer ∈ log) ∨ ∃ error outcomeUnknown, settlement = .unobserved error outcomeUnknown) ∧
    ∀ error outcomeUnknown, settlement = .unobserved error outcomeUnknown → (outcomeUnknown = true ↔
      method.isMutation = true ∧ .handed id ∈ log ∧ ∀ error, .received id (.error error) ∉ log)

/-- The call agrees with the log. -/
structure Traced (log : List (Event options.Reply)) (call : Call) : Prop where
  issued : .issued call.id call.method ∈ log
  method : call.method ≠ .handshake
  received : ∀ answer, .received call.id answer ∈ log ↔ call.outcome = some answer

/-- A call that is not pending any more. -/
structure Done (log : List (Event options.Reply)) (call : Call) : Prop extends Traced log call where
  sent : call.possiblySent = true ↔ .handed call.id ∈ log
  answered : call.outcome ≠ none → .handed call.id ∈ log

/-- The calls that this code ends, and the failures that it tells, agree with the log. -/
structure Backed (log : List (Event options.Reply)) (frame : Frame) : Prop where
  calls : ∀ call ∈ frame.calls, Done log call
  expired : ∀ pair ∈ frame.expired, Right log pair.1 (.unobserved timeoutError pair.2)

structure Facts (c : ControlClient options) : Prop where
  pending : ∀ call ∈ c.pending, call.id ≠ 0 → Traced c.log call
  sent : ∀ call ∈ c.pending, call.id ≠ 0 → call.possiblySent = true → .handed call.id ∈ c.log
  stack : ∀ frame ∈ c.stack, Backed c.log frame
  tasks : ∀ task ∈ c.tasks, ∀ call ∈ task.calls, Done c.log call
  settled : ∀ id settlement, .settled id settlement ∈ c.log → Right c.log id settlement
  handed : ∀ id, .handed id ∈ c.log → id = 0 ∨ id ∈ issuedIds c.log
  received : ∀ id answer, .received id answer ∈ c.log → id = 0 ∨ id ∈ issuedIds c.log
  real : 0 ∉ issuedIds c.log

/-! ## Settlements that agree -/

variable {log : List (Event options.Reply)} {call : Call}

theorem Done.right (h : Done log call) (error : Error) : Right log call.id (endOf options call error) := by
  refine ⟨call.method, h.issued, ?_, ?_, ?_⟩
  · intro answer han
    rw [endOf, (h.received answer).1 han]
    exact .inl rfl
  · cases ho : call.outcome with
    | some answer => exact .inl ⟨answer, (h.received answer).2 ho⟩
    | none => exact .inr ⟨error, _, by rw [endOf, ho]⟩
  intro _ _ he
  cases ho : call.outcome with
  | none =>
    rw [endOf, ho] at he
    obtain ⟨-, rfl⟩ := Settlement.unobserved.inj he
    have hn : ∀ error, .received call.id (.error error) ∉ log := by
      intro error hr
      have := (h.received _).1 hr
      rw [ho] at this
      cases this
    rw [Bool.and_eq_true, h.sent]
    exact ⟨fun ⟨hm, hh⟩ => ⟨hm, hh, hn⟩, fun ⟨hm, hh, _⟩ => ⟨hm, hh⟩⟩
  | some answer =>
    rw [endOf, ho] at he
    cases answer with
    | error => cases he
    | result =>
      simp only [settlementOf] at he
      split at he
      · cases he
      obtain ⟨-, rfl⟩ := Settlement.unobserved.inj he
      have hn : ∀ error, .received call.id (.error error) ∉ log := by
        intro _ hr
        have := (h.received _).1 hr
        rw [ho] at this
        cases this
      have hh := h.answered (by simp [ho])
      exact ⟨fun hm => ⟨hm, hh, hn⟩, fun hal => hal.1⟩

theorem Done.right_cancelled {log : List (Event options.Reply)} {call : Call} (h : Done log call) :
    Right log call.id (.unobserved cancelledError (cancelUnknown call)) := by
  refine ⟨call.method, h.issued, fun _ _ => .inr ⟨_, rfl⟩, .inr ⟨_, _, rfl⟩, ?_⟩
  intro error _ hsa
  obtain ⟨-, rfl⟩ := Settlement.unobserved.inj hsa
  have he : (∀ error, .received call.id (.error error) ∉ log) ↔
    ∀ error, call.outcome ≠ some (.error error) :=
    forall_congr' fun error => not_congr (h.received _)
  rw [he, ← h.sent]
  unfold cancelUnknown
  cases ho : call.outcome with
  | none => simp
  | some answer => cases answer <;> simp

/-! ## A log that grows -/

/-- An event that says nothing about what was sent or received. -/
def Quiet (events : List (Event options.Reply)) : Prop :=
  ∀ event ∈ events, (∀ id, event ≠ .handed id) ∧ ∀ id answer, event ≠ .received id answer

/-- The events about what was sent and received of one call. -/
def Untold (id : Nat) (events : List (Event options.Reply)) : Prop :=
  .handed id ∉ events ∧ ∀ answer, .received id answer ∉ events

theorem Quiet.untold {events : List (Event options.Reply)} (h : Quiet events) (id : Nat) : Untold id events :=
  ⟨fun hm => (h _ hm).1 id rfl, fun answer hm => (h _ hm).2 id answer rfl⟩

section Append

variable {log events : List (Event options.Reply)} {id : Nat} {call : Call}

theorem Untold.handed (h : Untold id events) : .handed id ∈ log ++ events ↔ .handed id ∈ log := by simp [h.1]

theorem Untold.received (h : Untold id events) (answer : Answer) :
    .received id answer ∈ log ++ events ↔ .received id answer ∈ log := by
  simp [h.2 answer]

theorem Right.append {settlement : Settlement options.Reply} (h : Right log id settlement)
    (hu : Untold id events) : Right (log ++ events) id settlement := by
  obtain ⟨method, hi, han, hso, hun⟩ := h
  refine ⟨method, mem_append_left _ hi, ?_, ?_, ?_⟩
  · intro answer hr
    exact han answer ((hu.received answer).1 hr)
  · exact hso.imp_left fun ⟨answer, hr⟩ => ⟨answer, mem_append_left _ hr⟩
  · intro error outcomeUnknown hsa
    rw [hun error outcomeUnknown hsa, hu.handed]
    simp only [hu.received]

theorem Traced.append (h : Traced log call) (hn : ∀ answer, .received call.id answer ∉ events) :
    Traced (log ++ events) call where
  issued := mem_append_left _ h.issued
  method := h.method
  received answer := by rw [← h.received answer, mem_append, or_iff_left (hn answer)]

theorem Done.append (h : Done log call) (hu : Untold call.id events) : Done (log ++ events) call where
  toTraced := h.toTraced.append hu.2
  sent := h.sent.trans hu.handed.symm
  answered ho := mem_append_left _ (h.answered ho)

theorem mem_issuedIds_append (h : id ∈ issuedIds log) : id ∈ issuedIds (log ++ events) := by
  rw [issuedIds, filterMap_append]
  exact mem_append_left _ h

variable {frame : Frame}

theorem Backed.append (h : Backed log frame)
    (hu : ∀ id ∈ frame.owed, Untold id events) : Backed (log ++ events) frame where
  calls call hc := (h.calls call hc).append (hu _ (mem_append_left _ (mem_map_of_mem hc)))
  expired pair hp := (h.expired pair hp).append (hu _ (mem_append_right _ (mem_map_of_mem hp)))

/-- Code that ends nothing. -/
theorem backed_plain (ho : frame.owed = []) : Backed log frame := by
  obtain ⟨hca, he⟩ := append_eq_nil_iff.1 ho
  refine ⟨?_, ?_⟩
  · intro _ hc
    rw [map_eq_nil_iff.1 hca] at hc
    cases hc
  · intro _ hp
    rw [map_eq_nil_iff.1 he] at hp
    cases hp

end Append

/-- What says nothing new about the calls that are left. -/
theorem Facts.keep (h : Facts c) (events : List (Event options.Reply)) (hl : c'.log = c.log ++ events)
    (hq : Quiet events) (hi : 0 ∉ issuedIds events)
    (hp : ∀ call ∈ c'.pending, call.id ≠ 0 → call ∈ c.pending) (hst : ∀ frame ∈ c'.stack, Backed c.log frame)
    (htas : ∀ task ∈ c'.tasks, ∀ call ∈ task.calls, Done c.log call)
    (hset : ∀ id settlement, .settled id settlement ∈ events → Right c.log id settlement) :
    Facts c' where
  pending call hc hr := by
    rw [hl]
    exact (h.pending call (hp call hc hr) hr).append (hq.untold _).2
  sent call hc hr hse := by
    rw [hl]
    exact mem_append_left _ (h.sent call (hp call hc hr) hr hse)
  stack frame hfr := by
    rw [hl]
    exact (hst frame hfr).append fun id _ => hq.untold id
  tasks task hta call hc := by
    rw [hl]
    exact (htas task hta call hc).append (hq.untold _)
  settled id settlement hm := by
    rw [hl] at hm ⊢
    rcases mem_append.1 hm with hm | hm
    · exact (h.settled id settlement hm).append (hq.untold _)
    · exact (hset id settlement hm).append (hq.untold _)
  handed id hm := by
    rw [hl] at hm ⊢
    exact (h.handed id ((hq.untold id).handed.1 hm)).imp_right mem_issuedIds_append
  received id answer hm := by
    rw [hl] at hm ⊢
    exact (h.received id answer (((hq.untold id).received answer).1 hm)).imp_right
      mem_issuedIds_append
  real := by
    rw [hl, issuedIds, filterMap_append]
    exact fun hm => (mem_append.1 hm).elim h.real hi

/-- A pending call whose frame was given to the device. -/
theorem Facts.done (h : Facts c) (hc : call ∈ c.pending) (hr : call.id ≠ 0)
    (hse : call.possiblySent = true) : Done c.log call where
  toTraced := h.pending call hc hr
  sent := ⟨h.sent call hc hr, fun _ => hse⟩
  answered _ := h.sent call hc hr hse

/-- Once its start has returned, the frame of a pending call was given to the device. -/
theorem Unmarked.sent (h : Unmarked c) {call : Call} (hc : call ∈ c.pending) (hr : call.id ≠ 0)
    (hre : call.id ∉ openedIds c.stack) : call.possiblySent = true := by
  cases hm : call.possiblySent with
  | true => rfl
  | false => exact absurd (h call hc hr hm).opened hre

/-- The facts about the calls that others hold are not touched by an event about another call. -/
theorem Facts.untouched (h : Facts c) {id : Nat}
    (ho : id ∉ owedIds c.stack c.tasks) (hse : id ∉ settledIds c.log)
    (events : List (Event options.Reply)) (hu : ∀ other, other ≠ id → Untold other events) :
    (∀ frame ∈ c.stack, Backed (c.log ++ events) frame) ∧
      (∀ task ∈ c.tasks, ∀ call ∈ task.calls, Done (c.log ++ events) call) ∧
      ∀ other settlement, .settled other settlement ∈ c.log → Right (c.log ++ events) other settlement := by
  refine ⟨?_, ?_, ?_⟩
  · intro frame hfr
    refine (h.stack frame hfr).append ?_
    intro other hot
    refine hu other ?_
    rintro rfl
    exact ho (mem_append_left _ (mem_flatMap.2 ⟨frame, hfr, hot⟩))
  · intro task hta call hc
    refine (h.tasks task hta call hc).append (hu _ ?_)
    intro hi
    refine ho (mem_append_right _ (mem_flatMap.2 ⟨task, hta, ?_⟩))
    exact hi ▸ mem_map_of_mem hc
  · intro other settlement hm
    refine (h.settled other settlement hm).append (hu _ ?_)
    rintro rfl
    exact hse (mem_filterMap.2 ⟨_, hm, rfl⟩)

/-- An identifier that was never issued is nowhere. -/
theorem not_held_of_new (hk : (tickets c).Kept) {id : Nat} (hn : id ∉ issuedIds c.log) :
    id ∉ owedIds c.stack c.tasks ∧ id ∉ settledIds c.log := by
  have hp := hk.placed id
  have hz : (issuedIds c.log).count id = 0 := count_eq_zero_of_not_mem hn
  refine ⟨?_, ?_⟩
  · intro hm
    have := count_pos_iff.2 hm
    simp only [tickets] at hp
    omega
  · intro hm
    have := count_pos_iff.2 hm
    simp only [tickets] at hp
    omega

variable {rest : List Frame}

theorem Swap.kept_or_plain {before after : List Frame} (hsw : Swap c before after) {frame : Frame}
    (hfr : frame ∈ after ++ rest) : frame ∈ before ++ rest ∨ frame.owed = [] := by
  cases hsw <;> simp_all <;> grind [Frame.calls, Frame.expired]

/-- A pending call that the end of the RPC client takes away. -/
theorem Facts.done_terminated (h : Facts c)
    (hw : Wired c.pending c.wireToLocal c.readyOutcomes (issuedIds c.log)) (hun : Unmarked c)
    {error : Error} (hto : c.stack = .terminating error :: rest) (hc : call ∈ c.pending) (hr : call.id ≠ 0) :
    Done c.log { call with possiblySent := call.possiblySent || mayHaveSent error } := by
  obtain ⟨hi, hme, hre⟩ := h.pending call hc hr
  refine ⟨⟨hi, hme, hre⟩, ?_, ?_⟩
  · show (call.possiblySent || mayHaveSent error) = true ↔ .handed call.id ∈ c.log
    cases hm : call.possiblySent with
    | true => simpa using h.sent call hc hr hm
    | false =>
      have hu := hun call hc hr hm
      have hid : ¬ Busy call.id c.stack := by
        rw [hto]
        exact not_busy_of_other nofun
      rw [Bool.false_or]
      exact (hu.known.resolve_left hid).2 error (hto ▸ mem_cons_self)
  · intro hso
    exact h.sent call hc hr (hw.sent call hc hr hso)

theorem Traced.answer (h : Traced log call) {id : Nat}
    (hi : call.id = id) (hn : call.outcome = none) (answer : Answer) :
    Traced (log ++ [.received id answer]) (call.answered answer) := by
  subst hi
  refine ⟨mem_append_left _ h.issued, h.method, ?_⟩
  intro other
  show .received call.id other ∈ log ++ [.received call.id answer] ↔ some answer = some other
  rw [mem_append, h.received other, hn]
  simp [eq_comm]

theorem Facts.issue (h : Facts c) (hn : Numbered c) (method : Method) (deadline : Int) (taken : Taken)
    (hnu : c.nextId ≠ 0) (hme : method ≠ .handshake) :
    Facts (({ c with
      nextId := if c.nextId = maximumId then 0 else c.nextId + 1,
      pending := c.pending.insert { id := c.nextId, method, deadline },
      establishing := some c.nextId }.emit (.issued c.nextId method)).push (.entering c.nextId taken)) := by
  have hne : c.nextId ∉ issuedIds c.log := fun hm =>
    absurd (hn.resolve_left hnu _ hm) (lt_irrefl _)
  have ho := h.keep [.issued c.nextId method]
    (show ({ c with log := c.log ++ [.issued c.nextId method] } : ControlClient options).log = _ from rfl)
    (by simp [Quiet]) (by simp [issuedIds, Ne.symm hnu]) (fun _ hc _ => hc) h.stack h.tasks (by simp)
  have hst : ∀ frame ∈ .entering c.nextId taken :: c.stack,
    Backed (c.log ++ [.issued c.nextId method]) frame :=
    forall_mem_cons.2 ⟨backed_plain rfl, ho.stack⟩
  refine { ho with pending := ?_, sent := ?_, stack := hst }
  · intro call hc hr
    rcases mem_of_mem_insert hc with rfl | hc
    · refine ⟨by simp [push, emit], hme, ?_⟩
      intro _
      refine ⟨fun hm => ?_, by rintro ⟨⟩⟩
      rcases mem_append.1 hm with hm | hm
      · exact absurd ((h.received _ _ hm).resolve_left hnu) hne
      · simp at hm
    · exact ho.pending call hc hr
  · intro call hc hr hse
    rcases mem_of_mem_insert hc with rfl | hc
    · cases hse
    · exact ho.sent call hc hr hse

theorem Facts.hand (h : Facts c) (hk : (tickets c).Kept) (hp : Prompt c) (hre : Retired c)
    (hw : Writes c.rpcClosed c.isOver c.stack c.log) {id : Nat} {taken : Taken}
    (hto : c.stack = .entering id taken :: rest) :
    Facts ({ c with stack := .writing id :: rest }.emit (.handed id)) := by
  have hh : id ∉ owedIds c.stack c.tasks ∧ id ∉ settledIds c.log := by
    by_cases hid : id = 0
    · subst hid
      exact not_held_of_new hk h.real
    have ho : id ∈ openedIds c.stack := by
      rw [hto]
      exact mem_filterMap.2 ⟨_, mem_cons_self, if_neg hid⟩
    have hg := (hw.fresh id taken (by rw [hto]; rfl)).1
    have hsta : id ∉ startedIds c.log := fun hm => hk.not_opened_of_started hm ho
    exact ⟨fun hm => hsta (hre.owed_started hp hg id hm),
      fun hm => hsta (hk.inOrder id hm)⟩
  have hi : id = 0 ∨ id ∈ issuedIds c.log := by
    by_cases hid : id = 0
    · exact .inl hid
    refine .inr (hk.issued_of_opened ?_)
    show id ∈ openedIds c.stack
    rw [hto]
    exact mem_filterMap.2 ⟨_, mem_cons_self, if_neg hid⟩
  obtain ⟨hst, hta, hset⟩ := h.untouched hh.1 hh.2 [.handed id]
    (fun other hot => ⟨by simpa using hot, by simp⟩)
  refine ⟨?_, ?_, ?_, hta, ?_, ?_, ?_, ?_⟩
  · intro call hc hr
    exact (h.pending call hc hr).append (by simp)
  · intro call hc hr hse
    exact mem_append_left _ (h.sent call hc hr hse)
  · refine forall_mem_cons.2 ⟨backed_plain rfl, ?_⟩
    intro frame hfr
    exact hst frame (mem_stack_of_top hto frame hfr)
  · intro other settlement hm
    rcases mem_append.1 hm with hm | hm
    · exact hset other settlement hm
    · simp at hm
  · intro other hm
    rcases mem_append.1 hm with hm | hm
    · exact (h.handed other hm).imp_right mem_issuedIds_append
    · obtain rfl := handed.inj (mem_singleton.1 hm)
      exact hi.imp_right mem_issuedIds_append
  · intro other answer hm
    rcases mem_append.1 hm with hm | hm
    · exact (h.received other answer hm).imp_right mem_issuedIds_append
    · simp at hm
  · simpa [emit] using h.real

theorem Facts.accept (h : Facts c) (hw : Writes c.rpcClosed c.isOver c.stack c.log) {id wire : Nat}
    (hto : c.stack = .writing id :: rest) :
    Facts ({ c with
      stack := .reading id wire :: rest, nextWire := wire + 1, pending := c.pending.modify id (.bind wire) fun _ => rfl,
      wireToLocal := c.wireToLocal.insert ⟨wire, id⟩ }.rearmDeadline) := by
  have hst : ∀ frame ∈ .reading id wire :: rest, Backed c.log frame :=
    forall_mem_cons.2 ⟨backed_plain rfl, fun frame hfr => h.stack frame (mem_stack_of_top hto frame hfr)⟩
  refine { h with pending := ?_, sent := ?_, stack := hst }
  · intro call hc hr
    rcases (mem_modify (f := Call.bind wire) fun _ => rfl).1 hc with
      ⟨old, ho, -, rfl⟩ | ⟨ho, -⟩
    · obtain ⟨hi, hm, hre⟩ := h.pending old ho hr
      exact ⟨hi, hm, hre⟩
    · exact h.pending call ho hr
  intro call hc hr hse
  rcases (mem_modify (f := Call.bind wire) fun _ => rfl).1 hc with
    ⟨old, ho, hid, rfl⟩ | ⟨ho, -⟩
  · have hid : old.id = id := hid
    show .handed old.id ∈ c.log
    rw [hid]
    exact hw.handed id (hto ▸ mem_cons_self)
  · exact h.sent call ho hr hse

theorem Facts.record (h : Facts c) (hk : (tickets c).Kept)
    (hw : Wired c.pending c.wireToLocal c.readyOutcomes (issuedIds c.log)) {wire : Wire} {answer : Answer}
    (hto : c.stack = .receiving wire.number answer :: rest) (hkn : wire ∈ c.wireToLocal)
    {call : Call} (hc : call ∈ c.pending) (hca : call.id = wire.localId) :
    Facts (ControlClient.rearmDeadline { c with
      stack := rest, wireToLocal := c.wireToLocal.delete fun row => row.number = wire.number,
      pending := c.pending.modify wire.localId (.answered answer) fun _ => rfl,
      readyOutcomes := c.readyOutcomes ++ [wire.localId],
      log := c.log ++ [.received wire.localId answer], deliveryScheduled := true,
      tasks := c.tasks ++ if c.deliveryScheduled then [] else [.deliver c.generation] }) := by
  have hh : wire.localId ∉ owedIds c.stack c.tasks ∧ wire.localId ∉ settledIds c.log := by
    by_cases hi : wire.localId = 0
    · rw [hi]
      exact not_held_of_new hk h.real
    · have hwa : wire.localId ∈ waitingIds c.pending := mem_waitingIds.2 ⟨hi, call, hc, hca⟩
      exact ⟨hk.not_owed_of_waiting hwa, hk.not_settled_of_held (.inl hwa)⟩
  obtain ⟨hst, ht', hset⟩ := h.untouched hh.1 hh.2
    [.received wire.localId answer]
    (fun other hot => ⟨by simp, by simpa using fun he => absurd he hot⟩)
  refine ⟨?_, ?_, ?_, ?_, ?_, ?_, ?_, ?_⟩
  · intro late hl hr
    rcases (mem_modify (f := Call.answered answer) fun _ => rfl).1 hl with
      ⟨old, ho, hi, rfl⟩ | ⟨ho, hot⟩
    · exact (h.pending old ho hr).answer hi (hw.waits wire hkn old ho hi hr).2 answer
    · refine (h.pending late ho hr).append ?_
      intro other hm
      exact hot (received.inj (mem_singleton.1 hm)).1
  · intro late hl hr hse
    rcases (mem_modify (f := Call.answered answer) fun _ => rfl).1 hl with
      ⟨old, ho, -, rfl⟩ | ⟨ho, -⟩
    · exact mem_append_left _ (h.sent old ho hr hse)
    · exact mem_append_left _ (h.sent late ho hr hse)
  · intro frame hfr
    exact hst frame (mem_stack_of_top hto frame hfr)
  · intro task hta late hl
    rcases mem_append.1 hta with hta | hta
    · exact ht' task hta late hl
    split at hta
    · cases hta
    · rw [mem_singleton.1 hta] at hl
      cases hl
  · intro other settlement hm
    rcases mem_append.1 hm with hm | hm
    · exact hset other settlement hm
    · simp at hm
  · intro other hm
    rcases mem_append.1 hm with hm | hm
    · exact (h.handed other hm).imp_right mem_issuedIds_append
    · simp at hm
  · intro other late hm
    rcases mem_append.1 hm with hm | hm
    · exact (h.received other late hm).imp_right mem_issuedIds_append
    · obtain ⟨rfl, -⟩ := received.inj (mem_singleton.1 hm)
      exact (hw.known wire hkn).imp_right mem_issuedIds_append
  · simpa [rearmDeadline] using h.real

/-- What `close` puts on the stack is owed by calls that agree with the log. -/
theorem Facts.closing (h : Facts c) (hu : Unmarked c) (hca : Careful c) (deferred : Bool) :
    Backed c.log (.closing (c.pending.select fun call => call.id ≠ 0 && !c.isEstablishing call) deferred
      ((c.pending.rows.find? c.isEstablishing).map fun call => { call with possiblySent := true })) := by
  refine ⟨?_, fun _ hpa => nomatch hpa⟩
  intro call hc
  rcases mem_append.1 hc with hc | hc
  · obtain ⟨hp, hk⟩ := mem_select.1 hc
    obtain ⟨hr, hot⟩ : call.id ≠ 0 ∧ c.isEstablishing call = false := by simpa using hk
    refine h.done hp hr (hu.sent hp hr ?_)
    intro hop
    simp [isEstablishing, hr, (hca call.id hop).1] at hot
  obtain ⟨old, ho, rfl⟩ := map_eq_some_iff.1 (mem_toList.1 hc)
  have hp : old ∈ c.pending := mem_of_find?_eq_some ho
  have hk := find?_some ho
  have hr : old.id ≠ 0 := by
    intro hz
    simp [isEstablishing, hz] at hk
  have hh : .handed old.id ∈ c.log := by
    cases hm : old.possiblySent with
    | true => exact h.sent old hp hr hm
    | false => exact (hca old.id (hu old hp hr hm).opened).2
  obtain ⟨hi, hme, hre⟩ := h.pending old hp hr
  exact ⟨⟨hi, hme, hre⟩, ⟨fun _ => hh, fun _ => rfl⟩, fun _ => hh⟩

theorem Small.facts (hsm : Small c c') (hk : (tickets c).Kept) (hnum : Numbered c)
    (hpr : Prompt c) (hret : Retired c)
    (hwr : Writes c.rpcClosed c.isOver c.stack c.log) (hu : Unmarked c)
    (hw : Wired c.pending c.wireToLocal c.readyOutcomes (issuedIds c.log))
    (hph : Phased c.phase c.pending c.stack) (h : Facts c) : Facts c' := by
  -- Frames take the place of others, and nothing new is said about what was sent or received.
  have hstep : ∀ (events : List (Event options.Reply)) (after : List Frame) {below : List Frame},
    c'.log = c.log ++ events → Quiet events → 0 ∉ issuedIds events →
    (∀ call ∈ c'.pending, call.id ≠ 0 → call ∈ c.pending) → c'.stack = after ++ below →
    (∀ frame ∈ below, frame ∈ c.stack) → (∀ frame ∈ after, Backed c.log frame) →
    (∀ task ∈ c'.tasks, task ∈ c.tasks ∨ ∀ call ∈ task.calls, Done c.log call) →
    (∀ id settlement, .settled id settlement ∈ events → Right c.log id settlement) → Facts c' := by
    intro events after below hlo hq hi hp hst hbe hafter htas hset
    refine h.keep events hlo hq hi hp ?_ ?_ hset
    · intro frame hfr
      rw [hst] at hfr
      rcases mem_append.1 hfr with hfr | hfr
      · exact hafter frame hfr
      · exact h.stack frame (hbe frame hfr)
    · intro task hta
      rcases htas task hta with ho | hne
      · exact h.tasks task ho
      · exact hne
  have hn : ∀ frame ∈ ([] : List Frame), Backed c.log frame := fun _ hfr => absurd hfr List.not_mem_nil
  have hpl : ∀ {after : List Frame}, (∀ frame ∈ after, frame.owed = []) →
    ∀ frame ∈ after, Backed c.log frame := fun how frame hfr => backed_plain (how frame hfr)
  have hsa : ∀ call ∈ c.pending, call.id ≠ 0 → call ∈ c.pending := fun _ hc _ => hc
  have hfe : ∀ {p : Call → Bool}, ∀ call ∈ c.pending.delete p, call.id ≠ 0 → call ∈ c.pending :=
    fun call hc _ => (mem_delete.1 hc).1
  have he : ∀ call ∈ (empty : Table Call), call.id ≠ 0 → call ∈ c.pending :=
    fun call hc => absurd hc (not_mem_empty call)
  have htas : ∀ task ∈ c.tasks, task ∈ c.tasks ∨ ∀ call ∈ task.calls, Done c.log call :=
    fun _ hta => .inl hta
  have hal : ∀ frame ∈ c.stack, frame ∈ c.stack := fun _ hfr => hfr
  have htai : ∀ {task : Task} {tasks : List Task}, c.tasks = task :: tasks →
    ∀ other ∈ tasks, other ∈ c.tasks ∨ ∀ call ∈ other.calls, Done c.log call :=
    fun hfi other hot => .inl (hfi ▸ mem_cons_of_mem _ hot)
  have hq : Quiet ([] : List (Event options.Reply)) := fun _ hev => absurd hev List.not_mem_nil
  have hno : ∀ id settlement, (.settled id settlement : Event options.Reply) ∈ [] →
    Right c.log id settlement := fun _ _ hm => absurd hm List.not_mem_nil
  -- Nothing is said at all.
  have hmo : ∀ (after : List Frame) {below : List Frame}, c'.log = c.log →
    (∀ call ∈ c'.pending, call.id ≠ 0 → call ∈ c.pending) → c'.stack = after ++ below →
    (∀ frame ∈ below, frame ∈ c.stack) → (∀ frame ∈ after, Backed c.log frame) →
    (∀ task ∈ c'.tasks, task ∈ c.tasks ∨ ∀ call ∈ task.calls, Done c.log call) → Facts c' :=
    fun after _ hlo hp hst hbe hafter htas =>
      hstep [] after (hlo.trans (append_nil _).symm) hq (by simp [issuedIds]) hp hst hbe
        hafter htas hno
  -- One settlement is told.
  have hte : ∀ {id : Nat} {settlement : Settlement options.Reply}, Right c.log id settlement →
    ∀ other told, .settled other told ∈ [settled id settlement] → Right c.log other told := by
    intro id _ hri _ _ hm
    obtain ⟨rfl, rfl⟩ := settled.inj (mem_singleton.1 hm)
    exact hri
  -- A call that is failed has no part in a start any more.
  have hre : ∀ call ∈ c.pending, call.id ≠ 0 → call.id ∉ openedIds c.stack → Done c.log call := by
    intro call hc hr hov
    exact h.done hc hr (hu.sent hc hr hov)
  cases hsm with
  | @shift before after rest hto _ hsw =>
    refine h.keep [] (append_nil _).symm hq (by simp [issuedIds]) hsa ?_ h.tasks hno
    intro frame hfr
    rcases hsw.kept_or_plain hfr with ho | how
    · exact h.stack frame (hto ▸ ho)
    · exact backed_plain how
  | refuse => exact hstep _ [] rfl (by simp [Quiet]) (by simp [issuedIds]) hsa rfl hal hn htas (by simp)
  | issue method deadline taken _ _ hnu hme =>
    exact h.issue hnum method deadline taken hnu hme
  | greet =>
    refine hmo [_] rfl ?_ rfl hal (hpl (by simp)) htas
    intro call hc hr
    rcases mem_of_mem_insert hc with rfl | hc
    · exact absurd rfl hr
    · exact hc
  | overflow hto | short hto =>
    exact hmo [_, _] rfl hsa rfl (mem_stack_of_top hto) (hpl (by simp)) htas
  | hand hto => exact h.hand hk hpr hret hwr hto
  | accept hto => exact h.accept hwr hto
  | acceptLate hto => exact hmo [_] rfl hsa rfl (mem_stack_of_top hto) (hpl (by simp)) htas
  | reset hto => exact hmo [] rfl he rfl (mem_stack_of_top hto) hn htas
  | greeted hto | forget hto => exact hmo [] rfl hsa rfl (mem_stack_of_top hto) hn htas
  | abandon hto => exact hstep _ [] rfl (by simp [Quiet]) (by simp [issuedIds]) hfe rfl (mem_stack_of_top hto) hn htas (by simp)
  | start hto => exact hstep _ [] rfl (by simp [Quiet]) (by simp [issuedIds]) hsa rfl (mem_stack_of_top hto) hn htas (by simp)
  | terminate => exact hmo [_] rfl hsa rfl hal (hpl (by simp)) htas
  | @terminated error rest hto =>
    refine hmo [] rfl he rfl (mem_stack_of_top hto) hn ?_
    intro _ hta
    rcases mem_append.1 hta with hta | hta
    · exact .inl hta
    right
    obtain rfl := mem_singleton.1 hta
    intro late hl
    obtain ⟨call, hc, rfl⟩ := mem_map.1 hl
    obtain ⟨hp, hki⟩ := mem_select.1 hc
    have hr : call.id ≠ 0 := by simpa using hki
    exact h.done_terminated hw hu hto hp hr
  | record hto _ hkn hc hcall => exact h.record hk hw hto hkn hc hcall
  | cancel _ hsta hp hr =>
    have hov := hk.not_opened_of_started (mem_startedIds_of_isStarted hsta)
    exact hstep _ [_] rfl (by simp [Quiet]) (by simp [issuedIds]) hfe rfl hal (hpl (by simp)) htas
      (hte (hre _ hp hr hov).right_cancelled)
  | close _ _ hca loud deferred =>
    have hcl := h.closing hu hca deferred
    cases loud with
    | true =>
      exact hstep _ [_, _] rfl (by simp [Quiet]) (by simp [issuedIds]) he rfl hal
        (forall_mem_cons.2 ⟨backed_plain rfl, forall_mem_singleton.2 hcl⟩) htas (by simp)
    | false =>
      exact hstep [] [_] rfl hq (by simp [issuedIds]) he rfl hal
        (forall_mem_singleton.2 hcl) htas hno
  | @closed deferred establishing rest hto =>
    refine hmo [] rfl hsa rfl (mem_stack_of_top hto) hn ?_
    intro _ hta
    rcases mem_append.1 hta with hta | hta
    · rcases mem_append.1 hta with hta | hta
      · exact .inl hta
      right
      split at hta
      · rw [mem_singleton.1 hta]
        exact fun _ hc => absurd hc List.not_mem_nil
      · cases hta
    right
    obtain ⟨call, hc, rfl⟩ := map_eq_some_iff.1 (mem_toList.1 hta)
    intro late hl
    obtain rfl := mem_singleton.1 hl
    refine (h.stack _ (hto ▸ mem_cons_self)).calls late ?_
    simp [hc]
  | stale _ hfi => exact hmo [] rfl hsa rfl hal hn (htai hfi)
  | collect _ hfi =>
    exact hmo [_] rfl hsa (show _ = [_] ++ [] from rfl)
      (fun _ hfr => absurd hfr List.not_mem_nil) (hpl (by simp)) (htai hfi)
  | failing _ hfi =>
    refine hstep _ [_, _] rfl (by simp [Quiet]) (by simp [issuedIds]) hsa (show _ = [_, _] ++ [] from rfl)
      (fun _ hfr => absurd hfr List.not_mem_nil) ?_ (htai hfi) (by simp)
    refine forall_mem_cons.2 ⟨backed_plain rfl, forall_mem_singleton.2 ⟨?_, ?_⟩⟩
    · exact h.tasks _ (hfi ▸ mem_cons_self)
    · exact fun _ hpa => absurd hpa List.not_mem_nil
  | notice _ hfi => exact hstep _ [_] rfl (by simp [Quiet]) (by simp [issuedIds]) hsa rfl hal (hpl (by simp)) (htai hfi) (by simp)
  | settleTask _ hfi =>
    have hd := h.tasks _ (hfi ▸ mem_cons_self) _ mem_cons_self
    exact hstep _ [_] rfl (by simp [Quiet]) (by simp [issuedIds]) hsa rfl hal (hpl (by simp))
      (htai hfi) (hte (hd.right closedError))
  | skip => exact hmo [] rfl hsa rfl hal hn htas
  | greetFailed => exact hstep _ [_] rfl (by simp [Quiet]) (by simp [issuedIds]) he rfl hal (hpl (by simp)) htas (by simp)
  | greetDone => exact hstep _ [_] rfl (by simp [Quiet]) (by simp [issuedIds]) hfe rfl hal (hpl (by simp)) htas (by simp)
  | @deliver call answer _ _ _ _ _ hp han hme =>
    have hr : call.id ≠ 0 := fun hz => hme ((hph.method call hp).1 hz)
    have hse := hw.sent call hp hr (by simp [han])
    have hri := (h.done hp hr hse).right closedError
    simp only [endOf, han] at hri
    exact hstep _ [_] rfl (by simp [Quiet]) (by simp [issuedIds]) hfe rfl hal (hpl (by simp)) htas
      (hte hri)
  | @retire call calls error rest hto =>
    have hba := h.stack _ (hto ▸ mem_cons_self)
    refine hstep _ [_, _] rfl (by simp [Quiet]) (by simp [issuedIds]) hsa rfl (mem_stack_of_top hto) ?_ htas
      (hte ((hba.calls call mem_cons_self).right error))
    refine forall_mem_cons.2 ⟨backed_plain rfl, forall_mem_singleton.2 ⟨?_, hba.expired⟩⟩
    exact fun late hl => hba.calls late (mem_cons_of_mem _ hl)
  | @closeOne call calls deferred establishing rest hto =>
    have hba := h.stack _ (hto ▸ mem_cons_self)
    refine hstep _ [_, _] rfl (by simp [Quiet]) (by simp [issuedIds]) hsa rfl (mem_stack_of_top hto) ?_ htas
      (hte ((hba.calls call mem_cons_self).right closedError))
    refine forall_mem_cons.2 ⟨backed_plain rfl, forall_mem_singleton.2 ⟨?_, hba.expired⟩⟩
    exact fun late hl => hba.calls late (mem_cons_of_mem _ hl)
  | @expireOne id outcomeUnknown expired rest hto =>
    have hba := h.stack _ (hto ▸ mem_cons_self)
    refine hstep _ [_, _] rfl (by simp [Quiet]) (by simp [issuedIds]) hsa rfl (mem_stack_of_top hto) ?_ htas
      (hte (hba.expired (id, outcomeUnknown) mem_cons_self))
    refine forall_mem_cons.2 ⟨backed_plain rfl, forall_mem_singleton.2 ⟨hba.calls, ?_⟩⟩
    exact fun pair hpa => hba.expired pair (mem_cons_of_mem _ hpa)
  | expire _ hni _ _ hcal =>
    refine hmo [_] rfl hfe (show _ = [_] ++ [] from rfl)
      (fun _ hfr => absurd hfr List.not_mem_nil) ?_ htas
    refine forall_mem_singleton.2 ⟨(fun _ hc => absurd hc List.not_mem_nil), ?_⟩
    intro _ hpa
    obtain ⟨call, hc, rfl⟩ := mem_map.1 hpa
    obtain ⟨hp, hex⟩ := mem_select.1 hc
    have hd := hre call hp (hcal call hp hex) (by simp [hni])
    have hou : call.outcome = none := by
      simp only [isExpired, Bool.and_eq_true] at hex
      exact isNone_iff_eq_none.1 hex.2
    have hri := hd.right timeoutError
    simp only [endOf, hou] at hri
    exact hri

end ControlClient

end Jobu
