import Jobu.Control.Sending

/-!
# What the pending calls wait for

A call that was accepted waits for its response.  Until the response is there the timer is set for its
deadline (`Timely`); from then on the call is in the queue of the ready outcomes (`Wired`), and the task
or the loop that empties the queue is on its way (`Scheduled`).
-/

namespace Jobu

open List

namespace Control

/-- The start of a handshake that the RPC client has not accepted. -/
def Frame.isGreeting : Frame → Bool
  | .entering id _ | .writing id | .returning id (.error _) => id = 0
  | _ => false

end Control

open Lib Control Table Frame

namespace ControlClient

variable {options : Options} {c c' : ControlClient options}

theorem Small.issued_grows (hsm : Small c c') : ∀ id ∈ issuedIds c.log, id ∈ issuedIds c'.log := by
  obtain ⟨_, hl⟩ := hsm.log_grows
  intro _ hi
  rw [hl, issuedIds, filterMap_append]
  exact mem_append_left _ hi

/-! ## Before the handshake -/

/-- Before the handshake is accepted nothing waits. -/
def Unused (phase : Phase) (stack : List Frame) (wires : Table Wire) (ready issued : List Nat) : Prop :=
  phase = .uninitialized ∨ (phase = .initializing ∧ stack.any Frame.isGreeting = true) →
    (∀ wire, wire ∉ wires) ∧ ready = [] ∧ issued = []

section Unused

variable {phase : Phase} {stack stack' : List Frame} {wires : Table Wire} {ready issued : List Nat}

section

variable (h : Unused phase stack wires ready issued)

include h

theorem Unused.onStack (hst : stack'.any isGreeting = true → stack.any isGreeting = true) :
    Unused phase stack' wires ready issued :=
  fun he => h (he.imp_right fun ⟨hp, han⟩ => ⟨hp, hst han⟩)

theorem Unused.push (after : List Frame)
    (hafter : after.any isGreeting = false) : Unused phase (after ++ stack) wires ready issued :=
  h.onStack fun han => by rwa [any_append, hafter, Bool.false_or] at han

theorem Unused.top {top : Frame} {rest : List Frame} (hto : stack = top :: rest) (after : List Frame)
    (hafter : after.any isGreeting = true → top.isGreeting = true) :
    Unused phase (after ++ rest) wires ready issued := by
  refine h.onStack ?_
  intro han
  rw [hto, any_cons, Bool.or_eq_true]
  rw [any_append, Bool.or_eq_true] at han
  exact han.imp_left hafter

theorem Unused.delete (p : Wire → Bool) : Unused phase stack (wires.delete p) ready issued := by
  intro he
  obtain ⟨hwi, hr, hi⟩ := h he
  exact ⟨fun wire hw => hwi wire (mem_delete.1 hw).1, hr, hi⟩

theorem Unused.fewer {ready' : List Nat}
    (hfe : ready = [] → ready' = []) : Unused phase stack wires ready' issued := by
  intro he
  obtain ⟨hw, hr, hi⟩ := h he
  exact ⟨hw, hfe hr, hi⟩

end

end Unused

theorem Swap.greeting {before after : List Frame} (hsw : Swap c before after) (rest : List Frame) :
    (after ++ rest).any isGreeting = true → (before ++ rest).any isGreeting = true := by
  cases hsw <;> simp [isGreeting]

theorem isHandshake_of_isGreeting {frame : Frame} (h : frame.isGreeting = true) : frame.isHandshake = true := by
  cases frame with
  | returning _ result =>
    cases result with
    | error => exact h
    | ok => cases h
  | reading => cases h
  | _ => exact h

theorem Small.unused (hsm : Small c c') (hph : Phased c.phase c.pending c.stack)
    (hk : (tickets c).Kept) (h : Unused c.phase c.stack c.wireToLocal c.readyOutcomes (issuedIds c.log)) :
    Unused c'.phase c'.stack c'.wireToLocal c'.readyOutcomes (issuedIds c'.log) := by
  have hq : ∀ event : Event options.Reply, event.issuedId = none → c'.log = c.log ++ [event] →
    issuedIds c'.log = issuedIds c.log := by
    intro _ hev hl
    rw [hl, issuedIds_append, hev, Option.toList_none, append_nil]
  cases hsm with
  | shift hto _ hsw =>
    rw [hto] at h
    exact h.onStack (hsw.greeting _)
  | refuse =>
    rw [hq _ rfl rfl]
    exact h
  | issue _ _ _ _ hr =>
    rintro (hp | ⟨hp, -⟩)
    · exact absurd (hr.symm.trans hp) nofun
    · exact absurd (hr.symm.trans hp) nofun
  | greet _ _ _ hfr => exact fun _ => h (.inl hfr)
  | overflow hto | short hto => exact h.top hto [_, _] (by simp [isGreeting])
  | hand hto =>
    rw [hq _ rfl rfl]
    exact h.top hto [_] (by simp [isGreeting])
  | @accept id wire rest hto =>
    -- A frame is accepted after the handshake, or it is the handshake.
    intro he
    exfalso
    by_cases hid : id = 0
    · subst hid
      have hc : c.stack.countP isHandshake = rest.countP isHandshake + 1 := by
        rw [hto]
        exact countP_cons_of_pos rfl
      rcases he with hp | ⟨-, han⟩
      · exact (hph.starting (by omega)).1 hp
      have hpo : 0 < rest.countP isHandshake := by
        refine countP_pos_iff.2 ?_
        obtain ⟨frame, hfra, hg⟩ := any_eq_true.1 han
        rcases mem_cons.1 hfra with rfl | hfra
        · cases hg
        · exact ⟨frame, hfra, isHandshake_of_isGreeting hg⟩
      have := hph.alone
      omega
    · have ho : id ∈ openedIds c.stack := by
        rw [hto]
        exact mem_filterMap.2 ⟨_, mem_cons_self, if_neg hid⟩
      have hi : id ∈ issuedIds c.log := hk.issued_of_opened ho
      have hn : issuedIds c.log = [] := by
        refine (h (he.imp_right fun ⟨hp, han⟩ => ⟨hp, ?_⟩)).2.2
        rw [hto, any_cons, Bool.or_eq_true]
        exact .inr han
      rw [hn] at hi
      cases hi
  | acceptLate hto => exact h.top hto [_] (by simp [isGreeting])
  | reset hto =>
    intro _
    refine h (.inr ⟨?_, by simp [hto, isGreeting]⟩)
    have hst := hph.starting (by simp [hto, isHandshake])
    cases hp : c.phase <;> simp_all [isOver]
  | greeted hto | closed hto => exact h.top hto [] (by simp)
  | abandon hto | start hto =>
    rw [hq _ rfl rfl]
    exact h.top hto [] (by simp)
  | terminate => exact h.push [_] rfl
  | terminated | close | greetFailed | greetDone => rintro (hp | ⟨hp, -⟩) <;> cases hp
  | @record wire answer rest hto _ hkn =>
    intro he
    have he : c.phase = .uninitialized ∨ (c.phase = .initializing ∧ c.stack.any isGreeting = true) := by
      rw [hto]
      exact he
    exact absurd hkn ((h he).1 wire)
  | forget hto => exact (h.top hto [] (by simp)).delete _
  | cancel =>
    rw [hq _ rfl rfl]
    refine ((h.push [_] rfl).delete _).fewer ?_
    intro hn
    show c.readyOutcomes.filter _ = []
    rw [hn, filter_nil]
  | collect => exact h.onStack (by simp [isGreeting])
  | failing | notice | settleTask =>
    rw [hq _ rfl rfl]
    exact h.onStack (by simp [tell, push, emit, isGreeting])
  | skip _ hfi => exact h.fewer (by simp [hfi])
  | deliver _ _ hfi =>
    rw [hq _ rfl rfl]
    exact (h.push [_] rfl).fewer (by simp [hfi])
  | retire hto | closeOne hto | expireOne hto =>
    rw [hq _ rfl rfl]
    exact h.top hto [_, _] (by simp [isGreeting])
  | expire => exact (h.onStack (by simp [rearmDeadline, isGreeting])).delete _
  | _ => exact h

/-! ## Responses -/

/-- What is known of the pending calls from their identifiers on the wire and from the queue. -/
structure Wired (pending : Table Call) (wires : Table Wire) (ready issued : List Nat) : Prop where
  bound : ∀ call ∈ pending, call.possiblySent = call.wireId.isSome
  sent : ∀ call ∈ pending, call.id ≠ 0 → call.outcome ≠ none → call.possiblySent = true
  waits : ∀ wire ∈ wires, ∀ call ∈ pending, call.id = wire.localId → call.id ≠ 0 →
    call.wireId = some wire.number ∧ call.outcome = none
  known : ∀ wire ∈ wires, wire.localId = 0 ∨ wire.localId ∈ issued
  listed : ∀ id ∈ ready, id = 0 ∨ id ∈ issued
  queued : ∀ call ∈ pending, call.outcome ≠ none → call.id ∈ ready
  recorded : ∀ call ∈ pending, call.id ∈ ready → call.outcome ≠ none

section Wired

variable {pending pending' : Table Call} {wires wires' : Table Wire}
  {ready ready' issued issued' : List Nat}

section

variable (h : Wired pending wires ready issued)

include h

theorem Wired.grow (hi : ∀ id ∈ issued, id ∈ issued') : Wired pending wires ready issued' :=
  { h with
    known := fun wire hw => (h.known wire hw).imp_right (hi _)
    listed := fun id hid => (h.listed id hid).imp_right (hi _) }

/-- Calls and responses that are no longer there. -/
theorem Wired.fewer (hp : ∀ call ∈ pending', call ∈ pending)
    (hwi : ∀ wire ∈ wires', wire ∈ wires) (hr : ∀ id ∈ ready', id ∈ ready)
    (hl : ∀ call ∈ pending', call.id ∈ ready → call.id ∈ ready') :
    Wired pending' wires' ready' issued where
  bound call hc := h.bound call (hp call hc)
  sent call hc := h.sent call (hp call hc)
  waits wire hw call hc := h.waits wire (hwi wire hw) call (hp call hc)
  known wire hw := h.known wire (hwi wire hw)
  listed id hi := h.listed id (hr id hi)
  queued call hc ho := hl call hc (h.queued call (hp call hc) ho)
  recorded call hc hi := h.recorded call (hp call hc) (hr _ hi)

theorem Wired.insert {call : Call} (hw : call.wireId = none)
    (hou : call.outcome = none) (hse : call.possiblySent = false)
    (hn : call.id ≠ 0 → call.id ∉ issued) (hr : call.id ∉ ready) :
    Wired (pending.insert call) wires ready issued where
  bound other hot := by
    rcases mem_of_mem_insert hot with rfl | ho
    · rw [hse, hw]
      rfl
    · exact h.bound other ho
  sent other hot hre hso := by
    rcases mem_of_mem_insert hot with rfl | ho
    · exact absurd hou hso
    · exact h.sent other ho hre hso
  waits wire hm other hot hi hre := by
    rcases mem_of_mem_insert hot with rfl | ho
    · exact absurd ((h.known wire hm).resolve_left (hi ▸ hre)) (hi ▸ hn hre)
    · exact h.waits wire hm other ho hi hre
  known := h.known
  listed := h.listed
  queued other hot hso := by
    rcases mem_of_mem_insert hot with rfl | ho
    · exact absurd hou hso
    · exact h.queued other ho hso
  recorded other hot hi := by
    rcases mem_of_mem_insert hot with rfl | ho
    · exact absurd hi hr
    · exact h.recorded other ho hi

theorem Wired.bind {id wire : Nat} (hu : id ≠ 0 → ∀ call ∈ pending, call.id = id → call.possiblySent = false)
    (hi : id = 0 ∨ id ∈ issued) :
    Wired (pending.modify id (Call.bind wire) fun _ => rfl) (wires.insert ⟨wire, id⟩) ready issued := by
  have hm : ∀ call ∈ pending.modify id (Call.bind wire) fun _ => rfl,
    (∃ old ∈ pending, old.id = id ∧ call = old.bind wire) ∨ (call ∈ pending ∧ call.id ≠ id) := by
    intro call hc
    rcases (mem_modify (f := Call.bind wire) fun _ => rfl).1 hc with
      ⟨old, ho, hid, rfl⟩ | ⟨ho, hot⟩
    · exact .inl ⟨old, ho, hid, rfl⟩
    · exact .inr ⟨ho, hot⟩
  have hn : id ≠ 0 → ∀ call ∈ pending, call.id = id → call.wireId = none ∧ call.outcome = none := by
    intro hr call hc hid
    have hse := hu hr call hc hid
    refine ⟨?_, ?_⟩
    · have hbo := h.bound call hc
      rw [hse] at hbo
      exact Option.not_isSome_iff_eq_none.1 (by rw [← hbo]; nofun)
    · by_contra hso
      have := h.sent call hc (hid ▸ hr) hso
      rw [hse] at this
      cases this
  refine ⟨?_, ?_, ?_, ?_, h.listed, ?_, ?_⟩
  · intro call hc
    rcases hm call hc with ⟨old, -, -, rfl⟩ | ⟨ho, -⟩
    · rfl
    · exact h.bound call ho
  · intro call hc hr hso
    rcases hm call hc with ⟨old, -, -, rfl⟩ | ⟨ho, -⟩
    · rfl
    · exact h.sent call ho hr hso
  · intro row hro call hc hid hr
    rcases hm call hc with ⟨old, ho, hsa, rfl⟩ | ⟨ho, hot⟩
    · have hr : id ≠ 0 := hsa ▸ hr
      obtain ⟨hw, hou⟩ := hn hr old ho hsa
      rcases mem_of_mem_insert hro with rfl | hro
      · exact ⟨rfl, hou⟩
      have := (h.waits row hro old ho hid (hsa ▸ hr)).1
      rw [hw] at this
      cases this
    rcases mem_of_mem_insert hro with rfl | hro
    · exact absurd hid hot
    · exact h.waits row hro call ho hid hr
  · intro row hro
    rcases mem_of_mem_insert hro with rfl | hro
    · exact hi
    · exact h.known row hro
  · intro call hc hso
    rcases hm call hc with ⟨old, ho, -, rfl⟩ | ⟨ho, -⟩
    · exact h.queued old ho hso
    · exact h.queued call ho hso
  · intro call hc hid
    rcases hm call hc with ⟨old, ho, -, rfl⟩ | ⟨ho, -⟩
    · exact h.recorded old ho hid
    · exact h.recorded call ho hid

theorem Wired.answer {wire : Wire} (hw : wire ∈ wires) (answer : Answer) :
    Wired (pending.modify wire.localId (Call.answered answer) fun _ => rfl)
      (wires.delete fun row => row.number = wire.number) (ready ++ [wire.localId]) issued := by
  have hm : ∀ call ∈ pending.modify wire.localId (Call.answered answer) fun _ => rfl,
    (∃ old ∈ pending, old.id = wire.localId ∧ call = old.answered answer) ∨
      (call ∈ pending ∧ call.id ≠ wire.localId) := by
    intro call hc
    rcases (mem_modify (f := Call.answered answer) fun _ => rfl).1 hc with
      ⟨old, ho, hi, rfl⟩ | ⟨ho, hot⟩
    · exact .inl ⟨old, ho, hi, rfl⟩
    · exact .inr ⟨ho, hot⟩
  refine ⟨?_, ?_, ?_, ?_, ?_, ?_, ?_⟩
  · intro call hc
    rcases hm call hc with ⟨old, ho, -, rfl⟩ | ⟨ho, -⟩
    · exact h.bound old ho
    · exact h.bound call ho
  · intro call hc hr hso
    rcases hm call hc with ⟨old, ho, hi, rfl⟩ | ⟨ho, -⟩
    · have hbo := h.bound old ho
      rw [(h.waits wire hw old ho hi hr).1] at hbo
      exact hbo
    · exact h.sent call ho hr hso
  · intro row hro call hc hi hr
    obtain ⟨hro, hnu⟩ := mem_delete.1 hro
    rcases hm call hc with ⟨old, ho, hsa, rfl⟩ | ⟨ho, -⟩
    · -- The call has one identifier on the wire, and its row is gone.
      have hfi := (h.waits wire hw old ho hsa hr).1
      have hse := (h.waits row hro old ho hi hr).1
      have hn : row.number = wire.number := Option.some.inj (hse.symm.trans hfi)
      simp [hn] at hnu
    · exact h.waits row hro call ho hi hr
  · intro row hro
    exact h.known row (mem_delete.1 hro).1
  · intro id hi
    rcases mem_append.1 hi with hi | hi
    · exact h.listed id hi
    · rw [mem_singleton.1 hi]
      exact h.known wire hw
  · intro call hc hso
    rcases hm call hc with ⟨old, -, hi, rfl⟩ | ⟨ho, -⟩
    · exact mem_append_right _ (mem_singleton.2 hi)
    · exact mem_append_left _ (h.queued call ho hso)
  · intro call hc hi
    rcases hm call hc with ⟨_, -, -, rfl⟩ | ⟨ho, hot⟩
    · nofun
    rcases mem_append.1 hi with hi | hi
    · exact h.recorded call ho hi
    · exact absurd (mem_singleton.1 hi) hot

end

theorem wired_of_empty (hk : ∀ wire ∈ wires, wire.localId = 0 ∨ wire.localId ∈ issued)
    (hr : ∀ id ∈ ready, id = 0 ∨ id ∈ issued) : Wired .empty wires ready issued where
  bound call hc := absurd hc (not_mem_empty call)
  sent call hc := absurd hc (not_mem_empty call)
  waits _ _ call hc := absurd hc (not_mem_empty call)
  known := hk
  listed := hr
  queued call hc := absurd hc (not_mem_empty call)
  recorded call hc := absurd hc (not_mem_empty call)

end Wired

theorem Small.wired (hsm : Small c c') (hn : Numbered c) (hk : (tickets c).Kept)
    (hu : Unused c.phase c.stack c.wireToLocal c.readyOutcomes (issuedIds c.log)) (hma : Marked c)
    (h : Wired c.pending c.wireToLocal c.readyOutcomes (issuedIds c.log)) :
    Wired c'.pending c'.wireToLocal c'.readyOutcomes (issuedIds c'.log) := by
  have hi := hsm.issued_grows
  have hsa : ∀ call ∈ c.pending, call ∈ c.pending := fun _ hc => hc
  have hd : ∀ {p : Call → Bool}, ∀ call ∈ c.pending.delete p, call ∈ c.pending :=
    fun call hc => (mem_delete.1 hc).1
  have hcu : ∀ {p : Wire → Bool}, ∀ wire ∈ c.wireToLocal.delete p, wire ∈ c.wireToLocal :=
    fun wire hw => (mem_delete.1 hw).1
  have he : Wired .empty .empty [] (issuedIds c'.log) := by
    refine wired_of_empty ?_ (by simp)
    intro wire hw
    exact absurd hw (not_mem_empty wire)
  -- The first response is taken out of the queue, with its call.
  have hfi : ∀ {id : Nat} {ready : List Nat}, c.readyOutcomes = id :: ready →
    Wired (c.pending.delete fun row => row.id = id) c.wireToLocal ready (issuedIds c'.log) := by
    intro id ready hr
    refine (h.fewer hd (fun _ hw => hw) ?_ ?_).grow hi
    · intro other hot
      exact hr ▸ mem_cons_of_mem _ hot
    intro call hc hm
    obtain ⟨-, hot⟩ := mem_delete.1 hc
    rw [hr] at hm
    rcases mem_cons.1 hm with hid | hm
    · simp [hid] at hot
    · exact hm
  cases hsm with
  | issue _ _ _ _ _ hnu =>
    refine (h.insert rfl rfl rfl ?_ ?_).grow hi
    · intro _ hm
      exact absurd (hn.resolve_left hnu _ hm) (lt_irrefl _)
    · intro hm
      have ho := (h.listed _ hm).resolve_left hnu
      exact absurd (hn.resolve_left hnu _ ho) (lt_irrefl _)
  | greet _ _ _ hfr =>
    refine h.insert rfl rfl rfl (fun hre => absurd rfl hre) ?_
    rw [(hu (.inl hfr)).2.1]
    exact not_mem_nil
  | @accept id wire rest hto =>
    have hm : .writing id ∈ c.stack := hto ▸ mem_cons_self
    refine h.bind ?_ ?_
    · intro hre call hc hid
      exact hma _ hm _ rfl hre call hc hid
    · by_cases hid : id = 0
      · exact .inl hid
      · exact .inr (hk.issued_of_opened (mem_filterMap.2 ⟨_, hm, if_neg hid⟩))
  | reset => exact wired_of_empty h.known h.listed
  | abandon => exact (h.fewer hd (fun _ hw => hw) (fun _ hid => hid) fun _ _ hid => hid).grow hi
  | terminated | close | greetFailed => exact he
  | record _ _ hkn => exact (h.answer hkn _).grow hi
  | forget => exact h.fewer hsa hcu (fun _ hid => hid) fun _ _ hid => hid
  | cancel =>
    refine (h.fewer hd hcu ?_ ?_).grow hi
    · intro id hid
      exact (mem_filter.1 hid).1
    · intro call hc hm
      obtain ⟨-, hot⟩ := mem_delete.1 hc
      exact mem_filter.2 ⟨hm, by simpa using hot⟩
  | @skip id ready rest _ hr hg =>
    refine h.fewer hsa (fun _ hw => hw) ?_ ?_
    · intro _ hot
      exact hr ▸ mem_cons_of_mem _ hot
    intro call hc hm
    rw [hr] at hm
    rcases mem_cons.1 hm with hid | hm
    · exact absurd hid (find?_eq_none.1 hg call hc)
    · exact hm
  | greetDone _ _ hr | deliver _ _ hr => exact hfi hr
  | expire => exact h.fewer hd hcu (fun _ hid => hid) fun _ _ hid => hid
  | _ => exact h.grow hi

/-! ## Deadlines -/

/-- The timer is set for the deadline of every call that was accepted and waits for its response. -/
def Timely (pending : Table Call) (timer : Option Int) : Prop :=
  ∀ call ∈ pending, call.outcome = none → call.wireId ≠ none → ∃ due ∈ timer, due ≤ call.deadline

theorem timely_rearm (c : ControlClient options) : Timely c.rearmDeadline.pending c.rearmDeadline.timer := by
  intro call hc ho _
  have hm : call.deadline ∈
    (c.pending.select fun call => call.outcome.isNone).map Call.deadline :=
    mem_map_of_mem (mem_select.2 ⟨hc, by simp [ho]⟩)
  show ∃ due ∈ ((c.pending.select fun call => call.outcome.isNone).map Call.deadline).min?, _
  cases hmin : ((c.pending.select fun call => call.outcome.isNone).map Call.deadline).min? with
  | none =>
    rw [min?_eq_none_iff.1 hmin] at hm
    cases hm
  | some due => exact ⟨due, rfl, (min?_eq_some_iff.1 hmin).2 _ hm⟩

theorem timely_empty (timer : Option Int) : Timely .empty timer :=
  fun call hc => absurd hc (not_mem_empty call)

theorem Timely.insert {pending : Table Call} {timer : Option Int} (h : Timely pending timer)
    {call : Call} (hw : call.wireId = none) : Timely (pending.insert call) timer := by
  intro other hot hou hbo
  rcases mem_of_mem_insert hot with rfl | ho
  · exact absurd hw hbo
  · exact h other ho hou hbo

theorem Small.timely (hsm : Small c c') (h : Timely c.pending c.timer) : Timely c'.pending c'.timer := by
  cases hsm with
  | issue | greet => exact h.insert rfl
  | accept | abandon | record | cancel | greetDone | deliver | expire => exact timely_rearm _
  | reset | terminated | close | greetFailed => exact timely_empty _
  | _ => exact h

/-! ## The queue of the ready outcomes -/

/-- The task that empties the queue is posted. -/
def Posted (c : ControlClient options) : Prop :=
  c.deliveryScheduled = true → c.isOver = true ∨ .deliver c.generation ∈ c.tasks

/-- The queue is emptied by a task or by a loop. -/
def Collecting (c : ControlClient options) : Prop :=
  c.isLive = true → c.readyOutcomes ≠ [] → c.deliveryScheduled = true ∨ .delivering c.generation ∈ c.stack

theorem Small.posted (hsm : Small c c') (h : Posted c) : Posted c' := by
  have hov := hsm.over
  -- The first task goes, and it is not the one that is meant.
  have hta : ∀ {task : Task} {tasks : List Task}, c.tasks = task :: tasks →
    task ≠ .deliver c.generation → c.deliveryScheduled = true → c'.isOver = true ∨ .deliver c.generation ∈ tasks := by
    intro _ _ hfi hot hsc
    refine (h hsc).imp hov ?_
    intro hm
    rw [hfi] at hm
    exact (mem_cons.1 hm).resolve_left (Ne.symm hot)
  cases hsm with
  | terminated | close => exact fun _ => .inl rfl
  | record =>
    intro _
    cases hsc : c.deliveryScheduled with
    | true => exact (h hsc).imp hov fun hm => mem_append_left _ hm
    | false => exact .inr (by simp [rearmDeadline])
  | closed =>
    intro hsc
    exact (h hsc).imp hov fun hm => mem_append_left _ (mem_append_left _ hm)
  | stale _ hfi ho => exact hta hfi fun he => ho (he ▸ rfl)
  | collect => rintro ⟨⟩
  | failing _ hfi | notice _ hfi | settleTask _ hfi => exact hta hfi (by rintro ⟨⟩)
  | _ => exact fun hsc => (h hsc).imp_left hov

theorem Small.collecting (hsm : Small c c')
    (hu : Unused c.phase c.stack c.wireToLocal c.readyOutcomes (issuedIds c.log))
    (h : Collecting c) : Collecting c' := by
  have hk : (c'.isLive = true → c.isLive = true) → (c'.readyOutcomes ≠ [] → c.readyOutcomes ≠ []) →
    c'.deliveryScheduled = c.deliveryScheduled → c'.generation = c.generation →
    (.delivering c.generation ∈ c.stack → .delivering c.generation ∈ c'.stack) → Collecting c' := by
    intro hl hr hsc hg hst hli hno
    rw [hsc, hg]
    exact (h (hl hli) (hr hno)).imp_right hst
  -- The top frame goes, and it is not the loop.
  have hre : ∀ (after : List Frame) {top : Frame} {rest : List Frame}, c.stack = top :: rest →
    top ≠ .delivering c.generation → .delivering c.generation ∈ c.stack → .delivering c.generation ∈ after ++ rest := by
    intro after _ rest hto ho hm
    rw [hto] at hm
    exact mem_append_right _ ((mem_cons.1 hm).resolve_left (Ne.symm ho))
  have he : c.stack = [] → .delivering c.generation ∈ c.stack → .delivering c.generation ∈ c'.stack := by
    intro hni hm
    rw [hni] at hm
    cases hm
  cases hsm with
  | @shift before after rest hto hw hsw =>
    cases hsw with
    | collected generation hla =>
      intro hl hr
      have ho : delivering generation ≠ .delivering c.generation := by
        intro heq
        cases heq
        rcases hla with hg | hd | hn
        · exact hg rfl
        · rw [show c.isLive = true from hl] at hd
          cases hd
        · exact hr hn
      exact (h hl hr).imp_right (hre [] hto ho)
    | nothing => exact hk id id rfl rfl fun hm => by rwa [hto] at hm
    | heard =>
      refine hk id id rfl rfl fun hm => ?_
      rw [hto] at hm
      exact mem_cons_of_mem _ hm
    | _ => exact hk id id rfl rfl (hre _ hto nofun)
  | refuse | stale => exact h
  | issue | terminate => exact hk id id rfl rfl fun hm => mem_cons_of_mem _ hm
  | greet _ _ _ hfr =>
    intro _ hr
    exact absurd (hu (.inl hfr)).2.1 hr
  | overflow hto | short hto | retire hto | closeOne hto | expireOne hto =>
    exact hk id id rfl rfl (hre [_, _] hto nofun)
  | hand hto | accept hto | acceptLate hto => exact hk id id rfl rfl (hre [_] hto nofun)
  | greeted hto | abandon hto | start hto | forget hto | closed hto =>
    exact hk id id rfl rfl (hre [] hto nofun)
  | reset | terminated | close | greetFailed => exact fun hl => nomatch hl
  | record => exact fun _ _ => .inl rfl
  | cancel =>
    refine hk id ?_ rfl rfl fun hm => mem_cons_of_mem _ hm
    intro hr hn
    refine hr ?_
    show c.readyOutcomes.filter _ = []
    rw [hn, filter_nil]
  | collect => exact fun _ _ => .inr mem_cons_self
  | failing hni | notice hni | settleTask hni | expire _ hni => exact hk id id rfl rfl (he hni)
  | skip _ hfi => exact hk id (fun _ => by simp [hfi]) rfl rfl id
  | greetDone _ hl hfi | deliver _ hl hfi =>
    exact hk (fun _ => hl) (fun _ => by simp [hfi]) rfl rfl fun hm => mem_cons_of_mem _ hm

end ControlClient

end Jobu
