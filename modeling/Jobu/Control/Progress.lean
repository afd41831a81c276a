import Jobu.Control.Facts
import Jobu.Lib.Machine

/-!
# How the control client gets on

What a step leaves of the pending calls (`Small.traces`), of the posted tasks (`Small.tasks`) and of the
loop that delivers the responses (`Small.delivering`), and what the timer does to a call whose deadline
has passed (`step_timeout`).

  > `Sound`: all that the client keeps, in one structure.
-/

namespace Jobu

open Lib Control List Table

namespace ControlClient

variable {options : Options} {c c' : ControlClient options}

/-! ## All that is kept -/

structure Sound (c : ControlClient options) : Prop where
  bottom : Bottom c.stack
  phased : Phased c.phase c.pending c.stack
  numbered : Numbered c
  prompt : Prompt c
  retired : Retired c
  kept : (tickets c).Kept
  writes : Writes c.rpcClosed c.isOver c.stack c.log
  marked : Marked c
  unmarked : Unmarked c
  unused : Unused c.phase c.stack c.wireToLocal c.readyOutcomes (issuedIds c.log)
  wired : Wired c.pending c.wireToLocal c.readyOutcomes (issuedIds c.log)
  timely : Timely c.pending c.timer
  posted : Posted c
  collecting : Collecting c
  facts : Facts c

theorem Small.sound (hsm : Small c c') (h : Sound c) : Sound c' where
  bottom := hsm.bottom h.bottom
  phased := hsm.phased h.bottom h.phased
  numbered := hsm.numbered h.numbered
  prompt := hsm.prompt h.kept h.prompt
  retired := hsm.retired h.retired
  kept := hsm.kept h.bottom h.phased h.numbered h.prompt h.retired h.kept
  writes := hsm.writes h.numbered h.facts.handed h.writes
  marked := hsm.marked h.numbered h.kept h.marked
  unmarked := hsm.unmarked h.phased h.writes h.marked h.unmarked
  unused := hsm.unused h.phased h.kept h.unused
  wired := hsm.wired h.numbered h.kept h.unused h.marked h.wired
  timely := hsm.timely h.timely
  posted := hsm.posted h.posted
  collecting := hsm.collecting h.unused h.collecting
  facts := hsm.facts h.kept h.numbered h.prompt h.retired h.writes h.unmarked h.wired h.phased h.facts

theorem facts_start : Facts ({} : ControlClient options) where
  pending call hc := absurd hc (not_mem_empty call)
  sent call hc := absurd hc (not_mem_empty call)
  stack _ hfr := absurd hfr not_mem_nil
  tasks _ hta := absurd hta not_mem_nil
  settled _ _ hm := absurd hm not_mem_nil
  handed _ hm := absurd hm not_mem_nil
  received _ _ hm := absurd hm not_mem_nil
  real := not_mem_nil

theorem writes_start : Writes false false [] ([] : List (Event options.Reply)) where
  running _ _ := not_mem_nil
  handed _ hm := absurd hm not_mem_nil
  single := by simp
  entering _ hfr := absurd hfr not_mem_nil
  fresh _ _ hh := nomatch hh

theorem phased_start : Phased .uninitialized .empty [] where
  idle _ _ := not_mem_empty
  greeting hp := nomatch hp
  ready hp := nomatch hp
  method call hc := absurd hc (not_mem_empty call)
  starting hpo := absurd hpo (by simp)
  alone := by simp

theorem sound_start : Sound ({} : ControlClient options) where
  bottom := .nil
  phased := phased_start
  numbered := .inr fun _ hi => absurd hi not_mem_nil
  prompt _ hfr := absurd hfr not_mem_nil
  retired := ⟨fun _ hta => absurd hta not_mem_nil, fun _ hfr => absurd hfr not_mem_nil⟩
  kept := Tickets.kept_none
  writes := writes_start
  marked _ hfr := absurd hfr not_mem_nil
  unmarked call hc := absurd hc (not_mem_empty call)
  unused _ := ⟨not_mem_empty, rfl, rfl⟩
  wired := wired_of_empty (fun wire hw => absurd hw (not_mem_empty wire))
    fun _ hi => absurd hi not_mem_nil
  timely := timely_empty none
  posted hsc := nomatch hsc
  collecting _ hr := absurd rfl hr
  facts := facts_start

/-- A step of a client that is closed with care. -/
theorem Sound.small (h : Sound c) {move : Move} (hstep : c.step move = some c')
    (hca : move = .close → c.isOver = false → Careful c) : Small c c' := by
  refine step_small h.wired.recorded ?_ hca hstep
  intro call hc
  rcases mem_append.1 hc with hc | hc
  · obtain ⟨frame, hfr, hc⟩ := mem_flatMap.1 hc
    exact ((h.facts.stack frame hfr).calls call hc).method
  · obtain ⟨task, hta, hc⟩ := mem_flatMap.1 hc
    exact (h.facts.tasks task hta call hc).method

/-- The identifier of the handshake is never issued. -/
theorem Sound.real (h : Sound c) {id : Nat} (hi : id ∈ issuedIds c.log) : id ≠ 0 := by
  rintro rfl
  exact h.facts.real hi

/-! ## Pending calls -/

/-- A pending call that is not new was pending before; it keeps its deadline, its identifier on the wire
and its response. -/
theorem Small.traces (hsm : Small c c') (hnu : Numbered c) {call : Call}
    (hc : call ∈ c'.pending) (hr : call.id ≠ 0) (hi : call.id ∈ issuedIds c.log) :
    ∃ old ∈ c.pending, old.id = call.id ∧ old.deadline = call.deadline ∧
      (old.wireId ≠ none → call.wireId ≠ none) ∧ (old.outcome ≠ none → call.outcome ≠ none) := by
  have ho : call ∈ c.pending → ∃ old ∈ c.pending, old.id = call.id ∧ old.deadline = call.deadline ∧
      (old.wireId ≠ none → call.wireId ≠ none) ∧ (old.outcome ≠ none → call.outcome ≠ none) :=
    fun hm => ⟨call, hm, rfl, rfl, id, id⟩
  cases hsm with
  | issue _ _ _ _ _ hn =>
    rcases mem_of_mem_insert hc with rfl | hc
    · exact absurd (hnu.resolve_left hn _ hi) (lt_irrefl _)
    · exact ho hc
  | greet =>
    rcases mem_of_mem_insert hc with rfl | hc
    · exact absurd rfl hr
    · exact ho hc
  | @accept _ wire =>
    rcases (mem_modify (f := Call.bind wire) fun _ => rfl).1 hc with
      ⟨old, hm, -, rfl⟩ | ⟨hm, -⟩
    · exact ⟨old, hm, rfl, rfl, fun _ => nofun, id⟩
    · exact ho hm
  | @record _ answer =>
    rcases (mem_modify (f := Call.answered answer) fun _ => rfl).1 hc with
      ⟨old, hm, -, rfl⟩ | ⟨hm, -⟩
    · exact ⟨old, hm, rfl, rfl, id, fun _ => nofun⟩
    · exact ho hm
  | abandon | cancel | greetDone | deliver | expire => exact ho (mem_delete.1 hc).1
  | reset | terminated | close | greetFailed => exact absurd hc (not_mem_empty call)
  | _ => exact ho hc

/-- The timer fires at or after the deadline of a call without a response. -/
theorem step_timeout {now : Int} (hstep : c.step (.timeout now) = some c') {call : Call}
    (hc : call ∈ c.pending) (hd : call.deadline ≤ now) (ho : call.outcome = none) :
    c'.isOver = true ∨ ∀ other ∈ c'.pending, other.id ≠ call.id := by
  unfold step at hstep
  split at hstep
  · simp only at hstep
    split at hstep
    · cases hstep
    split at hstep
    · cases hstep
      unfold onTimeout
      simp only
      split
      · exact .inl rfl
      refine .inr ?_
      intro _ hot hi
      obtain ⟨hm, hk⟩ := mem_delete.1 hot
      obtain rfl := eq_of_key hm hc hi
      simp [hd, ho] at hk
    · cases hstep
  next top _ _ => cases hbu : top.isBusy <;> simp [hbu, moveOfOthers] at hstep

/-! ## Posted tasks -/

/-- Tasks are posted at the end, and the first is taken. -/
theorem Small.tasks (hsm : Small c c') :
    (∃ more, c'.tasks = c.tasks ++ more) ∨ ∃ first, c.tasks = first :: c'.tasks := by
  cases hsm with
  | terminated | record => exact .inl ⟨_, rfl⟩
  | closed => exact .inl ⟨_, append_assoc _ _ _⟩
  | stale _ hfi | collect _ hfi | failing _ hfi | notice _ hfi | settleTask _ hfi =>
    exact .inr ⟨_, hfi⟩
  | _ => exact .inl ⟨[], (append_nil _).symm⟩

theorem step_runTask (h : Sound c) (hstep : c.step .runTask = some c') : ∃ first, c.tasks = first :: c'.tasks := by
  unfold step at hstep
  split at hstep
  · simp only at hstep
    split at hstep
    · cases hstep
    rename_i task tasks hfi
    cases hstep
    refine ⟨task, ?_⟩
    rw [hfi]
    congr 1
    cases task with
    | callClosed _ call =>
      have hm := (h.facts.tasks _ (hfi ▸ mem_cons_self) call mem_cons_self).method
      simp only [runTask]
      split
      · rw [deliverRetiredCall_eq hm]
        rfl
      · rfl
    | _ =>
      simp only [runTask]
      split <;> rfl
  next top _ _ => cases hbu : top.isBusy <;> simp [hbu, moveOfOthers] at hstep

/-- The task that delivers the responses is taken. -/
theorem Small.collects (hsm : Small c c') (hfi : c.tasks = .deliver c.generation :: c'.tasks) :
    .delivering c.generation ∈ c'.stack := by
  have hl : ∀ more, c'.tasks ≠ c.tasks ++ more := by
    intro _ he
    have hlen := congrArg List.length hfi
    rw [he] at hlen
    simp at hlen
    omega
  have hot : ∀ {task : Task}, c.tasks = task :: c'.tasks → task = .deliver c.generation :=
    fun hh => (cons.inj (hh.symm.trans hfi)).1
  cases hsm with
  | terminated | record => exact absurd rfl (hl _)
  | closed => exact absurd (append_assoc _ _ _) (hl _)
  | stale _ hh ho => exact absurd (by rw [hot hh]; rfl) ho
  | collect => exact mem_cons_self
  | failing _ hh | notice _ hh | settleTask _ hh => cases hot hh
  | _ => exact absurd (append_nil _).symm (hl [])

/-! ## The loop that delivers the responses -/

theorem Small.generation (hsm : Small c c') (hg : c'.isOver = false) : c'.generation = c.generation := by
  cases hsm with
  | terminated | close => cases hg
  | _ => rfl

/-- The loop goes on while there are responses. -/
theorem Small.delivering (hsm : Small c c') (hl : c.isLive = true) (hr : c.readyOutcomes ≠ [])
    (h : .delivering c.generation ∈ c.stack) : .delivering c.generation ∈ c'.stack := by
  -- The top frame goes, and it is not the loop.
  have hre : ∀ (after : List Frame) {top : Frame} {rest : List Frame}, c.stack = top :: rest →
      top ≠ .delivering c.generation → .delivering c.generation ∈ after ++ rest := by
    intro after _ rest hto ho
    rw [hto] at h
    exact mem_append_right _ ((mem_cons.1 h).resolve_left (Ne.symm ho))
  have hn : c.stack ≠ [] := ne_nil_of_mem h
  cases hsm with
  | @shift before after rest hto hw hsw =>
    cases hsw with
    | collected _ hla =>
      refine hre [] hto ?_
      intro heq
      cases heq
      rcases hla with hg | hd | hno
      · exact hg rfl
      · rw [hl] at hd
        cases hd
      · exact hr hno
    | nothing => rwa [hto] at h
    | heard =>
      rw [hto] at h
      exact mem_cons_of_mem _ h
    | _ => exact hre _ hto nofun
  | refuse | skip => exact h
  | issue | greet | terminate | cancel | greetFailed | greetDone | deliver => exact mem_cons_of_mem _ h
  | overflow hto | short hto | retire hto | closeOne hto | expireOne hto => exact hre [_, _] hto nofun
  | hand hto | accept hto | acceptLate hto => exact hre [_] hto nofun
  | reset hto | greeted hto | abandon hto | start hto | terminated hto | record hto | forget hto
  | closed hto => exact hre [] hto nofun
  | close => exact mem_append_right _ (mem_cons_of_mem _ h)
  | stale he | collect he | failing he | notice he | settleTask he | expire _ he =>
    exact absurd he hn

/-! ## After the end -/

/-- The client is over, and `close` is not under way. -/
structure Ended (c : ControlClient options) : Prop where
  ended : c.isOver = true
  closing : ∀ frame ∈ c.stack, ∀ calls deferred establishing, frame ≠ .closing calls deferred establishing

theorem Swap.closing {before after rest : List Frame} (hsw : Swap c before after) {frame : Frame}
    (hfr : frame ∈ after ++ rest) :
    frame ∈ before ++ rest ∨ ∀ calls deferred establishing, frame ≠ .closing calls deferred establishing := by
  cases hsw <;> simp_all <;> grind

/-- After the end no task is posted any more. -/
theorem Small.ended (hsm : Small c c') (hp : Phased c.phase c.pending c.stack) (h : Ended c) :
    Ended c' ∧ (c'.tasks = c.tasks ∨ ∃ first, c.tasks = first :: c'.tasks) := by
  have hov := hsm.over h.ended
  have hk : ∀ (after : List Frame) {below : List Frame}, c'.stack = after ++ below →
      (∀ frame ∈ below, frame ∈ c.stack) →
      (∀ frame ∈ after, ∀ calls deferred establishing, frame ≠ .closing calls deferred establishing) → Ended c' := by
    intro after _ hst hbe hafter
    refine ⟨hov, ?_⟩
    intro frame hfr
    rw [hst] at hfr
    rcases mem_append.1 hfr with hfr | hfr
    · exact hafter frame hfr
    · exact h.closing frame (hbe frame hfr)
  have hal : ∀ frame ∈ c.stack, frame ∈ c.stack := fun _ hfr => hfr
  have hpe := hp.none_over h.ended
  have hn : c.isOver ≠ false := by simp [h.ended]
  cases hsm with
  | @shift before after rest hto _ hsw =>
    refine ⟨⟨hov, ?_⟩, .inl rfl⟩
    intro frame hfr
    rcases hsw.closing hfr with ho | hot
    · exact h.closing frame (hto ▸ ho)
    · exact hot
  | refuse | skip => exact ⟨⟨hov, h.closing⟩, .inl rfl⟩
  | issue _ _ _ _ hr => simp [isOver, hr] at hn
  | greet _ _ _ hfre => simp [isOver, hfre] at hn
  | overflow hto | short hto | retire hto | expireOne hto =>
    exact ⟨hk [_, _] rfl (mem_stack_of_top hto) (by simp), .inl rfl⟩
  | hand hto | acceptLate hto => exact ⟨hk [_] rfl (mem_stack_of_top hto) (by simp), .inl rfl⟩
  | accept _ _ _ hc | record _ _ _ hc | cancel _ _ hc | greetFailed _ hc
  | greetDone _ _ _ hc | deliver _ _ _ hc => exact absurd hc (hpe _)
  | reset _ hg | abandon _ _ hg | terminated _ hg | close _ hg => exact absurd hg hn
  | greeted hto | start hto | forget hto => exact ⟨hk [] rfl (mem_stack_of_top hto) (by simp), .inl rfl⟩
  | terminate => exact ⟨hk [_] rfl hal (by simp), .inl rfl⟩
  | closed hto | closeOne hto => exact absurd rfl (h.closing _ (hto ▸ mem_cons_self) _ _ _)
  | stale _ hfi => exact ⟨⟨hov, h.closing⟩, .inr ⟨_, hfi⟩⟩
  | collect _ hfi =>
    exact ⟨hk [_] (show _ = [_] ++ [] from rfl) (fun _ hfr => absurd hfr List.not_mem_nil) (by simp), .inr ⟨_, hfi⟩⟩
  | failing _ hfi =>
    exact ⟨hk [_, _] (show _ = [_, _] ++ [] from rfl) (fun _ hfr => absurd hfr List.not_mem_nil) (by simp), .inr ⟨_, hfi⟩⟩
  | notice _ hfi | settleTask _ hfi => exact ⟨hk [_] rfl hal (by simp), .inr ⟨_, hfi⟩⟩
  | expire =>
    exact ⟨hk [_] (show _ = [_] ++ [] from rfl) (fun _ hfr => absurd hfr List.not_mem_nil) (by simp), .inl rfl⟩

end ControlClient

end Jobu
