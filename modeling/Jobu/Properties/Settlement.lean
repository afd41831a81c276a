import Jobu.Control.Progress

/-!
# Every call of the control client is settled once

`client_settles`: in every run in which the client is closed with care (`Guarded`) a call is settled at
most once, after its start returned it, and as the log says; and if the event loop does its part (`Fair`)
every call that was returned is settled in the end.

The liveness argument: a client that is over posts nothing more, so its tasks run out, and with them what
it owes.  In a client that is never over a call that is never settled stays pending; without a response
the timer fires after its deadline, and with one the loop that delivers the responses takes it.
-/

namespace Jobu

open Lib Control List

namespace ControlClient

variable {options : Options}

/-- A run of the client. -/
abbrev Session (options : Options) : Type := Run step ({} : ControlClient options)

/-- The client is closed with care. -/
def Guarded (run : Session options) : Prop :=
  ∀ i, run.move i = some .close → (run.states i).isOver = false → Careful (run.states i)

/-- The event loop does its part: what was called returns, tasks are run, and a timer that stays set for
some instant at the latest fires at or after it. -/
structure Fair (run : Session options) : Prop where
  returns : ∀ i, ∃ j, i ≤ j ∧ (run.states j).stack = []
  tasks : ∀ i, (run.states i).tasks ≠ [] → ∃ j, i ≤ j ∧ run.move j = some .runTask
  timer : ∀ i deadline, (∀ j, i ≤ j → ∃ due ∈ (run.states j).timer, due ≤ deadline) →
    ∃ j now, i ≤ j ∧ run.move j = some (.timeout now) ∧ deadline ≤ now

section Run

variable {run : Session options} (hguarded : Guarded run)

include hguarded

theorem Guarded.sound (i : Nat) : Sound (run.states i) := by
  refine run.always sound_start ?_ i
  intro j move hm hso
  refine (hso.small (run.moves j move hm) ?_).sound hso
  rintro rfl
  exact hguarded j hm

variable {i : Nat}

theorem Guarded.small {move : Move} (hm : run.move i = some move) : Small (run.states i) (run.states (i + 1)) := by
  refine (hguarded.sound i).small (run.moves i move hm) ?_
  rintro rfl
  exact hguarded i hm

/-- What every step keeps from some state on holds from there on. -/
theorem Guarded.onward {P : ControlClient options → Prop} (h : P (run.states i))
    (hstep : ∀ j, i ≤ j → Small (run.states j) (run.states (j + 1)) → P (run.states j) →
      P (run.states (j + 1))) : ∀ j, i ≤ j → P (run.states j) :=
  run.onward h fun j _ hle hm => hstep j hle (hguarded.small hm)

variable {id : Nat}

theorem Guarded.started (h : id ∈ startedIds (run.states i).log) : ∀ j, i ≤ j → id ∈ startedIds (run.states j).log := by
  refine hguarded.onward (P := fun c => id ∈ startedIds c.log) h ?_
  intro j _ hsm hm
  obtain ⟨_, hl⟩ := hsm.log_grows
  rw [hl, startedIds, filterMap_append]
  exact mem_append_left _ hm

variable (hfa : Fair run)

include hfa

section

variable (hst : id ∈ startedIds (run.states i).log)

include hst

/-- **Once the client is over, what was returned is settled.** -/
theorem Fair.settled_of_over (ho : (run.states i).isOver = true) : ∃ j, id ∈ settledIds (run.states j).log := by
  have hov : ∀ j, i ≤ j → (run.states j).isOver = true :=
    hguarded.onward (P := fun c => c.isOver = true) ho fun j _ hsm => hsm.over
  -- When everything has returned, `close` is not under way, and it does not come again.
  obtain ⟨k, hi, he⟩ := hfa.returns i
  have hen : ∀ j, k ≤ j → Ended (run.states j) := by
    refine hguarded.onward ⟨hov k hi, ?_⟩ ?_
    · rw [he]
      exact fun _ hfr => absurd hfr not_mem_nil
    · intro j _ hsm h
      exact (hsm.ended (hguarded.sound j).phased h).1
  have hse : ∀ j, run.move j = some .runTask →
    ∃ first, (run.states j).tasks = first :: (run.states (j + 1)).tasks :=
    fun j hm => step_runTask (hguarded.sound j) (run.moves j _ hm)
  obtain ⟨l, _, hn⟩ := run.emptied ControlClient.tasks hse hfa.tasks (i := k) (by
    intro j _ hk hm
    exact ((hguarded.small hm).ended (hguarded.sound j).phased (hen j hk)).2)
  have hta : ∀ j, l ≤ j → (run.states j).tasks = [] := by
    refine hguarded.onward (P := fun c => c.tasks = []) hn ?_
    intro j _ hsm hni
    rcases (hsm.ended (hguarded.sound j).phased (hen j (by omega))).2 with hsa | ⟨_, hfi⟩
    · exact hsa.trans hni
    · rw [hni] at hfi
      cases hfi
  -- Then nothing is owed and nothing is pending.
  obtain ⟨m, hl, hsta⟩ := hfa.returns l
  have hso := hguarded.sound m
  refine ⟨m, ?_⟩
  rcases hso.kept.settled_or_held (hguarded.started hst m (by omega)) with hon | hw | how
  · exact count_pos_iff.1 (by rw [show (settledIds _).count id = 1 from hon]; exact Nat.one_pos)
  · obtain ⟨-, call, hc, -⟩ := mem_waitingIds.1 hw
    exact absurd hc (hso.phased.none_over (hov m (by omega)) call)
  have hno : owedIds (run.states m).stack (run.states m).tasks = [] := by
    rw [hsta, hta m hl]
    rfl
  have how : id ∈ owedIds (run.states m).stack (run.states m).tasks := how
  rw [hno] at how
  cases how

/-- A call of a client that is never over stays pending until it is settled: what is owed before the end
has been told when everything has returned. -/
theorem Fair.pending
    (hne : ∀ j, id ∉ settledIds (run.states j).log) (hg : ∀ j, i ≤ j → (run.states j).isOver = false) :
    ∀ j, i ≤ j → ∃ call ∈ (run.states j).pending, call.id = id := by
  intro j _
  by_contra hgo
  have his : ∀ k, i ≤ k → id ∈ issuedIds (run.states k).log :=
    fun k hik => (hguarded.sound k).kept.issued_of_started (hguarded.started hst k hik)
  have hgon : ∀ k, j ≤ k → ¬ ∃ call ∈ (run.states k).pending, call.id = id := by
    refine hguarded.onward (P := fun c => ¬ ∃ call ∈ c.pending, call.id = id) hgo ?_
    rintro k hj hsm hn ⟨_, hc, rfl⟩
    have hr := (hguarded.sound k).real (his k (by omega))
    obtain ⟨old, hol, hi, -⟩ := hsm.traces (hguarded.sound k).numbered hc hr (his k (by omega))
    exact hn ⟨old, hol, hi⟩
  obtain ⟨k, hj, hsta⟩ := hfa.returns j
  have hso := hguarded.sound k
  rcases hso.kept.settled_or_held (hguarded.started hst k (by omega)) with hon | hw | how
  · exact hne k (count_pos_iff.1 (by rw [show (settledIds _).count id = 1 from hon]; exact Nat.one_pos))
  · exact hgon k hj (mem_waitingIds.1 hw).2
  have how : id ∈ owedIds (run.states k).stack (run.states k).tasks := how
  rw [hsta] at how
  obtain ⟨task, hta, hi⟩ := mem_flatMap.1 how
  have he : task.isEnd = true := by
    cases task with
    | deliver => cases hi
    | _ => rfl
  have ho := (hso.retired.tasks task hta he).2
  rw [hg k (by omega)] at ho
  cases ho

omit hfa in
/-- While the call is pending, what no step takes from it stays. -/
theorem Guarded.follow (hw : ∀ j, i ≤ j → ∃ call ∈ (run.states j).pending, call.id = id) {Q : Call → Prop}
    (hk : ∀ old call : Call, old.deadline = call.deadline → (old.wireId ≠ none → call.wireId ≠ none) →
      (old.outcome ≠ none → call.outcome ≠ none) → Q old → Q call)
    {k : Nat} (hik : i ≤ k) {first : Call} (hfi : first ∈ (run.states k).pending) (hid : first.id = id)
    (hQ : Q first) : ∀ j, k ≤ j → ∃ call ∈ (run.states j).pending, call.id = id ∧ Q call := by
  intro j hkj
  induction j, hkj using Nat.le_induction with
  | base => exact ⟨first, hfi, hid, hQ⟩
  | succ j _ ih =>
    cases hm : run.move j with
    | none => exact (run.rests j hm).symm ▸ ih
    | some =>
      have hso := hguarded.sound j
      obtain ⟨_, hbe, hbef, hQ⟩ := ih
      obtain ⟨call, hc, hca⟩ := hw (j + 1) (by omega)
      have hi : call.id ∈ issuedIds (run.states j).log := by
        rw [hca]
        exact hso.kept.issued_of_started (hguarded.started hst j (by omega))
      have hr := hso.real hi
      obtain ⟨old, ho, hsa, hd, hwi, hou⟩ :=
        (hguarded.small hm).traces hso.numbered hc hr hi
      obtain rfl := Table.eq_of_key ho hbe (hsa.trans (hca.trans hbef.symm))
      exact ⟨call, hc, hca, hk old call hd hwi hou hQ⟩

/-- A call does not stay pending without a response: the timer stays set for its deadline, and takes the
call when it fires. -/
theorem Fair.answered (hg : ∀ j, i ≤ j → (run.states j).isOver = false)
    (hw : ∀ j, i ≤ j → ∃ call ∈ (run.states j).pending, call.id = id) :
    ∃ j, i ≤ j ∧ ∃ call ∈ (run.states j).pending, call.id = id ∧ call.outcome ≠ none := by
  by_contra hal
  have hn : ∀ j, i ≤ j → ∀ call ∈ (run.states j).pending, call.id = id → call.outcome = none := by
    intro j hi call hc hid
    by_contra hsom
    exact hal ⟨j, hi, call, hc, hid, hsom⟩
  obtain ⟨first, hfi, hfir⟩ := hw i (Nat.le_refl i)
  have hbo : first.wireId ≠ none := by
    have hso := hguarded.sound i
    have hre : first.id ∉ openedIds (run.states i).stack := by
      rw [hfir]
      exact hso.kept.not_opened_of_started hst
    have hr : first.id ≠ 0 := by
      rw [hfir]
      exact hso.real (hso.kept.issued_of_started hst)
    have hse := hso.unmarked.sent hfi hr hre
    rw [hso.wired.bound first hfi] at hse
    exact Option.isSome_iff_ne_none.1 hse
  have hc := hguarded.follow hst hw
    (Q := fun call => call.deadline = first.deadline ∧ call.wireId ≠ none)
    (fun old call hsa hwi _ hQ => ⟨hsa.symm.trans hQ.1, hwi hQ.2⟩) (Nat.le_refl i) hfi hfir
    ⟨rfl, hbo⟩
  obtain ⟨j, _, hi, hm, hl⟩ := hfa.timer i first.deadline (by
    intro j hi
    obtain ⟨call, hp, hid, hd, hwi⟩ := hc j hi
    rw [← hd]
    exact (hguarded.sound j).timely call hp (hn j hi call hp hid) hwi)
  obtain ⟨call, hp, hid, hd, -⟩ := hc j hi
  rcases step_timeout (run.moves j _ hm) hp (hd ▸ hl) (hn j hi call hp hid) with
    ho | hgo
  · rw [hg (j + 1) (by omega)] at ho
    cases ho
  · obtain ⟨other, hot, hoth⟩ := hw (j + 1) (by omega)
    exact hgo other hot (hoth.trans hid.symm)

end

/-- A response does not stay in the queue of a client that is never over: the loop that delivers the
responses goes on until it has taken it. -/
theorem Fair.taken (id : Nat) (hg : ∀ j, i ≤ j → (run.states j).isOver = false) :
    ∃ j, i ≤ j ∧ ¬ (id ∈ (run.states j).readyOutcomes ∧ (run.states j).isLive = true) := by
  by_contra hal
  have hr : ∀ j, i ≤ j → id ∈ (run.states j).readyOutcomes ∧ (run.states j).isLive = true := by
    intro j hij
    by_contra hn
    exact hal ⟨j, hij, hn⟩
  have hge : ∀ j, i ≤ j → (run.states j).generation = (run.states i).generation := by
    refine hguarded.onward (P := fun c => c.generation = (run.states i).generation) rfl ?_
    intro j _ hsm hsa
    exact (hsm.generation (hg (j + 1) (by omega))).trans hsa
  obtain ⟨k, hi, hst⟩ := hfa.returns i
  have hp : .deliver (run.states i).generation ∈ (run.states k).tasks := by
    have hso := hguarded.sound k
    obtain ⟨hme, hli⟩ := hr k hi
    have hsc := (hso.collecting hli (ne_nil_of_mem hme)).resolve_right (by
      rw [hst]
      exact not_mem_nil)
    have hp := (hso.posted hsc).resolve_left (by simp [hg k hi])
    rwa [hge k hi] at hp
  obtain ⟨ahead, behind, hsp⟩ := append_of_mem hp
  obtain ⟨l, _, ⟨move, hm⟩, hh⟩ := run.served ControlClient.tasks
    (fun j hm => step_runTask (hguarded.sound j) (run.moves j _ hm)) hfa.tasks
    (fun j move hm => (hguarded.small hm).tasks) _ ahead k behind hsp
  have hl : .delivering (run.states i).generation ∈ (run.states (l + 1)).stack := by
    have hsm := hguarded.small hm
    rw [← hge l (by omega)] at hh ⊢
    exact hsm.collects hh
  have hlo : ∀ m, l + 1 ≤ m → .delivering (run.states i).generation ∈ (run.states m).stack := by
    refine hguarded.onward (P := fun c => .delivering (run.states i).generation ∈ c.stack) hl ?_
    intro m hlm hsm hme
    obtain ⟨hq, hli⟩ := hr m (by omega)
    rw [← hge m (by omega)] at hme ⊢
    exact hsm.delivering hli (ne_nil_of_mem hq) hme
  obtain ⟨m, hlm, he⟩ := hfa.returns (l + 1)
  have hme := hlo m hlm
  rw [he] at hme
  cases hme

/-- **What was returned is settled.** -/
theorem Fair.settled (hst : id ∈ startedIds (run.states i).log) : ∃ j, id ∈ settledIds (run.states j).log := by
  by_contra hn
  have hn : ∀ j, id ∉ settledIds (run.states j).log := fun j hj => hn ⟨j, hj⟩
  have hg : ∀ j, i ≤ j → (run.states j).isOver = false := by
    intro j hi
    by_contra ho
    obtain ⟨k, hk⟩ := hfa.settled_of_over hguarded (hguarded.started hst j hi)
      (Bool.eq_true_of_not_eq_false ho)
    exact hn k hk
  have hw := hfa.pending hguarded hst hn hg
  obtain ⟨_, hi, call, hc, hid, hsom⟩ := hfa.answered hguarded hst hg hw
  have han := hguarded.follow hst hw (Q := fun call => call.outcome ≠ none)
    (fun old call _ _ hou => hou) hi hc hid hsom
  obtain ⟨k, hjk, hgo⟩ := hfa.taken hguarded id fun k hjk => hg k (hi.trans hjk)
  obtain ⟨late, hl, rfl, hla⟩ := han k hjk
  have hso := hguarded.sound k
  refine hgo ⟨hso.wired.queued late hl hla, ?_⟩
  by_contra hd
  have hd : (run.states k).phase ≠ .initializing ∧ (run.states k).phase ≠ .ready := by
    simpa [isLive] using hd
  exact hso.phased.idle hd.1 hd.2 late hl

end Run

/-! ## The result -/

/-- **Every call is settled once.** -/
theorem client_settles (run : Session options) (hguarded : Guarded run) : (∀ i,
    -- no identifier is used twice, and none is settled twice or before its start has returned it
    (issuedIds (run.states i).log).Nodup ∧ (settledIds (run.states i).log).Nodup ∧
    (∀ id ∈ settledIds (run.states i).log, id ∈ startedIds (run.states i).log) ∧
    -- a start that failed settles nothing
    (∀ id ∈ abandonedIds (run.states i).log, id ∉ settledIds (run.states i).log) ∧
    -- a settlement is what the responses and the device say
    ∀ id settlement, .settled id settlement ∈ (run.states i).log → Right (run.states i).log id settlement) ∧
    -- what was returned is settled in the end
    (Fair run → ∀ i, ∀ id ∈ startedIds (run.states i).log, ∃ j, id ∈ settledIds (run.states j).log) := by
  refine ⟨?_, ?_⟩
  · intro i
    have hso := hguarded.sound i
    refine ⟨hso.kept.once, ?_, hso.kept.inOrder, ?_, hso.facts.settled⟩
    · exact nodup_iff_count_le_one.2 hso.kept.at_most_one
    · exact fun id => hso.kept.not_settled_of_abandoned
  · intro hfa i id hst
    exact hfa.settled hguarded hst

/-- A peer whose replies are all alike. -/
def quick : Options where
  Reply := Unit
  decodeReply _ _ := some ()
  systemInfoFromJson _ := some ⟨1, 7, ["job.create", "job.get"]⟩

/-- The handshake. -/
def greeting : List Move :=
  [.initializeClient 0 5000 .written, .work, .wrote (some 1), .resume, .work,
    .respond 1 (.result .null), .resume, .runTask, .work, .resume, .work]

/-- A call that is answered, and one that is pending when the client is closed. -/
def ordinary : List Move :=
  greeting ++ [.start .createJob (some (.ok (.object []))) 0 5000 .written, .work, .wrote (some 2), .resume,
    .work, .start .createJob (some (.ok (.object []))) 0 5000 .written, .work, .wrote (some 3), .resume, .work,
    .respond 2 (.result .null), .resume, .runTask, .work, .resume, .work, .close, .work, .resume, .work]

def ordinarySession : Session quick := .ofMoves ordinary (by decide +kernel)

theorem client_settles_ordinary : Guarded ordinarySession ∧ Fair ordinarySession ∧
    (∃ j, 1 ∈ settledIds (ordinarySession.states j).log) ∧ ∃ j, 2 ∈ settledIds (ordinarySession.states j).log := by
  have hla : ∀ i, 31 ≤ i → ordinarySession.states i = ordinarySession.states 31 :=
    fun i hi => Run.ofMoves_last _ _ hi
  have hcl : ∀ i < 31, (ordinary[i]?.any fun | .close => true | _ => false) = true → i = 27 := by decide
  have hguarded : Guarded ordinarySession := by
    intro i hm _
    have hlt : i < 31 := (List.getElem?_eq_some_iff.1 hm).1
    obtain rfl := hcl i hlt (by rw [show ordinary[i]? = some .close from hm]; rfl)
    have hsta : (ordinarySession.states 27).stack = [] := rfl
    intro id hid
    rw [hsta] at hid
    cases hid
  have hfa : Fair ordinarySession := by
    refine ⟨?_, ?_, ?_⟩
    · intro i
      refine ⟨max i 31, le_max_left _ _, ?_⟩
      rw [hla _ (le_max_right _ _)]
      rfl
    · intro i hta
      have hn : ∀ i < 32, 23 < i → (ordinarySession.states i).tasks.length = 0 := by decide +kernel
      refine ⟨23, ?_, rfl⟩
      by_contra hl
      refine hta (length_eq_zero_iff.1 ?_)
      by_cases hi : i < 32
      · exact hn i hi (by omega)
      · rw [hla i (by omega)]
        exact hn 31 (by omega) (by omega)
    · intro i deadline hset
      obtain ⟨due, hdu, -⟩ := hset (max i 31) (le_max_left _ _)
      rw [hla _ (le_max_right _ _)] at hdu
      cases hdu
  obtain ⟨-, hse⟩ := client_settles ordinarySession hguarded
  have hst : startedIds (ordinarySession.states 31).log = [1, 2] := by decide +kernel
  exact ⟨hguarded, hfa, hse hfa 31 1 (by rw [hst]; decide),
    hse hfa 31 2 (by rw [hst]; decide)⟩

/-- During the write of a call another call is refused, and then the client is closed. -/
def overwriting : List Move :=
  greeting ++ [.start .createJob (some (.ok (.object []))) 0 5000 .written, .work,
    .start .getJob (some (.ok (.object []))) 0 5000 .written, .work, .work, .close, .work]

def overwritten : ControlClient quick :=
  (moves step ({} : ControlClient quick) overwriting).get (by decide +kernel)

/-- The call that was refused has taken the place of the one in its write, so `close` does not know that
the start of that one has yet to return, and that its frame is with the device. -/
theorem client_settles_too_early : Reaches step ({} : ControlClient quick) overwritten ∧
    .settled 1 (.unobserved closedError false) ∈ overwritten.log ∧ 1 ∉ startedIds overwritten.log ∧
    .issued 1 .createJob ∈ overwritten.log ∧ .handed 1 ∈ overwritten.log ∧
    ∀ answer, .received 1 answer ∉ overwritten.log := by
  have hlo : overwritten.log = [.handed 0, .received 0 (.result .null), .ready, .issued 1 .createJob,
    .handed 1, .issued 2 .getJob, .abandoned 2 Rpc.Client.reentrantWriteError,
    .settled 1 (.unobserved closedError false)] := rfl
  refine ⟨.of_moves .start (Option.some_get _).symm, ?_⟩
  rw [hlo]
  refine ⟨by simp, by simp [startedIds], by simp, by simp, by simp⟩

end ControlClient

end Jobu
