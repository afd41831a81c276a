import Jobu.Control.Invariant

/-!
# Frames on their way to the device

A call whose frame the RPC client has accepted is marked as possibly sent.  A pending call that is not
marked has its start under way (`Unsent`): either the client's own code is about to go on with it, or the
RPC client is in the write of its frame and the error with which it ends tells whether the device got
the frame.
-/

namespace Jobu

open List

namespace Control

/-- A call whose start is under way, and whether the RPC client has accepted it. -/
@[simp] def Frame.mark : Frame → Option (Nat × Bool)
  | .entering id _ | .writing id => some (id, false)
  | .reading id _ | .returning id (.ok _) => some (id, true)
  | _ => none

end Control

open Rpc.Client (outputLimitError shortWriteError)
open Lib Control Table Frame

namespace ControlClient

variable {options : Options} {c c' : ControlClient options}

/-- The client's own code at the top of the stack is about this call. -/
def Busy (id : Nat) (stack : List Frame) : Prop :=
  ∃ top ∈ stack.head?, top.isBusy = true ∧ top.opened = some id

/-- A call that was not accepted: its start is under way.  Where the client's own code is not about to
go on with it, the RPC client is in the write, and the error that ends the RPC client tells whether the
frame was given to the device. -/
structure Unsent (rpcClosed : Bool) (stack : List Frame) (log : List (Event options.Reply)) (id : Nat) : Prop where
  opened : id ∈ openedIds stack
  known : Busy id stack ∨ ((rpcClosed = false → .writing id ∈ stack) ∧
    ∀ error, .terminating error ∈ stack → (mayHaveSent error = true ↔ .handed id ∈ log))

section Unsent

variable {closed : Bool} {stack rest : List Frame} {top : Frame} {log events : List (Event options.Reply)} {id : Nat}

theorem not_busy_of_waits (hw : ∀ top ∈ stack.head?, top.isBusy = false) : ¬ Busy id stack := by
  rintro ⟨top, hto, hbu, -⟩
  rw [hw top hto] at hbu
  cases hbu

theorem not_busy_of_other (ho : top.opened ≠ some id) : ¬ Busy id (top :: rest) := by
  rintro ⟨_, hto, -, hop⟩
  cases hto
  exact ho hop

theorem Unsent.append (h : Unsent closed stack log id) (hh : .handed id ∉ events) :
    Unsent closed stack (log ++ events) id := by
  refine ⟨h.opened, h.known.imp_right ?_⟩
  rintro ⟨hw, hte⟩
  exact ⟨hw, fun error he => (hte error he).trans (by simp [hh])⟩

theorem Unsent.push (h : Unsent closed stack log id) (hw : ∀ top ∈ stack.head?, top.isBusy = false)
    (hte : ∀ error, top ≠ .terminating error) : Unsent closed (top :: stack) log id := by
  obtain ⟨hwr, hter⟩ := h.known.resolve_left (not_busy_of_waits hw)
  refine ⟨?_, .inr ⟨fun ho => mem_cons_of_mem _ (hwr ho), ?_⟩⟩
  · rw [openedIds_cons]
    exact mem_append_right _ h.opened
  · intro error he
    rcases mem_cons.1 he with heq | he
    · exact absurd heq.symm (hte error)
    · exact hter error he

/-- Frames take the place of one that is not about the call. -/
theorem Unsent.replace (h : Unsent closed (top :: rest) log id) (hot : top.opened ≠ some id)
    (hr : id ≠ 0) (after : List Frame) (hte : ∀ error, .terminating error ∉ after) :
    Unsent closed (after ++ rest) log id := by
  obtain ⟨hw, hter⟩ := h.known.resolve_left (not_busy_of_other hot)
  refine ⟨?_, .inr ⟨?_, ?_⟩⟩
  · have hop := h.opened
    rw [openedIds_cons] at hop
    rcases mem_append.1 hop with hop | hop
    · exact absurd (Option.mem_toList.1 hop) hot
    · rw [openedIds, filterMap_append]
      exact mem_append_right _ hop
  · intro ho
    rcases mem_cons.1 (hw ho) with heq | hm
    · exact absurd (by rw [← heq]; exact if_neg hr) hot
    · exact mem_append_right _ hm
  · intro error he
    rcases mem_append.1 he with he | he
    · exact absurd he (hte error)
    · exact hter error (mem_cons_of_mem _ he)

theorem not_unsent_nil : ¬ Unsent closed ([] : List Frame) log id := fun h => nomatch h.opened

end Unsent

/-- The writes of the RPC client. -/
structure Writes (rpcClosed ended : Bool) (stack : List Frame) (log : List (Event options.Reply)) : Prop where
  running : rpcClosed = false → ∀ error, .terminating error ∉ stack
  handed : ∀ id, .writing id ∈ stack → .handed id ∈ log
  single : stack.countP Frame.isWriting ≤ 1
  entering : ∀ frame ∈ stack.tail, ∀ id taken, frame ≠ .entering id taken
  fresh : ∀ id taken, stack.head? = some (.entering id taken) →
    ended = false ∧ (id ≠ 0 → .handed id ∉ log)

section Writes

variable {closed closed' ended ended' : Bool} {stack before rest : List Frame} {top : Frame}
  {log : List (Event options.Reply)}

theorem Writes.no_entering (h : Writes closed ended (top :: rest) log) :
    ∀ frame ∈ rest, ∀ id taken, frame ≠ .entering id taken := h.entering

theorem Writes.none_entering (h : Writes closed ended stack log) (hw : ∀ top ∈ stack.head?, top.isBusy = false) :
    ∀ frame ∈ stack, ∀ id taken, frame ≠ .entering id taken := by
  cases stack with
  | nil => simp
  | cons =>
    intro frame hfr id taken he
    rcases mem_cons.1 hfr with rfl | hfr
    · have := hw frame rfl
      rw [he] at this
      cases this
    · exact h.entering frame hfr id taken he

/-- Frames that write nothing take the place of others. -/
theorem Writes.replace (h : Writes closed ended (before ++ rest) log)
    (hr : ∀ frame ∈ rest, ∀ id taken, frame ≠ .entering id taken) (after : List Frame)
    (events : List (Event options.Reply)) (hp : ∀ frame ∈ after, frame.isWriting = false)
    (hen : ∀ frame ∈ after, ∀ id taken, frame ≠ .entering id taken)
    (hru : closed' = false → closed = false ∧ ∀ error, .terminating error ∉ after) :
    Writes closed' ended' (after ++ rest) (log ++ events) where
  running ho error he := by
    obtain ⟨hwa, hn⟩ := hru ho
    rcases mem_append.1 he with he | he
    · exact hn error he
    · exact h.running hwa error (mem_append_right _ he)
  handed id hw := by
    refine mem_append_left _ (h.handed id (mem_append_right _ ?_))
    rcases mem_append.1 hw with hw | hw
    · exact nomatch hp _ hw
    · exact hw
  single := by
    have hsi := h.single
    have hn : after.countP Frame.isWriting = 0 :=
      countP_eq_zero.2 fun frame hfr => by simp [hp frame hfr]
    rw [countP_append] at hsi ⊢
    omega
  entering frame hfr id taken := by
    rcases mem_append.1 (mem_of_mem_tail hfr) with hfr | hfr
    · exact hen frame hfr id taken
    · exact hr frame hfr id taken
  fresh id taken hh := by
    rcases mem_append.1 (mem_of_mem_head? hh) with hfr | hfr
    · exact absurd rfl (hen _ hfr id taken)
    · exact absurd rfl (hr _ hfr id taken)

end Writes

variable {log : List (Event options.Reply)} {stack : List Frame} {closed ended : Bool}

theorem Writes.enter {ended' : Bool} {id : Nat}
    (h : Writes closed ended stack log) (hw : ∀ top ∈ stack.head?, top.isBusy = false) (taken : Taken)
    (events : List (Event options.Reply)) (hg : ended' = false) (hfr : id ≠ 0 → .handed id ∉ log ++ events) :
    Writes closed ended' (.entering id taken :: stack) (log ++ events) where
  running ho error he := by
    rcases mem_cons.1 he with heq | he
    · cases heq
    · exact h.running ho error he
  handed other hwr := by
    rcases mem_cons.1 hwr with heq | hwr
    · cases heq
    · exact mem_append_left _ (h.handed other hwr)
  single := by
    rw [countP_cons_of_neg (by simp [Frame.isWriting])]
    exact h.single
  entering := h.none_entering hw
  fresh other taken' hh := by
    cases hh
    exact ⟨hg, hfr⟩

variable {rest : List Frame} {taken : Taken}

theorem Writes.hand {id : Nat} (h : Writes closed ended (.entering id taken :: rest) log)
    (hi : rest.any Frame.isWriting = false) :
    Writes closed ended (.writing id :: rest) (log ++ [.handed id]) where
  running ho error he := by
    rcases mem_cons.1 he with heq | he
    · cases heq
    · exact h.running ho error (mem_cons_of_mem _ he)
  handed other hw := by
    rcases mem_cons.1 hw with heq | hw
    · cases heq
      simp
    · exact mem_append_left _ (h.handed other (mem_cons_of_mem _ hw))
  single := by
    have hn : rest.countP Frame.isWriting = 0 :=
      countP_eq_zero.2 fun frame hfr => any_eq_false.1 hi frame hfr
    rw [countP_cons, hn]
    simp [Frame.isWriting]
  entering := h.no_entering
  fresh other taken' hh := nomatch hh

theorem Writes.tell {events : List (Event options.Reply)}
    (h : Writes closed ended stack log) (he : ∀ id, .handed id ∉ events) :
    Writes closed ended stack (log ++ events) where
  running := h.running
  handed id hw := List.mem_append_left _ (h.handed id hw)
  single := h.single
  entering := h.entering
  fresh id taken hh := by
    obtain ⟨hg, hfr⟩ := h.fresh id taken hh
    refine ⟨hg, ?_⟩
    intro hr hm
    rcases mem_append.1 hm with hm | hm
    · exact hfr hr hm
    · exact he id hm

theorem Small.writes (hsm : Small c c') (hnum : Numbered c)
    (hh : ∀ id, .handed id ∈ c.log → id = 0 ∨ id ∈ issuedIds c.log)
    (h : Writes c.rpcClosed c.isOver c.stack c.log) :
    Writes c'.rpcClosed c'.isOver c'.stack c'.log := by
  obtain ⟨events, hlo⟩ := hsm.log_grows
  rw [hlo]
  -- Frames take the place of the top one, or are pushed by others or by a loop.
  have hr : ∀ {top : Frame} {rest : List Frame} {closed' ended' : Bool} (after : List Frame),
    c.stack = top :: rest → (∀ frame ∈ after, frame.isWriting = false) →
    (∀ frame ∈ after, ∀ id taken, frame ≠ .entering id taken) →
    (closed' = false → c.rpcClosed = false ∧ ∀ error, .terminating error ∉ after) →
    Writes closed' ended' (after ++ rest) (c.log ++ events) := by
    intro top rest closed' ended' after hto hpl hen hru
    rw [hto] at h
    exact Writes.replace (show Writes _ _ ([top] ++ rest) _ from h) h.no_entering after events hpl
      hen hru
  have hp : ∀ {closed' ended' : Bool} (after : List Frame), Waits c →
    (∀ frame ∈ after, frame.isWriting = false) → (∀ frame ∈ after, ∀ id taken, frame ≠ .entering id taken) →
    (closed' = false → c.rpcClosed = false ∧ ∀ error, .terminating error ∉ after) →
    Writes closed' ended' (after ++ c.stack) (c.log ++ events) := by
    intro _ ended' after hw hpl hen hru
    exact Writes.replace (show Writes _ _ ([] ++ c.stack) _ from h) (h.none_entering hw) after events
      hpl hen hru
  have he : c.stack = [] → Waits c := by
    intro he
    simp [Waits, he]
  have hal : ∀ {ended' : Bool} (after : List Frame), c.stack = [] → (∀ frame ∈ after, frame.isWriting = false) →
    (∀ frame ∈ after, ∀ id taken, frame ≠ .entering id taken) →
    (∀ error, .terminating error ∉ after) → Writes c.rpcClosed ended' after (c.log ++ events) := by
    intro ended' after hn hpl hen hno
    have hwr : Writes c.rpcClosed ended' (after ++ c.stack) (c.log ++ events) :=
      hp after (he hn) hpl hen fun ho => ⟨ho, hno⟩
    rwa [hn, append_nil] at hwr
  have htol : ∀ {ended' : Bool}, (c.stack = [] ∨ ∃ rest, c.stack = .delivering c.generation :: rest) →
    Writes c.rpcClosed ended' (.telling :: c.stack) (c.log ++ events) := by
    intro _ hl
    have hno : ∀ frame ∈ c.stack, ∀ id taken, frame ≠ .entering id taken := by
      rcases hl with hn | ⟨rest, hto⟩
      · exact h.none_entering (he hn)
      · rw [hto] at h ⊢
        exact forall_mem_cons.2 ⟨by simp, h.no_entering⟩
    exact Writes.replace (show Writes _ _ ([] ++ c.stack) _ from h) hno [_] events
      (by simp [Frame.isWriting]) (by simp) (fun ho => ⟨ho, by simp⟩)
  cases hsm with
  | @shift before after rest hto hw hsw =>
    have hre : ∀ frame ∈ rest, ∀ id taken, frame ≠ .entering id taken := by
      cases before with
      | nil =>
        rw [nil_append] at hto
        exact hto ▸ h.none_entering (hw rfl)
      | cons =>
        rw [hto] at h
        intro frame hfr
        exact h.no_entering frame (mem_append_right _ hfr)
    refine Writes.replace (hto ▸ h) hre after events ?_ ?_ ?_
    · cases hsw <;> simp [Frame.isWriting]
    · cases hsw <;> simp
    · intro ho
      refine ⟨ho, ?_⟩
      cases hsw <;> simp
  | refuse error =>
    have hev : events = [.refused error] := (append_cancel_left hlo).symm
    subst hev
    exact h.tell (by simp)
  | issue method _ taken hw hrea hnu =>
    have hev : events = [.issued c.nextId method] := (append_cancel_left hlo).symm
    subst hev
    refine h.enter hw taken _ (by simp [isOver, push, emit, hrea]) ?_
    intro _ hm
    rcases mem_append.1 hm with hm | hm
    · rcases hh _ hm with hz | his
      · exact hnu hz
      · exact absurd (hnum.resolve_left hnu _ his) (lt_irrefl _)
    · simp at hm
  | greet _ taken hw => exact h.enter hw taken events rfl (by simp)
  | overflow hto | short hto => exact hr [_, _] hto (by simp [Frame.isWriting]) (by simp) (by simp)
  | @hand id taken rest hto _ hi =>
    have hev : events = [.handed id] := (append_cancel_left hlo).symm
    subst hev
    rw [hto] at h
    exact h.hand hi
  | accept hto | acceptLate hto =>
    exact hr [_] hto (by simp [Frame.isWriting]) (by simp) (fun ho => ⟨ho, by simp⟩)
  | reset hto | greeted hto | abandon hto | start hto | terminated hto | record hto | forget hto
  | closed hto => exact hr [] hto (by simp) (by simp) (fun ho => ⟨ho, by simp⟩)
  | terminate _ hw => exact hp [_] hw (by simp [Frame.isWriting]) (by simp) (by simp)
  | cancel hw => exact hp [_] hw (by simp [Frame.isWriting]) (by simp) (fun ho => ⟨ho, by simp⟩)
  | close hw _ _ loud =>
    cases loud with
    | true => exact hp [_, _] hw (by simp [Frame.isWriting]) (by simp) (fun ho => ⟨ho, by simp⟩)
    | false => exact hp [_] hw (by simp [Frame.isWriting]) (by simp) (fun ho => ⟨ho, by simp⟩)
  | stale hn => exact hp [] (he hn) (by simp) (by simp) (fun ho => ⟨ho, by simp⟩)
  | collect hn | expire _ hn => exact hal [_] hn (by simp [Frame.isWriting]) (by simp) (by simp)
  | failing hn => exact hal [_, _] hn (by simp [Frame.isWriting]) (by simp) (by simp)
  | notice hn | settleTask hn =>
    exact hp [_] (he hn) (by simp [Frame.isWriting]) (by simp) (fun ho => ⟨ho, by simp⟩)
  | skip => exact hlo ▸ h
  | greetFailed _ _ _ hl => exact htol hl
  | greetDone hto | deliver hto => exact htol (.inr ⟨_, hto⟩)
  | retire hto | closeOne hto | expireOne hto =>
    exact hr [_, _] hto (by simp [Frame.isWriting]) (by simp) (fun ho => ⟨ho, by simp⟩)

/-! ## Marks -/

/-- A call is marked as possibly sent from when the RPC client accepts it. -/
def Marked (c : ControlClient options) : Prop :=
  ∀ frame ∈ c.stack, ∀ mark ∈ frame.mark, mark.1 ≠ 0 → ∀ call ∈ c.pending, call.id = mark.1 → call.possiblySent = mark.2

theorem Marked.keep (h : Marked c) (hst : ∀ frame ∈ c'.stack, ∀ mark ∈ frame.mark, ∃ old ∈ c.stack, mark ∈ old.mark)
    (hp : ∀ call ∈ c'.pending, ∃ old ∈ c.pending, old.id = call.id ∧
      old.possiblySent = call.possiblySent) : Marked c' := by
  intro frame hfr mark hm hr call hc hsa
  obtain ⟨frame, ho, hm⟩ := hst frame hfr mark hm
  obtain ⟨old, hca, hsam, hse⟩ := hp call hc
  exact hse.symm.trans (h frame ho mark hm hr old hca (hsam.trans hsa))

theorem Swap.mark {before after : List Frame} (hsw : Swap c before after) :
    ∀ frame ∈ after ++ rest, ∀ mark ∈ frame.mark, ∃ old ∈ before ++ rest, mark ∈ old.mark := by
  cases hsw <;> simp <;> grind [mark]

theorem Marked.top (h : Marked c) (after : List Frame) {top : Frame}
    (hto : c.stack = top :: rest) (hst : c'.stack = after ++ rest)
    (hn : ∀ frame ∈ after, ∀ mark ∈ frame.mark, mark ∈ top.mark)
    (hp : ∀ call ∈ c'.pending, call ∈ c.pending) : Marked c' := by
  refine h.keep ?_ fun call hc => ⟨call, hp call hc, rfl, rfl⟩
  intro frame hfr mark hm
  rw [hst] at hfr
  rcases mem_append.1 hfr with hfr | hfr
  · exact ⟨top, hto ▸ mem_cons_self, hn frame hfr mark hm⟩
  · exact ⟨frame, hto ▸ mem_cons_of_mem _ hfr, hm⟩

theorem Marked.pushed (h : Marked c) (after : List Frame) (hst : c'.stack = after ++ c.stack)
    (hn : ∀ frame ∈ after, frame.mark = none) (hp : ∀ call ∈ c'.pending, call ∈ c.pending) : Marked c' := by
  refine h.keep ?_ fun call hc => ⟨call, hp call hc, rfl, rfl⟩
  intro frame hfr _ hm
  rw [hst] at hfr
  rcases mem_append.1 hfr with hfr | hfr
  · rw [hn frame hfr] at hm
    cases hm
  · exact ⟨frame, hfr, hm⟩

theorem marked_of_empty (he : ∀ call, call ∉ c'.pending) : Marked c' := by
  intro _ _ _ _ _ call hc
  exact absurd hc (he call)

variable {call : Call}

theorem Marked.insert (h : Marked c) (hm : call.possiblySent = false)
    (hn : call.id ≠ 0 → call.id ∉ openedIds c.stack ∧ ∀ old ∈ c.pending, old.id ≠ call.id)
    (hop : ∀ frame ∈ c.stack, ∀ mark ∈ frame.mark, mark.1 ≠ 0 → mark.1 ∈ openedIds c.stack)
    (hst : c'.stack = .entering call.id taken :: c.stack)
    (hp : c'.pending = c.pending.insert call) : Marked c' := by
  intro frame hfr mark hma hr other ho hsa
  rw [hp] at ho
  rw [hst] at hfr
  rcases mem_of_mem_insert ho with rfl | hol
  · rcases mem_cons.1 hfr with rfl | hbe
    · cases hma
      exact hm
    · have := hop frame hbe mark hma hr
      rw [← hsa] at this hr
      exact absurd this (hn hr).1
  rcases mem_cons.1 hfr with rfl | hbe
  · cases hma
    exact absurd hsa ((hn hr).2 other hol)
  · exact h frame hbe mark hma hr other hol hsa

theorem opened_of_mark {stack : List Frame} {frame : Frame} (hfr : frame ∈ stack) {mark : Nat × Bool}
    (hm : mark ∈ frame.mark) (hr : mark.1 ≠ 0) : mark.1 ∈ openedIds stack := by
  refine mem_filterMap.2 ⟨frame, hfr, ?_⟩
  cases frame with
  | entering | writing | reading =>
    cases hm
    exact if_neg hr
  | returning _ result =>
    cases result with
    | error => cases hm
    | ok =>
      cases hm
      exact if_neg hr
  | _ => cases hm

theorem Small.marked (hsm : Small c c') (hnum : Numbered c) (hk : (tickets c).Kept)
    (h : Marked c) : Marked c' := by
  have hsa : ∀ call ∈ c.pending, call ∈ c.pending := fun _ hc => hc
  have hfe : ∀ {p : Call → Bool}, ∀ call ∈ c.pending.delete p, call ∈ c.pending :=
    fun call hc => (mem_delete.1 hc).1
  have he : ∀ call : Call, call ∉ (Table.empty : Table Call) := not_mem_empty
  have hop : ∀ frame ∈ c.stack, ∀ mark ∈ frame.mark, mark.1 ≠ 0 → mark.1 ∈ openedIds c.stack :=
    fun frame hfr mark hm => opened_of_mark hfr hm
  cases hsm with
  | @shift before after rest hto _ hsw =>
    refine h.keep ?_ fun call hc => ⟨call, hc, rfl, rfl⟩
    intro frame hfr
    rw [hto]
    exact hsw.mark frame hfr
  | refuse | stale | skip => exact h.pushed [] rfl (by simp) hsa
  | issue _ _ _ _ _ hnu =>
    have hne : c.nextId ∉ issuedIds c.log := by
      intro his
      exact absurd (hnum.resolve_left hnu _ his) (lt_irrefl _)
    refine h.insert rfl ?_ hop rfl rfl
    intro _
    refine ⟨fun hme => hne (hk.issued_of_opened hme), ?_⟩
    intro old ho hi
    exact hne (hk.issued_of_waiting (mem_waitingIds.2 ⟨hnu, old, ho, hi⟩))
  | greet => exact h.insert rfl (fun hr => absurd rfl hr) hop rfl rfl
  | overflow hto | short hto | retire hto | closeOne hto | expireOne hto =>
    exact h.top [_, _] hto rfl (by simp) hsa
  | hand hto => exact h.top [_] hto rfl (by simp) hsa
  | @accept id wire rest hto _ _ call hc hca =>
    intro frame hfr mark hm hr late hl hla
    rcases (mem_modify (f := Call.bind wire) fun _ => rfl).1 hl with
      ⟨old, ho, hi, rfl⟩ | ⟨ho, hot⟩
    · rcases mem_cons.1 hfr with rfl | hbe
      · cases hm
        rfl
      -- The start of the call is on the stack once.
      have hag := opened_of_mark hbe hm hr
      have htw := hk.opened_once mark.1
      have hi : id = mark.1 := hi.symm.trans hla
      have hco := count_pos_iff.2 hag
      simp only [tickets, hto, openedIds_cons, opened, hi, if_neg hr, Option.toList_some,
        singleton_append, count_cons_self] at htw
      omega
    · rcases mem_cons.1 hfr with rfl | hbe
      · cases hm
        exact absurd hla hot
      · exact h frame (hto ▸ mem_cons_of_mem _ hbe) mark hm hr late ho hla
  | @acceptLate id wire rest hto _ _ hg =>
    intro frame hfr mark hm hr late hl hla
    rcases mem_cons.1 hfr with rfl | hbe
    · cases hm
      exact absurd hla (find?_eq_none.1 hg late hl)
    · exact h frame (hto ▸ mem_cons_of_mem _ hbe) mark hm hr late hl hla
  | reset | terminated | close | greetFailed => exact marked_of_empty he
  | greeted hto | start hto | forget hto | closed hto => exact h.top [] hto rfl (by simp) hsa
  | abandon hto => exact h.top [] hto rfl (by simp) hfe
  | terminate | notice | settleTask => exact h.pushed [_] rfl (by simp) hsa
  | @record _ answer _ hto =>
    refine h.keep ?_ ?_
    · intro frame hfr mark hm
      exact ⟨frame, hto ▸ mem_cons_of_mem _ hfr, hm⟩
    intro call hc
    rcases (mem_modify (f := Call.answered answer) fun _ => rfl).1 hc with
      ⟨old, ho, -, rfl⟩ | ⟨ho, -⟩
    · exact ⟨old, ho, rfl, rfl⟩
    · exact ⟨call, ho, rfl, rfl⟩
  | cancel | greetDone | deliver => exact h.pushed [_] rfl (by simp) hfe
  | collect hn => exact h.pushed [.delivering c.generation] (by simp [hn]) (by simp) hsa
  | @failing error calls _ hn =>
    exact h.pushed [.telling, .retiring calls error] (by simp [tell, push, emit, hn]) (by simp) hsa
  | expire =>
    refine h.keep ?_ fun call hc => ⟨call, hfe call hc, rfl, rfl⟩
    intro _ hfr _ hm
    obtain rfl := mem_singleton.1 hfr
    cases hm

/-! ## Calls that are not accepted -/

/-- A pending call that is not marked as possibly sent is one whose start is under way. -/
def Unmarked (c : ControlClient options) : Prop :=
  ∀ call ∈ c.pending, call.id ≠ 0 → call.possiblySent = false → Unsent c.rpcClosed c.stack c.log call.id

theorem mayHaveSent_outputLimit : mayHaveSent outputLimitError = false := by decide +kernel

theorem mayHaveSent_shortWrite : mayHaveSent shortWriteError = true := by decide +kernel

/-- No other call is in a write while one call goes to the RPC client. -/
theorem Unsent.not_idle {top : Frame} {id : Nat}
    (h : Unsent false (top :: rest) log id) (ho : top.opened ≠ some id) (hr : id ≠ 0) :
    .writing id ∈ rest := by
  rcases mem_cons.1 ((h.known.resolve_left (not_busy_of_other ho)).1 rfl) with rfl | hm
  · exact absurd (if_neg hr) ho
  · exact hm

/-- The client's own code is about to go on with the call. -/
theorem unsent_of_busy {top : Frame} {id : Nat} (hbu : top.isBusy = true) (ho : top.opened = some id) :
    Unsent closed (top :: rest) log id :=
  ⟨mem_filterMap.2 ⟨top, mem_cons_self, ho⟩, .inl ⟨top, rfl, hbu, ho⟩⟩

/-- The RPC client ends in the middle of the call. -/
theorem unsent_of_ended {top : Frame} {id number : Nat} {error : Error} (hr : ∀ error, .terminating error ∉ stack)
    (hst : stack = top :: rest) (hop : (returning number (.error error)).opened = some id)
    (hk : mayHaveSent error = true ↔ .handed id ∈ log) :
    Unsent true (.terminating error :: .returning number (.error error) :: rest) log id := by
  refine ⟨mem_filterMap.2 ⟨_, by simp, hop⟩, .inr ⟨nofun, ?_⟩⟩
  intro other ho
  rcases mem_cons.1 ho with he | ho
  · cases he
    exact hk
  rcases mem_cons.1 ho with he | ho
  · cases he
  · exact absurd (hst ▸ mem_cons_of_mem _ ho) (hr other)

/-- Frames that are about no call take the place of others. -/
theorem Unmarked.top (h : Unmarked c) (after : List Frame) {top : Frame}
    (events : List (Event options.Reply)) (hto : c.stack = top :: rest) (hst : c'.stack = after ++ rest)
    (hcl : c'.rpcClosed = c.rpcClosed) (hl : c'.log = c.log ++ events) (he : ∀ id, .handed id ∉ events)
    (hte : ∀ error, .terminating error ∉ after)
    (hp : ∀ call ∈ c'.pending, call.possiblySent = false → call.id ≠ 0 →
      call ∈ c.pending ∧ top.opened ≠ some call.id) : Unmarked c' := by
  intro call hc hr hm
  obtain ⟨ho, hot⟩ := hp call hc hm hr
  have hu := h call ho hr hm
  rw [hto] at hu
  rw [hst, hcl, hl]
  exact (hu.replace hot hr after hte).append (he _)

theorem Unmarked.push (h : Unmarked c) (top : Frame) (events : List (Event options.Reply)) (hw : Waits c)
    (hst : c'.stack = top :: c.stack) (hcl : c'.rpcClosed = c.rpcClosed) (hl : c'.log = c.log ++ events)
    (he : ∀ id, .handed id ∉ events) (hte : ∀ error, top ≠ .terminating error)
    (hp : ∀ call ∈ c'.pending, call.id ≠ 0 → call ∈ c.pending) : Unmarked c' := by
  intro call hc hr hm
  rw [hst, hcl, hl]
  exact ((h call (hp call hc hr) hr hm).push hw hte).append (he _)

theorem Unmarked.go (h : Unmarked c) {top next : Frame} (hto : c.stack = top :: rest)
    (hst : c'.stack = next :: rest) (hcl : c'.rpcClosed = c.rpcClosed) (hl : c'.log = c.log)
    (hp : c'.pending = c.pending) (hbu : next.isBusy = true) (ho : next.opened = top.opened) :
    Unmarked c' := by
  intro call hc hr hm
  rw [hp] at hc
  rw [hst, hcl, hl]
  by_cases hi : top.opened = some call.id
  · exact unsent_of_busy hbu (ho.trans hi)
  have hu := h call hc hr hm
  rw [hto] at hu
  refine hu.replace hi hr [next] ?_
  intro _ he
  rw [← mem_singleton.1 he] at hbu
  cases hbu

/-- While the RPC client is open, a call other than the one at the top is in its write. -/
theorem Unmarked.writing (h : Unmarked c) {top : Frame}
    (hl : c.rpcClosed = false) (hto : c.stack = top :: rest) (hc : call ∈ c.pending) (hr : call.id ≠ 0)
    (hm : call.possiblySent = false) (ho : top.opened ≠ some call.id) : rest.any Frame.isWriting = true := by
  have hu := h call hc hr hm
  rw [hto, hl] at hu
  exact any_eq_true.2 ⟨_, hu.not_idle ho hr, rfl⟩

theorem Writes.alone (hw : Writes c.rpcClosed c.isOver c.stack c.log) {id : Nat}
    (hto : c.stack = .writing id :: rest) : rest.any Frame.isWriting = false := by
  have hsi := hw.single
  rw [hto, countP_cons_of_pos rfl] at hsi
  have hz : rest.countP Frame.isWriting = 0 := by omega
  exact any_eq_false.2 (countP_eq_zero.1 hz)

theorem Small.unmarked (hsm : Small c c') (hph : Phased c.phase c.pending c.stack)
    (hwri : Writes c.rpcClosed c.isOver c.stack c.log) (hma : Marked c) (h : Unmarked c) :
    Unmarked c' := by
  have hem : ∀ call : Call, call ∉ (Table.empty : Table Call) := Table.not_mem_empty
  -- With an empty stack every call is marked.
  have hn : c.stack = [] → (∀ call ∈ c'.pending, call ∈ c.pending) → Unmarked c' := by
    intro hst hp call hc hr hm
    have hu := h call (hp call hc) hr hm
    rw [hst] at hu
    exact absurd hu not_unsent_nil
  have hno : (∀ call, call ∉ c'.pending) → Unmarked c' := by
    intro hno call hc
    exact absurd hc (hno call)
  have hq : ∀ id, (.handed id : Event options.Reply) ∉ [] := fun _ => not_mem_nil
  have hsa : c.log = c.log ++ [] := (append_nil _).symm
  have hfe : ∀ {p : Call → Bool}, ∀ call ∈ c.pending.delete p, call ∈ c.pending :=
    fun call hc => (Table.mem_delete.1 hc).1
  have hpl : ∀ call ∈ c.pending, call.possiblySent = false → call.id ≠ 0 →
    call ∈ c.pending ∧ none ≠ some call.id := fun call hc _ _ => ⟨hc, nofun⟩
  cases hsm with
  | @shift before after rest hto hw hsw =>
    cases hsw with
    | nothing =>
      intro call hc
      exact hto ▸ h call hc
    | told | unheard | late | retired | expired | collected =>
      exact h.top [] [] hto rfl rfl hsa hq (by simp) hpl
    | heard wire answer =>
      exact h.push (.receiving wire answer) [] (hw rfl) (by rw [hto]; rfl) rfl hsa hq (by simp)
        fun _ hc _ => hc
    | read id wire =>
      refine h.top [_] [] hto rfl rfl hsa hq (by simp) ?_
      intro call hc hm hr
      refine ⟨hc, ?_⟩
      intro hop
      obtain ⟨hid, rfl⟩ : id ≠ 0 ∧ id = call.id := by simpa using hop
      have hfr : .reading call.id wire ∈ c.stack := by
        rw [hto]
        exact mem_cons_self
      simp [hma _ hfr _ rfl hr call hc rfl] at hm
    | refused | wrote => exact h.go hto rfl rfl rfl rfl rfl rfl
  | refuse =>
    intro call hc hr hm
    exact (h call hc hr hm).append (by simp)
  | issue _ _ _ hw =>
    intro call hc hr hm
    rcases Table.mem_of_mem_insert hc with rfl | ho
    · exact unsent_of_busy rfl (if_neg hr)
    · exact ((h call ho hr hm).push hw (by simp)).append (by simp)
  | greet _ _ hw =>
    refine h.push _ [] hw rfl rfl hsa hq (by simp) ?_
    intro call hc hr
    rcases Table.mem_of_mem_insert hc with rfl | ho
    · exact absurd rfl hr
    · exact ho
  | @overflow id taken rest hto hl hi =>
    intro call hc hr hm
    by_cases hid : (Frame.entering id taken).opened = some call.id
    · have hne : .handed call.id ∉ c.log := by
        obtain ⟨hid, rfl⟩ : id ≠ 0 ∧ id = call.id := by simpa using hid
        exact (hwri.fresh call.id taken (by rw [hto]; rfl)).2 hid
      refine unsent_of_ended (hwri.running hl) hto hid ?_
      simp [mayHaveSent_outputLimit, hne]
    · exact absurd (h.writing hl hto hc hr hm hid) (by simp [hi])
  | @hand id taken rest hto hl hi =>
    intro call hc hr hm
    by_cases hid : (Frame.entering id taken).opened = some call.id
    · obtain ⟨hid, rfl⟩ : id ≠ 0 ∧ id = call.id := by simpa using hid
      refine ⟨mem_filterMap.2 ⟨_, mem_cons_self, if_neg hid⟩, .inr ⟨fun _ => mem_cons_self, ?_⟩⟩
      intro error he
      rcases mem_cons.1 he with heq | hbe
      · cases heq
      · exact absurd (hto ▸ mem_cons_of_mem _ hbe) (hwri.running hl error)
    · exact absurd (h.writing hl hto hc hr hm hid) (by simp [hi])
  | @short id rest hto hl =>
    intro call hc hr hm
    by_cases hid : (Frame.writing id).opened = some call.id
    · have hh : .handed call.id ∈ c.log := by
        obtain ⟨hid, rfl⟩ : id ≠ 0 ∧ id = call.id := by simpa using hid
        exact hwri.handed call.id (hto ▸ mem_cons_self)
      refine unsent_of_ended (hwri.running hl) hto hid ?_
      simp [mayHaveSent_shortWrite, hh]
    · exact absurd (h.writing hl hto hc hr hm hid) (by simp [hwri.alone hto])
  | @accept id wire rest hto hl =>
    intro call hc hr hm
    rcases (Table.mem_modify (f := Call.bind wire) fun _ => rfl).1 hc with
      ⟨old, -, -, rfl⟩ | ⟨ho, hot⟩
    · cases hm
    have hid : (Frame.writing id).opened ≠ some call.id := by
      intro hop
      obtain ⟨-, rfl⟩ : id ≠ 0 ∧ id = call.id := by simpa using hop
      exact hot rfl
    exact absurd (h.writing hl hto ho hr hm hid) (by simp [hwri.alone hto])
  | @acceptLate id wire rest hto hl _ hg =>
    intro call hc hr hm
    have hid : (Frame.writing id).opened ≠ some call.id := by
      intro hop
      obtain ⟨-, rfl⟩ : id ≠ 0 ∧ id = call.id := by simpa using hop
      exact Table.find?_eq_none.1 hg call hc rfl
    exact absurd (h.writing hl hto hc hr hm hid) (by simp [hwri.alone hto])
  | reset | terminated | close | greetFailed => exact hno hem
  | greeted hto | forget hto | closed hto =>
    exact h.top [] [] hto rfl rfl hsa hq (by simp) hpl
  | @abandon id error rest hto =>
    refine h.top [] _ hto rfl rfl rfl (by simp) (by simp) ?_
    intro call hc _ _
    obtain ⟨ho, hot⟩ := Table.mem_delete.1 hc
    refine ⟨ho, ?_⟩
    intro hop
    obtain ⟨-, rfl⟩ : id ≠ 0 ∧ id = call.id := by simpa using hop
    simp at hot
  | @start id result rest hto _ hd =>
    refine h.top [] _ hto rfl rfl rfl (by simp) (by simp) ?_
    intro call hc hm hr
    refine ⟨hc, ?_⟩
    intro hop
    obtain ⟨-, rfl⟩ : id ≠ 0 ∧ id = call.id := by simpa using hop
    rcases hd with hov | hok
    · exact absurd hc (hph.none_over hov call)
    cases result with
    | error => cases hok
    | ok wire =>
      have hfr : .returning call.id (.ok wire) ∈ c.stack := by
        rw [hto]
        exact mem_cons_self
      simp [hma _ hfr _ rfl hr call hc rfl] at hm
  | terminate _ hw hl hdu =>
    intro call hc hr hm
    have hu := h call hc hr hm
    obtain ⟨hw', -⟩ := hu.known.resolve_left (not_busy_of_waits hw)
    have hwr := hw' hl
    have hco := hdu (any_eq_true.2 ⟨_, hwr, rfl⟩)
    refine ⟨mem_filterMap.2 ⟨_, mem_cons_of_mem _ hwr, if_neg hr⟩, .inr ⟨nofun, ?_⟩⟩
    intro other hot
    rcases mem_cons.1 hot with heq | hbe
    · cases heq
      simp [mayHaveSent, hco, hwri.handed _ hwr]
    · exact absurd hbe (hwri.running hl other)
  | @record wire answer rest hto =>
    intro call hc hr hm
    have hu : Unsent c.rpcClosed c.stack c.log call.id := by
      rcases (Table.mem_modify (f := Call.answered answer) fun _ => rfl).1 hc with
        ⟨old, ho, -, rfl⟩ | ⟨ho, -⟩
      · exact h old ho hr hm
      · exact h call ho hr hm
    rw [hto] at hu
    exact (hu.replace (by simp) hr [] (by simp)).append (by simp)
  | cancel hw => exact h.push _ _ hw rfl rfl rfl (by simp) (by simp) fun call hc _ => hfe call hc
  | stale hst | collect hst | failing hst | notice hst | settleTask hst =>
    exact hn hst fun _ hc => hc
  | skip => exact h
  | greetDone hto | deliver hto =>
    exact h.top [.telling, .delivering c.generation] _ hto
      (by simp [tell, push, emit, rearmDeadline, hto]) rfl rfl (by simp) (by simp)
      fun call hc => hpl call (hfe call hc)
  | retire hto | closeOne hto | expireOne hto =>
    exact h.top [_, _] _ hto rfl rfl rfl (by simp) (by simp) hpl
  | expire _ hst => exact hn hst fun call hc => hfe call hc

end ControlClient

end Jobu
