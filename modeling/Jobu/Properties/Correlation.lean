import Jobu.Lib.Correlation
import Jobu.Lib.Machine
import Jobu.Rpc.ClientSteps

/-!
# The outcomes of requests

Two views of the client carry the argument.  `correlation` keeps the identifiers: which wait, which
still have a failure to be told of, and which got their outcome.  `told` keeps the calls: what each
has been told, or will be told by a place on the stack.  Every small step is some steps of the first
view and keeps the second fair.

  > `client_correlates`: each request gets at most one outcome, and one when the client has ended;
  > a call that failed gets none; no identifier is used twice; the pending requests stay within their
  > limit; a body with an identifier that was never issued, or with one twice, delivers nothing and
  > ends the client.
-/

namespace Jobu.Rpc

open List

namespace Client

open Event Signal Frame

variable {options : ClientOptions}

/-! ## What the log says -/

/-- The request that gets its outcome. -/
def Event.settled : Event → Option Nat
  | .delivered id _ => some id
  | _ => none

/-- The request that is cancelled. -/
def Event.withdrawn : Event → Option Nat
  | .cancelled id => some id
  | _ => none

/-- The identifier a call gets. -/
def Event.given : Event → Option (Nat × Nat)
  | .accepted token id => some (token, id)
  | _ => none

/-- What a call is told. -/
def Event.told : Event → Option (Nat × Option Nat)
  | .returned token result => some (token, result.toOption)
  | _ => none

/-- A result or an error that the peer sent. -/
def Event.response : Event → Option Nat
  | .delivered id (.result _) | .delivered id (.error _) => some id
  | _ => none

/-- The identifiers that were issued, in their order. -/
def issuedIds (log : List Event) : List Nat := (log.filterMap Event.given).map Prod.snd

/-- How many outcomes a request got. -/
def outcomes (id : Nat) (log : List Event) : Nat := (log.filterMap Event.settled).count id

/-- The requests whose response was delivered, in that order. -/
def responses (log : List Event) : List Nat := log.filterMap Event.response

variable {log : List Event} {id : Nat}

theorem mem_settled : id ∈ log.filterMap settled ↔ ∃ outcome, .delivered id outcome ∈ log := by
  rw [mem_filterMap]
  constructor
  · rintro ⟨event, he, hi⟩
    cases event with
    | delivered _ outcome =>
      cases hi
      exact ⟨outcome, he⟩
    | _ => cases hi
  · rintro ⟨_, he⟩
    exact ⟨_, he, rfl⟩

theorem mem_withdrawn : id ∈ log.filterMap withdrawn ↔ .cancelled id ∈ log := by
  rw [mem_filterMap]
  constructor
  · rintro ⟨event, he, hi⟩
    cases event with
    | cancelled =>
      cases hi
      exact he
    | _ => cases hi
  · intro he
    exact ⟨_, he, rfl⟩

theorem mem_given {token : Nat} : (token, id) ∈ log.filterMap given ↔ .accepted token id ∈ log := by
  rw [mem_filterMap]
  constructor
  · rintro ⟨event, he, hi⟩
    cases event with
    | accepted =>
      cases hi
      exact he
    | _ => cases hi
  · intro he
    exact ⟨_, he, rfl⟩

theorem mem_issuedIds : id ∈ issuedIds log ↔ ∃ token, .accepted token id ∈ log := by
  simp only [issuedIds, mem_map, Prod.exists, mem_given, exists_eq_right]

/-! ## The views -/

/-- The request that a signal fails. -/
def Signal.request : Signal → Option Nat
  | .protocolError _ => none
  | .requestFailed id _ => some id

/-- The requests that a place on the stack still has to fail. -/
def Frame.owed : Frame → List Nat
  | .terminating signals => signals.filterMap Signal.request
  | _ => []

/-- What the call of a place on the stack will be told, as things stand. -/
def Frame.told : Frame → Option (Nat × Option Nat)
  | .writing (some (token, _)) _ => some (token, none)
  | .accepted token id => some (token, some id)
  | .returning token result => some (token, result.toOption)
  | _ => none

/-- The client as a correlation. -/
def correlation (c : Client options) : Lib.Correlation where
  issued := c.lastIssuedId
  waiting := c.pendingIds
  closed := c.closed
  owed := c.stack.flatMap Frame.owed
  settled := c.log.filterMap Event.settled
  withdrawn := c.log.filterMap Event.withdrawn

/-- The calls of the client. -/
def told (c : Client options) : Lib.Calls where
  made := c.calls
  told := c.stack.filterMap Frame.told ++ c.log.filterMap Event.told
  given := c.log.filterMap Event.given

/-- The client is in a write. -/
def Frame.isWriting : Frame → Bool
  | .writing _ _ => true
  | _ => false

/-- What the client keeps between its writes: one write at a time, for the next identifier and with
room for it. -/
structure Ready (c : Client options) : Prop where
  number : c.nextRequestId = 0 ∨ c.nextRequestId = c.lastIssuedId + 1
  alone : c.stack.countP Frame.isWriting = c.writeInProgress.toNat
  reserved : ∀ token id size, .writing (some (token, id)) size ∈ c.stack →
    id = c.lastIssuedId + 1 ∧ c.pendingIds.card < options.maxPendingRequests
  issued : issuedIds c.log = List.range' 1 c.lastIssuedId

variable {c c' : Client options}

theorem Ready.none_writing (h : Ready c) (hi : c.writeInProgress = false) :
    ∀ frame ∈ c.stack, frame.isWriting = false := by
  have hc := h.alone
  rw [hi] at hc
  intro frame hfr
  exact Bool.eq_false_of_not_eq_true (countP_eq_zero.1 hc frame hfr)

variable {call : Option (Nat × Nat)} {size : Nat}

theorem Ready.under_write (h : Ready c) {rest : List Frame} (hto : c.stack = .writing call size :: rest) :
    c.writeInProgress = true ∧ rest.countP isWriting = 0 := by
  have hc := h.alone
  rw [hto, countP_cons_of_pos rfl] at hc
  cases hw : c.writeInProgress with
  | false => simp [hw] at hc
  | true => exact ⟨rfl, by simpa [hw] using hc⟩

/-- What changes neither the writes nor the identifiers keeps the client ready. -/
theorem Ready.calm (h : Ready c) (hn : c'.nextRequestId = c.nextRequestId)
    (hl : c'.lastIssuedId = c.lastIssuedId) (hbu : c'.writeInProgress = c.writeInProgress)
    (hw : c'.stack.filter isWriting = c.stack.filter isWriting)
    (hc : c'.pendingIds.card ≤ c.pendingIds.card) (hlo : issuedIds c'.log = issuedIds c.log) :
    Ready c' where
  number := by
    rw [hn, hl]
    exact h.number
  alone := by rw [hbu, ← h.alone, countP_eq_length_filter, countP_eq_length_filter, hw]
  reserved token id size hfr := by
    have hm : .writing (some (token, id)) size ∈ c'.stack.filter isWriting := mem_filter.2 ⟨hfr, rfl⟩
    rw [hw] at hm
    obtain ⟨hi, hr⟩ := h.reserved token id size (mem_filter.1 hm).1
    rw [hl]
    exact ⟨hi, Nat.lt_of_le_of_lt hc hr⟩
  issued := by
    rw [hlo, hl]
    exact h.issued

theorem Ready.of_idle (hnu : c.nextRequestId = 0 ∨ c.nextRequestId = c.lastIssuedId + 1)
    (hbu : c.writeInProgress = false) (hn : c.stack.countP isWriting = 0)
    (hi : issuedIds c.log = List.range' 1 c.lastIssuedId) : Ready c where
  number := hnu
  alone := by
    rw [hn, hbu]
    rfl
  reserved _ _ _ hfr := absurd rfl (countP_eq_zero.1 hn _ hfr)
  issued := hi

theorem Ready.of_write (h : Ready c) (hi : c.writeInProgress = false) (hc : ∀ token id, call = some (token, id) →
      id = c.lastIssuedId + 1 ∧ c.pendingIds.card < options.maxPendingRequests) (calls : Nat) :
    Ready ({ c with calls, writeInProgress := true }.push (.writing call size)) where
  number := h.number
  alone := by
    show countP isWriting (.writing call size :: c.stack) = 1
    rw [countP_cons_of_pos rfl, h.alone, hi]
    rfl
  reserved token id written hfr := by
    rcases mem_cons.1 hfr with he | hfr
    · cases he
      exact hc token id rfl
    · exact nomatch h.none_writing hi _ hfr
  issued := h.issued

theorem issuedIds_append (log : List Event) (event : Event) :
    issuedIds (log ++ [event]) = issuedIds log ++ (event.given.map Prod.snd).toList := by
  unfold issuedIds
  rw [filterMap_append, map_append]
  cases hg : event.given <;> simp [hg]

variable {frame : Frame}

theorem Frame.Passing.isWriting (h : frame.Passing) : frame.isWriting = false := by cases h <;> rfl

theorem Frame.Passing.owed (h : frame.Passing) : frame.owed = [] := by cases h <;> rfl

theorem Frame.Passing.told (h : frame.Passing) : frame.told = none := by cases h <;> rfl

theorem Small.ready (hsm : Small c c') (h : Ready c) : Ready c' := by
  cases hsm with
  | quiet => exact h.calm rfl rfl rfl rfl le_rfl rfl
  | enter hp => exact h.calm rfl rfl rfl (by simp [push, hp.isWriting]) le_rfl rfl
  | leave hp hto => exact h.calm rfl rfl rfl (by simp [hto, hp.isWriting]) le_rfl rfl
  | deliver | cancel =>
    exact h.calm rfl rfl rfl rfl Finset.card_erase_le (by simp [emit, issuedIds_append, given])
  | terminate =>
    exact h.calm rfl rfl rfl (by simp [push, emit, isWriting]) (Nat.zero_le _)
      (by simp [emit, push, issuedIds_append, given])
  | @signal signal _ _ hto =>
    have hq : signal.event.given = none := by cases signal <;> rfl
    exact h.calm rfl rfl rfl (by simp [push, emit, hto, isWriting]) le_rfl
      (by simp [emit, push, issuedIds_append, hq])
  | refuse => exact h.calm rfl rfl rfl rfl le_rfl (by simp [emit, issuedIds_append, given])
  | overflow => exact h.calm rfl rfl rfl (by simp [push, isWriting]) le_rfl rfl
  | write hi hn hr =>
    refine h.of_write hi ?_ _
    intro token id he
    cases he
    exact ⟨h.number.resolve_left hn, hr⟩
  | writeNotification hi => exact h.of_write hi (by simp) _
  | wroteNotification hto => exact .of_idle h.number rfl (h.under_write hto).2 h.issued
  | wroteClosed hto =>
    exact .of_idle h.number rfl (h.under_write hto).2
      (by simpa [emit, issuedIds_append, given] using h.issued)
  | wroteShort hto => exact .of_idle h.number rfl (by simpa [push, isWriting] using (h.under_write hto).2) h.issued
  | @accept token id size rest hl hto =>
    have hid : id = c.lastIssuedId + 1 := (h.reserved token id size (hto ▸ mem_cons_self)).1
    refine .of_idle ?_ rfl (by simpa [push, emit, advanceRequestId, isWriting] using (h.under_write hto).2) ?_
    · show (if id = maximumId then 0 else id + 1) = 0 ∨ (if id = maximumId then 0 else id + 1) = id + 1
      by_cases hla : id = maximumId
      · exact .inl (if_pos hla)
      · exact .inr (if_neg hla)
    · show issuedIds (c.log ++ [.accepted token id]) = range' 1 id
      rw [issuedIds_append, h.issued, hid, range'_1_concat, Nat.add_comm 1]
      rfl
  | accepted hto => exact h.calm rfl rfl rfl (by simp [push, hto, isWriting]) le_rfl rfl
  | returned hto =>
    exact h.calm rfl rfl rfl (by simp [emit, hto, isWriting]) le_rfl
      (by simp [emit, issuedIds_append, given])

/-! ## The views of a step -/

theorem correlates_same (he : correlation c' = correlation c) :
    Lib.Correlation.Steps options.maxPendingRequests (correlation c) (correlation c') :=
  he ▸ .refl

theorem correlates_step {next : Lib.Correlation}
    (hstep : Lib.Correlation.Step options.maxPendingRequests (correlation c) next) (he : correlation c' = next) :
    Lib.Correlation.Steps options.maxPendingRequests (correlation c) (correlation c') :=
  he ▸ .single hstep

/-- The failures that `terminate` owes are those of the pending requests. -/
theorem owed_terminating (first : List Error) (error : Error) (ids : List Nat) :
    Frame.owed (.terminating (first.map Signal.protocolError ++ ids.map fun id => requestFailed id error)) = ids := by
  show filterMap request _ = ids
  rw [filterMap_append, filterMap_map, filterMap_map]
  have hfi : first.filterMap (request ∘ protocolError) = [] := filterMap_eq_nil_iff.2 fun _ _ => rfl
  have hi : ids.filterMap (request ∘ fun id => requestFailed id error) = ids := filterMap_some
  rw [hfi, hi]
  rfl

/-- **A small step is at most one step of the correlation.** -/
theorem Small.correlates (hsm : Small c c') (h : Ready c) :
    Lib.Correlation.Steps options.maxPendingRequests (correlation c) (correlation c') := by
  cases hsm with
  | quiet => exact .refl
  | enter hp => exact correlates_same (by simp [correlation, push, hp.owed])
  | leave hp hto => exact correlates_same (by simp [correlation, hto, hp.owed])
  | @deliver id outcome hpe =>
    exact correlates_step (.settle (n := id) hpe)
      (by simp [correlation, emit, settled, withdrawn])
  | @cancel id hl hpe =>
    exact correlates_step (.withdraw (n := id) hl hpe)
      (by simp [correlation, emit, settled, withdrawn])
  | terminate hl =>
    exact correlates_step (.close hl)
      (by simp [correlation, emit, push, owed_terminating, Event.settled, Event.withdrawn])
  | @signal signal signals rest hto =>
    cases signal with
    | protocolError =>
      exact correlates_same (by
        simp [correlation, emit, push, hto, owed, request, event, settled, withdrawn, filterMap_cons])
    | requestFailed id =>
      have ho : (correlation c).owed = id :: (signals.filterMap request ++ rest.flatMap owed) := by
        simp [correlation, hto, owed, request]
      exact correlates_step (.fail ho) (by
        simp [correlation, emit, push, owed, event, settled, withdrawn])
  | refuse => exact correlates_same (by simp [correlation, emit, settled, withdrawn])
  | overflow | write | writeNotification =>
    exact correlates_same (by simp [correlation, push, owed])
  | wroteNotification hto => exact correlates_same (by simp [correlation, hto, owed])
  | wroteClosed hto | returned hto =>
    exact correlates_same (by simp [correlation, emit, hto, owed, settled, withdrawn])
  | wroteShort hto | accepted hto => exact correlates_same (by simp [correlation, push, hto, owed])
  | @accept token id size rest hl hto =>
    obtain ⟨rfl, hr⟩ := h.reserved token id size (hto ▸ mem_cons_self)
    exact correlates_step (.issue hl hr) (by
      simp [correlation, emit, push, advanceRequestId, hto, owed, settled, withdrawn])

/-- What a call will be told is what it is told last. -/
theorem told_last {α : Type} (x : α) (before after : List α) :
    (x :: (before ++ after)).Perm (before ++ (after ++ [x])) := by
  rw [← append_assoc]
  exact (perm_append_singleton x (before ++ after)).symm

theorem fair_moved (h : (told c).Fair) (hc : c'.calls = c.calls)
    (hg : c'.log.filterMap given = c.log.filterMap given)
    (hp : (told c).told.Perm (told c').told) : (told c').Fair := by
  have hm := Lib.Calls.Fair.perm h hp
  rw [told, hc, hg]
  exact hm

theorem fair_made (h : (told c).Fair) (hc : c'.calls = c.calls + 1)
    (hg : c'.log.filterMap given = c.log.filterMap given)
    (hp : ((c.calls, none) :: (told c).told).Perm (told c').told) : (told c').Fair := by
  have hm := (Lib.Calls.Fair.make h).perm hp
  rw [told, hc, hg]
  exact hm

/-- **A small step keeps the calls fair.** -/
theorem Small.fair (hsm : Small c c') (h : (told c).Fair) : (told c').Fair := by
  cases hsm with
  | quiet => exact h
  | enter hp => exact fair_moved h rfl rfl (by simp [told, push, hp.told])
  | leave hp hto => exact fair_moved h rfl rfl (by simp [told, hto, hp.told])
  | deliver =>
    exact fair_moved h rfl (by simp [emit, Event.given]) (by simp [told, emit, filterMap_cons, Event.told])
  | cancel => exact fair_moved h rfl (by simp [emit, Event.given]) (by simp [told, emit, filterMap_cons, Event.told])
  | terminate =>
    exact fair_moved h rfl (by simp [emit, push, given])
      (by simp [told, emit, push, filterMap_cons, Frame.told, Event.told])
  | @signal signal _ _ hto =>
    have hg : signal.event.given = none := by cases signal <;> rfl
    have htol : signal.event.told = none := by cases signal <;> rfl
    exact fair_moved h rfl (by simp [emit, push, hg])
      (by simp [told, emit, push, hto, filterMap_cons, Frame.told, htol])
  | refuse =>
    exact fair_made h rfl (by simp [emit, given])
      (by simpa [told, emit, Event.told, Except.toOption] using told_last _ _ _)
  | overflow => exact fair_made h rfl rfl (by simp [told, push, Frame.told, Except.toOption])
  | write => exact fair_made h rfl rfl (by simp [told, push, Frame.told])
  | writeNotification => exact fair_moved h rfl rfl (by simp [told, push, filterMap_cons, Frame.told])
  | wroteNotification hto => exact fair_moved h rfl rfl (by simp [told, hto, filterMap_cons, Frame.told])
  | wroteClosed hto =>
    exact fair_moved h rfl (by simp [emit, given])
      (by simpa [told, emit, hto, Frame.told, Event.told, Except.toOption] using told_last _ _ _)
  | wroteShort hto => exact fair_moved h rfl rfl (by simp [told, push, hto, Frame.told, Except.toOption])
  | @accept token id size rest hl hto =>
    have hw : Lib.Calls.Fair ⟨c.calls, (token, none) :: (rest.filterMap Frame.told ++ c.log.filterMap Event.told),
        c.log.filterMap given⟩ := by
      simpa [told, hto, Frame.told] using h
    have hgi := hw.give (n := id)
    simpa [told, emit, push, advanceRequestId, filterMap_cons, Frame.told, Event.told, Event.given] using hgi
  | accepted hto => exact fair_moved h rfl rfl (by simp [told, push, hto, Frame.told, Except.toOption])
  | returned hto =>
    exact fair_moved h rfl (by simp [emit, given])
      (by simpa [told, emit, hto, Frame.told, Event.told] using told_last _ _ _)

/-! ## Runs -/

/-- A state the client passes through, between moves or within one. -/
def Passes (c : Client options) : Prop :=
  ∃ start, Lib.Reaches step ({} : Client options) start ∧ Smalls start c

/-- What the client keeps. -/
structure Sound (c : Client options) : Prop where
  ready : Ready c
  accounted : (correlation c).Accounted options.maxPendingRequests
  fair : (told c).Fair

theorem sound_fresh : Sound ({} : Client options) where
  ready := .of_idle (.inr rfl) rfl rfl rfl
  accounted := Lib.Correlation.accounted_fresh
  fair := Lib.Calls.fair_fresh

theorem Small.sound (hsm : Small c c') (h : Sound c) : Sound c' where
  ready := hsm.ready h.ready
  accounted := (hsm.correlates h.ready).accounted h.accounted
  fair := hsm.fair h.fair

theorem Smalls.sound (hsma : Smalls c c') (h : Sound c) : Sound c' := by
  induction hsma with
  | refl => exact h
  | tail _ hsm ih => exact hsm.sound ih

theorem Passes.sound (h : Passes c) : Sound c := by
  obtain ⟨_, hr, hsm⟩ := h
  refine Smalls.sound hsm (hr.invariant sound_fresh ?_)
  intro s m _ hs hm
  exact Smalls.sound (step_small hm) hs

/-- A client that has ended stays so, and delivers no response. -/
theorem Small.ended (hsm : Small c c') (h : Sound c) (hc : c.closed = true) :
    c'.closed = true ∧ responses c'.log = responses c.log := by
  have hn : c.pendingIds = ∅ := h.accounted.idle hc
  cases hsm with
  | deliver hp => exact absurd hp (hn ▸ Finset.notMem_empty _)
  | cancel hl | terminate hl | accept hl => exact absurd hc (Bool.eq_false_iff.1 hl)
  | @signal signal _ _ hto =>
    have hsi : signal.event.response = none := by cases signal <;> rfl
    exact ⟨hc, by simp [responses, emit, push, hsi]⟩
  | _ => exact ⟨hc, by simp [responses, emit, push, response]⟩

theorem Smalls.ended (hsma : Smalls c c') (h : Sound c) (hc : c.closed = true) :
    c'.closed = true ∧ responses c'.log = responses c.log := by
  induction hsma with
  | refl => exact ⟨hc, rfl⟩
  | tail hbe hsm ih =>
    obtain ⟨hst, hsa⟩ := ih
    obtain ⟨he, he'⟩ := hsm.ended (Smalls.sound hbe h) hst
    exact ⟨he, he'.trans hsa⟩

theorem reaches_small (h : Lib.Reaches step c c') : Smalls c c' := by
  induction h with
  | start => exact .refl
  | next _ _ hm ih => exact ih.trans (step_small hm)

/-! ## A body that is refused -/

/-- The responses of a body. -/
def bodyResponses (options : ClientOptions) (body : Bytes) : Except Error (List ResponseEnvelope) := do
  let value ← options.parseJson body
  decodeResponseDocument value options.maxBatchEntries

/-- The responses are to requests of the log, and to each at most once. -/
def Correlated (log : List Event) (list : List ResponseEnvelope) : Prop :=
  (∀ response ∈ list, ∃ id ∈ issuedIds log, response.id = .uint id) ∧ (list.map (·.id)).Nodup

variable {entries : List (Nat × Outcome)}

/-- What passes has identifiers that were issued, each once and none of those seen. -/
theorem preflightResponses_ok {last : Nat} {seen : List Nat} {list : List ResponseEnvelope}
    (h : preflightResponses last seen list = .ok entries) :
    (∀ response ∈ list, ∃ id, response.id = .uint id ∧ 1 ≤ id ∧ id ≤ last ∧ id ∉ seen) ∧ (list.map (·.id)).Nodup := by
  induction list generalizing seen entries with
  | nil => exact ⟨by simp, nodup_nil⟩
  | cons response rest ih =>
    unfold preflightResponses at h
    cases hi : response.id with
    | uint id =>
      simp only [hi] at h
      by_cases hba : id = 0 ∨ last < id ∨ id ∈ seen
      · rw [if_pos hba] at h
        cases h
      rw [if_neg hba] at h
      cases hr : preflightResponses last (id :: seen) rest with
      | error =>
        rw [hr] at h
        cases h
      | ok =>
        obtain ⟨his, hno⟩ := ih hr
        refine ⟨?_, ?_⟩
        · intro other ho
          rcases mem_cons.1 ho with rfl | ho
          · exact ⟨id, hi, by omega, by omega, fun hse => hba (.inr (.inr hse))⟩
          · obtain ⟨n, hn, hp, hle, hse⟩ := his other ho
            exact ⟨n, hn, hp, hle, fun hm => hse (mem_cons_of_mem _ hm)⟩
        refine nodup_cons.2 ⟨?_, hno⟩
        intro hm
        obtain ⟨other, ho, hsa⟩ := mem_map.1 hm
        obtain ⟨_, hn, _, _, hse⟩ := his other ho
        -- The rest is checked with this identifier among those seen.
        change other.id = response.id at hsa
        rw [hsa, hi] at hn
        cases hn
        exact hse mem_cons_self
    | _ =>
      simp only [hi] at h
      cases h

variable {body : Bytes}

theorem decodeBody_correlated (h : Ready c) (ho : c.decodeBody body = .ok entries) :
    ∃ list, bodyResponses options body = .ok list ∧ Correlated c.log list := by
  unfold decodeBody at ho
  cases hp : options.parseJson body with
  | error =>
    rw [hp] at ho
    cases ho
  | ok value =>
    rw [hp] at ho
    change (decodeResponseDocument value options.maxBatchEntries >>= _) = _ at ho
    cases hd : decodeResponseDocument value options.maxBatchEntries with
    | error =>
      rw [hd] at ho
      cases ho
    | ok list =>
      rw [hd] at ho
      obtain ⟨hi, hn⟩ := preflightResponses_ok ho
      refine ⟨list, ?_, ?_, hn⟩
      · rw [bodyResponses, hp]
        exact hd
      intro response hr
      obtain ⟨id, hid, _, _, _⟩ := hi response hr
      refine ⟨id, ?_, hid⟩
      rw [h.issued, mem_range'_1]
      omega

/-- A body that is not correlated ends the client, and nothing of it is delivered. -/
theorem processBodies_refused (h : Ready c) (ho : c.closed = false)
    (hba : ∀ list, bodyResponses options body = .ok list → ¬ Correlated c.log list) (rest : List Bytes) :
    (processBodies (body :: rest) c).closed = true ∧
      responses (processBodies (body :: rest) c).log = responses c.log := by
  unfold processBodies
  cases hbo : c.decodeBody body with
  | ok =>
    obtain ⟨list, hl, hc⟩ := decodeBody_correlated h hbo
    exact absurd hc (hba list hl)
  | error =>
    simp only [terminate, ho]
    exact ⟨rfl, by simp [responses, emit, push, response]⟩

/-! ## The result -/

/-- No signal of `terminate` is still to come. -/
def Settled (c : Client options) : Prop := ∀ signals, .terminating signals ∉ c.stack

theorem Settled.owed (h : Settled c) : (correlation c).owed = [] := by
  refine flatMap_eq_nil_iff.2 ?_
  intro frame hfr
  cases frame with
  | terminating signals => exact absurd hfr (h signals)
  | _ => rfl

theorem Sound.issued_iff (h : Sound c) : (∃ token, .accepted token id ∈ c.log) ↔ 1 ≤ id ∧ id ≤ c.lastIssuedId := by
  rw [← mem_issuedIds, h.ready.issued, mem_range'_1]
  omega

/-- **Every request gets its outcome, and only one.** -/
theorem client_correlates (h : Passes c) :
    -- at most one outcome each, and only for a request that was accepted
    (∀ id, outcomes id c.log ≤ 1) ∧
    (∀ id outcome, .delivered id outcome ∈ c.log → ∃ token, .accepted token id ∈ c.log) ∧
    -- exactly one once the client has ended, unless the request was cancelled
    (c.closed = true → Settled c → ∀ token id, .accepted token id ∈ c.log →
      .cancelled id ∉ c.log → outcomes id c.log = 1) ∧
    -- a call that returned an error has no request
    (∀ token error, .returned token (.error error) ∈ c.log → ∀ id, .accepted token id ∉ c.log) ∧
    (issuedIds c.log).Nodup ∧ c.pendingIds.card ≤ options.maxPendingRequests ∧
    -- a body that is not correlated with the requests delivers nothing and ends the client
    (∀ body rest, c.closed = false → (∀ list, bodyResponses options body = .ok list → ¬ Correlated c.log list) →
      ∀ c', Lib.Reaches step (processBodies (body :: rest) c) c' →
        c'.closed = true ∧ responses c'.log = responses c.log) := by
  have hso := h.sound
  refine ⟨?_, ?_, ?_, ?_, ?_, hso.accounted.room, ?_⟩
  · intro id
    have hle : outcomes id c.log + _ ≤ 1 := hso.accounted.at_most_one id
    omega
  · intro id outcome hde
    exact hso.issued_iff.2 (hso.accounted.settled_issued (mem_settled.2 ⟨outcome, hde⟩))
  · intro hc hse token id hac hk
    have hon := hso.accounted.exactly_one hc hse.owed (hso.issued_iff.1 ⟨token, hac⟩)
    have hno : (correlation c).withdrawn.count id = 0 :=
      count_eq_zero_of_not_mem fun hme => hk (mem_withdrawn.1 hme)
    rw [hno] at hon
    exact hon
  · intro token error hr id hac
    have hto : (token, none) ∈ (told c).told := mem_append_right _ (mem_filterMap.2 ⟨_, hr, rfl⟩)
    have hgo := (hso.fair.agree token none hto id).1 (mem_given.2 hac)
    cases hgo
  · rw [hso.ready.issued]
    exact nodup_range'
  intro body rest hop hba c' hre
  obtain ⟨hc, hsa⟩ := processBodies_refused hso.ready hop hba rest
  have hafter := Smalls.sound (processBodies_small (c := c) (body :: rest)) hso
  obtain ⟨hen, hlo⟩ := Smalls.ended (reaches_small hre) hafter hc
  exact ⟨hen, hlo.trans hsa⟩

/-- A peer that answers whatever it gets with the response to request 1. -/
def echo : ClientOptions where
  parseJson _ := .ok (.object [(text "id", .uint 1), (text "jsonrpc", .string (text "2.0")), (text "result", .null)])
  serializeError _ := closedOperationError

/-- The reply arrives during the write of its call; while it is delivered there is another call, and
then the client is closed. -/
def session : List Move :=
  [.call (text "ping") none, .readyRead, .wrote 62, .resume, .read (text "Content-Length: 1\r\n\r\n0"),
    .call (text "ping") none, .wrote 62, .resume, .resume, .close, .resume, .resume]

def sessionEnd : Client echo :=
  (Lib.moves step ({} : Client echo) session).get (by decide +kernel)

theorem client_correlates_session : Passes sessionEnd ∧ sessionEnd.closed = true ∧ responses sessionEnd.log = [1] ∧
      outcomes 1 sessionEnd.log = 1 ∧ outcomes 2 sessionEnd.log = 1 := by
  have hp : Passes sessionEnd := ⟨sessionEnd, .of_moves .start (Option.some_get _).symm, .refl⟩
  have hc : sessionEnd.closed = true := by decide +kernel
  have hr : responses sessionEnd.log = [1] := by decide +kernel
  have hno : sessionEnd.log.filterMap withdrawn = [] := by decide +kernel
  have hg : sessionEnd.log.filterMap given = [(0, 1), (1, 2)] := by decide +kernel
  have hst : sessionEnd.stack.length = 0 := by decide +kernel
  have hse : Settled sessionEnd := by
    intro signals hme
    rw [length_eq_zero_iff.1 hst] at hme
    cases hme
  have hk : ∀ id, .cancelled id ∉ sessionEnd.log := by
    intro id hme
    have := mem_withdrawn.2 hme
    rw [hno] at this
    cases this
  obtain ⟨-, -, hon, -⟩ := client_correlates hp
  refine ⟨hp, hc, hr, ?_, ?_⟩
  · exact hon hc hse 0 1 (mem_given.1 (by simp [hg])) (hk 1)
  · exact hon hc hse 1 2 (mem_given.1 (by simp [hg])) (hk 2)

end Client

end Jobu.Rpc
