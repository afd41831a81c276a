import Mathlib.Logic.Relation
import Jobu.Rpc.Client

/-!
# What a move of the client consists of

Every move is a number of small steps (`Small`), each of which changes the pending requests, the stack
or the log in one way.  What is proved of the client afterwards is proved of these steps.

  > `step_small`: a move is some small steps.
-/

namespace Jobu.Rpc

namespace Client

variable {options : ClientOptions}

/-- A place on the stack that nothing depends on once control is back. -/
inductive Frame.Passing : Frame → Prop
  | reading : Passing .reading
  | delivering (entries : List (Nat × Outcome)) (bodies : List Bytes) :
    Passing (.delivering entries bodies)
  | terminating : Passing (.terminating [])

/-- One small step. -/
inductive Small : Client options → Client options → Prop
  /-- The buffers and the flags of reading change. -/
  | quiet {c : Client options} {framer : StreamFramer options.framing} {queued : Nat}
    {terminal : Option Error} {processing pending : Bool} :
    Small c { c with
      framer, queuedOutputBytes := queued, terminalError := terminal,
      processingInput := processing, readPending := pending }
  | enter {c : Client options} {frame : Frame} (passing : frame.Passing) : Small c (c.push frame)
  | leave {c : Client options} {frame : Frame} {rest : List Frame} (passing : frame.Passing)
    (top : c.stack = frame :: rest) : Small c { c with stack := rest }
  | deliver {c : Client options} {id : Nat} {outcome : Outcome} (pending : id ∈ c.pendingIds) :
    Small c ({ c with pendingIds := c.pendingIds.erase id }.emit (.delivered id outcome))
  | cancel {c : Client options} {id : Nat} (live : c.closed = false) (pending : id ∈ c.pendingIds) :
    Small c ({ c with pendingIds := c.pendingIds.erase id }.emit (.cancelled id))
  | terminate {c : Client options} {error : Error} {first : List Error} (live : c.closed = false) :
    Small c (({ c with closed := true, pendingIds := ∅ }.push (.terminating
      (first.map Signal.protocolError ++ c.pendingIds.sort.map fun id => Signal.requestFailed id error))).emit
        (.terminated error))
  | signal {c : Client options} {signal : Signal} {signals : List Signal} {rest : List Frame}
    (top : c.stack = .terminating (signal :: signals) :: rest) :
    Small c (({ c with stack := rest }.push (.terminating signals)).emit signal.event)
  /-- A call is refused before anything is written. -/
  | refuse {c : Client options} {error : Error} :
    Small c ({ c with calls := c.calls + 1 }.emit (.returned c.calls (.error error)))
  /-- A call is refused after the client was terminated for it. -/
  | overflow {c : Client options} {error : Error} :
    Small c ({ c with calls := c.calls + 1 }.push (.returning c.calls (.error error)))
  | write {c : Client options} {size : Nat} (idle : c.writeInProgress = false)
    (number : c.nextRequestId ≠ 0) (room : c.pendingIds.card < options.maxPendingRequests) :
    Small c ({ c with calls := c.calls + 1, writeInProgress := true }.push
      (.writing (some (c.calls, c.nextRequestId)) size))
  | writeNotification {c : Client options} {size : Nat} (idle : c.writeInProgress = false) :
    Small c ({ c with writeInProgress := true }.push (.writing none size))
  | wroteNotification {c : Client options} {size : Nat} {rest : List Frame}
    (top : c.stack = .writing none size :: rest) :
    Small c { c with writeInProgress := false, stack := rest }
  /-- The client was terminated during the write. -/
  | wroteClosed {c : Client options} {token id size : Nat} {rest : List Frame} {error : Error}
    (top : c.stack = .writing (some (token, id)) size :: rest) :
    Small c ({ c with writeInProgress := false, stack := rest }.emit (.returned token (.error error)))
  | wroteShort {c : Client options} {token id size : Nat} {rest : List Frame} {error : Error}
    (top : c.stack = .writing (some (token, id)) size :: rest) :
    Small c ({ c with writeInProgress := false, stack := rest }.push (.returning token (.error error)))
  | accept {c : Client options} {token id size : Nat} {rest : List Frame} (live : c.closed = false)
    (top : c.stack = .writing (some (token, id)) size :: rest) :
    Small c ((({ c with
      writeInProgress := false, stack := rest,
      pendingIds := insert id c.pendingIds }.advanceRequestId id).push (.accepted token id)).emit
        (.accepted token id))
  | accepted {c : Client options} {token id : Nat} {rest : List Frame}
    (top : c.stack = .accepted token id :: rest) :
    Small c ({ c with stack := rest }.push (.returning token (.ok id)))
  | returned {c : Client options} {token : Nat} {result : Except Error Nat} {rest : List Frame}
    (top : c.stack = .returning token result :: rest) :
    Small c ({ c with stack := rest }.emit (.returned token result))

/-- Some small steps. -/
abbrev Smalls : Client options → Client options → Prop := Relation.ReflTransGen Small

variable {c : Client options}

theorem unwind_small : Smalls c c.unwind := by
  unfold unwind
  split
  next _ _ _ hto => exact .single (.returned hto)
  · exact .refl

theorem terminate_small (error : Error) (emitProtocolError : Bool) :
    Smalls c (c.terminate error emitProtocolError) := by
  unfold terminate
  split
  · exact .refl
  rename_i hl
  have ho : c.closed = false := Bool.eq_false_of_not_eq_true hl
  have hfi : (if emitProtocolError then [Signal.protocolError error] else []) =
    (if emitProtocolError then [error] else []).map Signal.protocolError := by
    cases emitProtocolError <;> rfl
  simp only [hfi]
  have hq : Small c { c with
    terminalError := some error, framer := .fresh options.framing, readPending := false,
    queuedOutputBytes := 0 } := .quiet
  exact .head hq (.single (.terminate ho))

theorem processReadable_small : Smalls c c.processReadable := by
  unfold processReadable
  split
  · exact unwind_small
  split
  · exact .head .quiet unwind_small
  · exact .head .quiet (.single (.enter .reading))

theorem endRead_small : Smalls c c.endRead := by
  unfold endRead
  split
  · exact .head .quiet (.single (.enter .reading))
  · exact .head .quiet unwind_small

theorem deliverEntries_small {bodies : List Bytes} {next : Client _ → Client _}
    (hn : ∀ c, Smalls c (next c)) (entries : List (Nat × Outcome)) :
    Smalls c (deliverEntries bodies next entries c) := by
  induction entries with
  | nil => exact hn c
  | cons entry more ih =>
    obtain ⟨id, outcome⟩ := entry
    rw [deliverEntries]
    split
    next hp =>
      -- the place on the stack is taken before the delivery
      have hd : Small (c.push (.delivering more bodies))
        ({ c.push (.delivering more bodies) with pendingIds := c.pendingIds.erase id }.emit
          (.delivered id outcome)) := .deliver hp
      exact .head (.enter (.delivering more bodies)) (.single hd)
    · exact ih

theorem processBodies_small (bodies : List Bytes) : Smalls c (processBodies bodies c) := by
  induction bodies generalizing c with
  | nil => exact endRead_small
  | cons _ _ ih =>
    rw [processBodies]
    split
    · exact terminate_small _ _
    · exact deliverEntries_small (fun c => ih) _

theorem processBytes_small (bytes : Bytes) : Smalls c (c.processBytes bytes) := by
  unfold processBytes
  split
  · exact unwind_small
  split
  · exact endRead_small
  split
  · exact .head .quiet (terminate_small _ _)
  · exact .head .quiet (processBodies_small _)

theorem afterDelivery_small (entries : List (Nat × Outcome)) (bodies : List Bytes) :
    Smalls c (c.afterDelivery entries bodies) := by
  unfold afterDelivery
  split
  · exact unwind_small
  · exact deliverEntries_small (fun _ => processBodies_small bodies) entries

theorem prepareCall_ok {method : Bytes} {params : Option JsonValue} {id : Nat} {frame : Bytes}
    (h : c.prepareCall method params = .ok (id, frame)) :
    c.closed = false ∧ c.writeInProgress = false ∧ id = c.nextRequestId ∧ c.nextRequestId ≠ 0 ∧
      c.pendingIds.card < options.maxPendingRequests := by
  unfold prepareCall at h
  split at h
  · cases h
  rename_i hl
  split at h
  · cases h
  rename_i hi
  simp only [bind, Except.bind] at h
  split at h
  · cases h
  split at h
  · cases h
  rename_i hn
  split at h
  · cases h
  split at h
  · cases h
  rename_i hr
  cases h
  exact ⟨Bool.eq_false_of_not_eq_true hl, Bool.eq_false_of_not_eq_true hi, rfl, hn, Nat.lt_of_not_le hr⟩

theorem call_small (method : Bytes) (params : Option JsonValue) : Smalls c (c.call method params) := by
  unfold call
  simp only
  split
  · exact .single .refuse
  rename_i id frame hp
  obtain ⟨hl, hi, rfl, hn, hr⟩ := prepareCall_ok hp
  unfold writeFrame
  rw [if_neg (by simpa using hl), if_neg (by simpa using hi)]
  split
  · exact .head .overflow (terminate_small _ _)
  · exact .head .quiet (.single (.write hi hn hr))

theorem notify_small (method : Bytes) (params : Option JsonValue) : Smalls c (c.notify method params) := by
  unfold notify
  split
  · exact .refl
  rename_i hr
  obtain ⟨hl, hi⟩ : c.closed = false ∧ c.writeInProgress = false := by simpa using hr
  split
  · exact .refl
  unfold writeFrame
  rw [if_neg (by simpa using hl), if_neg (by simpa using hi)]
  split
  · exact terminate_small _ _
  next frame _ _ =>
    have hq : Small c { c with queuedOutputBytes := c.queuedOutputBytes + frame.length } := .quiet
    exact .head hq (.single (.writeNotification hi))

theorem afterWrite_small {call : Option (Nat × Nat)} {size : Nat} {rest : List Frame}
    (hto : c.stack = .writing call size :: rest) (written : Nat) :
    Smalls c ({ c with stack := rest }.afterWrite call size written) := by
  cases call with
  | none =>
    simp only [afterWrite]
    have hd : Small c { c with writeInProgress := false, stack := rest } := .wroteNotification hto
    split
    · exact .single hd
    split
    · exact .head hd (terminate_small _ _)
    split
    · exact .head hd processReadable_small
    · exact .single hd
  | some call =>
    obtain ⟨_, _⟩ := call
    simp only [afterWrite]
    split
    · exact .single (.wroteClosed hto)
    rename_i hl
    split
    · exact .head (.wroteShort hto) (terminate_small _ _)
    · exact .single (.accept (Bool.eq_false_of_not_eq_true hl) hto)

theorem afterAccepted_small {token id : Nat} {rest : List Frame} (hto : c.stack = .accepted token id :: rest) :
    Smalls c ({ c with stack := rest }.afterAccepted token id) := by
  unfold afterAccepted
  simp only
  split
  · exact .head (.accepted hto) processReadable_small
  · exact .head (.accepted hto) unwind_small

theorem cancel_small (id : RequestId) : Smalls c (c.cancel id) := by
  unfold cancel
  split
  · exact .refl
  rename_i hl
  split
  · split
    next hp => exact .single (.cancel (Bool.eq_false_of_not_eq_true hl) hp)
    · exact .refl
  · exact .refl

theorem handleDeviceError_small (error : IOError) : Smalls c (c.handleDeviceError error) := by
  unfold handleDeviceError
  split
  · exact .refl
  · exact terminate_small _ _

theorem acknowledgeOutput_small (bytes : Nat) : Smalls c (c.acknowledgeOutput bytes) := by
  unfold acknowledgeOutput
  split
  · exact .refl
  · exact .single .quiet

theorem resume_small {c' : Client options} (h : c.step .resume = some c') : Smalls c c' := by
  simp only [step] at h
  split at h
  next _ _ rest hto =>
    cases h
    exact afterAccepted_small hto
  next entries bodies rest hto =>
    cases h
    exact .head (.leave (.delivering entries bodies) hto) (afterDelivery_small entries bodies)
  next _ hto =>
    cases h
    exact .head (.leave .terminating hto) unwind_small
  next signal _ _ hto =>
    cases h
    exact .single (.signal hto)
  · cases h

/-- **A move is some small steps.** -/
theorem step_small {move : Move} {c' : Client options} (h : c.step move = some c') : Smalls c c' := by
  cases move with
  | call method params => exact Option.some.inj h ▸ call_small method params
  | notify method params => exact Option.some.inj h ▸ notify_small method params
  | cancel id => exact Option.some.inj h ▸ cancel_small id
  | close | deviceClosed => exact Option.some.inj h ▸ terminate_small _ _
  | readyRead => exact Option.some.inj h ▸ processReadable_small
  | bytesWritten bytes => exact Option.some.inj h ▸ acknowledgeOutput_small bytes
  | deviceFailed error => exact Option.some.inj h ▸ handleDeviceError_small error
  | wrote bytes =>
    simp only [step] at h
    split at h
    next _ _ _ hto => exact Option.some.inj h ▸ afterWrite_small hto bytes
    · cases h
  | read bytes =>
    simp only [step] at h
    split at h
    next _ hto => exact Option.some.inj h ▸ .head (.leave .reading hto) (processBytes_small bytes)
    · cases h
  | resume => exact resume_small h

end Client

end Jobu.Rpc
