import Jobu.Lib.Transducer
import Jobu.Rpc.Framing

/-!
# The framer, one byte at a time

`append` reads a header byte by byte and a body in pieces as large as the fragment allows.  Both are the
same machine, which takes one byte at a time (`advance`), so that the answers and the state after a
fragment are those of `Lib.feed` (`append_eq_feed`), and the state after any fragments is that after
the stream they make (`appendAll_snd`).
-/

namespace Jobu

open Lib List

namespace Rpc

namespace StreamFramer

variable {expected : Nat} {received piece : Bytes} {character : UInt8}

variable {limits : FramingLimits}

theorem header_room (room : ¬limits.maxHeaderBytes ≤ received.length) :
    (received ++ [character]).length ≤ limits.maxHeaderBytes := by
  rw [List.length_append, List.length_singleton]
  omega

theorem parsed_le {length : Nat} (parsed : parseHeader (received ++ [character]) limits = .ok (length + 1)) :
    length + 1 ≤ limits.maxBodyBytes := parseHeader_le parsed

theorem body_room (short : received.length < expected) (more : ¬received.length + 1 = expected) :
    (received ++ [character]).length < expected := by
  rw [List.length_append, List.length_singleton]
  omega

/-- One byte: the next state and the message that the byte completes. -/
def advance (framer : StreamFramer limits) (character : UInt8) : StreamFramer limits × List Bytes :=
  match framer with
  | .failed error => (.failed error, [])
  | .header received _ =>
    if room : limits.maxHeaderBytes ≤ received.length then
      (.failed (makeFramingError .headerTooLarge), [])
    else if breaksLine received character then (.failed (makeFramingError .invalidHeader), [])
    else if hasHeaderTerminator (received ++ [character]) = false then
      (.header (received ++ [character]) (header_room room), [])
    else
      match parsed : parseHeader (received ++ [character]) limits with
      | .error failure => (.failed (makeFramingError failure), [])
      | .ok 0 => (fresh limits, [[]])
      | .ok (length + 1) =>
        (.body (length + 1) [] (Nat.succ_pos _) (parsed_le parsed), [])
  | .body expected received short fits =>
    if complete : received.length + 1 = expected then (fresh limits, [received ++ [character]])
    else (.body expected (received ++ [character]) (body_room short complete) fits, [])

theorem advance_failed (error : Error) (character : UInt8) :
    (failed error : StreamFramer limits).advance character = (.failed error, []) := rfl

variable {fits : expected ≤ limits.maxBodyBytes} {short : received.length < expected}

theorem advance_body (h : (received ++ [character]).length < expected) :
    (body expected received short fits).advance character = (.body expected (received ++ [character]) h fits, []) := by
  rw [length_append, length_singleton] at h
  exact dif_neg (by omega)

theorem advance_body_last (h : (received ++ [character]).length = expected) :
    (body expected received short fits).advance character = (fresh limits, [received ++ [character]]) := by
  rw [length_append, length_singleton] at h
  exact dif_pos h

theorem feed_body_short {short : received.length < expected} {fits : expected ≤ limits.maxBodyBytes}
    (h : (received ++ piece).length < expected) :
    feed advance (.body expected received short fits) piece = (.body expected (received ++ piece) h fits, []) := by
  induction piece generalizing received with
  | nil => simp [feed]
  | cons character rest ih =>
    have hr : (received ++ [character] ++ rest).length < expected := by simpa using h
    have hn : (received ++ [character]).length < expected := by
      rw [length_append] at hr
      omega
    rw [feed_cons, advance_body hn, ih hr]
    simp

theorem feed_body_complete (h : (received ++ piece).length = expected) :
    feed advance (.body expected received short fits) piece = (fresh limits, [received ++ piece]) := by
  -- all bytes but the last
  obtain ⟨front, last, rfl⟩ : ∃ front last, piece = front ++ [last] := by
    refine (eq_nil_or_concat' piece).resolve_left ?_
    rintro rfl
    rw [append_nil] at h
    omega
  rw [← append_assoc] at h ⊢
  have hfr : (received ++ front).length < expected := by
    rw [length_append, length_singleton] at h
    omega
  rw [feed_append, feed_body_short hfr, feed_cons, advance_body_last h]
  rfl

/-! ## A fragment -/

/-- The answer and the state of a call that reads its bytes so, after these messages. -/
def conclude (messages : List Bytes) :
    StreamFramer limits × List Bytes → Except Error (List Bytes) × StreamFramer limits
  | (.failed error, _) => (.error error, .failed error)
  | (framer, completed) => (.ok (messages ++ completed), framer)

variable {completed : List Bytes}

theorem conclude_append {framer next : StreamFramer limits}
    (h : feed advance framer piece = (next, completed)) (messages : List Bytes) (rest : Bytes) :
    conclude messages (feed advance framer (piece ++ rest)) =
      conclude (messages ++ completed) (feed advance next rest) := by
  rw [feed_append, h]
  cases hl : feed advance next rest with
  | mk last => cases last <;> simp [conclude]

variable {framer : StreamFramer limits}

theorem conclude_cons {next : StreamFramer limits}
    (h : framer.advance character = (next, completed)) (messages : List Bytes) (rest : Bytes) :
    conclude messages (feed advance framer (character :: rest)) =
      conclude (messages ++ completed) (feed advance next rest) :=
  conclude_append (show feed advance framer [character] = (next, completed) by simp [feed, h])
    messages rest

/-- What follows a byte that breaks the framing is not read. -/
theorem conclude_failed {failure : FramingFailure}
    (h : framer.advance character = (.failed (makeFramingError failure), [])) (messages : List Bytes) (rest : Bytes) :
    conclude messages (feed advance framer (character :: rest)) = poison failure := by
  rw [conclude_cons h, feed_stuck (advance_failed _)]
  rfl

/-- **The loop does what one byte after the other does.** -/
theorem appendLoop_eq_feed (framer : StreamFramer limits) (hfr : framer.failure = none)
    (messages : List Bytes) (bytes : Bytes) :
    framer.appendLoop messages bytes = conclude messages (feed advance framer bytes) := by
  fun_induction appendLoop framer messages bytes with
  | case1 framer =>
    cases framer with
    | failed => cases hfr
    | header _ _ | body _ _ _ _ => simp [feed, conclude]
  | case2 => cases hfr
  | case3 _ _ _ _ _ room =>
    exact (conclude_failed (by simp [advance, room]) _ _).symm
  | case4 _ _ _ _ _ room breaks =>
    exact (conclude_failed (by simp [advance, room, breaks]) _ _).symm
  | case5 _ character _ received fits room breaks more ih =>
    have hstep : (header received fits).advance character =
        (.header (received ++ [character]) (by simp; omega), []) := by
      simp [advance, room, breaks, more]
    rw [conclude_cons hstep, append_nil]
    exact ih rfl
  | case6 _ _ _ _ _ room breaks more =>
    refine (conclude_failed ?_ _ _).symm
    rw [advance, dif_neg room, if_neg breaks, if_neg more]
    split <;> simp_all
  | case7 _ character _ received fits room breaks more _ ih =>
    have hstep : (header received fits).advance character = (fresh limits, [[]]) := by
      rw [advance, dif_neg room, if_neg breaks, if_neg more]
      split <;> simp_all
    rw [conclude_cons hstep]
    exact ih rfl
  | case8 _ character _ received fits room breaks more length parsed ih =>
    have hstep : (header received fits).advance character =
        (.body (length + 1) [] (Nat.succ_pos _) (parseHeader_le parsed), []) := by
      rw [advance, dif_neg room, if_neg breaks, if_neg more]
      split <;> grind
    rw [conclude_cons hstep, append_nil]
    exact ih rfl
  | case9 _ character rest _ _ _ _ count _ complete ih =>
    rw [← take_append_drop count (character :: rest), conclude_append (feed_body_complete complete)]
    rw [take_append_drop]
    exact ih rfl
  | case10 _ character rest expected _ _ _ count collected incomplete ih =>
    have hsh : collected.length < expected := by
      refine lt_of_le_of_ne ?_ incomplete
      simp only [collected, count, length_append, length_take, length_cons]
      omega
    rw [← take_append_drop count (character :: rest), conclude_append (feed_body_short hsh), append_nil]
    rw [take_append_drop]
    exact ih rfl

/-- **A fragment is read as its bytes are.** -/
theorem append_eq_feed (framer : StreamFramer limits) (bytes : Bytes) :
    framer.append bytes = conclude [] (feed advance framer bytes) := by
  cases framer with
  | failed error =>
    rw [feed_stuck (advance_failed error)]
    rfl
  | header | body => exact appendLoop_eq_feed _ rfl [] bytes

/-! ## A stream of fragments -/

/-- The messages of some calls, in their order. -/
def messagesOf (answers : List (Except Error (List Bytes))) : List Bytes :=
  answers.flatMap fun answer => answer.toOption.getD []

theorem append_snd (framer : StreamFramer limits) (bytes : Bytes) :
    (framer.append bytes).2 = (feed advance framer bytes).1 := by
  rw [append_eq_feed]
  cases feed advance framer bytes with
  | mk next => cases next <;> rfl

/-- **The state after some fragments is the one after the stream they make.** -/
theorem appendAll_snd (framer : StreamFramer limits) (fragments : List Bytes) :
    (framer.appendAll fragments).2 = (feed advance framer fragments.flatten).1 := by
  induction fragments generalizing framer with
  | nil => rfl
  | cons fragment _ ih =>
    rw [flatten_cons, feed_append, ← append_snd framer fragment]
    exact ih _

/-- **A poisoned framer gives its error to every call.** -/
theorem appendAll_failed (error : Error) (fragments : List Bytes) :
    (failed error : StreamFramer limits).appendAll fragments =
      (fragments.map fun _ => .error error, .failed error) := by
  induction fragments with
  | nil => rfl
  | cons _ rest ih =>
    show (_ :: ((failed error).appendAll rest).1, ((failed error).appendAll rest).2) = _
    rw [ih]
    rfl

/-- **The messages of some fragments are those of the stream they make**, unless the framing broke. -/
theorem appendAll_fst {framer : StreamFramer limits} {fragments : List Bytes}
    (h : (framer.appendAll fragments).2.failure = none) :
    (framer.appendAll fragments).1 = (feedAll advance framer fragments).2.map .ok := by
  induction fragments generalizing framer with
  | nil => rfl
  | cons fragment rest ih =>
    have hl : ((framer.append fragment).2.appendAll rest).2.failure = none := h
    have hfi : (framer.append fragment).2.failure = none := by
      cases hn : (framer.append fragment).2 with
      | failed =>
        rw [hn, appendAll_failed] at hl
        cases hl
      | header _ _ | body _ _ _ _ => rfl
    have han : (framer.append fragment).1 = .ok (feed advance framer fragment).2 := by
      rw [append_snd] at hfi
      rw [append_eq_feed]
      cases hfe : feed advance framer fragment with
      | mk next =>
        rw [hfe] at hfi
        cases next with
        | failed => cases hfi
        | header _ _ | body _ _ _ _ => simp [conclude]
    have hr := ih hl
    show (framer.append fragment).1 :: ((framer.append fragment).2.appendAll rest).1 = _
    rw [han, hr, append_snd]
    rfl

end StreamFramer

end Rpc

end Jobu
