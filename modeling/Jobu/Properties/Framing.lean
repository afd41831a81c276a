import Mathlib.Data.List.Forall2
import Mathlib.Data.Nat.Digits.Lemmas
import Jobu.Rpc.Fragments

/-!
# Framing

  > `frames_round_trip`: what the encoder writes the framer returns, however the stream is cut.
  > `framing_ignores_fragments`: the same for every stream, well formed or not, with the bound on what
    is kept.

Both rest on the framer as a machine that takes one byte at a time (`Rpc.StreamFramer.advance`): only
the stream matters, so the round trip is about one frame read from a fresh framer.
-/

namespace Jobu

open Lib List

namespace Rpc

/-! ## Lengths in decimal -/

/-- A digit as a byte. -/
def digitByte (digit : Nat) : UInt8 := byte '0' + digit.toUInt8

theorem decimal_eq (n : Nat) : ∃ digits : List Nat, digits ≠ [] ∧ (∀ digit ∈ digits, digit < 10) ∧
    decimal n = digits.map digitByte ∧ digits.foldl (fun value digit => value * 10 + digit) 0 = n := by
  unfold decimal
  by_cases hn : n = 0
  · rw [if_pos hn]
    exact ⟨[0], by simp, by simp, rfl, hn.symm⟩
  rw [if_neg hn]
  refine ⟨(Nat.digits 10 n).reverse, ?_, ?_, rfl, ?_⟩
  · simpa [Nat.digits_eq_nil_iff_eq_zero] using hn
  · intro _ hd
    exact Nat.digits_lt_base (by decide) (mem_reverse.1 hd)
  -- reading from the left is the value of the digits from the right
  rw [foldl_reverse]
  have hv := Nat.ofDigits_digits 10 n
  rw [Nat.ofDigits_eq_foldr] at hv
  conv_rhs => rw [← hv]
  congr 1
  funext _ _
  push_cast
  ring

/-- What the parsers see in a digit. -/
theorem digitByte_spec : ∀ digit < 10, ¬ (digitByte digit < byte '0' ∨ byte '9' < digitByte digit) ∧
    (digitByte digit - byte '0').toNat = digit ∧ isOws (digitByte digit) = false ∧
    isFieldValueCharacter (digitByte digit) = true ∧ digitByte digit ≠ byte '\r' ∧ digitByte digit ≠ byte '\n' := by
  decide

theorem le_foldl_digits (digits : List Nat) (value : Nat) :
    value ≤ digits.foldl (fun value digit => value * 10 + digit) value := by
  induction digits generalizing value with
  | nil => exact le_refl _
  | cons digit _ ih => exact le_trans (by omega) (ih (value * 10 + digit))

/-- Digits whose value fits are read back. -/
theorem parseDigits_digits {digits : List Nat} (hdi : ∀ digit ∈ digits, digit < 10) {value : Nat}
    (hfi : digits.foldl (fun value digit => value * 10 + digit) value ≤ maximumSize) :
    parseDigits value (digits.map digitByte) = .ok (digits.foldl (fun value digit => value * 10 + digit) value) := by
  induction digits generalizing value with
  | nil => rfl
  | cons digit rest ih =>
    obtain ⟨hr, hv, -⟩ := digitByte_spec digit (hdi digit mem_cons_self)
    have hn : value * 10 + digit ≤ maximumSize := (le_foldl_digits rest _).trans hfi
    rw [map_cons, parseDigits, if_neg hr]
    show (if (maximumSize - (digitByte digit - byte '0').toNat) / 10 < value then _ else _) = _
    rw [hv, if_neg (by omega)]
    exact ih (fun d hd => hdi d (mem_cons_of_mem digit hd)) hfi

variable {value : Bytes}

theorem dropWhile_ows (h : ∀ b ∈ value, isOws b = false) : value.dropWhile isOws = value := by
  cases value with
  | nil => rfl
  | cons b => rw [dropWhile_cons_of_neg (by simp [h b mem_cons_self])]

theorem rdropWhile_ows (h : ∀ b ∈ value, isOws b = false) : value.rdropWhile isOws = value := by
  rw [rdropWhile_eq_self_iff]
  intro hn
  simp [h _ (getLast_mem hn)]

variable {n : Nat}

theorem parseContentLength_decimal (hn : n ≤ maximumSize) : parseContentLength (byte ' ' :: decimal n) = .ok n := by
  obtain ⟨digits, hne, hdi, hde, hv⟩ := decimal_eq n
  have hp : ∀ b ∈ digits.map digitByte, isOws b = false := by
    intro b hb
    obtain ⟨digit, hd, rfl⟩ := mem_map.1 hb
    exact (digitByte_spec digit (hdi digit hd)).2.2.1
  have htr : trimOws (byte ' ' :: decimal n) = digits.map digitByte := by
    unfold trimOws
    rw [hde, dropWhile_cons_of_pos (by decide), dropWhile_ows hp, rdropWhile_ows hp]
  unfold parseContentLength
  rw [htr, if_neg (by simpa using hne), parseDigits_digits hdi (hv.trans_le hn), hv]

/-! ## Headers -/

/-- Neither byte of a line end. -/
def Plain (bytes : Bytes) : Prop := ∀ b ∈ bytes, b ≠ byte '\r' ∧ b ≠ byte '\n'

variable {line : Bytes}

theorem splitLine_plain (h : Plain line) : splitLine line = (line, []) := by
  induction line with
  | nil => rfl
  | cons b _ ih =>
    have hb := (h b mem_cons_self).1
    rw [splitLine, if_neg fun hl => hb hl.1, ih fun c hc => h c (mem_cons_of_mem b hc)]

/-- The header of the encoder without its end. -/
def lengthLine (n : Nat) : Bytes := text "Content-Length: " ++ decimal n

theorem decimal_plain (n : Nat) : Plain (decimal n) := by
  obtain ⟨_, -, hdi, hde, -⟩ := decimal_eq n
  intro b hb
  rw [hde] at hb
  obtain ⟨digit, hd, rfl⟩ := mem_map.1 hb
  exact (digitByte_spec digit (hdi digit hd)).2.2.2.2

theorem lengthLine_plain (n : Nat) : Plain (lengthLine n) := by
  intro b hb
  rcases mem_append.1 hb with hb | hb
  · have hl : ∀ c ∈ text "Content-Length: ", c ≠ byte '\r' ∧ c ≠ byte '\n' := by decide +kernel
    exact hl b hb
  · exact decimal_plain n b hb

theorem parseLine_lengthLine (n : Nat) :
    parseLine {} (lengthLine n) = .ok { contentLength := some (byte ' ' :: decimal n) } := by
  have hv : (byte ' ' :: decimal n).all isFieldValueCharacter = true := by
    obtain ⟨_, -, hdi, hde, -⟩ := decimal_eq n
    rw [all_cons, hde]
    refine Bool.and_eq_true_iff.2 ⟨by decide, all_eq_true.2 fun b hb => ?_⟩
    obtain ⟨digit, hd, rfl⟩ := mem_map.1 hb
    exact (digitByte_spec digit (hdi digit hd)).2.2.2.1
  have hn : (lengthLine n).takeWhile (· ≠ byte ':') = text "Content-Length" := rfl
  have hr : ((lengthLine n).dropWhile (· ≠ byte ':')).drop 1 = byte ' ' :: decimal n := rfl
  have hc : byte ':' ∈ lengthLine n := mem_append_left _ (by decide)
  have hto : (text "Content-Length").all isTokenCharacter = true := by decide
  unfold parseLine
  rw [hn, hr, if_neg (by simp [hc, text]), if_neg (by simp [hv, hto])]
  rfl

theorem take_front (line : Bytes) : (line ++ text "\r\n\r\n").take ((line ++ text "\r\n\r\n").length - 4) = line := by
  have hl : (line ++ text "\r\n\r\n").length - 4 = line.length := by
    rw [length_append]
    exact Nat.add_sub_cancel _ 4
  rw [hl, take_left]

/-- **The header of the encoder is accepted, with its length.** -/
theorem parseHeader_lengthLine {limits : FramingLimits} (hn : n ≤ limits.maxBodyBytes) :
    parseHeader (lengthLine n ++ text "\r\n\r\n") limits = .ok n := by
  have hfi : parseLines {} (lengthLine n) = .ok { contentLength := some (byte ' ' :: decimal n) } := by
    rw [parseLines, if_neg (by simp [lengthLine, text]), splitLine_plain (lengthLine_plain n), parseLine_lengthLine]
    show parseLines _ [] = _
    rw [parseLines, if_pos rfl]
  have hl := parseContentLength_decimal (hn.trans limits.body_le)
  unfold parseHeader
  rw [take_front, hfi]
  simp only [bind, Except.bind, Option.elim, hl]
  rw [if_neg (by omega)]
  rfl

theorem hasHeaderTerminator_iff {header : Bytes} :
    hasHeaderTerminator header = true ↔ ∃ front, front ++ text "\r\n\r\n" = header := by
  unfold hasHeaderTerminator
  rw [isSuffixOf_iff_suffix]
  rfl

variable {b : UInt8}

/-- A header that does not end with a line feed goes on. -/
theorem hasHeaderTerminator_of_ne {header : Bytes} (hb : b ≠ byte '\n') :
    hasHeaderTerminator (header ++ [b]) = false := by
  rw [Bool.eq_false_iff]
  intro he
  obtain ⟨_, hfr⟩ := hasHeaderTerminator_iff.1 he
  have hl := congrArg getLast? hfr
  rw [getLast?_append, getLast?_concat] at hl
  exact hb (Option.some.inj hl).symm

/-- The end of the first line is not the end of the header. -/
theorem hasHeaderTerminator_line (h : Plain line) : hasHeaderTerminator (line ++ text "\r\n") = false := by
  rw [Bool.eq_false_iff]
  intro he
  obtain ⟨front, hfr⟩ := hasHeaderTerminator_iff.1 he
  have hbo : front ++ text "\r\n" ++ text "\r\n" = line ++ text "\r\n" := by
    rw [← hfr, append_assoc]
    rfl
  have hl : front ++ text "\r\n" = line := append_cancel_right hbo
  exact (h (byte '\n') (hl ▸ mem_append_right front (by decide))).2 rfl

namespace StreamFramer

variable {limits : FramingLimits}

variable {received : Bytes} {fits : received.length ≤ limits.maxHeaderBytes}

theorem advance_header (hfi : (received ++ [b]).length ≤ limits.maxHeaderBytes)
    (hbr : breaksLine received b = false) (hm : hasHeaderTerminator (received ++ [b]) = false) :
    (header received fits).advance b = (.header (received ++ [b]) hfi, []) := by
  have hr : ¬ limits.maxHeaderBytes ≤ received.length := by
    rw [length_append, length_singleton] at hfi
    omega
  simp [advance, hr, hbr, hm]

theorem getLast?_plain (h : Plain received) : received.getLast? ≠ some (byte '\r') := by
  intro hl
  exact (h _ (mem_of_getLast? hl)).1 rfl

theorem feed_plain {piece : Bytes} (hr : Plain received) (hpi : Plain piece)
    (hfi : (received ++ piece).length ≤ limits.maxHeaderBytes) :
    feed advance (.header received fits) piece = (.header (received ++ piece) hfi, []) := by
  induction piece generalizing received with
  | nil => simp [feed]
  | cons b rest ih =>
    have hb := hpi b mem_cons_self
    have hre : (received ++ [b] ++ rest).length ≤ limits.maxHeaderBytes := by simpa using hfi
    have ho : (received ++ [b]).length ≤ limits.maxHeaderBytes := by
      rw [length_append] at hre
      omega
    have hbr : breaksLine received b = false := by simp [breaksLine, getLast?_plain hr, hb.2]
    have hp : Plain (received ++ [b]) := by
      intro c hc
      rcases mem_append.1 hc with hc | hc
      · exact hr c hc
      · rw [mem_singleton.1 hc]
        exact hb
    rw [feed_cons, advance_header ho hbr (hasHeaderTerminator_of_ne hb.2),
      ih hp (fun c hc => hpi c (mem_cons_of_mem b hc)) hre]
    simp

variable {body : Bytes}

/-- The last byte of a header that is accepted, and the body it announces. -/
theorem feed_announced (hfi : (received ++ [b]).length ≤ limits.maxHeaderBytes)
    (hbr : breaksLine received b = false) (he : hasHeaderTerminator (received ++ [b]) = true)
    (hp : parseHeader (received ++ [b]) limits = .ok body.length) :
    feed advance (.header received fits) (b :: body) = (fresh limits, [body]) := by
  have hr : ¬ limits.maxHeaderBytes ≤ received.length := by
    rw [length_append, length_singleton] at hfi
    omega
  have hstep : (header received fits).advance b = if h : body.length = 0 then (fresh limits, [[]])
    else (.body body.length [] (Nat.pos_of_ne_zero h) (parseHeader_le hp), []) := by
    rw [advance, dif_neg hr, if_neg (by simp [hbr]), if_neg (by simp [he])]
    split <;> grind
  cases body with
  | nil =>
    rw [dif_pos length_nil] at hstep
    rw [feed_cons, hstep]
    rfl
  | cons =>
    rw [dif_neg (by simp)] at hstep
    rw [feed_cons, hstep, feed_body_complete (by simp)]
    rfl

/-- The end of a header of one line, and the body it announces. -/
theorem feed_line_end {fits : line.length ≤ limits.maxHeaderBytes}
    (hli : Plain line) (hsi : (line ++ text "\r\n\r\n").length ≤ limits.maxHeaderBytes)
    (hp : parseHeader (line ++ text "\r\n\r\n") limits = .ok body.length) :
    feed advance (.header line fits) (text "\r\n\r\n" ++ body) = (fresh limits, [body]) := by
  have hl : line.length + 4 ≤ limits.maxHeaderBytes := by
    rw [length_append] at hsi
    exact hsi
  have hw : line ++ [byte '\r'] ++ [byte '\n'] ++ [byte '\r'] ++ [byte '\n'] = line ++ text "\r\n\r\n" := by
    simp only [append_assoc]
    rfl
  have hh : line ++ [byte '\r'] ++ [byte '\n'] = line ++ text "\r\n" := by
    simp only [append_assoc]
    rfl
  show feed advance _ (byte '\r' :: byte '\n' :: byte '\r' :: byte '\n' :: body) = _
  have hr : byte '\r' ≠ byte '\n' := by decide
  rw [feed_cons, advance_header (by simp; omega) (by simp [breaksLine, getLast?_plain hli, hr])
    (hasHeaderTerminator_of_ne hr)]
  rw [feed_cons, advance_header (by simp; omega) (by simp [breaksLine])
    (hh ▸ hasHeaderTerminator_line hli)]
  rw [feed_cons, advance_header (by simp; omega) (by simp [breaksLine, hr, hr.symm])
    (hasHeaderTerminator_of_ne hr)]
  rw [feed_announced (by simp; omega) (by simp [breaksLine])
    (hasHeaderTerminator_iff.2 ⟨line, hw.symm⟩) (hw ▸ hp)]
  rfl

/-- **A frame of the encoder is read as its body, and nothing of it is kept.** -/
theorem feed_frame {frame : Bytes} (h : frameMessage body limits = .ok frame) :
    feed advance (fresh limits) frame = (fresh limits, [body]) := by
  unfold frameMessage at h
  split at h
  · cases h
  simp only at h
  split at h
  · cases h
  rename_i hbo hh
  cases h
  have hsi : (lengthLine body.length ++ text "\r\n\r\n").length ≤ limits.maxHeaderBytes := not_lt.1 hh
  have hl : ([] ++ lengthLine body.length).length ≤ limits.maxHeaderBytes := by
    rw [length_append] at hsi
    exact (Nat.le_add_right _ _).trans hsi
  have hr : feed advance (fresh limits) (lengthLine body.length) =
    (.header ([] ++ lengthLine body.length) hl, []) :=
    feed_plain (fun _ hb => by cases hb) (lengthLine_plain body.length) hl
  simp only [nil_append] at hr
  rw [append_assoc]
  show feed advance (fresh limits) (lengthLine body.length ++ _) = _
  rw [feed_append, hr, feed_line_end (lengthLine_plain _) hsi (parseHeader_lengthLine (not_lt.1 hbo))]
  rfl

theorem feed_frames {bodies frames : List Bytes}
    (h : List.Forall₂ (fun body frame => frameMessage body limits = .ok frame) bodies frames) :
    feed advance (fresh limits) frames.flatten = (fresh limits, bodies) := by
  induction h with
  | nil => rfl
  | cons hfr _ ih =>
    rw [flatten_cons, feed_append, feed_frame hfr, ih]
    rfl

end StreamFramer

/-! ## Whole streams -/

open StreamFramer

/-- **Framing round trip under any fragmentation.**  The frames of some bodies, cut anywhere, are read
as those bodies by a fresh framer, over all calls together, and nothing is kept at the end. -/
theorem frames_round_trip {limits : FramingLimits} {bodies frames fragments : List Bytes}
    (hframes : List.Forall₂ (fun body frame => frameMessage body limits = .ok frame) bodies frames)
    (hcut : fragments.flatten = frames.flatten) :
    ∃ answers : List (List Bytes), (fresh limits).appendAll fragments = (answers.map .ok, fresh limits) ∧
      answers.flatten = bodies ∧ (fresh limits).bufferedBytes = 0 := by
  have hfe := feed_frames hframes
  rw [← hcut] at hfe
  have hl : ((fresh limits).appendAll fragments).2 = fresh limits := by rw [appendAll_snd, hfe]
  have han : ((fresh limits).appendAll fragments).1 =
    (feedAll advance (fresh limits) fragments).2.map .ok := appendAll_fst (by rw [hl]; rfl)
  refine ⟨(feedAll advance (fresh limits) fragments).2, Prod.ext han hl, ?_, rfl⟩
  rw [feed_flatten] at hfe
  exact congrArg Prod.snd hfe

/-- Two bodies, one of them empty, in fragments that cut a line end and a body. -/
theorem frames_round_trip_cut_line_end : let body := text "hi"
    let frames := [text "Content-Length: 2\r\n\r\nhi", text "Content-Length: 0\r\n\r\n"]
    let fragments := [text "Content-Length: 2\r", text "\n\r\nh", [],
      text "iContent-Length: 0\r\n\r", text "\n"]
    ∃ answers : List (List Bytes),
      (fresh {}).appendAll fragments = (answers.map .ok, fresh {}) ∧ answers.flatten = [body, []] ∧
        frames.length = 2 := by
  intro body frames fragments
  obtain ⟨answers, hal, hbo, -⟩ := @frames_round_trip {} [body, []] frames fragments
    (.cons (by decide) (.cons (by decide) .nil)) (by decide)
  exact ⟨answers, hal, hbo, rfl⟩

/-- The calls of a framer. -/
inductive FramerCall where
  | append (bytes : Bytes)
  | reset

namespace StreamFramer

variable {limits : FramingLimits}

/-- The framer after a call. -/
def call (framer : StreamFramer limits) : FramerCall → StreamFramer limits
  | .append bytes => (framer.append bytes).2
  | .reset => fresh limits

/-- Whatever the framer has been through, it keeps no more than one header or one body. -/
theorem bufferedBytes_le (framer : StreamFramer limits) :
    framer.bufferedBytes ≤ limits.maxHeaderBytes + limits.maxBodyBytes := by
  cases framer with
  | header _ fits => exact fits.trans (Nat.le_add_right _ _)
  | body _ _ short fits => exact (short.le.trans fits).trans (Nat.le_add_left _ _)
  | failed => exact Nat.zero_le _

end StreamFramer

/-- **Framing does not depend on the fragments, and it is bounded.**  Two ways to cut a stream end
with the same error, or with the same bodies and the same bytes kept; after any calls no more than a
header and a body is kept; and a poisoned framer gives its error to every call. -/
theorem framing_ignores_fragments (limits : FramingLimits) :
    (∀ (framer : StreamFramer limits) (fragments fragments' : List Bytes),
      fragments.flatten = fragments'.flatten → (∃ error, (framer.appendAll fragments).2 = .failed error ∧
        (framer.appendAll fragments').2 = .failed error) ∨ ((framer.appendAll fragments).2.failure = none ∧
        (framer.appendAll fragments').2 = (framer.appendAll fragments).2 ∧
        messagesOf (framer.appendAll fragments').1 = messagesOf (framer.appendAll fragments).1)) ∧
    (∀ calls : List FramerCall, (calls.foldl StreamFramer.call (fresh limits)).bufferedBytes ≤
      limits.maxHeaderBytes + limits.maxBodyBytes) ∧
    ∀ (framer : StreamFramer limits) (error : Error), framer.failure = some error →
      ∀ fragments, framer.appendAll fragments = (fragments.map fun _ => .error error, framer) := by
  refine ⟨fun framer fragments fragments' hc => ?_, fun calls => bufferedBytes_le _,
    fun framer error hfa fragments => ?_⟩
  · have hst : (framer.appendAll fragments').2 = (framer.appendAll fragments).2 := by
      rw [appendAll_snd, appendAll_snd, hc]
    have hm : ∀ fragments : List Bytes, (framer.appendAll fragments).2.failure = none →
      messagesOf (framer.appendAll fragments).1 = (feed advance framer fragments.flatten).2 := by
      intro fragments hno
      rw [appendAll_fst hno, feed_flatten, messagesOf, flatMap_map]
      exact flatMap_id'
    cases hl : (framer.appendAll fragments).2 with
    | failed error => exact .inl ⟨error, rfl, hst.trans hl⟩
    | header _ _ | body _ _ _ _ =>
      have hno : (framer.appendAll fragments).2.failure = none := by rw [hl]; rfl
      refine .inr ⟨rfl, hst.trans hl, ?_⟩
      rw [hm fragments hno, hm fragments' (hst ▸ hno), hc]
  · cases framer with
    | failed _ =>
      cases hfa
      exact appendAll_failed _ fragments
    | header _ _ | body _ _ _ _ => cases hfa

/-- A carriage return that is cut from the byte after it breaks the framing all the same. -/
theorem framing_ignores_fragments_lone_return : ∃ error, ((fresh {}).appendAll [text "A\rB"]).2 = .failed error ∧
      ((fresh {}).appendAll [text "A\r", text "B"]).2 = .failed error := by
  refine ((framing_ignores_fragments {}).1 (fresh {}) [text "A\rB"] [text "A\r", text "B"]
    (by decide)).resolve_right fun hno => ?_
  have hfa : ((fresh {}).appendAll [text "A\rB"]).2.failure = some (makeFramingError .invalidHeader) := by
    rw [appendAll_snd]
    rfl
  rw [hno.1] at hfa
  cases hfa

end Rpc

end Jobu
