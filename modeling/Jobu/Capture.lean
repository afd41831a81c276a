import Jobu.Domain
import Mathlib.Data.List.Rotate

/-!
# Captured output

`cli_capture_priv.cpp` and `http_capture_priv.cpp`: of a stream that comes in chunks, a buffer keeps the first
half of its limit and the last half.  The last half is a ring once it is full, and `suffixStart` is the place of
its oldest byte.  `Captures` says which bytes of the stream a buffer holds; every append keeps it.
-/

namespace Jobu.Capture

open List

abbrev Bytes := List UInt8

/-- `CliCaptureBuffer`, and `CaptureBuffer` of the HTTP client. -/
structure Buffer where
  limit : Nat
  prefixBytes : Bytes := []
  suffixBytes : Bytes := []
  suffixStart : Nat := 0
  totalBytes : Nat := 0

structure Captured where
  bytes : Bytes
  totalBytes : Nat
  truncated : Bool

def maxTotal : Nat := 2 ^ 64 - 1

def cliCaptureError (detail : String) : Error :=
  { category := .internal, code := "jobu.cli.capture_failed", message := "CLI output capture failed", detail }

def httpCaptureError (detail : String) : Error :=
  { category := .internal, code := "net.http.internal", message := "HTTP capture failed", detail }

/-- `std::copy` to a place inside. -/
def overwrite (target : Bytes) (start : Nat) (source : Bytes) : Bytes :=
  target.take start ++ source ++ target.drop (start + source.length)

def appendSuffix (buffer : Buffer) (bytes : Bytes) : Buffer :=
  let suffixLimit := buffer.limit / 2
  if suffixLimit = 0 ∨ bytes = [] then buffer
  else
    let initial := min (suffixLimit - buffer.suffixBytes.length) bytes.length
    let suffix := buffer.suffixBytes ++ bytes.take initial
    let left := bytes.drop initial
    if left = [] then { buffer with suffixBytes := suffix }
    else if suffixLimit ≤ left.length then
      { buffer with suffixBytes := left.drop (left.length - suffixLimit), suffixStart := 0 }
    else
      let first := min left.length (suffixLimit - buffer.suffixStart)
      { buffer with
        suffixBytes := overwrite (overwrite suffix buffer.suffixStart (left.take first)) 0 (left.drop first)
        suffixStart := (buffer.suffixStart + left.length) % suffixLimit }

/-- What both `append`s do with the bytes. -/
def retain (buffer : Buffer) (bytes : Bytes) : Buffer :=
  let prefixLimit := buffer.limit / 2 + buffer.limit % 2
  let prefixCount := min (prefixLimit - buffer.prefixBytes.length) bytes.length
  appendSuffix { buffer with
    prefixBytes := buffer.prefixBytes ++ bytes.take prefixCount
    totalBytes := buffer.totalBytes + bytes.length } (bytes.drop prefixCount)

/-- `CliCaptureBuffer::append`. -/
def cliAppend (buffer : Buffer) (bytes : Bytes) : Except Error Buffer :=
  if maxTotal - buffer.totalBytes < bytes.length then .error (cliCaptureError "capture_total_overflow")
  else .ok (retain buffer bytes)

def checkedCaptureAppendSize (total elementSize elementCount : Nat) : Except Error Nat :=
  if elementSize ≠ 0 ∧ maxTotal / elementSize < elementCount then .error (httpCaptureError "capture_size_overflow")
  else if maxTotal - total < elementSize * elementCount then .error (httpCaptureError "capture_total_overflow")
  else .ok (elementSize * elementCount)

/-- `CaptureBuffer::append`; the memory that `data` points to, or no memory. -/
def httpAppend (buffer : Buffer) (data : Option Bytes) (elementSize elementCount : Nat) : Except Error Buffer := do
  let byteCount ← checkedCaptureAppendSize buffer.totalBytes elementSize elementCount
  if byteCount = 0 then .ok buffer
  else
    match data with
    | none => .error (httpCaptureError "capture_null_data")
    | some memory => .ok (retain buffer (memory.take byteCount))

/-- `take`, with the buffer it leaves behind. -/
def take (buffer : Buffer) : Captured × Buffer :=
  let retained := buffer.prefixBytes ++
    if buffer.suffixBytes.length < buffer.limit / 2 ∨ buffer.suffixStart = 0 then buffer.suffixBytes
    else buffer.suffixBytes.drop buffer.suffixStart ++ buffer.suffixBytes.take buffer.suffixStart
  (⟨retained, buffer.totalBytes, decide (retained.length < buffer.totalBytes)⟩, { limit := buffer.limit })

/-! ## The ring -/

theorem overwrite_append (before old after new : Bytes) (h : old.length = new.length) :
    overwrite (before ++ (old ++ after)) before.length new = before ++ (new ++ after) := by
  rw [overwrite, take_left, ← h, ← length_append, ← append_assoc, drop_left, append_assoc]

theorem exists_append {bytes : Bytes} {n : Nat} (h : n ≤ bytes.length) :
    ∃ front back, bytes = front ++ back ∧ front.length = n :=
  ⟨bytes.take n, bytes.drop n, (take_append_drop n bytes).symm, length_take_of_le h⟩

/-- New bytes take the place of the oldest ones. -/
theorem rotate_overwrite {ring new : Bytes} {start : Nat} (hst : start ≤ ring.length)
    (hn : new.length ≤ ring.length) :
    (overwrite (overwrite ring start (new.take (min new.length (ring.length - start)))) 0
      (new.drop (min new.length (ring.length - start)))).rotate (start + new.length)
      = (ring.rotate start).drop new.length ++ new := by
  obtain ⟨young, old, rfl, rfl⟩ := exists_append hst
  rw [← rotate_rotate, rotate_append_length_eq, length_append, Nat.add_sub_cancel_left]
  by_cases hfi : new.length ≤ old.length
  · -- the new bytes end before the ring does
    obtain ⟨gone, kept, rfl, hg⟩ := exists_append hfi
    have ho : overwrite (young ++ (new ++ kept)) 0 [] = young ++ (new ++ kept) := by simp [overwrite]
    rw [Nat.min_eq_left hfi, take_length, drop_length, overwrite_append _ _ _ _ hg, ho,
      rotate_append_length_eq, append_assoc, rotate_append_length_eq, ← hg, append_assoc gone,
      drop_left, append_assoc]
  -- they go on from its beginning
  obtain ⟨one, two, rfl, hon⟩ := exists_append (Nat.le_of_not_le hfi)
  rw [length_append, length_append] at hn
  obtain ⟨gone, kept, rfl, hg⟩ := exists_append (show two.length ≤ young.length by omega)
  have hfir : overwrite (gone ++ kept ++ old) (gone ++ kept).length one = gone ++ (kept ++ one) := by
    simpa using overwrite_append (gone ++ kept) old [] one hon.symm
  have hse : overwrite (gone ++ (kept ++ one)) 0 two = two ++ kept ++ one := by
    simpa using overwrite_append [] gone (kept ++ one) two hg
  have hp : (gone ++ kept).length = (two ++ kept).length := by simp [hg]
  have hc : (one ++ two).length = (old ++ gone).length := by simp [hon, hg]
  rw [Nat.min_eq_right (by simp [hon]), ← hon, take_left, drop_left, hfir, hse, hp,
    rotate_append_length_eq, ← append_assoc one, rotate_append_length_eq, hc, ← append_assoc old, drop_left]

/-! ## What a buffer holds -/

/-- The buffer has been given the stream: it holds the first bytes, and the last ones of the rest. -/
structure Captures (buffer : Buffer) (stream : Bytes) : Prop where
  front : buffer.prefixBytes = stream.take (buffer.limit / 2 + buffer.limit % 2)
  ring : buffer.suffixBytes.rotate buffer.suffixStart <:+ stream.drop (buffer.limit / 2 + buffer.limit % 2)
  size : buffer.suffixBytes.length = min (buffer.limit / 2) (stream.length - (buffer.limit / 2 + buffer.limit % 2))
  start : buffer.suffixStart = 0 ∨ buffer.suffixStart < buffer.limit / 2 ∧ buffer.suffixBytes.length = buffer.limit / 2
  total : buffer.totalBytes = stream.length

variable {buffer : Buffer} {stream bytes rest : Bytes}

theorem append_suffix_append (h : bytes <:+ rest) (more : Bytes) : bytes ++ more <:+ rest ++ more := by
  obtain ⟨gone, rfl⟩ := h
  exact ⟨gone, by simp⟩

theorem appendSuffix_ring (hr : buffer.suffixBytes.rotate buffer.suffixStart <:+ rest)
    (hsi : buffer.suffixBytes.length = min (buffer.limit / 2) rest.length) (hst : buffer.suffixStart = 0 ∨
      buffer.suffixStart < buffer.limit / 2 ∧ buffer.suffixBytes.length = buffer.limit / 2) :
    ∃ suffix start, appendSuffix buffer bytes = { buffer with suffixBytes := suffix, suffixStart := start } ∧
      suffix.rotate start <:+ rest ++ bytes ∧ suffix.length = min (buffer.limit / 2) (rest ++ bytes).length ∧
      (start = 0 ∨ start < buffer.limit / 2 ∧ suffix.length = buffer.limit / 2) := by
  unfold appendSuffix
  extract_lets limit initial suffix left first
  by_cases hn : limit = 0 ∨ bytes = []
  · rw [if_pos hn]
    refine ⟨buffer.suffixBytes, buffer.suffixStart, rfl, ?_, ?_, hst⟩
    · cases hn with
      | inl =>
        have he := length_eq_zero_iff.1 (hsi.trans (by omega))
        simp [he]
      | inr hby => simpa [hby] using hr
    · cases hn with
      | inl => omega
      | inr hby => rwa [hby, append_nil]
  have hby : 0 < bytes.length := length_pos_iff.2 fun h => hn (.inr h)
  rw [if_neg hn, length_append]
  by_cases hl : left = []
  · -- there was space, so the ring has not turned yet
    have hal : bytes.length ≤ initial := drop_eq_nil_iff.1 hl
    have hz : buffer.suffixStart = 0 := by omega
    have hsu : suffix = buffer.suffixBytes ++ bytes := by rw [← take_of_length_le hal]
    rw [hz, rotate_zero] at hr
    refine ⟨suffix, 0, by rw [if_pos hl, hz], ?_, ?_, .inl rfl⟩
    · rw [rotate_zero, hsu]
      exact append_suffix_append hr bytes
    · rw [hsu, length_append]
      omega
  have hso := mt drop_eq_nil_iff.2 hl
  have hfu : suffix.length = limit := by
    simp only [suffix, length_append, length_take]
    omega
  rw [if_neg hl]
  by_cases ho : limit ≤ left.length
  · rw [if_pos ho]
    refine ⟨_, 0, rfl, ?_, ?_, .inl rfl⟩
    · rw [rotate_zero]
      exact (drop_suffix _ _).trans ((drop_suffix _ _).trans (suffix_append _ _))
    · simp only [left, length_drop] at ho ⊢
      omega
  rw [if_neg ho]
  have htu := @rotate_overwrite suffix left buffer.suffixStart (by omega) (by omega)
  rw [hfu] at htu
  change (overwrite (overwrite suffix _ (left.take first)) 0 (left.drop first)).rotate _ = _ at htu
  have hlen := congrArg List.length htu
  simp only [length_rotate, length_append, length_drop] at hlen
  rw [← rotate_mod, hlen, hfu, Nat.sub_add_cancel (by omega)] at htu
  -- the bytes that filled the ring come after all it held
  have hfi : suffix.rotate buffer.suffixStart <:+ rest ++ bytes.take initial := by
    rcases hst with hz | ⟨-, _⟩
    · rw [hz, rotate_zero] at hr ⊢
      exact append_suffix_append hr _
    · have hno : initial = 0 := by omega
      simpa [suffix, hno] using hr
  refine ⟨_, _, rfl, ?_, by omega, .inr ⟨Nat.mod_lt _ (by omega), by omega⟩⟩
  rw [htu, ← take_append_drop initial bytes, ← append_assoc]
  exact append_suffix_append ((drop_suffix _ _).trans hfi) left

theorem Captures.retain (h : Captures buffer stream) (bytes : Bytes) :
    (retain buffer bytes).limit = buffer.limit ∧ Captures (retain buffer bytes) (stream ++ bytes) := by
  unfold Capture.retain
  extract_lets limit count
  have hsp : limit - buffer.prefixBytes.length = limit - stream.length := by
    rw [h.front, length_take]
    omega
  have hta : bytes.take count = bytes.take (limit - stream.length) := by
    rw [← hsp, take_eq_take_iff]
    omega
  have hd : bytes.drop count = bytes.drop (limit - stream.length) := by
    by_cases hfi : limit - stream.length ≤ bytes.length
    · rw [show count = limit - stream.length by omega]
    · rw [drop_eq_nil_of_le (by omega), drop_eq_nil_of_le (by omega)]
  obtain ⟨_, _, he, hr, hsi, hst⟩ := @appendSuffix_ring
    { buffer with
      prefixBytes := buffer.prefixBytes ++ bytes.take count, totalBytes := buffer.totalBytes + bytes.length }
    (bytes.drop count) _ h.ring (by rw [h.size, length_drop]) h.start
  rw [hd, ← drop_append] at hr hsi
  rw [length_drop] at hsi
  rw [he]
  refine ⟨rfl, ?_, hr, hsi, hst, ?_⟩
  · show buffer.prefixBytes ++ bytes.take count = _
    rw [h.front, hta, take_append]
  · show buffer.totalBytes + bytes.length = _
    rw [h.total, length_append]

/-- All of the stream, or its two ends. -/
def headAndTail (limit : Nat) (stream : Bytes) : Captured :=
  { bytes := if stream.length ≤ limit then stream
    else stream.take ((limit + 1) / 2) ++ stream.drop (stream.length - limit / 2)
    totalBytes := stream.length
    truncated := decide (limit < stream.length) }

theorem Captures.take (h : Captures buffer stream) :
    take buffer = (headAndTail buffer.limit stream, { limit := buffer.limit }) := by
  have hr : (if buffer.suffixBytes.length < buffer.limit / 2 ∨ buffer.suffixStart = 0 then buffer.suffixBytes
    else buffer.suffixBytes.drop buffer.suffixStart ++ buffer.suffixBytes.take buffer.suffixStart)
    = buffer.suffixBytes.rotate buffer.suffixStart := by
    have := h.start
    split
    · rw [show buffer.suffixStart = 0 by omega, rotate_zero]
    · rw [rotate_eq_drop_append_take (by omega)]
  have he : buffer.prefixBytes ++ buffer.suffixBytes.rotate buffer.suffixStart
    = (headAndTail buffer.limit stream).bytes := by
    have hsi := h.size
    rw [← length_rotate _ buffer.suffixStart] at hsi
    rw [headAndTail, h.front]
    split
    · rw [h.ring.eq_of_length (by rw [hsi, length_drop]; omega), take_append_drop]
    · rw [suffix_iff_eq_drop.1 (h.ring.trans (drop_suffix _ _)), hsi]
      congr 2 <;> omega
  have htr : (headAndTail buffer.limit stream).bytes.length < stream.length ↔ buffer.limit < stream.length := by
    simp only [headAndTail]
    split
    · omega
    · rw [length_append, length_take, length_drop]
      omega
  simp only [Capture.take, hr, he, h.total, htr]
  rfl

/-! ## Streams -/

theorem cliAppends_captures (chunks : List Bytes) (h : Captures buffer stream)
    (hfi : (stream ++ chunks.flatten).length ≤ maxTotal) :
    ∃ last, chunks.foldlM cliAppend buffer = .ok last ∧ last.limit = buffer.limit ∧
      Captures last (stream ++ chunks.flatten) := by
  induction chunks generalizing buffer stream with
  | nil => exact ⟨buffer, rfl, rfl, by simpa using h⟩
  | cons bytes _ ih =>
    rw [flatten_cons, ← append_assoc] at hfi ⊢
    obtain ⟨hli, hn⟩ := h.retain bytes
    obtain ⟨last, hr, hl, hc⟩ := ih hn hfi
    have hstep : cliAppend buffer bytes = .ok (retain buffer bytes) := by
      rw [length_append, length_append] at hfi
      rw [cliAppend, if_neg (by rw [h.total]; omega)]
    exact ⟨last, by rw [foldlM_cons, hstep]; exact hr, hl.trans hli, hc⟩

/-- A chunk as the transfer library hands it over: so many elements of a size. -/
structure Delivery where
  bytes : Bytes
  elementSize : Nat
  elementCount : Nat
  sized : bytes.length = elementSize * elementCount

/-- An HTTP buffer takes what a CLI buffer takes, and to the same effect. -/
theorem httpAppend_toOption (buffer : Buffer) (call : Delivery) :
    (httpAppend buffer (some call.bytes) call.elementSize call.elementCount).toOption
      = (cliAppend buffer call.bytes).toOption := by
  have hsi : (call.elementSize ≠ 0 ∧ maxTotal / call.elementSize < call.elementCount) ↔
    maxTotal < call.bytes.length := by
    rw [call.sized]
    by_cases hz : call.elementSize = 0
    · simp [hz]
    · rw [Nat.div_lt_iff_lt_mul (Nat.pos_of_ne_zero hz), Nat.mul_comm, and_iff_right hz]
  rw [httpAppend, checkedCaptureAppendSize, if_congr hsi rfl rfl, ← call.sized, cliAppend]
  by_cases hl : maxTotal < call.bytes.length
  · rw [if_pos hl, if_pos (by omega)]
    rfl
  rw [if_neg hl]
  by_cases ho : maxTotal - buffer.totalBytes < call.bytes.length
  · rw [if_pos ho, if_pos ho]
    rfl
  rw [if_neg ho, if_neg ho]
  show (if call.bytes.length = 0 then _ else _ : Except Error Buffer).toOption = _
  by_cases he : call.bytes.length = 0
  · rw [if_pos he, length_eq_zero_iff.1 he]
    simp [retain, appendSuffix]
  · rw [if_neg he, take_length]

/-- However the stream is cut into chunks, the buffer gives its two ends; and both buffers give the same. -/
theorem capture_keeps_head_and_tail (limit : Nat) : (∀ chunks : List Bytes, chunks.flatten.length ≤ maxTotal →
    ∃ buffer, chunks.foldlM cliAppend { limit } = .ok buffer ∧
      take buffer = (headAndTail limit chunks.flatten, { limit })) ∧ ∀ calls : List Delivery,
    calls.foldlM (fun buffer call =>
      (httpAppend buffer (some call.bytes) call.elementSize call.elementCount).toOption) { limit }
      = calls.foldlM (fun buffer call => (cliAppend buffer call.bytes).toOption) ({ limit } : Buffer) := by
  constructor
  · intro chunks hfi
    have he : Captures { limit } [] := ⟨by simp, by simp, by simp, .inl rfl, rfl⟩
    obtain ⟨buffer, hru, hli, h⟩ := cliAppends_captures chunks he hfi
    exact ⟨buffer, hru, by rw [h.take, hli]; rfl⟩
  · intro calls
    simp only [httpAppend_toOption]

theorem capture_keeps_head_and_tail_seven :
    ∃ buffer, [[1, 2], [3, 4, 5, 6], [7]].foldlM cliAppend { limit := 5 } = .ok buffer ∧
      take buffer = (⟨[1, 2, 3, 6, 7], 7, true⟩, { limit := 5 }) :=
  (capture_keeps_head_and_tail 5).1 _ (by decide)

end Jobu.Capture
