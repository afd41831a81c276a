import Jobu.Domain
import Mathlib.Data.Fintype.Basic
import Mathlib.Data.List.GetD
import Mathlib.Data.List.Sort
import Mathlib.Tactic.FinCases
import Mathlib.Tactic.IntervalCases

/-!
# Version 7 identifiers: their text and their generator

`Uuid` of the core as its sixteen bytes, with `parse` and `to_string`, and `UuidV7Generator`.  The
generator keeps the last identifier it handed out.  A later millisecond takes fresh random bytes;
an equal or an earlier one counts the last identifier's random tail up by one.  The tail is a
counter of 74 bits that the version and the variant bits cut in three, which `incrementRandomTail`
carries through digit by digit.

Every digit is a byte with a mask and a stamp: the counter's bits of the byte and the fixed bits
around them.  That the carry gives a later identifier is one argument about such digits
(`carried`), whatever bytes they stand in.  A text is the list of its characters.
-/

namespace Jobu.Identifiers

open List Function

/-- `Uuid::Storage`. -/
abbrev Storage := Fin 16 → UInt8

/-! ## Text -/

def invalidUuidError : Error :=
  { category := .invalidArgument
    code := "core.uuid.invalid_format"
    message := "UUID must use canonical 8-4-4-4-12 hexadecimal format" }

/-- `hex_value`, whose -1 is `none`. -/
def hexValue (character : Char) : Option Nat :=
  if '0' ≤ character ∧ character ≤ '9' then some (character.toNat - '0'.toNat)
  else if 'a' ≤ character ∧ character ≤ 'f' then some (character.toNat - 'a'.toNat + 10)
  else if 'A' ≤ character ∧ character ≤ 'F' then some (character.toNat - 'A'.toNat + 10)
  else none

/-- The loop of `Uuid::parse`: `count` more bytes from the input index on. -/
def parseBytes (text : List Char) : Nat → Nat → Option (List UInt8)
  | 0, _ => some []
  | count + 1, index => do
    let index := if index = 8 ∨ index = 13 ∨ index = 18 ∨ index = 23 then index + 1 else index
    let high ← text[index]?.bind hexValue
    let low ← text[index + 1]?.bind hexValue
    let rest ← parseBytes text count (index + 2)
    return UInt8.ofNat (high <<< 4 ||| low) :: rest

/-- `Uuid::parse`. -/
def parse (text : List Char) : Except Error Storage :=
  if text.length ≠ 36 ∨ text[8]? ≠ some '-' ∨ text[13]? ≠ some '-' ∨ text[18]? ≠ some '-'
    ∨ text[23]? ≠ some '-' then
    .error invalidUuidError
  else
    match parseBytes text 16 0 with
    | some bytes => .ok fun index => bytes.getD index 0
    | none => .error invalidUuidError

def hexDigits : List Char := "0123456789abcdef".toList

def hexDigit (value : UInt8) : Char := hexDigits.getD value.toNat '0'

/-- What `Uuid::to_string` appends for one byte. -/
def byteText (bytes : Storage) (index : Fin 16) : List Char :=
  (if index = 4 ∨ index = 6 ∨ index = 8 ∨ index = 10 then ['-'] else [])
    ++ [hexDigit (bytes index >>> 4), hexDigit (bytes index &&& 0x0f)]

/-- `Uuid::to_string`. -/
def toText (bytes : Storage) : List Char :=
  (List.finRange 16).flatMap (byteText bytes)

/-- A canonical text: 8-4-4-4-12 lower-case hexadecimal digits. -/
def Canonical (text : List Char) : Prop :=
  text.length = 36 ∧ ∀ (index : Nat) (character : Char), text[index]? = some character →
    if index = 8 ∨ index = 13 ∨ index = 18 ∨ index = 23 then character = '-'
    else character ∈ hexDigits

/-! ## The generator -/

def maxTimestampMs : Nat := 0xffffffffffff

/-- `timestamp_ms` of a clock reading in nanoseconds: the cast to milliseconds drops the fraction. -/
def timestampMs (reading : Int) : Except Error Nat :=
  let milliseconds := reading.tdiv 1000000
  if milliseconds < 0 ∨ milliseconds.toNat > maxTimestampMs then
    .error
      { category := .invalidArgument
        code := "core.uuid.timestamp_out_of_range"
        message := "UTC time cannot be represented by UUIDv7" }
  else .ok milliseconds.toNat

/-- `set_timestamp`: the first six bytes are the time, most significant first. -/
def setTimestamp (bytes : Storage) (value : Nat) : Storage :=
  fun index => if index.val < 6 then UInt8.ofNat (value >>> ((5 - index.val) * 8)) else bytes index

/-- The bits of one byte that the counter uses, and the fixed bits beside them. -/
structure Digit where
  index : Fin 16
  mask : UInt8 := 0xff
  stamp : UInt8 := 0x00

/-- The carry of `increment_random_tail`: a full digit goes back to zero and the next one is tried. -/
def carry : List Digit → Storage → Bool × Storage
  | [], bytes => (false, bytes)
  | digit :: rest, bytes =>
    let value := bytes digit.index &&& digit.mask
    if value ≠ digit.mask then
      (true, Function.update bytes digit.index (digit.stamp ||| (value + 1)))
    else carry rest (Function.update bytes digit.index digit.stamp)

def variantDigit : Digit := { index := 8, mask := 0x3f, stamp := 0x80 }

def versionDigit : Digit := { index := 6, mask := 0x0f, stamp := 0x70 }

/-- The digits in the order `increment_random_tail` visits them. -/
def tailDigits : List Digit :=
  [{ index := 15 }, { index := 14 }, { index := 13 }, { index := 12 }, { index := 11 },
    { index := 10 }, { index := 9 }, variantDigit, { index := 7 }, versionDigit]

def incrementRandomTail (bytes : Storage) : Bool × Storage := carry tailDigits bytes

/-- `UuidV7Generator`. -/
structure Generator where
  hasLast : Bool := false
  lastTimestampMs : Nat := 0
  lastUuid : Storage := fun _ => 0

/-- One call of `generate`: what the clock shows and what the random source then gives. -/
structure Call where
  reading : Int
  random : Except String Storage

/-- The failure of `fill_random`, with the system's reason. -/
def randomUnavailable (reason : String) : Error :=
  { category := .unavailable
    code := "core.uuid.random_unavailable"
    message := "Operating-system random source is unavailable"
    detail := reason }

def sequenceExhausted : Error :=
  { category := .resourceExhausted
    code := "core.uuid.sequence_exhausted"
    message := "UUIDv7 sequence space is exhausted for the current timestamp" }

/-- The identifier a new millisecond gets. -/
def freshUuid (random : Storage) (timestamp : Nat) : Storage :=
  let next := setTimestamp random timestamp
  let next := Function.update next 6 ((next 6 &&& 0x0f) ||| 0x70)
  Function.update next 8 ((next 8 &&& 0x3f) ||| 0x80)

/-- `UuidV7Generator::generate`. -/
def generate (generator : Generator) (call : Call) : Except Error Storage × Generator :=
  match timestampMs call.reading with
  | .error error => (.error error, generator)
  | .ok current =>
    if !generator.hasLast || current > generator.lastTimestampMs then
      match call.random with
      | .error reason => (.error (randomUnavailable reason), generator)
      | .ok random =>
        let next := freshUuid random current
        (.ok next, { hasLast := true, lastTimestampMs := current, lastUuid := next })
    else
      match incrementRandomTail generator.lastUuid with
      | (false, _) => (.error sequenceExhausted, generator)
      | (true, next) => (.ok next, { generator with lastUuid := next })

/-- The results of a sequence of calls, and the generator they leave. -/
def run : Generator → List Call → List (Except Error Storage) × Generator
  | generator, [] => ([], generator)
  | generator, call :: calls =>
    let (result, next) := generate generator call
    let (results, last) := run next calls
    (result :: results, last)

/-- The identifiers among the results. -/
def issued (results : List (Except Error Storage)) : List Storage :=
  results.filterMap Except.toOption

/-! ## The bits of an identifier -/

def version (bytes : Storage) : UInt8 := bytes 6 >>> 4

def variant (bytes : Storage) : UInt8 := bytes 8 >>> 6

def lowBits (count : Nat) (byte : UInt8) : List Bool :=
  (List.range count).map byte.toNat.testBit

/-- The 74 bits that are neither time nor version nor variant. -/
def randomBits (bytes : Storage) : List Bool :=
  lowBits 4 (bytes 6) ++ lowBits 8 (bytes 7) ++ lowBits 6 (bytes 8)
    ++ [9, 10, 11, 12, 13, 14, 15].flatMap fun index => lowBits 8 (bytes index)

example (bytes : Storage) : (randomBits bytes).length = 74 := rfl

/-! ## The order of identifiers -/

/-- The order of the bytes: the first byte that differs decides. -/
def Precedes (first second : Storage) : Prop :=
  ∃ index, (∀ earlier < index, first earlier = second earlier) ∧ first index < second index

variable {a b : Storage}

theorem Precedes.trans {c : Storage} (ab : Precedes a b) (bc : Precedes b c) : Precedes a c := by
  obtain ⟨i, before_i, at_i⟩ := ab
  obtain ⟨j, before_j, at_j⟩ := bc
  rcases lt_trichotomy i j with less | rfl | more
  · refine ⟨i, fun k below => ?_, ?_⟩
    · rw [before_i k below, before_j k (below.trans less)]
    · rw [← before_j i less]
      exact at_i
  · exact ⟨i, fun k below => (before_i k below).trans (before_j k below), UInt8.lt_trans at_i at_j⟩
  · refine ⟨j, fun k below => ?_, ?_⟩
    · rw [before_i k (below.trans more), before_j k below]
    · rw [before_i j more]
      exact at_j

theorem toNat_high (b : UInt8) : (b >>> 4).toNat = b.toNat / 16 := by
  rw [UInt8.toNat_shiftRight]
  exact Nat.shiftRight_eq_div_pow b.toNat 4

theorem toNat_low (b : UInt8) : (b &&& 0x0f).toNat = b.toNat % 16 := by
  rw [UInt8.toNat_and]
  exact Nat.and_two_pow_sub_one_eq_mod b.toNat 4

theorem hexDigits_lt : ∀ n m : Fin 16, n < m → hexDigits.getD n '0' < hexDigits.getD m '0' := by decide +kernel

theorem hexDigit_lt {a b : UInt8} (less : a.toNat < b.toNat) (small : b.toNat < 16) : hexDigit a < hexDigit b :=
  hexDigits_lt ⟨a.toNat, less.trans small⟩ ⟨b.toNat, small⟩ less

/-- Two digits stand for a byte in the order of the bytes. -/
theorem hexPair_lt {a b : UInt8} (less : a < b) : hexDigit (a >>> 4) < hexDigit (b >>> 4)
    ∨ hexDigit (a >>> 4) = hexDigit (b >>> 4) ∧ hexDigit (a &&& 0x0f) < hexDigit (b &&& 0x0f) := by
  have values : a.toNat < b.toNat := less
  have bound := b.toNat_lt
  by_cases high : a.toNat / 16 < b.toNat / 16
  · left
    apply hexDigit_lt <;> rw [toNat_high] <;> try rw [toNat_high]
    · exact high
    · omega
  right
  constructor
  · unfold hexDigit
    rw [toNat_high, toNat_high, show a.toNat / 16 = b.toNat / 16 by omega]
  · apply hexDigit_lt <;> rw [toNat_low] <;> try rw [toNat_low]
    · omega
    · omega

variable {index : Fin 16}

theorem byteText_lt (less : a index < b index)
    (restA restB : List Char) : byteText a index ++ restA < byteText b index ++ restB := by
  have digits := hexPair_lt less
  unfold byteText
  split <;> simp only [cons_append, nil_append, cons_lt_cons_iff] <;> tauto

/-- Along ascending indexes, the texts compare as the first byte that differs. -/
theorem flatMap_byteText_lt (agree : ∀ earlier < index, a earlier = b earlier) (less : a index < b index) :
    ∀ {indexes : List (Fin 16)}, indexes.Pairwise (· < ·) → index ∈ indexes →
      indexes.flatMap (byteText a) < indexes.flatMap (byteText b)
  | i :: rest, sorted, member => by
    rw [flatMap_cons, flatMap_cons]
    rcases mem_cons.1 member with rfl | later
    · exact byteText_lt less _ _
    have below := rel_of_pairwise_cons sorted later
    have same : byteText a i = byteText b i := by unfold byteText; rw [agree i below]
    rw [same]
    exact append_left_lt (flatMap_byteText_lt agree less sorted.of_cons later)

theorem toText_lt (less : Precedes a b) : toText a < toText b := by
  obtain ⟨index, agree, less⟩ := less
  exact flatMap_byteText_lt agree less (pairwise_lt_finRange 16) (mem_finRange index)

/-! ## Reading a text back -/

theorem forall_byte {P : UInt8 → Prop} (small : ∀ n : Fin 256, P (UInt8.ofNat n)) (b : UInt8) : P b := by
  have at_b := small ⟨b.toNat, b.toNat_lt⟩
  rwa [show UInt8.ofNat b.toNat = b from UInt8.ofNat_toNat] at at_b

theorem hexValue_hexDigit (n : Fin 16) : hexValue (hexDigits.getD n '0') = some n.val := by
  revert n
  decide +kernel

theorem hexValue_high (b : UInt8) : hexValue (hexDigit (b >>> 4)) = some (b.toNat / 16) := by
  unfold hexDigit
  rw [toNat_high]
  exact hexValue_hexDigit ⟨b.toNat / 16, by have := b.toNat_lt; omega⟩

theorem hexValue_low (b : UInt8) : hexValue (hexDigit (b &&& 0x0f)) = some (b.toNat % 16) := by
  unfold hexDigit
  rw [toNat_low]
  exact hexValue_hexDigit ⟨b.toNat % 16, by omega⟩

theorem ofNat_digits (b : UInt8) : UInt8.ofNat ((b.toNat / 16) <<< 4 ||| b.toNat % 16) = b := by
  revert b
  refine forall_byte ?_
  decide +kernel

theorem finRange_sixteen : finRange 16 = [0, 1, 2, 3, 4, 5, 6, 7, 8, 9, 10, 11, 12, 13, 14, 15] := by decide

theorem toText_eq (bytes : Storage) : toText bytes = let high i := hexDigit (bytes i >>> 4)
    let low i := hexDigit (bytes i &&& 0x0f)
    [high 0, low 0, high 1, low 1, high 2, low 2, high 3, low 3, '-',
      high 4, low 4, high 5, low 5, '-', high 6, low 6, high 7, low 7, '-',
      high 8, low 8, high 9, low 9, '-', high 10, low 10, high 11, low 11, high 12, low 12,
      high 13, low 13, high 14, low 14, high 15, low 15] := by
  unfold toText
  rw [finRange_sixteen]
  rfl

theorem parseBytes_text (bytes : Storage) : parseBytes (toText bytes) 16 0 = some
    [bytes 0, bytes 1, bytes 2, bytes 3, bytes 4, bytes 5, bytes 6, bytes 7, bytes 8, bytes 9,
      bytes 10, bytes 11, bytes 12, bytes 13, bytes 14, bytes 15] := by
  rw [toText_eq]
  simp [parseBytes, hexValue_high, hexValue_low, -UInt8.ofNat_or, ofNat_digits]

theorem parse_toText (bytes : Storage) : parse (toText bytes) = .ok bytes := by
  have shaped : ¬ ((toText bytes).length ≠ 36 ∨ (toText bytes)[8]? ≠ some '-'
    ∨ (toText bytes)[13]? ≠ some '-' ∨ (toText bytes)[18]? ≠ some '-' ∨ (toText bytes)[23]? ≠ some '-') := by
    rw [toText_eq]
    simp
  unfold parse
  rw [if_neg shaped, parseBytes_text]
  refine congrArg Except.ok (funext fun index => ?_)
  fin_cases index <;> rfl

/-- Where the two digits of a byte stand in a text. -/
def digitsAt (i : Fin 16) : Nat :=
  [0, 2, 4, 6, 9, 11, 14, 16, 19, 21, 24, 26, 28, 30, 32, 34].getD i 0

theorem digitsAt_spec : ∀ i, digitsAt i + 1 < 36
    ∧ ¬ (digitsAt i = 8 ∨ digitsAt i = 13 ∨ digitsAt i = 18 ∨ digitsAt i = 23)
    ∧ ¬ (digitsAt i + 1 = 8 ∨ digitsAt i + 1 = 13 ∨ digitsAt i + 1 = 18 ∨ digitsAt i + 1 = 23) := by
  decide

/-- The byte that two characters of a canonical text stand for. -/
def byteAt (text : List Char) (index : Nat) : UInt8 :=
  UInt8.ofNat (16 * hexDigits.idxOf (text.getD index '-') + hexDigits.idxOf (text.getD (index + 1) '-'))

theorem hexDigits_getD_idxOf {character : Char} (digit : character ∈ hexDigits) :
    hexDigits.idxOf character < 16 ∧ hexDigits.getD (hexDigits.idxOf character) '0' = character := by
  have bound : hexDigits.idxOf character < hexDigits.length := idxOf_lt_length_iff.2 digit
  refine ⟨bound, ?_⟩
  rw [getD_eq_getElem _ _ bound, getElem_idxOf]

variable {text : List Char}

theorem hexDigit_byteAt {index : Nat}
    (first : text.getD index '-' ∈ hexDigits) (second : text.getD (index + 1) '-' ∈ hexDigits) :
    hexDigit (byteAt text index >>> 4) = text.getD index '-'
      ∧ hexDigit (byteAt text index &&& 0x0f) = text.getD (index + 1) '-' := by
  obtain ⟨_, readHigh⟩ := hexDigits_getD_idxOf first
  obtain ⟨low, readLow⟩ := hexDigits_getD_idxOf second
  have value : (byteAt text index).toNat = 16 * hexDigits.idxOf (text.getD index '-')
    + hexDigits.idxOf (text.getD (index + 1) '-') := UInt8.toNat_ofNat_of_lt' (by unfold UInt8.size; omega)
  constructor
  · unfold hexDigit
    rw [toNat_high, value, Nat.mul_add_div (by decide), Nat.div_eq_of_lt low, Nat.add_zero, readHigh]
  · unfold hexDigit
    rw [toNat_low, value, Nat.mul_add_mod, Nat.mod_eq_of_lt low, readLow]

theorem eq_map_getD (length : text.length = 36) : text = (List.range 36).map (text.getD · '-') := by
  refine ext_getElem (by simp [length]) fun index inside _ => ?_
  rw [getElem_map, getElem_range, getD_eq_getElem _ _ inside]

/-- Every canonical text is the text of some identifier. -/
theorem exists_toText (canonical : Canonical text) : ∃ bytes, toText bytes = text := by
  obtain ⟨length, characters⟩ := canonical
  have at_index (index : Nat) (inside : index < 36) :
    if index = 8 ∨ index = 13 ∨ index = 18 ∨ index = 23 then text.getD index '-' = '-'
    else text.getD index '-' ∈ hexDigits := by
    apply characters index
    rw [getD_eq_getElem _ _ (length ▸ inside), getElem?_eq_getElem (length ▸ inside)]
  have dash8 := at_index 8 (by decide)
  have dash13 := at_index 13 (by decide)
  have dash18 := at_index 18 (by decide)
  have dash23 := at_index 23 (by decide)
  have digits (i : Fin 16) : hexDigit (byteAt text (digitsAt i) >>> 4) = text.getD (digitsAt i) '-'
    ∧ hexDigit (byteAt text (digitsAt i) &&& 0x0f) = text.getD (digitsAt i + 1) '-' := by
    obtain ⟨inside, first, second⟩ := digitsAt_spec i
    have atFirst := at_index (digitsAt i) (by omega)
    have atSecond := at_index (digitsAt i + 1) inside
    rw [if_neg first] at atFirst
    rw [if_neg second] at atSecond
    exact hexDigit_byteAt atFirst atSecond
  refine ⟨fun i => byteAt text (digitsAt i), ?_⟩
  conv_rhs => rw [eq_map_getD length]
  rw [toText_eq]
  simp only [digits]
  show _ = [text.getD 0 '-', _, _, _, _, _, _, _, text.getD 8 '-', _, _, _, _, text.getD 13 '-', _, _,
    _, _, text.getD 18 '-', _, _, _, _, text.getD 23 '-', _, _, _, _, _, _, _, _, _, _, _, _]
  rw [dash8, dash13, dash18, dash23]
  rfl

theorem canonical_toText (bytes : Storage) : Canonical (toText bytes) := by
  have digit (value : UInt8) : hexDigit value ∈ hexDigits := by
    revert value
    exact forall_byte (by decide +kernel)
  rw [toText_eq]
  refine ⟨rfl, fun index character found => ?_⟩
  obtain ⟨inside, -⟩ := List.getElem?_eq_some_iff.1 found
  simp only [length_cons, length_nil] at inside
  interval_cases index <;> simp at found <;> simp [← found, digit]

/-! ## The counter -/

/-- A byte shows its digit's fixed bits. -/
def Digit.Stamped (digit : Digit) (bytes : Storage) : Prop :=
  bytes digit.index = digit.stamp ||| (bytes digit.index &&& digit.mask)

/-- What a digit's mask and stamp must satisfy to count: adding one under the mask gives a greater
byte with the same stamp, and the full digit wraps to a stamped zero. -/
structure Digit.Counts (digit : Digit) : Prop where
  greater : ∀ b : UInt8, b = digit.stamp ||| (b &&& digit.mask) → b &&& digit.mask ≠ digit.mask →
    b < digit.stamp ||| ((b &&& digit.mask) + 1)
  stamped : ∀ b : UInt8, b &&& digit.mask ≠ digit.mask → digit.stamp ||| ((b &&& digit.mask) + 1)
    = digit.stamp ||| ((digit.stamp ||| ((b &&& digit.mask) + 1)) &&& digit.mask)
  wrapped : digit.stamp = digit.stamp ||| (digit.stamp &&& digit.mask)

theorem tailDigits_counts : ∀ digit ∈ tailDigits, digit.Counts := by
  have plain (index : Fin 16) : ({ index : Digit }).Counts :=
    ⟨forall_byte (by dsimp only; decide +kernel), forall_byte (by dsimp only; decide +kernel),
      by dsimp only; decide⟩
  have variant : variantDigit.Counts := ⟨forall_byte (by decide +kernel), forall_byte (by decide +kernel), by decide⟩
  have version : versionDigit.Counts := ⟨forall_byte (by decide +kernel), forall_byte (by decide +kernel), by decide⟩
  simp [tailDigits, plain, variant, version]

theorem tailDigits_descending : tailDigits.Pairwise (fun a b => b.index < a.index) := by
  simp [tailDigits, variantDigit, versionDigit]

theorem carry_cons (digit : Digit) (rest : List Digit) (bytes : Storage) : carry (digit :: rest) bytes =
    if bytes digit.index &&& digit.mask ≠ digit.mask then
      (true, Function.update bytes digit.index (digit.stamp ||| ((bytes digit.index &&& digit.mask) + 1)))
    else carry rest (Function.update bytes digit.index digit.stamp) := rfl

/-- What a carry does with digits that stand in descending bytes. -/
structure Carried (digits : List Digit) (bytes : Storage) (result : Bool × Storage) : Prop where
  /-- It changes only the bytes of its digits. -/
  unchanged : ∀ index, (∀ digit ∈ digits, digit.index ≠ index) → result.2 index = bytes index
  /-- It keeps their fixed bits. -/
  stamped : ∀ digit ∈ digits, digit.Stamped bytes → digit.Stamped result.2
  /-- The digit that takes it decides: the bytes before it stay and its own grows. -/
  grown : (∀ digit ∈ digits, digit.Stamped bytes) → result.1 = true → ∃ digit ∈ digits,
    (∀ earlier < digit.index, bytes earlier = result.2 earlier) ∧ bytes digit.index < result.2 digit.index
  /-- It runs out only when every digit is full. -/
  full : result.1 = false → ∀ digit ∈ digits, bytes digit.index &&& digit.mask = digit.mask

theorem carried : ∀ (digits : List Digit) (bytes : Storage),
    digits.Pairwise (fun a b => b.index < a.index) → (∀ digit ∈ digits, digit.Counts) →
    Carried digits bytes (carry digits bytes)
  | [], _, _, _ => ⟨fun _ _ => rfl, nofun, nofun, nofun⟩
  | head :: rest, bytes, sorted, counts => by
    have below : ∀ d ∈ rest, d.index < head.index := fun d member => rel_of_pairwise_cons sorted member
    have headCounts := counts head mem_cons_self
    have apart (value : UInt8) (i : Fin 16) (other : i ≠ head.index) :
      Function.update bytes head.index value i = bytes i := Function.update_of_ne other _ _
    have restStamped (value : UInt8) (d : Digit) (member : d ∈ rest) :
      d.Stamped (Function.update bytes head.index value) ↔ d.Stamped bytes := by
      unfold Digit.Stamped
      rw [apart value _ (below d member).ne]
    rw [carry_cons]
    by_cases free : bytes head.index &&& head.mask ≠ head.mask
    · rw [if_pos free]
      refine ⟨fun i other => apart _ i (other head mem_cons_self).symm, ?_, fun stamps _ => ?_, nofun⟩
      · intro digit member stamp
        rcases mem_cons.1 member with rfl | later
        · unfold Digit.Stamped
          dsimp only
          rw [update_self]
          exact headCounts.stamped _ free
        · exact (restStamped _ digit later).2 stamp
      · refine ⟨head, mem_cons_self, fun earlier less => (apart _ earlier less.ne).symm, ?_⟩
        dsimp only
        rw [update_self]
        exact headCounts.greater _ (stamps head mem_cons_self) free
    · rw [if_neg free]
      have later := carried rest (Function.update bytes head.index head.stamp) sorted.of_cons
        fun d member => counts d (mem_cons_of_mem _ member)
      -- The wrapped byte stands behind every digit that is still to come.
      refine ⟨fun i other => ?_, fun digit member stamp => ?_, fun stamps taken => ?_, fun out digit member => ?_⟩
      · rw [later.unchanged i fun d member => other d (mem_cons_of_mem _ member),
          apart _ i (other head mem_cons_self).symm]
      · rcases mem_cons.1 member with rfl | inRest
        · unfold Digit.Stamped
          rw [later.unchanged _ fun d member => (below d member).ne, update_self]
          exact headCounts.wrapped
        · exact later.stamped digit inRest ((restStamped _ digit inRest).2 stamp)
      · obtain ⟨d, member, agree, greater⟩ := later.grown
          (fun d member => (restStamped _ d member).2 (stamps d (mem_cons_of_mem _ member))) taken
        refine ⟨d, mem_cons_of_mem _ member, fun earlier less => ?_, ?_⟩
        · rw [← agree earlier less, apart _ _ (less.trans (below d member)).ne]
        · rwa [apart _ _ (below d member).ne] at greater
      · rcases mem_cons.1 member with rfl | inRest
        · exact not_not.1 free
        · have full := later.full out digit inRest
          rwa [apart _ _ (below digit inRest).ne] at full

theorem carried_tail (bytes : Storage) : Carried tailDigits bytes (incrementRandomTail bytes) :=
  carried tailDigits bytes tailDigits_descending tailDigits_counts

/-! ## The time -/

/-- The first six bytes show a time. -/
def Shows (bytes : Storage) (timestamp : Nat) : Prop :=
  ∀ index : Fin 16, index.val < 6 → bytes index = UInt8.ofNat (timestamp >>> ((5 - index.val) * 8))

theorem shift_eq (value count : Nat) : value >>> (count * 8) = value / 256 ^ count := by
  rw [Nat.shiftRight_eq_div_pow, Nat.mul_comm, Nat.pow_mul]

/-- Times that agree above a byte are ordered by the bytes from there on. -/
theorem precedes_of_time {first second : Nat} (less : first < second)
    (showsA : Shows a first) (showsB : Shows b second) :
    ∀ count ≤ 6, first / 256 ^ count = second / 256 ^ count → Precedes a b
  | 0, _, same => by
    rw [Nat.pow_zero, Nat.div_one, Nat.div_one] at same
    omega
  | count + 1, bound, same => by
    by_cases equal : first / 256 ^ count = second / 256 ^ count
    · exact precedes_of_time less showsA showsB count (by omega) equal
    have monotone := Nat.div_le_div_right (c := 256 ^ count) less.le
    have above : first / 256 ^ count / 256 = second / 256 ^ count / 256 := by
      rw [Nat.div_div_eq_div_mul, Nat.div_div_eq_div_mul, ← Nat.pow_succ]
      exact same
    refine ⟨⟨5 - count, by omega⟩, fun earlier below => ?_, ?_⟩
    · have before : earlier.val < 5 - count := below
      rw [showsA earlier (by omega), showsB earlier (by omega), shift_eq, shift_eq]
      obtain ⟨more, split⟩ : ∃ more, 5 - earlier.val = count + 1 + more := ⟨5 - earlier.val - (count + 1), by omega⟩
      rw [split, Nat.pow_add, ← Nat.div_div_eq_div_mul, ← Nat.div_div_eq_div_mul, same]
    rw [showsA _ (show 5 - count < 6 by omega), showsB _ (show 5 - count < 6 by omega)]
    show UInt8.ofNat (first >>> ((5 - (5 - count)) * 8)) < UInt8.ofNat (second >>> ((5 - (5 - count)) * 8))
    rw [show 5 - (5 - count) = count by omega, shift_eq, shift_eq, UInt8.lt_iff_toNat_lt,
      UInt8.toNat_ofNat', UInt8.toNat_ofNat']
    omega

/-! ## The calls -/

/-- What a generator knows of the identifier it last handed out. -/
structure Sound (generator : Generator) : Prop where
  bound : generator.lastTimestampMs ≤ maxTimestampMs
  time : generator.hasLast = true → Shows generator.lastUuid generator.lastTimestampMs
  stamped : generator.hasLast = true → ∀ digit ∈ tailDigits, digit.Stamped generator.lastUuid

variable {timestamp : Nat}

theorem timestampMs_le {reading : Int} (read : timestampMs reading = .ok timestamp) : timestamp ≤ maxTimestampMs := by
  unfold timestampMs at read
  dsimp only at read
  split at read
  · cases read
  next _ =>
    cases read
    omega

theorem shows_freshUuid (random : Storage) (timestamp : Nat) : Shows (freshUuid random timestamp) timestamp := by
  intro index time
  have not8 : index ≠ 8 := by rintro rfl; exact absurd time (by decide)
  have not6 : index ≠ 6 := by rintro rfl; exact absurd time (by decide)
  unfold freshUuid
  rw [update_of_ne not8, update_of_ne not6]
  exact if_pos time

theorem stamped_freshUuid (random : Storage) (timestamp : Nat) :
    ∀ digit ∈ tailDigits, digit.Stamped (freshUuid random timestamp) := by
  have plain (b : UInt8) : b = 0x00 ||| (b &&& 0xff) := by
    revert b
    exact forall_byte (by decide +kernel)
  have variant (b : UInt8) : (b &&& 0x3f) ||| 0x80 = 0x80 ||| (((b &&& 0x3f) ||| 0x80) &&& 0x3f) := by
    revert b
    exact forall_byte (by decide +kernel)
  have version (b : UInt8) : (b &&& 0x0f) ||| 0x70 = 0x70 ||| (((b &&& 0x0f) ||| 0x70) &&& 0x0f) := by
    revert b
    exact forall_byte (by decide +kernel)
  have variant' : variantDigit.Stamped (freshUuid random timestamp) := variant _
  have version' : versionDigit.Stamped (freshUuid random timestamp) := version _
  simp only [tailDigits, forall_mem_cons, variant', version', true_and]
  exact ⟨plain _, plain _, plain _, plain _, plain _, plain _, plain _, plain _, nofun⟩

theorem shows_incrementRandomTail {bytes : Storage} (time : Shows bytes timestamp) :
    Shows (incrementRandomTail bytes).2 timestamp := by
  intro index inTime
  have behind : ∀ digit ∈ tailDigits, 6 ≤ digit.index.val := by decide
  rw [(carried_tail bytes).unchanged index fun digit member same => ?_]
  · exact time index inTime
  · have := behind digit member
    rw [same] at this
    omega

variable {generator : Generator}

/-- The outcomes of a call: it fails and leaves the generator, or it hands out the identifier the
generator then keeps, later than the one before. -/
theorem generate_cases (sound : Sound generator) (call : Call) :
    (∃ error, generate generator call = (.error error, generator)
      ∧ (error = sequenceExhausted → generator.hasLast = true ∧ (incrementRandomTail generator.lastUuid).1 = false))
      ∨ ∃ id next, generate generator call = (.ok id, next) ∧ Sound next ∧ next.hasLast = true
        ∧ next.lastUuid = id ∧ (generator.hasLast = true → Precedes generator.lastUuid id) := by
  unfold generate
  cases read : timestampMs call.reading with
  | error error =>
    refine .inl ⟨error, rfl, fun exhausted => ?_⟩
    unfold timestampMs at read
    dsimp only at read
    split at read <;> cases read
    cases exhausted
  | ok current =>
    by_cases fresh : (!generator.hasLast || decide (current > generator.lastTimestampMs)) = true
    · dsimp only
      rw [if_pos fresh]
      cases call.random with
      | error => exact .inl ⟨_, rfl, fun exhausted => nomatch congrArg Error.category exhausted⟩
      | ok random =>
        have time := shows_freshUuid random current
        refine .inr ⟨_, _, rfl, ⟨timestampMs_le read, fun _ => time,
          fun _ => stamped_freshUuid random current⟩, rfl, rfl, fun last => ?_⟩
        have later : generator.lastTimestampMs < current := by simpa [last] using fresh
        have limit := timestampMs_le read
        unfold maxTimestampMs at limit
        refine precedes_of_time later (sound.time last) time 6 le_rfl ?_
        rw [Nat.div_eq_of_lt (by omega), Nat.div_eq_of_lt (by omega)]
    · dsimp only
      rw [if_neg fresh]
      have last : generator.hasLast = true := by
        cases kept : generator.hasLast with
        | true => rfl
        | false => simp [kept] at fresh
      have spec := carried_tail generator.lastUuid
      have time := shows_incrementRandomTail (sound.time last)
      generalize incrementRandomTail generator.lastUuid = result at spec time
      obtain ⟨_ | _, _⟩ := result
      · exact .inl ⟨_, rfl, fun _ => ⟨last, rfl⟩⟩
      · obtain ⟨digit, -, agree, greater⟩ := spec.grown (sound.stamped last) rfl
        exact .inr ⟨_, _, rfl, ⟨sound.bound, fun _ => time,
          fun _ d member => spec.stamped d member (sound.stamped last d member)⟩, last, rfl,
          fun _ => ⟨digit.index, agree, greater⟩⟩

/-- A failed call leaves the generator as it was. -/
theorem generate_error {next : Generator} {call : Call} {error : Error}
    (failed : generate generator call = (.error error, next)) : next = generator := by
  unfold generate at failed
  split at failed
  · cases failed
    rfl
  split at failed
  · split at failed <;> cases failed
    rfl
  · split at failed <;> cases failed
    rfl

/-- What holds between the results so far and the generator that gave them. -/
structure Served (results : List (Except Error Storage)) (generator : Generator) : Prop where
  sound : Sound generator
  last : generator.hasLast = true → ∃ earlier, issued results = earlier ++ [generator.lastUuid]
  fresh : generator.hasLast = false → issued results = []
  increasing : (issued results).Pairwise Precedes
  stamped : ∀ id ∈ issued results, ∀ digit ∈ tailDigits, digit.Stamped id

theorem Served.start : Served [] {} where
  sound := ⟨Nat.zero_le _, nofun, nofun⟩
  last := nofun
  fresh _ := rfl
  increasing := .nil
  stamped := nofun

theorem Served.generate {results : List (Except Error Storage)} (served : Served results generator) (call : Call) :
    Served (results ++ [(generate generator call).1]) (Identifiers.generate generator call).2 := by
  rcases generate_cases served.sound call with ⟨error, failed, -⟩ | ⟨id, next, made, sound, kept, rfl, order⟩
  · rw [failed]
    have same : issued (results ++ [.error error]) = issued results := by simp [issued, Except.toOption]
    exact ⟨served.sound, same ▸ served.last, same ▸ served.fresh, same ▸ served.increasing, same ▸ served.stamped⟩
  rw [made]
  have grown : issued (results ++ [.ok next.lastUuid]) = issued results ++ [next.lastUuid] := by
    simp [issued, Except.toOption]
  refine ⟨sound, fun _ => ⟨_, grown⟩, fun none => ?_, ?_, ?_⟩
  · rw [kept] at none
    cases none
  · rw [grown, pairwise_append]
    refine ⟨served.increasing, pairwise_singleton _ _, fun id member final isLast => ?_⟩
    rw [mem_singleton.1 isLast]
    cases had : generator.hasLast with
    | false =>
      rw [served.fresh had] at member
      cases member
    | true =>
      obtain ⟨_, ends⟩ := served.last had
      have increasing := served.increasing
      rw [ends, pairwise_append] at increasing
      rw [ends, mem_append] at member
      rcases member with before | isOld
      · exact (increasing.2.2 id before _ mem_cons_self).trans (order had)
      · rw [mem_singleton.1 isOld]
        exact order had
  · intro id member
    rw [grown, mem_append] at member
    rcases member with before | isNew
    · exact served.stamped id before
    · rw [mem_singleton.1 isNew]
      exact sound.stamped kept

theorem Served.run : ∀ (calls : List Call) {results : List (Except Error Storage)}
    {generator : Generator}, Served results generator →
    Served (results ++ (run generator calls).1) (Identifiers.run generator calls).2
  | [], results, _, served => by
    show Served (results ++ []) _
    rwa [append_nil]
  | call :: calls, results, generator, served => by
    have rest := Served.run calls (served.generate call)
    rwa [append_assoc] at rest

variable {id : Storage}

theorem version_of_stamped (stamps : ∀ digit ∈ tailDigits, digit.Stamped id) : version id = 7 ∧ variant id = 2 := by
  have at6 := stamps versionDigit (by simp [tailDigits])
  have at8 := stamps variantDigit (by simp [tailDigits])
  have version (b : UInt8) : b = 0x70 ||| (b &&& 0x0f) → b >>> 4 = 7 := by
    revert b
    exact forall_byte (by decide +kernel)
  have variant (b : UInt8) : b = 0x80 ||| (b &&& 0x3f) → b >>> 6 = 2 := by
    revert b
    exact forall_byte (by decide +kernel)
  exact ⟨version _ at6, variant _ at8⟩

theorem randomBits_of_exhausted (out : (incrementRandomTail id).1 = false) : ∀ bit ∈ randomBits id, bit = true := by
  have full := (carried_tail id).full out
  have whole (b : UInt8) : b &&& 0xff = 0xff → ∀ bit ∈ lowBits 8 b, bit = true := by
    revert b
    exact forall_byte (by decide +kernel)
  have six (b : UInt8) : b &&& 0x3f = 0x3f → ∀ bit ∈ lowBits 6 b, bit = true := by
    revert b
    exact forall_byte (by decide +kernel)
  have four (b : UInt8) : b &&& 0x0f = 0x0f → ∀ bit ∈ lowBits 4 b, bit = true := by
    revert b
    exact forall_byte (by decide +kernel)
  have plain (index : Fin 16) (member : { index : Digit } ∈ tailDigits) := whole (id index) (full { index } member)
  intro bit member
  unfold randomBits at member
  rw [mem_append, mem_append, mem_append, mem_flatMap] at member
  rcases member with ((at6 | at7) | at8) | ⟨index, listed, behind⟩
  · exact four _ (full versionDigit (by simp [tailDigits])) bit at6
  · exact plain 7 (by simp [tailDigits]) bit at7
  · exact six _ (full variantDigit (by simp [tailDigits])) bit at8
  · refine plain index ?_ bit behind
    simp only [mem_cons, not_mem_nil, or_false] at listed
    rcases listed with rfl | rfl | rfl | rfl | rfl | rfl | rfl <;> simp [tailDigits]

/-- What one generator hands out, whatever the clock and the random source do: the identifiers
increase as bytes and as texts and carry their version and variant; a failed call is as if it had
not been made; the sequence runs out only after an identifier whose random bits are all ones.  And
the texts of identifiers are the canonical ones, which `parse` reads back. -/
theorem generated_ids_increase : (∀ calls, (issued (run {} calls).1).Pairwise Precedes
    ∧ ((issued (run {} calls).1).map toText).Pairwise (· < ·)
    ∧ ∀ id ∈ issued (run {} calls).1, version id = 7 ∧ variant id = 2)
    ∧ (∀ generator call error next, generate generator call = (.error error, next) →
      next = generator ∧ ∀ later, run generator (call :: later) =
        (.error error :: (run generator later).1, (run generator later).2))
    ∧ (∀ before call, (generate (run {} before).2 call).1 = .error sequenceExhausted →
      ∃ earlier last, issued (run {} before).1 = earlier ++ [last] ∧ ∀ bit ∈ randomBits last, bit = true)
    ∧ (∀ bytes, Canonical (toText bytes) ∧ parse (toText bytes) = .ok bytes)
    ∧ ∀ text, Canonical text → ∃ bytes, parse text = .ok bytes ∧ toText bytes = text := by
  have served (calls : List Call) : Served (run {} calls).1 (run {} calls).2 := Served.start.run calls
  refine ⟨fun calls => ⟨(served calls).increasing, ?_, fun id member => ?_⟩,
    fun generator call error next failed => ?_, fun before call failed => ?_,
    fun bytes => ⟨canonical_toText bytes, parse_toText bytes⟩, fun text canonical => ?_⟩
  · exact (served calls).increasing.map toText fun _ _ => toText_lt
  · exact version_of_stamped ((served calls).stamped id member)
  · obtain rfl := generate_error failed
    refine ⟨rfl, fun later => ?_⟩
    rw [run, failed]
  · rcases generate_cases (served before).sound call with ⟨_, outcome, cause⟩ | ⟨_, _, outcome, -⟩
    · rw [outcome] at failed
      obtain ⟨last, out⟩ := cause (Except.error.inj failed)
      obtain ⟨earlier, ends⟩ := (served before).last last
      exact ⟨earlier, _, ends, randomBits_of_exhausted out⟩
    · rw [outcome] at failed
      cases failed
  · obtain ⟨bytes, rfl⟩ := exists_toText canonical
    exact ⟨bytes, parse_toText bytes, rfl⟩

/-- Two calls in one millisecond after random bytes that are all ones. -/
def exhaustingCall : Call := { reading := 1_000_000, random := .ok fun _ => 0xff }

theorem generated_ids_increase_exhausted :
    (generate (run {} [exhaustingCall]).2 exhaustingCall).1 = .error sequenceExhausted
      ∧ (∃ earlier last, issued (run {} [exhaustingCall]).1 = earlier ++ [last] ∧ ∀ bit ∈ randomBits last, bit = true)
      ∧ (run {} [{ exhaustingCall with reading := -1_000_000 }, exhaustingCall]).1.length
        = (run {} [exhaustingCall]).1.length + 1
      ∧ ∃ bytes, parse (toText fun _ => 0xff) = .ok bytes ∧ toText bytes = toText fun _ => 0xff := by
  have failed : (generate (run {} [exhaustingCall]).2 exhaustingCall).1 = .error sequenceExhausted :=
    by decide +kernel
  obtain ⟨-, unchanged, exhausted, texts, back⟩ := generated_ids_increase
  refine ⟨failed, exhausted _ _ failed, ?_, back _ (texts _).1⟩
  rw [(unchanged {} { exhaustingCall with reading := -1_000_000 } _ _ rfl).2]
  rfl

end Jobu.Identifiers
