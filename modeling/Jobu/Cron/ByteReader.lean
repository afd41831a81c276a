import Jobu.Cron.TimezoneFile

/-!
# The bytes a timezone file is read from

`ByteReader` and `PosixReader` as they are, a string with a position in it.  A `Scan` may read any
byte of memory: `fetch` at an index that is not in the string, and a part cut from behind its end,
are a `fault`.  The scans below are the functions of `cron_timezone_priv.cpp` on these readers.

`Tracks` connects a scan to the reader of `TimezoneFile` that is at the rest of its text: from a
position inside the string the scan has no fault, stays inside, and reads the same.  It holds of
the readers' own operations and of everything that is put together from them.
-/

namespace Jobu.Cron

open List Reader

open Rpc (Bytes byte text)

inductive Outcome (α : Type) where
  | fault
  | failed (position : Nat)
  | read (value : α) (position : Nat)
deriving DecidableEq

/-- A function on a string and the position the reader has in it. -/
def Scan (α : Type) : Type := Bytes → Nat → Outcome α

variable {rest : Bytes}

theorem Reader.bind_of_some {α β : Type} {x : Reader α} {f : α → Reader β} {rest' : Bytes} {a : α}
    (h : x rest = some (a, rest')) : (x >>= f) rest = f a rest' := by
  show (x rest).bind _ = _
  rw [h]
  rfl

theorem Reader.bind_of_none {α β : Type} {x : Reader α} {f : α → Reader β}
    (h : x rest = none) : (x >>= f) rest = none := by
  show (x rest).bind _ = _
  rw [h]
  rfl

namespace Scan

instance : Monad Scan where
  pure value := fun _ position => .read value position
  bind x f := fun bytes position =>
    match x bytes position with
    | .fault => .fault
    | .failed position => .failed position
    | .read value position => f value bytes position

def require (condition : Bool) : Scan Unit := fun _ position =>
  if condition then .read () position else .failed position

/-- The result of a function that may fail, as a value. -/
def attempt {α : Type} (x : Scan α) : Scan (Option α) := fun bytes position =>
  match x bytes position with
  | .fault => .fault
  | .failed position => .read none position
  | .read value position => .read (some value) position

def size : Scan Nat := fun bytes position => .read bytes.length position

def position : Scan Nat := fun _ position => .read position position

def advance (count : Nat) : Scan Unit := fun _ position => .read () (position + count)

/-- `_bytes[index]`. -/
def fetch (index : Nat) : Scan UInt8 := fun bytes position =>
  match bytes[index]? with
  | some value => .read value position
  | none => .fault

def fetchFrom : Nat → Nat → Scan Bytes
  | _, 0 => pure []
  | index, count + 1 => do
    let value ← fetch index
    let values ← fetchFrom (index + 1) count
    pure (value :: values)

/-- `_bytes.substr(begin, count)`. -/
def substr (start count : Nat) : Scan Bytes := fun bytes position =>
  if bytes.length < start + count then .fault else .read ((bytes.drop start).take count) position

/-! ## `ByteReader` -/

def remaining : Scan Nat := do
  let size ← size
  let position ← position
  pure (size - position)

/-- The loops of `read_u8`, `read_u32` and `read_i64`. -/
def readWord (width : Nat) : Scan Nat := do
  let left ← remaining
  require (width ≤ left)
  let start ← position
  let bytes ← fetchFrom start width
  advance width
  pure (bigEndian bytes)

def readU8 : Scan Nat := readWord 1

def readU32 : Scan Nat := readWord 4

def readI32 : Scan Int := do
  let value ← readU32
  pure (toSigned 32 value)

def readI64 : Scan Int := do
  let value ← readWord 8
  pure (toSigned 64 value)

def readBytes (count : Nat) : Scan Bytes := do
  let left ← remaining
  require (count ≤ left)
  let start ← position
  let bytes ← substr start count
  advance count
  pure bytes

def remainder : Scan Bytes := do
  let left ← remaining
  let start ← position
  substr start left

def readHeader : Scan TzifHeader := do
  let magic ← readBytes 4
  require (magic == text "TZif")
  let version ← readU8
  let reserved ← readBytes 15
  require (reserved.all (· == 0))
  let utcLocalIndicators ← readU32
  let standardWallIndicators ← readU32
  let leapSeconds ← readU32
  let transitions ← readU32
  let localTimeTypes ← readU32
  let abbreviationBytes ← readU32
  let counts : TzifCounts :=
    ⟨utcLocalIndicators, standardWallIndicators, leapSeconds, transitions, localTimeTypes, abbreviationBytes⟩
  require ((version == 0 || version == versionByte '2' || version == versionByte '3' ||
    version == versionByte '4') && validCounts counts)
  pure ⟨version, counts⟩

/-! ## Sections -/

/-- The greatest `std::size_t`. -/
def sizeMax : Nat := 2 ^ 64 - 1

def checkedAdd (total value : Nat) : Option Nat :=
  if value > sizeMax - total then none else some (total + value)

def checkedAddProduct (total count width : Nat) : Option Nat :=
  if count ≠ 0 ∧ width > sizeMax / count then none else checkedAdd total (count * width)

/-- `section_size`, with its checks. -/
def sectionSize (counts : TzifCounts) (timeWidth : Nat) : Option Nat := do
  let size ← checkedAddProduct 0 counts.transitions timeWidth
  let size ← checkedAddProduct size counts.transitions 1
  let size ← checkedAddProduct size counts.localTimeTypes 6
  let size ← checkedAdd size counts.abbreviationBytes
  let size ← checkedAddProduct size counts.leapSeconds (timeWidth + 4)
  let size ← checkedAdd size counts.standardWallIndicators
  checkedAdd size counts.utcLocalIndicators

def readTransitionTime (timeWidth : Nat) : Scan Int := if timeWidth = 8 then readI64 else readI32

def readTimes (timeWidth : Nat) (previous : Option Int) : Nat → Scan (List Int)
  | 0 => pure []
  | count + 1 => do
    let time ← readTransitionTime timeWidth
    require (previous.all (· < time))
    let times ← readTimes timeWidth (some time) count
    pure (time :: times)

def readTypes (typeCount : Nat) : Nat → Scan (List Nat)
  | 0 => pure []
  | count + 1 => do
    let type ← readU8
    require (type < typeCount)
    let types ← readTypes typeCount count
    pure (type :: types)

def readLocalTimeTypes : Nat → Scan (List (TimezoneLocalTimeType × Nat))
  | 0 => pure []
  | count + 1 => do
    let offset ← readI32
    let daylight ← readU8
    let abbreviationIndex ← readU8
    require (validOffset offset && daylight ≤ 1)
    let types ← readLocalTimeTypes count
    pure ((⟨offset, daylight != 0⟩, abbreviationIndex) :: types)

def readLeapSeconds (timeWidth version : Nat) (previous : Option (Int × Int)) : Nat → Scan Unit
  | 0 => pure ()
  | count + 1 => do
    let time ← readTransitionTime timeWidth
    let correction ← readI32
    require (0 ≤ time)
    match previous with
    | none =>
      require (version == versionByte '4' || correction == -1 || correction == 1)
    | some (previousTime, previousCorrection) =>
      let delta := correction - previousCorrection
      let expiration := version == versionByte '4' && count == 0 && correction == previousCorrection
      require (previousTime < time && (expiration || delta == -1 || delta == 1))
    readLeapSeconds timeWidth version (some (time, correction)) count

def readIndicators : Nat → Scan (List Nat)
  | 0 => pure []
  | count + 1 => do
    let indicator ← readU8
    require (indicator ≤ 1)
    let indicators ← readIndicators count
    pure (indicator :: indicators)

def parseSection (counts : TzifCounts) (timeWidth version : Nat) : Scan ParsedSection := do
  let left ← remaining
  require ((sectionSize counts timeWidth).any (· ≤ left))
  let times ← readTimes timeWidth none counts.transitions
  let types ← readTypes counts.localTimeTypes counts.transitions
  let encodedTypes ← readLocalTimeTypes counts.localTimeTypes
  let abbreviations ← readBytes counts.abbreviationBytes
  require (encodedTypes.all fun type => abbreviationIsTerminated abbreviations type.2)
  readLeapSeconds timeWidth version none counts.leapSeconds
  let standard ← readIndicators counts.standardWallIndicators
  let utc ← readIndicators counts.utcLocalIndicators
  require (compatibleIndicators standard utc)
  pure { transitions := List.zipWith TimezoneTransition.mk times types
         localTimeTypes := encodedTypes.map (·.1) }

/-! ## `PosixReader` -/

def atEnd : Scan Bool := do
  let position ← position
  let size ← size
  pure (position == size)

def peek : Scan UInt8 := do
  if ← atEnd then pure 0
  else
    let index ← position
    fetch index

def consume (expected : Char) : Scan Bool := do
  let value ← peek
  if value = byte expected then
    advance 1
    pure true
  else pure false

/-- The loop over the characters that satisfy a test; at most `count` are left. -/
def skipWhile (test : UInt8 → Bool) : Nat → Scan Unit
  | 0 => pure ()
  | count + 1 => do
    if ← atEnd then pure ()
    else
      let value ← peek
      if test value then
        advance 1
        skipWhile test count
      else pure ()

def takeWhile (test : UInt8 → Bool) : Scan Bytes := do
  let start ← position
  let left ← remaining
  skipWhile test left
  let finish ← position
  substr start (finish - start)

def abbreviation : Scan Bytes := do
  if ← consume '<' then
    let content ← takeWhile validQuotedAbbreviationCharacter
    let closed ← consume '>'
    require (closed && 3 ≤ content.length)
    pure content
  else
    let content ← takeWhile asciiAlpha
    require (3 ≤ content.length)
    pure content

def unsignedNumber (minimum maximum : Nat) : Scan Nat := do
  let digits ← takeWhile asciiDigit
  match parseUnsigned digits with
  | none => require false; pure 0
  | some value => require (minimum ≤ value && value ≤ maximum); pure value

def behindColon : Scan (Option Nat) := do
  if ← consume ':' then
    let number ← unsignedNumber 0 59
    pure (some number)
  else pure none

def sign : Scan Bool := do
  if ← consume '-' then pure true
  else
    let _ ← consume '+'
    pure false

def smallUnits : Scan (Nat × Nat) := do
  match ← behindColon with
  | none => pure (0, 0)
  | some minutes =>
    let seconds ← behindColon
    pure (minutes, seconds.getD 0)

def signedTime : Scan Int := do
  let negative ← sign
  let hours ← unsignedNumber 0 maximumPosixHour
  let (minutes, seconds) ← smallUnits
  let magnitude : Int := hours * 3600 + minutes * 60 + seconds
  pure (if negative then -magnitude else magnitude)

def utcOffset : Scan Int := do
  let posixOffset ← signedTime
  require (validOffset (-posixOffset))
  pure (-posixOffset)

def ruleDate : Scan PosixDateRule := do
  if ← consume 'M' then
    let month ← unsignedNumber 1 12
    let dot ← consume '.'
    require dot
    let week ← unsignedNumber 1 5
    let dot ← consume '.'
    require dot
    let weekday ← unsignedNumber 0 6
    pure { kind := .monthWeekday, month, week, weekday }
  else if ← consume 'J' then
    let day ← unsignedNumber 1 365
    pure { kind := .julianWithoutLeapDay, day }
  else
    let day ← unsignedNumber 0 365
    pure { kind := .julianWithLeapDay, day }

def dateRule : Scan PosixDateRule := do
  let rule ← ruleDate
  if ← consume '/' then
    let transitionTime ← signedTime
    pure { rule with transitionTimeSeconds := transitionTime }
  else
    pure rule

def requireConsume (expected : Char) : Scan Unit := do
  let read ← consume expected
  require read

def daylightOffset (standardOffset : Int) : Scan Int := do
  let next ← peek
  let ended ← atEnd
  if next = byte ',' ∨ ended = true then
    require (validOffset (standardOffset + 3600))
    pure (standardOffset + 3600)
  else utcOffset

def daylightRule (standardOffset : Int) : Scan PosixDaylightRule := do
  let abbreviation ← abbreviation
  let offset ← daylightOffset standardOffset
  requireConsume ','
  let start ← dateRule
  requireConsume ','
  let finish ← dateRule
  let ended ← atEnd
  require ended
  pure { abbreviation, utcOffsetSeconds := offset, start, finish }

/-- `parse_posix_footer` reads the offset also behind an abbreviation it has not accepted. -/
def futureRule : Scan PosixFutureRule := do
  let abbreviation ← attempt abbreviation
  let offset ← attempt utcOffset
  match abbreviation, offset with
  | some abbreviation, some offset =>
    if ← atEnd then
      pure { standardAbbreviation := abbreviation, standardUtcOffsetSeconds := offset, daylight := none }
    else
      let daylight ← daylightRule offset
      pure { standardAbbreviation := abbreviation, standardUtcOffsetSeconds := offset, daylight }
  | _, _ => require false; pure ⟨[], 0, none⟩

/-! ## Files -/

/-- `parse_posix_footer`, on a reader of its own. -/
def parsePosixFooter (footer : Bytes) : Scan (Option (Option PosixFutureRule)) := fun _ position =>
  if footer = [] then .read (some none) position
  else
    match futureRule footer 0 with
    | .fault => .fault
    | .failed _ => .read none position
    | .read rule _ => .read (some (some rule)) position

/-- What is between the line breaks, the first and the last character of a string of at least two. -/
def footerText : Scan (Option Bytes) := do
  let footer ← remainder
  if footer.length < 2 then pure none
  else
    let start ← position
    let front ← fetch start
    let back ← fetch (start + footer.length - 1)
    let inner ← substr (start + 1) (footer.length - 2)
    pure (if front ≠ byte '\n' ∨ back ≠ byte '\n' ∨ byte '\n' ∈ inner then none else some inner)

def parseTimezoneData : Scan (Except Error TimezoneData) := do
  let size ← size
  if size = 0 ∨ maximumTimezoneFileSize < size then return .error (invalidTimezoneData "file size")
  let some firstHeader ← attempt readHeader | return .error (invalidTimezoneData "first header")
  let some firstSection ← attempt (parseSection firstHeader.counts 4 firstHeader.version)
    | return .error (invalidTimezoneData "32-bit section")
  if firstHeader.version = 0 then
    let left ← remaining
    if left ≠ 0 then return .error (invalidTimezoneData "trailing v1 data")
    return .ok
      { transitions := firstSection.transitions
        localTimeTypes := firstSection.localTimeTypes
        defaultLocalTimeType := firstSection.defaultLocalTimeType
        futureRule := none }
  let some secondHeader ← attempt readHeader | return .error (invalidTimezoneData "64-bit header")
  if secondHeader.version ≠ firstHeader.version ∨ secondHeader.version = 0 then
    return .error (invalidTimezoneData "64-bit header")
  let some secondSection ← attempt (parseSection secondHeader.counts 8 secondHeader.version)
    | return .error (invalidTimezoneData "64-bit section")
  let some footer ← footerText | return .error (invalidTimezoneData "POSIX footer framing")
  let some futureRule ← parsePosixFooter footer | return .error (invalidTimezoneData "POSIX footer")
  return .ok
    { transitions := secondSection.transitions
      localTimeTypes := secondSection.localTimeTypes
      defaultLocalTimeType := secondSection.defaultLocalTimeType
      futureRule }

/-! ## Inside the string -/

section

variable {α β : Type} {x : Scan α} {f : α → Scan β} {bytes : Bytes} {start last : Nat}

theorem bind_read {value : α} (h : x bytes start = .read value last) : (x >>= f) bytes start = f value bytes last := by
  show (match x bytes start with | .fault => _ | .failed position => _ | .read _ _ => _) = _
  rw [h]

theorem bind_failed (h : x bytes start = .failed last) : (x >>= f) bytes start = .failed last := by
  show (match x bytes start with | .fault => _ | .failed position => _ | .read _ _ => _) = _
  rw [h]

theorem remaining_eq : remaining bytes start = .read (bytes.length - start) start := rfl

theorem position_eq : position bytes start = .read start start := rfl

variable {condition : Bool}

theorem require_eq (h : condition = true) : require condition bytes start = .read () start := if_pos h

theorem require_failed (h : condition = false) : require condition bytes start = .failed start := if_neg (by simp [h])

variable {index : Nat}

theorem substr_eq {count : Nat} (h : index + count ≤ bytes.length) :
    substr index count bytes start = .read ((bytes.drop index).take count) start :=
  if_neg (by omega)

theorem fetch_eq (h : index < bytes.length) : fetch index bytes start = .read bytes[index] start := by
  unfold fetch
  rw [getElem?_eq_getElem h]

theorem fetchFrom_eq : ∀ {index count : Nat}, index + count ≤ bytes.length →
    fetchFrom index count bytes start = .read ((bytes.drop index).take count) start
  | index, 0, _ => rfl
  | index, count + 1, inside => by
    have within : index < bytes.length := by omega
    rw [fetchFrom, bind_read (fetch_eq within), bind_read (fetchFrom_eq (by omega)), List.drop_eq_getElem_cons within]
    rfl

end

/-- From a position inside, the scan stays inside and reads what the reader of the rest reads. -/
def Tracks {α : Type} (scan : Scan α) (reader : Reader α) : Prop :=
  ∀ (bytes : Bytes) (position : Nat), bytes.length ≤ sizeMax → position ≤ bytes.length →
    (∃ last ≤ bytes.length, scan bytes position = .failed last ∧ reader (bytes.drop position) = none) ∨
    ∃ value last, last ≤ bytes.length ∧ scan bytes position = .read value last ∧
      reader (bytes.drop position) = some (value, bytes.drop last)

namespace Tracks

variable {α β : Type}

theorem pure (value : α) : Tracks (Pure.pure value) (Pure.pure value) :=
  fun _ position _ inside => .inr ⟨value, position, inside, rfl, rfl⟩

variable {x : Scan α} {y : Reader α}

theorem bind {f : α → Scan β} {g : α → Reader β} (first : Tracks x y)
    (next : ∀ value, Tracks (f value) (g value)) : Tracks (x >>= f) (y >>= g) := by
  intro bytes position small inside
  rcases first bytes position small inside with ⟨last, bound, scan, reader⟩ | ⟨value, middle, bound, scan, reader⟩
  · exact .inl ⟨last, bound, bind_failed scan, bind_of_none reader⟩
  · rw [bind_read scan, bind_of_some reader]
    exact next value bytes middle small bound

theorem ite {c : Prop} [Decidable c] {x' : Scan α} {y' : Reader α} (first : Tracks x y)
    (second : Tracks x' y') : Tracks (if c then x else x') (if c then y else y') := by
  split
  · exact first
  · exact second

theorem require (condition : Bool) : Tracks (Scan.require condition) (Reader.require condition) := by
  intro _ position _ inside
  unfold Scan.require Reader.require
  split
  · exact .inr ⟨(), position, inside, rfl, rfl⟩
  · exact .inl ⟨position, inside, rfl, rfl⟩

/-- What the operations of `ByteReader` have in common: a check of the bytes that are left, and a
step over them. -/
theorem take {f : Bytes → α} {count : Nat}
    (fails : ∀ bytes position, bytes.length - position < count → x bytes position = .failed position)
    (reads : ∀ bytes position, position + count ≤ bytes.length →
      x bytes position = .read (f ((bytes.drop position).take count)) (position + count)) :
    Tracks x (do let bytes ← Cron.readBytes count; Pure.pure (f bytes)) := by
  intro bytes position _ inside
  by_cases short : bytes.length - position < count
  · refine .inl ⟨position, inside, fails bytes position short, bind_of_none ?_⟩
    rw [Cron.readBytes, length_drop, if_pos short]
  have enough : position + count ≤ bytes.length := by omega
  refine .inr ⟨_, _, enough, reads bytes position enough, bind_of_some ?_⟩
  rw [Cron.readBytes, length_drop, if_neg short, drop_drop]

end Tracks

theorem readWord_tracks (width : Nat) :
    Tracks (readWord width) (do let bytes ← Cron.readBytes width; pure (bigEndian bytes)) := by
  refine Tracks.take (fun bytes start short => ?_) fun bytes start enough => ?_
  · rw [readWord, bind_read remaining_eq, bind_failed (require_failed (by simp; omega))]
  · rw [readWord, bind_read remaining_eq, bind_read (require_eq (by simp; omega)), bind_read position_eq,
      bind_read (fetchFrom_eq enough)]
    rfl

theorem readU8_tracks : Tracks readU8 Cron.readU8 := by
  have same : Cron.readU8 = (do let bytes ← Cron.readBytes 1; pure (bigEndian bytes) : Reader Nat) := by
    funext bytes
    cases bytes with
    | nil => rfl
    | cons value rest =>
      have first : Cron.readBytes 1 (value :: rest) = some ([value], rest) := if_neg (by simp)
      rw [bind_of_some first]
      show _ = some (0 * 256 + value.toNat, rest)
      rw [Nat.zero_mul, Nat.zero_add]
      rfl
  rw [same]
  exact readWord_tracks 1

theorem readU32_tracks : Tracks readU32 Cron.readU32 := readWord_tracks 4

theorem readI32_tracks : Tracks readI32 Cron.readI32 := readU32_tracks.bind fun _ => .pure _

theorem readI64_tracks : Tracks readI64 Cron.readI64 := by
  have same : Cron.readI64 = ((do let bytes ← Cron.readBytes 8; pure (bigEndian bytes)) >>=
    fun value => pure (toSigned 64 value) : Reader Int) := by
    rw [bind_assoc]
    simp only [pure_bind]
    rfl
  rw [same]
  exact (readWord_tracks 8).bind fun _ => .pure _

theorem readBytes_tracks (count : Nat) : Tracks (readBytes count) (Cron.readBytes count) := by
  have same : Cron.readBytes count = (do let bytes ← Cron.readBytes count; pure (id bytes)) :=
    (bind_pure _).symm
  rw [same]
  refine Tracks.take (fun bytes start short => ?_) fun bytes start enough => ?_
  · rw [readBytes, bind_read remaining_eq, bind_failed (require_failed (by simp; omega))]
  · rw [readBytes, bind_read remaining_eq, bind_read (require_eq (by simp; omega)), bind_read position_eq,
      bind_read (substr_eq enough)]
    rfl

theorem readTransitionTime_tracks (timeWidth : Nat) :
    Tracks (readTransitionTime timeWidth) (Cron.readTransitionTime timeWidth) :=
  .ite readI64_tracks readI32_tracks

theorem readHeader_tracks : Tracks readHeader Cron.readHeader :=
  (readBytes_tracks 4).bind fun _ => (Tracks.require _).bind fun _ => readU8_tracks.bind fun _ =>
    (readBytes_tracks 15).bind fun _ => (Tracks.require _).bind fun _ => readU32_tracks.bind fun _ =>
    readU32_tracks.bind fun _ => readU32_tracks.bind fun _ => readU32_tracks.bind fun _ =>
    readU32_tracks.bind fun _ => readU32_tracks.bind fun _ => (Tracks.require _).bind fun _ => .pure _

theorem readTimes_tracks (timeWidth : Nat) : ∀ (previous : Option Int) (count : Nat),
    Tracks (readTimes timeWidth previous count) (Cron.readTimes timeWidth previous count)
  | _, 0 => .pure _
  | _, count + 1 => (readTransitionTime_tracks _).bind fun time => (Tracks.require _).bind fun _ =>
    (readTimes_tracks timeWidth (some time) count).bind fun _ => .pure _

theorem readTypes_tracks (typeCount : Nat) : ∀ count : Nat,
    Tracks (readTypes typeCount count) (Cron.readTypes typeCount count)
  | 0 => .pure _
  | count + 1 => readU8_tracks.bind fun _ => (Tracks.require _).bind fun _ =>
    (readTypes_tracks typeCount count).bind fun _ => .pure _

theorem readLocalTimeTypes_tracks : ∀ count : Nat, Tracks (readLocalTimeTypes count) (Cron.readLocalTimeTypes count)
  | 0 => .pure _
  | count + 1 => readI32_tracks.bind fun _ => readU8_tracks.bind fun _ => readU8_tracks.bind fun _ =>
    (Tracks.require _).bind fun _ => (readLocalTimeTypes_tracks count).bind fun _ => .pure _

theorem readLeapSeconds_tracks (timeWidth version : Nat) : ∀ (previous : Option (Int × Int)) (count : Nat),
    Tracks (readLeapSeconds timeWidth version previous count)
      (Cron.readLeapSeconds timeWidth version previous count)
  | _, 0 => .pure _
  | previous, count + 1 => by
    cases previous <;> exact (readTransitionTime_tracks _).bind fun _ => readI32_tracks.bind fun _ =>
      (Tracks.require _).bind fun _ => (Tracks.require _).bind fun _ =>
      readLeapSeconds_tracks timeWidth version _ count

theorem readIndicators_tracks : ∀ count : Nat, Tracks (readIndicators count) (Cron.readIndicators count)
  | 0 => .pure _
  | count + 1 => readU8_tracks.bind fun _ => (Tracks.require _).bind fun _ =>
    (readIndicators_tracks count).bind fun _ => .pure _

/-! ### Sizes -/

/-- A total that a `std::size_t` holds. -/
def held (total : Nat) : Option Nat := if total ≤ sizeMax then some total else none

theorem held_add {β : Type} (total value : Nat) (next : Nat → Option β) :
    ((held total).bind fun total => (checkedAdd total value).bind next) = (held (total + value)).bind next := by
  unfold held
  by_cases small : total ≤ sizeMax
  · rw [if_pos small, Option.bind_some, checkedAdd]
    by_cases fits : total + value ≤ sizeMax
    · rw [if_pos fits, if_neg (by omega)]
    · rw [if_neg fits, if_pos (by omega)]
  · rw [if_neg small, if_neg (by omega)]
    rfl

theorem held_addProduct {β : Type} (total count width : Nat) (next : Nat → Option β) :
    ((held total).bind fun total => (checkedAddProduct total count width).bind next) =
      (held (total + count * width)).bind next := by
  rw [← held_add]
  unfold checkedAddProduct
  split
  next large =>
    -- The product alone does not fit, so neither does the sum.
    have beyond : sizeMax < count * width := by
      have := (Nat.div_lt_iff_lt_mul (Nat.pos_of_ne_zero large.1)).1 large.2
      rwa [Nat.mul_comm]
    cases held total with
    | none => rfl
    | some => rw [Option.bind_some, Option.bind_some, checkedAdd, if_pos (by omega)]
  · rfl

/-- The checked size is the size, when a `std::size_t` holds it. -/
theorem sectionSize_eq (counts : TzifCounts) (timeWidth : Nat) :
    sectionSize counts timeWidth = held (Cron.sectionSize counts timeWidth) := by
  have zero : sectionSize counts timeWidth =
    (held 0).bind fun total => (checkedAddProduct total counts.transitions timeWidth).bind fun size =>
      (checkedAddProduct size counts.transitions 1).bind fun size =>
      (checkedAddProduct size counts.localTimeTypes 6).bind fun size =>
      (checkedAdd size counts.abbreviationBytes).bind fun size =>
      (checkedAddProduct size counts.leapSeconds (timeWidth + 4)).bind fun size =>
      (checkedAdd size counts.standardWallIndicators).bind fun size =>
      (checkedAdd size counts.utcLocalIndicators).bind some := by
    simp only [Option.bind_fun_some, held, Nat.zero_le, if_true, Option.bind_some]
    rfl
  rw [zero, held_addProduct, held_addProduct, held_addProduct, held_add, held_addProduct, held_add, held_add,
    Option.bind_fun_some, Nat.zero_add, Nat.mul_one]
  rfl

theorem sectionSize_any (counts : TzifCounts) (timeWidth : Nat) {left : Nat} (small : left ≤ sizeMax) :
    (sectionSize counts timeWidth).any (· ≤ left) = decide (Cron.sectionSize counts timeWidth ≤ left) := by
  rw [sectionSize_eq, held]
  split
  · rfl
  · rw [decide_eq_false (by omega)]
    rfl

theorem parseSection_tracks (counts : TzifCounts) (timeWidth version : Nat) :
    Tracks (parseSection counts timeWidth version) (Cron.parseSection counts timeWidth version) := by
  intro bytes start small inside
  have checked := sectionSize_any counts timeWidth (show bytes.length - start ≤ sizeMax by omega)
  have after := (Tracks.require (decide (Cron.sectionSize counts timeWidth ≤ bytes.length - start))).bind fun _ =>
    (readTimes_tracks timeWidth none counts.transitions).bind fun times =>
    (readTypes_tracks counts.localTimeTypes counts.transitions).bind fun types =>
    (readLocalTimeTypes_tracks counts.localTimeTypes).bind fun encodedTypes =>
    (readBytes_tracks counts.abbreviationBytes).bind fun abbreviations =>
    (Tracks.require (encodedTypes.all fun type => abbreviationIsTerminated abbreviations type.2)).bind fun _ =>
    (readLeapSeconds_tracks timeWidth version none counts.leapSeconds).bind fun _ =>
    (readIndicators_tracks counts.standardWallIndicators).bind fun standard =>
    (readIndicators_tracks counts.utcLocalIndicators).bind fun utc =>
    (Tracks.require (compatibleIndicators standard utc)).bind fun _ =>
    Tracks.pure ({ transitions := zipWith TimezoneTransition.mk times types
                   localTimeTypes := encodedTypes.map (·.1) } : ParsedSection)
  have step := after bytes start small inside
  rw [parseSection, bind_read remaining_eq, checked]
  have remaining : Reader.remaining (bytes.drop start) = some (bytes.length - start, bytes.drop start) := by
    rw [Reader.remaining, length_drop]
  rw [Cron.parseSection, Reader.bind_of_some remaining]
  exact step

/-! ### The footer -/

theorem atEnd_tracks : Tracks atEnd PosixReader.atEnd := by
  intro bytes start _ inside
  refine .inr ⟨start == bytes.length, start, inside, rfl, ?_⟩
  rw [PosixReader.atEnd]
  congr 2
  rw [Bool.eq_iff_iff, List.isEmpty_iff, List.drop_eq_nil_iff, beq_iff_eq]
  omega

variable {bytes : Bytes} {start : Nat}

theorem peek_eq (inside : start ≤ bytes.length) : peek bytes start = .read ((bytes.drop start).headD 0) start := by
  have ended : atEnd bytes start = .read (start == bytes.length) start := rfl
  rw [peek, bind_read ended]
  by_cases isEnd : start = bytes.length
  · rw [if_pos (beq_iff_eq.2 isEnd), isEnd, drop_length]
    rfl
  have within : start < bytes.length := by omega
  rw [if_neg (by simpa using isEnd), bind_read position_eq, fetch_eq within, drop_eq_getElem_cons within]
  rfl

theorem consume_tracks {expected : Char} (printed : byte expected ≠ 0) :
    Tracks (consume expected) (PosixReader.consume expected) := by
  intro bytes start _ inside
  rw [consume, bind_read (peek_eq inside)]
  right
  by_cases isEnd : start = bytes.length
  · rw [isEnd, drop_length]
    exact ⟨false, _, le_rfl, by rw [headD, if_neg printed.symm]; rfl,
      by rw [drop_length]; rfl⟩
  have within : start < bytes.length := by omega
  rw [drop_eq_getElem_cons within, headD_cons, PosixReader.consume]
  by_cases same : bytes[start] = byte expected
  · rw [if_pos same, if_pos same]
    exact ⟨true, start + 1, within, rfl, rfl⟩
  · rw [if_neg same, if_neg same, ← drop_eq_getElem_cons within]
    exact ⟨false, start, inside, rfl, rfl⟩

theorem skipWhile_eq (bytes : Bytes) (test : UInt8 → Bool) : ∀ (left start : Nat),
    start + left = bytes.length → ∃ last, start ≤ last ∧ last ≤ bytes.length ∧
      skipWhile test left bytes start = .read () last ∧
      (bytes.drop start).takeWhile test = (bytes.drop start).take (last - start) ∧
      (bytes.drop start).dropWhile test = bytes.drop last
  | 0, start, total => by
    rw [List.drop_eq_nil_of_le (show bytes.length ≤ start by omega)]
    exact ⟨start, le_rfl, by omega, rfl, List.take_nil.symm, (List.drop_eq_nil_of_le (by omega)).symm⟩
  | left + 1, start, total => by
    have within : start < bytes.length := by omega
    have ended : atEnd bytes start = .read false start := by
      show Outcome.read (start == bytes.length) start = _
      rw [beq_false_of_ne (by omega)]
    rw [skipWhile, bind_read ended, if_neg (by decide), bind_read (peek_eq within.le),
      drop_eq_getElem_cons within, headD_cons]
    by_cases holds : test bytes[start] = true
    · obtain ⟨last, _, bound, scan, front, back⟩ := skipWhile_eq bytes test left (start + 1) (by omega)
      refine ⟨last, by omega, bound, ?_, ?_, ?_⟩
      · rw [if_pos holds]
        exact scan
      · rw [takeWhile_cons_of_pos holds, front, show last - start = last - (start + 1) + 1 by omega, take_succ_cons]
      · rw [dropWhile_cons_of_pos holds, back]
    refine ⟨start, le_rfl, within.le, by rw [if_neg holds]; rfl, ?_, ?_⟩
    · rw [takeWhile_cons_of_neg holds, Nat.sub_self, take_zero]
    · rw [dropWhile_cons_of_neg holds, ← drop_eq_getElem_cons within]

theorem takeWhile_tracks (test : UInt8 → Bool) : Tracks (takeWhile test) (PosixReader.takeWhile test) := by
  intro bytes start _ _
  obtain ⟨last, _, bound, scan, front, back⟩ :=
    skipWhile_eq bytes test (bytes.length - start) start (by omega)
  refine .inr ⟨_, last, bound, ?_, by rw [PosixReader.takeWhile, front, back]⟩
  rw [takeWhile, bind_read position_eq, bind_read remaining_eq, bind_read scan, bind_read position_eq,
    substr_eq (by omega)]

theorem abbreviation_tracks : Tracks abbreviation PosixReader.abbreviation :=
  (consume_tracks (by decide)).bind fun _ => .ite
    ((takeWhile_tracks _).bind fun _ => (consume_tracks (by decide)).bind fun _ =>
      (Tracks.require _).bind fun _ => .pure _)
    ((takeWhile_tracks _).bind fun _ => (Tracks.require _).bind fun _ => .pure _)

theorem unsignedNumber_tracks (minimum maximum : Nat) :
    Tracks (unsignedNumber minimum maximum) (PosixReader.unsignedNumber minimum maximum) := by
  have same : PosixReader.unsignedNumber minimum maximum = (do
    let digits ← PosixReader.takeWhile asciiDigit
    match parseUnsigned digits with
    | none => Reader.require false; pure 0
    | some value => Reader.require (minimum ≤ value && value ≤ maximum); pure value) := by
    funext rest
    have digits : PosixReader.takeWhile asciiDigit rest =
      some (rest.takeWhile asciiDigit, rest.dropWhile asciiDigit) := rfl
    rw [Reader.bind_of_some digits, PosixReader.unsignedNumber]
    cases parseUnsigned (rest.takeWhile asciiDigit) with
    | none => rfl
    | some value =>
      by_cases bounds : minimum ≤ value ∧ value ≤ maximum
      · have accepted : Reader.require (minimum ≤ value && value ≤ maximum) (rest.dropWhile asciiDigit) =
          some ((), rest.dropWhile asciiDigit) := if_pos (by simpa using bounds)
        dsimp only
        rw [if_pos bounds, Reader.bind_of_some accepted]
        rfl
      have refused : Reader.require (minimum ≤ value && value ≤ maximum) (rest.dropWhile asciiDigit) =
        none := if_neg (by simpa using bounds)
      dsimp only
      rw [if_neg bounds, Reader.bind_of_none refused]
  rw [same]
  refine (takeWhile_tracks _).bind fun digits => ?_
  cases parseUnsigned digits with
  | none | some => exact (Tracks.require _).bind fun _ => .pure _

theorem behindColon_tracks : Tracks behindColon PosixReader.behindColon :=
  (consume_tracks (by decide)).bind fun _ => .ite ((unsignedNumber_tracks _ _).bind fun _ => .pure _) (.pure _)

theorem smallUnits_tracks : Tracks smallUnits PosixReader.smallUnits :=
  behindColon_tracks.bind fun minutes => match minutes with
    | none => .pure _
    | some _ => behindColon_tracks.bind fun _ => .pure _

theorem signedTime_tracks : Tracks signedTime PosixReader.signedTime :=
  ((consume_tracks (by decide)).bind fun _ => .ite (.pure _)
    ((consume_tracks (by decide)).bind fun _ => .pure _)).bind fun _ =>
  (unsignedNumber_tracks _ _).bind fun _ => smallUnits_tracks.bind fun _ => .pure _

theorem utcOffset_tracks : Tracks utcOffset PosixReader.utcOffset :=
  signedTime_tracks.bind fun _ => (Tracks.require _).bind fun _ => .pure _

theorem dateRule_tracks : Tracks dateRule PosixReader.dateRule :=
  ((consume_tracks (by decide)).bind fun _ => .ite
    ((unsignedNumber_tracks _ _).bind fun _ => (consume_tracks (by decide)).bind fun _ =>
      (Tracks.require _).bind fun _ => (unsignedNumber_tracks _ _).bind fun _ =>
      (consume_tracks (by decide)).bind fun _ => (Tracks.require _).bind fun _ =>
      (unsignedNumber_tracks _ _).bind fun _ => .pure _)
    ((consume_tracks (by decide)).bind fun _ => .ite
      ((unsignedNumber_tracks _ _).bind fun _ => .pure _)
      ((unsignedNumber_tracks _ _).bind fun _ => .pure _))).bind fun _ =>
  (consume_tracks (by decide)).bind fun _ => .ite (signedTime_tracks.bind fun _ => .pure _) (.pure _)

theorem daylightOffset_tracks (standardOffset : Int) :
    Tracks (daylightOffset standardOffset) (PosixReader.daylightOffset standardOffset) := by
  intro bytes start small inside
  have ended : atEnd bytes start = .read (start == bytes.length) start := rfl
  rw [daylightOffset, bind_read (peek_eq inside), bind_read ended, PosixReader.daylightOffset]
  have same : ((bytes.drop start).headD 0 = byte ',' ∨ (start == bytes.length) = true) ↔
    (bytes.drop start = [] ∨ (bytes.drop start).head? = some (byte ',')) := by
    rw [beq_iff_eq, drop_eq_nil_iff]
    cases rest : bytes.drop start with
    | nil =>
      have := drop_eq_nil_iff.1 rest
      exact ⟨fun _ => .inl this, fun _ => .inr (by omega)⟩
    | cons =>
      have : ¬ bytes.length ≤ start := fun short => by
        rw [drop_eq_nil_of_le short] at rest
        cases rest
      rw [headD_cons, head?_cons, Option.some_inj]
      exact ⟨fun spec => spec.elim .inr fun atEnd => absurd atEnd.ge this,
        fun spec => spec.elim (fun short => absurd short this) .inl⟩
  by_cases written : (bytes.drop start).headD 0 = byte ',' ∨ (start == bytes.length) = true
  · rw [if_pos written, if_pos (same.1 written)]
    by_cases valid : validOffset (standardOffset + 3600) = true
    · rw [if_pos valid, bind_read (require_eq valid)]
      exact .inr ⟨_, start, inside, rfl, rfl⟩
    · rw [if_neg valid, bind_failed (require_failed (by simpa using valid))]
      exact .inl ⟨start, inside, rfl, rfl⟩
  · rw [if_neg written, if_neg fun spec => written (same.2 spec)]
    exact utcOffset_tracks bytes start small inside

theorem daylightRule_tracks (standardOffset : Int) :
    Tracks (daylightRule standardOffset) (PosixReader.daylightRule standardOffset) :=
  have comma := (consume_tracks (show byte ',' ≠ 0 by decide)).bind Tracks.require
  abbreviation_tracks.bind fun _ => (daylightOffset_tracks _).bind fun _ => comma.bind fun _ =>
    dateRule_tracks.bind fun _ => comma.bind fun _ => dateRule_tracks.bind fun _ =>
    atEnd_tracks.bind fun _ => (Tracks.require _).bind fun _ => .pure _

/-- An attempt has no fault and says what the reader reads. -/
theorem Tracks.attempt {α : Type} {x : Scan α} {y : Reader α} (h : Tracks x y)
    (small : bytes.length ≤ sizeMax) (inside : start ≤ bytes.length) :
    ∃ value last, last ≤ bytes.length ∧ attempt x bytes start = .read value last ∧
      y (bytes.drop start) = value.map fun read => (read, bytes.drop last) := by
  unfold Scan.attempt
  rcases h bytes start small inside with ⟨last, bound, scan, reader⟩ | ⟨value, last, bound, scan, reader⟩
  · exact ⟨none, last, bound, by rw [scan], reader⟩
  · exact ⟨some value, last, bound, by rw [scan], reader⟩

theorem futureRule_tracks : Tracks futureRule PosixReader.futureRule := by
  intro bytes _ small inside
  rw [futureRule, PosixReader.futureRule]
  -- The offset is read from wherever the abbreviation has left the position.
  obtain ⟨abbreviation, _, bound, scan, reader⟩ := abbreviation_tracks.attempt small inside
  obtain ⟨offset, last, bound', scan', reader'⟩ := utcOffset_tracks.attempt small bound
  rw [bind_read scan, bind_read scan']
  cases abbreviation with
  | none =>
    rw [bind_of_none reader]
    cases offset <;> exact .inl ⟨last, bound', rfl, rfl⟩
  | some abbreviation =>
    rw [bind_of_some reader]
    cases offset with
    | none =>
      rw [bind_of_none reader']
      exact .inl ⟨last, bound', rfl, rfl⟩
    | some offset =>
      rw [bind_of_some reader']
      exact atEnd_tracks.bind (fun ended => Tracks.ite (c := ended = true)
        (.pure (PosixFutureRule.mk abbreviation offset none))
        ((daylightRule_tracks offset).bind fun daylight =>
          .pure (PosixFutureRule.mk abbreviation offset (some daylight)))) bytes last small bound'

/-! ### Files -/

theorem parsePosixFooter_eq {footer : Bytes} (small : footer.length ≤ sizeMax) :
    parsePosixFooter footer bytes start = .read (Cron.parsePosixFooter footer) start := by
  rw [parsePosixFooter, Cron.parsePosixFooter]
  by_cases empty : footer = []
  · rw [if_pos empty, if_pos empty]
  rw [if_neg empty, if_neg empty]
  rcases futureRule_tracks footer 0 small (Nat.zero_le _) with
    ⟨last, -, scan, reader⟩ | ⟨rule, last, -, scan, reader⟩
  · rw [scan, show PosixReader.futureRule footer = none from reader]
    rfl
  · rw [scan, show PosixReader.futureRule footer = some (rule, footer.drop last) from reader]
    rfl

theorem footerText_eq (inside : start ≤ bytes.length) :
    footerText bytes start = .read (Cron.footerText (bytes.drop start)) start := by
  have rest : remainder bytes start = .read (bytes.drop start) start := by
    rw [remainder, bind_read remaining_eq, bind_read position_eq, substr_eq (by omega),
      take_of_length_le (by rw [length_drop])]
  rw [footerText, bind_read rest, Cron.footerText, length_drop]
  by_cases short : bytes.length - start < 2
  · rw [if_pos short, if_pos (.inl short)]
    rfl
  have within : start < bytes.length := by omega
  have front : (bytes.drop start).head? = some bytes[start] := by rw [head?_drop, getElem?_eq_getElem within]
  have back : (bytes.drop start).getLast? = some bytes[start + (bytes.length - start) - 1] := by
    rw [getLast?_drop, if_neg (by omega), getLast?_eq_getElem?]
    simp only [show start + (bytes.length - start) - 1 = bytes.length - 1 by omega]
    exact getElem?_eq_getElem (by omega)
  have inner : ((bytes.drop (start + 1)).take (bytes.length - start - 2)) = (bytes.drop start).tail.dropLast := by
    rw [tail_drop, dropLast_eq_take, length_drop]
    congr 1
  rw [if_neg short, bind_read position_eq, bind_read (fetch_eq within),
    bind_read (fetch_eq (by omega)), bind_read (substr_eq (by omega)), inner, front, back]
  simp only [short, false_or, ne_eq, Option.some_inj]
  rfl

/-- The parser reads inside the string, and what it reads is what `parseTimezoneData` makes of it. -/
theorem parseTimezoneData_eq (bytes : Bytes) : ∃ last ≤ bytes.length,
    parseTimezoneData bytes 0 = .read (Cron.parseTimezoneData bytes) last := by
  have sized : size bytes 0 = .read bytes.length 0 := rfl
  rw [parseTimezoneData, bind_read sized, Cron.parseTimezoneData]
  by_cases outside : bytes.length = 0 ∨ maximumTimezoneFileSize < bytes.length
  · rw [if_pos outside, if_pos (outside.imp_left length_eq_zero_iff.1)]
    exact ⟨0, Nat.zero_le _, rfl⟩
  rw [if_neg outside, if_neg fun spec => outside (spec.imp_left length_eq_zero_iff.2)]
  have small : bytes.length ≤ sizeMax := by
    have bound : maximumTimezoneFileSize ≤ sizeMax := by decide
    omega
  obtain ⟨first, at1, in1, scan, reader⟩ := readHeader_tracks.attempt small (Nat.zero_le _)
  rw [bind_read scan, show Cron.readHeader bytes = _ from reader]
  cases first with
  | none => exact ⟨at1, in1, rfl⟩
  | some first =>
  dsimp only [Option.map_some]
  obtain ⟨firstSection, at2, in2, scan, reader⟩ :=
    (parseSection_tracks first.counts 4 first.version).attempt small in1
  rw [bind_read scan, reader]
  cases firstSection with
  | none => exact ⟨at2, in2, rfl⟩
  | some firstSection =>
  dsimp only [Option.map_some]
  by_cases single : first.version = 0
  · rw [if_pos single, if_pos single, bind_read remaining_eq]
    by_cases ended : bytes.length - at2 = 0
    · rw [if_neg (not_not.2 ended), if_neg (not_not.2 (drop_eq_nil_iff.2 (by omega)))]
      exact ⟨at2, in2, rfl⟩
    · rw [if_pos ended, if_pos fun empty => ended (by have := drop_eq_nil_iff.1 empty; omega)]
      exact ⟨at2, in2, rfl⟩
  rw [if_neg single, if_neg single]
  obtain ⟨second, at3, in3, scan, reader⟩ := readHeader_tracks.attempt small in2
  rw [bind_read scan, reader]
  cases second with
  | none => exact ⟨at3, in3, rfl⟩
  | some second =>
  dsimp only [Option.map_some]
  by_cases other : second.version ≠ first.version
  · rw [if_pos (.inl other), if_pos other]
    exact ⟨at3, in3, rfl⟩
  rw [if_neg fun spec => spec.elim other fun zero => single (not_not.1 other ▸ zero), if_neg other]
  obtain ⟨secondSection, at4, in4, scan, reader⟩ :=
    (parseSection_tracks second.counts 8 second.version).attempt small in3
  rw [bind_read scan, reader]
  cases secondSection with
  | none => exact ⟨at4, in4, rfl⟩
  | some secondSection =>
  dsimp only [Option.map_some]
  rw [bind_read (footerText_eq in4)]
  cases framed : Cron.footerText (bytes.drop at4) with
  | none => exact ⟨at4, in4, rfl⟩
  | some footer =>
    have short : footer.length ≤ bytes.length := by
      unfold Cron.footerText at framed
      split at framed <;> cases framed
      rw [length_dropLast, length_tail, length_drop]
      omega
    dsimp only
    rw [bind_read (parsePosixFooter_eq (short.trans small))]
    cases Cron.parsePosixFooter footer with
    | none | some => exact ⟨at4, in4, rfl⟩

end Scan

/-! ## The size of a section -/

/-- A read that succeeds steps over so many bytes. -/
def Reader.Consumes {α : Type} (x : Reader α) (count : Nat) : Prop :=
  ∀ ⦃rest value rest'⦄, x rest = some (value, rest') → rest.length = count + rest'.length

namespace Reader.Consumes

variable {α β : Type}

theorem pure (value : α) : Consumes (Pure.pure value : Reader α) 0 := by
  intro _ _ _ h
  cases h
  exact (Nat.zero_add _).symm

theorem bind {x : Reader α} {f : α → Reader β} {first next count : Nat} (hx : x.Consumes first)
    (hf : ∀ value, (f value).Consumes next) (total : first + next = count) : (x >>= f).Consumes count := by
  intro _ _ _ h
  obtain ⟨a, _, ha, hb⟩ := bind_some h
  have := hx ha
  have := hf a hb
  omega

theorem require (condition : Bool) : (require condition).Consumes 0 := by
  intro _ _ _ h
  unfold Reader.require at h
  split at h <;> cases h
  exact (Nat.zero_add _).symm

theorem readBytes (count : Nat) : (Cron.readBytes count).Consumes count := by
  intro _ _ _ h
  unfold Cron.readBytes at h
  split at h <;> cases h
  rw [length_drop]
  omega

theorem readU8 : Cron.readU8.Consumes 1 := by
  intro rest _ _ h
  cases rest <;> cases h
  exact Nat.add_comm _ _

theorem readI32 : Cron.readI32.Consumes 4 :=
  .bind (.bind (readBytes 4) (fun _ => .pure _) rfl) (fun _ => .pure _) rfl

theorem readTransitionTime {timeWidth : Nat} (width : timeWidth = 4 ∨ timeWidth = 8) :
    (Cron.readTransitionTime timeWidth).Consumes timeWidth := by
  rcases width with rfl | rfl
  · exact readI32
  · exact .bind (readBytes 8) (fun _ => .pure _) rfl

theorem readTypes (typeCount : Nat) : ∀ count, (Cron.readTypes typeCount count).Consumes count
  | 0 => .pure _
  | count + 1 => .bind readU8 (fun _ => .bind (.require _) (fun _ => .bind (readTypes typeCount count)
    (fun _ => .pure _) rfl) rfl) (by omega)

theorem readLocalTimeTypes : ∀ count, (Cron.readLocalTimeTypes count).Consumes (count * 6)
  | 0 => .pure _
  | count + 1 => .bind readI32 (fun _ => .bind readU8 (fun _ => .bind readU8 (fun _ => .bind (.require _)
    (fun _ => .bind (readLocalTimeTypes count) (fun _ => .pure _) rfl) rfl) rfl) rfl) (by omega)

theorem readIndicators : ∀ count, (Cron.readIndicators count).Consumes count
  | 0 => .pure _
  | count + 1 => .bind readU8 (fun _ => .bind (.require _) (fun _ => .bind (readIndicators count)
    (fun _ => .pure _) rfl) rfl) (by omega)

section

variable {timeWidth : Nat} (width : timeWidth = 4 ∨ timeWidth = 8)

include width

theorem readTimes : ∀ (previous : Option Int) (count : Nat),
    (Cron.readTimes timeWidth previous count).Consumes (count * timeWidth)
  | _, 0 => by
    rw [Nat.zero_mul]
    exact .pure _
  | previous, count + 1 => .bind (readTransitionTime width) (fun _ => .bind (.require _)
    (fun _ => .bind (readTimes _ count) (fun _ => .pure _) rfl) rfl) (by rw [Nat.succ_mul]; omega)

theorem readLeapSeconds (version : Nat) : ∀ (previous : Option (Int × Int)) (count : Nat),
    (Cron.readLeapSeconds timeWidth version previous count).Consumes (count * (timeWidth + 4))
  | _, 0 => by
    rw [Nat.zero_mul]
    exact .pure _
  | previous, count + 1 => by
    have rest := fun previous => readLeapSeconds version previous count
    cases previous <;> exact .bind (readTransitionTime width) (fun _ => .bind readI32 (fun _ =>
      .bind (.require _) (fun _ => .bind (.require _) (fun _ => rest _) rfl) rfl) rfl) (by rw [Nat.succ_mul]; omega)

theorem parseSection (counts : TzifCounts) (version : Nat) :
    (Cron.parseSection counts timeWidth version).Consumes (sectionSize counts timeWidth) := by
  have remaining : remaining.Consumes 0 := by
    intro _ _ _ h
    cases h
    exact (Nat.zero_add _).symm
  refine .bind remaining (fun _ => .bind (.require _) (fun _ => .bind (readTimes width none _) (fun _ =>
    .bind (readTypes _ _) (fun _ => .bind (readLocalTimeTypes _) (fun _ => .bind (readBytes _) (fun _ =>
    .bind (.require _) (fun _ => .bind (readLeapSeconds width version none _) (fun _ =>
    .bind (readIndicators _) (fun _ => .bind (readIndicators _) (fun _ => .bind (.require _)
    (fun _ => .pure _) rfl) rfl) rfl) rfl) rfl) rfl) rfl) rfl) rfl) rfl) ?_
  unfold sectionSize
  omega

end

end Reader.Consumes

end Jobu.Cron
