import Jobu.Cron.Timezone

/-!
# Timezone files

`parse_timezone_data` of `cron_timezone_priv.cpp`: a TZif file, whose first section has 32-bit times and whose
second section, if there is one, has 64-bit times and a POSIX footer.

A reader is at the rest of its text, and a read that fails gives nothing.  `parseTimezoneData_valid`: what the
parser accepts passes the check of the conversions.
-/

namespace Jobu.Cron

open List

open Rpc (Bytes byte text)

/-- `ByteReader` and `PosixReader`: what is read, and the rest of the text. -/
abbrev Reader := StateT Bytes Option

/-! ## Bytes -/

/-- What a condition of the source has to be for the read to go on. -/
def Reader.require (condition : Bool) : Reader Unit := fun bytes => if condition then some ((), bytes) else none

def Reader.remaining : Reader Nat := fun bytes => some (bytes.length, bytes)

def readBytes (size : Nat) : Reader Bytes := fun bytes =>
  if bytes.length < size then none else some (bytes.take size, bytes.drop size)

def readU8 : Reader Nat
  | [] => none
  | value :: rest => some (value.toNat, rest)

/-- The most significant byte first. -/
def bigEndian (bytes : Bytes) : Nat := bytes.foldl (fun value byte => value * 256 + byte.toNat) 0

/-- `std::bit_cast` of a word of this width to its signed type. -/
def toSigned (width value : Nat) : Int := if value < 2 ^ (width - 1) then value else (value : Int) - 2 ^ width

def readU32 : Reader Nat := do
  let bytes ← readBytes 4
  pure (bigEndian bytes)

def readI32 : Reader Int := do
  let value ← readU32
  pure (toSigned 32 value)

def readI64 : Reader Int := do
  let bytes ← readBytes 8
  pure (toSigned 64 (bigEndian bytes))

/-! ## Headers -/

structure TzifCounts where
  utcLocalIndicators : Nat
  standardWallIndicators : Nat
  leapSeconds : Nat
  transitions : Nat
  localTimeTypes : Nat
  abbreviationBytes : Nat
deriving DecidableEq, Repr

structure TzifHeader where
  version : Nat
  counts : TzifCounts
deriving DecidableEq, Repr

def maximumTimezoneFileSize : Nat := 16 * 1024 * 1024
def maximumTransitionCount : Nat := 1000000
def maximumAbbreviationSize : Nat := 64 * 1024

def validCounts (counts : TzifCounts) : Bool :=
  counts.transitions ≤ maximumTransitionCount && counts.localTimeTypes != 0 &&
    counts.localTimeTypes ≤ maximumTypeCount && counts.abbreviationBytes != 0 &&
    counts.abbreviationBytes ≤ maximumAbbreviationSize &&
    (counts.standardWallIndicators == 0 || counts.standardWallIndicators == counts.localTimeTypes) &&
    (counts.utcLocalIndicators == 0 || counts.utcLocalIndicators == counts.localTimeTypes)

def versionByte (c : Char) : Nat := (byte c).toNat

def readHeader : Reader TzifHeader := do
  let magic ← readBytes 4
  Reader.require (magic == text "TZif")
  let version ← readU8
  let reserved ← readBytes 15
  Reader.require (reserved.all (· == 0))
  let utcLocalIndicators ← readU32
  let standardWallIndicators ← readU32
  let leapSeconds ← readU32
  let transitions ← readU32
  let localTimeTypes ← readU32
  let abbreviationBytes ← readU32
  let counts : TzifCounts :=
    ⟨utcLocalIndicators, standardWallIndicators, leapSeconds, transitions, localTimeTypes, abbreviationBytes⟩
  Reader.require ((version == 0 || version == versionByte '2' || version == versionByte '3' ||
    version == versionByte '4') && validCounts counts)
  pure ⟨version, counts⟩

/-! ## Sections -/

/-- A sum of products of 32-bit counts with small widths, which a `std::size_t` holds. -/
def sectionSize (counts : TzifCounts) (timeWidth : Nat) : Nat :=
  counts.transitions * timeWidth + counts.transitions + counts.localTimeTypes * 6 +
    counts.abbreviationBytes + counts.leapSeconds * (timeWidth + 4) + counts.standardWallIndicators +
    counts.utcLocalIndicators

def readTransitionTime (timeWidth : Nat) : Reader Int := if timeWidth = 8 then readI64 else readI32

/-- The loop over the times, each of which is after the one before. -/
def readTimes (timeWidth : Nat) (previous : Option Int) : Nat → Reader (List Int)
  | 0 => pure []
  | count + 1 => do
    let time ← readTransitionTime timeWidth
    Reader.require (previous.all (· < time))
    let times ← readTimes timeWidth (some time) count
    pure (time :: times)

/-- The loop over the types of the transitions. -/
def readTypes (typeCount : Nat) : Nat → Reader (List Nat)
  | 0 => pure []
  | count + 1 => do
    let type ← readU8
    Reader.require (type < typeCount)
    let types ← readTypes typeCount count
    pure (type :: types)

/-- The loop over the local time types, each with the index of its abbreviation. -/
def readLocalTimeTypes : Nat → Reader (List (TimezoneLocalTimeType × Nat))
  | 0 => pure []
  | count + 1 => do
    let offset ← readI32
    let daylight ← readU8
    let abbreviationIndex ← readU8
    Reader.require (validOffset offset && daylight ≤ 1)
    let types ← readLocalTimeTypes count
    pure ((⟨offset, daylight != 0⟩, abbreviationIndex) :: types)

def abbreviationIsTerminated (abbreviations : Bytes) (index : Nat) : Bool :=
  index < abbreviations.length && (abbreviations.drop index).contains 0

/-- The loop over the leap seconds; `count` of them are left. -/
def readLeapSeconds (timeWidth version : Nat) (previous : Option (Int × Int)) : Nat → Reader Unit
  | 0 => pure ()
  | count + 1 => do
    let time ← readTransitionTime timeWidth
    let correction ← readI32
    Reader.require (0 ≤ time)
    match previous with
    | none =>
      Reader.require (version == versionByte '4' || correction == -1 || correction == 1)
    | some (previousTime, previousCorrection) =>
      let delta := correction - previousCorrection
      let expiration := version == versionByte '4' && count == 0 && correction == previousCorrection
      Reader.require (previousTime < time && (expiration || delta == -1 || delta == 1))
    readLeapSeconds timeWidth version (some (time, correction)) count

def readIndicators : Nat → Reader (List Nat)
  | 0 => pure []
  | count + 1 => do
    let indicator ← readU8
    Reader.require (indicator ≤ 1)
    let indicators ← readIndicators count
    pure (indicator :: indicators)

/-- Only a time that is standard may be universal; a missing list of indicators is all zero. -/
def compatibleIndicators (standard utc : List Nat) : Bool :=
  (List.range utc.length).all fun index => utc.getD index 0 == 0 || standard.getD index 0 != 0

structure ParsedSection where
  transitions : List TimezoneTransition
  localTimeTypes : List TimezoneLocalTimeType
  defaultLocalTimeType : Nat := 0
deriving DecidableEq, Repr

def parseSection (counts : TzifCounts) (timeWidth version : Nat) : Reader ParsedSection := do
  let remaining ← Reader.remaining
  Reader.require (sectionSize counts timeWidth ≤ remaining)
  let times ← readTimes timeWidth none counts.transitions
  let types ← readTypes counts.localTimeTypes counts.transitions
  let encodedTypes ← readLocalTimeTypes counts.localTimeTypes
  let abbreviations ← readBytes counts.abbreviationBytes
  Reader.require (encodedTypes.all fun type => abbreviationIsTerminated abbreviations type.2)
  readLeapSeconds timeWidth version none counts.leapSeconds
  let standard ← readIndicators counts.standardWallIndicators
  let utc ← readIndicators counts.utcLocalIndicators
  Reader.require (compatibleIndicators standard utc)
  pure { transitions := List.zipWith TimezoneTransition.mk times types
         localTimeTypes := encodedTypes.map (·.1) }

/-! ## The footer -/

def asciiAlpha (value : UInt8) : Bool :=
  (byte 'a' ≤ value && value ≤ byte 'z') || (byte 'A' ≤ value && value ≤ byte 'Z')

def validQuotedAbbreviationCharacter (value : UInt8) : Bool :=
  asciiAlpha value || asciiDigit value || value == byte '+' || value == byte '-'

namespace PosixReader

def atEnd : Reader Bool := fun rest => some (rest.isEmpty, rest)

/-- Whether the expected character is next; it is then read. -/
def consume (expected : Char) : Reader Bool
  | [] => some (false, [])
  | value :: rest => if value = byte expected then some (true, rest) else some (false, value :: rest)

def takeWhile (p : UInt8 → Bool) : Reader Bytes := fun rest => some (rest.takeWhile p, rest.dropWhile p)

def abbreviation : Reader Bytes := do
  if ← consume '<' then
    let content ← takeWhile validQuotedAbbreviationCharacter
    let closed ← consume '>'
    Reader.require (closed && 3 ≤ content.length)
    pure content
  else
    let content ← takeWhile asciiAlpha
    Reader.require (3 ≤ content.length)
    pure content

def unsignedNumber (minimum maximum : Nat) : Reader Nat := fun rest =>
  match parseUnsigned (rest.takeWhile asciiDigit) with
  | none => none
  | some value =>
    if minimum ≤ value ∧ value ≤ maximum then some (value, rest.dropWhile asciiDigit) else none

/-- Minutes or seconds, if there is a colon. -/
def behindColon : Reader (Option Nat) := do
  if ← consume ':' then
    let number ← unsignedNumber 0 59
    pure (some number)
  else pure none

/-- Whether a minus is written; a plus is also read. -/
def sign : Reader Bool := do
  if ← consume '-' then pure true
  else
    let _ ← consume '+'
    pure false

/-- The minutes and seconds of a time. -/
def smallUnits : Reader (Nat × Nat) := do
  match ← behindColon with
  | none => pure (0, 0)
  | some minutes =>
    let seconds ← behindColon
    pure (minutes, seconds.getD 0)

def signedTime : Reader Int := do
  let negative ← sign
  let hours ← unsignedNumber 0 maximumPosixHour
  let (minutes, seconds) ← smallUnits
  let magnitude : Int := hours * 3600 + minutes * 60 + seconds
  pure (if negative then -magnitude else magnitude)

/-- POSIX counts west of Greenwich, a timezone file east of it. -/
def utcOffset : Reader Int := do
  let posixOffset ← signedTime
  Reader.require (validOffset (-posixOffset))
  pure (-posixOffset)

/-- The date of a rule, by an nth weekday or by one of the two ways to count days. -/
def ruleDate : Reader PosixDateRule := do
  if ← consume 'M' then
    let month ← unsignedNumber 1 12
    let dot ← consume '.'
    Reader.require dot
    let week ← unsignedNumber 1 5
    let dot ← consume '.'
    Reader.require dot
    let weekday ← unsignedNumber 0 6
    pure { kind := .monthWeekday, month, week, weekday }
  else if ← consume 'J' then
    let day ← unsignedNumber 1 365
    pure { kind := .julianWithoutLeapDay, day }
  else
    let day ← unsignedNumber 0 365
    pure { kind := .julianWithLeapDay, day }

def dateRule : Reader PosixDateRule := do
  let rule ← ruleDate
  if ← consume '/' then
    let transitionTime ← signedTime
    pure { rule with transitionTimeSeconds := transitionTime }
  else
    pure rule

def requireConsume (expected : Char) : Reader Unit := do
  let read ← consume expected
  Reader.require read

/-- The offset of the daylight time, an hour more where none is written. -/
def daylightOffset (standardOffset : Int) : Reader Int := fun rest =>
  if rest = [] ∨ rest.head? = some (byte ',') then
    if validOffset (standardOffset + 3600) then some (standardOffset + 3600, rest) else none
  else utcOffset rest

def daylightRule (standardOffset : Int) : Reader PosixDaylightRule := do
  let abbreviation ← abbreviation
  let offset ← daylightOffset standardOffset
  requireConsume ','
  let start ← dateRule
  requireConsume ','
  let finish ← dateRule
  let ended ← atEnd
  Reader.require ended
  pure { abbreviation, utcOffsetSeconds := offset, start, finish }

def futureRule : Reader PosixFutureRule := do
  let abbreviation ← abbreviation
  let offset ← utcOffset
  if ← atEnd then
    pure { standardAbbreviation := abbreviation, standardUtcOffsetSeconds := offset, daylight := none }
  else
    let daylight ← daylightRule offset
    pure { standardAbbreviation := abbreviation, standardUtcOffsetSeconds := offset, daylight }

end PosixReader

/-- No rule for an empty footer. -/
def parsePosixFooter (footer : Bytes) : Option (Option PosixFutureRule) :=
  if footer = [] then some none else (PosixReader.futureRule footer).map fun read => some read.1

/-! ## Files -/

/-- What is between the line breaks that frame the footer. -/
def footerText (bytes : Bytes) : Option Bytes :=
  if bytes.length < 2 ∨ bytes.head? ≠ some (byte '\n') ∨ bytes.getLast? ≠ some (byte '\n') ∨
      byte '\n' ∈ bytes.tail.dropLast then none
  else some bytes.tail.dropLast

def parseTimezoneData (bytes : Bytes) : Except Error TimezoneData :=
  if bytes = [] ∨ maximumTimezoneFileSize < bytes.length then .error (invalidTimezoneData "file size")
  else
    match readHeader bytes with
    | none => .error (invalidTimezoneData "first header")
    | some (firstHeader, rest) =>
      match parseSection firstHeader.counts 4 firstHeader.version rest with
      | none => .error (invalidTimezoneData "32-bit section")
      | some (firstSection, rest) =>
        if firstHeader.version = 0 then
          if rest ≠ [] then .error (invalidTimezoneData "trailing v1 data")
          else .ok
            { transitions := firstSection.transitions
              localTimeTypes := firstSection.localTimeTypes
              defaultLocalTimeType := firstSection.defaultLocalTimeType
              futureRule := none }
        else
          match readHeader rest with
          | none => .error (invalidTimezoneData "64-bit header")
          | some (secondHeader, rest) =>
            if secondHeader.version ≠ firstHeader.version then .error (invalidTimezoneData "64-bit header")
            else
              match parseSection secondHeader.counts 8 secondHeader.version rest with
              | none => .error (invalidTimezoneData "64-bit section")
              | some (secondSection, rest) =>
                match footerText rest with
                | none => .error (invalidTimezoneData "POSIX footer framing")
                | some footer =>
                  match parsePosixFooter footer with
                  | none => .error (invalidTimezoneData "POSIX footer")
                  | some futureRule => .ok
                    { transitions := secondSection.transitions
                      localTimeTypes := secondSection.localTimeTypes
                      defaultLocalTimeType := secondSection.defaultLocalTimeType
                      futureRule }

/-! ## What is read -/

namespace Reader

variable {α β : Type} {rest rest' : Bytes} {f : α → Reader β} {x : Reader α}

theorem bind_some {b : β} (h : (x >>= f) rest = some (b, rest')) :
    ∃ a middle, x rest = some (a, middle) ∧ f a middle = some (b, rest') := by
  obtain ⟨⟨a, middle⟩, ha, hb⟩ := Option.bind_eq_some_iff.1 h
  exact ⟨a, middle, ha, hb⟩

theorem bind_eq_some {b : β} : (x >>= f) rest = some (b, rest') ↔
    ∃ a middle, x rest = some (a, middle) ∧ f a middle = some (b, rest') :=
  ⟨bind_some, fun ⟨_, _, hx, hf⟩ => Option.bind_eq_some_iff.2 ⟨_, hx, hf⟩⟩

theorem pure_some {a b : α} (h : (pure a : Reader α) rest = some (b, rest')) : a = b :=
  (Prod.mk.inj (Option.some.inj h)).1

theorem require_some {condition : Bool} {u : Unit} (h : require condition rest = some (u, rest')) :
    condition = true := by
  unfold require at h
  split at h
  · assumption
  · cases h

end Reader

open Reader

/-! ### Sections -/

variable {typeCount count : Nat} {types : List Nat}

theorem readTypes_lt {rest rest' : Bytes}
    (h : readTypes typeCount count rest = some (types, rest')) : ∀ type ∈ types, type < typeCount := by
  induction count generalizing rest rest' types with
  | zero =>
    obtain rfl := pure_some h
    exact fun type hty => absurd hty not_mem_nil
  | succ _ ih =>
    obtain ⟨_, _, -, h⟩ := bind_some h
    obtain ⟨_, _, hr, h⟩ := bind_some h
    obtain ⟨_, _, ho, h⟩ := bind_some h
    obtain rfl := pure_some h
    intro other hot
    rcases mem_cons.1 hot with rfl | hot
    · exact of_decide_eq_true (require_some hr)
    · exact ih ho other hot

variable {timeWidth : Nat}

/-- Times that increase, with types of the table, make a valid list of transitions. -/
theorem readTimes_valid {previous : Option Int} {rest rest' : Bytes}
    {times : List Int} (h : readTimes timeWidth previous count rest = some (times, rest'))
    (hty : ∀ type ∈ types, type < typeCount) :
    validTransitions typeCount previous (zipWith TimezoneTransition.mk times types) = true := by
  induction count generalizing previous rest rest' times types with
  | zero =>
    obtain rfl := pure_some h
    rfl
  | succ _ ih =>
    obtain ⟨_, _, -, h⟩ := bind_some h
    obtain ⟨_, _, hr, h⟩ := bind_some h
    obtain ⟨_, _, ho, h⟩ := bind_some h
    obtain rfl := pure_some h
    cases types with
    | nil => rfl
    | cons type =>
      have hl := ih ho fun other hot => hty other (mem_cons_of_mem _ hot)
      rw [zipWith_cons_cons, validTransitions, require_some hr, hl,
        decide_eq_true (hty type mem_cons_self)]
      rfl

theorem readLocalTimeTypes_valid {rest rest' : Bytes} {types : List (TimezoneLocalTimeType × Nat)}
    (h : readLocalTimeTypes count rest = some (types, rest')) :
    types.length = count ∧ ∀ type ∈ types, validOffset type.1.utcOffsetSeconds = true := by
  induction count generalizing rest rest' types with
  | zero =>
    obtain rfl := pure_some h
    exact ⟨rfl, fun type hty => absurd hty not_mem_nil⟩
  | succ _ ih =>
    obtain ⟨_, _, -, h⟩ := bind_some h
    obtain ⟨_, _, -, h⟩ := bind_some h
    obtain ⟨_, _, -, h⟩ := bind_some h
    obtain ⟨_, _, hr, h⟩ := bind_some h
    obtain ⟨_, _, ho, h⟩ := bind_some h
    obtain rfl := pure_some h
    obtain ⟨hl, hv⟩ := ih ho
    refine ⟨congrArg Nat.succ hl, fun type hty => ?_⟩
    rcases mem_cons.1 hty with rfl | hty
    · have := require_some hr
      rw [Bool.and_eq_true] at this
      exact this.1
    · exact hv type hty

variable {rest rest' : Bytes}

theorem readHeader_counts {header : TzifHeader} (h : readHeader rest = some (header, rest')) :
    header.counts.localTimeTypes ≠ 0 ∧ header.counts.localTimeTypes ≤ maximumTypeCount := by
  simp only [readHeader, bind_eq_some] at h
  obtain ⟨_, _, -, _, _, -, _, _, -, _, _, -, _, _, -, _, _, -, _, _, -, _, _, -, _, _, -, _, _, -, _, _, -,
    _, _, hr, h⟩ := h
  obtain rfl := pure_some h
  have hv := (Bool.and_eq_true _ _ ▸ require_some hr).2
  simp only [validCounts, Bool.and_eq_true, bne_iff_ne, decide_eq_true_eq] at hv
  exact ⟨hv.1.1.1.1.1.2, hv.1.1.1.1.2⟩

/-- What a section says of the types and the transitions. -/
structure ParsedSection.Valid (parsed : ParsedSection) (typeCount : Nat) : Prop where
  types : parsed.localTimeTypes.length = typeCount
  first : parsed.defaultLocalTimeType = 0
  offsets : ∀ type ∈ parsed.localTimeTypes, validOffset type.utcOffsetSeconds = true
  transitions : validTransitions typeCount none parsed.transitions = true

variable {parsed : ParsedSection}

theorem parseSection_valid {counts : TzifCounts} {version : Nat}
    (h : parseSection counts timeWidth version rest = some (parsed, rest')) :
    parsed.Valid counts.localTimeTypes := by
  simp only [parseSection, bind_eq_some] at h
  obtain ⟨_, _, -, _, _, -, _, _, hti, _, _, htyp, _, _, he, _, _, -, _, _, -,
    _, _, -, _, _, -, _, _, -, _, _, -, h⟩ := h
  obtain rfl := pure_some h
  obtain ⟨hl, hv⟩ := readLocalTimeTypes_valid he
  refine ⟨by rw [length_map, hl], rfl, ?_, readTimes_valid hti (readTypes_lt htyp)⟩
  intro _ hty
  obtain ⟨entry, hen, rfl⟩ := mem_map.1 hty
  exact hv entry hen

/-! ### The footer -/

namespace PosixReader

variable {rest rest' : Bytes}

theorem unsignedNumber_bounds {minimum maximum value : Nat}
    (h : unsignedNumber minimum maximum rest = some (value, rest')) : minimum ≤ value ∧ value ≤ maximum := by
  unfold unsignedNumber at h
  split at h
  · cases h
  split at h
  next hbo =>
    cases h
    exact hbo
  · cases h

theorem behindColon_le {number : Option Nat} (h : behindColon rest = some (number, rest')) : number.getD 0 ≤ 59 := by
  obtain ⟨_, _, -, h⟩ := bind_some h
  split at h
  · obtain ⟨_, _, hv, h⟩ := bind_some h
    obtain rfl := pure_some h
    exact (unsignedNumber_bounds hv).2
  · obtain rfl := pure_some h
    exact Nat.zero_le _

theorem smallUnits_le {units : Nat × Nat} (h : smallUnits rest = some (units, rest')) :
    units.1 ≤ 59 ∧ units.2 ≤ 59 := by
  obtain ⟨number, _, hm, h⟩ := bind_some h
  cases number with
  | none =>
    obtain rfl := pure_some h
    exact ⟨Nat.zero_le _, Nat.zero_le _⟩
  | some =>
    obtain ⟨_, _, hse, h⟩ := bind_some h
    obtain rfl := pure_some h
    exact ⟨behindColon_le hm, behindColon_le hse⟩

variable {time : Int}

theorem signedTime_bounds (h : signedTime rest = some (time, rest')) :
    -(maximumPosixHour * 3600 + 59 * 60 + 59 : Int) ≤ time ∧ time ≤ maximumPosixHour * 3600 + 59 * 60 + 59 := by
  obtain ⟨_, _, -, h⟩ := bind_some h
  obtain ⟨_, _, hh, h⟩ := bind_some h
  obtain ⟨⟨_, _⟩, _, hu, h⟩ := bind_some h
  obtain rfl := pure_some h
  have hh := (unsignedNumber_bounds hh).2
  obtain ⟨_, _⟩ := smallUnits_le hu
  unfold maximumPosixHour at *
  dsimp only at *
  split <;> omega

variable {offset : Int}

theorem utcOffset_valid (h : utcOffset rest = some (offset, rest')) : validOffset offset = true := by
  obtain ⟨_, _, -, h⟩ := bind_some h
  obtain ⟨_, _, hr, h⟩ := bind_some h
  obtain rfl := pure_some h
  exact require_some hr

theorem ruleDate_valid {rule : PosixDateRule} (h : ruleDate rest = some (rule, rest'))
    (hti : -(maximumPosixHour * 3600 + 59 * 60 + 59 : Int) ≤ time ∧ time ≤ maximumPosixHour * 3600 + 59 * 60 + 59) :
    validDateRule { rule with transitionTimeSeconds := time } = true := by
  have ht' : ¬(time < -(maximumPosixHour * 3600 + 59 * 60 + 59 : Int) ∨
      (maximumPosixHour * 3600 + 59 * 60 + 59 : Int) < time) := by omega
  unfold validDateRule
  dsimp only
  rw [if_neg ht']
  obtain ⟨_, _, -, h⟩ := bind_some h
  split at h
  · simp only [bind_eq_some] at h
    obtain ⟨_, _, hmonth, _, _, -, _, _, -, _, _, hw, _, _, -, _, _, -, _, _, hweekday, h⟩ := h
    obtain rfl := pure_some h
    have hmonth := unsignedNumber_bounds hmonth
    have hw := unsignedNumber_bounds hw
    have hweekday := unsignedNumber_bounds hweekday
    simp [hmonth.1, hmonth.2, hw.1, hw.2, hweekday.2]
  obtain ⟨_, _, -, h⟩ := bind_some h
  split at h
  · obtain ⟨_, _, hday, h⟩ := bind_some h
    obtain rfl := pure_some h
    have hday := unsignedNumber_bounds hday
    simp [hday.1, hday.2]
  obtain ⟨_, _, hday, h⟩ := bind_some h
  obtain rfl := pure_some h
  have hday := unsignedNumber_bounds hday
  simp [hday.2]

theorem ruleDate_time {rule : PosixDateRule} (h : ruleDate rest = some (rule, rest')) :
    rule.transitionTimeSeconds = 7200 := by
  obtain ⟨_, _, -, h⟩ := bind_some h
  split at h
  · simp only [bind_eq_some] at h
    obtain ⟨_, _, -, _, _, -, _, _, -, _, _, -, _, _, -, _, _, -, _, _, -, h⟩ := h
    obtain rfl := pure_some h
    rfl
  obtain ⟨_, _, -, h⟩ := bind_some h
  split at h
  · obtain ⟨_, _, -, h⟩ := bind_some h
    obtain rfl := pure_some h
    rfl
  obtain ⟨_, _, -, h⟩ := bind_some h
  obtain rfl := pure_some h
  rfl

theorem dateRule_valid {rule : PosixDateRule} (h : dateRule rest = some (rule, rest')) : validDateRule rule = true := by
  obtain ⟨_, _, hd, h⟩ := bind_some h
  obtain ⟨_, _, -, h⟩ := bind_some h
  split at h
  · obtain ⟨_, _, hti, h⟩ := bind_some h
    obtain rfl := pure_some h
    exact ruleDate_valid hd (signedTime_bounds hti)
  obtain rfl := pure_some h
  have hv := @ruleDate_valid _ _ 7200 _ hd (by decide)
  rwa [← ruleDate_time hd] at hv

theorem daylightOffset_valid {standard : Int}
    (h : daylightOffset standard rest = some (offset, rest')) : validOffset offset = true := by
  unfold daylightOffset at h
  split at h
  · split at h
    next hv =>
      cases h
      exact hv
    · cases h
  · exact utcOffset_valid h

theorem futureRule_valid {rule : PosixFutureRule} (h : futureRule rest = some (rule, rest')) :
    validFutureRule rule = true := by
  obtain ⟨_, _, -, h⟩ := bind_some h
  obtain ⟨_, _, ho, h⟩ := bind_some h
  obtain ⟨_, _, -, h⟩ := bind_some h
  have hst := utcOffset_valid ho
  split at h
  · obtain rfl := pure_some h
    simp [validFutureRule, hst]
  obtain ⟨_, _, hdaylight, h⟩ := bind_some h
  obtain rfl := pure_some h
  simp only [daylightRule, bind_eq_some] at hdaylight
  obtain ⟨_, _, -, _, _, ho', _, _, -, _, _, hsta, _, _, -, _, _, hfi, _, _, -, _, _, -, h⟩ := hdaylight
  obtain rfl := pure_some h
  simp [validFutureRule, hst, daylightOffset_valid ho', dateRule_valid hsta, dateRule_valid hfi]

end PosixReader

variable {rule : Option PosixFutureRule}

theorem parsePosixFooter_valid {footer : Bytes}
    (h : parsePosixFooter footer = some rule) : rule.all validFutureRule = true := by
  unfold parsePosixFooter at h
  split at h
  · cases h
    rfl
  · obtain ⟨⟨_, _⟩, hr, rfl⟩ := Option.map_eq_some_iff.1 h
    exact PosixReader.futureRule_valid hr

/-! ### Files -/

theorem ParsedSection.Valid.mapping
    (h : parsed.Valid typeCount) (hso : typeCount ≠ 0) (hmax : typeCount ≤ maximumTypeCount)
    (hrule : rule.all validFutureRule = true) :
    validMappingData ⟨parsed.transitions, parsed.localTimeTypes, parsed.defaultLocalTimeType, rule⟩ = true := by
  have hs' : parsed.localTimeTypes ≠ [] := by
    intro hn
    have := h.types
    rw [hn] at this
    exact hso this.symm
  simp only [validMappingData, Bool.and_eq_true, decide_eq_true_eq, Bool.not_eq_true',
    isEmpty_eq_false_iff, all_eq_true, h.types, h.first]
  exact ⟨⟨⟨⟨⟨hs', hmax⟩, Nat.pos_of_ne_zero hso⟩, h.offsets⟩, h.transitions⟩, hrule⟩

/-- **What the parser accepts passes the check that the conversions make.** -/
theorem parseTimezoneData_valid {bytes : Bytes} {data : TimezoneData}
    (h : parseTimezoneData bytes = .ok data) : validMappingData data = true := by
  unfold parseTimezoneData at h
  split at h
  · cases h
  split at h
  · cases h
  next _ _ hh =>
    obtain ⟨hso, hmax⟩ := readHeader_counts hh
    split at h
    · cases h
    rename_i hse
    split at h
    · split at h
      · cases h
      · cases h
        exact (parseSection_valid hse).mapping hso hmax rfl
    split at h
    · cases h
    next hh' =>
      obtain ⟨hs', hm'⟩ := readHeader_counts hh'
      split at h
      · cases h
      split at h
      · cases h
      next hse' =>
        split at h
        · cases h
        split at h
        · cases h
        next hfo =>
          cases h
          exact (parseSection_valid hse').mapping hs' hm'
            (parsePosixFooter_valid hfo)

end Jobu.Cron
