import Mathlib.Data.List.Sort
import Mathlib.Data.List.Dedup
import Jobu.Cron.Expression

/-!
# Timezones

`cron_timezone_priv.cpp`, the part that converts between local times and UTC: explicit transitions first, and
the POSIX rule for the times after them.

  > `offsetAt`: the offset in force at an instant.
  > `timezoneLocalTime`: the local time of an instant.
  > `timezoneUtcTime`: the earliest instant of a local time; a local time in a gap is shifted by the gap.

Instants and local times are counts of nanoseconds, transitions and offsets are counts of seconds.
-/

namespace Jobu.Cron

open Rpc (Bytes)
open Lib.Calendar

/-! ## Data -/

inductive PosixDateRuleKind where
  | monthWeekday
  | julianWithoutLeapDay
  | julianWithLeapDay
deriving DecidableEq, Repr

structure PosixDateRule where
  kind : PosixDateRuleKind := .monthWeekday
  day : Nat := 0
  month : Nat := 0
  week : Nat := 0
  weekday : Nat := 0
  transitionTimeSeconds : Int := 7200
deriving DecidableEq, Repr

structure PosixDaylightRule where
  abbreviation : Bytes
  utcOffsetSeconds : Int
  start : PosixDateRule
  finish : PosixDateRule
deriving DecidableEq, Repr

structure PosixFutureRule where
  standardAbbreviation : Bytes
  standardUtcOffsetSeconds : Int
  daylight : Option PosixDaylightRule
deriving DecidableEq, Repr

structure TimezoneLocalTimeType where
  utcOffsetSeconds : Int
  daylight : Bool
deriving DecidableEq, Repr

structure TimezoneTransition where
  unixSeconds : Int
  localTimeType : Nat
deriving DecidableEq, Repr

structure TimezoneData where
  transitions : List TimezoneTransition
  localTimeTypes : List TimezoneLocalTimeType
  defaultLocalTimeType : Nat
  futureRule : Option PosixFutureRule
deriving DecidableEq, Repr

variable (data : TimezoneData)

/-- The offset of a type; the types of valid data are all in the table. -/
def TimezoneData.offsetOf (type : Nat) : Int :=
  ((data.localTimeTypes[type]?).map (·.utcOffsetSeconds)).getD 0

/-- The time of the last transition of the table. -/
def TimezoneData.cutoff : Option Int := data.transitions.getLast?.map (·.unixSeconds)

structure OffsetTransition where
  utcSeconds : Int
  offsetBefore : Int
  offsetAfter : Int
deriving DecidableEq, Repr

def maximumTypeCount : Nat := 256
def minimumUtcOffset : Int := -89999
def maximumUtcOffset : Int := 93599
def maximumPosixHour : Nat := 167

def invalidTimezoneData (detail : String) : Error :=
  { category := .internal, code := "jobu.schedule.invalid_timezone_data",
    message := "Timezone data is invalid", detail }

/-! ## Valid data -/

def validOffset (offset : Int) : Bool := minimumUtcOffset ≤ offset && offset ≤ maximumUtcOffset

def validDateRule (rule : PosixDateRule) : Bool :=
  let maximumTransitionTime : Int := maximumPosixHour * 3600 + 59 * 60 + 59
  if rule.transitionTimeSeconds < -maximumTransitionTime ∨
      maximumTransitionTime < rule.transitionTimeSeconds then false
  else
    match rule.kind with
    | .monthWeekday =>
      1 ≤ rule.month && rule.month ≤ 12 && 1 ≤ rule.week && rule.week ≤ 5 && rule.weekday ≤ 6
    | .julianWithoutLeapDay => 1 ≤ rule.day && rule.day ≤ 365
    | .julianWithLeapDay => rule.day ≤ 365

/-- The loop of `valid_mapping_data` over the transitions. -/
def validTransitions (typeCount : Nat) (last : Option Int) : List TimezoneTransition → Bool
  | [] => true
  | transition :: rest =>
    transition.localTimeType < typeCount && last.all (· < transition.unixSeconds) &&
      validTransitions typeCount (some transition.unixSeconds) rest

def validFutureRule (future : PosixFutureRule) : Bool :=
  validOffset future.standardUtcOffsetSeconds &&
    future.daylight.all fun daylight =>
      validOffset daylight.utcOffsetSeconds && validDateRule daylight.start && validDateRule daylight.finish

def validMappingData : Bool :=
  !data.localTimeTypes.isEmpty && data.localTimeTypes.length ≤ maximumTypeCount &&
    data.defaultLocalTimeType < data.localTimeTypes.length &&
    data.localTimeTypes.all (fun type => validOffset type.utcOffsetSeconds) &&
    validTransitions data.localTimeTypes.length none data.transitions && data.futureRule.all validFutureRule

/-! ## Arithmetic -/

def minSeconds : Int := -(2 ^ 63)
def maxSeconds : Int := 2 ^ 63 - 1

/-- Of signed 64-bit numbers. -/
def checkedAddI64 (left right : Int) : Option Int :=
  if (0 < right ∧ maxSeconds - right < left) ∨ (right < 0 ∧ left < minSeconds - right) then none
  else some (left + right)

def nanosecondsPerSecond : Int := 1000000000
def secondsPerDay : Int := 24 * 60 * 60

/-- Of a local time or an instant, which are counted in the same way. -/
def shiftTimePoint (value seconds : Int) : Option Int :=
  let delta := nanosecondsPerSecond * seconds
  if (0 < delta ∧ maxTime - delta < value) ∨ (delta < 0 ∧ value < minTime - delta) then none
  else some (value + delta)

/-! ## The transitions of the rule -/

def yearOk (year : Int) : Bool := minYear ≤ year && year ≤ maxYear

def transitionLocalDate (year : Int) (rule : PosixDateRule) : Option Int :=
  if yearOk year = false then none
  else
    match rule.kind with
    | .monthWeekday =>
      let firstWeekday := weekday (dayNumber year rule.month 1)
      let dayValue := 1 + (rule.weekday + 7 - firstWeekday) % 7 + 7 * (rule.week - 1)
      let lastDay := daysInMonth year rule.month
      let dayValue := if lastDay < dayValue then dayValue - 7 else dayValue
      if 1 ≤ dayValue ∧ dayValue ≤ lastDay then some (dayNumber year rule.month dayValue) else none
    | .julianWithoutLeapDay =>
      let dayOffset := rule.day - 1
      let dayOffset := if isLeap year ∧ 60 ≤ rule.day then dayOffset + 1 else dayOffset
      some (dayNumber year 1 1 + dayOffset)
    | .julianWithLeapDay => some (dayNumber year 1 1 + rule.day)

def transitionUtcSeconds (year : Int) (rule : PosixDateRule) (offsetBefore : Int) : Option Int := do
  let date ← transitionLocalDate year rule
  let seconds ← checkedAddI64 (secondsPerDay * date) rule.transitionTimeSeconds
  checkedAddI64 seconds (-offsetBefore)

/-- Both transitions of one year. -/
def yearTransitions (standard : Int) (daylight : PosixDaylightRule) (year : Int) : Option (List OffsetTransition) := do
  let start ← transitionUtcSeconds year daylight.start standard
  let finish ← transitionUtcSeconds year daylight.finish daylight.utcOffsetSeconds
  pure [⟨start, standard, daylight.utcOffsetSeconds⟩, ⟨finish, daylight.utcOffsetSeconds, standard⟩]

/-- `append_future_transitions` to an empty list, for `count` years: in the order of their instants, and in
the order of the years where two are at the same. -/
def futureTransitions (rule : PosixFutureRule) (firstYear : Int) (count : Nat) : Option (List OffsetTransition) :=
  match rule.daylight with
  | none => some []
  | some daylight => do
    let years ← (List.range count).mapM fun index : Nat =>
      yearTransitions rule.standardUtcOffsetSeconds daylight (firstYear + index)
    pure (years.flatten.insertionSort fun a b => a.utcSeconds ≤ b.utcSeconds)

def yearContainingSeconds (seconds : Int) : Option Int :=
  let year := yearOf (seconds / secondsPerDay)
  if yearOk year then some year else none

/-- The transitions of the rule from two years before a time to two years after it. -/
def windowTransitions (rule : PosixFutureRule) (seconds : Int) : Option (List OffsetTransition) := do
  let year ← yearContainingSeconds seconds
  if year < minYear + 2 ∨ maxYear - 2 < year then none else futureTransitions rule (year - 2) 5

/-! ## Offsets -/

/-- A transition of the rule counts only after the table. -/
def afterCutoff (transition : OffsetTransition) : Bool :=
  data.cutoff.all (· < transition.utcSeconds)

/-- The offset before the first transition of the rule that counts. -/
def initialOffset (rule : PosixFutureRule) : Int :=
  match data.transitions.getLast? with
  | none => rule.standardUtcOffsetSeconds
  | some last => data.offsetOf last.localTimeType

def futureOffsetAt (rule : PosixFutureRule) (utcSeconds : Int) : Except Error Int :=
  if rule.daylight.isNone then .ok rule.standardUtcOffsetSeconds
  else
    match windowTransitions rule utcSeconds with
    | none => .error occurrenceOutOfRange
    | some transitions =>
      .ok (transitions.foldl (fun offset transition =>
        if afterCutoff data transition && transition.utcSeconds ≤ utcSeconds then transition.offsetAfter
        else offset) (initialOffset data rule))

/-- Where the table decides: the last transition that is not later. -/
def tableOffsetAt (utcSeconds : Int) : Int :=
  match (data.transitions.takeWhile fun transition => transition.unixSeconds ≤ utcSeconds).getLast? with
  | none => data.offsetOf data.defaultLocalTimeType
  | some transition => data.offsetOf transition.localTimeType

def offsetAtSeconds (utcSeconds : Int) : Except Error Int :=
  match data.futureRule with
  | none => .ok (tableOffsetAt data utcSeconds)
  | some rule =>
    if data.cutoff.all (· < utcSeconds) then futureOffsetAt data rule utcSeconds
    else .ok (tableOffsetAt data utcSeconds)

def offsetAt (utc : Int) : Except Error Int :=
  offsetAtSeconds data (utc / nanosecondsPerSecond)

/-! ## Local times to instants -/

/-- `std::ranges::sort` and `unique`. -/
def sortedUnique (values : List Int) : List Int := (values.insertionSort (· ≤ ·)).dedup

def candidateOffsets : List Int :=
  sortedUnique (data.localTimeTypes.map (·.utcOffsetSeconds) ++
    match data.futureRule with
    | none => []
    | some rule => rule.standardUtcOffsetSeconds ::
        (rule.daylight.map (·.utcOffsetSeconds)).toList)

structure MappingCandidates where
  values : List Int := []
  rangeExhausted : Bool := false
deriving DecidableEq, Repr

/-- The body of the loop of `exact_utc_mappings`. -/
def tryOffset (localTime : Int) (mappings : MappingCandidates) (offset : Int) : Except Error MappingCandidates :=
  match shiftTimePoint localTime (-offset) with
  | none => .ok { mappings with rangeExhausted := true }
  | some candidate =>
    match offsetAt data candidate with
    | .error error => .error error
    | .ok active =>
      if active = offset then .ok { mappings with values := mappings.values ++ [candidate] }
      else .ok mappings

def exactUtcMappings (localTime : Int) : Except Error MappingCandidates :=
  match (candidateOffsets data).foldlM (tryOffset data localTime) {} with
  | .error error => .error error
  | .ok mappings => .ok { mappings with values := sortedUnique mappings.values }

def gapContains (transition : OffsetTransition) (localSeconds : Int) : Bool :=
  if transition.offsetAfter ≤ transition.offsetBefore then false
  else
    match checkedAddI64 transition.utcSeconds transition.offsetBefore,
      checkedAddI64 transition.utcSeconds transition.offsetAfter with
    | some start, some finish => start ≤ localSeconds && localSeconds < finish
    | _, _ => false

/-- The transitions of the table with the offsets around them. -/
def tableTransitions : List OffsetTransition :=
  (data.transitions.zip (data.defaultLocalTimeType :: data.transitions.map (·.localTimeType))).map
    fun (transition, before) =>
      ⟨transition.unixSeconds, data.offsetOf before, data.offsetOf transition.localTimeType⟩

/-- The offset increase of the gap that a local time is in. -/
def gapShift (localTime : Int) : Except Error (Option Int) :=
  let localSeconds := localTime / nanosecondsPerSecond
  match checkedAddI64 localSeconds (-maximumUtcOffset), checkedAddI64 localSeconds (-minimumUtcOffset) with
  | some firstTransition, some lastTransition =>
    let near := ((tableTransitions data).dropWhile (·.utcSeconds < firstTransition)).takeWhile
      (·.utcSeconds ≤ lastTransition)
    match near.find? (gapContains · localSeconds) with
    | some candidate => .ok (some (candidate.offsetAfter - candidate.offsetBefore))
    | none =>
      match data.futureRule with
      | none => .ok none
      | some rule =>
        if rule.daylight.isNone then .ok none
        else
          match windowTransitions rule localSeconds with
          | none => .error occurrenceOutOfRange
          | some transitions =>
            match transitions.find? fun candidate =>
                afterCutoff data candidate && gapContains candidate localSeconds with
            | some candidate => .ok (some (candidate.offsetAfter - candidate.offsetBefore))
            | none => .ok none
  | _, _ => .error occurrenceOutOfRange

def timezoneLocalTime (utc : Int) : Except Error Int :=
  if validMappingData data = false then .error (invalidTimezoneData "mapping data")
  else
    match offsetAt data utc with
    | .error error => .error error
    | .ok offset =>
      match shiftTimePoint utc offset with
      | none => .error occurrenceOutOfRange
      | some localTime => .ok localTime

/-- The earliest exact mapping, if there is one. -/
def earliest (mappings : MappingCandidates) (detail : String) : Except Error Int :=
  match mappings.values with
  | value :: _ => .ok value
  | [] => .error (if mappings.rangeExhausted then occurrenceOutOfRange else invalidTimezoneData detail)

def timezoneUtcTime (localTime : Int) : Except Error Int :=
  if validMappingData data = false then .error (invalidTimezoneData "mapping data")
  else do
    let mappings ← exactUtcMappings data localTime
    match mappings.values with
    | value :: _ => pure value
    | [] =>
      match ← gapShift data localTime with
      | none => earliest mappings "local mapping"
      | some shift =>
        match shiftTimePoint localTime shift with
        | none => .error occurrenceOutOfRange
        | some shiftedLocal => do
          let shiftedMappings ← exactUtcMappings data shiftedLocal
          earliest shiftedMappings "gap mapping"

end Jobu.Cron
