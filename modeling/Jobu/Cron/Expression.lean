import Jobu.Lib.Text
import Jobu.Lib.Calendar
import Jobu.Rpc.Framing

/-!
# Cron expressions

`cron_expression_priv.cpp`: the text of a cron expression is read into five bit sets, and the next local
minute in all five sets is searched for over the calendar.

  > `parseCronExpression`: aliases, five fields, lists of members, ranges and steps.
  > `nextLocalOccurrence`: years, months, days, hours and minutes in their order, for 400 years.

A bit set is a `BitVec` of its size.  A local time is a count of nanoseconds of the local calendar, a local
minute a count of minutes, both from 1970-01-01.
-/

namespace Jobu.Cron

open Rpc (Bytes byte text)
open Lib (cut words trim)

/-! ## Errors -/

def invalidExpression : Error :=
  { category := .invalidArgument, code := "jobu.schedule.invalid_expression", message := "Cron expression is invalid" }

def noFutureOccurrence : Error :=
  { category := .invalidArgument, code := "jobu.schedule.no_future_occurrence",
    message := "Cron expression has no future occurrence" }

def occurrenceOutOfRange : Error :=
  { category := .resourceExhausted, code := "jobu.schedule.out_of_range",
    message := "Cron occurrence is outside the representable range" }

/-! ## Characters and numbers -/

def isFieldSeparator (value : UInt8) : Bool := value == byte ' ' || value == byte '\t'

def asciiUpper (value : UInt8) : UInt8 :=
  if byte 'a' ≤ value ∧ value ≤ byte 'z' then value - (byte 'a' - byte 'A') else value

def asciiDigit (value : UInt8) : Bool := byte '0' ≤ value && value ≤ byte '9'

def numeral (digits : Bytes) : Nat :=
  digits.foldl (fun parsed digit => 10 * parsed + (digit - byte '0').toNat) 0

/-- The values of an `unsigned` are below it. -/
def unsignedBound : Nat := 2 ^ 32

/-- `std::from_chars` into an `unsigned`: the number and what follows it. -/
def fromChars (value : Bytes) : Option (Nat × Bytes) :=
  let digits := value.takeWhile asciiDigit
  if digits = [] ∨ unsignedBound ≤ numeral digits then none
  else some (numeral digits, value.dropWhile asciiDigit)

def parseUnsigned (value : Bytes) : Option Nat :=
  match fromChars value with
  | some (parsed, []) => some parsed
  | _ => none

/-! ## Fields -/

structure FieldName where
  text : Bytes
  value : Nat
deriving DecidableEq, Repr

/-- The name in capital letters, as the tables have it. -/
def equalsName (value name : Bytes) : Bool := value.map asciiUpper == name

def monthNames : List FieldName :=
  [⟨text "JAN", 1⟩, ⟨text "FEB", 2⟩, ⟨text "MAR", 3⟩, ⟨text "APR", 4⟩, ⟨text "MAY", 5⟩, ⟨text "JUN", 6⟩,
    ⟨text "JUL", 7⟩, ⟨text "AUG", 8⟩, ⟨text "SEP", 9⟩, ⟨text "OCT", 10⟩, ⟨text "NOV", 11⟩, ⟨text "DEC", 12⟩]

def weekdayNames : List FieldName :=
  [⟨text "SUN", 0⟩, ⟨text "MON", 1⟩, ⟨text "TUE", 2⟩, ⟨text "WED", 3⟩, ⟨text "THU", 4⟩, ⟨text "FRI", 5⟩,
    ⟨text "SAT", 6⟩]

/-- A table that a name can be looked up in: capital letters only, and no name twice. -/
structure NameTable (names : List FieldName) : Prop where
  some : ∀ name ∈ names, name.text ≠ []
  letters : ∀ name ∈ names, ∀ c ∈ name.text, byte 'A' ≤ c ∧ c ≤ byte 'Z'
  once : ∀ a ∈ names, ∀ b ∈ names, a.text = b.text → a.value = b.value

theorem monthNames_table : NameTable monthNames where
  some := by decide +kernel
  letters := by decide +kernel
  once := by decide +kernel

theorem weekdayNames_table : NameTable weekdayNames where
  some := by decide +kernel
  letters := by decide +kernel
  once := by decide +kernel

/-- The values of a field that does not wrap; `size` is the size of its bit set. -/
structure LinearField (size : Nat) where
  minimum : Nat
  maximum : Nat
  names : List FieldName
  size_eq : maximum + 1 = minimum + size
  small : maximum < unsignedBound
  table : NameTable names
  inside : ∀ name ∈ names, minimum ≤ name.value ∧ name.value ≤ maximum

theorem NameTable.nil : NameTable [] := ⟨by simp, by simp, by simp⟩

def minuteField : LinearField 60 := ⟨0, 59, [], by decide, by decide, .nil, by simp⟩
def hourField : LinearField 24 := ⟨0, 23, [], by decide, by decide, .nil, by simp⟩
def dayField : LinearField 31 := ⟨1, 31, [], by decide, by decide, .nil, by simp⟩
def monthField : LinearField 12 :=
  ⟨1, 12, monthNames, by decide, by decide, monthNames_table, by decide +kernel⟩

/-- `std::bitset::set` and `test`. -/
def setBit {size : Nat} (bits : BitVec size) (index : Nat) : BitVec size := bits ||| BitVec.twoPow size index

def testBit {size : Nat} (bits : BitVec size) (index : Nat) : Bool := bits.getLsbD index

def parseLinearValue {size : Nat} (field : LinearField size) (value : Bytes) : Option Nat :=
  match field.names.find? fun name => equalsName value name.text with
  | some name => some name.value
  | none =>
    match parseUnsigned value with
    | some parsed => if parsed < field.minimum ∨ field.maximum < parsed then none else some parsed
    | none => none

/-- A step, which is never zero. -/
abbrev Stride := { n : Nat // 0 < n }

/-- The beginning of `parse_linear_member` and `parse_weekday_member`: the base of a member, and its step
if one is written. -/
def splitStep (member : Bytes) : Option (Bytes × Option Stride) :=
  match cut (byte '/') member with
  | (base, none) => if base = [] then none else some (base, none)
  | (base, some rest) =>
    if rest.contains (byte '/') then none
    else
      match parseUnsigned rest with
      | none => none
      | some step =>
        if h : base ≠ [] ∧ step ≠ 0 then some (base, some ⟨step, Nat.pos_of_ne_zero h.2⟩) else none

/-- The ends of a base, of which the second is there if a range is written. -/
def splitRange (base : Bytes) : Option (Bytes × Option Bytes) :=
  match cut (byte '-') base with
  | (single, none) => some (single, none)
  | (first, some last) => if last.contains (byte '-') then none else some (first, some last)

/-- The step where none is written. -/
def unitStride : Stride := ⟨1, Nat.one_pos⟩

/-- The loop of `parse_linear_member`. -/
def setSteps {size : Nat} (minimum : Nat) (step : Stride) (last value : Nat) (bits : BitVec size) : BitVec size :=
  if value ≤ last then
    if last - value < step.1 then setBit bits (value - minimum)
    else setSteps minimum step last (value + step.1) (setBit bits (value - minimum))
  else bits
termination_by last - value
decreasing_by
  have := step.2
  omega

def parseLinearMember {size : Nat} (field : LinearField size) (bits : BitVec size) (member : Bytes) :
    Option (BitVec size) :=
  match splitStep member with
  | none => none
  | some (base, step) =>
    if base = text "*" then
      some (setSteps field.minimum (step.getD unitStride) field.maximum field.minimum bits)
    else
      match splitRange base with
      | none => none
      | some (single, none) =>
        if step.isSome then none
        else (parseLinearValue field single).map fun parsed => setBit bits (parsed - field.minimum)
      | some (first, some last) =>
        match parseLinearValue field first, parseLinearValue field last with
        | some first, some last =>
          if last < first then none
          else some (setSteps field.minimum (step.getD unitStride) last first bits)
        | _, _ => none

def parseLinearField {size : Nat} (field : LinearField size) (value : Bytes) : Option (BitVec size) :=
  (value.splitOn (byte ',')).foldlM
    (fun bits member => if member = [] then none else parseLinearMember field bits member) (BitVec.ofNat size 0)

/-! ## The field of weekdays -/

structure WeekdayValue where
  value : Nat
  numericZero : Bool := false
  numericSeven : Bool := false
deriving DecidableEq, Repr

def parseWeekdayValue (value : Bytes) : Option WeekdayValue :=
  match weekdayNames.find? fun name => equalsName value name.text with
  | some name => some { value := name.value }
  | none =>
    match parseUnsigned value with
    | some parsed =>
      if 7 < parsed then none
      else some {
        value := if parsed = 7 then 0 else parsed
        numericZero := parsed == 0
        numericSeven := parsed == 7 }
    | none => none

/-- What the loop over the members of a weekday field has read. -/
structure WeekdayBits where
  bits : BitVec 7 := 0#7
  usesZero : Bool := false
  usesSeven : Bool := false
deriving DecidableEq, Repr

def recordSundayConvention (read : WeekdayBits) (value : WeekdayValue) : WeekdayBits :=
  { read with
    usesZero := read.usesZero || value.numericZero
    usesSeven := read.usesSeven || value.numericSeven }

/-- The loop of `parse_weekday_member`, which goes on from Saturday to Sunday. -/
def setCyclic (step : Stride) (last offset value : Nat) (bits : BitVec 7) : Option (BitVec 7) :=
  if offset < 7 then
    let bits := if offset % step.1 = 0 then setBit bits value else bits
    if value = last then some bits else setCyclic step last (offset + 1) ((value + 1) % 7) bits
  else none
termination_by 7 - offset

def parseWeekdayMember (read : WeekdayBits) (member : Bytes) : Option WeekdayBits :=
  match splitStep member with
  | none => none
  | some (base, step) =>
    if base = text "*" then
      -- a step needs a written first day
      if step.isSome then none else some { read with bits := BitVec.allOnes 7 }
    else
      match splitRange base with
      | none => none
      | some (single, none) =>
        if step.isSome then none
        else (parseWeekdayValue single).map fun parsed =>
          let read := recordSundayConvention read parsed
          { read with bits := setBit read.bits parsed.value }
      | some (first, some last) =>
        match parseWeekdayValue first, parseWeekdayValue last with
        | some first, some last =>
          let read := recordSundayConvention (recordSundayConvention read first) last
          (setCyclic (step.getD unitStride) last.value 0 first.value read.bits).map fun bits =>
            { read with bits := bits }
        | _, _ => none

def parseWeekdayField (value : Bytes) : Option (BitVec 7) :=
  match (value.splitOn (byte ',')).foldlM
    (fun read member => if member = [] then none else parseWeekdayMember read member) {} with
  | some read => if read.usesZero && read.usesSeven then none else some read.bits
  | none => none

/-! ## Expressions -/

structure CronExpression where
  minutes : BitVec 60
  hours : BitVec 24
  daysOfMonth : BitVec 31
  months : BitVec 12
  daysOfWeek : BitVec 7
deriving DecidableEq, Repr

/-- `expanded_alias`, by the table of its cases. -/
def aliases : List (Bytes × Bytes) :=
  [(text "@hourly", text "0 * * * *"), (text "@daily", text "0 0 * * *"), (text "@weekly", text "0 0 * * SUN")]

def expandedAlias (expression : Bytes) : Bytes :=
  (aliases.lookup expression).getD expression

def parseFields (expression : Bytes) : Option CronExpression :=
  match words isFieldSeparator expression with
  | [minute, hour, day, month, weekday] => do
    let minutes ← parseLinearField minuteField minute
    let hours ← parseLinearField hourField hour
    let daysOfMonth ← parseLinearField dayField day
    let months ← parseLinearField monthField month
    let daysOfWeek ← parseWeekdayField weekday
    pure { minutes, hours, daysOfMonth, months, daysOfWeek }
  | _ => none

def parseCronExpression (expression : Bytes) : Except Error CronExpression :=
  if 512 < expression.length ∨ 0 ∈ expression then .error invalidExpression
  else
    match parseFields (expandedAlias (trim isFieldSeparator expression)) with
    | some parsed => .ok parsed
    | none => .error invalidExpression

/-! ## The next local minute -/

open Lib.Calendar

def nanosecondsPerMinute : Int := 60 * 1000000000
def minutesPerDay : Int := 24 * 60

/-- `std::chrono::year::min` and `max`.  A year outside them is not `ok`; no year of the system clock is. -/
def minYear : Int := -32767
def maxYear : Int := 32767

/-- The loop over the minutes of an hour that begins at `hourStart`. -/
def occurrenceInHour (expression : CronExpression) (firstCandidate hourStart : Int) : Option Int :=
  (List.range' 0 60).findSome? fun minute =>
    if testBit expression.minutes minute then
      if firstCandidate ≤ hourStart + minute then some (hourStart + minute) else none
    else none

/-- The loop over the hours of a day that begins at `dateStart`. -/
def occurrenceInDay (expression : CronExpression) (firstCandidate dateStart : Int) : Option Int :=
  (List.range' 0 24).findSome? fun hour =>
    if testBit expression.hours hour then
      occurrenceInHour expression firstCandidate (dateStart + 60 * hour)
    else none

/-- The loop over the days of a month; day of month and weekday are both required. -/
def occurrenceInMonth (expression : CronExpression) (firstCandidate year : Int) (month : Nat) : Option Int :=
  (List.range' 1 (daysInMonth year month)).findSome? fun day =>
    if testBit expression.daysOfMonth (day - 1) then
      let date := dayNumber year month day
      if testBit expression.daysOfWeek (weekday date) then
        occurrenceInDay expression firstCandidate (minutesPerDay * date)
      else none
    else none

/-- The loop over the months of a year. -/
def occurrenceInYear (expression : CronExpression) (firstCandidate year : Int) : Option Int :=
  (List.range' 1 12).findSome? fun month =>
    if testBit expression.months (month - 1) then
      occurrenceInMonth expression firstCandidate year month
    else none

def nextLocalOccurrence (expression : CronExpression) (exclusiveLowerBound : Int) : Except Error Int :=
  let lowerMinute := exclusiveLowerBound / nanosecondsPerMinute
  if lowerMinute = maxTime then .error occurrenceOutOfRange
  else
    let firstCandidate := lowerMinute + 1
    let lowerDay := exclusiveLowerBound / (nanosecondsPerMinute * minutesPerDay)
    let firstDay := firstCandidate / minutesPerDay
    let minimumCalendarDay := dayNumber minYear 1 1
    let maximumCalendarDay := dayNumber maxYear 12 31
    if lowerDay < minimumCalendarDay ∨ maximumCalendarDay < lowerDay ∨ firstDay < minimumCalendarDay ∨
        maximumCalendarDay < firstDay then .error occurrenceOutOfRange
    else
      let firstYear := yearOf firstDay
      let lastYear := yearOf lowerDay + 399
      if lastYear < minYear ∨ maxYear < lastYear then .error occurrenceOutOfRange
      else
        match (List.range' 0 (lastYear + 1 - firstYear).toNat).findSome? fun index : Nat =>
            occurrenceInYear expression firstCandidate (firstYear + index) with
        | some candidate => .ok candidate
        | none => .error noFutureOccurrence

end Jobu.Cron
