import Jobu.Cron.Expression
import Mathlib.Data.Set.Defs

/-!
# The grammar of cron expressions

What `docs/cron.md` says of the texts of cron expressions and of what they mean, without the parser: a text
belongs to a `Schedule`, the five sets of values that its fields denote.

  > `LinearField.Member`, `WeekdayMember`: one member of a list and the values it denotes.
  > `CommaList`: the members of a field.
  > `Written`: an expression, with its length, its separators and the aliases.

The steps that may be written are a parameter: `Positive` in the documentation, `Bounded` in the code.
-/

namespace Jobu.Cron

open Rpc (Bytes byte text)
open Lib (Blank)

/-- Decimal digits, at least one. -/
structure Numeral (written : Bytes) (n : Nat) : Prop where
  some : written ≠ []
  digits : ∀ c ∈ written, asciiDigit c = true
  value : numeral written = n

/-- A name of a table, in letters of either case. -/
structure Named (names : List FieldName) (written : Bytes) (name : FieldName) : Prop where
  listed : name ∈ names
  letters : written.map asciiUpper = name.text

/-- The steps of the documentation. -/
def Positive (n : Nat) : Prop := 1 ≤ n

/-- The steps that an `unsigned` holds. -/
def Bounded (n : Nat) : Prop := 1 ≤ n ∧ n < unsignedBound

/-! ## Members -/

inductive LinearField.Value {size : Nat} (field : LinearField size) : Bytes → Nat → Prop
  | name {written : Bytes} {name : FieldName} (h : Named field.names written name) :
    Value field written name.value
  | number {digits : Bytes} {n : Nat} (h : Numeral digits n) (hmin : field.minimum ≤ n)
    (hmax : n ≤ field.maximum) : Value field digits n

/-- Every `n`-th value from `first` to `last`. -/
def stepped (first last n : Nat) : Set Nat := {v | first ≤ v ∧ v ≤ last ∧ n ∣ v - first}

inductive LinearField.Member {size : Nat} (Step : Nat → Prop) (field : LinearField size) :
    Bytes → Set Nat → Prop
  | every : Member Step field (text "*") (stepped field.minimum field.maximum 1)
  | everyStep {digits : Bytes} {n : Nat} (h : Numeral digits n) (hstep : Step n) :
    Member Step field (text "*/" ++ digits) (stepped field.minimum field.maximum n)
  | value {written : Bytes} {v : Nat} (h : field.Value written v) : Member Step field written {v}
  | range {a b : Bytes} {x y : Nat} (ha : field.Value a x) (hb : field.Value b y) (hle : x ≤ y) :
    Member Step field (a ++ text "-" ++ b) (stepped x y 1)
  | rangeStep {a b digits : Bytes} {x y n : Nat} (ha : field.Value a x) (hb : field.Value b y)
    (hle : x ≤ y) (h : Numeral digits n) (hstep : Step n) :
    Member Step field (a ++ text "-" ++ b ++ text "/" ++ digits) (stepped x y n)

/-- A day of the week counted from Sunday, and the numbers it is written with. -/
inductive Weekday : Bytes → Nat → List Nat → Prop
  | name {written : Bytes} {name : FieldName} (h : Named weekdayNames written name) :
    Weekday written name.value []
  | number {digits : Bytes} {n : Nat} (h : Numeral digits n) (hmax : n ≤ 7) : Weekday digits (n % 7) [n]

/-- Every `n`-th day from `first` on, through Saturday and Sunday if need be, until `last`. -/
def cyclic (first last n : Nat) : Set Nat :=
  {d | ∃ k ≤ (last + 7 - first) % 7, n ∣ k ∧ d = (first + k) % 7}

inductive WeekdayMember (Step : Nat → Prop) : Bytes → Set Nat → List Nat → Prop
  | every : WeekdayMember Step (text "*") {d | d < 7} []
  | value {written : Bytes} {d : Nat} {used : List Nat} (h : Weekday written d used) :
    WeekdayMember Step written {d} used
  | range {a b : Bytes} {x y : Nat} {used used' : List Nat} (ha : Weekday a x used)
    (hb : Weekday b y used') : WeekdayMember Step (a ++ text "-" ++ b) (cyclic x y 1) (used ++ used')
  | rangeStep {a b digits : Bytes} {x y n : Nat} {used used' : List Nat} (ha : Weekday a x used)
    (hb : Weekday b y used') (h : Numeral digits n) (hstep : Step n) :
    WeekdayMember Step (a ++ text "-" ++ b ++ text "/" ++ digits) (cyclic x y n) (used ++ used')

/-! ## Fields -/

/-- One or more members, each with what it means. -/
inductive CommaList {β : Type} (Member : Bytes → β → Prop) : Bytes → List β → Prop
  | one {w : Bytes} {d : β} (h : Member w d) : CommaList Member w [d]
  | cons {w ws : Bytes} {d : β} {ds : List β} (h : Member w d) (hs : CommaList Member ws ds) :
    CommaList Member (w ++ text "," ++ ws) (d :: ds)

def LinearField.Denotes {size : Nat} (Step : Nat → Prop) (field : LinearField size) (written : Bytes)
    (values : Set Nat) : Prop :=
  ∃ sets, CommaList (field.Member Step) written sets ∧ values = {v | ∃ s ∈ sets, v ∈ s}

/-- Not both numbers of Sunday are in one field. -/
def WeekdayDenotes (Step : Nat → Prop) (written : Bytes) (values : Set Nat) : Prop :=
  ∃ parts : List (Set Nat × List Nat), CommaList (fun w part => WeekdayMember Step w part.1 part.2) written parts ∧
      ¬((∃ part ∈ parts, 0 ∈ part.2) ∧ ∃ part ∈ parts, 7 ∈ part.2) ∧ values = {v | ∃ part ∈ parts, v ∈ part.1}

/-! ## Expressions -/

/-- The values of the five fields, as they are written. -/
structure Schedule where
  minutes : Set Nat
  hours : Set Nat
  daysOfMonth : Set Nat
  months : Set Nat
  daysOfWeek : Set Nat

/-- Between two fields: spaces or tabs, at least one. -/
def Gap (gap : Bytes) : Prop := gap ≠ [] ∧ Blank isFieldSeparator gap

inductive FiveFields (Step : Nat → Prop) : Bytes → Schedule → Prop
  | mk {minute hour day month weekday gap₁ gap₂ gap₃ gap₄ : Bytes} {schedule : Schedule}
    (hminute : minuteField.Denotes Step minute schedule.minutes) (h₁ : Gap gap₁)
    (hhour : hourField.Denotes Step hour schedule.hours) (h₂ : Gap gap₂)
    (hday : dayField.Denotes Step day schedule.daysOfMonth) (h₃ : Gap gap₃)
    (hmonth : monthField.Denotes Step month schedule.months) (h₄ : Gap gap₄)
    (hweekday : WeekdayDenotes Step weekday schedule.daysOfWeek) :
    FiveFields Step (minute ++ gap₁ ++ (hour ++ gap₂ ++ (day ++ gap₃ ++ (month ++ gap₄ ++ weekday))))
      schedule

/-- **An expression of the grammar and its schedule:** five fields or an alias, among spaces and tabs. -/
structure Written (Step : Nat → Prop) (expression : Bytes) (schedule : Schedule) : Prop where
  short : expression.length ≤ 512
  nonul : 0 ∉ expression
  body : ∃ lead core trail, expression = lead ++ core ++ trail ∧ Blank isFieldSeparator lead ∧
    Blank isFieldSeparator trail ∧ (FiveFields Step core schedule ∨
      ∃ expansion, (core, expansion) ∈ aliases ∧ FiveFields Step expansion schedule)

/-- The bit sets have exactly the values of the schedule; days and months are counted from one. -/
structure CronExpression.Holds (expression : CronExpression) (schedule : Schedule) : Prop where
  minutes : ∀ v < 60, testBit expression.minutes v = true ↔ v ∈ schedule.minutes
  hours : ∀ v < 24, testBit expression.hours v = true ↔ v ∈ schedule.hours
  daysOfMonth : ∀ v, 1 ≤ v → v ≤ 31 → (testBit expression.daysOfMonth (v - 1) = true ↔ v ∈ schedule.daysOfMonth)
  months : ∀ v, 1 ≤ v → v ≤ 12 → (testBit expression.months (v - 1) = true ↔ v ∈ schedule.months)
  daysOfWeek : ∀ v < 7, testBit expression.daysOfWeek v = true ↔ v ∈ schedule.daysOfWeek

end Jobu.Cron
