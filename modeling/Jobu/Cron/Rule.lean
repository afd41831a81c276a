import Mathlib.Data.Int.ConditionallyCompleteOrder
import Mathlib.Order.Monotone.Basic
import Jobu.Lib.Stable
import Jobu.Cron.Timezone

/-!
# The transitions of a daylight rule in all years

The code generates the transitions of five years around a time.  Here the rule has transitions in every year
there is, without the bounds of the machine's calendar (`ruleTransition`), and the list of the code is the
part of them that belongs to its five years, in the order of their instants (`windowTransitions_eq`).

A transition of a year is at most nine days outside of it (`ruleSeconds_bounds`), and the same transition of
a later year is later (`ruleSeconds_lt`).
-/

namespace Jobu.Cron

open Lib.Calendar List

/-! ## Dates -/

/-- The date of a rule in any year. -/
def localDate (year : Int) (rule : PosixDateRule) : Int :=
  match rule.kind with
  | .monthWeekday =>
    let day := 1 + (rule.weekday + 7 - weekday (dayNumber year rule.month 1)) % 7 + 7 * (rule.week - 1)
    dayNumber year rule.month (if daysInMonth year rule.month < day then day - 7 else day)
  | .julianWithoutLeapDay =>
    dayNumber year 1 1 + ((if isLeap year ∧ 60 ≤ rule.day then rule.day - 1 + 1 else rule.day - 1 : Nat) : Int)
  | .julianWithLeapDay => dayNumber year 1 1 + rule.day

def ruleSeconds (year : Int) (rule : PosixDateRule) (offsetBefore : Int) : Int :=
  secondsPerDay * localDate year rule + rule.transitionTimeSeconds - offsetBefore

/-- What `validDateRule` says. -/
theorem validDateRule_time {rule : PosixDateRule} (h : validDateRule rule = true) :
    -604799 ≤ rule.transitionTimeSeconds ∧ rule.transitionTimeSeconds ≤ 604799 := by
  unfold validDateRule maximumPosixHour at h
  dsimp only at h
  split at h
  · cases h
  · omega

theorem validDateRule_date {rule : PosixDateRule} (h : validDateRule rule = true) : match rule.kind with
    | .monthWeekday => 1 ≤ rule.month ∧ rule.month ≤ 12 ∧ 1 ≤ rule.week ∧ rule.week ≤ 5 ∧ rule.weekday ≤ 6
    | .julianWithoutLeapDay => 1 ≤ rule.day ∧ rule.day ≤ 365
    | .julianWithLeapDay => rule.day ≤ 365 := by
  unfold validDateRule at h
  dsimp only at h
  split at h
  · cases h
  · cases hk : rule.kind <;> rw [hk] at h <;> simp_all

theorem validOffset_iff {offset : Int} : validOffset offset = true ↔ -89999 ≤ offset ∧ offset ≤ 93599 := by
  unfold validOffset minimumUtcOffset maximumUtcOffset
  rw [Bool.and_eq_true, decide_eq_true_eq, decide_eq_true_eq]

variable {year : Int}

/-- The day of the nth weekday is one of the month. -/
theorem monthDay_bounds {rule : PosixDateRule} (hw : 1 ≤ rule.week ∧ rule.week ≤ 5) :
    let day := 1 + (rule.weekday + 7 - weekday (dayNumber year rule.month 1)) % 7 + 7 * (rule.week - 1)
    let day := if daysInMonth year rule.month < day then day - 7 else day
    1 ≤ day ∧ day ≤ daysInMonth year rule.month := by
  have hl := daysInMonth_bounds year rule.month
  dsimp only
  split <;> omega

section

variable {rule : PosixDateRule} (h : validDateRule rule = true)

include h

theorem localDate_bounds (year : Int) :
    daysBeforeYear year ≤ localDate year rule ∧ localDate year rule ≤ daysBeforeYear year + 365 := by
  have hd := validDateRule_date h
  have hfi : dayNumber year 1 1 = daysBeforeYear year := by simp [dayNumber, daysBeforeMonth]
  unfold localDate
  cases hk : rule.kind with
  | monthWeekday =>
    rw [hk] at hd
    obtain ⟨hmonth, hm', hw, hw', -⟩ := hd
    have hday := @monthDay_bounds year rule ⟨hw, hw'⟩
    have hbo := dayNumber_bounds hmonth hm' hday.1 hday.2
    have hsu := daysBeforeYear_succ year
    have hy := daysInYear_bounds year
    dsimp only
    omega
  | julianWithoutLeapDay =>
    rw [hk] at hd
    rw [hfi]
    dsimp only at hd ⊢
    split <;> omega
  | julianWithLeapDay =>
    rw [hk] at hd
    rw [hfi]
    dsimp only at hd ⊢
    omega

theorem localDate_lt (year : Int) : localDate year rule < localDate (year + 1) rule := by
  have hd := validDateRule_date h
  have hsu := daysBeforeYear_succ year
  have hy := daysInYear_bounds year
  unfold localDate
  cases hk : rule.kind with
  | monthWeekday =>
    rw [hk] at hd
    obtain ⟨_, _, hw, hw', -⟩ := hd
    have hday := @monthDay_bounds year rule ⟨hw, hw'⟩
    have hd' := @monthDay_bounds (year + 1) rule ⟨hw, hw'⟩
    have hl := daysInMonth_bounds year rule.month
    have hlea := daysBeforeMonth_le_add_one year (year + 1) rule.month
    dsimp only at hday hd' ⊢
    unfold dayNumber at *
    omega
  | julianWithoutLeapDay =>
    rw [hk] at hd
    dsimp only at hd ⊢
    simp only [dayNumber, daysBeforeMonth]
    split <;> split <;> omega
  | julianWithLeapDay =>
    dsimp only
    simp only [dayNumber, daysBeforeMonth]
    omega

theorem localDate_strictMono : StrictMono fun year => localDate year rule :=
  strictMono_int_of_lt_succ fun year => localDate_lt h year

theorem transitionLocalDate_eq
    (hy : yearOk year = true) : transitionLocalDate year rule = some (localDate year rule) := by
  have hd := validDateRule_date h
  unfold transitionLocalDate localDate
  rw [if_neg (by simp [hy])]
  cases hk : rule.kind with
  | monthWeekday =>
    rw [hk] at hd
    obtain ⟨-, -, hw, hw', -⟩ := hd
    exact if_pos (@monthDay_bounds year rule ⟨hw, hw'⟩)
  | julianWithoutLeapDay | julianWithLeapDay => rfl

end

/-! ## Instants -/

theorem checkedAddI64_eq {left right : Int} (hmin : minSeconds ≤ left + right)
    (hmax : left + right ≤ maxSeconds) : checkedAddI64 left right = some (left + right) := by
  unfold checkedAddI64
  exact if_neg (by omega)

section

variable {rule : PosixDateRule} {offset : Int}

theorem ruleSeconds_bounds (h : validDateRule rule = true) (ho : validOffset offset = true) (year : Int) :
    secondsPerDay * daysBeforeYear year - 698398 ≤ ruleSeconds year rule offset ∧
      ruleSeconds year rule offset ≤ secondsPerDay * daysBeforeYear year + 32230798 := by
  have hd := localDate_bounds h year
  have hti := validDateRule_time h
  rw [validOffset_iff] at ho
  unfold ruleSeconds secondsPerDay
  omega

/-- **The same transition is later in a later year.** -/
theorem ruleSeconds_lt (h : validDateRule rule = true) {year' : Int} (hl : year < year') :
    ruleSeconds year rule offset < ruleSeconds year' rule offset := by
  have hd : localDate year rule < localDate year' rule := localDate_strictMono h hl
  unfold ruleSeconds secondsPerDay
  omega

theorem transitionUtcSeconds_eq (h : validDateRule rule = true) (ho : validOffset offset = true)
    (hy : yearOk year = true) :
    transitionUtcSeconds year rule offset = some (ruleSeconds year rule offset) := by
  have hbo := ruleSeconds_bounds h ho year
  have hti := validDateRule_time h
  have hd := localDate_bounds h year
  rw [validOffset_iff] at ho
  have hmin : daysBeforeYear minYear ≤ daysBeforeYear year := by
    refine daysBeforeYear_mono ?_
    simp only [yearOk, Bool.and_eq_true, decide_eq_true_eq] at hy
    exact hy.1
  have hmax : daysBeforeYear year ≤ daysBeforeYear maxYear := by
    refine daysBeforeYear_mono ?_
    simp only [yearOk, Bool.and_eq_true, decide_eq_true_eq] at hy
    exact hy.2
  have hm : daysBeforeYear minYear = -12687428 := by decide
  have hma : daysBeforeYear maxYear = 11248373 := by decide
  unfold transitionUtcSeconds
  rw [transitionLocalDate_eq h hy]
  show (checkedAddI64 _ _).bind _ = _
  rw [checkedAddI64_eq (by unfold minSeconds secondsPerDay; omega)
    (by unfold maxSeconds secondsPerDay; omega)]
  show checkedAddI64 _ _ = _
  rw [checkedAddI64_eq (by unfold minSeconds secondsPerDay; omega)
    (by unfold maxSeconds secondsPerDay; omega)]
  rfl

end

variable {seconds : Int}

/-- The years of the instants and local times of the clock, which the code has no trouble with. -/
theorem yearOf_seconds (hmin : minTime / nanosecondsPerSecond ≤ seconds)
    (hmax : seconds ≤ maxTime / nanosecondsPerSecond) :
    1677 ≤ yearOf (seconds / secondsPerDay) ∧ yearOf (seconds / secondsPerDay) ≤ 2262 := by
  have hfi : yearOf (-106752) = 1677 := by decide
  have hl : yearOf 106751 = 2262 := by decide
  unfold minTime nanosecondsPerSecond at hmin
  unfold maxTime nanosecondsPerSecond at hmax
  unfold secondsPerDay
  exact ⟨hfi ▸ yearOf_mono (by omega), hl ▸ yearOf_mono (by omega)⟩

/-! ## Transitions of all years -/

/-- A transition of the rule: the beginning or the end of the daylight time of a year. -/
structure RuleIndex where
  year : Int
  finish : Bool
deriving DecidableEq, Repr

/-- The order of generation, which decides between transitions at one instant. -/
def RuleIndex.Before (a b : RuleIndex) : Prop :=
  a.year < b.year ∨ (a.year = b.year ∧ a.finish = false ∧ b.finish = true)

def ruleTransition (standard : Int) (daylight : PosixDaylightRule) (index : RuleIndex) : OffsetTransition :=
  if index.finish then
    ⟨ruleSeconds index.year daylight.finish daylight.utcOffsetSeconds, daylight.utcOffsetSeconds, standard⟩
  else
    ⟨ruleSeconds index.year daylight.start standard, standard, daylight.utcOffsetSeconds⟩

/-- A daylight rule with valid offsets and dates. -/
structure ValidDaylight (standard : Int) (daylight : PosixDaylightRule) : Prop where
  base : validOffset standard = true
  offset : validOffset daylight.utcOffsetSeconds = true
  start : validDateRule daylight.start = true
  finish : validDateRule daylight.finish = true

section

variable {standard : Int} {daylight : PosixDaylightRule} {index : RuleIndex}

section

variable (h : ValidDaylight standard daylight)

include h

theorem ruleTransition_bounds (index : RuleIndex) :
    secondsPerDay * daysBeforeYear index.year - 698398 ≤ (ruleTransition standard daylight index).utcSeconds ∧
      (ruleTransition standard daylight index).utcSeconds ≤ secondsPerDay * daysBeforeYear index.year + 32230798 := by
  unfold ruleTransition
  split
  · exact ruleSeconds_bounds h.finish h.offset _
  · exact ruleSeconds_bounds h.start h.base _

theorem ruleTransition_lt {a b : RuleIndex} (hy : a.year < b.year) (hfi : a.finish = b.finish) :
    (ruleTransition standard daylight a).utcSeconds < (ruleTransition standard daylight b).utcSeconds := by
  unfold ruleTransition
  rw [hfi]
  split
  · exact ruleSeconds_lt h.finish hy
  · exact ruleSeconds_lt h.start hy

/-- What is two years before the year of a time is before the time, by far more than any offset. -/
theorem ruleTransition_before (hy : index.year + 2 ≤ yearOf (seconds / secondsPerDay)) :
    (ruleTransition standard daylight index).utcSeconds + 200000 ≤ seconds := by
  have hbo := ruleTransition_bounds h index
  have hle := yearOf_le (seconds / secondsPerDay)
  have hm := daysBeforeYear_mono hy
  have hl : daysBeforeYear index.year + 365 * 2 ≤ daysBeforeYear (index.year + 2) :=
    daysBeforeYear_add_le index.year 2
  unfold secondsPerDay at *
  omega

/-- What is two years after the year of a time is after the time. -/
theorem ruleTransition_after (hy : yearOf (seconds / secondsPerDay) + 2 ≤ index.year) :
    seconds + 200000 ≤ (ruleTransition standard daylight index).utcSeconds := by
  have hbo := ruleTransition_bounds h index
  have hlt := lt_yearOf (seconds / secondsPerDay)
  have hm := daysBeforeYear_mono hy
  have hsu := daysBeforeYear_succ (yearOf (seconds / secondsPerDay) + 1)
  have hl := daysInYear_bounds (yearOf (seconds / secondsPerDay) + 1)
  rw [show yearOf (seconds / secondsPerDay) + 1 + 1 = yearOf (seconds / secondsPerDay) + 2 by omega] at hsu
  unfold secondsPerDay at *
  omega

end

/-- The transitions of some years, in the order of generation. -/
def yearIndices (firstYear : Int) (count : Nat) : List RuleIndex :=
  (List.range count).flatMap fun index : Nat => [⟨firstYear + index, false⟩, ⟨firstYear + index, true⟩]

theorem mem_yearIndices {firstYear : Int} {count : Nat} : index ∈ yearIndices firstYear count ↔
    firstYear ≤ index.year ∧ index.year < firstYear + count := by
  unfold yearIndices
  rw [mem_flatMap]
  constructor
  · rintro ⟨_, hk, hi⟩
    rw [mem_range] at hk
    rcases mem_cons.1 hi with rfl | hi
    · constructor <;> dsimp only <;> omega
    · obtain rfl := mem_singleton.1 hi
      constructor <;> dsimp only <;> omega
  rintro ⟨_, _⟩
  refine ⟨(index.year - firstYear).toNat, mem_range.2 (by omega), ?_⟩
  have hy : firstYear + ((index.year - firstYear).toNat : Int) = index.year := by omega
  rw [hy]
  obtain ⟨_, finish⟩ := index
  cases finish <;> simp

theorem yearIndices_pairwise (firstYear : Int) (count : Nat) :
    (yearIndices firstYear count).Pairwise RuleIndex.Before := by
  unfold yearIndices
  rw [pairwise_flatMap]
  refine ⟨fun k _ => ?_, ?_⟩
  · rw [pairwise_cons]
    refine ⟨fun index hi => ?_, pairwise_singleton _ _⟩
    obtain rfl := mem_singleton.1 hi
    exact .inr ⟨rfl, rfl, rfl⟩
  refine List.Pairwise.imp ?_ pairwise_lt_range
  intro k k' _ a ha b hb
  have hy : a.year = firstYear + k := by
    rcases mem_cons.1 ha with rfl | ha
    · rfl
    · rw [mem_singleton.1 ha]
  have hy' : b.year = firstYear + k' := by
    rcases mem_cons.1 hb with rfl | hb
    · rfl
    · rw [mem_singleton.1 hb]
  exact .inl (by omega)

theorem mapM_some {α β : Type} {f : α → Option β} {g : α → β} {l : List α}
    (h : ∀ a ∈ l, f a = some (g a)) : l.mapM f = some (l.map g) := by
  induction l with
  | nil => rfl
  | cons a l ih =>
    rw [mapM_cons, h a mem_cons_self, ih fun b hb => h b (mem_cons_of_mem _ hb)]
    rfl

theorem yearTransitions_eq (h : ValidDaylight standard daylight) (hy : yearOk year = true) :
    yearTransitions standard daylight year =
      some ([⟨year, false⟩, ⟨year, true⟩].map (ruleTransition standard daylight)) := by
  unfold yearTransitions
  rw [transitionUtcSeconds_eq h.start h.base hy, transitionUtcSeconds_eq h.finish h.offset hy]
  rfl

/-- The indices of five years, in the order of their instants. -/
def windowIndices (standard : Int) (daylight : PosixDaylightRule) (year : Int) : List RuleIndex :=
  (yearIndices (year - 2) 5).insertionSort fun a b =>
    (ruleTransition standard daylight a).utcSeconds ≤ (ruleTransition standard daylight b).utcSeconds

theorem mem_windowIndices :
    index ∈ windowIndices standard daylight year ↔ year - 2 ≤ index.year ∧ index.year ≤ year + 2 := by
  unfold windowIndices
  rw [mem_insertionSort, mem_yearIndices]
  omega

theorem windowIndices_pairwise (year : Int) : (windowIndices standard daylight year).Pairwise
    (Lib.Earlier (fun index => (ruleTransition standard daylight index).utcSeconds) RuleIndex.Before) :=
  Lib.pairwise_insertionSort_stable _ (yearIndices_pairwise _ _)

variable {rule : PosixFutureRule}

theorem futureTransitions_eq (hrule : rule.daylight = some daylight)
    (h : ValidDaylight rule.standardUtcOffsetSeconds daylight) (hmin : minYear + 2 ≤ year) (hmax : year ≤ maxYear - 2) :
    futureTransitions rule (year - 2) 5 = some ((windowIndices rule.standardUtcOffsetSeconds daylight year).map
      (ruleTransition rule.standardUtcOffsetSeconds daylight)) := by
  have hy : ∀ k ∈ range 5, yearTransitions rule.standardUtcOffsetSeconds daylight
    (year - 2 + (k : Nat)) = some ([⟨year - 2 + k, false⟩, ⟨year - 2 + k, true⟩].map
      (ruleTransition rule.standardUtcOffsetSeconds daylight)) := by
    intro k hk
    rw [mem_range] at hk
    refine yearTransitions_eq h ?_
    unfold yearOk
    rw [Bool.and_eq_true, decide_eq_true_eq, decide_eq_true_eq]
    omega
  unfold futureTransitions windowIndices yearIndices
  rw [hrule]
  dsimp only
  rw [mapM_some hy]
  show some _ = _
  rw [map_insertionSort _ (fun a b : OffsetTransition => a.utcSeconds ≤ b.utcSeconds) _ _
    fun a _ b _ => Iff.rfl, map_flatMap, flatMap_def]

theorem windowTransitions_eq (hrule : rule.daylight = some daylight)
    (h : ValidDaylight rule.standardUtcOffsetSeconds daylight) (hmin : minYear + 2 ≤ yearOf (seconds / secondsPerDay))
    (hmax : yearOf (seconds / secondsPerDay) ≤ maxYear - 2) :
    windowTransitions rule seconds =
      some ((windowIndices rule.standardUtcOffsetSeconds daylight (yearOf (seconds / secondsPerDay))).map
        (ruleTransition rule.standardUtcOffsetSeconds daylight)) := by
  have ho : yearOk (yearOf (seconds / secondsPerDay)) = true := by
    unfold yearOk
    rw [Bool.and_eq_true, decide_eq_true_eq, decide_eq_true_eq]
    omega
  unfold windowTransitions yearContainingSeconds
  dsimp only
  rw [if_pos ho]
  show (if _ then none else futureTransitions rule _ 5) = _
  rw [if_neg (by omega)]
  exact futureTransitions_eq hrule h hmin hmax

end

end Jobu.Cron
