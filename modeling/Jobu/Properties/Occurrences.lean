import Jobu.Lib.Search
import Jobu.Cron.Expression

/-!
# The search for the next local minute is complete

`Matches expression minute`: the minute lies on a date of the calendar, and month, day, weekday, hour and
minute are all in the sets of the expression.  The loops of `nextLocalOccurrence` find the least such minute
of a year, month or day (`Lib.Finds`), and one that matches in any year at all also comes within the
399 years after the one of the bound.
-/

namespace Jobu.Cron

open Lib.Calendar

/-- A minute of the calendar. -/
structure CalendarMinute where
  year : Int
  month : Nat
  day : Nat
  hour : Nat
  minute : Nat
  month_pos : 1 ≤ month
  month_le : month ≤ 12
  day_pos : 1 ≤ day
  day_le : day ≤ daysInMonth year month
  hour_lt : hour < 24
  minute_lt : minute < 60

namespace CalendarMinute

def date (at' : CalendarMinute) : Int := dayNumber at'.year at'.month at'.day

/-- From 1970-01-01 on. -/
def count (at' : CalendarMinute) : Int := minutesPerDay * at'.date + 60 * at'.hour + at'.minute

end CalendarMinute

/-- All five fields allow the minute. -/
structure CronExpression.Allows (expression : CronExpression) (at' : CalendarMinute) : Prop where
  months : testBit expression.months (at'.month - 1) = true
  daysOfMonth : testBit expression.daysOfMonth (at'.day - 1) = true
  daysOfWeek : testBit expression.daysOfWeek (weekday at'.date) = true
  hours : testBit expression.hours at'.hour = true
  minutes : testBit expression.minutes at'.minute = true

def CronExpression.Matches (expression : CronExpression) (minute : Int) : Prop :=
  ∃ at' : CalendarMinute, at'.count = minute ∧ expression.Allows at'

/-! ## The loops -/

/-- What the loops look for. -/
def Wanted (expression : CronExpression) (firstCandidate x : Int) : Prop :=
  expression.Matches x ∧ firstCandidate ≤ x

section

variable {expression : CronExpression} {firstCandidate year : Int} {month day : Nat}

theorem CalendarMinute.count_bounds (at' : CalendarMinute) :
    minutesPerDay * at'.date ≤ at'.count ∧ at'.count < minutesPerDay * (at'.date + 1) := by
  have hhour := at'.hour_lt
  have hminute := at'.minute_lt
  unfold count minutesPerDay
  omega

theorem CalendarMinute.date_bounds (at' : CalendarMinute) {lo hi : Int}
    (hg : minutesPerDay * lo ≤ at'.count) (hl : at'.count < minutesPerDay * hi) :
    lo ≤ at'.date ∧ at'.date < hi := by
  have hbo := at'.count_bounds
  unfold minutesPerDay at hg hl hbo
  omega

theorem CalendarMinute.of_day (at' : CalendarMinute) (hmonth : 1 ≤ month) (hm' : month ≤ 12)
    (hday : 1 ≤ day) (hd' : day ≤ daysInMonth year month) (hg : minutesPerDay * dayNumber year month day ≤ at'.count)
    (hl : at'.count < minutesPerDay * (dayNumber year month day + 1)) :
    at'.year = year ∧ at'.month = month ∧ at'.day = day := by
  have hd := at'.date_bounds hg hl
  have hn := dayNumber_next_month year hmonth
  have hm := month_of_dayNumber hmonth hm' at'.month_pos at'.month_le at'.day_pos at'.day_le
    (y := year) (by unfold CalendarMinute.date at hd; unfold dayNumber at *; omega)
    (by unfold CalendarMinute.date at hd; unfold dayNumber at *; omega)
  refine ⟨hm.1, hm.2, ?_⟩
  unfold CalendarMinute.date at hd
  rw [hm.1, hm.2] at hd
  unfold dayNumber at hd
  omega

/-- The fields that a date has to match. -/
structure Open (expression : CronExpression) (year : Int) (month day : Nat) : Prop where
  month_pos : 1 ≤ month
  month_le : month ≤ 12
  day_pos : 1 ≤ day
  day_le : day ≤ daysInMonth year month
  months : testBit expression.months (month - 1) = true
  daysOfMonth : testBit expression.daysOfMonth (day - 1) = true
  daysOfWeek : testBit expression.daysOfWeek (weekday (dayNumber year month day)) = true

/-- The loop over minutes. -/
theorem occurrenceInHour_finds {hour : Nat} (hd : Open expression year month day) (hhour : hour < 24)
    (hh : testBit expression.hours hour = true) :
    Lib.Finds (Wanted expression firstCandidate)
      (minutesPerDay * dayNumber year month day + 60 * hour)
      (minutesPerDay * dayNumber year month day + 60 * (hour + 1))
      (occurrenceInHour expression firstCandidate (minutesPerDay * dayNumber year month day + 60 * hour)) := by
  refine Lib.Finds.loop (fun minute => minutesPerDay * dayNumber year month day + 60 * hour + minute)
    (by simp) (by omega) (fun i _ _ => by omega) ?_
  intro minute _ _
  let at' : CalendarMinute := ⟨year, month, day, hour, minute, hd.month_pos, hd.month_le,
    hd.day_pos, hd.day_le, hhour, by omega⟩
  refine Lib.Finds.guard ?_ ?_
  · intro hm
    have hma : expression.Matches at'.count :=
      ⟨at', rfl, hd.months, hd.daysOfMonth, hd.daysOfWeek, hh, hm⟩
    exact Lib.Finds.point (by omega) ⟨fun h => h.2, fun h => ⟨hma, h⟩⟩
  intro x _ _ hw
  obtain ⟨⟨found, rfl, hal⟩, -⟩ := hw
  obtain rfl : found.minute = minute := by
    have := found.minute_lt
    unfold CalendarMinute.count minutesPerDay at *
    omega
  exact hal.minutes

/-- The loop over hours. -/
theorem occurrenceInDay_finds (hd : Open expression year month day) :
    Lib.Finds (Wanted expression firstCandidate) (minutesPerDay * dayNumber year month day)
      (minutesPerDay * (dayNumber year month day + 1))
      (occurrenceInDay expression firstCandidate (minutesPerDay * dayNumber year month day)) := by
  refine Lib.Finds.loop (fun hour => minutesPerDay * dayNumber year month day + 60 * hour)
    (by simp) (by unfold minutesPerDay; omega) (fun i _ _ => by omega) ?_
  intro hour _ _
  refine Lib.Finds.guard (fun hh => ?_) ?_
  · exact occurrenceInHour_finds hd (by omega) hh
  intro x _ _ hw
  obtain ⟨⟨found, rfl, hal⟩, -⟩ := hw
  obtain rfl : found.hour = hour := by
    have := found.minute_lt
    have := found.hour_lt
    unfold CalendarMinute.count minutesPerDay at *
    omega
  exact hal.hours

theorem occurrenceInMonth_finds (hmonth : 1 ≤ month) (hm' : month ≤ 12)
    (hm : testBit expression.months (month - 1) = true) :
    Lib.Finds (Wanted expression firstCandidate) (minutesPerDay * dayNumber year month 1)
      (minutesPerDay * dayNumber year (month + 1) 1)
      (occurrenceInMonth expression firstCandidate year month) := by
  refine Lib.Finds.loop (fun day => minutesPerDay * dayNumber year month day) rfl ?_
    (fun i _ _ => by unfold dayNumber minutesPerDay; omega) ?_
  · rw [dayNumber_next_month year hmonth]
  intro day hday _
  have hn : minutesPerDay * dayNumber year month (day + 1) = minutesPerDay * (dayNumber year month day + 1) := by
    unfold dayNumber minutesPerDay
    omega
  rw [hn]
  -- the date of a wanted minute of this day is this one
  have hal : ∀ x, minutesPerDay * dayNumber year month day ≤ x →
    x < minutesPerDay * (dayNumber year month day + 1) → Wanted expression firstCandidate x →
    testBit expression.daysOfMonth (day - 1) = true ∧
      testBit expression.daysOfWeek (weekday (dayNumber year month day)) = true := by
    rintro x hg hl ⟨⟨found, rfl, hal⟩, -⟩
    obtain ⟨hy, hmonth, hday⟩ := found.of_day hmonth hm' hday (by omega) hg hl
    have hd := hal.daysOfMonth
    have hwe := hal.daysOfWeek
    rw [hday] at hd
    rw [CalendarMinute.date, hy, hmonth, hday] at hwe
    exact ⟨hd, hwe⟩
  refine Lib.Finds.guard (fun hd => Lib.Finds.guard (fun hwe => ?_) ?_) ?_
  · exact occurrenceInDay_finds ⟨hmonth, hm', hday, by omega, hm, hd, hwe⟩
  · exact fun x hg hl hw => (hal x hg hl hw).2
  · exact fun x hg hl hw => (hal x hg hl hw).1

theorem occurrenceInYear_finds : Lib.Finds (Wanted expression firstCandidate) (minutesPerDay * daysBeforeYear year)
      (minutesPerDay * daysBeforeYear (year + 1)) (occurrenceInYear expression firstCandidate year) := by
  refine Lib.Finds.loop (fun month => minutesPerDay * dayNumber year month 1)
    (by simp [dayNumber, daysBeforeMonth]) ?_ ?_ ?_
  · have he := daysBeforeMonth_end year
    have hn := daysBeforeYear_succ year
    show minutesPerDay * dayNumber year 13 1 = minutesPerDay * daysBeforeYear (year + 1)
    unfold dayNumber minutesPerDay
    omega
  · intro month hmonth _
    have := daysBeforeMonth_succ year hmonth
    show minutesPerDay * dayNumber year month 1 ≤ minutesPerDay * dayNumber year (month + 1) 1
    unfold dayNumber minutesPerDay
    omega
  intro _ hmonth _
  refine Lib.Finds.guard (fun hm => occurrenceInMonth_finds hmonth (by omega) hm) ?_
  rintro x hg hl ⟨⟨found, rfl, hal⟩, -⟩
  have hd := found.date_bounds hg hl
  have hfo := month_of_dayNumber hmonth (by omega) found.month_pos found.month_le found.day_pos
    found.day_le hd.1 hd.2
  have hm := hal.months
  rwa [hfo.2] at hm

/-- The loop over years. -/
theorem occurrence_finds (expression : CronExpression) (firstCandidate firstYear : Int) (count : Nat) :
    Lib.Finds (Wanted expression firstCandidate) (minutesPerDay * daysBeforeYear firstYear)
      (minutesPerDay * daysBeforeYear (firstYear + count))
      ((List.range' 0 count).findSome? fun index : Nat =>
        occurrenceInYear expression firstCandidate (firstYear + index)) := by
  refine Lib.Finds.loop (fun index => minutesPerDay * daysBeforeYear (firstYear + index)) ?_ ?_ ?_ ?_
  · simp
  · simp
  · intro i _ _
    have := daysBeforeYear_mono (show firstYear + (i : Int) ≤ firstYear + ((i + 1 : Nat) : Int) by omega)
    show minutesPerDay * daysBeforeYear (firstYear + i) ≤
      minutesPerDay * daysBeforeYear (firstYear + ((i + 1 : Nat) : Int))
    unfold minutesPerDay
    omega
  · intro i _ _
    have hn : firstYear + ((i + 1 : Nat) : Int) = firstYear + i + 1 := by omega
    rw [hn]
    exact occurrenceInYear_finds

end

/-! ## Every satisfiable expression matches soon -/

/-- **What matches in some year matches in one of the 399 years after any other.** -/
theorem CronExpression.Matches.soon {expression : CronExpression} {minute : Int}
    (h : expression.Matches minute) (year : Int) :
    ∃ y, year < y ∧ y ≤ year + 399 ∧ ∃ x, expression.Matches x ∧
      minutesPerDay * daysBeforeYear y ≤ x ∧ x < minutesPerDay * daysBeforeYear (y + 1) := by
  obtain ⟨at', -, hal⟩ := h
  obtain ⟨y, hg, hle, hali⟩ := exists_alike at'.year year
  let then' : CalendarMinute := { at' with year := y, day_le := by rw [hali.daysInMonth]; exact at'.day_le }
  have ha' : expression.Allows then' := by
    refine ⟨hal.months, hal.daysOfMonth, ?_, hal.hours, hal.minutes⟩
    show testBit expression.daysOfWeek (weekday (dayNumber y at'.month at'.day)) = true
    rw [hali.weekday]
    exact hal.daysOfWeek
  refine ⟨y, hg, hle, then'.count, ⟨then', rfl, ha'⟩, ?_⟩
  have hd : daysBeforeYear y ≤ then'.date ∧ then'.date < daysBeforeYear (y + 1) :=
    dayNumber_bounds then'.month_pos then'.month_le then'.day_pos then'.day_le
  have hc := then'.count_bounds
  unfold minutesPerDay at *
  omega

/-! ## The result -/

/-- The year that the search begins with: the one of the bound, or the next. -/
theorem firstYear_bounds {lowerMinute lowerDay : Int} (hday : lowerDay = lowerMinute / minutesPerDay) :
    yearOf lowerDay ≤ yearOf ((lowerMinute + 1) / minutesPerDay) ∧
      yearOf ((lowerMinute + 1) / minutesPerDay) ≤ yearOf lowerDay + 1 ∧
      lowerMinute + 1 ≤ minutesPerDay * daysBeforeYear (yearOf lowerDay + 1) := by
  have hlt := lt_yearOf lowerDay
  have hfi : lowerMinute + 1 ≤ minutesPerDay * daysBeforeYear (yearOf lowerDay + 1) := by
    unfold minutesPerDay at *
    omega
  have hl : lowerDay ≤ (lowerMinute + 1) / minutesPerDay := by
    unfold minutesPerDay at *
    omega
  have he : (lowerMinute + 1) / minutesPerDay ≤ daysBeforeYear (yearOf lowerDay + 1) := by
    unfold minutesPerDay at *
    omega
  refine ⟨yearOf_mono hl, ?_, hfi⟩
  have hst : yearOf (daysBeforeYear (yearOf lowerDay + 1)) = yearOf lowerDay + 1 := by
    have := daysBeforeYear_succ (yearOf lowerDay + 1)
    have := daysInYear_bounds (yearOf lowerDay + 1)
    exact yearOf_eq (Int.le_refl _) (by omega)
  exact hst ▸ yearOf_mono he

/-- What is found is the least minute after the bound that matches. -/
theorem nextLocalOccurrence_ok {expression : CronExpression} {bound next : Int}
    (h : nextLocalOccurrence expression bound = .ok next) :
    expression.Matches next ∧ bound < nanosecondsPerMinute * next ∧
      ∀ minute, expression.Matches minute → bound < nanosecondsPerMinute * minute → next ≤ minute := by
  unfold nextLocalOccurrence at h
  dsimp only at h
  split at h
  · cases h
  split at h
  · cases h
  split at h
  · cases h
  split at h
  next hse =>
    cases h
    have hfi := hse ▸ occurrence_finds expression (bound / nanosecondsPerMinute + 1) _ _
    obtain ⟨hm, _⟩ := hfi.2.2.1
    have hst := yearOf_le ((bound / nanosecondsPerMinute + 1) / minutesPerDay)
    refine ⟨hm, ?_, fun minute hminute hbo => hfi.least ⟨hminute, ?_⟩ ?_⟩
    all_goals unfold nanosecondsPerMinute minutesPerDay at *; omega
  · cases h

/-- **The next local minute is the least one after the bound that matches, and without one no minute of
any year matches.** -/
theorem nextLocalOccurrence_complete (expression : CronExpression) (bound : Int)
    (hyear : minYear ≤ yearOf (bound / (nanosecondsPerMinute * minutesPerDay)))
    (hlast : yearOf (bound / (nanosecondsPerMinute * minutesPerDay)) + 399 ≤ maxYear) :
    (∃ next, nextLocalOccurrence expression bound = .ok next ∧ expression.Matches next ∧
      bound < nanosecondsPerMinute * next ∧
      ∀ minute, expression.Matches minute → bound < nanosecondsPerMinute * minute → next ≤ minute) ∨
      (nextLocalOccurrence expression bound = .error noFutureOccurrence ∧ ∀ minute, ¬expression.Matches minute) := by
  obtain ⟨lowerDay, hl⟩ : ∃ d, d = bound / (nanosecondsPerMinute * minutesPerDay) := ⟨_, rfl⟩
  obtain ⟨lowerMinute, hlo⟩ : ∃ m, m = bound / nanosecondsPerMinute := ⟨_, rfl⟩
  obtain ⟨firstYear, hfirs⟩ : ∃ y, y = yearOf ((lowerMinute + 1) / minutesPerDay) := ⟨_, rfl⟩
  rw [← hl] at hyear hlast
  have hday : lowerDay = lowerMinute / minutesPerDay := by
    unfold nanosecondsPerMinute minutesPerDay at *
    omega
  obtain ⟨hge, hle, hfir⟩ := firstYear_bounds hday
  rw [← hfirs] at hge hle
  -- the bound and the first candidate are in the range of the calendar
  have hlow := yearOf_le lowerDay
  have hu := lt_yearOf lowerDay
  have hmin := daysBeforeYear_mono hyear
  have hmax := daysBeforeYear_mono (show yearOf lowerDay + 1 ≤ maxYear by omega)
  have hm : dayNumber minYear 1 1 = daysBeforeYear minYear := by decide
  have hma : dayNumber maxYear 12 31 = daysBeforeYear maxYear + 364 := by decide
  have hmaxY : daysBeforeYear maxYear = 11248373 := by decide
  have hno : lowerMinute ≠ maxTime := by
    unfold minutesPerDay at hfir
    unfold maxTime
    omega
  have hin : ¬(lowerDay < dayNumber minYear 1 1 ∨ dayNumber maxYear 12 31 < lowerDay ∨
    (lowerMinute + 1) / minutesPerDay < dayNumber minYear 1 1 ∨
    dayNumber maxYear 12 31 < (lowerMinute + 1) / minutesPerDay) := by
    rw [hm, hma]
    unfold minutesPerDay at *
    omega
  have hc : firstYear + ((yearOf lowerDay + 399 + 1 - firstYear).toNat : Int) = yearOf lowerDay + 400 := by omega
  have hfi := occurrence_finds expression (lowerMinute + 1) firstYear
    (yearOf lowerDay + 399 + 1 - firstYear).toNat
  rw [hc] at hfi
  obtain ⟨result, hre⟩ : ∃ result, nextLocalOccurrence expression bound = result := ⟨_, rfl⟩
  have hr := hre
  unfold nextLocalOccurrence at hr
  dsimp only at hr
  rw [← hl, ← hlo, if_neg hno, if_neg hin, ← hfirs,
    if_neg (show ¬(yearOf lowerDay + 399 < minYear ∨ maxYear < yearOf lowerDay + 399) by omega)] at hr
  cases hse : (List.range' 0 (yearOf lowerDay + 399 + 1 - firstYear).toNat).findSome? fun index : Nat =>
    occurrenceInYear expression (lowerMinute + 1) (firstYear + index) with
  | some next =>
    rw [hse] at hr
    obtain rfl := hr
    exact .inl ⟨next, hre, nextLocalOccurrence_ok hre⟩
  | none =>
    rw [hse] at hfi hr
    obtain rfl := hr
    refine .inr ⟨hre, fun minute hminute => ?_⟩
    obtain ⟨y, hgt, hl', x, hx, hst, he⟩ := hminute.soon (yearOf lowerDay)
    have hn := daysBeforeYear_mono (show yearOf lowerDay + 1 ≤ y from hgt)
    have hf' := daysBeforeYear_mono (show firstYear ≤ y by omega)
    have hwi := daysBeforeYear_mono (show y + 1 ≤ yearOf lowerDay + 400 by omega)
    refine hfi x ?_ ?_ ⟨hx, ?_⟩
    · unfold minutesPerDay at *
      omega
    · unfold minutesPerDay at *
      omega
    · unfold minutesPerDay at *
      omega

/-- Every midnight, from the beginning of 1970 on. -/
theorem nextLocalOccurrence_complete_midnights :
    ∃ expression, parseCronExpression (Rpc.text "@daily") = .ok expression ∧
      nextLocalOccurrence expression 0 = .ok 1440 ∧
      ∀ minute, expression.Matches minute → 0 < nanosecondsPerMinute * minute → 1440 ≤ minute := by
  refine ⟨⟨1#60, 1#24, BitVec.allOnes 31, BitVec.allOnes 12, BitVec.allOnes 7⟩, by decide +kernel,
    by decide +kernel, ?_⟩
  rcases nextLocalOccurrence_complete
    ⟨1#60, 1#24, BitVec.allOnes 31, BitVec.allOnes 12, BitVec.allOnes 7⟩ 0 (by decide) (by decide) with
    ⟨next, hn, -, -, hl⟩ | ⟨hno, -⟩
  · obtain rfl : next = 1440 := by
      have : (.ok next : Except Error Int) = .ok 1440 := hn.symm.trans (by decide +kernel)
      exact Except.ok.inj this
    exact hl
  · exact absurd hno (by decide +kernel)

end Jobu.Cron
