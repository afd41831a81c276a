import Mathlib.Data.Int.Order.Basic

/-!
# The Gregorian calendar

Days are counted from 1970-01-01, years go on without end in both directions.

  > `dayNumber`: the day of a date; `yearOf`: the year of a day (`yearOf_le`, `lt_yearOf`).
  > `Alike y y'`: the two years have the same days on the same weekdays.  Every year has one alike among
    any 399 consecutive years (`exists_alike`), since each of the fourteen calendars comes at least twice
    in the cycle of 400 years.
-/

namespace Lib.Calendar

def isLeap (year : Int) : Bool := year % 4 = 0 && (year % 100 ≠ 0 || year % 400 = 0)

def daysInMonth (year : Int) : Nat → Nat
  | 2 => if isLeap year then 29 else 28
  | 4 | 6 | 9 | 11 => 30
  | _ => 31

def daysInYear (year : Int) : Int := if isLeap year then 366 else 365

/-- The first day of a year. -/
def daysBeforeYear (year : Int) : Int :=
  365 * (year - 1970) + ((year - 1) / 4 - (year - 1) / 100 + (year - 1) / 400 - 477)

/-- The days of a year that are before one of its months; month 13 stands for the end of the year. -/
def daysBeforeMonth (year : Int) : Nat → Nat
  | 0 | 1 => 0
  | month + 2 => daysBeforeMonth year (month + 1) + daysInMonth year (month + 1)

def dayNumber (year : Int) (month day : Nat) : Int :=
  daysBeforeYear year + daysBeforeMonth year month + ((day : Int) - 1)

/-- Of a day, counted from Sunday; 1970-01-01 was a Thursday. -/
def weekday (day : Int) : Nat := ((day + 4) % 7).toNat

/-- The year of a day: the average year gives it up to one. -/
def yearOf (day : Int) : Int :=
  let guess := 400 * day / 146097 + 1970
  if day < daysBeforeYear guess then guess - 1
  else if daysBeforeYear (guess + 1) ≤ day then guess + 1
  else guess

/-! ## Years -/

theorem daysBeforeYear_succ (year : Int) : daysBeforeYear (year + 1) = daysBeforeYear year + daysInYear year := by
  unfold daysBeforeYear daysInYear isLeap
  by_cases h4 : year % 4 = 0
  · by_cases h100 : year % 100 = 0
    · by_cases h400 : year % 400 = 0
      · simp only [h4, h100, h400]
        simp
        omega
      · simp only [h4, h100, h400]
        simp
        omega
    · simp only [h4]
      simp
      omega
  · simp only [h4]
    simp
    omega

theorem daysInYear_bounds (year : Int) : 365 ≤ daysInYear year ∧ daysInYear year ≤ 366 := by
  unfold daysInYear
  split <;> decide

theorem daysBeforeYear_add_le (year : Int) (n : Nat) : daysBeforeYear year + 365 * n ≤ daysBeforeYear (year + n) := by
  induction n with
  | zero => simp
  | succ n =>
    have hl := daysBeforeYear_succ (year + n)
    have hlen := daysInYear_bounds (year + n)
    rw [show year + ((n + 1 : Nat) : Int) = year + n + 1 by omega]
    omega

variable {y y' : Int}

theorem daysBeforeYear_mono (h : y ≤ y') : daysBeforeYear y ≤ daysBeforeYear y' := by
  obtain ⟨n, rfl⟩ := Int.le.dest h
  have := daysBeforeYear_add_le y n
  omega

theorem yearOf_le (day : Int) : daysBeforeYear (yearOf day) ≤ day := by
  unfold yearOf
  dsimp only
  split
  · unfold daysBeforeYear
    omega
  · split <;> omega

theorem lt_yearOf (day : Int) : day < daysBeforeYear (yearOf day + 1) := by
  unfold yearOf
  dsimp only
  split
  · rwa [Int.sub_add_cancel]
  split
  · unfold daysBeforeYear
    omega
  · omega

variable {year : Int}

/-- **The year of a day is the one it lies in.** -/
theorem yearOf_eq {day : Int} (hle : daysBeforeYear year ≤ day)
    (hl : day < daysBeforeYear (year + 1)) : yearOf day = year := by
  have hl' := yearOf_le day
  have hlt' := lt_yearOf day
  by_contra hn
  rcases Int.lt_or_gt_of_ne hn with h | h
  · have := daysBeforeYear_mono (show yearOf day + 1 ≤ year from h)
    omega
  · have := daysBeforeYear_mono (show year + 1 ≤ yearOf day from h)
    omega

theorem yearOf_mono {d d' : Int} (h : d ≤ d') : yearOf d ≤ yearOf d' := by
  by_contra hl
  have := daysBeforeYear_mono (show yearOf d' + 1 ≤ yearOf d by omega)
  have := yearOf_le d
  have := lt_yearOf d'
  omega

/-! ## Months -/

theorem daysInMonth_bounds (year : Int) (month : Nat) : 28 ≤ daysInMonth year month ∧ daysInMonth year month ≤ 31 := by
  unfold daysInMonth
  split <;> try split <;> decide
  all_goals decide

variable {month : Nat}

theorem daysBeforeMonth_succ (year : Int) (h : 1 ≤ month) :
    daysBeforeMonth year (month + 1) = daysBeforeMonth year month + daysInMonth year month := by
  obtain ⟨m, rfl⟩ : ∃ m, month = m + 1 := ⟨month - 1, by omega⟩
  rfl

/-- Two years differ by at most a leap day before a month. -/
theorem daysBeforeMonth_le_add_one (year year' : Int) (month : Nat) :
    daysBeforeMonth year month ≤ daysBeforeMonth year' month + 1 := by
  -- up to February they do not differ, and from March on no more
  have hsa : ∀ m ≤ 2, daysBeforeMonth year m = daysBeforeMonth year' m := by
    intro m _
    obtain rfl | rfl | rfl : m = 0 ∨ m = 1 ∨ m = 2 := by omega
    · rfl
    · rfl
    · rfl
  induction month with
  | zero => exact Nat.zero_le _
  | succ month =>
    by_cases hfi : month + 1 ≤ 2
    · rw [hsa _ hfi]
      exact Nat.le_succ _
    have hsu := daysBeforeMonth_succ year (show 1 ≤ month by omega)
    have hs' := daysBeforeMonth_succ year' (show 1 ≤ month by omega)
    rw [hsu, hs']
    by_cases hm : month = 2
    · subst hm
      have he := hsa 2 (Nat.le_refl _)
      show daysBeforeMonth year 2 + (if isLeap year then 29 else 28) ≤
        daysBeforeMonth year' 2 + (if isLeap year' then 29 else 28) + 1
      split <;> split <;> omega
    have he : daysInMonth year month = daysInMonth year' month := by
      unfold daysInMonth
      split <;> first | rfl | omega
    omega

theorem daysBeforeMonth_end (year : Int) : (daysBeforeMonth year 13 : Int) = daysInYear year := by
  unfold daysInYear
  simp only [daysBeforeMonth, daysInMonth]
  split <;> rfl

variable {m m' : Nat}

theorem daysBeforeMonth_mono (year : Int) (h : m ≤ m') : daysBeforeMonth year m ≤ daysBeforeMonth year m' := by
  induction h with
  | refl => exact Nat.le_refl _
  | @step k _ ih =>
    refine Nat.le_trans ih ?_
    cases k with
    | zero => exact Nat.zero_le _
    | succ => exact Nat.le_add_right _ _

theorem dayNumber_bounds {day : Nat} (hmonth : 1 ≤ month) (hl : month ≤ 12)
    (hday : 1 ≤ day) (he : day ≤ daysInMonth year month) :
    daysBeforeYear year ≤ dayNumber year month day ∧ dayNumber year month day < daysBeforeYear (year + 1) := by
  have hn := daysBeforeMonth_succ year hmonth
  have hy := daysBeforeMonth_mono year (show month + 1 ≤ 13 by omega)
  have hsum := daysBeforeMonth_end year
  have hsu := daysBeforeYear_succ year
  unfold dayNumber
  omega

theorem month_of_dayNumber {d' : Nat} (hm : 1 ≤ m) (hm' : m ≤ 12) (hn : 1 ≤ m')
    (hn' : m' ≤ 12) (he : 1 ≤ d') (he' : d' ≤ daysInMonth y' m') (hg : dayNumber y m 1 ≤ dayNumber y' m' d')
    (hl : dayNumber y' m' d' < dayNumber y (m + 1) 1) : y' = y ∧ m' = m := by
  have hbo := dayNumber_bounds hn hn' he he'
  have hy := daysBeforeMonth_mono y (show m + 1 ≤ 13 by omega)
  have hsum := daysBeforeMonth_end y
  have hsu := daysBeforeYear_succ y
  unfold dayNumber at hg hl hbo
  obtain rfl : y' = y := by
    rw [← yearOf_eq hbo.1 hbo.2]
    exact yearOf_eq (by omega) (by omega)
  refine ⟨rfl, ?_⟩
  have hnex := daysBeforeMonth_succ y' hn
  by_contra hne
  rcases Nat.lt_or_gt_of_ne hne with h | h
  · have := daysBeforeMonth_mono y' (show m' + 1 ≤ m from h)
    omega
  · have := daysBeforeMonth_mono y' (show m + 1 ≤ m' from h)
    omega

theorem dayNumber_next_month (year : Int) (h : 1 ≤ month) :
    dayNumber year (month + 1) 1 = dayNumber year month (1 + daysInMonth year month) := by
  have := daysBeforeMonth_succ year h
  unfold dayNumber
  omega

/-! ## The cycle of 400 years -/

theorem isLeap_add_cycle (year k : Int) : isLeap (year + 400 * k) = isLeap year := by
  unfold isLeap
  rw [show (year + 400 * k) % 4 = year % 4 by omega, show (year + 400 * k) % 100 = year % 100 by omega,
    show (year + 400 * k) % 400 = year % 400 by omega]

theorem daysBeforeYear_add_cycle (year k : Int) :
    daysBeforeYear (year + 400 * k) = daysBeforeYear year + 146097 * k := by
  unfold daysBeforeYear
  omega

/-- The same days, on the same weekdays. -/
structure Alike (year year' : Int) : Prop where
  leap : isLeap year' = isLeap year
  weeks : (daysBeforeYear year' - daysBeforeYear year) % 7 = 0

instance (year year' : Int) : Decidable (Alike year year') :=
  decidable_of_iff
    (isLeap year' = isLeap year ∧ (daysBeforeYear year' - daysBeforeYear year) % 7 = 0)
    ⟨fun h => ⟨h.1, h.2⟩, fun h => ⟨h.leap, h.weeks⟩⟩

theorem Alike.trans {a b c : Int} (hab : Alike a b) (hbc : Alike b c) : Alike a c :=
  ⟨hbc.leap.trans hab.leap, by have := hab.weeks; have := hbc.weeks; omega⟩

/-- 146097 days are whole weeks. -/
theorem alike_add_cycle (year k : Int) : Alike year (year + 400 * k) :=
  ⟨isLeap_add_cycle year k, by rw [daysBeforeYear_add_cycle]; omega⟩

/-- No calendar comes only once in a cycle: 28 years apart, or 34 around a century. -/
theorem exists_alike_in_cycle : ∀ r : Nat, r < 400 →
    (r + 28 < 400 ∧ Alike r (r + 28 : Nat)) ∨ (28 ≤ r ∧ Alike r (r - 28 : Nat)) ∨
      (34 ≤ r ∧ Alike r (r - 34 : Nat)) := by
  decide +kernel

theorem Alike.daysInMonth (h : Alike y y') (month : Nat) : daysInMonth y' month = daysInMonth y month := by
  unfold Calendar.daysInMonth
  rw [h.leap]

theorem Alike.daysBeforeMonth (h : Alike y y') (month : Nat) : daysBeforeMonth y' month = daysBeforeMonth y month := by
  induction month with
  | zero => rfl
  | succ month ih =>
    cases month with
    | zero => rfl
    | succ month =>
      show Calendar.daysBeforeMonth y' (month + 1) + Calendar.daysInMonth y' (month + 1) =
        Calendar.daysBeforeMonth y (month + 1) + Calendar.daysInMonth y (month + 1)
      rw [ih, h.daysInMonth]

theorem Alike.weekday (h : Alike y y') (month day : Nat) :
    weekday (dayNumber y' month day) = weekday (dayNumber y month day) := by
  have hw := h.weeks
  unfold Calendar.weekday dayNumber
  rw [h.daysBeforeMonth]
  omega

/-- **A year like a given one is among any 399 consecutive years.** -/
theorem exists_alike (year start : Int) : ∃ y, start < y ∧ y ≤ start + 399 ∧ Alike year y := by
  -- residues: of the given year, and of the year before the window
  have hr : year = ((year % 400).toNat : Int) + 400 * (year / 400) := by omega
  have hc : ∀ r : Nat, r < 400 → (r : Int) ≠ start % 400 → Alike year r →
      ∃ y, start < y ∧ y ≤ start + 399 ∧ Alike year y := by
    intro r hl hn hal
    refine ⟨r + 400 * ((start - r) / 400 + 1), by omega, by omega, ?_⟩
    exact hal.trans (alike_add_cycle r _)
  have hse : Alike year ((year % 400).toNat : Int) := by
    have := alike_add_cycle year (-(year / 400))
    rwa [show year + 400 * -(year / 400) = ((year % 400).toNat : Int) by omega] at this
  by_cases hn : year % 400 = start % 400
  · rcases exists_alike_in_cycle (year % 400).toNat (by omega) with
      ⟨hl, hal⟩ | ⟨hg, hal⟩ | ⟨hg, hal⟩
    · exact hc _ hl (by omega) (hse.trans hal)
    · exact hc _ (by omega) (by omega) (hse.trans hal)
    · exact hc _ (by omega) (by omega) (hse.trans hal)
  · exact hc (year % 400).toNat (by omega) (by omega) hse

end Lib.Calendar
