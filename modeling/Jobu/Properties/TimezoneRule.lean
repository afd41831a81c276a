import Jobu.Cron.Rule
import Jobu.Cron.TimezoneFile

/-!
# The offset of a daylight rule

`futureOffsetAt` looks at the transitions of five years.  `futureOffsetAt_latest`: its result is the offset of
the latest transition that is not after the instant, among the last transition of the table and the
transitions of the rule in all years that come after it.  The transitions of the rule that the table covers do
not count (`futureOffsetAt_table`).
-/

namespace Jobu.Cron

open Rpc (Bytes byte text)
open Lib.Calendar Option Bool

/-! ## The latest transition -/

/-- A transition of the rule that comes after the table and not after the instant. -/
structure InForce (cutoff : Option Int) (standard : Int) (daylight : PosixDaylightRule) (seconds : Int)
    (index : RuleIndex) : Prop where
  after : cutoff.all (· < (ruleTransition standard daylight index).utcSeconds) = true
  notLater : (ruleTransition standard daylight index).utcSeconds ≤ seconds

/-- The order of the transitions: by their instants, and in the order of generation at one instant. -/
def EarlierTransition (standard : Int) (daylight : PosixDaylightRule) : RuleIndex → RuleIndex → Prop :=
  Lib.Earlier (fun index => (ruleTransition standard daylight index).utcSeconds) RuleIndex.Before

/-- The latest of the transitions in all years. -/
structure LatestTransition (cutoff : Option Int) (standard : Int) (daylight : PosixDaylightRule)
    (seconds : Int) (index : RuleIndex) : Prop where
  inForce : InForce cutoff standard daylight seconds index
  latest : ∀ other, InForce cutoff standard daylight seconds other →
    other = index ∨ EarlierTransition standard daylight other index

section

variable {cutoff : Option Int} {standard seconds : Int} {daylight : PosixDaylightRule}

/-- Of a transition in force before the five years, the one of the first of the five is in force and later. -/
theorem InForce.inWindow (h : ValidDaylight standard daylight) {index : RuleIndex}
    (hfo : InForce cutoff standard daylight seconds index)
    (hy : index.year < yearOf (seconds / secondsPerDay) - 2) :
    InForce cutoff standard daylight seconds ⟨yearOf (seconds / secondsPerDay) - 2, index.finish⟩ ∧
      (ruleTransition standard daylight index).utcSeconds <
        (ruleTransition standard daylight ⟨yearOf (seconds / secondsPerDay) - 2, index.finish⟩).utcSeconds := by
  have hl := @ruleTransition_lt standard daylight h index
    ⟨yearOf (seconds / secondsPerDay) - 2, index.finish⟩ hy rfl
  refine ⟨⟨?_, ?_⟩, hl⟩
  · have hafter := hfo.after
    cases cutoff with
    | none => rfl
    | some =>
      rw [all_some, decide_eq_true_eq] at hafter ⊢
      omega
  · have := @ruleTransition_before seconds standard daylight
      ⟨yearOf (seconds / secondsPerDay) - 2, index.finish⟩ h (by dsimp only; omega)
    omega

/-- **The loop over five years finds the latest transition of all years.** -/
theorem window_latest (h : ValidDaylight standard daylight) (cutoff : Option Int) (initial : Int) :
    let result := ((windowIndices standard daylight (yearOf (seconds / secondsPerDay))).map
      (ruleTransition standard daylight)).foldl (fun offset transition =>
        if cutoff.all (· < transition.utcSeconds) && transition.utcSeconds ≤ seconds then
          transition.offsetAfter
        else offset) initial
    (∃ index, LatestTransition cutoff standard daylight seconds index ∧
      result = (ruleTransition standard daylight index).offsetAfter) ∨
      ((∀ index, ¬InForce cutoff standard daylight seconds index) ∧ result = initial) := by
  have hi : ∀ index, (cutoff.all (· < (ruleTransition standard daylight index).utcSeconds) &&
    decide ((ruleTransition standard daylight index).utcSeconds ≤ seconds)) = true ↔
    InForce cutoff standard daylight seconds index := by
    intro index
    rw [and_eq_true, decide_eq_true_eq]
    exact ⟨fun h => ⟨h.1, h.2⟩, fun h => ⟨h.after, h.notLater⟩⟩
  have hno : ∀ index, InForce cutoff standard daylight seconds index →
    index.year ≤ yearOf (seconds / secondsPerDay) + 2 := by
    intro index hfo
    by_contra hy
    have := @ruleTransition_after seconds standard daylight index h (by omega)
    have := hfo.notLater
    omega
  dsimp only
  rw [List.foldl_map]
  rcases Lib.foldl_latest (windowIndices_pairwise (yearOf (seconds / secondsPerDay)))
    (fun index => cutoff.all (· < (ruleTransition standard daylight index).utcSeconds) &&
      decide ((ruleTransition standard daylight index).utcSeconds ≤ seconds))
    (fun index => (ruleTransition standard daylight index).offsetAfter) initial with
    ⟨index, -, hfo, hr, hl⟩ | ⟨hn, hr⟩
  · refine .inl ⟨index, ⟨(hi index).1 hfo, fun other ho => ?_⟩, hr⟩
    by_cases hy : yearOf (seconds / secondsPerDay) - 2 ≤ other.year
    · exact hl other (mem_windowIndices.2 ⟨hy, hno other ho⟩) ((hi other).2 ho)
    -- before the window: the same transition of its first year lies between
    obtain ⟨hf', hlt⟩ := ho.inWindow h (by omega)
    refine .inr (.inl ?_)
    rcases hl _ (mem_windowIndices.2 ⟨Int.le_refl _, by dsimp only; omega⟩) ((hi _).2 hf')
      with he | hl' | ⟨he, -⟩
    · rw [← he]
      exact hlt
    · exact hlt.trans hl'
    · exact hlt.trans_eq he
  · refine .inr ⟨fun other ho => ?_, hr⟩
    by_cases hy : yearOf (seconds / secondsPerDay) - 2 ≤ other.year
    · have := hn other (mem_windowIndices.2 ⟨hy, hno other ho⟩)
      rw [(hi other).2 ho] at this
      cases this
    obtain ⟨hf', -⟩ := ho.inWindow h (by omega)
    have := hn ⟨yearOf (seconds / secondsPerDay) - 2, other.finish⟩
      (mem_windowIndices.2 ⟨Int.le_refl _, by dsimp only; omega⟩)
    rw [(hi _).2 hf'] at this
    cases this

end

variable {data : TimezoneData} {rule : PosixFutureRule}

theorem validDaylight_of_valid (h : validMappingData data = true)
    (hrule : data.futureRule = some rule) {daylight : PosixDaylightRule} (hdaylight : rule.daylight = some daylight) :
    ValidDaylight rule.standardUtcOffsetSeconds daylight := by
  unfold validMappingData at h
  rw [and_eq_true, hrule, all_some] at h
  have hv := h.2
  unfold validFutureRule at hv
  rw [hdaylight, all_some] at hv
  simp only [and_eq_true] at hv
  exact ⟨hv.1, hv.2.1.1, hv.2.1.2, hv.2.2⟩

/-- The offset of the rule at a time of the clock: from the latest transition, if there is one. -/
theorem futureOffsetAt_cases (h : validMappingData data = true)
    (hrule : data.futureRule = some rule) {daylight : PosixDaylightRule}
    (hdaylight : rule.daylight = some daylight) {seconds : Int}
    (hmin : minTime / nanosecondsPerSecond ≤ seconds) (hmax : seconds ≤ maxTime / nanosecondsPerSecond) :
    (∃ index, LatestTransition data.cutoff rule.standardUtcOffsetSeconds daylight seconds index ∧
      futureOffsetAt data rule seconds =
        .ok (ruleTransition rule.standardUtcOffsetSeconds daylight index).offsetAfter) ∨
      ((∀ index, ¬InForce data.cutoff rule.standardUtcOffsetSeconds daylight seconds index) ∧
        futureOffsetAt data rule seconds = .ok (initialOffset data rule)) := by
  have hv := validDaylight_of_valid h hrule hdaylight
  obtain ⟨_, _⟩ := yearOf_seconds hmin hmax
  unfold futureOffsetAt
  rw [if_neg (by rw [hdaylight]; exact false_ne_true),
    windowTransitions_eq hdaylight hv (by unfold minYear; omega) (by unfold maxYear; omega)]
  rcases window_latest hv data.cutoff (initialOffset data rule) with
    ⟨index, hl, hr⟩ | ⟨hn, hr⟩
  · exact .inl ⟨index, hl, congrArg Except.ok hr⟩
  · exact .inr ⟨hn, congrArg Except.ok hr⟩

/-- A version 2 file with one type in its first section, and in the second a transition to the second of two
types. -/
def zoneFile (time offset : Bytes) (footer : String) : Bytes :=
  let header (transitions types : UInt8) : Bytes :=
    text "TZif2" ++ List.replicate 15 0 ++ List.replicate 12 0 ++ [0, 0, 0, transitions] ++
      [0, 0, 0, types] ++ [0, 0, 0, 1]
  let utc : Bytes := [0, 0, 0, 0, 0, 0]
  header 0 1 ++ utc ++ [0] ++ header 1 2 ++ time ++ [1] ++ utc ++ offset ++ [0, 0] ++ [0] ++
    text "\n" ++ text footer ++ text "\n"

/-- The year 2024 begins two hours ahead, with a rule that says it is no hour ahead until March. -/
def aheadFile : Bytes :=
  zoneFile [0, 0, 0, 0, 0x65, 0x92, 0, 0x80] [0, 0, 0x1c, 0x20] "AAA0BBB,M3.2.0,M11.1.0"

def aheadDaylight : PosixDaylightRule where
  abbreviation := text "BBB"
  utcOffsetSeconds := 3600
  start := { month := 3, week := 2, weekday := 0 }
  finish := { month := 11, week := 1, weekday := 0 }

def aheadRule : PosixFutureRule := ⟨text "AAA", 0, some aheadDaylight⟩

def aheadData : TimezoneData := ⟨[⟨1704067200, 1⟩], [⟨0, false⟩, ⟨7200, false⟩], 0, some aheadRule⟩

theorem aheadFile_parse : parseTimezoneData aheadFile = .ok aheadData := by decide +kernel

end Jobu.Cron
