import Jobu.Properties.LocalTime

/-!
# Local times in a gap

Where the offset grows, some local times have no instant.  `timezoneUtcTime_gap`: such a local time is shifted
by the growth, if the transition is one that the table or the rule lists with the offset in force before it,
and if no other transition is within `gapSpan`, the largest difference of two offsets.

A table whose last offset is not the one that the rule begins from has local times that are not converted at
all (`timezoneUtcTime_gap_unlisted`).
-/

namespace Jobu.Cron

open Rpc (Bytes byte text)
open Lib.Calendar List Bool

/-! ## Transitions -/

/-- The transitions that the search for a gap goes through. -/
inductive Listed (data : TimezoneData) : OffsetTransition → Prop
  | table {transition : OffsetTransition} (h : transition ∈ tableTransitions data) : Listed data transition
  | rule {rule : PosixFutureRule} {daylight : PosixDaylightRule} (hrule : data.futureRule = some rule)
    (hdaylight : rule.daylight = some daylight) (index : RuleIndex)
    (hafter : afterCutoff data (ruleTransition rule.standardUtcOffsetSeconds daylight index) = true) :
    Listed data (ruleTransition rule.standardUtcOffsetSeconds daylight index)

/-- The offset in force changes, and it changes at no other time within the span. -/
structure Changes (data : TimezoneData) (span : Int) (change : OffsetTransition) : Prop where
  before : ∀ seconds, change.utcSeconds - span ≤ seconds → seconds < change.utcSeconds →
    offsetAtSeconds data seconds = .ok change.offsetBefore
  after : ∀ seconds, change.utcSeconds ≤ seconds → seconds < change.utcSeconds + span →
    offsetAtSeconds data seconds = .ok change.offsetAfter

/-- 51 hours: no two offsets are further apart. -/
def gapSpan : Int := 183600

section

variable {data : TimezoneData}

theorem validTransitions_sorted {typeCount : Nat} {last : Option Int} {transitions : List TimezoneTransition}
    (h : validTransitions typeCount last transitions = true) :
    (transitions.Pairwise fun a b => a.unixSeconds < b.unixSeconds) ∧
      ∀ transition ∈ transitions, last.all (· < transition.unixSeconds) = true := by
  induction transitions generalizing last with
  | nil => exact ⟨List.Pairwise.nil, fun transition hm => absurd hm not_mem_nil⟩
  | cons transition rest ih =>
    rw [validTransitions, and_eq_true, and_eq_true] at h
    obtain ⟨hso, hl⟩ := ih h.2
    have hl' : ∀ other ∈ rest, transition.unixSeconds < other.unixSeconds := by
      intro other ho
      have := hl other ho
      rwa [Option.all_some, decide_eq_true_eq] at this
    refine ⟨pairwise_cons.2 ⟨hl', hso⟩, fun other ho => ?_⟩
    rcases mem_cons.1 ho with rfl | ho
    · exact h.1.2
    have hfi := h.1.2
    have := hl' other ho
    cases last with
    | none => rfl
    | some =>
      rw [Option.all_some, decide_eq_true_eq] at hfi ⊢
      omega

theorem tableTransitions_sorted (h : ValidTable data) :
    (tableTransitions data).Pairwise fun a b => a.utcSeconds < b.utcSeconds := by
  have hso := (validTransitions_sorted h.transitions).1
  have hl : data.transitions.length ≤
    (data.defaultLocalTimeType :: data.transitions.map (·.localTimeType)).length := by simp
  rw [← map_fst_zip hl, pairwise_map] at hso
  unfold tableTransitions
  rw [pairwise_map]
  exact hso

/-- A listed transition is between valid offsets. -/
theorem Listed.offsets (h : validMappingData data = true) {transition : OffsetTransition}
    (hl : Listed data transition) :
    validOffset transition.offsetBefore = true ∧ validOffset transition.offsetAfter = true := by
  have hta := validTable_of_valid h
  have ho : ∀ type < data.localTimeTypes.length, validOffset (data.offsetOf type) = true := by
    intro _ htyp
    obtain ⟨entry, he, heq⟩ := offsetOf_mem htyp
    rw [← heq]
    exact hta.offsets entry he
  cases hl with
  | table hm =>
    obtain ⟨⟨entry, before⟩, hz, rfl⟩ := mem_map.1 hm
    obtain ⟨he, hbe⟩ := of_mem_zip hz
    have hty := validTransitions_types hta.transitions
    refine ⟨ho before ?_, ho _ (hty entry he)⟩
    rcases mem_cons.1 hbe with rfl | hbe
    · exact hta.default
    · obtain ⟨other, hot, rfl⟩ := mem_map.1 hbe
      exact hty other hot
  | rule hrule hdaylight =>
    have hv := validDaylight_of_valid h hrule hdaylight
    unfold ruleTransition
    split
    · exact ⟨hv.offset, hv.base⟩
    · exact ⟨hv.base, hv.offset⟩

/-! ## The gap -/

theorem gapContains_bounds {transition : OffsetTransition} {localSeconds : Int}
    (h : gapContains transition localSeconds = true) :
    transition.utcSeconds + transition.offsetBefore ≤ localSeconds ∧
      localSeconds < transition.utcSeconds + transition.offsetAfter := by
  unfold gapContains at h
  split at h
  · cases h
  split at h
  next _ _ hst hfi =>
    rw [and_eq_true, decide_eq_true_eq, decide_eq_true_eq] at h
    have had : ∀ {left right sum : Int}, checkedAddI64 left right = some sum → sum = left + right := by
      intro _ _ _ hsu
      unfold checkedAddI64 at hsu
      split at hsu
      · cases hsu
      · exact (Option.some.inj hsu).symm
    rw [had hst, had hfi] at h
    exact h
  · cases h

/-- A gap around the local times of the clock. -/
structure InGap (transition : OffsetTransition) (localSeconds : Int) : Prop where
  forward : transition.offsetBefore < transition.offsetAfter
  before : validOffset transition.offsetBefore = true
  after : validOffset transition.offsetAfter = true
  start : transition.utcSeconds + transition.offsetBefore ≤ localSeconds
  finish : localSeconds < transition.utcSeconds + transition.offsetAfter
  clockMin : minTime / nanosecondsPerSecond ≤ localSeconds
  clockMax : localSeconds ≤ maxTime / nanosecondsPerSecond

section

variable {transition : OffsetTransition} {localTime localSeconds : Int}

theorem InGap.contains (hg : InGap transition localSeconds) : gapContains transition localSeconds = true := by
  obtain ⟨_, hbe, hafter, hst, hfi, hmin, hmax⟩ := hg
  rw [validOffset_iff] at hbe hafter
  unfold minTime nanosecondsPerSecond at hmin
  unfold maxTime nanosecondsPerSecond at hmax
  unfold gapContains
  rw [if_neg (by omega), checkedAddI64_eq (by unfold minSeconds; omega) (by unfold maxSeconds; omega),
    checkedAddI64_eq (by unfold minSeconds; omega) (by unfold maxSeconds; omega)]
  dsimp only
  rw [and_eq_true, decide_eq_true_eq, decide_eq_true_eq]
  exact ⟨hst, hfi⟩

/-- No other transition lists this local time in its gap. -/
theorem InGap.unique (h : validMappingData data = true) (hg : InGap transition localSeconds)
    (hap : ∀ other, Listed data other → other = transition ∨
      gapSpan ≤ |other.utcSeconds - transition.utcSeconds|) {other : OffsetTransition}
    (hl : Listed data other) (hc : gapContains other localSeconds = true) :
    other = transition := by
  rcases hap other hl with he | hfa
  · exact he
  have ho := hl.offsets h
  have hbo := gapContains_bounds hc
  have hg' := hg
  obtain ⟨-, hbe, hafter, _, _, -, -⟩ := hg'
  rw [validOffset_iff] at hbe hafter
  rw [validOffset_iff, validOffset_iff] at ho
  unfold gapSpan at hfa
  rcases abs_cases (other.utcSeconds - transition.utcSeconds) with ⟨_, -⟩ | ⟨_, -⟩ <;> omega

/-- **The search finds the gap that the local time is in.** -/
theorem gapShift_eq (h : validMappingData data = true) (hl : Listed data transition)
    (hg : InGap transition (localTime / nanosecondsPerSecond))
    (hap : ∀ other, Listed data other → other = transition ∨ gapSpan ≤ |other.utcSeconds - transition.utcSeconds|) :
    gapShift data localTime = .ok (some (transition.offsetAfter - transition.offsetBefore)) := by
  have hg' := hg
  obtain ⟨-, hbe, hafter, _, _, hmin, hmax⟩ := hg'
  rw [validOffset_iff] at hbe hafter
  unfold minTime nanosecondsPerSecond at hmin
  unfold maxTime nanosecondsPerSecond at hmax
  have hu := fun other ho => @InGap.unique data transition _ h hg hap other ho
  unfold gapShift
  dsimp only
  rw [checkedAddI64_eq (by unfold minSeconds maximumUtcOffset nanosecondsPerSecond; omega)
    (by unfold maxSeconds maximumUtcOffset nanosecondsPerSecond; omega),
    checkedAddI64_eq (by unfold minSeconds minimumUtcOffset nanosecondsPerSecond; omega)
      (by unfold maxSeconds minimumUtcOffset nanosecondsPerSecond; omega)]
  dsimp only
  split
  case h_1 candidate hfo =>
    have hm := (takeWhile_sublist _).mem (mem_of_find?_eq_some hfo)
    have hl' : Listed data candidate := .table ((dropWhile_sublist _).mem hm)
    rw [hu candidate hl' (by simpa using List.find?_some hfo)]
  case h_2 hn =>
    rw [List.find?_eq_none] at hn
    cases hl with
    | table hm =>
      -- the transition itself is near enough to be looked at
      refine absurd hg.contains (hn transition ?_)
      refine Lib.mem_between (tableTransitions_sorted (validTable_of_valid h)) hm ?_ ?_
      · unfold maximumUtcOffset
        omega
      · unfold minimumUtcOffset
        omega
    | @rule rule daylight hrule hdaylight index haf =>
      have hv := validDaylight_of_valid h hrule hdaylight
      obtain ⟨_, _⟩ := yearOf_seconds hg.clockMin hg.clockMax
      rw [hrule]
      dsimp only
      rw [if_neg (by rw [hdaylight]; exact false_ne_true),
        windowTransitions_eq hdaylight hv (by unfold minYear; omega) (by unfold maxYear; omega)]
      dsimp only
      -- the year of the transition is one of the five
      have hw : index ∈ windowIndices rule.standardUtcOffsetSeconds daylight
        (yearOf (localTime / nanosecondsPerSecond / secondsPerDay)) := by
        rw [mem_windowIndices]
        constructor
        · by_contra he
          have := @ruleTransition_before (localTime / nanosecondsPerSecond) _ _ index hv (by omega)
          omega
        · by_contra hla
          have := @ruleTransition_after (localTime / nanosecondsPerSecond) _ _ index hv (by omega)
          omega
      split
      case h_1 candidate hfo =>
        have hm := mem_of_find?_eq_some hfo
        have hc := List.find?_some hfo
        obtain ⟨other, -, rfl⟩ := mem_map.1 hm
        rw [and_eq_true] at hc
        rw [hu _ (.rule hrule hdaylight other hc.1) hc.2]
      case h_2 hn' =>
        rw [List.find?_eq_none] at hn'
        refine absurd ?_ (hn' _ (mem_map_of_mem hw))
        rw [and_eq_true]
        exact ⟨haf, hg.contains⟩

/-! ## The shifted local time -/

theorem Maps.offset (h : validMappingData data = true) {utc : Int} (hm : Maps data utc localTime) :
    ∃ offset, validOffset offset = true ∧ offsetAt data utc = .ok offset ∧
      localTime = utc + nanosecondsPerSecond * offset := by
  obtain ⟨offset, hc, ho⟩ := offsetAt_candidate h hm.instant
  have hsh := hm.shows
  unfold timezoneLocalTime at hsh
  rw [if_neg (by simp [h]), ho] at hsh
  dsimp only at hsh
  split at hsh
  · cases hsh
  rename_i hshi
  cases hsh
  exact ⟨offset, candidateOffsets_valid h hc, ho, ((shiftTimePoint_some_iff hm.instant).1 hshi).1⟩

theorem maps_of_offset (h : validMappingData data = true) {utc offset : Int} (hu : Representable utc)
    (ho : offsetAt data utc = .ok offset) (hl : Representable (utc + nanosecondsPerSecond * offset)) :
    Maps data utc (utc + nanosecondsPerSecond * offset) := by
  refine ⟨hu, ?_⟩
  unfold timezoneLocalTime
  rw [if_neg (by simp [h]), ho]
  dsimp only
  rw [(shiftTimePoint_some_iff hu).2 ⟨rfl, hl⟩]

/-- Before the change the clock does not reach the gap, and from the change on it is past it. -/
theorem InGap.unmapped (h : validMappingData data = true)
    (hg : InGap transition (localTime / nanosecondsPerSecond)) (hc : Changes data gapSpan transition)
    (utc : Int) : ¬Maps data utc localTime := by
  intro hm
  obtain ⟨offset, hv, ho, _⟩ := hm.offset h
  obtain ⟨_, hbe, hafter, _, _, -, -⟩ := hg
  rw [validOffset_iff] at hv hbe hafter
  unfold offsetAt at ho
  have hse : localTime / nanosecondsPerSecond = utc / nanosecondsPerSecond + offset := by
    unfold nanosecondsPerSecond at *
    omega
  by_cases hl : utc / nanosecondsPerSecond < transition.utcSeconds
  · have hb' := hc.before (utc / nanosecondsPerSecond) (by unfold gapSpan; omega) hl
    obtain rfl := Except.ok.inj (hb'.symm.trans ho)
    omega
  have ha' := hc.after (utc / nanosecondsPerSecond) (by omega) (by unfold gapSpan; omega)
  obtain rfl := Except.ok.inj (ha'.symm.trans ho)
  omega

end

end

/-- What the shifted local time is converted to: no instant before the change has it. -/
theorem InGap.earliest {data : TimezoneData} (h : validMappingData data = true)
    {transition : OffsetTransition} {localTime : Int}
    (hg : InGap transition (localTime / nanosecondsPerSecond)) (hc : Changes data gapSpan transition)
    {other : Int} (hm : Maps data other (localTime +
      nanosecondsPerSecond * (transition.offsetAfter - transition.offsetBefore)))
    (hle : other ≤ localTime - nanosecondsPerSecond * transition.offsetBefore) :
    other = localTime - nanosecondsPerSecond * transition.offsetBefore := by
  obtain ⟨offset, hv, ho, _⟩ := hm.offset h
  obtain ⟨_, hbe, hafter, _, _, -, -⟩ := hg
  rw [validOffset_iff] at hv hbe hafter
  unfold offsetAt at ho
  have hse : other / nanosecondsPerSecond = localTime / nanosecondsPerSecond +
    (transition.offsetAfter - transition.offsetBefore) - offset := by
    unfold nanosecondsPerSecond at *
    omega
  have hla : transition.offsetAfter ≤ offset := by
    unfold nanosecondsPerSecond at *
    omega
  by_cases hl : other / nanosecondsPerSecond < transition.utcSeconds
  · have hb' := hc.before (other / nanosecondsPerSecond) (by unfold gapSpan; omega) hl
    obtain rfl := Except.ok.inj (hb'.symm.trans ho)
    omega
  have ha' := hc.after (other / nanosecondsPerSecond) (by omega) (by unfold gapSpan; omega)
  obtain rfl := Except.ok.inj (ha'.symm.trans ho)
  unfold nanosecondsPerSecond at *
  omega

/-- **A local time in a gap is shifted by the gap:** the transition is listed with the offset in force before
it, no other transition is within `gapSpan` of it, and the shifted times are representable. -/
theorem timezoneUtcTime_gap {bytes : Bytes} {data : TimezoneData}
    (hparse : parseTimezoneData bytes = .ok data) {transition : OffsetTransition}
    (hlisted : Listed data transition) (hforward : transition.offsetBefore < transition.offsetAfter)
    (hchanges : Changes data gapSpan transition)
    (hapart : ∀ other, Listed data other → other = transition ∨ gapSpan ≤ |other.utcSeconds - transition.utcSeconds|)
    {localTime : Int} (hlocal : Representable localTime)
    (hstart : nanosecondsPerSecond * (transition.utcSeconds + transition.offsetBefore) ≤ localTime)
    (hfinish : localTime < nanosecondsPerSecond * (transition.utcSeconds + transition.offsetAfter))
    (hutc : Representable (localTime - nanosecondsPerSecond * transition.offsetBefore))
    (hshifted : Representable (localTime + nanosecondsPerSecond * (transition.offsetAfter - transition.offsetBefore))) :
    (∀ utc, ¬Maps data utc localTime) ∧ timezoneUtcTime data localTime =
      .ok (localTime - nanosecondsPerSecond * transition.offsetBefore) ∧
      nanosecondsPerSecond * transition.utcSeconds ≤ localTime - nanosecondsPerSecond * transition.offsetBefore ∧
      timezoneLocalTime data (localTime - nanosecondsPerSecond * transition.offsetBefore) =
        .ok (localTime + nanosecondsPerSecond * (transition.offsetAfter - transition.offsetBefore)) := by
  have h := parseTimezoneData_valid hparse
  obtain ⟨hbe, hafter⟩ := hlisted.offsets h
  have hg : InGap transition (localTime / nanosecondsPerSecond) := by
    have hmin := hlocal.min
    have hmax := hlocal.max
    refine ⟨hforward, hbe, hafter, ?_, ?_, ?_, ?_⟩ <;> unfold nanosecondsPerSecond at * <;> omega
  have hun := hg.unmapped h hchanges
  -- the instant from which the gap is counted has the new offset
  have hse : (localTime - nanosecondsPerSecond * transition.offsetBefore) / nanosecondsPerSecond =
    localTime / nanosecondsPerSecond - transition.offsetBefore := by
    unfold nanosecondsPerSecond
    omega
  have hma : Maps data (localTime - nanosecondsPerSecond * transition.offsetBefore) (localTime +
    nanosecondsPerSecond * (transition.offsetAfter - transition.offsetBefore)) := by
    have hsu : localTime + nanosecondsPerSecond * (transition.offsetAfter - transition.offsetBefore) =
      localTime - nanosecondsPerSecond * transition.offsetBefore + nanosecondsPerSecond * transition.offsetAfter := by
      unfold nanosecondsPerSecond
      omega
    rw [hsu] at hshifted ⊢
    refine maps_of_offset h hutc ?_ hshifted
    unfold offsetAt
    rw [hse]
    have hs' := hg.start
    have hf' := hg.finish
    rw [validOffset_iff] at hbe hafter
    exact hchanges.after _ (by omega) (by unfold gapSpan; omega)
  refine ⟨hun, ?_, by unfold nanosecondsPerSecond at *; omega, hma.shows⟩
  obtain ⟨mappings, hmap, -, hva⟩ := exactUtcMappings_spec h hlocal
  obtain ⟨shiftedMappings, hsh, hso, hv'⟩ := exactUtcMappings_spec h hshifted
  have hn : mappings.values = [] :=
    eq_nil_iff_forall_not_mem.2 fun utc hm => hun utc ((hva utc).1 hm)
  have hfi : ∃ rest, shiftedMappings.values =
    (localTime - nanosecondsPerSecond * transition.offsetBefore) :: rest := by
    have hm := (hv' _).2 hma
    cases hli : shiftedMappings.values with
    | nil =>
      rw [hli] at hm
      cases hm
    | cons first rest =>
      rw [hli] at hm hso
      have hle : first ≤ localTime - nanosecondsPerSecond * transition.offsetBefore := by
        rcases mem_cons.1 hm with heq | hm
        · exact heq.ge
        · exact (pairwise_cons.1 hso).1 _ hm
      have hmaps : Maps data first _ := (hv' first).1 (by rw [hli]; exact mem_cons_self)
      exact ⟨rest, by rw [hg.earliest h hchanges hmaps hle]⟩
  obtain ⟨rest, hre⟩ := hfi
  unfold timezoneUtcTime
  rw [if_neg (by simp [h]), hmap]
  dsimp only [bind, Except.bind]
  rw [hn]
  dsimp only
  rw [gapShift_eq h hlisted hg hapart]
  dsimp only
  rw [(shiftTimePoint_some_iff hlocal).2 ⟨rfl, hshifted⟩]
  dsimp only
  rw [hsh]
  show earliest shiftedMappings _ = _
  unfold earliest
  rw [hre]

/-! ## The beginning of daylight time in 2024 -/

/-- As `aheadFile`, with another offset from the beginning of 2024 on. -/
def springData (offset : Int) : TimezoneData :=
  ⟨[⟨1704067200, 1⟩], [⟨0, false⟩, ⟨offset, false⟩], 0, some aheadRule⟩

/-- The transitions of the rule around its beginning in March 2024. -/
theorem spring_times (index : RuleIndex) :
    (ruleTransition 0 aheadDaylight index).utcSeconds ≤ 1704067200 ∨ index = ⟨2024, false⟩ ∨
      1710036000 + gapSpan ≤ (ruleTransition 0 aheadDaylight index).utcSeconds := by
  have hv : ValidDaylight 0 aheadDaylight := ⟨by decide, by decide, by decide +kernel, by decide +kernel⟩
  have hy : yearOf (1704067201 / secondsPerDay) = 2024 := by decide +kernel
  have hy' : yearOf (1710036000 / secondsPerDay) = 2024 := by decide +kernel
  obtain ⟨year, finish⟩ := index
  rcases Int.lt_or_le year 2023 with _ | _
  · have := @ruleTransition_before 1704067201 _ _ ⟨year, finish⟩ hv (by rw [hy]; dsimp only; omega)
    omega
  rcases Int.lt_or_le 2025 year with _ | _
  · have := @ruleTransition_after 1710036000 _ _ ⟨year, finish⟩ hv (by rw [hy']; dsimp only; omega)
    unfold gapSpan
    omega
  obtain rfl | rfl | rfl : year = 2023 ∨ year = 2024 ∨ year = 2025 := by omega
  · cases finish
    · exact .inl (by decide +kernel)
    · exact .inl (by decide +kernel)
  · cases finish
    · exact .inr (.inl rfl)
    · exact .inr (.inr (by decide +kernel))
  · cases finish
    · exact .inr (.inr (by decide +kernel))
    · exact .inr (.inr (by decide +kernel))

theorem spring_start : (ruleTransition 0 aheadDaylight ⟨2024, false⟩).utcSeconds = 1710036000 := by
  decide +kernel

/-- The offset that the year began with is in force until the rule begins. -/
theorem spring_changes {offset : Int} (h : validMappingData (springData offset) = true) :
    Changes (springData offset) gapSpan ⟨1710036000, offset, 3600⟩ := by
  have hc : (springData offset).cutoff = some 1704067200 := rfl
  have hca := fun seconds => @futureOffsetAt_cases (springData offset) aheadRule h rfl aheadDaylight rfl
    seconds
  have hrule : ∀ seconds, 1704067200 < seconds →
    offsetAtSeconds (springData offset) seconds = futureOffsetAt (springData offset) aheadRule seconds := by
    intro seconds hse
    unfold offsetAtSeconds
    show (if _ then _ else _) = _
    rw [hc, if_pos (by simpa using hse)]
  -- what is in force within the span is the beginning of 2024 or nothing
  have hfo : ∀ seconds index, seconds < 1710036000 + gapSpan →
    InForce (springData offset).cutoff 0 aheadDaylight seconds index → index = ⟨2024, false⟩ := by
    intro seconds index _ hfo
    have hafter := hfo.after
    have hno := hfo.notLater
    rw [hc, Option.all_some, decide_eq_true_eq] at hafter
    rcases spring_times index with _ | he | _
    · omega
    · exact he
    · omega
  constructor
  · intro seconds hg hlt
    dsimp only at hg hlt
    unfold gapSpan at hg
    rw [hrule seconds (by omega)]
    rcases hca seconds (by unfold minTime nanosecondsPerSecond; omega)
      (by unfold maxTime nanosecondsPerSecond; omega) with ⟨index, hl, -⟩ | ⟨-, hr⟩
    · have he := hfo seconds index (by unfold gapSpan; omega) hl.inForce
      have hno := hl.inForce.notLater
      rw [he] at hno
      have : (1710036000 : Int) ≤ seconds := spring_start ▸ hno
      omega
    · exact hr
  · intro seconds hg hlt
    dsimp only at hg hlt
    unfold gapSpan at hlt
    rw [hrule seconds (by omega)]
    rcases hca seconds (by unfold minTime nanosecondsPerSecond; omega)
      (by unfold maxTime nanosecondsPerSecond; omega) with ⟨index, hl, hr⟩ | ⟨hn, -⟩
    · rw [hfo seconds index (by unfold gapSpan; omega) hl.inForce] at hr
      exact hr
    refine absurd ⟨?_, ?_⟩ (hn ⟨2024, false⟩)
    · rw [hc]
      show decide (1704067200 < (ruleTransition 0 aheadDaylight ⟨2024, false⟩).utcSeconds) = true
      rw [spring_start]
      decide
    · show (ruleTransition 0 aheadDaylight ⟨2024, false⟩).utcSeconds ≤ seconds
      rw [spring_start]
      exact hg

/-- Every other transition is further away than the span. -/
theorem spring_apart (offset : Int) {other : OffsetTransition} (hl : Listed (springData offset) other) :
    other = ruleTransition 0 aheadDaylight ⟨2024, false⟩ ∨ gapSpan ≤ |other.utcSeconds - 1710036000| := by
  cases hl with
  | table hm =>
    obtain rfl := mem_singleton.1 hm
    refine .inr ?_
    show gapSpan ≤ |1704067200 - 1710036000|
    decide
  | rule hrule hdaylight index =>
    cases hrule
    cases hdaylight
    rcases spring_times index with _ | rfl | _
    · refine .inr ((le_neg_of_le_neg ?_).trans (neg_le_abs _))
      show (ruleTransition 0 aheadDaylight index).utcSeconds - 1710036000 ≤ -gapSpan
      unfold gapSpan
      omega
    · exact .inl rfl
    · refine .inr (le_trans ?_ (le_abs_self _))
      show gapSpan ≤ (ruleTransition 0 aheadDaylight index).utcSeconds - 1710036000
      omega

def springFile (offset : Bytes) : Bytes :=
  zoneFile [0, 0, 0, 0, 0x65, 0x92, 0, 0x80] offset "AAA0BBB,M3.2.0,M11.1.0"

/-- Half past two on the tenth of March 2024 becomes half past three. -/
theorem timezoneUtcTime_gap_half_past_two : timezoneUtcTime (springData 0) (1710037800 * nanosecondsPerSecond) =
    .ok (1710037800 * nanosecondsPerSecond) ∧ timezoneLocalTime (springData 0) (1710037800 * nanosecondsPerSecond) =
        .ok (1710041400 * nanosecondsPerSecond) := by
  have hp : parseTimezoneData (springFile [0, 0, 0, 0]) = .ok (springData 0) := by decide +kernel
  have hl : Listed (springData 0) (ruleTransition 0 aheadDaylight ⟨2024, false⟩) :=
    @Listed.rule (springData 0) aheadRule aheadDaylight rfl rfl ⟨2024, false⟩ (by decide +kernel)
  have heq : ruleTransition 0 aheadDaylight ⟨2024, false⟩ = ⟨1710036000, 0, 3600⟩ := by decide +kernel
  rw [heq] at hl
  have hg := @timezoneUtcTime_gap _ _ hp _ hl (by decide)
    (spring_changes (parseTimezoneData_valid hp)) (fun other hot => heq ▸ spring_apart 0 hot)
    (1710037800 * nanosecondsPerSecond) ⟨by decide, by decide⟩ (by decide) (by decide)
    ⟨by decide, by decide⟩ ⟨by decide, by decide⟩
  exact ⟨hg.2.1, hg.2.2.2⟩

/-- **The rule lists its transition with its own offset:** the clock goes from two hours behind to one hour
ahead, and the first two of the three hours between are not converted. -/
theorem timezoneUtcTime_gap_unlisted :
    parseTimezoneData (springFile [0xff, 0xff, 0xe3, 0xe0]) = .ok (springData (-7200)) ∧
      Changes (springData (-7200)) gapSpan ⟨1710036000, -7200, 3600⟩ ∧ (∀ other, Listed (springData (-7200)) other →
        other.utcSeconds = 1710036000 ∨ gapSpan ≤ |other.utcSeconds - 1710036000|) ∧
      (∀ utc, ¬Maps (springData (-7200)) utc (1710032400 * nanosecondsPerSecond)) ∧
      timezoneUtcTime (springData (-7200)) (1710032400 * nanosecondsPerSecond) =
        .error (invalidTimezoneData "local mapping") := by
  have hp : parseTimezoneData (springFile [0xff, 0xff, 0xe3, 0xe0]) = .ok (springData (-7200)) := by
    decide +kernel
  have h := parseTimezoneData_valid hp
  have hg : InGap ⟨1710036000, -7200, 3600⟩ (1710032400 * nanosecondsPerSecond / nanosecondsPerSecond) :=
    ⟨by decide, by decide, by decide, by decide, by decide, by decide, by decide⟩
  refine ⟨hp, spring_changes h, fun other hot => ?_, hg.unmapped h (spring_changes h), by decide +kernel⟩
  rcases spring_apart (-7200) hot with rfl | hfa
  · exact .inl spring_start
  · exact .inr hfa

end Jobu.Cron
