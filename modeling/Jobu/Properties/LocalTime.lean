import Jobu.Properties.TimezoneRule

/-!
# Local times and their instants

`Maps data utc localTime`: the local time of the instant.  `exactUtcMappings` finds all instants of a local
time, since every offset that can be in force is among those it tries (`offsetAt_candidate`).  So
`timezoneUtcTime` is a section of `timezoneLocalTime` that picks the earliest instant (`timezoneUtcTime_section`).
-/

namespace Jobu.Cron

open Rpc (Bytes byte text)
open Lib.Calendar List

/-- What a `UtcTimePoint` or a local time can hold. -/
structure Representable (time : Int) : Prop where
  min : minTime ≤ time
  max : time ≤ maxTime

/-! ## Offsets in force -/

theorem mem_sortedUnique {values : List Int} {x : Int} : x ∈ sortedUnique values ↔ x ∈ values := by
  unfold sortedUnique
  rw [mem_dedup, mem_insertionSort]

theorem sortedUnique_pairwise (values : List Int) : (sortedUnique values).Pairwise (· ≤ ·) := by
  unfold sortedUnique
  exact (pairwise_insertionSort (· ≤ ·) values).sublist (dedup_sublist _)

section

variable {data : TimezoneData}

theorem validTransitions_types {typeCount : Nat} {last : Option Int} {transitions : List TimezoneTransition}
    (h : validTransitions typeCount last transitions = true) :
    ∀ transition ∈ transitions, transition.localTimeType < typeCount := by
  induction transitions generalizing last with
  | nil => exact fun transition hm => absurd hm not_mem_nil
  | cons _ _ ih =>
    rw [validTransitions, Bool.and_eq_true, Bool.and_eq_true, decide_eq_true_eq] at h
    intro other ho
    rcases mem_cons.1 ho with rfl | ho
    · exact h.1.1
    · exact ih h.2 other ho

/-- What `validMappingData` says of the table. -/
structure ValidTable (data : TimezoneData) : Prop where
  default : data.defaultLocalTimeType < data.localTimeTypes.length
  offsets : ∀ type ∈ data.localTimeTypes, validOffset type.utcOffsetSeconds = true
  transitions : validTransitions data.localTimeTypes.length none data.transitions = true

theorem validTable_of_valid (h : validMappingData data = true) : ValidTable data := by
  unfold validMappingData at h
  simp only [Bool.and_eq_true, decide_eq_true_eq, all_eq_true] at h
  exact ⟨h.1.1.1.2, h.1.1.2, h.1.2⟩

variable {type : Nat}

theorem offsetOf_mem (h : type < data.localTimeTypes.length) :
    ∃ entry ∈ data.localTimeTypes, entry.utcOffsetSeconds = data.offsetOf type := by
  refine ⟨data.localTimeTypes[type], getElem_mem h, ?_⟩
  rw [TimezoneData.offsetOf, getElem?_eq_getElem h]
  rfl

theorem offsetOf_candidate (h : type < data.localTimeTypes.length) : data.offsetOf type ∈ candidateOffsets data := by
  obtain ⟨_, he, ho⟩ := offsetOf_mem h
  rw [candidateOffsets, mem_sortedUnique, ← ho]
  exact mem_append_left _ (mem_map_of_mem he)

theorem tableOffsetAt_candidate (h : ValidTable data) (seconds : Int) :
    tableOffsetAt data seconds ∈ candidateOffsets data := by
  unfold tableOffsetAt
  split
  · exact offsetOf_candidate h.default
  next transition hl =>
    refine offsetOf_candidate (validTransitions_types h.transitions transition ?_)
    exact (takeWhile_sublist _).mem (mem_of_getLast? hl)

variable {rule : PosixFutureRule} {offset utc : Int}

theorem rule_candidate (hrule : data.futureRule = some rule) (h : offset = rule.standardUtcOffsetSeconds ∨
    ∃ daylight, rule.daylight = some daylight ∧ offset = daylight.utcOffsetSeconds) :
    offset ∈ candidateOffsets data := by
  rw [candidateOffsets, mem_sortedUnique, hrule]
  refine mem_append_right _ ?_
  show offset ∈ rule.standardUtcOffsetSeconds :: (rule.daylight.map (·.utcOffsetSeconds)).toList
  rcases h with rfl | ⟨_, hdaylight, rfl⟩
  · exact mem_cons_self
  · rw [hdaylight]
    exact mem_cons_of_mem _ mem_cons_self

theorem ruleTransition_after_offset (standard : Int) (daylight : PosixDaylightRule) (index : RuleIndex) :
    (ruleTransition standard daylight index).offsetAfter = standard ∨
      (ruleTransition standard daylight index).offsetAfter = daylight.utcOffsetSeconds := by
  unfold ruleTransition
  split
  · exact .inl rfl
  · exact .inr rfl

section

variable (h : validMappingData data = true)

include h

theorem initialOffset_candidate
    (hrule : data.futureRule = some rule) : initialOffset data rule ∈ candidateOffsets data := by
  unfold initialOffset
  split
  · exact rule_candidate hrule (.inl rfl)
  next last hl =>
    exact offsetOf_candidate (validTransitions_types (validTable_of_valid h).transitions last (mem_of_getLast? hl))

/-- The offset of the rule is known at every instant of the clock. -/
theorem futureOffsetAt_candidate (hrule : data.futureRule = some rule) (hu : Representable utc) :
    ∃ offset ∈ candidateOffsets data, futureOffsetAt data rule (utc / nanosecondsPerSecond) = .ok offset := by
  have hmin := hu.min
  have hmax := hu.max
  cases hdaylight : rule.daylight with
  | none =>
    refine ⟨_, rule_candidate hrule (.inl rfl), ?_⟩
    unfold futureOffsetAt
    exact if_pos (by rw [hdaylight]; rfl)
  | some daylight =>
    rcases @futureOffsetAt_cases data rule h hrule daylight hdaylight (utc / nanosecondsPerSecond)
      (by unfold nanosecondsPerSecond; omega) (by unfold nanosecondsPerSecond; omega) with
      ⟨index, -, hr⟩ | ⟨-, hr⟩
    · refine ⟨_, rule_candidate hrule ?_, hr⟩
      rcases ruleTransition_after_offset rule.standardUtcOffsetSeconds daylight index with ho | ho
      · exact .inl ho
      · exact .inr ⟨daylight, hdaylight, ho⟩
    · exact ⟨_, initialOffset_candidate h hrule, hr⟩

/-- **At every instant of the clock an offset is in force, and it is one of those that are tried.** -/
theorem offsetAt_candidate (hu : Representable utc) :
    ∃ offset ∈ candidateOffsets data, offsetAt data utc = .ok offset := by
  unfold offsetAt offsetAtSeconds
  cases hrule : data.futureRule with
  | none => exact ⟨_, tableOffsetAt_candidate (validTable_of_valid h) _, rfl⟩
  | some =>
    dsimp only
    split
    · exact futureOffsetAt_candidate h hrule hu
    · exact ⟨_, tableOffsetAt_candidate (validTable_of_valid h) _, rfl⟩

theorem candidateOffsets_valid (hm : offset ∈ candidateOffsets data) : validOffset offset = true := by
  rw [candidateOffsets, mem_sortedUnique, mem_append] at hm
  rcases hm with hm | hm
  · obtain ⟨type, hty, rfl⟩ := mem_map.1 hm
    exact (validTable_of_valid h).offsets type hty
  unfold validMappingData at h
  rw [Bool.and_eq_true] at h
  cases hrule : data.futureRule with
  | none =>
    rw [hrule] at hm
    cases hm
  | some rule =>
    have hv := h.2
    rw [hrule] at hm hv
    rw [Option.all_some, validFutureRule, Bool.and_eq_true] at hv
    rcases mem_cons.1 hm with rfl | hm
    · exact hv.1
    cases hdaylight : rule.daylight with
    | none =>
      rw [hdaylight] at hm
      cases hm
    | some =>
      rw [hdaylight, Option.all_some, Bool.and_eq_true, Bool.and_eq_true] at hv
      rw [hdaylight] at hm
      rw [mem_singleton.1 hm]
      exact hv.2.1.1

end

/-! ## All instants of a local time -/

/-- The local time of the instant. -/
structure Maps (data : TimezoneData) (utc localTime : Int) : Prop where
  instant : Representable utc
  shows : timezoneLocalTime data utc = .ok localTime

theorem shiftTimePoint_some_iff {value seconds shifted : Int} (hv : Representable value) :
    shiftTimePoint value seconds = some shifted ↔
      shifted = value + nanosecondsPerSecond * seconds ∧ Representable shifted := by
  have hmin := hv.min
  have hmax := hv.max
  unfold shiftTimePoint
  dsimp only
  constructor
  · intro h
    split at h
    · cases h
    · cases h
      exact ⟨rfl, by omega, by omega⟩
  · rintro ⟨rfl, hsh⟩
    have := hsh.min
    have := hsh.max
    exact if_neg (by omega)

variable {localTime : Int}

section

variable (h : validMappingData data = true)

include h

section

variable (hlocal : Representable localTime)

include hlocal

theorem maps_iff :
    Maps data utc localTime ↔ ∃ offset ∈ candidateOffsets data, shiftTimePoint localTime (-offset) = some utc ∧
      offsetAt data utc = .ok offset := by
  constructor
  · rintro ⟨hu, hm⟩
    obtain ⟨offset, hc, ho⟩ := offsetAt_candidate h hu
    refine ⟨offset, hc, ?_, ho⟩
    unfold timezoneLocalTime at hm
    rw [if_neg (by simp [h]), ho] at hm
    dsimp only at hm
    split at hm
    · cases hm
    rename_i hsh
    cases hm
    obtain ⟨hsh, -⟩ := (shiftTimePoint_some_iff hu).1 hsh
    refine (shiftTimePoint_some_iff hlocal).2 ⟨?_, hu⟩
    rw [Int.mul_neg]
    omega
  · rintro ⟨offset, -, hsh, ho⟩
    obtain ⟨hsh, hu⟩ := (shiftTimePoint_some_iff hlocal).1 hsh
    refine ⟨hu, ?_⟩
    unfold timezoneLocalTime
    rw [if_neg (by simp [h]), ho]
    dsimp only
    have hba : shiftTimePoint utc offset = some localTime := by
      refine (shiftTimePoint_some_iff hu).2 ⟨?_, hlocal⟩
      rw [Int.mul_neg] at hsh
      omega
    rw [hba]

/-- One round of the loop adds the instant of its offset, if the offset is in force there. -/
theorem tryOffset_spec (mappings : MappingCandidates) (offset : Int) :
    ∃ result, tryOffset data localTime mappings offset = .ok result ∧
      ∀ utc, utc ∈ result.values ↔ utc ∈ mappings.values ∨
        (shiftTimePoint localTime (-offset) = some utc ∧ offsetAt data utc = .ok offset) := by
  unfold tryOffset
  cases hsh : shiftTimePoint localTime (-offset) with
  | none => exact ⟨_, rfl, fun utc => by simp⟩
  | some =>
    obtain ⟨-, hc⟩ := (shiftTimePoint_some_iff hlocal).1 hsh
    obtain ⟨active, -, hac⟩ := offsetAt_candidate h hc
    dsimp only
    rw [hac]
    dsimp only
    by_cases he : active = offset
    · rw [if_pos he]
      refine ⟨_, rfl, fun utc => ?_⟩
      rw [mem_append, mem_singleton]
      refine or_congr_right ⟨?_, fun hm => (Option.some.inj hm.1).symm⟩
      rintro rfl
      exact ⟨rfl, he ▸ hac⟩
    rw [if_neg he]
    refine ⟨_, rfl, fun utc => ⟨.inl, fun ho => ho.elim id ?_⟩⟩
    rintro ⟨hu, hof⟩
    cases hu
    exact absurd (Except.ok.inj (hac.symm.trans hof)) he

/-- The loop collects the instants of the offsets it tries. -/
theorem tryOffsets_spec (offsets : List Int) (mappings : MappingCandidates) :
    ∃ result, offsets.foldlM (tryOffset data localTime) mappings = .ok result ∧
      ∀ utc, utc ∈ result.values ↔ utc ∈ mappings.values ∨
        ∃ offset ∈ offsets, shiftTimePoint localTime (-offset) = some utc ∧ offsetAt data utc = .ok offset := by
  induction offsets generalizing mappings with
  | nil => exact ⟨mappings, rfl, fun utc => by simp⟩
  | cons offset _ ih =>
    obtain ⟨next, hn, hro⟩ := tryOffset_spec h hlocal mappings offset
    obtain ⟨result, hr, hv⟩ := ih next
    refine ⟨result, ?_, fun utc => ?_⟩
    · rw [foldlM_cons, hn]
      exact hr
    · rw [hv, hro, or_assoc, exists_mem_cons_iff]

/-- **The exact mappings are all instants of the local time, the earliest first.** -/
theorem exactUtcMappings_spec : ∃ mappings, exactUtcMappings data localTime = .ok mappings ∧
    mappings.values.Pairwise (· ≤ ·) ∧ ∀ utc, utc ∈ mappings.values ↔ Maps data utc localTime := by
  obtain ⟨result, hr, hv⟩ := tryOffsets_spec h hlocal (candidateOffsets data) {}
  refine ⟨{ result with values := sortedUnique result.values }, ?_, sortedUnique_pairwise _, fun utc => ?_⟩
  · unfold exactUtcMappings
    rw [hr]
  · rw [mem_sortedUnique, hv, maps_iff h hlocal]
    simp

end

theorem timezoneLocalTime_representable
    (hu : Representable utc) (hm : timezoneLocalTime data utc = .ok localTime) :
    Representable localTime := by
  unfold timezoneLocalTime at hm
  rw [if_neg (by simp [h])] at hm
  split at hm
  · cases hm
  split at hm
  · cases hm
  next hsh =>
    cases hm
    exact ((shiftTimePoint_some_iff hu).1 hsh).2

end

end

/-- **The instant of a local time that has one is the earliest of them.** -/
theorem timezoneUtcTime_section {bytes : Bytes} {data : TimezoneData}
    (hparse : parseTimezoneData bytes = .ok data) {utc localTime : Int} (hutc : Representable utc)
    (hlocal : timezoneLocalTime data utc = .ok localTime) :
    ∃ first, timezoneUtcTime data localTime = .ok first ∧ Maps data first localTime ∧
      (∀ other, Maps data other localTime → first ≤ other) ∧ first ≤ utc ∧
      ((∀ other, Maps data other localTime → other = utc) → first = utc) := by
  have h := parseTimezoneData_valid hparse
  obtain ⟨mappings, hma, hso, hv⟩ :=
    exactUtcMappings_spec h (timezoneLocalTime_representable h hutc hlocal)
  have hm := (hv utc).2 ⟨hutc, hlocal⟩
  cases hl : mappings.values with
  | nil =>
    rw [hl] at hm
    cases hm
  | cons first rest =>
    have hfi : Maps data first localTime := (hv first).1 (by rw [hl]; exact mem_cons_self)
    have hlea : ∀ other, Maps data other localTime → first ≤ other := by
      intro other hot
      have ho' := (hv other).2 hot
      rw [hl] at ho' hso
      rcases mem_cons.1 ho' with rfl | ho'
      · exact Int.le_refl _
      · exact (pairwise_cons.1 hso).1 other ho'
    refine ⟨first, ?_, hfi, hlea, hlea utc ⟨hutc, hlocal⟩, fun hu => hu first hfi⟩
    unfold timezoneUtcTime
    rw [if_neg (by simp [h]), hma]
    dsimp only [bind, Except.bind]
    rw [hl]
    rfl

/-- Half past one on the third of November 2024 comes twice, and the first time is taken. -/
theorem timezoneUtcTime_section_twice : timezoneLocalTime aheadData (1730597400 * nanosecondsPerSecond) =
    .ok (1730597400 * nanosecondsPerSecond) ∧
      timezoneUtcTime aheadData (1730597400 * nanosecondsPerSecond) = .ok (1730593800 * nanosecondsPerSecond) ∧
      ∀ other, Maps aheadData other (1730597400 * nanosecondsPerSecond) →
        1730593800 * nanosecondsPerSecond ≤ other := by
  have hlocal : timezoneLocalTime aheadData (1730597400 * nanosecondsPerSecond) =
    .ok (1730597400 * nanosecondsPerSecond) := by decide +kernel
  have hu : timezoneUtcTime aheadData (1730597400 * nanosecondsPerSecond) =
    .ok (1730593800 * nanosecondsPerSecond) := by decide +kernel
  obtain ⟨first, hfi, -, hl, -, -⟩ :=
    timezoneUtcTime_section aheadFile_parse ⟨by decide, by decide⟩ hlocal
  obtain rfl := Except.ok.inj (hu.symm.trans hfi)
  exact ⟨hlocal, hu, hl⟩

end Jobu.Cron
