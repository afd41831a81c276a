import Jobu.Cron.ByteReader
import Jobu.Properties.GapTimes

/-!
# Timezone files are read inside their bytes

What `parse_timezone_data` does with an arbitrary string: it reads inside it, steps over each section
by the size that the header's counts give, and what it accepts is what the conversions rely on.
-/

namespace Jobu.Cron

open Rpc (Bytes)

/-- What the conversions rely on: ascending transitions into the table of types, and offsets in bounds. -/
structure Convertible (data : TimezoneData) : Prop where
  checked : validMappingData data = true
  ascending : data.transitions.Pairwise fun a b => a.unixSeconds < b.unixSeconds
  types : ∀ transition ∈ data.transitions, transition.localTimeType < data.localTimeTypes.length
  default : data.defaultLocalTimeType < data.localTimeTypes.length
  offsets : ∀ type ∈ data.localTimeTypes,
    minimumUtcOffset ≤ type.utcOffsetSeconds ∧ type.utcOffsetSeconds ≤ maximumUtcOffset

theorem convertible_of_valid {data : TimezoneData} (h : validMappingData data = true) : Convertible data := by
  have table := validTable_of_valid h
  refine ⟨h, (validTransitions_sorted table.transitions).1, validTransitions_types table.transitions,
    table.default, fun type member => ?_⟩
  have inside := table.offsets type member
  rwa [validOffset, Bool.and_eq_true, decide_eq_true_eq, decide_eq_true_eq] at inside

theorem sectionSize_le_sizeMax {counts : TzifCounts} {timeWidth : Nat} (width : timeWidth = 4 ∨ timeWidth = 8)
    (utc : counts.utcLocalIndicators < 2 ^ 32) (standard : counts.standardWallIndicators < 2 ^ 32)
    (leap : counts.leapSeconds < 2 ^ 32) (transitions : counts.transitions < 2 ^ 32)
    (types : counts.localTimeTypes < 2 ^ 32) (letters : counts.abbreviationBytes < 2 ^ 32) :
    sectionSize counts timeWidth ≤ Scan.sizeMax := by
  unfold sectionSize Scan.sizeMax
  rcases width with rfl | rfl <;> omega

/-- **The parser stays inside its string.**  It has no fault at any string and gives what
`parseTimezoneData` says; a section that is read ends exactly its checked size behind its start, and
for counts of 32 bits the checked size is the exact sum; what is accepted can be converted. -/
theorem parseTimezoneData_inside (bytes : Bytes) :
    (∃ last ≤ bytes.length, Scan.parseTimezoneData bytes 0 = .read (parseTimezoneData bytes) last) ∧
    (∀ counts timeWidth version start parsed finish, timeWidth = 4 ∨ timeWidth = 8 →
      bytes.length ≤ Scan.sizeMax → start ≤ bytes.length →
      Scan.parseSection counts timeWidth version bytes start = .read parsed finish →
      start ≤ finish ∧ finish ≤ bytes.length ∧ Scan.sectionSize counts timeWidth = some (finish - start)) ∧
    (∀ counts timeWidth, timeWidth = 4 ∨ timeWidth = 8 → counts.utcLocalIndicators < 2 ^ 32 →
      counts.standardWallIndicators < 2 ^ 32 → counts.leapSeconds < 2 ^ 32 → counts.transitions < 2 ^ 32 →
      counts.localTimeTypes < 2 ^ 32 → counts.abbreviationBytes < 2 ^ 32 →
      Scan.sectionSize counts timeWidth = some (sectionSize counts timeWidth)) ∧
    ∀ data, parseTimezoneData bytes = .ok data → Convertible data := by
  refine ⟨Scan.parseTimezoneData_eq bytes, ?_, ?_, fun data accepted =>
    convertible_of_valid (parseTimezoneData_valid accepted)⟩
  · intro counts timeWidth version start parsed finish width small inside scan
    rcases Scan.parseSection_tracks counts timeWidth version bytes start small inside with
      ⟨last, -, failed, -⟩ | ⟨value, last, bound, read, reader⟩
    · rw [scan] at failed
      cases failed
    rw [scan] at read
    cases read
    have consumed := Reader.Consumes.parseSection width counts version reader
    rw [List.length_drop, List.length_drop] at consumed
    have whole : sectionSize counts timeWidth = finish - start := by omega
    refine ⟨by omega, bound, ?_⟩
    rw [Scan.sectionSize_eq, whole, Scan.held, if_pos (by omega)]
  · intro counts timeWidth width utc standard leap transitions types letters
    rw [Scan.sectionSize_eq, Scan.held,
      if_pos (sectionSize_le_sizeMax width utc standard leap transitions types letters)]

/-- A file of version 1 with one type and no transition. -/
def smallestFile : Bytes :=
  Rpc.text "TZif" ++ List.replicate 32 0 ++ [0, 0, 0, 1, 0, 0, 0, 1] ++ List.replicate 7 0

theorem parseTimezoneData_inside_smallest : (∃ last ≤ smallestFile.length,
      Scan.parseTimezoneData smallestFile 0 = .read (parseTimezoneData smallestFile) last) ∧
    Scan.sectionSize ⟨0, 0, 0, 0, 1, 1⟩ 4 = some (sectionSize ⟨0, 0, 0, 0, 1, 1⟩ 4) ∧
    Scan.sectionSize ⟨0, 0, 0, 0, 1, 1⟩ 4 = some (51 - 44) ∧ Convertible ⟨[], [⟨0, false⟩], 0, none⟩ := by
  obtain ⟨inside, sections, sizes, accepted⟩ := parseTimezoneData_inside smallestFile
  have read : Scan.parseSection ⟨0, 0, 0, 0, 1, 1⟩ 4 0 smallestFile 44 = .read ⟨[], [⟨0, false⟩], 0⟩ 51 := by
    decide +kernel
  have parsed : parseTimezoneData smallestFile = .ok ⟨[], [⟨0, false⟩], 0, none⟩ := by decide +kernel
  exact ⟨inside, sizes _ 4 (.inl rfl) (by decide) (by decide) (by decide) (by decide) (by decide) (by decide),
    (sections _ 4 _ _ _ _ (.inl rfl) (by decide) (by decide) read).2.2, accepted _ parsed⟩

end Jobu.Cron
