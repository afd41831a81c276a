import Jobu.Cron.Grammar

/-!
# What the parser reads

For each function of the parser, the texts it accepts and what it makes of them, in the words of the
grammar: numbers and names, members, and the lists of members of a field (`parseLinearField_sound`,
`parseLinearField_complete`).
-/

namespace Jobu.Cron

open List

open Rpc (Bytes byte text)
open Lib (cut)

variable {w : Bytes} {v d : Nat} {used : List Nat} {S : Set Nat} {Step : Nat → Prop}

/-! ## Numbers and names -/

variable {n : Nat} {value : Bytes}

theorem parseUnsigned_iff : parseUnsigned value = some n ↔ Numeral value n ∧ n < unsignedBound := by
  unfold parseUnsigned fromChars
  constructor
  · intro h
    split at h
    case h_2 => cases h
    case h_1 parsed hr =>
      cases h
      dsimp only at hr
      split at hr
      · cases hr
      rename_i hn
      obtain ⟨rfl, he⟩ := Prod.mk.inj (Option.some.inj hr)
      have hal : value.takeWhile asciiDigit = value := by
        have := takeWhile_append_dropWhile (p := asciiDigit) (l := value)
        rwa [he, append_nil] at this
      rw [hal] at hn ⊢
      rw [not_or] at hn
      exact ⟨⟨hn.1, takeWhile_eq_self_iff.1 hal, rfl⟩, by omega⟩
  · rintro ⟨⟨hso, hd, rfl⟩, _⟩
    have hal : value.takeWhile asciiDigit = value := takeWhile_eq_self_iff.2 hd
    have he : value.dropWhile asciiDigit = [] := dropWhile_eq_nil_iff.2 hd
    rw [hal, he]
    rw [if_neg (by rw [not_or]; exact ⟨hso, by omega⟩)]

/-- The characters of numbers and names: none of them separates anything. -/
def Plain (value : Bytes) : Prop :=
  ∀ c ∈ value, asciiDigit c = true ∨ (byte 'A' ≤ asciiUpper c ∧ asciiUpper c ≤ byte 'Z')

variable {digits : Bytes}

theorem Numeral.plain (h : Numeral digits n) : Plain digits := fun c hc => Or.inl (h.digits c hc)

variable {names : List FieldName} {name : FieldName} {written : Bytes}

theorem Named.plain (hta : NameTable names) (h : Named names written name) : Plain written := by
  intro c hc
  refine .inr (hta.letters name h.listed _ ?_)
  rw [← h.letters]
  exact mem_map_of_mem hc

theorem Named.ne_nil (hta : NameTable names) (h : Named names written name) : written ≠ [] := by
  rintro rfl
  exact hta.some name h.listed h.letters.symm

theorem Plain.notMem (h : Plain value) {mark : UInt8}
    (hm : ¬(asciiDigit mark = true ∨ (byte 'A' ≤ asciiUpper mark ∧ asciiUpper mark ≤ byte 'Z'))) :
    mark ∉ value :=
  fun hme => hm (h mark hme)

/-- Looking a name up finds it, and finds nothing for a number. -/
theorem find_name (hta : NameTable names) (h : Named names written name) :
    ∃ found, names.find? (fun name => equalsName written name.text) = some found ∧ found.value = name.value := by
  have hso : (names.find? fun name => equalsName written name.text).isSome := by
    rw [List.find?_isSome]
    exact ⟨name, h.listed, by rw [equalsName, h.letters]; exact beq_self_eq_true _⟩
  obtain ⟨found, hfo⟩ := Option.isSome_iff_exists.1 hso
  refine ⟨found, hfo, hta.once found (mem_of_find?_eq_some hfo) name h.listed ?_⟩
  have he := List.find?_some hfo
  rw [equalsName, h.letters] at he
  exact (eq_of_beq he).symm

theorem named_of_find {found : FieldName} (h : names.find? (fun name => equalsName written name.text) = some found) :
    Named names written found := by
  have he := List.find?_some h
  exact ⟨mem_of_find?_eq_some h, eq_of_beq he⟩

theorem asciiUpper_digit {c : UInt8} (h : asciiDigit c = true) : asciiUpper c < byte 'A' := by
  have hle : c ≤ byte '9' := by
    rw [asciiDigit, Bool.and_eq_true] at h
    exact of_decide_eq_true h.2
  have hn : ¬(byte 'a' ≤ c ∧ c ≤ byte 'z') := fun hc => absurd (UInt8.le_trans hc.1 hle) (by decide)
  rw [asciiUpper, if_neg hn]
  exact UInt8.lt_of_le_of_lt hle (by decide)

theorem find_name_numeral (hta : NameTable names)
    (h : Numeral digits n) : names.find? (fun name => equalsName digits name.text) = none := by
  rw [List.find?_eq_none]
  intro name hn he
  obtain ⟨c, _, rfl⟩ := exists_cons_of_ne_nil h.some
  have hlet := eq_of_beq he
  have hl := hta.letters name hn (asciiUpper c) (by rw [← hlet]; exact mem_cons_self)
  have hd := asciiUpper_digit (h.digits c mem_cons_self)
  exact absurd hl.1 (UInt8.not_le.2 hd)

section

variable {size : Nat} {field : LinearField size}

theorem LinearField.Value.plain (h : field.Value w v) : Plain w := by
  cases h with
  | name h => exact h.plain field.table
  | number h => exact h.plain

theorem LinearField.Value.ne_nil (h : field.Value w v) : w ≠ [] := by
  cases h with
  | name h => exact h.ne_nil field.table
  | number h => exact h.some

theorem LinearField.Value.inside (h : field.Value w v) : field.minimum ≤ v ∧ v ≤ field.maximum := by
  cases h with
  | name h => exact field.inside _ h.listed
  | number _ hmin hmax => exact ⟨hmin, hmax⟩

theorem parseLinearValue_iff : parseLinearValue field w = some v ↔ field.Value w v := by
  unfold parseLinearValue
  constructor
  · intro h
    split at h
    case h_1 found hfo =>
      cases h
      exact .name (named_of_find hfo)
    case h_2 =>
      split at h
      case h_2 => cases h
      case h_1 parsed hp =>
        split at h
        · cases h
        rename_i hr
        cases h
        rw [not_or, Nat.not_lt, Nat.not_lt] at hr
        exact .number (parseUnsigned_iff.1 hp).1 hr.1 hr.2
  · intro h
    cases h with
    | name h =>
      obtain ⟨_, hfo, hv⟩ := find_name field.table h
      rw [hfo]
      exact congrArg some hv
    | number h _ hmax =>
      rw [find_name_numeral field.table h, parseUnsigned_iff.2 ⟨h, Nat.lt_of_le_of_lt hmax field.small⟩]
      exact if_neg (by omega)

end

/-! ## The parts of a member -/

variable {base : Bytes} {member : Bytes}

theorem splitStep_none_iff : splitStep member = some (base, none) ↔ member = base ∧ base ≠ [] ∧ byte '/' ∉ base := by
  unfold splitStep
  constructor
  · intro h
    split at h
    case h_1 base' hc =>
      obtain ⟨rfl, hn⟩ := Lib.cut_none hc
      split at h
      · cases h
      next hso =>
        cases h
        exact ⟨rfl, hso, hn⟩
    case h_2 =>
      split at h
      · cases h
      split at h
      · cases h
      · split at h <;> cases h
  · rintro ⟨rfl, hso, hn⟩
    rw [Lib.cut_of_notMem hn]
    exact if_neg hso

theorem splitStep_some_iff {step : Stride} : splitStep member = some (base, some step) ↔
      ∃ digits, member = base ++ text "/" ++ digits ∧ base ≠ [] ∧ byte '/' ∉ base ∧
        Numeral digits step.1 ∧ Bounded step.1 := by
  unfold splitStep
  constructor
  · intro h
    split at h
    case h_1 => split at h <;> cases h
    case h_2 base' rest hc =>
      obtain ⟨rfl, hno⟩ := Lib.cut_some hc
      split at h
      · cases h
      split at h
      · cases h
      next _ hp =>
        split at h
        next ho =>
          obtain ⟨rfl, hstep⟩ := Prod.mk.inj (Option.some.inj h)
          cases hstep
          obtain ⟨hn, hl⟩ := parseUnsigned_iff.1 hp
          exact ⟨rest, by rw [append_assoc]; rfl, ho.1, hno, hn,
            Nat.pos_of_ne_zero ho.2, hl⟩
        · cases h
  · rintro ⟨digits, rfl, hso, hno, hn, _, hl⟩
    have hsl : byte '/' ∉ digits := hn.plain.notMem (by decide)
    have hc : cut (byte '/') (base ++ text "/" ++ digits) = (base, some digits) := by
      rw [append_assoc]
      exact Lib.cut_append hno
    rw [hc]
    dsimp only
    rw [if_neg (by simpa using hsl), parseUnsigned_iff.2 ⟨hn, hl⟩]
    exact dif_pos ⟨hso, by omega⟩

theorem splitRange_none_iff {single : Bytes} :
    splitRange base = some (single, none) ↔ base = single ∧ byte '-' ∉ single := by
  unfold splitRange
  constructor
  · intro h
    split at h
    case h_1 hc =>
      cases h
      exact Lib.cut_none hc
    case h_2 => split at h <;> cases h
  · rintro ⟨rfl, hn⟩
    rw [Lib.cut_of_notMem hn]

theorem splitRange_some_iff {first last : Bytes} : splitRange base = some (first, some last) ↔
      base = first ++ text "-" ++ last ∧ byte '-' ∉ first ∧ byte '-' ∉ last := by
  unfold splitRange
  constructor
  · intro h
    split at h
    case h_1 => cases h
    case h_2 hc =>
      split at h
      · cases h
      rename_i hl
      obtain ⟨rfl, hr⟩ := Prod.mk.inj (Option.some.inj h)
      cases hr
      obtain ⟨rfl, hn⟩ := Lib.cut_some hc
      exact ⟨by rw [append_assoc]; rfl, hn, by simpa using hl⟩
  · rintro ⟨rfl, hfi, hl⟩
    have hc : cut (byte '-') (first ++ text "-" ++ last) = (first, some last) := by
      rw [append_assoc]
      exact Lib.cut_append hfi
    rw [hc]
    exact if_neg (by simpa using hl)

/-! ## Bit sets -/

/-- The values of `S`, counted from `minimum`, are added to the bits. -/
def Adds {size : Nat} (minimum : Nat) (bits : BitVec size) (S : Set Nat) (bits' : BitVec size) : Prop :=
  ∀ i < size, testBit bits' i = true ↔ testBit bits i = true ∨ minimum + i ∈ S

variable {size : Nat}

theorem testBit_setBit (bits : BitVec size) {index i : Nat} (hi : i < size) :
    testBit (setBit bits index) i = true ↔ testBit bits i = true ∨ i = index := by
  unfold testBit setBit
  rw [BitVec.getLsbD_or, BitVec.getLsbD_twoPow, Bool.or_eq_true, Bool.and_eq_true, decide_eq_true_iff,
    decide_eq_true_iff]
  constructor
  · rintro (h | ⟨-, h⟩)
    · exact .inl h
    · exact .inr h.symm
  · rintro (h | rfl)
    · exact .inl h
    · exact .inr ⟨hi, rfl⟩

variable {minimum : Nat}

theorem adds_setBit {value : Nat} (bits : BitVec size) (h : minimum ≤ value) :
    Adds minimum bits {value} (setBit bits (value - minimum)) := by
  intro i hi
  rw [testBit_setBit bits hi, Set.mem_singleton_iff]
  exact or_congr_right (by omega)

variable {last : Nat}

theorem mem_stepped_iff {value : Nat} (hn : 0 < n) (hle : value ≤ last) :
    v ∈ stepped value last n ↔ v = value ∨ v ∈ stepped (value + n) last n := by
  constructor
  · rintro ⟨_, hl, k, hk⟩
    cases k with
    | zero => exact .inl (by omega)
    | succ k =>
      rw [Nat.mul_succ] at hk
      exact .inr ⟨by omega, hl, k, by omega⟩
  · rintro (rfl | ⟨_, hl, k, _⟩)
    · exact ⟨Nat.le_refl _, hle, by simp⟩
    · exact ⟨by omega, hl, k + 1, by rw [Nat.mul_succ]; omega⟩

/-- **The loop sets every step of the range.** -/
theorem adds_setSteps {size : Nat} (step : Stride) (last value : Nat) (bits : BitVec size) (h : minimum ≤ value) :
    Adds minimum bits (stepped value last step.1) (setSteps minimum step last value bits) := by
  have hp := step.2
  fun_induction setSteps minimum step last value bits with
  | case1 _ bits hle =>
    intro i hi
    rw [adds_setBit bits h i hi, mem_stepped_iff hp hle, Set.mem_singleton_iff]
    refine or_congr_right ⟨.inl, fun ho => ho.elim id ?_⟩
    rintro ⟨_, _, -⟩
    omega
  | case2 _ bits hle _ ih =>
    intro i hi
    rw [ih (by omega) i hi, adds_setBit bits h i hi, mem_stepped_iff hp hle, Set.mem_singleton_iff, or_assoc]
  | case3 =>
    intro i _
    refine ⟨.inl, fun ho => ho.elim id ?_⟩
    rintro ⟨_, _, -⟩
    omega

/-! ## Members of the fields that do not wrap -/

variable {a b : Bytes}

theorem ne_star_of_dash : a ++ text "-" ++ b ≠ text "*" := by
  intro h
  have hm : byte '-' ∈ a ++ text "-" ++ b := mem_append_left _ (mem_append_right _ (by decide))
  rw [h] at hm
  exact absurd hm (by decide)

theorem Plain.ne_star (h : Plain w) : w ≠ text "*" := by
  rintro rfl
  exact absurd (h (byte '*') (by decide)) (by decide)

variable {step : Option Stride} {x y : Nat}

section

variable {size : Nat} {field : LinearField size} {bits bits' : BitVec size} {member : Bytes}

theorem parseLinearMember_sound (h : parseLinearMember field bits member = some bits') :
    ∃ S, field.Member Bounded member S ∧ Adds field.minimum bits S bits' := by
  unfold parseLinearMember at h
  split at h
  case h_1 => cases h
  case h_2 base step hstep =>
    split at h
    · -- the wildcard
      rename_i hst
      cases h
      refine ⟨_, ?_, adds_setSteps (step.getD unitStride) _ _ bits (Nat.le_refl _)⟩
      cases step with
      | none =>
        obtain ⟨rfl, -, -⟩ := splitStep_none_iff.1 hstep
        rw [hst]
        exact .every
      | some =>
        obtain ⟨_, rfl, -, -, hn, hbo⟩ := splitStep_some_iff.1 hstep
        rw [hst]
        exact .everyStep hn hbo
    · split at h
      case h_1 => cases h
      case h_2 single hr =>
        obtain ⟨rfl, -⟩ := splitRange_none_iff.1 hr
        cases step with
        | some => cases h
        | none =>
          obtain ⟨rfl, -, -⟩ := splitStep_none_iff.1 hstep
          obtain ⟨value, hv, rfl⟩ := Option.map_eq_some_iff.1 h
          have hw := parseLinearValue_iff.1 hv
          exact ⟨_, .value hw, adds_setBit bits hw.inside.1⟩
      case h_3 first last hr =>
        obtain ⟨rfl, -, -⟩ := splitRange_some_iff.1 hr
        split at h
        case h_2 => cases h
        case h_1 x y hx hy =>
          have hfi := parseLinearValue_iff.1 hx
          have hl := parseLinearValue_iff.1 hy
          split at h
          · cases h
          rename_i hle
          cases h
          refine ⟨_, ?_, adds_setSteps (step.getD unitStride) _ _ bits hfi.inside.1⟩
          cases step with
          | none =>
            obtain ⟨rfl, -, -⟩ := splitStep_none_iff.1 hstep
            exact .range hfi hl (Nat.le_of_not_lt hle)
          | some =>
            obtain ⟨_, rfl, -, -, hn, hbo⟩ := splitStep_some_iff.1 hstep
            exact .rangeStep hfi hl (Nat.le_of_not_lt hle) hn hbo

/-- How a range with its step, if any, is read. -/
theorem parseLinearMember_range (ha : field.Value a x) (hb : field.Value b y) (hle : x ≤ y) (bits : BitVec size)
    (hstep : splitStep member = some (a ++ text "-" ++ b, step)) :
    parseLinearMember field bits member = some (setSteps field.minimum (step.getD unitStride) y x bits) := by
  have hr : splitRange (a ++ text "-" ++ b) = some (a, some b) :=
    splitRange_some_iff.2 ⟨rfl, ha.plain.notMem (by decide), hb.plain.notMem (by decide)⟩
  unfold parseLinearMember
  rw [hstep]
  dsimp only
  rw [if_neg ne_star_of_dash, hr]
  dsimp only
  rw [parseLinearValue_iff.2 ha, parseLinearValue_iff.2 hb]
  exact if_neg (by omega)

theorem slash_notMem_range (ha : Plain a) (hb : Plain b) : byte '/' ∉ a ++ text "-" ++ b := by
  rw [mem_append, mem_append]
  rintro ((h | h) | h)
  · exact ha.notMem (by decide) h
  · exact absurd h (by decide)
  · exact hb.notMem (by decide) h

theorem range_ne_nil : a ++ text "-" ++ b ≠ [] := by
  intro h
  have hl := congrArg List.length h
  simp [text] at hl

theorem parseLinearMember_complete (h : field.Member Bounded member S) (bits : BitVec size) :
    ∃ bits', parseLinearMember field bits member = some bits' ∧ Adds field.minimum bits S bits' := by
  cases h with
  | every =>
    refine ⟨_, ?_, adds_setSteps unitStride _ _ bits (Nat.le_refl _)⟩
    unfold parseLinearMember
    rw [splitStep_none_iff.2 ⟨rfl, by decide, by decide⟩]
    exact if_pos rfl
  | @everyStep digits n hn hstep =>
    refine ⟨_, ?_, adds_setSteps ⟨n, hstep.1⟩ _ _ bits (Nat.le_refl _)⟩
    have hsp : splitStep (text "*/" ++ digits) = some (text "*", some ⟨n, hstep.1⟩) :=
      splitStep_some_iff.2 ⟨digits, rfl, by decide, by decide, hn, hstep⟩
    unfold parseLinearMember
    rw [hsp]
    exact if_pos rfl
  | @value _ v hv =>
    refine ⟨_, ?_, adds_setBit bits hv.inside.1⟩
    unfold parseLinearMember
    rw [splitStep_none_iff.2 ⟨rfl, hv.ne_nil, hv.plain.notMem (by decide)⟩]
    dsimp only
    rw [if_neg hv.plain.ne_star, splitRange_none_iff.2 ⟨rfl, hv.plain.notMem (by decide)⟩]
    dsimp only
    rw [parseLinearValue_iff.2 hv]
    rfl
  | range ha hb hle =>
    refine ⟨_, parseLinearMember_range ha hb hle bits
      (splitStep_none_iff.2 ⟨rfl, range_ne_nil, slash_notMem_range ha.plain hb.plain⟩), ?_⟩
    exact adds_setSteps unitStride _ _ bits ha.inside.1
  | @rangeStep a b digits x y n ha hb hle hn hstep =>
    have hsp := @splitStep_some_iff (a ++ text "-" ++ b) _ ⟨n, hstep.1⟩ |>.2
      ⟨digits, rfl, range_ne_nil, slash_notMem_range ha.plain hb.plain, hn, hstep⟩
    refine ⟨_, parseLinearMember_range ha hb hle bits hsp, ?_⟩
    exact adds_setSteps ⟨n, hstep.1⟩ _ _ bits ha.inside.1

end

/-! ## Members of the weekday field -/

theorem Weekday.plain (h : Weekday w d used) : Plain w := by
  cases h with
  | name h => exact h.plain weekdayNames_table
  | number h => exact h.plain

theorem Weekday.ne_nil (h : Weekday w d used) : w ≠ [] := by
  cases h with
  | name h => exact h.ne_nil weekdayNames_table
  | number h => exact h.some

theorem Weekday.lt (h : Weekday w d used) : d < 7 := by
  cases h with
  | name h =>
    have hal : ∀ name ∈ weekdayNames, name.value < 7 := by decide +kernel
    exact hal _ h.listed
  | number => exact Nat.mod_lt _ (by decide)

/-- The day and the number of Sunday, if any, that a value of the source stands for. -/
structure WeekdayValue.Stands (value : WeekdayValue) (d : Nat) (used : List Nat) : Prop where
  day : value.value = d
  zero : value.numericZero = true ↔ 0 ∈ used
  seven : value.numericSeven = true ↔ 7 ∈ used

variable {value : WeekdayValue}

theorem parseWeekdayValue_sound (h : parseWeekdayValue w = some value) :
    ∃ used, Weekday w value.value used ∧ value.Stands value.value used := by
  unfold parseWeekdayValue at h
  split at h
  case h_1 found hfo =>
    cases h
    exact ⟨[], .name (named_of_find hfo), rfl, by simp, by simp⟩
  case h_2 =>
    split at h
    case h_2 => cases h
    case h_1 parsed hp =>
      split at h
      · cases h
      rename_i hle
      cases h
      have hday : (if parsed = 7 then 0 else parsed) = parsed % 7 := by split <;> omega
      refine ⟨[parsed], ?_, rfl, ?_, ?_⟩
      · dsimp only
        rw [hday]
        exact .number (parseUnsigned_iff.1 hp).1 (Nat.le_of_not_lt hle)
      · rw [beq_iff_eq, mem_singleton, eq_comm]
      · rw [beq_iff_eq, mem_singleton, eq_comm]

theorem parseWeekdayValue_complete (h : Weekday w d used) :
    ∃ value, parseWeekdayValue w = some value ∧ value.Stands d used := by
  unfold parseWeekdayValue
  cases h with
  | name h =>
    obtain ⟨_, hfo, hv⟩ := find_name weekdayNames_table h
    rw [hfo]
    exact ⟨_, rfl, hv, by simp, by simp⟩
  | number h hmax =>
    rw [find_name_numeral weekdayNames_table h, parseUnsigned_iff.2 ⟨h, Nat.lt_of_le_of_lt hmax (by decide)⟩]
    dsimp only
    rw [if_neg (Nat.not_lt.2 hmax)]
    refine ⟨_, rfl, ?_, ?_, ?_⟩
    · dsimp only
      split <;> omega
    · rw [beq_iff_eq, mem_singleton, eq_comm]
    · rw [beq_iff_eq, mem_singleton, eq_comm]

variable {first : Nat}

/-- The loop from its `offset`-th round on, on its way from `first` to `last`. -/
theorem setCyclic_from (step : Stride) (hl : last < 7) (offset : Nat)
    (ho : offset ≤ (last + 7 - first) % 7) (hfi : first < 7) (bits : BitVec 7) :
    ∃ bits', setCyclic step last offset ((first + offset) % 7) bits = some bits' ∧
      Adds 0 bits {d | ∃ k, offset ≤ k ∧ k ≤ (last + 7 - first) % 7 ∧ step.1 ∣ k ∧ d = (first + k) % 7}
        bits' := by
  -- the induction is on the rounds that are left
  obtain ⟨left, _⟩ : ∃ left, left = (last + 7 - first) % 7 - offset := ⟨_, rfl⟩
  induction left generalizing offset bits with
  | zero =>
    have hat : (first + offset) % 7 = last := by omega
    unfold setCyclic
    rw [if_pos (by omega), if_pos hat]
    refine ⟨_, rfl, fun i hi => ?_⟩
    simp only [Nat.zero_add, Set.mem_ofPred_eq]
    split
    case isTrue hdi =>
      rw [testBit_setBit bits hi]
      refine or_congr_right ⟨fun hi => ⟨offset, Nat.le_refl _, ho, Nat.dvd_of_mod_eq_zero hdi, hi⟩, ?_⟩
      rintro ⟨k, hg, hle, -, rfl⟩
      congr 1
      omega
    case isFalse hn =>
      refine ⟨.inl, fun hor => hor.elim id ?_⟩
      rintro ⟨k, hg, hle, hd, rfl⟩
      obtain rfl : k = offset := by omega
      exact absurd (Nat.mod_eq_zero_of_dvd hd) hn
  | succ left ih =>
    have hne : ((first + offset) % 7 + 1) % 7 = (first + (offset + 1)) % 7 := by omega
    have hn : (first + offset) % 7 ≠ last := by omega
    unfold setCyclic
    rw [if_pos (by omega), if_neg hn, hne]
    obtain ⟨bits', hse, had⟩ := ih (offset + 1) (by omega)
      (if offset % step.1 = 0 then setBit bits ((first + offset) % 7) else bits) (by omega)
    refine ⟨bits', hse, fun i hi => ?_⟩
    rw [had i hi]
    simp only [Nat.zero_add, Set.mem_ofPred_eq]
    constructor
    · rintro (h | ⟨k, _, hle, hd, rfl⟩)
      · split at h
        case isTrue hdi =>
          rcases (testBit_setBit bits hi).1 h with h | h
          · exact .inl h
          · exact .inr ⟨offset, Nat.le_refl _, ho, Nat.dvd_of_mod_eq_zero hdi, h⟩
        case isFalse => exact .inl h
      · exact .inr ⟨k, by omega, hle, hd, rfl⟩
    · rintro (h | ⟨k, _, hle, hd, rfl⟩)
      · left
        split
        · exact (testBit_setBit bits hi).2 (.inl h)
        · exact h
      by_cases hk : k = offset
      · subst hk
        left
        rw [if_pos (Nat.mod_eq_zero_of_dvd hd)]
        exact (testBit_setBit bits hi).2 (.inr rfl)
      · exact .inr ⟨k, by omega, hle, hd, rfl⟩

theorem setCyclic_adds (step : Stride) (hfi : first < 7) (hl : last < 7) (bits : BitVec 7) :
    ∃ bits', setCyclic step last 0 first bits = some bits' ∧ Adds 0 bits (cyclic first last step.1) bits' := by
  obtain ⟨bits', hse, had⟩ := setCyclic_from step hl 0 (Nat.zero_le _) hfi bits
  rw [Nat.add_zero, Nat.mod_eq_of_lt hfi] at hse
  refine ⟨bits', hse, fun i hi => (had i hi).trans (or_congr_right ?_)⟩
  constructor
  · rintro ⟨k, -, hle, hdv, hd⟩
    exact ⟨k, hle, hdv, hd⟩
  · rintro ⟨k, hle, hdv, hd⟩
    exact ⟨k, Nat.zero_le _, hle, hdv, hd⟩

/-- A member with its days and its numbers of Sunday is added to what was read. -/
structure WeekdayBits.Adds (read : WeekdayBits) (part : Set Nat × List Nat) (read' : WeekdayBits) : Prop where
  bits : Cron.Adds 0 read.bits part.1 read'.bits
  zero : read'.usesZero = true ↔ read.usesZero = true ∨ 0 ∈ part.2
  seven : read'.usesSeven = true ↔ read.usesSeven = true ∨ 7 ∈ part.2

theorem adds_single (h : value.Stands d used) (read : WeekdayBits) : read.Adds ({d}, used)
      { recordSundayConvention read value with
        bits := setBit (recordSundayConvention read value).bits value.value } where
  bits := by
    rw [h.day]
    exact adds_setBit read.bits (Nat.zero_le d)
  zero := by simp [recordSundayConvention, h.zero]
  seven := by simp [recordSundayConvention, h.seven]

variable {used' : List Nat} {bits : BitVec 7}

theorem adds_range {a b : WeekdayValue} (ha : a.Stands x used)
    (hb : b.Stands y used') (read : WeekdayBits) (hbi : Adds 0 read.bits S bits) :
    read.Adds (S, used ++ used')
      { recordSundayConvention (recordSundayConvention read a) b with bits := bits } where
  bits := hbi
  zero := by simp [recordSundayConvention, ha.zero, hb.zero, or_assoc]
  seven := by simp [recordSundayConvention, ha.seven, hb.seven, or_assoc]

theorem adds_all (bits : BitVec 7) : Adds 0 bits {d | d < 7} (BitVec.allOnes 7) := by
  intro i hi
  rw [testBit, BitVec.getLsbD_allOnes, decide_eq_true hi, Nat.zero_add]
  exact ⟨fun _ => Or.inr hi, fun _ => rfl⟩

variable {read read' : WeekdayBits}

theorem parseWeekdayMember_sound (h : parseWeekdayMember read member = some read') :
    ∃ part : Set Nat × List Nat, WeekdayMember Bounded member part.1 part.2 ∧ read.Adds part read' := by
  unfold parseWeekdayMember at h
  split at h
  case h_1 => cases h
  case h_2 base step hstep =>
    split at h
    next hst =>
      cases step with
      | some => cases h
      | none =>
        obtain ⟨rfl, -, -⟩ := splitStep_none_iff.1 hstep
        cases h
        rw [hst]
        exact ⟨({d | d < 7}, []), .every, adds_all read.bits, by simp, by simp⟩
    · split at h
      case h_1 => cases h
      case h_2 single hr =>
        obtain ⟨rfl, -⟩ := splitRange_none_iff.1 hr
        cases step with
        | some => cases h
        | none =>
          obtain ⟨rfl, -, -⟩ := splitStep_none_iff.1 hstep
          obtain ⟨value, hv, rfl⟩ := Option.map_eq_some_iff.1 h
          obtain ⟨used, hw, hsta⟩ := parseWeekdayValue_sound hv
          exact ⟨(_, used), .value hw, adds_single hsta read⟩
      case h_3 first last hr =>
        obtain ⟨rfl, -, -⟩ := splitRange_some_iff.1 hr
        split at h
        case h_2 => cases h
        case h_1 x y hx hy =>
          obtain ⟨used, hfi, hx'⟩ := parseWeekdayValue_sound hx
          obtain ⟨used', hl, hy'⟩ := parseWeekdayValue_sound hy
          obtain ⟨_, hse, had⟩ := setCyclic_adds (step.getD unitStride) hfi.lt hl.lt read.bits
          obtain ⟨_, hbi, rfl⟩ := Option.map_eq_some_iff.1 h
          obtain rfl := Option.some.inj (hse.symm.trans hbi)
          refine ⟨(_, used ++ used'), ?_, adds_range hx' hy' read had⟩
          cases step with
          | none =>
            obtain ⟨rfl, -, -⟩ := splitStep_none_iff.1 hstep
            exact .range hfi hl
          | some =>
            obtain ⟨_, rfl, -, -, hn, hbo⟩ := splitStep_some_iff.1 hstep
            exact .rangeStep hfi hl hn hbo

theorem parseWeekdayMember_range (ha : Weekday a x used) (hb : Weekday b y used') (read : WeekdayBits)
    (hstep : splitStep member = some (a ++ text "-" ++ b, step)) :
    ∃ read', parseWeekdayMember read member = some read' ∧
      read.Adds (cyclic x y (step.getD unitStride).1, used ++ used') read' := by
  have hr : splitRange (a ++ text "-" ++ b) = some (a, some b) :=
    splitRange_some_iff.2 ⟨rfl, ha.plain.notMem (by decide), hb.plain.notMem (by decide)⟩
  obtain ⟨_, hv, hv'⟩ := parseWeekdayValue_complete ha
  obtain ⟨_, hvb, hvb'⟩ := parseWeekdayValue_complete hb
  obtain ⟨_, hse, had⟩ := setCyclic_adds (step.getD unitStride) ha.lt hb.lt read.bits
  refine ⟨_, ?_, adds_range hv' hvb' read had⟩
  unfold parseWeekdayMember
  rw [hstep]
  dsimp only
  rw [if_neg ne_star_of_dash, hr]
  dsimp only
  rw [hv, hvb]
  dsimp only
  rw [hv'.day, hvb'.day]
  exact congrArg (Option.map _) hse

theorem parseWeekdayMember_complete {member : Bytes} (h : WeekdayMember Bounded member S used) (read : WeekdayBits) :
    ∃ read', parseWeekdayMember read member = some read' ∧ read.Adds (S, used) read' := by
  cases h with
  | every =>
    refine ⟨{ read with bits := BitVec.allOnes 7 }, ?_, adds_all read.bits, by simp, by simp⟩
    unfold parseWeekdayMember
    rw [splitStep_none_iff.2 ⟨rfl, by decide, by decide⟩]
    exact if_pos rfl
  | value hw =>
    obtain ⟨_, hv, hst⟩ := parseWeekdayValue_complete hw
    refine ⟨_, ?_, adds_single hst read⟩
    unfold parseWeekdayMember
    rw [splitStep_none_iff.2 ⟨rfl, hw.ne_nil, hw.plain.notMem (by decide)⟩]
    dsimp only
    rw [if_neg hw.plain.ne_star, splitRange_none_iff.2 ⟨rfl, hw.plain.notMem (by decide)⟩]
    dsimp only
    rw [hv]
    rfl
  | range ha hb =>
    exact parseWeekdayMember_range ha hb read
      (splitStep_none_iff.2 ⟨rfl, range_ne_nil, slash_notMem_range ha.plain hb.plain⟩)
  | @rangeStep a b digits x y n _ _ ha hb hn hstep =>
    have hsp := @splitStep_some_iff (a ++ text "-" ++ b) _ ⟨n, hstep.1⟩ |>.2
      ⟨digits, rfl, range_ne_nil, slash_notMem_range ha.plain hb.plain, hn, hstep⟩
    exact parseWeekdayMember_range ha hb read hsp

/-! ## Lists of members -/

/-- The characters of a member. -/
def Inner (c : UInt8) : Prop :=
  (asciiDigit c = true ∨ (byte 'A' ≤ asciiUpper c ∧ asciiUpper c ≤ byte 'Z')) ∨ c ∈ text "*-/"

theorem Plain.inner (h : Plain w) : ∀ c ∈ w, Inner c := fun c hc => Or.inl (h c hc)

theorem inner_append (ha : ∀ c ∈ a, Inner c) (hb : ∀ c ∈ b, Inner c) : ∀ c ∈ a ++ b, Inner c :=
  fun c hc => (mem_append.1 hc).elim (ha c) (hb c)

theorem inner_symbol {symbol : Bytes} (h : symbol ⊆ text "*-/") : ∀ c ∈ symbol, Inner c :=
  fun _ hc => Or.inr (h hc)

theorem inner_range (ha : Plain a) (hb : Plain b) : ∀ c ∈ a ++ text "-" ++ b, Inner c :=
  inner_append (inner_append ha.inner (inner_symbol (by decide))) hb.inner

theorem LinearField.Member.inner {size : Nat} {field : LinearField size}
    (h : field.Member Step w S) : ∀ c ∈ w, Inner c := by
  cases h with
  | every => exact inner_symbol (by decide)
  | everyStep h => exact inner_append (inner_symbol (by decide)) h.plain.inner
  | value h => exact h.plain.inner
  | range ha hb => exact inner_range ha.plain hb.plain
  | rangeStep ha hb _ h =>
    exact inner_append (inner_append (inner_range ha.plain hb.plain) (inner_symbol (by decide)))
      h.plain.inner

theorem WeekdayMember.inner (h : WeekdayMember Step w S used) : ∀ c ∈ w, Inner c := by
  cases h with
  | every => exact inner_symbol (by decide)
  | value h => exact h.plain.inner
  | range ha hb => exact inner_range ha.plain hb.plain
  | rangeStep ha hb h =>
    exact inner_append (inner_append (inner_range ha.plain hb.plain) (inner_symbol (by decide)))
      h.plain.inner

theorem LinearField.Member.ne_nil {size : Nat} {field : LinearField size} (h : field.Member Step w S) : w ≠ [] := by
  cases h with
  | every => decide
  | everyStep h _ | rangeStep ha hb _ h _ => exact fun hn => h.some (append_eq_nil_iff.1 hn).2
  | value h => exact h.ne_nil
  | range => exact range_ne_nil

theorem WeekdayMember.ne_nil (h : WeekdayMember Step w S used) : w ≠ [] := by
  cases h with
  | every => decide
  | value h => exact h.ne_nil
  | range => exact range_ne_nil
  | rangeStep _ _ h => exact fun hn => h.some (append_eq_nil_iff.1 hn).2

section

variable {β σ : Type} {M : Bytes → β → Prop}

/-- The members of a list are what is between its commas. -/
theorem CommaList.pieces (hi : ∀ w d, M w d → ∀ c ∈ w, Inner c) {ds : List β}
    (h : CommaList M w ds) : List.Forall₂ M (w.splitOn (byte ',')) ds := by
  have hp : ∀ w d, M w d → ∀ c ∈ w, (c == byte ',') = false := by
    intro w d hw c hc
    rw [beq_eq_false_iff_ne]
    rintro rfl
    exact absurd (hi w d hw _ hc) (by unfold Inner; decide)
  induction h with
  | one h =>
    rw [splitOn, splitOnP_eq_singleton (hp _ _ h)]
    exact .cons h .nil
  | cons h _ ih =>
    rw [append_assoc, splitOn]
    show List.Forall₂ M (splitOnP _ (_ ++ byte ',' :: _)) _
    rw [splitOnP_append_cons_of_forall_mem (hp _ _ h) _ (beq_self_eq_true _)]
    exact .cons h ih

variable {pieces : List Bytes}

theorem commaList_of_pieces {ds : List β} (h : List.Forall₂ M pieces ds)
    (hso : pieces ≠ []) : CommaList M ([byte ','].intercalate pieces) ds := by
  induction h with
  | nil => exact absurd rfl hso
  | @cons w d ws ds hw hws ih =>
    cases hws with
    | nil =>
      rw [intercalate_singleton]
      exact .one hw
    | cons =>
      have hr := ih (cons_ne_nil _ _)
      rw [intercalate_cons_cons]
      exact .cons hw hr

/-- One value after the other is added. -/
def Folds (R : σ → β → σ → Prop) : σ → List β → σ → Prop
  | s, [], s' => s = s'
  | s, d :: ds, s' => ∃ m, R s d m ∧ Folds R m ds s'

variable {f : σ → Bytes → Option σ} {R : σ → β → σ → Prop}

theorem foldlM_sound (hf : ∀ s w s', f s w = some s' → ∃ d, M w d ∧ R s d s')
    {s s' : σ} (h : pieces.foldlM f s = some s') :
    ∃ ds, List.Forall₂ M pieces ds ∧ Folds R s ds s' := by
  induction pieces generalizing s with
  | nil => exact ⟨[], .nil, Option.some.inj h⟩
  | cons w _ ih =>
    rw [foldlM_cons] at h
    obtain ⟨m, hm, hr⟩ := Option.bind_eq_some_iff.1 h
    obtain ⟨d, hd, hR⟩ := hf s w m hm
    obtain ⟨ds, hds, hfo⟩ := ih hr
    exact ⟨d :: ds, .cons hd hds, m, hR, hfo⟩

theorem foldlM_complete (hf : ∀ s w d, M w d → ∃ s', f s w = some s' ∧ R s d s')
    {ds : List β} (h : List.Forall₂ M pieces ds) (s : σ) :
    ∃ s', pieces.foldlM f s = some s' ∧ Folds R s ds s' := by
  induction h generalizing s with
  | nil => exact ⟨s, rfl, rfl⟩
  | cons hw _ ih =>
    obtain ⟨m, hm, hR⟩ := hf s _ _ hw
    obtain ⟨s', hs', hfo⟩ := ih m
    refine ⟨s', ?_, m, hR, hfo⟩
    rw [foldlM_cons, hm]
    exact hs'

end

theorem folds_adds {size : Nat} {bits bits' : BitVec size} {sets : List (Set Nat)}
    (h : Folds (Adds minimum) bits sets bits') :
    Adds minimum bits {v | ∃ s ∈ sets, v ∈ s} bits' := by
  induction sets generalizing bits with
  | nil =>
    obtain rfl := h
    intro i hi
    simp
  | cons _ _ ih =>
    obtain ⟨_, had, hr⟩ := h
    intro i hi
    rw [ih hr i hi, had i hi]
    simp [or_assoc]

theorem folds_weekday {parts : List (Set Nat × List Nat)} (h : Folds WeekdayBits.Adds read parts read') :
    Adds 0 read.bits {v | ∃ part ∈ parts, v ∈ part.1} read'.bits ∧
      (read'.usesZero = true ↔ read.usesZero = true ∨ ∃ part ∈ parts, 0 ∈ part.2) ∧
      (read'.usesSeven = true ↔ read.usesSeven = true ∨ ∃ part ∈ parts, 7 ∈ part.2) := by
  induction parts generalizing read with
  | nil =>
    obtain rfl := h
    exact ⟨fun i hi => by simp, by simp, by simp⟩
  | cons _ _ ih =>
    obtain ⟨_, had, hr⟩ := h
    obtain ⟨hbi, hz, hse⟩ := ih hr
    refine ⟨fun i hi => ?_, ?_, ?_⟩
    · rw [hbi i hi, had.bits i hi]
      simp [or_assoc]
    · rw [hz, had.zero]
      simp [or_assoc]
    · rw [hse, had.seven]
      simp [or_assoc]

/-! ## Fields -/

/-- The bit set of a field has exactly these values. -/
def Represents {size : Nat} (minimum : Nat) (bits : BitVec size) (values : Set Nat) : Prop :=
  ∀ i < size, testBit bits i = true ↔ minimum + i ∈ values

theorem Adds.represents {bits : BitVec size}
    (h : Adds minimum (BitVec.ofNat size 0) S bits) : Represents minimum bits S := by
  intro i hi
  rw [h i hi, testBit, BitVec.getLsbD_zero]
  simp

section

variable {size : Nat} {field : LinearField size} {written : Bytes} {values : Set Nat}

theorem parseLinearField_sound {bits : BitVec size} (h : parseLinearField field written = some bits) :
    ∃ values, field.Denotes Bounded written values ∧ Represents field.minimum bits values := by
  obtain ⟨sets, hp, hfo⟩ := foldlM_sound (R := Adds field.minimum)
    (M := field.Member Bounded) (fun s w s' hs => by
      split at hs
      · cases hs
      · exact parseLinearMember_sound hs) h
  have hl := commaList_of_pieces hp (splitOnP_ne_nil _ _)
  rw [intercalate_splitOn] at hl
  exact ⟨_, ⟨sets, hl, rfl⟩, (folds_adds hfo).represents⟩

theorem parseLinearField_complete (h : field.Denotes Bounded written values) :
    ∃ bits, parseLinearField field written = some bits ∧ Represents field.minimum bits values := by
  obtain ⟨_, hl, rfl⟩ := h
  obtain ⟨bits, hbi, hfo⟩ := foldlM_complete (R := Adds field.minimum)
    (f := fun bits member => if member = [] then none else parseLinearMember field bits member)
    (fun s w S hw => by
      obtain ⟨s', hs', had⟩ := parseLinearMember_complete hw s
      exact ⟨s', by rw [if_neg hw.ne_nil, hs'], had⟩)
    (hl.pieces fun w S hw => hw.inner) (BitVec.ofNat size 0)
  exact ⟨bits, hbi, (folds_adds hfo).represents⟩

theorem parseWeekdayField_sound (h : parseWeekdayField written = some bits) :
    ∃ values, WeekdayDenotes Bounded written values ∧ Represents 0 bits values := by
  unfold parseWeekdayField at h
  split at h
  case h_2 => cases h
  case h_1 read hr =>
    split at h
    · cases h
    rename_i hbo
    cases h
    obtain ⟨parts, hp, hfo⟩ := foldlM_sound
      (M := fun w (part : Set Nat × List Nat) => WeekdayMember Bounded w part.1 part.2)
      (R := WeekdayBits.Adds) (fun s w s' hs => by
        split at hs
        · cases hs
        · exact parseWeekdayMember_sound hs) hr
    have hl := commaList_of_pieces hp (splitOnP_ne_nil _ _)
    rw [intercalate_splitOn] at hl
    obtain ⟨hbi, hze, hse⟩ := folds_weekday hfo
    refine ⟨_, ⟨parts, hl, ?_, rfl⟩, hbi.represents⟩
    rintro ⟨hz, hs⟩
    rw [hze.2 (.inr hz), hse.2 (.inr hs)] at hbo
    exact hbo rfl

theorem parseWeekdayField_complete (h : WeekdayDenotes Bounded written values) :
    ∃ bits, parseWeekdayField written = some bits ∧ Represents 0 bits values := by
  obtain ⟨_, hl, hbo, rfl⟩ := h
  obtain ⟨read, hr, hfo⟩ := foldlM_complete (R := WeekdayBits.Adds)
    (f := fun read member => if member = [] then none else parseWeekdayMember read member)
    (fun s w part hw => by
      obtain ⟨s', hs', had⟩ := parseWeekdayMember_complete hw s
      exact ⟨s', by rw [if_neg hw.ne_nil, hs'], had⟩)
    (hl.pieces fun w part hw => hw.inner) {}
  obtain ⟨hbi, hz, hse⟩ := folds_weekday hfo
  refine ⟨read.bits, ?_, hbi.represents⟩
  unfold parseWeekdayField
  rw [hr]
  dsimp only
  rw [if_neg]
  intro h
  rw [Bool.and_eq_true, hz, hse] at h
  simp only [Bool.false_eq_true, false_or] at h
  exact hbo h

end

end Jobu.Cron
