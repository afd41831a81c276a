import Jobu.Cron.Parsing

/-!
# The parser accepts the documented grammar

`parseCronExpression_exact`: an expression is accepted exactly if it is in the grammar of `docs/cron.md`
with steps that fit an `unsigned`, and the bit sets then have exactly the values that the fields denote.
Without the bound on steps it fails (`parseCronExpression_large_step`).
-/

namespace Jobu.Cron

open List Option

open Rpc (Bytes byte text)
open Lib (Blank words trim)

/-! ## Five fields -/

theorem Inner.not_separator {c : UInt8} (h : Inner c ∨ c = byte ',') : isFieldSeparator c = false := by
  cases hc : isFieldSeparator c with
  | false => rfl
  | true =>
    rw [isFieldSeparator, Bool.or_eq_true, beq_iff_eq, beq_iff_eq] at hc
    rcases hc with rfl | rfl
    · exact absurd h (by unfold Inner; decide)
    · exact absurd h (by unfold Inner; decide)

variable {w : Bytes}

theorem CommaList.inner {β : Type} {M : Bytes → β → Prop} (hi : ∀ w d, M w d → ∀ c ∈ w, Inner c)
    {ds : List β} (h : CommaList M w ds) : ∀ c ∈ w, Inner c ∨ c = byte ',' := by
  induction h with
  | one h => exact fun c hc => Or.inl (hi _ _ h c hc)
  | cons h _ ih =>
    intro c hc
    rw [mem_append, mem_append] at hc
    rcases hc with (hc | hc) | hc
    · exact .inl (hi _ _ h c hc)
    · exact .inr (mem_singleton.1 hc)
    · exact ih c hc

theorem CommaList.ne_nil {β : Type} {M : Bytes → β → Prop} (hso : ∀ w d, M w d → w ≠ [])
    {ds : List β} (h : CommaList M w ds) : w ≠ [] := by
  cases h with
  | one h => exact hso _ _ h
  | cons h =>
    intro hn
    exact hso _ _ h (append_eq_nil_iff.1 (append_eq_nil_iff.1 hn).1).1

/-- A word of an expression: not empty, and without separators. -/
structure Word (w : Bytes) : Prop where
  some : w ≠ []
  plain : ∀ c ∈ w, isFieldSeparator c = false

variable {values : Set Nat}

theorem LinearField.Denotes.word {size : Nat} {field : LinearField size} {Step : Nat → Prop}
    (h : field.Denotes Step w values) : Word w := by
  obtain ⟨_, hl, -⟩ := h
  exact ⟨hl.ne_nil fun w d hw => hw.ne_nil,
    fun c hc => Inner.not_separator (hl.inner (fun w d hw => hw.inner) c hc)⟩

theorem WeekdayDenotes.word {Step : Nat → Prop} (h : WeekdayDenotes Step w values) : Word w := by
  obtain ⟨_, hl, -, -⟩ := h
  exact ⟨hl.ne_nil fun w d hw => hw.ne_nil,
    fun c hc => Inner.not_separator (hl.inner (fun w d hw => hw.inner) c hc)⟩

section

variable {Step : Nat → Prop} {core : Bytes} {schedule : Schedule}

theorem FiveFields.words (h : FiveFields Step core schedule) : ∃ minute hour day month weekday,
    words isFieldSeparator core = [minute, hour, day, month, weekday] ∧
    minuteField.Denotes Step minute schedule.minutes ∧ hourField.Denotes Step hour schedule.hours ∧
    dayField.Denotes Step day schedule.daysOfMonth ∧ monthField.Denotes Step month schedule.months ∧
    WeekdayDenotes Step weekday schedule.daysOfWeek := by
  cases h with
  | @mk minute hour day month weekday _ _ _ _ _ hminute h₁ hhour h₂ hday h₃ hmonth h₄ hweekday =>
    refine ⟨minute, hour, day, month, weekday, ?_, hminute, hhour, hday, hmonth, hweekday⟩
    rw [Lib.words_word_append hminute.word.some hminute.word.plain h₁.1 h₁.2,
      Lib.words_word_append hhour.word.some hhour.word.plain h₂.1 h₂.2,
      Lib.words_word_append hday.word.some hday.word.plain h₃.1 h₃.2,
      Lib.words_word_append hmonth.word.some hmonth.word.plain h₄.1 h₄.2,
      Lib.words_of_plain hweekday.word.some hweekday.word.plain]

/-- Five fields are left as they are when the separators around them go. -/
theorem FiveFields.trim (h : FiveFields Step core schedule) {lead trail : Bytes}
    (hl : Blank isFieldSeparator lead) (htr : Blank isFieldSeparator trail) :
    trim isFieldSeparator (lead ++ core ++ trail) = core := by
  cases h with
  | @mk minute hour day month weekday _ _ _ _ _ hminute _ _ _ _ _ _ _ hweekday =>
    obtain ⟨c, _, rfl⟩ := exists_cons_of_ne_nil hminute.word.some
    refine Lib.trim_append hl htr (cons_ne_nil _ _) ?_ ?_
    · intro d hd
      obtain rfl : c = d := Option.some.inj hd
      exact hminute.word.plain c mem_cons_self
    intro d hd
    have he := getLast?_eq_some_getLast hweekday.word.some
    simp only [getLast?_append, he, some_or] at hd
    cases hd
    exact hweekday.word.plain _ (getLast_mem _)

/-- The five bit sets together; days and months are counted from one. -/
theorem Represents.holds {minutes : BitVec 60} {hours : BitVec 24} {days : BitVec 31} {months : BitVec 12}
    {weekdays : BitVec 7} (hm : Represents minuteField.minimum minutes schedule.minutes)
    (hh : Represents hourField.minimum hours schedule.hours)
    (hd : Represents dayField.minimum days schedule.daysOfMonth)
    (hmo : Represents monthField.minimum months schedule.months) (hw : Represents 0 weekdays schedule.daysOfWeek) :
    CronExpression.Holds ⟨minutes, hours, days, months, weekdays⟩ schedule where
  minutes v hv := by simpa only [minuteField, Nat.zero_add] using hm v hv
  hours v hv := by simpa only [hourField, Nat.zero_add] using hh v hv
  daysOfMonth v h1 hv := by
    have := hd (v - 1) (by omega)
    rwa [show dayField.minimum = 1 from rfl, Nat.add_sub_cancel' h1] at this
  months v h1 hv := by
    have := hmo (v - 1) (by omega)
    rwa [show monthField.minimum = 1 from rfl, Nat.add_sub_cancel' h1] at this
  daysOfWeek v hv := by simpa only [Nat.zero_add] using hw v hv

theorem parseFields_complete (h : FiveFields Bounded core schedule) :
    ∃ expression, parseFields core = some expression ∧ expression.Holds schedule := by
  obtain ⟨_, _, _, _, _, hwo, hminute, hhour, hday, hmonth, hweekday⟩ := h.words
  obtain ⟨minutes, hmi, hm⟩ := parseLinearField_complete hminute
  obtain ⟨hours, hho, hh⟩ := parseLinearField_complete hhour
  obtain ⟨days, hda, hd⟩ := parseLinearField_complete hday
  obtain ⟨months, hmon, hmo⟩ := parseLinearField_complete hmonth
  obtain ⟨weekdays, hwe, hw⟩ := parseWeekdayField_complete hweekday
  refine ⟨⟨minutes, hours, days, months, weekdays⟩, ?_, ?_⟩
  · rw [parseFields, hwo]
    simp only [hmi, hho, hda, hmon, hwe]
    rfl
  · exact Represents.holds hm hh hd hmo hw

theorem parseFields_sound {written : Bytes} {expression : CronExpression} (h : parseFields written = some expression) :
    ∃ lead core trail schedule, written = lead ++ core ++ trail ∧ Blank isFieldSeparator lead ∧
      Blank isFieldSeparator trail ∧ FiveFields Bounded core schedule ∧ expression.Holds schedule := by
  unfold parseFields at h
  split at h
  case h_2 => cases h
  case h_1 minute hour day month weekday hwo =>
    obtain ⟨_, hmi, h⟩ := bind_eq_some_iff.1 h
    obtain ⟨_, hho, h⟩ := bind_eq_some_iff.1 h
    obtain ⟨_, hda, h⟩ := bind_eq_some_iff.1 h
    obtain ⟨_, hmon, h⟩ := bind_eq_some_iff.1 h
    obtain ⟨_, hwe, h⟩ := bind_eq_some_iff.1 h
    cases h
    obtain ⟨m, hm, hm'⟩ := parseLinearField_sound hmi
    obtain ⟨hr, hh, hh'⟩ := parseLinearField_sound hho
    obtain ⟨d, hd, hd'⟩ := parseLinearField_sound hda
    obtain ⟨mo, hmo, hmo'⟩ := parseLinearField_sound hmon
    obtain ⟨w, hw, hw'⟩ := parseWeekdayField_sound hwe
    -- the words lie one behind the other in the text, with separators between them
    obtain ⟨lead, _, rfl, hl, -, -, hst, h₁⟩ := Lib.exists_of_words_cons hwo
    obtain ⟨_, _, rfl, hn1, hg1, hst, h₂⟩ := Lib.exists_of_words_cons_after hst h₁
    obtain ⟨_, _, rfl, hn2, hg2, hst, h₃⟩ := Lib.exists_of_words_cons_after hst h₂
    obtain ⟨_, _, rfl, hn3, hg3, hst, h₄⟩ := Lib.exists_of_words_cons_after hst h₃
    obtain ⟨_, trail, rfl, hn4, hg4, -, h5⟩ := Lib.exists_of_words_cons_after hst h₄
    have hfi : FiveFields Bounded _ ⟨m, hr, d, mo, w⟩ :=
      .mk hm ⟨hn1, hg1⟩ hh ⟨hn2, hg2⟩ hd ⟨hn3, hg3⟩ hmo ⟨hn4, hg4⟩ hw
    exact ⟨lead, _, trail, _, by simp only [append_assoc], hl, Lib.blank_of_words_nil h5, hfi,
      Represents.holds hm' hh' hd' hmo' hw'⟩

end

/-! ## Expressions -/

variable {expansion : Bytes}

section

variable {core : Bytes} (h : (core, expansion) ∈ aliases)

include h

theorem words_alias : words isFieldSeparator core = [core] := by
  have hal : ∀ entry ∈ aliases, words isFieldSeparator entry.1 = [entry.1] := by decide +kernel
  exact hal _ h

theorem lookup_alias : expandedAlias core = expansion := by
  have hal : ∀ entry ∈ aliases, expandedAlias entry.1 = entry.2 := by decide +kernel
  exact hal _ h

theorem trim_expansion : trim isFieldSeparator expansion = expansion := by
  have hal : ∀ entry ∈ aliases, trim isFieldSeparator entry.2 = entry.2 := by decide +kernel
  exact hal _ h

theorem trim_alias {lead trail : Bytes} (hl : Blank isFieldSeparator lead) (htr : Blank isFieldSeparator trail) :
    trim isFieldSeparator (lead ++ core ++ trail) = core := by
  have hal : ∀ entry ∈ aliases, entry.1 ≠ [] ∧ ∀ c ∈ entry.1, isFieldSeparator c = false := by decide +kernel
  obtain ⟨hso, hp⟩ := hal _ h
  exact Lib.trim_append hl htr hso (fun c hc => hp c (mem_of_head? hc))
    fun c hc => hp c (mem_of_getLast? hc)

end

/-- An alias is looked up, and every other text stays. -/
theorem expandedAlias_cases (core : Bytes) : (core, expandedAlias core) ∈ aliases ∨
    (expandedAlias core = core ∧ ∀ expansion, (core, expansion) ∉ aliases) := by
  unfold expandedAlias
  cases hl : aliases.lookup core with
  | some =>
    left
    obtain ⟨_, _, hsp, -⟩ := lookup_eq_some_iff.1 hl
    rw [hsp]
    exact mem_append_right _ mem_cons_self
  | none =>
    refine .inr ⟨rfl, fun expansion hm => ?_⟩
    have := lookup_eq_none_iff.1 hl _ hm
    simp at this

variable {expression : Bytes} {parsed : CronExpression}

theorem parse_core (h : parseFields (expandedAlias (trim isFieldSeparator expression)) = some parsed) :
    ∃ schedule, (∃ lead core trail, expression = lead ++ core ++ trail ∧
      Blank isFieldSeparator lead ∧ Blank isFieldSeparator trail ∧ (FiveFields Bounded core schedule ∨
        ∃ expansion, (core, expansion) ∈ aliases ∧ FiveFields Bounded expansion schedule)) ∧ parsed.Holds schedule := by
  obtain ⟨lead, core, trail, schedule, hw, hl, htr, hfi, hh⟩ := parseFields_sound h
  obtain ⟨lead', trail', he, hl', ht'⟩ := Lib.exists_trim isFieldSeparator expression
  refine ⟨schedule, ?_, hh⟩
  rcases expandedAlias_cases (trim isFieldSeparator expression) with hal | ⟨hsa, -⟩
  · -- no separator is around the five fields of an expansion
    have hc := hfi.trim hl htr
    rw [← hw, trim_expansion hal] at hc
    refine ⟨lead', _, trail', he, hl', ht', .inr ⟨_, hal, ?_⟩⟩
    rw [hc]
    exact hfi
  rw [hsa] at hw
  refine ⟨lead' ++ lead, core, trail ++ trail', ?_, hl'.append hl, htr.append ht', Or.inl hfi⟩
  rw [he, hw]
  simp only [append_assoc]

theorem parseCronExpression_sound (h : parseCronExpression expression = .ok parsed) :
    ∃ schedule, Written Bounded expression schedule ∧ parsed.Holds schedule := by
  unfold parseCronExpression at h
  split at h
  · cases h
  rename_i hby
  rw [not_or, Nat.not_lt] at hby
  split at h
  case h_2 => cases h
  case h_1 hp =>
    cases h
    obtain ⟨schedule, hbo, hh⟩ := parse_core hp
    exact ⟨schedule, ⟨hby.1, hby.2, hbo⟩, hh⟩

theorem parseCronExpression_complete {schedule : Schedule} (h : Written Bounded expression schedule) :
    ∃ parsed, parseCronExpression expression = .ok parsed ∧ parsed.Holds schedule := by
  obtain ⟨hsh, hn, _, core, _, rfl, hl, htr, hbo⟩ := h
  unfold parseCronExpression
  rw [if_neg (by rw [not_or, Nat.not_lt]; exact ⟨hsh, hn⟩)]
  rcases hbo with hfi | ⟨_, hal, hfi⟩
  · obtain ⟨parsed, hp, hh⟩ := parseFields_complete hfi
    have hsa : expandedAlias core = core := by
      rcases expandedAlias_cases core with hal | ⟨hsa, -⟩
      · obtain ⟨_, _, _, _, _, hw, -⟩ := hfi.words
        rw [words_alias hal] at hw
        cases hw
      · exact hsa
    rw [hfi.trim hl htr, hsa, hp]
    exact ⟨parsed, rfl, hh⟩
  · obtain ⟨parsed, hp, hh⟩ := parseFields_complete hfi
    rw [trim_alias hal hl htr, lookup_alias hal, hp]
    exact ⟨parsed, rfl, hh⟩

/-- **The accepted expressions are those of the grammar with steps below 2^32, and the bit sets have
exactly the values that the fields denote.** -/
theorem parseCronExpression_exact (expression : Bytes) : ((∃ parsed, parseCronExpression expression = .ok parsed) ↔
      ∃ schedule, Written Bounded expression schedule) ∧
      ∀ parsed schedule, parseCronExpression expression = .ok parsed →
        Written Bounded expression schedule → parsed.Holds schedule := by
  refine ⟨⟨?_, ?_⟩, ?_⟩
  · rintro ⟨parsed, h⟩
    obtain ⟨schedule, hwr, -⟩ := parseCronExpression_sound h
    exact ⟨schedule, hwr⟩
  · rintro ⟨schedule, hwr⟩
    obtain ⟨parsed, h, -⟩ := parseCronExpression_complete hwr
    exact ⟨parsed, h⟩
  · intro parsed schedule h hwr
    obtain ⟨parsed', h', hho⟩ := parseCronExpression_complete hwr
    obtain rfl := Except.ok.inj (h.symm.trans h')
    exact hho

/-- The step of `*/4294967296 * * * *` is in the documented grammar, but not an `unsigned`. -/
theorem parseCronExpression_large_step : (∃ schedule, Written Positive (text "*/4294967296 * * * *") schedule) ∧
    parseCronExpression (text "*/4294967296 * * * *") = .error invalidExpression := by
  have hnu : Numeral (text "4294967296") 4294967296 := ⟨by decide, by decide +kernel, by decide +kernel⟩
  have hpo : Positive 4294967296 := by
    unfold Positive
    decide
  have hg : Gap (text " ") := ⟨by decide, by unfold Blank; decide +kernel⟩
  have hminute : minuteField.Denotes Positive (text "*/" ++ text "4294967296") _ :=
    ⟨[_], .one (.everyStep hnu hpo), rfl⟩
  have hhour : hourField.Denotes Positive (text "*") _ := ⟨[_], .one .every, rfl⟩
  have hday : dayField.Denotes Positive (text "*") _ := ⟨[_], .one .every, rfl⟩
  have hmonth : monthField.Denotes Positive (text "*") _ := ⟨[_], .one .every, rfl⟩
  have hweekday : WeekdayDenotes Positive (text "*") _ := ⟨[({d | d < 7}, [])], .one .every, by simp, rfl⟩
  have hwr : text "*/4294967296 * * * *" =
    [] ++ (text "*/" ++ text "4294967296" ++ text " " ++ (text "*" ++ text " " ++
      (text "*" ++ text " " ++ (text "*" ++ text " " ++ text "*")))) ++ [] := by decide +kernel
  have hn : Blank isFieldSeparator [] := fun c hc => absurd hc not_mem_nil
  refine ⟨⟨⟨_, _, _, _, _⟩, by decide +kernel, by decide +kernel, [], _, [], hwr, hn, hn,
    Or.inl (.mk hminute hg hhour hg hday hg hmonth hg hweekday)⟩, by decide +kernel⟩

end Jobu.Cron
