import Mathlib.Data.List.DropRight

/-!
# Cutting a sequence at its separators

A text is a list of any symbols.

  > `cut mark l`: what is before the first `mark`, and what follows it if there is one.
  > `trim p l`: without the separators at both ends.
  > `words p l`: the runs of other symbols between the separators.

Each comes with the two directions a parser needs: what the text was (`cut_some`, `exists_trim`,
`exists_of_words_cons`), and what comes of a text put together from its parts.
-/

namespace Lib

open List

variable {α : Type} {p : α → Bool} {mark : α} {l a b : List α}

/-! ## At the first mark -/

variable {c : α}

section

variable [DecidableEq α]

def cut (mark : α) (l : List α) : List α × Option (List α) :=
  (l.takeWhile (· ≠ mark), (l.dropWhile (· ≠ mark)).tail?)

theorem cut_of_notMem (h : mark ∉ a) : cut mark a = (a, none) := by
  have hal : ∀ c ∈ a, decide (c ≠ mark) = true := fun c hc => decide_eq_true fun he => h (he ▸ hc)
  rw [cut, takeWhile_eq_self_iff.2 hal, dropWhile_eq_nil_iff.2 hal]
  rfl

theorem cut_append (h : mark ∉ a) : cut mark (a ++ mark :: b) = (a, some b) := by
  have hal : ∀ c ∈ a, decide (c ≠ mark) = true := fun c hc => decide_eq_true fun he => h (he ▸ hc)
  rw [cut, takeWhile_append_of_pos hal, dropWhile_append_of_pos hal]
  simp

theorem cut_cons {rest : Option (List α)} (hc : c ≠ mark) (h : cut mark (c :: l) = (a, rest)) :
    ∃ a', a = c :: a' ∧ cut mark l = (a', rest) := by
  simp only [cut, takeWhile_cons, decide_not, hc, decide_false, Bool.not_false, if_true, Prod.mk.injEq] at h
  exact ⟨_, h.1.symm, by simpa [cut, hc] using h.2⟩

theorem cut_none (h : cut mark l = (a, none)) : l = a ∧ mark ∉ a := by
  induction l generalizing a with
  | nil =>
    obtain rfl : a = [] := by simpa [cut] using h
    exact ⟨rfl, not_mem_nil⟩
  | cons c _ ih =>
    by_cases hc : c = mark
    · simp [cut, hc] at h
    obtain ⟨_, rfl, hr⟩ := cut_cons hc h
    obtain ⟨rfl, hn⟩ := ih hr
    exact ⟨rfl, by simpa [Ne.symm hc] using hn⟩

theorem cut_some (h : cut mark l = (a, some b)) : l = a ++ mark :: b ∧ mark ∉ a := by
  induction l generalizing a with
  | nil => simp [cut] at h
  | cons c l ih =>
    by_cases hc : c = mark
    · obtain ⟨rfl, rfl⟩ : a = [] ∧ b = l := by simpa [cut, hc, eq_comm] using h
      exact ⟨by rw [hc]; rfl, not_mem_nil⟩
    obtain ⟨_, rfl, hr⟩ := cut_cons hc h
    obtain ⟨rfl, hn⟩ := ih hr
    exact ⟨rfl, by simpa [Ne.symm hc] using hn⟩

end

/-! ## At both ends -/

/-- Only separators. -/
def Blank (p : α → Bool) (l : List α) : Prop := ∀ c ∈ l, p c = true

theorem Blank.append (ha : Blank p a) (hb : Blank p b) : Blank p (a ++ b) := by
  intro c hc
  exact (mem_append.1 hc).elim (ha c) (hb c)

def trim (p : α → Bool) (l : List α) : List α := (l.dropWhile p).rdropWhile p

theorem exists_trim (p : α → Bool) (l : List α) :
    ∃ lead trail, l = lead ++ trim p l ++ trail ∧ Blank p lead ∧ Blank p trail := by
  refine ⟨l.takeWhile p, (l.dropWhile p).rtakeWhile p, ?_, fun c hc => mem_takeWhile_imp hc,
    fun c hc => mem_rtakeWhile_imp hc⟩
  rw [append_assoc, trim, rdropWhile_append_rtakeWhile, takeWhile_append_dropWhile]

/-- **Of a text that neither begins nor ends with a separator, trimming leaves all.** -/
theorem trim_append {lead body trail : List α} (hl : Blank p lead) (htr : Blank p trail)
    (hso : body ≠ []) (hfi : ∀ c, body.head? = some c → p c = false)
    (hla : ∀ c, body.getLast? = some c → p c = false) : trim p (lead ++ body ++ trail) = body := by
  obtain ⟨c, rest, rfl⟩ := exists_cons_of_ne_nil hso
  have hfr : (lead ++ (c :: rest) ++ trail).dropWhile p = c :: rest ++ trail := by
    rw [append_assoc, dropWhile_append_of_pos hl, cons_append, dropWhile_cons_of_neg (by simp [hfi c rfl])]
  rw [trim, hfr, rdropWhile, reverse_append, dropWhile_append_of_pos fun d hd => htr d (mem_reverse.1 hd)]
  have hba : (c :: rest).reverse.dropWhile p = (c :: rest).reverse := by
    cases hr : (c :: rest).reverse with
    | nil => rfl
    | cons d =>
      have hd : p d = false := hla d (by rw [← head?_reverse, hr]; rfl)
      exact dropWhile_cons_of_neg (by simp [hd])
  rw [hba, reverse_reverse]

/-! ## Words -/

def words (p : α → Bool) (l : List α) : List (List α) := (l.splitOnP p).filter fun w => !w.isEmpty

theorem words_cons_of_pos (hc : p c = true) : words p (c :: l) = words p l := by
  rw [words, splitOnP_cons_eq_if_modifyHead, if_pos hc]
  rfl

theorem words_blank_append (h : Blank p a) : words p (a ++ b) = words p b := by
  induction a with
  | nil => rfl
  | cons c _ ih =>
    rw [cons_append, words_cons_of_pos (h c mem_cons_self)]
    exact ih fun d hd => h d (mem_cons_of_mem _ hd)

theorem words_append_cons (hc : p c = true) : words p (a ++ c :: b) = words p a ++ words p b := by
  rw [words, splitOnP_append_cons a b hc, filter_append]
  rfl

theorem words_blank (h : Blank p a) : words p a = [] := by
  have := words_blank_append (b := []) h
  rwa [append_nil] at this

theorem words_of_plain (hso : a ≠ []) (h : ∀ c ∈ a, p c = false) : words p a = [a] := by
  rw [words, splitOnP_eq_singleton h]
  simp [hso]

/-- **A word, a separator and the rest.** -/
theorem words_word_append (hso : a ≠ []) (h : ∀ c ∈ a, p c = false) {gap : List α}
    (hg : gap ≠ []) (hbl : Blank p gap) : words p (a ++ gap ++ b) = a :: words p b := by
  obtain ⟨c, _, rfl⟩ := exists_cons_of_ne_nil hg
  rw [append_assoc, cons_append, words_append_cons (hbl c mem_cons_self),
    words_of_plain hso h, words_blank_append fun d hd => hbl d (mem_cons_of_mem _ hd)]
  rfl

theorem blank_of_words_nil (h : words p l = []) : Blank p l := by
  induction l with
  | nil => exact fun c hc => absurd hc not_mem_nil
  | cons c l ih =>
    cases hc : p c with
    | true =>
      rw [words_cons_of_pos hc] at h
      intro d hd
      rcases mem_cons.1 hd with rfl | hd
      · exact hc
      · exact ih h d hd
    | false =>
      obtain ⟨_, _, hw⟩ := exists_cons_of_ne_nil (splitOnP_ne_nil p l)
      rw [words, splitOnP_cons_eq_if_modifyHead, hc, hw] at h
      simp at h

variable {ws : List (List α)} {w : List α}

/-- **Where the first word of a text is:** behind separators, and before a separator or the end. -/
theorem exists_of_words_cons (h : words p l = w :: ws) :
    ∃ lead rest, l = lead ++ w ++ rest ∧ Blank p lead ∧ w ≠ [] ∧ (∀ c ∈ w, p c = false) ∧
      (rest = [] ∨ ∃ c tail, rest = c :: tail ∧ p c = true) ∧ words p rest = ws := by
  -- the separators in front go to `lead`; the word is what is taken next
  let rest := (l.dropWhile p).dropWhile fun c => !p c
  let word := (l.dropWhile p).takeWhile fun c => !p c
  have hl : l = l.takeWhile p ++ (word ++ rest) := by
    rw [takeWhile_append_dropWhile, takeWhile_append_dropWhile]
  have hlea : Blank p (l.takeWhile p) := fun c hc => mem_takeWhile_imp hc
  have hp : ∀ c ∈ word, p c = false := by
    intro c hc
    simpa using mem_takeWhile_imp hc
  have hre : rest = [] ∨ ∃ c tail, rest = c :: tail ∧ p c = true := by
    cases hr : rest with
    | nil => exact .inl rfl
    | cons c tail =>
      refine .inr ⟨c, tail, rfl, ?_⟩
      have hn := head?_dropWhile_not (fun c => !p c) (l.dropWhile p)
      have hr' : (l.dropWhile p).dropWhile (fun c => !p c) = c :: tail := hr
      rw [hr'] at hn
      simpa using hn
  have hwo : word ≠ [] := by
    intro hni
    have hal : Blank p l := by
      rw [hl, hni, nil_append]
      refine hlea.append ?_
      rcases hre with hr | ⟨c, tail, hr, hc⟩
      · rw [hr]
        exact fun c hc => absurd hc not_mem_nil
      -- the text behind the separators would begin with one
      have hn := head?_dropWhile_not p l
      have hd : l.dropWhile p = c :: tail := by
        have := takeWhile_append_dropWhile (p := fun c => !p c) (l := l.dropWhile p)
        rw [show (l.dropWhile p).takeWhile (fun c => !p c) = [] from hni, nil_append] at this
        exact this.symm.trans hr
      rw [hd] at hn
      simp [hc] at hn
    rw [words_blank hal] at h
    cases h
  have hw : words p l = word :: words p rest := by
    rw [hl, words_blank_append hlea]
    rcases hre with hr | ⟨c, _, hr, hc⟩
    · rw [hr, append_nil, words_of_plain hwo hp]
      rfl
    · rw [hr, words_append_cons hc, words_of_plain hwo hp, words_cons_of_pos hc]
      rfl
  rw [hw] at h
  obtain ⟨rfl, rfl⟩ := cons.inj h
  exact ⟨_, rest, by rw [append_assoc]; exact hl, hlea, hwo, hp, hre, rfl⟩

/-- Where the next word is, if a word was before: there is a separator between them. -/
theorem exists_of_words_cons_after (hst : l = [] ∨ ∃ c tail, l = c :: tail ∧ p c = true) (h : words p l = w :: ws) :
    ∃ gap rest, l = gap ++ w ++ rest ∧ gap ≠ [] ∧ Blank p gap ∧
      (rest = [] ∨ ∃ c tail, rest = c :: tail ∧ p c = true) ∧ words p rest = ws := by
  obtain ⟨gap, rest, hl, hbl, hso, hp, hr, hw⟩ := exists_of_words_cons h
  refine ⟨gap, rest, hl, ?_, hbl, hr, hw⟩
  rintro rfl
  obtain ⟨d, _, rfl⟩ := exists_cons_of_ne_nil hso
  rcases hst with rfl | ⟨c, _, rfl, hc⟩
  · simp at hl
  obtain rfl : c = d := (cons.inj hl).1
  have := hp c mem_cons_self
  simp [hc] at this

end Lib
