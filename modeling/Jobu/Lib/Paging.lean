import Mathlib.Data.Finset.Card
import Mathlib.Data.Finset.Filter
import Jobu.Lib.Proc
import Jobu.Lib.Table

/-!
# Visiting a table page by page

`visitPages` reads one keyset page after another and visits every row of it.  The visits may
write the very rows the scan pages over; what makes the scan sound is only that a visit lists no
new key.  The payoff:

  > `visitPages_complete`: when the scan returns, every key still listed is done.
-/

namespace Lib

open List Table

variable {σ ε R K : Type}

/-- Reads a page after the given key, visits its rows in order, and goes on after its last key
until a page is empty.  Each page moves the key up, so fuel above the number of keys is never
used up. -/
def visitPages (read : Option K → Proc σ ε (List R)) (keyOf : R → K)
    (visit : R → Proc σ ε PUnit) (exhausted : ε) : Nat → Option K → Proc σ ε PUnit
  | 0, _ => fail exhausted
  | fuel + 1, after => do
    let page ← read after
    match page.getLast? with
    | none => pure ⟨⟩
    | some last => do
      forM page visit
      visitPages read keyOf visit exhausted fuel (some (keyOf last))

/-- A page is visited row by row; each visit keeps the rows behind it ready. -/
private theorem preserves_page {I : σ → Prop} {Ready : R → σ → Prop} {keyOf : R → K}
    {visit : R → Proc σ ε PUnit} (hv : ∀ s r, I s → Ready r s → I (after (visit r) s))
    (hke : ∀ s r s' u, I s → Ready r s → Yields (visit r) s u s' →
      ∀ r', keyOf r' ≠ keyOf r → Ready r' s → Ready r' s')
    {page : List R} (hn : (page.map keyOf).Nodup) {s : σ} (hI : I s)
    (hre : ∀ r ∈ page, Ready r s) : I (after (forM page visit) s) := by
  induction page generalizing s with
  | nil => exact preserves_pure I PUnit.unit s hI
  | cons r rs ih =>
    rw [forM_cons]
    rw [map_cons, nodup_cons] at hn
    have hr := hre r mem_cons_self
    have h₁ := hv s r hI hr
    rcases after_bind (visit r) (fun _ => forM rs visit) s with ⟨u, s1, hy, he⟩ | he
    · rw [he]
      rw [hy.after_eq] at h₁
      refine ih hn.2 h₁ fun r' hr' => hke s r s1 u hI hr hy r' (fun hk => ?_)
        (hre r' (mem_cons_of_mem r hr'))
      exact hn.1 (hk ▸ mem_map_of_mem hr')
    · rw [he]
      exact h₁

/-- What reads and visits of ready rows keep, the whole scan keeps, also one that is cut off. -/
theorem preserves_visitPages {I : σ → Prop} (Ready : R → σ → Prop)
    {read : Option K → Proc σ ε (List R)} {keyOf : R → K} {visit : R → Proc σ ε PUnit} {exhausted : ε}
    (hr : ∀ pos, Preserves I (read pos)) (hp : ∀ s pos page s', I s → Yields (read pos) s page s' →
      (page.map keyOf).Nodup ∧ ∀ r ∈ page, Ready r s')
    (hv : ∀ s r, I s → Ready r s → I (after (visit r) s))
    (hk : ∀ s r s' u, I s → Ready r s → Yields (visit r) s u s' →
      ∀ r', keyOf r' ≠ keyOf r → Ready r' s → Ready r' s')
    (fuel : Nat) (pos : Option K) : Preserves I (visitPages read keyOf visit exhausted fuel pos) := by
  induction fuel generalizing pos with
  | zero => exact preserves_fail I exhausted
  | succ fuel ih =>
    intro s hI
    unfold visitPages
    have h₁ := hr pos s hI
    rcases after_bind (read pos) _ s with ⟨page, s1, hy, he⟩ | he
    · rw [he]
      rw [hy.after_eq] at h₁
      obtain ⟨hn, hre⟩ := hp s pos page s1 hI hy
      cases hl : page.getLast? with
      | none => exact preserves_pure I PUnit.unit s1 h₁
      | some last =>
        have h₂ := preserves_page hv hk hn h₁ hre
        rcases after_bind (forM page visit)
          (fun _ => visitPages read keyOf visit exhausted fuel (some (keyOf last))) s1 with
          ⟨u, s2, hy2, he2⟩ | he2
        · rw [he2]
          rw [hy2.after_eq] at h₂
          exact ih _ s2 h₂
        · rw [he2]
          exact h₂
    · rw [he]
      exact h₁

/-- What every read and every visit keeps, a scan keeps. -/
theorem preserves_visitPages_all {I : σ → Prop} {read : Option K → Proc σ ε (List R)}
    {keyOf : R → K} {visit : R → Proc σ ε PUnit} {exhausted : ε}
    (hr : ∀ pos, Preserves I (read pos)) (hv : ∀ r, Preserves I (visit r))
    (fuel : Nat) (pos : Option K) : Preserves I (visitPages read keyOf visit exhausted fuel pos) := by
  induction fuel generalizing pos with
  | zero => exact preserves_fail I exhausted
  | succ _ ih =>
    refine preserves_bind (hr pos) fun page => ?_
    cases page.getLast? with
    | none => exact preserves_pure I _
    | some => exact preserves_bind (preserves_forM fun r _ => hv r) fun _ => ih _

variable {u : PUnit}

/-- What every read and every visit does to the state, a scan that returns does. -/
theorem visitPages_rel {P : σ → σ → Prop} (href : ∀ s, P s s)
    (htr : ∀ s1 s2 s3, P s1 s2 → P s2 s3 → P s1 s3) {read : Option K → Proc σ ε (List R)}
    {keyOf : R → K} {visit : R → Proc σ ε PUnit} {exhausted : ε}
    (hre : ∀ s after page s', Yields (read after) s page s' → P s s')
    (hv : ∀ s r s', Yields (visit r) s ⟨⟩ s' → P s s') {fuel : Nat} {after : Option K}
    {s s' : σ} (h : Yields (visitPages read keyOf visit exhausted fuel after) s u s') :
    P s s' := by
  induction fuel generalizing after s with
  | zero => simp [visitPages] at h
  | succ _ ih =>
    unfold visitPages at h
    obtain ⟨page, _, hp, hr⟩ := (yields_bind _ _ _ _ _).1 h
    cases hl : page.getLast? with
    | none =>
      simp only [hl, yields_pure] at hr
      obtain ⟨-, rfl⟩ := hr
      exact hre _ _ _ _ hp
    | some =>
      simp only [hl] at hr
      obtain ⟨⟨⟩, _, h₁, h₂⟩ := (yields_bind _ _ _ _ _).1 hr
      exact htr _ _ _ (hre _ _ _ _ hp)
        (htr _ _ _ (forM_rel href htr (fun r _ s s' => hv s r s') h₁) (ih h₂))

variable [LinearOrder K]

/-- A page of the keys `listed`: increasing, beyond the position, and without a hole. -/
structure PageOf (listed : Finset K) (after : Option K) (page : List K) : Prop where
  sorted : page.Pairwise (· < ·)
  within : ∀ k ∈ page, k ∈ listed ∧ Table.beyond after k = true
  covers : ∀ k ∈ listed, Table.beyond after k = true → k ∈ page ∨ ∃ last, page.getLast? = some last ∧ last < k

/-- The keys of the rows a condition selects. -/
def Table.keys [Keyed R K] (t : Table R) (p : R → Bool) : Finset K :=
  ((t.select p).map Keyed.key).toFinset

theorem Table.mem_keys [Keyed R K] {t : Table R} {p : R → Bool} {k : K} :
    k ∈ t.keys p ↔ ∃ r ∈ t, p r = true ∧ Keyed.key r = k := by
  simp only [keys, mem_toFinset, mem_map, mem_select, and_assoc]

theorem Table.pageOf [Keyed R K] (t : Table R) (p : R → Bool) (after : Option K) {n : Nat}
    (hn : 0 < n) : PageOf (t.keys p) after ((t.page p after n).map Keyed.key) where
  sorted := List.pairwise_map.2 (t.page_sorted p after n)
  within k hk := by
    obtain ⟨r, hr, rfl⟩ := mem_map.1 hk
    obtain ⟨hm, hp, hb⟩ := mem_of_mem_page hr
    exact ⟨mem_toFinset.2 (mem_map_of_mem (mem_select.2 ⟨hm, hp⟩)), hb⟩
  covers k hk hb := by
    obtain ⟨_, hr, rfl⟩ := mem_map.1 (mem_toFinset.1 hk)
    rw [mem_select] at hr
    rcases page_covers hn hr.1 hr.2 hb with h | ⟨last, hl, hlt⟩
    · exact .inl (mem_map_of_mem h)
    · exact .inr ⟨Keyed.key last, by rw [getLast?_map, hl]; rfl, hlt⟩

/-! ## The scan rules -/

section Rules

variable {read : Option K → Proc σ ε (List R)} (keyOf : R → K) {visit : R → Proc σ ε PUnit}
  {exhausted : ε} (listed : σ → Finset K) (I : σ → Prop) (Ready : R → σ → Prop)
  (Done : K → σ → Prop)

/-- What one visit does to the scan: it finishes its own key, unfinishes no other, keeps the
other rows of the page ready, and lists no new key. -/
structure VisitStep (r : R) (s s' : σ) : Prop where
  inv : I s'
  done : Done (keyOf r) s'
  keeps : ∀ k, Done k s → Done k s'
  ready : ∀ r', keyOf r' ≠ keyOf r → Ready r' s → Ready r' s'
  shrinks : listed s' ⊆ listed s

/-- What one read does to the scan: it finds a page of the listed keys, and nothing is lost. -/
structure ReadStep (after : Option K) (page : List R) (s s' : σ) : Prop where
  inv : I s'
  keeps : ∀ k, Done k s → Done k s'
  same : listed s' = listed s
  ready : ∀ r ∈ page, Ready r s'
  found : PageOf (listed s) after (page.map keyOf)

variable {keyOf listed I Ready Done}

private theorem forM_complete
    (hv : ∀ s r s', I s → Ready r s → Yields (visit r) s ⟨⟩ s' → VisitStep keyOf listed I Ready Done r s s')
    {page : List R} (hso : page.Pairwise fun a b => keyOf a < keyOf b) {s s' : σ}
    (hI : I s) (hre : ∀ r ∈ page, Ready r s) (h : Yields (forM page visit) s u s') :
    I s' ∧ listed s' ⊆ listed s ∧ (∀ k, Done k s → Done k s') ∧ ∀ r ∈ page, Done (keyOf r) s' := by
  induction page generalizing s with
  | nil =>
    rw [yields_forM_nil] at h
    subst h
    exact ⟨hI, Finset.Subset.refl _, fun _ hk => hk, fun r hr => absurd hr not_mem_nil⟩
  | cons r rs ih =>
    obtain ⟨s1, h₁, h₂⟩ := (yields_forM_cons visit r rs s s' u).1 h
    rw [pairwise_cons] at hso
    have step := hv s r s1 hI (hre r mem_cons_self) h₁
    have hr1 : ∀ r' ∈ rs, Ready r' s1 := fun r' hr' =>
      step.ready r' (ne_of_gt (hso.1 r' hr')) (hre r' (mem_cons_of_mem r hr'))
    obtain ⟨hI', hsu, hke, hd⟩ := ih hso.2 step.inv hr1 h₂
    refine ⟨hI', hsu.trans step.shrinks, fun k hk => hke k (step.keeps k hk), ?_⟩
    intro r' hr'
    rcases mem_cons.1 hr' with rfl | hr'
    · exact hke _ step.done
    · exact hd r' hr'

private theorem not_beyond_last {listed : Finset K} {after : Option K} {page : List R} {last : R}
    (hp : PageOf listed after (page.map keyOf)) (hla : page.getLast? = some last) {k : K}
    (hk : Table.beyond (some (keyOf last)) k = false) (hm : k ∈ listed) :
    Table.beyond after k = false ∨ ∃ r ∈ page, keyOf r = k := by
  by_contra hn
  rw [not_or] at hn
  rcases hp.covers k hm (by simpa using hn.1) with h | ⟨l, hl, hlt⟩
  · exact hn.2 (mem_map.1 h)
  rw [getLast?_map, hla, Option.map_some] at hl
  injection hl with hl
  subst hl
  simp [beyond, hlt] at hk

/-- **When the scan returns, every key still listed is done.** -/
theorem visitPages_complete (listed : σ → Finset K) (I : σ → Prop) (Ready : R → σ → Prop) (Done : K → σ → Prop)
    (hrea : ∀ s after page s', I s → Yields (read after) s page s' →
      ReadStep keyOf listed I Ready Done after page s s')
    (hv : ∀ s r s', I s → Ready r s → Yields (visit r) s ⟨⟩ s' → VisitStep keyOf listed I Ready Done r s s')
    (fuel : Nat) {after : Option K} {s s' : σ} (hI : I s)
    (hbe : ∀ k ∈ listed s, Table.beyond after k = false → Done k s)
    (h : Yields (visitPages read keyOf visit exhausted fuel after) s u s') :
    I s' ∧ (∀ k, Done k s → Done k s') ∧ listed s' ⊆ listed s ∧ ∀ k ∈ listed s', Done k s' := by
  -- the induction carries: every listed key at or below the position is done
  induction fuel generalizing after s with
  | zero => simp [visitPages] at h
  | succ _ ih =>
    unfold visitPages at h
    obtain ⟨page, s0, hp, hres⟩ := (yields_bind _ _ _ _ _).1 h
    obtain ⟨hI0, hk0, hsa, hre, ho⟩ := hrea s after page s0 hI hp
    cases hla : page.getLast? with
    | none =>
      simp only [hla, yields_pure] at hres
      obtain ⟨-, rfl⟩ := hres
      refine ⟨hI0, hk0, hsa.subset, fun k hk => hk0 k (hbe k (hsa ▸ hk) ?_)⟩
      rw [hsa] at hk
      by_contra hb
      rw [getLast?_eq_none_iff] at hla
      rcases ho.covers k hk (by simpa using hb) with hr | ⟨last, hl, -⟩
      · simp [hla] at hr
      · simp [hla] at hl
    | some last =>
      simp only [hla] at hres
      obtain ⟨⟨⟩, s1, h₁, h₂⟩ := (yields_bind _ _ _ _ _).1 hres
      obtain ⟨hI1, hsu, hke, hd⟩ := forM_complete hv (pairwise_map.1 ho.sorted) hI0 hre h₁
      rw [hsa] at hsu
      have hb1 : ∀ k ∈ listed s1, beyond (some (keyOf last)) k = false → Done k s1 := by
        intro k hk hb
        rcases not_beyond_last ho hla hb (hsu hk) with hb' | ⟨r, hr, rfl⟩
        · exact hke k (hk0 k (hbe k (hsu hk) hb'))
        · exact hd r hr
      obtain ⟨hI', hk', hs', hal⟩ := ih hI1 hb1 h₂
      exact ⟨hI', fun k hk => hk' k (hke k (hk0 k hk)), hs'.trans hsu, hal⟩

end Rules

end Lib
