import Mathlib.Data.List.Basic
import Mathlib.Tactic

/-!
# Exact covers

Rows have columns, and an exact cover of the columns `A` by rows from `R` is a choice of rows that
has each column of `A` in exactly one of them. `exists_exactCover_iff` is the step of the search for
one: choose a column, try each of its rows, and go on without the columns of that row and without
the rows that share one with it.
-/

set_option autoImplicit false

namespace CloudLabs.Foundation

variable {ρ γ : Type} [DecidableEq γ] {cols : ρ → List γ} {A : List γ} {R S : List ρ} {r : ρ}

structure ExactCover (cols : ρ → List γ) (A : List γ) (R S : List ρ) : Prop where
  rows : ∀ r ∈ S, r ∈ R
  covers : ∀ c ∈ A, ∃ r ∈ S, c ∈ cols r
  once : ∀ r ∈ S, ∀ r' ∈ S, ∀ c ∈ A, c ∈ cols r → c ∈ cols r' → r = r'

/-- The columns of `A` that are not among `cs`. -/
def without (A cs : List γ) : List γ := A.filter (· ∉ cs)

/-- The rows of `R` that have no column among `cs`. -/
def clearOf (cols : ρ → List γ) (R : List ρ) (cs : List γ) : List ρ :=
  R.filter fun r => ∀ c ∈ cs, c ∉ cols r

@[simp] theorem mem_without {cs : List γ} {c : γ} : c ∈ without A cs ↔ c ∈ A ∧ c ∉ cs := by
  simp [without]

@[simp] theorem mem_clearOf {cs : List γ} : r ∈ clearOf cols R cs ↔ r ∈ R ∧ ∀ c ∈ cs, c ∉ cols r := by
  simp [clearOf]

@[simp] theorem without_nil : without A [] = A := by simp [without]

@[simp] theorem clearOf_nil : clearOf cols R [] = R := by simp [clearOf]

theorem without_without (cs ds : List γ) : without (without A cs) ds = without A (cs ++ ds) := by
  rw [without, without, without, List.filter_filter]
  apply List.filter_congr
  intro c _
  simp [not_or, Bool.and_comm]

theorem clearOf_clearOf (cs ds : List γ) :
    clearOf cols (clearOf cols R cs) ds = clearOf cols R (cs ++ ds) := by
  rw [clearOf, clearOf, clearOf, List.filter_filter]
  apply List.filter_congr
  intro r _
  simp [or_imp, forall_and, Bool.and_comm]

theorem without_congr {cs ds : List γ} (h : ∀ c, c ∈ cs ↔ c ∈ ds) : without A cs = without A ds := by
  apply List.filter_congr
  intro c _
  simp [h c]

theorem clearOf_congr {cs ds : List γ} (h : ∀ c, c ∈ cs ↔ c ∈ ds) :
    clearOf cols R cs = clearOf cols R ds := by
  apply List.filter_congr
  intro r _
  simp [h]

theorem without_length_lt {cs : List γ} {c : γ} (hc : c ∈ A) (hcs : c ∈ cs) :
    (without A cs).length < A.length := by
  apply List.length_filter_lt_length_iff_exists.mpr
  exact ⟨c, hc, by simpa using hcs⟩

/-- A row and an exact cover of what it leaves. -/
theorem ExactCover.cons (h : ExactCover cols (without A (cols r)) (clearOf cols R (cols r)) S)
    (hr : r ∈ R) : ExactCover cols A R (r :: S) where
  rows := by
    intro r' hr'
    rcases List.mem_cons.mp hr' with rfl | hr'
    · exact hr
    · exact (mem_clearOf.mp (h.rows r' hr')).1
  covers := by
    intro c hc
    by_cases hcr : c ∈ cols r
    · exact ⟨r, List.mem_cons_self, hcr⟩
    · obtain ⟨r', hr', hcr'⟩ := h.covers c (mem_without.mpr ⟨hc, hcr⟩)
      exact ⟨r', List.mem_cons_of_mem _ hr', hcr'⟩
  once := by
    -- The other rows have no column in common with `r`.
    have hapart : ∀ r' ∈ S, ∀ c ∈ cols r, c ∉ cols r' := fun r' hr' =>
      (mem_clearOf.mp (h.rows r' hr')).2
    intro r₁ h₁ r₂ h₂ c hc hc₁ hc₂
    rcases List.mem_cons.mp h₁ with heq₁ | h₁ <;> rcases List.mem_cons.mp h₂ with heq₂ | h₂
    · rw [heq₁, heq₂]
    · exact absurd hc₂ (hapart r₂ h₂ c (heq₁ ▸ hc₁))
    · exact absurd hc₁ (hapart r₁ h₁ c (heq₂ ▸ hc₂))
    · have hcr : c ∉ cols r := fun hcr => hapart r₁ h₁ c hcr hc₁
      exact h.once r₁ h₁ r₂ h₂ c (mem_without.mpr ⟨hc, hcr⟩) hc₁ hc₂

/-- An exact cover without one of its rows covers what this row leaves. -/
theorem ExactCover.erase [DecidableEq ρ] (h : ExactCover cols A R S) (hr : r ∈ S)
    (hclosed : ∀ c ∈ cols r, c ∈ A) :
    ExactCover cols (without A (cols r)) (clearOf cols R (cols r)) (S.filter (· ≠ r)) where
  rows := by
    intro r' hr'
    obtain ⟨hmem, hne⟩ := List.mem_filter.mp hr'
    refine mem_clearOf.mpr ⟨h.rows r' hmem, ?_⟩
    intro c hc hc'
    have heq := h.once r hr r' hmem c (hclosed c hc) hc hc'
    simp [heq] at hne
  covers := by
    intro c hc
    obtain ⟨hcA, hcr⟩ := mem_without.mp hc
    obtain ⟨r', hr', hc'⟩ := h.covers c hcA
    refine ⟨r', List.mem_filter.mpr ⟨hr', ?_⟩, hc'⟩
    have hne : r' ≠ r := by
      rintro rfl
      exact hcr hc'
    simpa using hne
  once := by
    intro r₁ h₁ r₂ h₂ c hc hc₁ hc₂
    exact h.once r₁ (List.mem_filter.mp h₁).1 r₂ (List.mem_filter.mp h₂).1 c (mem_without.mp hc).1
      hc₁ hc₂

/-- To cover a column, one of its rows is chosen. -/
theorem exists_exactCover_iff [DecidableEq ρ] {c : γ} (hc : c ∈ A)
    (hclosed : ∀ r ∈ R, ∀ d ∈ cols r, d ∈ A) :
    (∃ S, ExactCover cols A R S) ↔
      ∃ r ∈ R, c ∈ cols r ∧ ∃ S, ExactCover cols (without A (cols r)) (clearOf cols R (cols r)) S := by
  constructor
  · rintro ⟨S, hS⟩
    obtain ⟨r, hr, hcr⟩ := hS.covers c hc
    exact ⟨r, hS.rows r hr, hcr, _, hS.erase hr (hclosed r (hS.rows r hr))⟩
  · rintro ⟨r, hr, -, S, hS⟩
    exact ⟨r :: S, hS.cons hr⟩

omit [DecidableEq γ] in
/-- With no column left, nothing has to be chosen. -/
theorem exactCover_nil : ExactCover cols [] R [] where
  rows := by
    intro r hr
    cases hr
  covers := by
    intro c hc
    cases hc
  once := by
    intro r hr
    cases hr

/-! ## Other names -/

section Rename

variable {ρ' γ' : Type} {cols' : ρ' → List γ'} {f : ρ → ρ'} {g : γ → γ'}

omit [DecidableEq γ] in
/-- A cover under other names for rows and columns. -/
theorem ExactCover.map (cols' : ρ' → List γ') (f : ρ → ρ') (h : ExactCover cols A R S)
    (hclosed : ∀ r ∈ R, ∀ c ∈ cols r, c ∈ A)
    (hg : ∀ c ∈ A, ∀ d ∈ A, g c = g d → c = d) (hcols : ∀ r ∈ R, cols' (f r) = (cols r).map g) :
    ExactCover cols' (A.map g) (R.map f) (S.map f) where
  rows := by
    intro r' hr'
    obtain ⟨r, hr, rfl⟩ := List.mem_map.mp hr'
    exact List.mem_map_of_mem (h.rows r hr)
  covers := by
    intro c' hc'
    obtain ⟨c, hc, rfl⟩ := List.mem_map.mp hc'
    obtain ⟨r, hr, hcr⟩ := h.covers c hc
    refine ⟨f r, List.mem_map_of_mem hr, ?_⟩
    rw [hcols r (h.rows r hr)]
    exact List.mem_map_of_mem hcr
  once := by
    intro r₁' hr₁ r₂' hr₂ c' hc' hc₁ hc₂
    obtain ⟨r₁, h₁, rfl⟩ := List.mem_map.mp hr₁
    obtain ⟨r₂, h₂, rfl⟩ := List.mem_map.mp hr₂
    obtain ⟨c, hc, rfl⟩ := List.mem_map.mp hc'
    have hback : ∀ r ∈ S, g c ∈ cols' (f r) → c ∈ cols r := by
      intro r hr hmem
      rw [hcols r (h.rows r hr)] at hmem
      obtain ⟨d, hd, heq⟩ := List.mem_map.mp hmem
      have heq := hg d (hclosed r (h.rows r hr) d hd) c hc heq
      exact heq ▸ hd
    rw [h.once r₁ h₁ r₂ h₂ c hc (hback r₁ h₁ hc₁) (hback r₂ h₂ hc₂)]

omit [DecidableEq γ] in
/-- The way back, when the names of the rows are different. -/
theorem ExactCover.of_map [DecidableEq ρ'] {S' : List ρ'}
    (h : ExactCover cols' (A.map g) (R.map f) S') (hf : ∀ r ∈ R, ∀ r' ∈ R, f r = f r' → r = r')
    (hg : ∀ c ∈ A, ∀ d ∈ A, g c = g d → c = d) (hclosed : ∀ r ∈ R, ∀ c ∈ cols r, c ∈ A)
    (hcols : ∀ r ∈ R, cols' (f r) = (cols r).map g) :
    ExactCover cols A R (R.filter (f · ∈ S')) where
  rows := fun r hr => (List.mem_filter.mp hr).1
  covers := by
    intro c hc
    obtain ⟨r', hr', hcr⟩ := h.covers (g c) (List.mem_map_of_mem hc)
    obtain ⟨r, hr, rfl⟩ := List.mem_map.mp (h.rows r' hr')
    rw [hcols r hr] at hcr
    obtain ⟨d, hd, heq⟩ := List.mem_map.mp hcr
    have heq := hg d (hclosed r hr d hd) c hc heq
    exact ⟨r, List.mem_filter.mpr ⟨hr, by simpa using hr'⟩, heq ▸ hd⟩
  once := by
    intro r₁ h₁ r₂ h₂ c hc hc₁ hc₂
    obtain ⟨hr₁, hs₁⟩ := List.mem_filter.mp h₁
    obtain ⟨hr₂, hs₂⟩ := List.mem_filter.mp h₂
    apply hf r₁ hr₁ r₂ hr₂
    apply h.once (f r₁) (by simpa using hs₁) (f r₂) (by simpa using hs₂) (g c) (List.mem_map_of_mem hc)
    · rw [hcols r₁ hr₁]
      exact List.mem_map_of_mem hc₁
    · rw [hcols r₂ hr₂]
      exact List.mem_map_of_mem hc₂

end Rename

end CloudLabs.Foundation
