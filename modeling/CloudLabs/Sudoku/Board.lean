import CloudLabs.Foundation.ExactCover
import CloudLabs.Sudoku.Dance

/-!
# Completions of a board

`Completes` is the purpose of the solver: every given stays, and each digit stands exactly once in
each row, column and box. `completes_of_cover` and `cover_of_completes` are the reduction that the
constructor makes: an exact cover of the columns it names by the choices it makes rows of is a
completion, and every completion gives such a cover.

Givens that conflict are not checked. A digit that is given twice in a row leaves more open cells in
it than missing digits, so that no choice covers both; this is the counting in `once_of_some`.
-/

set_option autoImplicit false

namespace CloudLabs.Sudoku

open CloudLabs.Foundation
open Dance

/-- The units of the board: the rows, the columns and the boxes. -/
inductive Kind where
  | row
  | col
  | box

namespace Kind

/-- The unit of a cell. -/
def of : Kind → Nat → Nat
  | row, i => i / 9
  | col, i => i % 9
  | box, i => boxOf i

/-- The name of the column for a value in a unit. -/
def name : Kind → Nat → Nat → Nat
  | row => getRowCol
  | col => getColCol
  | box => getBoxCol

def has : Kind → (Nat → Nat) → Nat → Nat → Bool
  | row => hasRow
  | col => hasCol
  | box => hasBox

variable {kind kind' : Kind} {g : Nat → Nat} {i u u' v v' : Nat}

theorem of_lt (kind : Kind) (hi : i < 81) : kind.of i < 9 := by
  cases kind with
  | row => show i / 9 < 9; omega
  | col => show i % 9 < 9; omega
  | box => show i / 9 / 3 * 3 + i % 9 / 3 < 9; omega

theorem name_ge (kind : Kind) (u v : Nat) : 100 ≤ kind.name u v := by
  cases kind with
  | row => show 100 ≤ 100 + u * 10 + v; omega
  | col => show 100 ≤ 200 + u * 10 + v; omega
  | box => show 100 ≤ 300 + u * 10 + v; omega

theorem name_mod (kind : Kind) (u : Nat) (hv : v ≤ 9) : kind.name u v % 10 = v := by
  cases kind with
  | row => show (100 + u * 10 + v) % 10 = v; omega
  | col => show (200 + u * 10 + v) % 10 = v; omega
  | box => show (300 + u * 10 + v) % 10 = v; omega

/-- A name determines the unit and the value. -/
theorem name_inj (hu : u < 9) (hu' : u' < 9) (hv : v ≤ 9) (hv' : v' ≤ 9)
    (h : kind.name u v = kind'.name u' v') : kind = kind' ∧ u = u' ∧ v = v' := by
  cases kind <;> cases kind' <;>
    simp only [name, getRowCol, getColCol, getBoxCol, reduceCtorEq, false_and, true_and] at h ⊢ <;>
    omega

theorem has_eq_true : kind.has g u v = true ↔ ∃ i < 81, kind.of i = u ∧ g i = v := by
  cases kind <;> simp [has, of, hasRow, hasCol, hasBox]

theorem has_eq_false : kind.has g u v = false ↔ ∀ i < 81, kind.of i = u → g i ≠ v := by
  rw [← Bool.not_eq_true, has_eq_true]
  simp

/-- A unit has nine cells. -/
theorem card_unit (kind : Kind) : ∀ u < 9, ((Finset.range 81).filter (kind.of · = u)).card = 9 := by
  cases kind <;> decide +kernel

end Kind

/-- The givens are kept, and each digit stands once in each row, column and box. -/
structure Completes (given full : Nat → Nat) : Prop where
  digit : ∀ i < 81, 1 ≤ full i ∧ full i ≤ 9
  keeps : ∀ i < 81, given i ≠ 0 → full i = given i
  once : ∀ kind : Kind, ∀ u < 9, ∀ v, 1 ≤ v → v ≤ 9 →
    ∃! i, i < 81 ∧ kind.of i = u ∧ full i = v

/-- The names of the columns of a choice. -/
def choiceNames (choice : Nat × Nat) : List Nat :=
  [choice.1, getRowCol (choice.1 / 9) choice.2, getColCol (choice.1 % 9) choice.2,
    getBoxCol (boxOf choice.1) choice.2]

/-- The board with the choices entered, one after the other. -/
def chosen (choices : List (Nat × Nat)) (inout : Nat → Nat) : Nat → Nat :=
  choices.foldl (fun inout choice => Function.update inout choice.1 choice.2) inout

section Names

variable {g : Nat → Nat} {n : Nat} {choice : Nat × Nat}

/-! ## Columns and rows -/

theorem mem_columnNames : n ∈ columnNames g ↔ (n < 81 ∧ g n = 0) ∨
    ∃ kind : Kind, ∃ u < 9, ∃ v, 1 ≤ v ∧ v ≤ 9 ∧ kind.has g u v = false ∧ n = kind.name u v := by
  have hrange : ∀ v, v ∈ List.range' 1 9 ↔ 1 ≤ v ∧ v ≤ 9 := by
    intro v
    rw [List.mem_range'_1]
    omega
  rw [columnNames, List.mem_append, List.mem_filter, List.mem_range, decide_eq_true_iff]
  apply or_congr Iff.rfl
  constructor
  · intro h
    obtain ⟨u, hu, h⟩ := List.mem_flatMap.mp h
    obtain ⟨v, hv, h⟩ := List.mem_flatMap.mp h
    have hu := List.mem_range.mp hu
    obtain ⟨hv₁, hv₉⟩ := (hrange v).mp hv
    rcases List.mem_append.mp h with h | h
    · rcases List.mem_append.mp h with h | h
      · refine ⟨.row, u, hu, v, hv₁, hv₉, ?_⟩
        cases hhas : hasRow g u v <;> simp [hhas] at h
        exact ⟨hhas, h⟩
      · refine ⟨.col, u, hu, v, hv₁, hv₉, ?_⟩
        cases hhas : hasCol g u v <;> simp [hhas] at h
        exact ⟨hhas, h⟩
    · refine ⟨.box, u, hu, v, hv₁, hv₉, ?_⟩
      cases hhas : hasBox g u v <;> simp [hhas] at h
      exact ⟨hhas, h⟩
  · rintro ⟨kind, u, hu, v, hv₁, hv₉, hhas, rfl⟩
    refine List.mem_flatMap.mpr ⟨u, List.mem_range.mpr hu, ?_⟩
    refine List.mem_flatMap.mpr ⟨v, (hrange v).mpr ⟨hv₁, hv₉⟩, ?_⟩
    cases kind with
    | row =>
      have hhas : hasRow g u v = false := hhas
      simp [hhas, Kind.name]
    | col =>
      have hhas : hasCol g u v = false := hhas
      simp [hhas, Kind.name]
    | box =>
      have hhas : hasBox g u v = false := hhas
      simp [hhas, Kind.name]

theorem mem_choices : choice ∈ choices g ↔ choice.1 < 81 ∧ g choice.1 = 0 ∧ 1 ≤ choice.2 ∧
    choice.2 ≤ 9 ∧ ∀ kind : Kind, kind.has g (kind.of choice.1) choice.2 = false := by
  obtain ⟨i, v⟩ := choice
  have hkinds : (∀ kind : Kind, kind.has g (kind.of i) v = false) ↔
      hasRow g (i / 9) v = false ∧ hasCol g (i % 9) v = false ∧ hasBox g (boxOf i) v = false := by
    constructor
    · intro h
      exact ⟨h .row, h .col, h .box⟩
    · rintro ⟨hrow, hcol, hbox⟩ kind
      cases kind with
      | row => exact hrow
      | col => exact hcol
      | box => exact hbox
  simp only [hkinds, choices, List.mem_flatMap, List.mem_map, List.mem_filter, List.mem_range,
    List.mem_range'_1, decide_eq_true_iff, not_or, Bool.not_eq_true, Prod.mk.injEq]
  constructor
  · rintro ⟨j, ⟨hj, hg⟩, w, ⟨hw, hhas⟩, rfl, rfl⟩
    exact ⟨hj, hg, hw.1, by omega, hhas⟩
  · rintro ⟨hi, hg, hv₁, hv₉, hhas⟩
    exact ⟨i, ⟨hi, hg⟩, v, ⟨⟨hv₁, by omega⟩, hhas⟩, rfl, rfl⟩

theorem mem_choiceNames : n ∈ choiceNames choice ↔
    n = choice.1 ∨ ∃ kind : Kind, n = kind.name (kind.of choice.1) choice.2 := by
  simp only [choiceNames, List.mem_cons, List.not_mem_nil, or_false]
  apply or_congr Iff.rfl
  constructor
  · rintro (h | h | h)
    · exact ⟨.row, h⟩
    · exact ⟨.col, h⟩
    · exact ⟨.box, h⟩
  · rintro ⟨kind, h⟩
    cases kind with
    | row => exact .inl h
    | col => exact .inr (.inl h)
    | box => exact .inr (.inr h)

/-- The column of a cell belongs to the choices of the cell. -/
theorem eq_cell_of_mem {i : Nat} (hi : i < 81) (h : i ∈ choiceNames choice) : i = choice.1 := by
  rcases mem_choiceNames.mp h with heq | ⟨kind, heq⟩
  · exact heq
  · have hge := Kind.name_ge kind (kind.of choice.1) choice.2
    omega

/-- The column of a value in a unit belongs to the choices of the value for a cell of the unit. -/
theorem eq_value_of_mem {kind : Kind} {u v : Nat} (hu : u < 9) (hv : v ≤ 9) (hi : choice.1 < 81)
    (hw : choice.2 ≤ 9) (h : kind.name u v ∈ choiceNames choice) :
    kind.of choice.1 = u ∧ choice.2 = v := by
  rcases mem_choiceNames.mp h with heq | ⟨kind', heq⟩
  · have hge := Kind.name_ge kind u v
    omega
  · obtain ⟨rfl, hof, hval⟩ := Kind.name_inj hu (Kind.of_lt _ hi) hv hw heq
    exact ⟨hof.symm, hval.symm⟩

/-- A choice has its four columns. -/
theorem choiceNames_subset (hchoice : choice ∈ choices g) :
    ∀ n ∈ choiceNames choice, n ∈ columnNames g := by
  obtain ⟨hi, hg, hv₁, hv₉, hhas⟩ := mem_choices.mp hchoice
  intro n hn
  apply mem_columnNames.mpr
  rcases mem_choiceNames.mp hn with rfl | ⟨kind, rfl⟩
  · exact .inl ⟨hi, hg⟩
  · exact .inr ⟨kind, _, Kind.of_lt _ hi, _, hv₁, hv₉, hhas kind, rfl⟩

/-! ## Sizes -/

/-- The names that the columns of some board have. -/
def everyName : List Nat :=
  List.range 81 ++ (List.range 9).flatMap fun u => (List.range' 1 9).flatMap fun v =>
    [getRowCol u v] ++ [getColCol u v] ++ [getBoxCol u v]

theorem columnNames_sublist (g : Nat → Nat) : (columnNames g).Sublist everyName := by
  have hopt : ∀ (p : Bool) (n : Nat), (if p = true then [] else [n]).Sublist [n] := by
    intro p n
    cases p with
    | true => exact List.nil_sublist _
    | false => exact List.Sublist.refl _
  apply List.filter_sublist.append
  apply List.Sublist.flatMap_right
  intro u _
  apply List.Sublist.flatMap_right
  intro v _
  exact ((hopt _ _).append (hopt _ _)).append (hopt _ _)

theorem everyName_nodup : everyName.Nodup := by
  have hu : ∀ u ∈ List.range 9, u < 9 := fun u hu => List.mem_range.mp hu
  have hv : ∀ v ∈ List.range' 1 9, v ≤ 9 := fun v hv => by
    have hv := List.mem_range'_1.mp hv
    omega
  -- The names for a value in the units of one number.
  have hname : ∀ u v n, n ∈ [getRowCol u v] ++ [getColCol u v] ++ [getBoxCol u v] →
      ∃ kind : Kind, n = kind.name u v := by
    intro u v n hn
    simp only [List.cons_append, List.nil_append, List.mem_cons, List.not_mem_nil, or_false] at hn
    rcases hn with rfl | rfl | rfl
    · exact ⟨.row, rfl⟩
    · exact ⟨.col, rfl⟩
    · exact ⟨.box, rfl⟩
  have hinner : ∀ u n, n ∈ (List.range' 1 9).flatMap (fun v =>
      [getRowCol u v] ++ [getColCol u v] ++ [getBoxCol u v]) →
      ∃ kind : Kind, ∃ v ≤ 9, n = kind.name u v := by
    intro u n hn
    obtain ⟨v, hv', hn⟩ := List.mem_flatMap.mp hn
    obtain ⟨kind, hkind⟩ := hname u v n hn
    exact ⟨kind, v, hv v hv', hkind⟩
  refine List.nodup_append.mpr ⟨List.nodup_range, List.nodup_flatMap.mpr ⟨?_, ?_⟩, ?_⟩
  · intro u hu'
    have hu := hu u hu'
    refine List.nodup_flatMap.mpr ⟨?_, ?_⟩
    · intro v _
      simp only [getRowCol, getColCol, getBoxCol, List.cons_append, List.nil_append, List.nodup_cons,
        List.mem_cons, List.not_mem_nil, or_false, not_or, List.nodup_nil, not_false_eq_true, and_true]
      omega
    · apply List.Nodup.pairwise_of_forall_ne List.nodup_range'
      intro v hv₁ w hw₁ hne n hn hn'
      obtain ⟨kind, hkind⟩ := hname u v n hn
      obtain ⟨kind', hkind'⟩ := hname u w n hn'
      exact hne (Kind.name_inj hu hu (hv v hv₁) (hv w hw₁) (hkind.symm.trans hkind')).2.2
  · apply List.Nodup.pairwise_of_forall_ne List.nodup_range
    intro u hu₁ w hw₁ hne n hn hn'
    obtain ⟨kind, v, hv, hkind⟩ := hinner u n hn
    obtain ⟨kind', v', hv', hkind'⟩ := hinner w n hn'
    exact hne (Kind.name_inj (hu u hu₁) (hu w hw₁) hv hv' (hkind.symm.trans hkind')).2.1
  · intro i hi n hn heq
    obtain ⟨u, -, hn⟩ := List.mem_flatMap.mp hn
    obtain ⟨kind, v, -, hkind⟩ := hinner u n hn
    have hge := Kind.name_ge kind u v
    have hi := List.mem_range.mp hi
    omega

theorem columnNames_nodup (g : Nat → Nat) : (columnNames g).Nodup :=
  (columnNames_sublist g).nodup everyName_nodup

theorem columnNames_length_le (g : Nat → Nat) : (columnNames g).length ≤ 324 :=
  (columnNames_sublist g).length_le.trans (by decide +kernel)

theorem choices_sublist (g : Nat → Nat) :
    (choices g).Sublist ((List.range 81).flatMap fun i => (List.range' 1 9).map (i, ·)) := by
  apply (List.filter_sublist.flatMap _).trans
  apply List.Sublist.flatMap_right
  intro i _
  exact List.filter_sublist.map _

theorem choices_nodup (g : Nat → Nat) : (choices g).Nodup := by
  apply (choices_sublist g).nodup
  refine List.nodup_flatMap.mpr ⟨?_, ?_⟩
  · intro i _
    exact List.Nodup.map (fun v w heq => congrArg Prod.snd heq) List.nodup_range'
  · apply List.Nodup.pairwise_of_forall_ne List.nodup_range
    intro i _ j _ hne choice hi hj
    obtain ⟨v, -, rfl⟩ := List.mem_map.mp hi
    obtain ⟨w, -, heq⟩ := List.mem_map.mp hj
    exact hne (congrArg Prod.fst heq).symm

theorem choices_length_le (g : Nat → Nat) : (choices g).length ≤ 729 :=
  (choices_sublist g).length_le.trans (by decide +kernel)

/-- The four columns of a choice are different. -/
theorem choiceNames_nodup (hchoice : choice ∈ choices g) : (choiceNames choice).Nodup := by
  obtain ⟨hi, -, -, hv, -⟩ := mem_choices.mp hchoice
  have hbox : boxOf choice.1 < 9 := Kind.of_lt .box hi
  simp only [choiceNames, getRowCol, getColCol, getBoxCol, List.nodup_cons, List.mem_cons,
    List.not_mem_nil, or_false, not_or, List.nodup_nil, not_false_eq_true, and_true]
  omega

end Names

section Reduction

variable {g full : Nat → Nat} {S : List (Nat × Nat)}

/-! ## The board of a cover -/

/-- A cell for which nothing was chosen keeps its value. -/
theorem chosen_of_notMem {i : Nat} (h : ∀ choice ∈ S, choice.1 ≠ i) : chosen S g i = g i := by
  induction S generalizing g with
  | nil => rfl
  | cons choice S ih =>
    rw [chosen, List.foldl_cons]
    have hrest := ih (g := Function.update g choice.1 choice.2)
      fun c hc => h c (List.mem_cons_of_mem _ hc)
    rw [chosen, Function.update_of_ne (h choice List.mem_cons_self).symm] at hrest
    exact hrest

/-- A cell has the value that was chosen for it, when there is only one. -/
theorem chosen_of_mem {i v : Nat} (hmem : (i, v) ∈ S)
    (hone : ∀ choice ∈ S, choice.1 = i → choice.2 = v) :
    chosen S g i = v := by
  induction S generalizing g with
  | nil => cases hmem
  | cons choice S ih =>
    have hrest : ∀ c ∈ S, c.1 = i → c.2 = v := fun c hc => hone c (List.mem_cons_of_mem _ hc)
    by_cases hin : (i, v) ∈ S
    · exact ih hin hrest
    · -- Nothing is chosen for the cell after this choice.
      have hchoice : choice = (i, v) := by
        rcases List.mem_cons.mp hmem with heq | hmem
        · exact heq.symm
        · exact absurd hmem hin
      subst hchoice
      have hkept := chosen_of_notMem (S := S) (g := Function.update g i v) (i := i) (by
        rintro ⟨j, w⟩ hc rfl
        have hw : w = v := hrest (j, w) hc rfl
        subst hw
        exact hin hc)
      rw [Function.update_self] at hkept
      exact hkept

/-- When each digit stands somewhere in a unit, each stands there once. -/
theorem once_of_some (kind : Kind) {u : Nat} (hu : u < 9) (hdigit : ∀ i < 81, 1 ≤ full i ∧ full i ≤ 9)
    (hsome : ∀ v, 1 ≤ v → v ≤ 9 → ∃ i < 81, kind.of i = u ∧ full i = v) {v : Nat} (hv₁ : 1 ≤ v)
    (hv₉ : v ≤ 9) : ∃! i, i < 81 ∧ kind.of i = u ∧ full i = v := by
  let cells := (Finset.range 81).filter (kind.of · = u)
  have hcells : ∀ i, i ∈ cells ↔ i < 81 ∧ kind.of i = u := by
    intro i
    simp [cells]
  have hmaps : Set.MapsTo full cells (Finset.Icc 1 9) := by
    intro i hi
    exact Finset.mem_coe.mpr (Finset.mem_Icc.mpr (hdigit i ((hcells i).mp hi).1))
  have hsurj : Set.SurjOn full cells (Finset.Icc 1 9) := by
    intro v hv
    obtain ⟨hv₁, hv₉⟩ := Finset.mem_Icc.mp (Finset.mem_coe.mp hv)
    obtain ⟨i, hi, hof, hfull⟩ := hsome v hv₁ hv₉
    exact ⟨i, Finset.mem_coe.mpr ((hcells i).mpr ⟨hi, hof⟩), hfull⟩
  -- Nine digits for the nine cells of the unit: no two cells have the same.
  have hinj : Set.InjOn full cells := by
    apply Finset.injOn_of_surjOn_of_card_le full hmaps hsurj
    rw [Kind.card_unit kind u hu]
    rfl
  obtain ⟨i, hi, hof, hfull⟩ := hsome v hv₁ hv₉
  refine ⟨i, ⟨hi, hof, hfull⟩, ?_⟩
  rintro j ⟨hj, hof', hfull'⟩
  apply hinj _ _ (hfull'.trans hfull.symm)
  · exact Finset.mem_coe.mpr ((hcells j).mpr ⟨hj, hof'⟩)
  · exact Finset.mem_coe.mpr ((hcells i).mpr ⟨hi, hof⟩)

/-- An exact cover of the columns is a completion. -/
theorem completes_of_cover (hg : ∀ i < 81, g i ≤ 9)
    (h : ExactCover choiceNames (columnNames g) (choices g) S) : Completes g (chosen S g) := by
  have hchoice : ∀ choice ∈ S, choice.1 < 81 ∧ g choice.1 = 0 ∧ 1 ≤ choice.2 ∧ choice.2 ≤ 9 := by
    intro choice hc
    obtain ⟨hi, hgi, hv₁, hv₉, -⟩ := mem_choices.mp (h.rows choice hc)
    exact ⟨hi, hgi, hv₁, hv₉⟩
  have hcell : ∀ choice : Nat × Nat, choice.1 ∈ choiceNames choice := fun choice =>
    mem_choiceNames.mpr (.inl rfl)
  -- Only one value is chosen for a cell, and that is the value it gets.
  have hvalue : ∀ i v, (i, v) ∈ S → chosen S g i = v := by
    intro i v hiv
    apply chosen_of_mem hiv
    rintro ⟨j, w⟩ hjw heq
    have heq : j = i := heq
    subst heq
    obtain ⟨hi, hgi, -, -⟩ := hchoice (j, v) hiv
    have hopen : j ∈ columnNames g := mem_columnNames.mpr (.inl ⟨hi, hgi⟩)
    have hsame := h.once (j, w) hjw (j, v) hiv j hopen (hcell _) (hcell _)
    exact congrArg Prod.snd hsame
  have hkeeps : ∀ i < 81, g i ≠ 0 → chosen S g i = g i := by
    intro i hi hgi
    apply chosen_of_notMem
    rintro choice hc rfl
    exact hgi (hchoice choice hc).2.1
  have hdigit : ∀ i < 81, 1 ≤ chosen S g i ∧ chosen S g i ≤ 9 := by
    intro i hi
    -- the column of an open cell is covered by one of its choices
    by_cases hgi : g i = 0
    · obtain ⟨⟨j, v⟩, hjv, hmem⟩ := h.covers i (mem_columnNames.mpr (.inl ⟨hi, hgi⟩))
      obtain ⟨-, -, hv₁, hv₉⟩ := hchoice (j, v) hjv
      obtain rfl : i = j := eq_cell_of_mem hi hmem
      rw [hvalue i v hjv]
      exact ⟨hv₁, hv₉⟩
    · rw [hkeeps i hi hgi]
      exact ⟨Nat.pos_of_ne_zero hgi, hg i hi⟩
  refine ⟨hdigit, hkeeps, ?_⟩
  intro kind u hu v hv₁ hv₉
  apply once_of_some kind hu hdigit _ hv₁ hv₉
  clear v hv₁ hv₉
  intro v hv₁ hv₉
  cases hhas : kind.has g u v with
  | true =>
    -- The value is given.
    obtain ⟨i, hi, hof, hgi⟩ := Kind.has_eq_true.mp hhas
    refine ⟨i, hi, hof, ?_⟩
    rw [hkeeps i hi (by omega), hgi]
  | false =>
    -- The value is missing, so that its column is covered.
    obtain ⟨⟨i, w⟩, hiw, hmem⟩ := h.covers (kind.name u v)
      (mem_columnNames.mpr (.inr ⟨kind, u, hu, v, hv₁, hv₉, hhas, rfl⟩))
    obtain ⟨hi, -, -, hw⟩ := hchoice (i, w) hiw
    obtain ⟨hof, rfl⟩ := eq_value_of_mem hu hv₉ hi hw hmem
    exact ⟨i, hi, hof, hvalue i w hiw⟩

/-- A completion chooses its value for each open cell. -/
theorem cover_of_completes (h : Completes g full) : ExactCover choiceNames (columnNames g) (choices g)
    ((choices g).filter fun choice => full choice.1 = choice.2) := by
  -- A value that is the completion's own is nowhere else in a unit.
  have hfree : ∀ i < 81, g i = 0 → (i, full i) ∈ choices g := by
    intro i hi hgi
    obtain ⟨hv₁, hv₉⟩ := h.digit i hi
    refine mem_choices.mpr ⟨hi, hgi, hv₁, hv₉, ?_⟩
    intro kind
    apply Kind.has_eq_false.mpr
    intro j hj hof hgj
    have hgj : g j = full i := hgj
    have hone := (h.once kind _ (Kind.of_lt _ hi) _ hv₁ hv₉).unique ⟨hj, hof, by
      rw [h.keeps j hj (by omega), hgj]⟩ ⟨hi, rfl, rfl⟩
    subst hone
    omega
  have hmem : ∀ i < 81, g i = 0 →
      (i, full i) ∈ (choices g).filter fun choice => full choice.1 = choice.2 := by
    intro i hi hgi
    exact List.mem_filter.mpr ⟨hfree i hi hgi, by simp⟩
  constructor
  · intro choice hc
    exact (List.mem_filter.mp hc).1
  · intro n hn
    rcases mem_columnNames.mp hn with ⟨hi, hgi⟩ | ⟨kind, u, hu, v, hv₁, hv₉, hhas, rfl⟩
    · exact ⟨_, hmem n hi hgi, mem_choiceNames.mpr (.inl rfl)⟩
    · obtain ⟨i, ⟨hi, hof, hfull⟩, -⟩ := h.once kind u hu v hv₁ hv₉
      have hgi : g i = 0 := by
        by_contra hgi
        have hkept := h.keeps i hi hgi
        exact Kind.has_eq_false.mp hhas i hi hof (hkept.symm.trans hfull)
      refine ⟨_, hmem i hi hgi, mem_choiceNames.mpr (.inr ⟨kind, ?_⟩)⟩
      rw [← hof, ← hfull]
  · rintro ⟨i, v⟩ hiv ⟨j, w⟩ hjw n - hn hn'
    obtain ⟨hin, hfull⟩ := List.mem_filter.mp hiv
    obtain ⟨hjn, hfull'⟩ := List.mem_filter.mp hjw
    obtain ⟨hi, -, hv₁, hv₉, -⟩ := mem_choices.mp hin
    obtain ⟨hj, -, -, hw₉, -⟩ := mem_choices.mp hjn
    have hfull : full i = v := of_decide_eq_true hfull
    have hfull' : full j = w := of_decide_eq_true hfull'
    have hsame : i = j := by
      rcases mem_choiceNames.mp hn with rfl | ⟨kind, rfl⟩
      · exact eq_cell_of_mem hi hn'
      · obtain ⟨hof, hval⟩ := eq_value_of_mem (Kind.of_lt _ hi) hv₉ hj hw₉ hn'
        exact (h.once kind _ (Kind.of_lt _ hi) v hv₁ hv₉).unique ⟨hi, rfl, hfull⟩
          ⟨hj, hof, hfull'.trans hval⟩
    rw [← hfull, ← hfull', hsame]

end Reduction

end CloudLabs.Sudoku
