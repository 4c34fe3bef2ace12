import CloudLabs.Sudoku.Board
import CloudLabs.Foundation.Coloring

/-!
# The neighbours of a cell

`init_neighbors` marks the row, the column and the box of each cell and collects what is marked. Its
assertions hold: each cell has twenty neighbours, which are its peers, the other cells that share a
unit with it (`initNeighbors_eq`).

`solved` counts what occurs in each unit. On a board of digits it holds exactly when no two peers
are equal (`Puzzle.solved_iff`).
-/

set_option autoImplicit false

namespace CloudLabs.Sudoku

open CloudLabs.Foundation
open Dance
open Function (update)

def NEIGHBOR : Nat := 20

/-! ## The table -/

/-- `adjacent[row][col] = true`. -/
def mark (row col : Nat) (adjacent : Nat → Nat → Bool) : Nat → Nat → Bool :=
  update adjacent row (update (adjacent row) col true)

def markAdjacent (adjacent : Nat → Nat → Bool) (row col : Nat) : Nat → Nat → Bool :=
  let adjacent := (List.range 9).foldl (fun adjacent i => mark i col (mark row i adjacent)) adjacent
  let top := row / 3 * 3
  let left := col / 3 * 3
  let adjacent := mark top (left + 2) (mark top (left + 1) (mark top left adjacent))
  let adjacent := mark (top + 1) (left + 2) (mark (top + 1) (left + 1) (mark (top + 1) left adjacent))
  mark (top + 2) (left + 2) (mark (top + 2) (left + 1) (mark (top + 2) left adjacent))

/-- The loops over `y` and `x`, or over `row` and `col`. -/
def squares : List (Nat × Nat) :=
  (List.range 9).flatMap fun y => (List.range 9).map fun x => (y, x)

def collectNeighbors (adjacent : Nat → Nat → Bool) (row col : Nat) : Option (List Nat) := do
  let myneighbors ← squares.foldlM (fun myneighbors (y, x) =>
    if adjacent y x ∧ ¬ (y = row ∧ x = col) then
      if myneighbors.length < NEIGHBOR then some (myneighbors ++ [y * 9 + x]) else none
    else some myneighbors) []
  if myneighbors.length = NEIGHBOR then some myneighbors else none

def initNeighbors : Option (Nat → List Nat) :=
  squares.foldlM (fun neighbors (row, col) => do
    let adjacent := markAdjacent (fun _ _ => false) row col
    let myneighbors ← collectNeighbors adjacent row col
    some (update neighbors (row * 9 + col) myneighbors)) fun _ => []

/-! ## Peers -/

/-- Two different cells of one unit. -/
def Peer (c d : Nat) : Prop := c < 81 ∧ d < 81 ∧ c ≠ d ∧ ∃ kind : Kind, kind.of c = kind.of d

theorem Peer.symm {c d : Nat} (h : Peer c d) : Peer d c := by
  obtain ⟨hc, hd, hne, kind, hof⟩ := h
  exact ⟨hd, hc, hne.symm, kind, hof.symm⟩

theorem Peer.irrefl (c : Nat) : ¬ Peer c c := fun h => h.2.2.1 rfl

/-- The peers of a cell, in ascending order. -/
def peers (cell : Nat) : List Nat :=
  (List.range 81).filter fun d =>
    cell ≠ d ∧ (cell / 9 = d / 9 ∨ cell % 9 = d % 9 ∨ boxOf cell = boxOf d)

theorem mem_peers {c d : Nat} (hc : c < 81) : d ∈ peers c ↔ Peer c d := by
  simp only [peers, List.mem_filter, List.mem_range, decide_eq_true_iff, Peer]
  constructor
  · rintro ⟨hd, hne, hof⟩
    refine ⟨hc, hd, hne, ?_⟩
    rcases hof with hof | hof | hof
    · exact ⟨.row, hof⟩
    · exact ⟨.col, hof⟩
    · exact ⟨.box, hof⟩
  · rintro ⟨-, hd, hne, kind, hof⟩
    refine ⟨hd, hne, ?_⟩
    cases kind with
    | row => exact .inl hof
    | col => exact .inr (.inl hof)
    | box => exact .inr (.inr hof)

theorem peers_length : ∀ cell < 81, (peers cell).length = NEIGHBOR := by decide +kernel

theorem squares_eq : squares = (List.range 81).map fun i => (i / 9, i % 9) := by decide +kernel

/-! ## What the table holds -/

theorem mark_iff {adjacent : Nat → Nat → Bool} {row col y x : Nat} :
    mark row col adjacent y x = true ↔ (y = row ∧ x = col) ∨ adjacent y x = true := by
  unfold mark
  by_cases hy : y = row
  · subst hy
    rw [Function.update_self]
    by_cases hx : x = col
    · subst hx
      simp
    · rw [Function.update_of_ne hx]
      simp [hx]
  · rw [Function.update_of_ne hy]
    simp [hy]

theorem markLoop_iff {n row col y x : Nat} {adjacent : Nat → Nat → Bool} :
    (List.range n).foldl (fun adjacent i => mark i col (mark row i adjacent)) adjacent y x = true ↔
      (y = row ∧ x < n) ∨ (y < n ∧ x = col) ∨ adjacent y x = true := by
  induction n with
  | zero => simp
  | succ n ih =>
    rw [List.range_succ, List.foldl_append, List.foldl_cons, List.foldl_nil, mark_iff, mark_iff, ih]
    constructor
    · rintro (⟨rfl, rfl⟩ | ⟨rfl, rfl⟩ | ⟨rfl, hx⟩ | ⟨hy, rfl⟩ | h)
      · exact .inr (.inl ⟨Nat.lt_succ_self y, rfl⟩)
      · exact .inl ⟨rfl, Nat.lt_succ_self x⟩
      · exact .inl ⟨rfl, Nat.lt_succ_of_lt hx⟩
      · exact .inr (.inl ⟨Nat.lt_succ_of_lt hy, rfl⟩)
      · exact .inr (.inr h)
    · rintro (⟨rfl, hx⟩ | ⟨hy, rfl⟩ | h)
      · rcases Nat.lt_succ_iff_lt_or_eq.mp hx with hx | rfl
        · exact .inr (.inr (.inl ⟨rfl, hx⟩))
        · exact .inr (.inl ⟨rfl, rfl⟩)
      · rcases Nat.lt_succ_iff_lt_or_eq.mp hy with hy | rfl
        · exact .inr (.inr (.inr (.inl ⟨hy, rfl⟩)))
        · exact .inl ⟨rfl, rfl⟩
      · exact .inr (.inr (.inr (.inr h)))

/-- The row, the column and the box of a cell are marked. -/
theorem markAdjacent_iff {row col y x : Nat} (hy : y < 9) (hx : x < 9) :
    markAdjacent (fun _ _ => false) row col y x = true ↔
      y = row ∨ x = col ∨ (y / 3 = row / 3 ∧ x / 3 = col / 3) := by
  simp only [markAdjacent, mark_iff, markLoop_iff, Bool.false_eq_true, or_false]
  omega

/-- The loop of `collect_neighbors`, when there is room for all that it collects. -/
theorem collectLoop_eq {α : Type} {p : α → Prop} [DecidablePred p] {f : α → Nat} (xs : List α)
    (mine : List Nat) (hroom : mine.length + (xs.filter p).length ≤ NEIGHBOR) :
    xs.foldlM (fun mine a => if p a then
        if mine.length < NEIGHBOR then some (mine ++ [f a]) else none
      else some mine) mine = some (mine ++ (xs.filter p).map f) := by
  induction xs generalizing mine with
  | nil => simp
  | cons a xs ih =>
    rw [List.foldlM_cons]
    by_cases ha : p a
    · rw [List.filter_cons_of_pos (by simpa using ha), List.length_cons] at hroom
      rw [if_pos ha, if_pos (by omega), Option.bind_eq_bind, Option.bind_some,
        ih _ (by rw [List.length_append, List.length_singleton]; omega),
        List.filter_cons_of_pos (by simpa using ha), List.map_cons, List.append_assoc]
      rfl
    · rw [List.filter_cons_of_neg (by simpa using ha)] at hroom
      rw [if_neg ha, Option.bind_eq_bind, Option.bind_some, ih _ hroom,
        List.filter_cons_of_neg (by simpa using ha)]

theorem collectNeighbors_eq {cell : Nat} (hcell : cell < 81) :
    collectNeighbors (markAdjacent (fun _ _ => false) (cell / 9) (cell % 9)) (cell / 9) (cell % 9) =
      some (peers cell) := by
  -- the squares that are collected are the peers
  have hpeers : ((squares.filter fun s => markAdjacent (fun _ _ => false) (cell / 9) (cell % 9) s.1 s.2
      = true ∧ ¬ (s.1 = cell / 9 ∧ s.2 = cell % 9)).map fun s => s.1 * 9 + s.2) = peers cell := by
    rw [squares_eq, List.filter_map, List.map_map, peers]
    have hid : ∀ i ∈ List.range 81, ((fun s : Nat × Nat => s.1 * 9 + s.2) ∘
        fun i => (i / 9, i % 9)) i = id i := by
      intro i _
      show i / 9 * 9 + i % 9 = i
      omega
    rw [List.map_congr_left fun i hi => hid i (List.mem_filter.mp hi).1, List.map_id]
    apply List.filter_congr
    intro i hi
    have hi := List.mem_range.mp hi
    rw [Function.comp_apply, decide_eq_decide, markAdjacent_iff (by omega) (by omega)]
    simp only [boxOf]
    omega
  have hlength := congrArg List.length hpeers
  rw [List.length_map, peers_length cell hcell] at hlength
  have hloop := collectLoop_eq (f := fun s : Nat × Nat => s.1 * 9 + s.2) squares []
    (Nat.le_of_eq (by rw [hlength]; exact Nat.zero_add _))
  rw [List.nil_append, hpeers] at hloop
  unfold collectNeighbors
  rw [hloop, Option.bind_eq_bind, Option.bind_some, if_pos (peers_length cell hcell)]

/-- The table, once it is filled. -/
def neighborTable (cell : Nat) : List Nat := if cell < 81 then peers cell else []

theorem initNeighbors_eq : initNeighbors = some neighborTable := by
  have hloop : ∀ n ≤ 81, ((List.range n).map fun i => (i / 9, i % 9)).foldlM
      (fun neighbors (row, col) => do
        let adjacent := markAdjacent (fun _ _ => false) row col
        let myneighbors ← collectNeighbors adjacent row col
        some (update neighbors (row * 9 + col) myneighbors)) (fun _ => []) =
      some fun cell => if cell < n then peers cell else [] := by
    intro n
    induction n with
    | zero => intro _; simp
    | succ n ih =>
      intro hn
      rw [List.range_succ, List.map_append, List.foldlM_append, ih (by omega), Option.bind_eq_bind,
        Option.bind_some, List.map_singleton, List.foldlM_cons]
      simp only [collectNeighbors_eq (show n < 81 by omega), Option.bind_eq_bind, Option.bind_some,
        List.foldlM_nil, Option.pure_def]
      apply congrArg some
      funext cell
      rw [show n / 9 * 9 + n % 9 = n by omega]
      by_cases hcell : cell = n
      · subst hcell
        rw [Function.update_self, if_pos (Nat.lt_succ_self cell)]
      · rw [Function.update_of_ne hcell]
        by_cases hlt : cell < n
        · rw [if_pos hlt, if_pos (by omega)]
        · rw [if_neg hlt, if_neg (by omega)]
  rw [initNeighbors, squares_eq]
  exact hloop 81 (Nat.le_refl 81)

theorem mem_neighborTable {c d : Nat} : d ∈ neighborTable c ↔ Peer c d := by
  rw [neighborTable]
  by_cases hc : c < 81
  · rw [if_pos hc, mem_peers hc]
  · rw [if_neg hc]
    constructor
    · intro h
      exact absurd h List.not_mem_nil
    · intro h
      exact absurd h.1 hc

/-! ## Solved boards -/

def rowCells (row : Nat) : List Nat := (List.range 9).map fun col => row * 9 + col

def colCells (col : Nat) : List Nat := (List.range 9).map fun row => row * 9 + col

/-- The cells of the box that begins at a row and a column. -/
def boxCells (row col : Nat) : List Nat :=
  [row * 9 + col, row * 9 + (col + 1), row * 9 + (col + 2),
    (row + 1) * 9 + col, (row + 1) * 9 + (col + 1), (row + 1) * 9 + (col + 2),
    (row + 2) * 9 + col, (row + 2) * 9 + (col + 1), (row + 2) * 9 + (col + 2)]

/-- `std::count(occurs, occurs+10, 1) == NUM`, after `occurs` has counted the values. -/
def occursOnce (vals : List Nat) : Bool :=
  (List.range 10).countP (fun v => vals.count v = 1) = 9

/-- The check of the rows, which asserts that it sees digits. -/
def solvedRows (board : Nat → Nat) : List Nat → Option Bool
  | [] => some true
  | row :: rows =>
    if ∀ val ∈ (rowCells row).map board, 1 ≤ val ∧ val ≤ 9 then
      if occursOnce ((rowCells row).map board) then solvedRows board rows else some false
    else none

def Puzzle.solved (board : Nat → Nat) : Option Bool := do
  if ← solvedRows board (List.range 9) then
    some (((List.range 9).all fun col => occursOnce ((colCells col).map board)) &&
      [0, 3, 6].all fun row => [0, 3, 6].all fun col => occursOnce ((boxCells row col).map board))
  else some false

/-- Nine digits of which each occurs once are nine different digits. -/
theorem occursOnce_iff {vals : List Nat} (hlength : vals.length = 9)
    (hdigit : ∀ val ∈ vals, 1 ≤ val ∧ val ≤ 9) : occursOnce vals = true ↔ vals.Nodup := by
  have hzero : vals.count 0 = 0 := by
    apply List.count_eq_zero_of_not_mem
    intro h
    exact absurd (hdigit 0 h).1 (by omega)
  have hrange : List.range 10 = 0 :: List.range' 1 9 := by decide
  have hcount : (List.range 10).countP (fun v => decide (vals.count v = 1)) =
      (List.range' 1 9).countP fun v => decide (vals.count v = 1) := by
    rw [hrange, List.countP_cons_of_neg (by simp [hzero])]
  rw [occursOnce, decide_eq_true_iff, hcount]
  constructor
  · intro h
    have hall := List.countP_eq_length.mp (h.trans (List.length_range' ..).symm)
    apply List.nodup_iff_count_le_one.mpr
    intro v
    by_cases hv : v ∈ vals
    · obtain ⟨hv₁, hv₉⟩ := hdigit v hv
      have hone := hall v (List.mem_range'_1.mpr ⟨hv₁, by omega⟩)
      exact Nat.le_of_eq (of_decide_eq_true hone)
    · rw [List.count_eq_zero_of_not_mem hv]
      exact Nat.zero_le 1
  · intro hnodup
    -- nine different values among nine digits: every digit is there
    have hsub : vals.toFinset ⊆ Finset.Icc 1 9 := by
      intro v hv
      exact Finset.mem_Icc.mpr (hdigit v (List.mem_toFinset.mp hv))
    have hcard : (Finset.Icc 1 9).card ≤ vals.toFinset.card := by
      rw [List.toFinset_card_of_nodup hnodup, hlength, Nat.card_Icc]
    have heq := Finset.eq_of_subset_of_card_le hsub hcard
    have hall : ∀ v ∈ List.range' 1 9, decide (vals.count v = 1) = true := by
      intro v hv
      have hv := List.mem_range'_1.mp hv
      have hmem : v ∈ vals.toFinset := by
        rw [heq]
        exact Finset.mem_Icc.mpr (by omega)
      exact decide_eq_true (List.count_eq_one_of_mem hnodup (List.mem_toFinset.mp hmem))
    rw [List.countP_eq_length.mpr hall, List.length_range']

/-- The cells of a unit, as `solved` goes through them. -/
def unitCells : Kind → Nat → List Nat
  | .row, u => rowCells u
  | .col, u => colCells u
  | .box, u => boxCells (u / 3 * 3) (u % 3 * 3)

theorem mem_unitCells (kind : Kind) :
    ∀ u < 9, ∀ i < 100, i ∈ unitCells kind u ↔ i < 81 ∧ kind.of i = u := by
  cases kind <;> decide +kernel

theorem unitCells_nodup (kind : Kind) : ∀ u < 9, (unitCells kind u).Nodup := by
  cases kind <;> decide +kernel

theorem unitCells_lt (kind : Kind) : ∀ u < 9, ∀ i ∈ unitCells kind u, i < 81 := by
  cases kind <;> decide +kernel

theorem unitCells_length (kind : Kind) (u : Nat) : (unitCells kind u).length = 9 := by
  cases kind <;> rfl

/-- The check of a unit of digits: no two peers of the unit are equal. -/
theorem occursOnce_unit {board : Nat → Nat} (hdigit : ∀ i < 81, 1 ≤ board i ∧ board i ≤ 9)
    (kind : Kind) {u : Nat} (hu : u < 9) :
    occursOnce ((unitCells kind u).map board) = true ↔
      ∀ c < 81, ∀ d < 81, kind.of c = u → kind.of d = u → board c = board d → c = d := by
  rw [occursOnce_iff (by rw [List.length_map, unitCells_length])]
  · rw [List.nodup_map_iff_inj_on (unitCells_nodup kind u hu)]
    constructor
    · intro h c hc d hd hof hof' heq
      exact h c ((mem_unitCells kind u hu c (by omega)).mpr ⟨hc, hof⟩) d
        ((mem_unitCells kind u hu d (by omega)).mpr ⟨hd, hof'⟩) heq
    · intro h c hc d hd heq
      have hc' := unitCells_lt kind u hu c hc
      have hd' := unitCells_lt kind u hu d hd
      exact h c hc' d hd' ((mem_unitCells kind u hu c (by omega)).mp hc).2
        ((mem_unitCells kind u hu d (by omega)).mp hd).2 heq
  · intro val hval
    obtain ⟨i, hi, rfl⟩ := List.mem_map.mp hval
    exact hdigit i (unitCells_lt kind u hu i hi)

theorem solvedRows_iff {board : Nat → Nat} {rows : List Nat} : solvedRows board rows = some true ↔
    ∀ row ∈ rows, (∀ val ∈ (rowCells row).map board, 1 ≤ val ∧ val ≤ 9) ∧
      occursOnce ((rowCells row).map board) = true := by
  induction rows with
  | nil => simp [solvedRows]
  | cons row rows ih =>
    rw [solvedRows, List.forall_mem_cons, ← ih]
    by_cases hdigit : ∀ val ∈ (rowCells row).map board, 1 ≤ val ∧ val ≤ 9
    · rw [if_pos hdigit]
      cases honce : occursOnce ((rowCells row).map board) with
      | false => exact ⟨fun h => (by cases h), fun h => absurd h.1.2 Bool.false_ne_true⟩
      | true => exact ⟨fun h => ⟨⟨hdigit, rfl⟩, h⟩, fun h => h.2⟩
    · rw [if_neg hdigit]
      exact ⟨fun h => (by cases h), fun h => absurd h.1.1 hdigit⟩

/-- A board is solved exactly when it is full of digits and no two peers are equal. -/
theorem Puzzle.solved_iff {board : Nat → Nat} : Puzzle.solved board = some true ↔
    (∀ i < 81, 1 ≤ board i ∧ board i ≤ 9) ∧ ∀ c d, Peer c d → board d ≠ board c := by
  have hunits : Puzzle.solved board = some true ↔ (∀ i < 81, 1 ≤ board i ∧ board i ≤ 9) ∧
      ∀ kind : Kind, ∀ u < 9, occursOnce ((unitCells kind u).map board) = true := by
    have hrows : Puzzle.solved board = some true ↔ solvedRows board (List.range 9) = some true ∧
        (∀ u < 9, occursOnce ((colCells u).map board) = true) ∧
        ∀ u < 9, occursOnce ((boxCells (u / 3 * 3) (u % 3 * 3)).map board) = true := by
      have hboxes : (∀ u < 9, occursOnce ((boxCells (u / 3 * 3) (u % 3 * 3)).map board) = true) ↔
          ([0, 3, 6].all fun row => [0, 3, 6].all fun col =>
            occursOnce ((boxCells row col).map board)) = true := by
        simp only [List.all_cons, List.all_nil, Bool.and_true, Bool.and_eq_true]
        constructor
        · intro h
          exact ⟨⟨h 0 (by omega), h 1 (by omega), h 2 (by omega)⟩,
            ⟨h 3 (by omega), h 4 (by omega), h 5 (by omega)⟩,
            h 6 (by omega), h 7 (by omega), h 8 (by omega)⟩
        · rintro ⟨⟨h₀, h₁, h₂⟩, ⟨h₃, h₄, h₅⟩, h₆, h₇, h₈⟩ u hu
          interval_cases u <;> assumption
      rw [hboxes]
      cases hr : solvedRows board (List.range 9) with
      | none => simp [Puzzle.solved, hr]
      | some ok => cases ok <;> simp [Puzzle.solved, hr]
    rw [hrows, solvedRows_iff]
    constructor
    · rintro ⟨hrow, hcol, hbox⟩
      constructor
      · intro i hi
        have hmem := (mem_unitCells .row (i / 9) (by omega) i (by omega)).mpr ⟨hi, rfl⟩
        exact (hrow _ (List.mem_range.mpr (by omega))).1 _ (List.mem_map_of_mem hmem)
      · intro kind u hu
        cases kind with
        | row => exact (hrow u (List.mem_range.mpr hu)).2
        | col => exact hcol u hu
        | box => exact hbox u hu
    · rintro ⟨hdigit, hunit⟩
      refine ⟨?_, hunit .col, hunit .box⟩
      intro row hrow
      have hrow := List.mem_range.mp hrow
      refine ⟨?_, hunit .row row hrow⟩
      intro val hval
      obtain ⟨i, hi, rfl⟩ := List.mem_map.mp hval
      exact hdigit i (unitCells_lt .row row hrow i hi)
  rw [hunits]
  apply and_congr_right
  intro hdigit
  constructor
  · rintro h c d ⟨hc, hd, hne, kind, hof⟩ heq
    have hunit := (occursOnce_unit hdigit kind (Kind.of_lt kind hc)).mp
      (h kind _ (Kind.of_lt kind hc))
    exact hne (hunit c hc d hd rfl hof.symm heq.symm)
  · intro h kind u hu
    apply (occursOnce_unit hdigit kind hu).mpr
    intro c hc d hd hof hof' heq
    by_contra hne
    exact h c d ⟨hc, hd, hne, kind, hof.trans hof'.symm⟩ heq.symm

/-! ## Completions -/

/-- A completion is a board of digits that keeps the givens and has no two equal peers. -/
theorem completes_iff {given full : Nat → Nat} : Completes given full ↔
    (∀ i < 81, 1 ≤ full i ∧ full i ≤ 9) ∧ (∀ i < 81, given i ≠ 0 → full i = given i) ∧
      ∀ c d, Peer c d → full d ≠ full c := by
  constructor
  · intro h
    refine ⟨h.digit, h.keeps, ?_⟩
    rintro c d ⟨hc, hd, hne, kind, hof⟩ heq
    obtain ⟨hv₁, hv₉⟩ := h.digit c hc
    exact hne ((h.once kind _ (Kind.of_lt kind hc) _ hv₁ hv₉).unique ⟨hc, rfl, rfl⟩
      ⟨hd, hof.symm, heq⟩)
  · rintro ⟨hdigit, hkeeps, hproper⟩
    refine ⟨hdigit, hkeeps, ?_⟩
    intro kind u hu v hv₁ hv₉
    let cells := (Finset.range 81).filter (kind.of · = u)
    have hcells : ∀ i, i ∈ cells ↔ i < 81 ∧ kind.of i = u := by
      intro i
      simp [cells]
    have hinj : Set.InjOn full cells := by
      intro c hc d hd heq
      obtain ⟨hc, hof⟩ := (hcells c).mp hc
      obtain ⟨hd, hof'⟩ := (hcells d).mp hd
      by_contra hne
      exact hproper c d ⟨hc, hd, hne, kind, hof.trans hof'.symm⟩ heq.symm
    have hsub : cells.image full ⊆ Finset.Icc 1 9 := by
      intro w hw
      obtain ⟨i, hi, rfl⟩ := Finset.mem_image.mp hw
      exact Finset.mem_Icc.mpr (hdigit i ((hcells i).mp hi).1)
    -- nine cells with nine different digits: each digit has a cell
    have hcard : (Finset.Icc 1 9).card ≤ (cells.image full).card := by
      rw [Finset.card_image_of_injOn hinj, Kind.card_unit kind u hu, Nat.card_Icc]
    have hmem : v ∈ cells.image full := by
      rw [Finset.eq_of_subset_of_card_le hsub hcard]
      exact Finset.mem_Icc.mpr ⟨hv₁, hv₉⟩
    obtain ⟨i, hi, hval⟩ := Finset.mem_image.mp hmem
    obtain ⟨hlt, hof⟩ := (hcells i).mp hi
    refine ⟨i, ⟨hlt, hof, hval⟩, ?_⟩
    rintro j ⟨hj, hof', hval'⟩
    by_contra hne
    exact hproper i j ⟨hlt, hj, Ne.symm hne, kind, hof.trans hof'.symm⟩ (hval'.trans hval.symm)

/-- No two equal givens are peers. -/
def Consistent (given : Nat → Nat) : Prop := ∀ c d, Peer c d → given c ≠ 0 → given d ≠ given c

theorem Completes.consistent {given full : Nat → Nat} (h : Completes given full) :
    Consistent given := by
  obtain ⟨-, hkeeps, hproper⟩ := completes_iff.mp h
  intro c d hpeer hc heq
  have hd : given d ≠ 0 := by rwa [heq]
  have hne := hproper c d hpeer
  rw [hkeeps c hpeer.1 hc, hkeeps d hpeer.2.1 hd] at hne
  exact hne heq

end CloudLabs.Sudoku
