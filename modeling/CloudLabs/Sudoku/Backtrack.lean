import CloudLabs.Sudoku.Neighbor
import Mathlib.Data.List.GetD

/-!
# The backtracking solvers

`solve_sudoku_basic` fills the spaces of the board in the order of the cells, and
`solve_sudoku_min_arity` first moves forward a space to which few values can go. They are one search,
`solveWith`, with another choice of the next space. As in `Dance`, `none` is a failed assertion, or
a recursion that uses up its fuel.

`solveWith_spec` is what both do: the spaces get digits that no neighbour has, in the least way for
the order in which the spaces were chosen, or there is no such way and the board is as it was.
-/

set_option autoImplicit false

namespace CloudLabs.Sudoku

open CloudLabs.Foundation
open Function (update)

/-- The globals of the solvers; of `spaces` the first `nspaces` entries. -/
structure Puzzle where
  board : Nat → Nat
  spaces : List Nat

namespace Puzzle

/-! ## The solvers -/

def findSpaces (board : Nat → Nat) : List Nat := (List.range 81).filter fun cell => board cell = 0

/-- The digits of a line are read and checked as in the constructor of `Dance`. -/
def input (line : Bytes) : Option Puzzle := do
  let board ← Dance.input line
  some { board := board, spaces := findSpaces board }

/-- No neighbour of the cell has the value. -/
def available (neighbors : Nat → List Nat) (guess cell : Nat) (s : Puzzle) : Bool :=
  (neighbors cell).all fun neighbor => s.board neighbor ≠ guess

def hold (cell guess : Nat) (s : Puzzle) : Option Puzzle :=
  if s.board cell = 0 then some { s with board := update s.board cell guess } else none

def unhold (cell guess : Nat) (s : Puzzle) : Option Puzzle :=
  if s.board cell = guess then some { s with board := update s.board cell 0 } else none

/-- The body of the loop over the guesses; `rec` is the recursive call. -/
def tryGuess (neighbors : Nat → List Nat) (rec : Puzzle → Option (Bool × Puzzle)) (cell guess : Nat)
    (s : Puzzle) : Option (Bool × Puzzle) :=
  if available neighbors guess cell s then do
    let s ← hold cell guess s
    let (found, s) ← rec s
    if found then some (true, s)
    else do
      let s ← unhold cell guess s
      some (false, s)
  else some (false, s)

/-- The search, where `pick` may move another of the remaining spaces forward. -/
def solveWith (neighbors : Nat → List Nat) (pick : Nat → Puzzle → Puzzle) :
    Nat → Nat → Puzzle → Option (Bool × Puzzle)
  | 0, _, _ => none
  | fuel + 1, whichSpace, s =>
    if s.spaces.length ≤ whichSpace then some (true, s)
    else
      let s := pick whichSpace s
      let cell := s.spaces.getD whichSpace 0
      tryEach (tryGuess neighbors (solveWith neighbors pick fuel (whichSpace + 1)) cell)
        (List.range' 1 9) s

def solveSudokuBasic (neighbors : Nat → List Nat) : Nat → Nat → Puzzle → Option (Bool × Puzzle) :=
  solveWith neighbors fun _ s => s

/-- `occupied[v]`, after the loop over the neighbours. -/
def occupied (neighbors : Nat → List Nat) (board : Nat → Nat) (cell v : Nat) : Bool :=
  (neighbors cell).any fun neighbor => board neighbor = v

/-- The number of values that no neighbour of the cell has. -/
def arity (neighbors : Nat → List Nat) (board : Nat → Nat) (cell : Nat) : Int :=
  (List.range' 1 9).countP fun v => occupied neighbors board cell v = false

/-- The loop of `find_min_arity` over the spaces after the first. -/
def scanArity (arity : Nat → Int) (spaces : List Nat) : List Nat → Nat → Int → Nat
  | [], minSpace, _ => minSpace
  | sp :: sps, minSpace, minArity =>
    if minArity > 1 then
      let curArity := arity (spaces.getD sp 0)
      if curArity < minArity then scanArity arity spaces sps sp curArity
      else scanArity arity spaces sps minSpace minArity
    else minSpace

def swap (spaces : List Nat) (i j : Nat) : List Nat :=
  (spaces.set i (spaces.getD j 0)).set j (spaces.getD i 0)

/-- `find_min_arity`, on the spaces, for arities that are counted or kept. -/
def findMinArity (arity : Nat → Int) (space : Nat) (spaces : List Nat) : List Nat :=
  let cell := spaces.getD space 0
  let minSpace := scanArity arity spaces (List.range' (space + 1) (spaces.length - (space + 1))) space
    (arity cell)
  if space ≠ minSpace then swap spaces minSpace space else spaces

def solveSudokuMinArity (neighbors : Nat → List Nat) :
    Nat → Nat → Puzzle → Option (Bool × Puzzle) :=
  solveWith neighbors fun space s =>
    { s with spaces := findMinArity (arity neighbors s.board) space s.spaces }

/-! ## The choice of the next space -/

section Choice

variable {l : List Nat} {i j w : Nat} {ar : Nat → Int}

theorem swap_perm (hi : i < l.length) (hj : j < l.length) : (swap l i j).Perm l := by
  rw [swap, List.getD_eq_getElem l 0 hi, List.getD_eq_getElem l 0 hj]
  exact List.set_set_perm hi hj

theorem swap_take (hi : w ≤ i) (hj : w ≤ j) : (swap l i j).take w = l.take w := by
  rw [swap, List.take_set_of_le hj, List.take_set_of_le hi]

theorem swap_getD (hj : j < l.length) : (swap l i j).getD j 0 = l.getD i 0 := by
  rw [swap, List.getD_eq_getElem _ 0 (by simpa using hj), List.getElem_set_self]

/-- The loop ends at an arity of at most one, or at the least of all. -/
theorem scanArity_spec (sps : List Nat) (minSpace : Nat) :
    scanArity ar l sps minSpace (ar (l.getD minSpace 0)) ∈ minSpace :: sps ∧
      (ar (l.getD (scanArity ar l sps minSpace (ar (l.getD minSpace 0))) 0) ≤ 1 ∨
        ∀ sp ∈ minSpace :: sps,
          ar (l.getD (scanArity ar l sps minSpace (ar (l.getD minSpace 0))) 0) ≤ ar (l.getD sp 0)) := by
  induction sps generalizing minSpace with
  | nil => simp [scanArity]
  | cons sp sps ih =>
    rw [scanArity]
    by_cases hstop : ar (l.getD minSpace 0) > 1
    · rw [if_pos hstop]
      dsimp only
      by_cases hless : ar (l.getD sp 0) < ar (l.getD minSpace 0)
      · rw [if_pos hless]
        obtain ⟨hmem, hleast⟩ := ih sp
        refine ⟨List.mem_cons_of_mem _ hmem, hleast.imp id ?_⟩
        intro hall
        refine List.forall_mem_cons.mpr ⟨?_, hall⟩
        exact (hall sp List.mem_cons_self).trans (Int.le_of_lt hless)
      · rw [if_neg hless]
        obtain ⟨hmem, hleast⟩ := ih minSpace
        refine ⟨?_, hleast.imp id ?_⟩
        · rcases List.mem_cons.mp hmem with heq | hmem
          · exact List.mem_cons.mpr (.inl heq)
          · exact List.mem_cons_of_mem _ (List.mem_cons_of_mem _ hmem)
        · intro hall
          have hmin := hall minSpace List.mem_cons_self
          refine List.forall_mem_cons.mpr ⟨hmin, List.forall_mem_cons.mpr ⟨?_, ?_⟩⟩
          · exact hmin.trans (Int.not_lt.mp hless)
          · exact fun sp' hsp' => hall sp' (List.mem_cons_of_mem _ hsp')
    · rw [if_neg hstop]
      exact ⟨List.mem_cons_self, .inl (Int.not_lt.mp hstop)⟩

/-- The spaces stay the same ones, those before `w` in their places, and the space at `w` gets a cell
whose arity is at most one or the least of the cells that remain. -/
theorem findMinArity_spec (hw : w < l.length) :
    (findMinArity ar w l).Perm l ∧ (findMinArity ar w l).take w = l.take w ∧
      (ar ((findMinArity ar w l).getD w 0) ≤ 1 ∨
        ∀ sp, w ≤ sp → sp < l.length → ar ((findMinArity ar w l).getD w 0) ≤ ar (l.getD sp 0)) := by
  obtain ⟨hmem, hleast⟩ := @scanArity_spec l ar
    (List.range' (w + 1) (l.length - (w + 1))) w
  have hsps : ∀ sp, sp ∈ w :: List.range' (w + 1) (l.length - (w + 1)) ↔ w ≤ sp ∧ sp < l.length := by
    intro sp
    rw [List.mem_cons, List.mem_range'_1]
    omega
  obtain ⟨hle, hlt⟩ := (hsps _).mp hmem
  simp only [hsps, and_imp] at hleast
  unfold findMinArity
  dsimp only
  generalize scanArity ar l (List.range' (w + 1) (l.length - (w + 1))) w (ar (l.getD w 0)) = min
    at hle hlt hleast
  by_cases hmin : w = min
  · subst hmin
    rw [if_neg (not_not.mpr rfl)]
    exact ⟨List.Perm.refl l, rfl, hleast⟩
  · rw [if_pos hmin]
    refine ⟨swap_perm hlt hw, swap_take hle (Nat.le_refl w), ?_⟩
    rw [swap_getD hw]
    exact hleast

/-- Only the arities of the spaces that remain are asked for. -/
theorem findMinArity_congr {ar' : Nat → Int}
    (h : ∀ sp, w ≤ sp → sp < l.length → ar (l.getD sp 0) = ar' (l.getD sp 0)) (hw : w < l.length) :
    findMinArity ar w l = findMinArity ar' w l := by
  have hscan : ∀ sps, (∀ sp ∈ sps, w ≤ sp ∧ sp < l.length) → ∀ min a,
      scanArity ar l sps min a = scanArity ar' l sps min a := by
    intro sps
    induction sps with
    | nil => intro _ min a; rfl
    | cons sp sps ih =>
      intro hsps min a
      obtain ⟨⟨hle, hlt⟩, hsps⟩ := List.forall_mem_cons.mp hsps
      simp only [scanArity, h sp hle hlt, ih hsps]
  unfold findMinArity
  dsimp only
  rw [h w (Nat.le_refl w) hw, hscan]
  intro sp hsp
  have hsp := List.mem_range'_1.mp hsp
  omega

end Choice

/-! ## What the search does -/

/-- What a solver may put into a space. -/
def Digit (v : Nat) : Prop := 1 ≤ v ∧ v ≤ 9

theorem mem_digits {v : Nat} : v ∈ List.range' 1 9 ↔ Digit v := by
  rw [List.mem_range'_1, Digit]
  omega

theorem digit_of_mem {v : Nat} (h : v ∈ List.range' 1 9) : Digit v := mem_digits.mp h

def Near (neighbors : Nat → List Nat) (c d : Nat) : Prop := d ∈ neighbors c

/-- A choice that only moves remaining spaces. -/
structure Picks (pick : Nat → Puzzle → Puzzle) : Prop where
  board : ∀ w s, (pick w s).board = s.board
  perm : ∀ w s, w < s.spaces.length → (pick w s).spaces.Perm s.spaces
  take : ∀ w s, w < s.spaces.length → (pick w s).spaces.take w = s.spaces.take w

/-- The board is as it was, and the spaces are, up to the order from `w` on. -/
structure Stays (w : Nat) (board : Nat → Nat) (l : List Nat) (s : Puzzle) : Prop where
  board : s.board = board
  perm : s.spaces.Perm l
  take : s.spaces.take w = l.take w

/-- The spaces from `w` on are filled, in the least way for the order that they have now. -/
structure Found (neighbors : Nat → List Nat) (w : Nat) (board : Nat → Nat) (l : List Nat)
    (s : Puzzle) : Prop where
  perm : s.spaces.Perm l
  take : s.spaces.take w = l.take w
  fills : Filling (Near neighbors) Digit board (l.drop w) s.board
  least : ∀ g, Filling (Near neighbors) Digit board (l.drop w) g →
    LexLe (s.spaces.drop w) s.board g

/-- A result of the search for the spaces from `w` on. -/
def Searched (neighbors : Nat → List Nat) (w : Nat) (board : Nat → Nat) (l : List Nat)
    (result : Option (Bool × Puzzle)) : Prop :=
  (∃ s, result = some (true, s) ∧ Found neighbors w board l s) ∨
  (∃ s, result = some (false, s) ∧ Stays w board l s ∧
    ¬ ∃ g, Filling (Near neighbors) Digit board (l.drop w) g)

section Search

variable {neighbors : Nat → List Nat} {pick : Nat → Puzzle → Puzzle}
  {rec : Puzzle → Option (Bool × Puzzle)} {w cell v : Nat} {board : Nat → Nat} {l l' : List Nat}

/-- Lists with the same elements and the same beginning have the same elements after it. -/
theorem drop_perm (hperm : l.Perm l') (htake : l.take w = l'.take w) :
    (l.drop w).Perm (l'.drop w) := by
  apply (List.perm_append_left_iff (l.take w)).mp
  rw [List.take_append_drop, htake, List.take_append_drop]
  exact hperm

theorem take_of_take_succ (h : l.take (w + 1) = l'.take (w + 1)) : l.take w = l'.take w := by
  have htake := congrArg (List.take w) h
  rwa [List.take_take, List.take_take, Nat.min_eq_left (Nat.le_succ w)] at htake

theorem drop_cons_of_take (hw : w < l.length) (hw' : w < l'.length)
    (htake : l.take (w + 1) = l'.take (w + 1)) (hdrop : l'.drop w = cell :: l'.drop (w + 1)) :
    l.drop w = cell :: l.drop (w + 1) := by
  rw [List.drop_eq_getElem_cons hw'] at hdrop
  have hbefore := take_of_take_succ htake
  rw [List.take_add_one, List.take_add_one, hbefore] at htake
  have hget := List.append_cancel_left htake
  rw [List.getElem?_eq_getElem hw, List.getElem?_eq_getElem hw'] at hget
  have hget : l[w] = l'[w] := by simpa using hget
  rw [List.drop_eq_getElem_cons hw, hget, (List.cons.inj hdrop).1]

/-- The space at `w` is another one than those that follow. -/
theorem next_space (hw : w < l.length) (hnodup : l.Nodup) :
    l.drop w = l.getD w 0 :: l.drop (w + 1) ∧ l.getD w 0 ∉ l.drop (w + 1) := by
  have hdrop : l.drop w = l.getD w 0 :: l.drop (w + 1) := by
    rw [List.getD_eq_getElem l 0 hw, List.drop_eq_getElem_cons hw]
  have hsub := hnodup.sublist (List.drop_sublist w l)
  rw [hdrop] at hsub
  exact ⟨hdrop, (List.nodup_cons.mp hsub).1⟩

theorem Searched.congr {result : Option (Bool × Puzzle)} (h : Searched neighbors w board l result)
    (hperm : l.Perm l') (htake : l.take w = l'.take w) :
    Searched neighbors w board l' result := by
  have hdrop := drop_perm hperm htake
  have hiff : ∀ g, Filling (Near neighbors) Digit board (l.drop w) g ↔
      Filling (Near neighbors) Digit board (l'.drop w) g := fun g => Filling.perm_iff hdrop
  simp only [Searched, hiff] at h ⊢
  rcases h with ⟨s, hrun, hfound⟩ | ⟨s, hrun, hstays, hnone⟩
  · refine .inl ⟨s, hrun, hfound.perm.trans hperm, hfound.take.trans htake,
      (hiff _).mp hfound.fills, ?_⟩
    exact fun g hg => hfound.least g ((hiff g).mpr hg)
  · exact .inr ⟨s, hrun, ⟨hstays.board, hstays.perm.trans hperm, hstays.take.trans htake⟩, hnone⟩

theorem available_iff {guess : Nat} {s : Puzzle} : available neighbors guess cell s = true ↔
    Available (Near neighbors) s.board cell guess := by
  simp [available, Available, Near]

theorem occupied_iff {board : Nat → Nat} : occupied neighbors board cell v = true ↔
    ∃ n ∈ neighbors cell, board n = v := by
  simp [occupied]

/-- In the ascending list of the digits, what is less than a digit comes before it. -/
theorem mem_before {before after : List Nat} {u : Nat}
    (h : List.range' 1 9 = before ++ v :: after) (hu : 1 ≤ u) (hlt : u < v) : u ∈ before := by
  have hsorted : (before ++ v :: after).Pairwise (· < ·) := by
    rw [← h]
    exact List.pairwise_lt_range'
  have hv : v ∈ List.range' 1 9 := by
    rw [h]
    exact List.mem_append_right _ List.mem_cons_self
  have hmem : u ∈ before ++ v :: after := by
    rw [← h]
    have hv := List.mem_range'_1.mp hv
    exact List.mem_range'_1.mpr ⟨hu, by omega⟩
  rcases List.mem_append.mp hmem with hmem | hmem
  · exact hmem
  · have hafter := (List.pairwise_append.mp hsorted).2.1
    rcases List.mem_cons.mp hmem with rfl | hmem
    · exact absurd hlt (Nat.lt_irrefl u)
    · exact absurd ((List.pairwise_cons.mp hafter).1 u hmem) (Nat.lt_asymm hlt)

/-- A guess after which the rest can be filled. -/
def Works (neighbors : Nat → List Nat) (w : Nat) (board : Nat → Nat) (l : List Nat)
    (cell v : Nat) : Prop :=
  Available (Near neighbors) board cell v ∧
    ∃ g, Filling (Near neighbors) Digit (update board cell v) (l.drop (w + 1)) g

/-- One guess: what it finds is found with the guess in the cell, and else it is taken back. -/
theorem tryGuess_spec (hcell : board cell = 0)
    (hrec : ∀ s, Stays (w + 1) (update board cell v) l s →
      Searched neighbors (w + 1) (update board cell v) l (rec s))
    {s : Puzzle} (hs : Stays (w + 1) board l s) :
    (∃ s', tryGuess neighbors rec cell v s = some (true, s') ∧
      Available (Near neighbors) board cell v ∧
      Found neighbors (w + 1) (update board cell v) l s') ∨
    (∃ s', tryGuess neighbors rec cell v s = some (false, s') ∧
      ¬ Works neighbors w board l cell v ∧ Stays (w + 1) board l s') := by
  have hboard := hs.board
  unfold tryGuess
  by_cases havail : available neighbors v cell s = true
  · have hfree := available_iff.mp havail
    rw [hboard] at hfree
    rw [if_pos havail, hold, hboard, if_pos hcell, Option.bind_eq_bind, Option.bind_some]
    rcases hrec { s with board := update board cell v } ⟨rfl, hs.perm, hs.take⟩ with
      ⟨s', hrun, hfound⟩ | ⟨s', hrun, hstays, hnone⟩
    · rw [hrun]
      exact .inl ⟨s', rfl, hfree, hfound⟩
    · have hheld : s'.board cell = v := by rw [hstays.board, Function.update_self]
      have hback : update s'.board cell 0 = board := by
        rw [hstays.board, Function.update_idem, ← hcell, Function.update_eq_self]
      refine .inr ⟨{ s' with board := board }, ?_, fun h => hnone h.2, rfl, hstays.perm, hstays.take⟩
      rw [hrun]
      simp [unhold, hheld, hback]
  · rw [if_neg havail]
    refine .inr ⟨s, rfl, ?_, hs⟩
    rintro ⟨hfree, -⟩
    rw [← hboard] at hfree
    exact havail (available_iff.mpr hfree)

/-- The search ends; it finds the least filling of the spaces for the order that it leaves them in,
or there is no filling and the board is as it was. -/
theorem solveWith_spec (hpick : Picks pick) (hsymm : ∀ c d, Near neighbors c d → Near neighbors d c)
    (hirrefl : ∀ c, ¬ Near neighbors c c) (fuel w : Nat) (s : Puzzle)
    (hfuel : s.spaces.length < w + fuel) (hw : w ≤ s.spaces.length) (hnodup : s.spaces.Nodup)
    (hopen : ∀ c ∈ s.spaces.drop w, s.board c = 0) :
    Searched neighbors w s.board s.spaces (solveWith neighbors pick fuel w s) := by
  induction fuel generalizing w s with
  | zero => omega
  | succ fuel ih =>
    rw [solveWith]
    by_cases hend : s.spaces.length ≤ w
    · rw [if_pos hend]
      refine .inl ⟨s, rfl, List.Perm.refl _, rfl, ?_, ?_⟩
      · rw [List.drop_of_length_le hend]
        exact Filling.nil_iff.mpr rfl
      · intro g _
        rw [List.drop_of_length_le hend]
        exact trivial
    · rw [if_neg hend]
      have hlt : w < s.spaces.length := Nat.lt_of_not_le hend
      have hboard := hpick.board w s
      have hperm := hpick.perm w s hlt
      have htake := hpick.take w s hlt
      dsimp only
      generalize pick w s = t at hboard hperm htake
      apply Searched.congr _ hperm htake
      have hnodup := hperm.nodup_iff.mpr hnodup
      have hlt : w < t.spaces.length := by rwa [hperm.length_eq]
      have hfuel : t.spaces.length < w + (fuel + 1) := by rwa [hperm.length_eq]
      have hopen : ∀ c ∈ t.spaces.drop w, s.board c = 0 :=
        fun c hc => hopen c ((drop_perm hperm htake).mem_iff.mp hc)
      -- The space that comes next, and the spaces that remain.
      obtain ⟨hdrop, hnotin⟩ := next_space hlt hnodup
      generalize t.spaces.getD w 0 = cell at hdrop hnotin
      rw [hdrop] at hopen
      have hcell := hopen cell List.mem_cons_self
      have hrest := fun c hc => hopen c (List.mem_cons_of_mem cell hc)
      have hstep : ∀ g, Filling (Near neighbors) Digit s.board (t.spaces.drop w) g ↔
          ∃ v, Digit v ∧ Available (Near neighbors) s.board cell v ∧
            Filling (Near neighbors) Digit (update s.board cell v) (t.spaces.drop (w + 1)) g := by
        intro g
        rw [hdrop]
        apply Filling.cons_iff hsymm hirrefl hnotin
        intro c hc hdigit
        rw [hrest c hc] at hdigit
        exact absurd hdigit.1 (Nat.not_succ_le_zero 0)
      have hrec : ∀ v u, Stays (w + 1) (update s.board cell v) t.spaces u →
          Searched neighbors (w + 1) (update s.board cell v) t.spaces
            (solveWith neighbors pick fuel (w + 1) u) := by
        intro v u hu
        have hlength := hu.perm.length_eq
        have hsearch := ih (w + 1) u (by omega) (by omega) (hu.perm.nodup_iff.mpr hnodup) (by
          intro c hc
          have hc := (drop_perm hu.perm hu.take).mem_iff.mp hc
          have hne : c ≠ cell := by
            rintro rfl
            exact hnotin hc
          rw [hu.board, Function.update_of_ne hne]
          exact hrest c hc)
        rw [hu.board] at hsearch
        exact hsearch.congr hu.perm hu.take
      rcases tryEach_spec (Stays (w + 1) s.board t.spaces)
          (fun v => ¬ Works neighbors w s.board t.spaces cell v)
          (fun v u => Available (Near neighbors) s.board cell v ∧
            Found neighbors (w + 1) (update s.board cell v) t.spaces u) (List.range' 1 9)
          (fun v _ u hu => tryGuess_spec hcell (hrec v) hu) ⟨hboard, List.Perm.refl _, rfl⟩ with
        ⟨before, v, after, u, hsplit, hrun, hfails, hfree, hfound⟩ | ⟨u, hrun, hfails, hstays⟩
      · have hv : v ∈ List.range' 1 9 := by
          rw [hsplit]
          exact List.mem_append_right _ List.mem_cons_self
        refine .inl ⟨u, hrun, hfound.perm, take_of_take_succ hfound.take,
          (hstep _).mpr ⟨v, digit_of_mem hv, hfree, hfound.fills⟩, ?_⟩
        intro g hg
        obtain ⟨v', hv', hfree', hg⟩ := (hstep g).mp hg
        have hu : u.board cell = v := by
          rw [hfound.fills.same cell hnotin, Function.update_self]
        have hg' : g cell = v' := by
          rw [hg.same cell hnotin, Function.update_self]
        rw [drop_cons_of_take (by rwa [hfound.perm.length_eq]) hlt hfound.take hdrop, LexLe, hu, hg']
        rcases Nat.lt_trichotomy v v' with hless | rfl | hless
        · exact .inl hless
        · exact .inr ⟨rfl, hfound.least g hg⟩
        · -- the guess came before, and failed
          exact absurd ⟨hfree', g, hg⟩ (hfails v' (mem_before hsplit hv'.1 hless))
      · refine .inr ⟨u, hrun, ⟨hstays.board, hstays.perm, take_of_take_succ hstays.take⟩, ?_⟩
        rintro ⟨g, hg⟩
        obtain ⟨v, hv, hfree, hg⟩ := (hstep g).mp hg
        exact hfails v (mem_digits.mpr hv) ⟨hfree, g, hg⟩

/-! ## On a board -/

theorem mem_findSpaces {c : Nat} : c ∈ findSpaces board ↔ c < 81 ∧ board c = 0 := by
  simp [findSpaces]

theorem findSpaces_nodup (board : Nat → Nat) : (findSpaces board).Nodup :=
  List.nodup_range.filter _

theorem findSpaces_length (board : Nat → Nat) : (findSpaces board).length ≤ 81 :=
  (List.length_filter_le _ _).trans (Nat.le_of_eq List.length_range)

/-- Every blank gets a digit that none of its peers has, and the givens stay. -/
def Fills (given full : Nat → Nat) : Prop := Filling Peer Digit given (findSpaces given) full

/-- The board of a line: digits, with nothing beyond. -/
theorem input_spec {line : Bytes} {s : Puzzle} (h : input line = some s) :
    (∀ i < 81, s.board i ≤ 9) ∧ s.spaces = findSpaces s.board := by
  obtain ⟨board, hboard, h⟩ := Option.bind_eq_some_iff.mp h
  cases h
  unfold Dance.input at hboard
  split at hboard
  · rename_i hdigit
    cases hboard
    refine ⟨?_, rfl⟩
    intro i hi
    have hcell := hdigit i hi
    show (line.getD i 0).toNat - 48 ≤ 9
    omega
  · cases hboard

/-- A filling is a completion exactly when the givens do not conflict. -/
theorem Fills.completes_iff {given full : Nat → Nat} (h : Fills given full)
    (hdigit : ∀ i < 81, given i ≤ 9) : Completes given full ↔ Consistent given := by
  constructor
  · exact Completes.consistent
  · intro hgiven
    have hkeeps : ∀ i < 81, given i ≠ 0 → full i = given i := fun i hi hne =>
      h.same i fun hmem => hne (mem_findSpaces.mp hmem).2
    refine Sudoku.completes_iff.mpr ⟨?_, hkeeps, ?_⟩
    · intro i hi
      by_cases hne : given i = 0
      · exact h.color i (mem_findSpaces.mpr ⟨hi, hne⟩)
      · rw [hkeeps i hi hne]
        exact ⟨Nat.pos_of_ne_zero hne, hdigit i hi⟩
    · intro c d hpeer
      by_cases hc : given c = 0
      · exact h.proper c (mem_findSpaces.mpr ⟨hpeer.1, hc⟩) d hpeer
      · by_cases hd : given d = 0
        · exact (h.proper d (mem_findSpaces.mpr ⟨hpeer.2.1, hd⟩) c hpeer.symm).symm
        · rw [hkeeps c hpeer.1 hc, hkeeps d hpeer.2.1 hd]
          exact hgiven c d hpeer hc

/-- Every completion is a filling, on the board. -/
theorem fills_of_completes {given full : Nat → Nat} (h : Completes given full) :
    Fills given fun i => if i < 81 then full i else given i := by
  obtain ⟨hdigit, hkeeps, hproper⟩ := Sudoku.completes_iff.mp h
  refine ⟨?_, ?_, ?_⟩
  · intro c hc
    by_cases hlt : c < 81
    · have hne : given c ≠ 0 := fun hz => hc (mem_findSpaces.mpr ⟨hlt, hz⟩)
      exact (if_pos hlt).trans (hkeeps c hlt hne)
    · exact if_neg hlt
  · intro c hc
    have hlt := (mem_findSpaces.mp hc).1
    show Digit (if c < 81 then full c else given c)
    rw [if_pos hlt]
    exact hdigit c hlt
  · intro c hc d hpeer
    show (if d < 81 then full d else given d) ≠ (if c < 81 then full c else given c)
    rw [if_pos hpeer.1, if_pos hpeer.2.1]
    exact hproper c d hpeer

theorem near_neighborTable : Near neighborTable = Peer := by
  funext c d
  exact propext mem_neighborTable

/-- The search on a board, with all its spaces before it. -/
theorem solveWith_board (hpick : Picks pick) {fuel : Nat} (hfuel : 81 < fuel) {s : Puzzle}
    (hspaces : s.spaces = findSpaces s.board) :
    (∃ s', solveWith neighborTable pick fuel 0 s = some (true, s') ∧ s'.spaces.Perm s.spaces ∧
      Fills s.board s'.board ∧ ∀ full, Fills s.board full → LexLe s'.spaces s'.board full) ∨
    (∃ s', solveWith neighborTable pick fuel 0 s = some (false, s') ∧ s'.spaces.Perm s.spaces ∧
      s'.board = s.board ∧ ¬ ∃ full, Fills s.board full) := by
  have hlength := findSpaces_length s.board
  rw [← hspaces] at hlength
  have hsymm : ∀ c d, Near neighborTable c d → Near neighborTable d c := by
    rw [near_neighborTable]
    exact fun c d => Peer.symm
  have hirrefl : ∀ c, ¬ Near neighborTable c c := by
    rw [near_neighborTable]
    exact Peer.irrefl
  have hsearch := solveWith_spec hpick hsymm hirrefl fuel 0 s (by omega) (Nat.zero_le _)
    (by
      rw [hspaces]
      exact findSpaces_nodup s.board)
    (by
      intro c hc
      rw [hspaces] at hc
      exact (mem_findSpaces.mp hc).2)
  rcases hsearch with ⟨s', hrun, hfound⟩ | ⟨s', hrun, hstays, hnone⟩
  · have hfills := hfound.fills
    have hleast := hfound.least
    rw [near_neighborTable, List.drop_zero, hspaces] at hfills hleast
    exact .inl ⟨s', hrun, hfound.perm, hfills, hleast⟩
  · rw [near_neighborTable, List.drop_zero, hspaces] at hnone
    exact .inr ⟨s', hrun, hstays.perm, hstays.board, hnone⟩

/-! ## The two solvers -/

theorem picks_basic : Picks fun _ s => s where
  board := fun _ _ => rfl
  perm := fun _ s _ => List.Perm.refl s.spaces
  take := fun _ _ _ => rfl

theorem picks_minArity (neighbors : Nat → List Nat) : Picks fun space s =>
    { s with spaces := findMinArity (arity neighbors s.board) space s.spaces } where
  board := fun _ _ => rfl
  perm := fun _ _ hw => (findMinArity_spec hw).1
  take := fun _ _ hw => (findMinArity_spec hw).2.1

/-- A guess changes the spaces only where the recursive call does. -/
theorem tryGuess_spaces {s s' : Puzzle} {found : Bool}
    (h : tryGuess neighbors rec cell v s = some (found, s')) : s' = s ∨
    ∃ u, rec { s with board := update s.board cell v } = some (found, u) ∧ s'.spaces = u.spaces := by
  unfold tryGuess at h
  by_cases havail : available neighbors v cell s = true
  · rw [if_pos havail] at h
    obtain ⟨t, ht, h⟩ := Option.bind_eq_some_iff.mp h
    obtain ⟨⟨found', u⟩, hu, h⟩ := Option.bind_eq_some_iff.mp h
    obtain rfl : { s with board := update s.board cell v } = t := by
      unfold hold at ht
      split at ht
      · exact Option.some.inj ht
      · cases ht
    right
    cases found' with
    | true =>
      cases h
      exact ⟨s', hu, rfl⟩
    | false =>
      obtain ⟨t, ht, h⟩ := Option.bind_eq_some_iff.mp h
      cases h
      refine ⟨u, hu, ?_⟩
      unfold unhold at ht
      split at ht
      · cases ht
        rfl
      · cases ht
  · rw [if_neg havail] at h
    cases h
    exact .inl rfl

/-- Without another choice of the next space the spaces stay in their order. -/
theorem solveSudokuBasic_spaces (fuel w : Nat) {s s' : Puzzle} {found : Bool}
    (h : solveSudokuBasic neighbors fuel w s = some (found, s')) : s'.spaces = s.spaces := by
  induction fuel generalizing w s s' found with
  | zero => cases h
  | succ fuel ih =>
    rw [solveSudokuBasic, solveWith] at h
    split at h
    · cases h
      rfl
    · apply tryEach_keeps (fun t => t.spaces = s.spaces) _ rfl h
      intro guess t found' t' ht hbody
      rcases tryGuess_spaces hbody with rfl | ⟨u, hu, heq⟩
      · exact ht
      · exact heq.trans ((ih (w + 1) hu).trans ht)

/-- `solve_sudoku_basic` ends on every board: it leaves the least way to fill the blanks with digits
that no peer has, or there is none and all is as it was. What it leaves is a completion exactly when
no two equal givens are peers. -/
theorem solveSudokuBasic_spec (hn : initNeighbors = some neighbors) {line : Bytes} {s : Puzzle}
    (hin : input line = some s) {fuel : Nat} (hfuel : 81 < fuel) :
    (∃ s', solveSudokuBasic neighbors fuel 0 s = some (true, s') ∧ Fills s.board s'.board ∧
      (∀ full, Fills s.board full → LexLe (findSpaces s.board) s'.board full) ∧
      (Completes s.board s'.board ↔ Consistent s.board)) ∨
    (solveSudokuBasic neighbors fuel 0 s = some (false, s) ∧ ¬ ∃ full, Fills s.board full) := by
  obtain ⟨hdigit, hspaces⟩ := input_spec hin
  obtain rfl : neighborTable = neighbors := Option.some.inj (initNeighbors_eq.symm.trans hn)
  rcases solveWith_board picks_basic hfuel hspaces with
    ⟨s', hrun, -, hfills, hleast⟩ | ⟨s', hrun, -, hboard, hnone⟩
  · refine .inl ⟨s', hrun, hfills, ?_, hfills.completes_iff hdigit⟩
    intro full hfull
    have hleast := hleast full hfull
    rwa [solveSudokuBasic_spaces fuel 0 hrun, hspaces] at hleast
  · have hsame : s' = s := by
      have hs := solveSudokuBasic_spaces fuel 0 hrun
      cases s
      cases s'
      rw [Puzzle.mk.injEq]
      exact ⟨hboard, hs⟩
    rw [hsame] at hrun
    exact .inr ⟨hrun, hnone⟩

/-- The empty board. -/
theorem solveSudokuBasic_spec_blank : ∃ neighbors s, initNeighbors = some neighbors ∧
    input (List.replicate 81 48) = some s ∧
    ((∃ s', solveSudokuBasic neighbors 82 0 s = some (true, s') ∧ Fills s.board s'.board ∧
      (∀ full, Fills s.board full → LexLe (findSpaces s.board) s'.board full) ∧
      (Completes s.board s'.board ↔ Consistent s.board)) ∨
    (solveSudokuBasic neighbors 82 0 s = some (false, s) ∧ ¬ ∃ full, Fills s.board full)) := by
  obtain ⟨s, hs⟩ := Option.isSome_iff_exists.mp
    (show (input (List.replicate 81 48)).isSome = true by decide +kernel)
  exact ⟨neighborTable, s, initNeighbors_eq, hs,
    solveSudokuBasic_spec initNeighbors_eq hs (by omega)⟩

/-- `solve_sudoku_min_arity` has the verdict of `solve_sudoku_basic` on every board. It leaves a way to
fill the blanks as well, the least one for the order into which it has brought the spaces; where there
is only one, both leave it. When it fails, the board is as it was, and the spaces are so up to their
order. -/
theorem solveSudokuMinArity_spec (hn : initNeighbors = some neighbors) {line : Bytes} {s : Puzzle}
    (hin : input line = some s) {fuel : Nat} (hfuel : 81 < fuel) :
    ∃ found t t', solveSudokuBasic neighbors fuel 0 s = some (found, t) ∧
      solveSudokuMinArity neighbors fuel 0 s = some (found, t') ∧
      (found = true → t'.spaces.Perm (findSpaces s.board) ∧ Fills s.board t'.board ∧
        (∀ full, Fills s.board full → LexLe t'.spaces t'.board full) ∧
        ((∃! full, Fills s.board full) → t'.board = t.board)) ∧
      (found = false → t'.spaces.Perm (findSpaces s.board) ∧ t'.board = s.board) := by
  obtain ⟨-, hspaces⟩ := input_spec hin
  obtain rfl : neighborTable = neighbors := Option.some.inj (initNeighbors_eq.symm.trans hn)
  rcases solveWith_board picks_basic hfuel hspaces with
    ⟨t, hrun, -, hfills, -⟩ | ⟨t, hrun, -, -, hnone⟩
  · rcases solveWith_board (picks_minArity neighborTable) hfuel hspaces with
      ⟨t', hrun', hperm, hfills', hleast⟩ | ⟨t', -, -, -, hnone'⟩
    · refine ⟨true, t, t', hrun, hrun', fun _ => ⟨by rwa [← hspaces], hfills', hleast, ?_⟩, nofun⟩
      exact fun hone => hone.unique hfills' hfills
    · exact absurd ⟨_, hfills⟩ hnone'
  · rcases solveWith_board (picks_minArity neighborTable) hfuel hspaces with
      ⟨t', -, -, hfills', -⟩ | ⟨t', hrun', hperm, hboard, -⟩
    · exact absurd ⟨_, hfills'⟩ hnone
    · exact ⟨false, t, t', hrun, hrun', nofun, fun _ => ⟨by rwa [← hspaces], hboard⟩⟩

theorem solveSudokuMinArity_spec_blank : ∃ neighbors s, initNeighbors = some neighbors ∧
    input (List.replicate 81 48) = some s ∧
    ∃ found t t', solveSudokuBasic neighbors 82 0 s = some (found, t) ∧
      solveSudokuMinArity neighbors 82 0 s = some (found, t') ∧
      (found = true → t'.spaces.Perm (findSpaces s.board) ∧ Fills s.board t'.board ∧
        (∀ full, Fills s.board full → LexLe t'.spaces t'.board full) ∧
        ((∃! full, Fills s.board full) → t'.board = t.board)) ∧
      (found = false → t'.spaces.Perm (findSpaces s.board) ∧ t'.board = s.board) := by
  obtain ⟨s, hs⟩ := Option.isSome_iff_exists.mp
    (show (input (List.replicate 81 48)).isSome = true by decide +kernel)
  exact ⟨neighborTable, s, initNeighbors_eq, hs,
    solveSudokuMinArity_spec initNeighbors_eq hs (by omega)⟩

end Search

end Puzzle

end CloudLabs.Sudoku
