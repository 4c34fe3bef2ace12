import CloudLabs.Sudoku.Backtrack

/-!
# The solver with a cache

`solve_sudoku_min_arity_cache` keeps the arities, and which values the neighbours of a cell have,
instead of counting them at each step. `Coherent` says what the cache is for the open cells; of the
cells that are filled it may say anything, since nobody asks. The search runs in lockstep with
`solve_sudoku_min_arity` (`cache_lockstep`): it does the same to board and spaces, and a search that
finds nothing gives the cache back as it was.
-/

set_option autoImplicit false

namespace CloudLabs.Sudoku

open CloudLabs.Foundation
open Function (update)

/-- `occupied` and `arity`. -/
structure Cache where
  occupied : Nat → Nat → Bool
  arity : Nat → Int

structure CachedPuzzle where
  puzzle : Puzzle
  cache : Cache

namespace Cache

/-- `occupied[cell][val] = b`. -/
def occupy (cell val : Nat) (b : Bool) (c : Cache) : Cache :=
  { c with occupied := update c.occupied cell (update (c.occupied cell) val b) }

/-- `occupied[neighbor][val] = b`, and the arity of the neighbour changes with it. -/
def count (neighbor val : Nat) (b : Bool) (step : Int) (c : Cache) : Cache :=
  { occupy neighbor val b c with arity := update c.arity neighbor (c.arity neighbor + step) }

/-- The loop over the neighbours that may have to give up a value; it also yields the neighbours that
did, in their order. -/
def occupyAll (val : Nat) : List Nat → Cache → List Nat × Cache
  | [], c => ([], c)
  | neighbor :: rest, c =>
    if c.occupied neighbor val = false then
      let (modified, c) := occupyAll val rest (count neighbor val true (-1) c)
      (neighbor :: modified, c)
    else occupyAll val rest c

/-- The loop that gives the value back to them, each of which must have given it up. -/
def releaseAll (val : Nat) : List Nat → Cache → Option Cache
  | [], c => some c
  | neighbor :: rest, c =>
    if c.occupied neighbor val then releaseAll val rest (count neighbor val false 1 c) else none

def initCache (neighbors : Nat → List Nat) (board : Nat → Nat) : Cache :=
  (List.range 81).foldl (fun c cell =>
    let c := occupy cell 0 true c
    if board cell > 0 then
      (occupyAll (board cell) (neighbors cell) (occupy cell (board cell) true c)).2
    else c) { occupied := fun _ _ => false, arity := fun _ => 9 }

end Cache

namespace CachedPuzzle

open Cache

/-- The body of the loop over the guesses; `rec` is the recursive call. -/
def tryGuess (neighbors : Nat → List Nat) (rec : CachedPuzzle → Option (Bool × CachedPuzzle))
    (cell guess : Nat) (s : CachedPuzzle) : Option (Bool × CachedPuzzle) :=
  if s.cache.occupied cell guess = false then do
    let puzzle ← Puzzle.hold cell guess s.puzzle
    let (modified, cache) := occupyAll guess (neighbors cell) (occupy cell guess true s.cache)
    let (found, s) ← rec { puzzle := puzzle, cache := cache }
    if found then some (true, s)
    else do
      let puzzle ← Puzzle.unhold cell guess s.puzzle
      let cache ← releaseAll guess modified (occupy cell guess false s.cache)
      some (false, { puzzle := puzzle, cache := cache })
  else some (false, s)

def solveSudokuMinArityCache (neighbors : Nat → List Nat) :
    Nat → Nat → CachedPuzzle → Option (Bool × CachedPuzzle)
  | 0, _, _ => none
  | fuel + 1, whichSpace, s =>
    if s.puzzle.spaces.length ≤ whichSpace then some (true, s)
    else
      let spaces := Puzzle.findMinArity s.cache.arity whichSpace s.puzzle.spaces
      let s := { s with puzzle := { s.puzzle with spaces := spaces } }
      let cell := s.puzzle.spaces.getD whichSpace 0
      tryEach (tryGuess neighbors (solveSudokuMinArityCache neighbors fuel (whichSpace + 1)) cell)
        (List.range' 1 9) s

end CachedPuzzle

namespace Cache

section Loops

variable {val cell : Nat} {b : Bool} {step : Int} {c : Cache} {ns : List Nat}

/-! ## What the loops do -/

theorem occupy_occupied (x u : Nat) : (occupy cell val b c).occupied x u =
    if x = cell ∧ u = val then b else c.occupied x u := by
  unfold occupy
  dsimp only
  by_cases hx : x = cell
  · subst hx
    rw [Function.update_self]
    by_cases hu : u = val
    · rw [hu, Function.update_self, if_pos ⟨rfl, rfl⟩]
    · rw [Function.update_of_ne hu, if_neg fun h => hu h.2]
  · rw [Function.update_of_ne hx, if_neg fun h => hx h.1]

theorem occupy_arity : (occupy cell val b c).arity = c.arity := rfl

theorem count_occupied (x u : Nat) : (count cell val b step c).occupied x u =
    if x = cell ∧ u = val then b else c.occupied x u := occupy_occupied x u

theorem count_arity (x : Nat) : (count cell val b step c).arity x =
    if x = cell then c.arity cell + step else c.arity x := by
  unfold count
  dsimp only
  by_cases hx : x = cell
  · rw [hx, Function.update_self, if_pos rfl]
  · rw [Function.update_of_ne hx, if_neg hx]

/-- The neighbours that did not have the value occupied give it up, each once. -/
theorem occupyAll_spec (val : Nat) (ns : List Nat) (c : Cache) : (occupyAll val ns c).1.Nodup ∧
    (∀ x, x ∈ (occupyAll val ns c).1 ↔ x ∈ ns ∧ c.occupied x val = false) ∧
    (∀ x u, (occupyAll val ns c).2.occupied x u = true ↔
      (x ∈ ns ∧ u = val) ∨ c.occupied x u = true) ∧
    ∀ x, (occupyAll val ns c).2.arity x =
      c.arity x - if x ∈ ns ∧ c.occupied x val = false then 1 else 0 := by
  induction ns generalizing c with
  | nil => simp [occupyAll]
  | cons n ns ih =>
    rw [occupyAll]
    by_cases hfree : c.occupied n val = false
    · obtain ⟨hnodup, hmem, hocc, harity⟩ := ih (count n val true (-1) c)
      rw [if_pos hfree]
      dsimp only
      simp only [count_occupied, count_arity] at hmem hocc harity
      refine ⟨?_, ?_, ?_, ?_⟩
      · refine List.nodup_cons.mpr ⟨?_, hnodup⟩
        intro h
        simpa using ((hmem n).mp h).2
      · intro x
        rw [List.mem_cons, List.mem_cons, hmem]
        by_cases hx : x = n
        · subst hx
          simp [hfree]
        · simp [hx]
      · intro x u
        rw [hocc, List.mem_cons]
        by_cases hx : x = n
        · subst hx
          by_cases hu : u = val <;> simp [hu]
        · simp [hx]
      · intro x
        rw [harity]
        by_cases hx : x = n
        · subst hx
          simp [hfree]
          omega
        · simp [hx]
    · obtain ⟨hnodup, hmem, hocc, harity⟩ := ih c
      rw [if_neg hfree]
      have htaken : c.occupied n val = true := by simpa using hfree
      refine ⟨hnodup, ?_, ?_, ?_⟩
      · intro x
        rw [hmem, List.mem_cons]
        by_cases hx : x = n
        · subst hx
          simp [htaken]
        · simp [hx]
      · intro x u
        rw [hocc, List.mem_cons]
        by_cases hx : x = n
        · subst hx
          by_cases hu : u = val
          · subst hu
            simp [htaken]
          · simp [hu]
        · simp [hx]
      · intro x
        rw [harity]
        by_cases hx : x = n
        · subst hx
          simp [htaken]
        · simp [hx]

/-- What was given up is given back. -/
theorem releaseAll_spec {ms : List Nat} (hnodup : ms.Nodup) (hocc : ∀ x ∈ ms, c.occupied x val = true) :
    ∃ c', releaseAll val ms c = some c' ∧
      (∀ x u, c'.occupied x u = if x ∈ ms ∧ u = val then false else c.occupied x u) ∧
      ∀ x, c'.arity x = c.arity x + if x ∈ ms then 1 else 0 := by
  induction ms generalizing c with
  | nil => exact ⟨c, rfl, by simp, by simp⟩
  | cons m ms ih =>
    obtain ⟨hm, hnodup⟩ := List.nodup_cons.mp hnodup
    obtain ⟨c', hrun, hocc', harity⟩ := ih (c := count m val false 1 c) hnodup (by
      intro x hx
      have hne : x ≠ m := by
        rintro rfl
        exact hm hx
      rw [count_occupied, if_neg fun h => hne h.1]
      exact hocc x (List.mem_cons_of_mem _ hx))
    refine ⟨c', ?_, ?_, ?_⟩
    · rw [releaseAll, if_pos (hocc m List.mem_cons_self)]
      exact hrun
    · intro x u
      rw [hocc', count_occupied]
      by_cases hx : x = m
      · subst hx
        by_cases hu : u = val <;> simp [hu]
      · simp [hx]
    · intro x
      rw [harity, count_arity]
      by_cases hx : x = m
      · subst hx
        simp [hm]
      · simp [hx]

/-- A guess that is taken back leaves the cache as it was. -/
theorem release_occupy (hfree : c.occupied cell val = false) (hcell : cell ∉ ns) :
    releaseAll val (occupyAll val ns (occupy cell val true c)).1
      (occupy cell val false (occupyAll val ns (occupy cell val true c)).2) = some c := by
  obtain ⟨hnodup, hmem, hocc, harity⟩ := occupyAll_spec val ns (occupy cell val true c)
  generalize occupyAll val ns (occupy cell val true c) = r at hnodup hmem hocc harity
  have hne : ∀ x ∈ ns, x ≠ cell := by
    rintro x hx rfl
    exact hcell hx
  obtain ⟨c', hrun, hocc', harity'⟩ := releaseAll_spec (c := occupy cell val false r.2) hnodup (by
    intro x hx
    have hx := ((hmem x).mp hx).1
    rw [occupy_occupied, if_neg fun h => hne x hx h.1]
    exact (hocc x val).mpr (.inl ⟨hx, rfl⟩))
  have hmodified : ∀ x, x ∈ r.1 ↔ x ∈ ns ∧ c.occupied x val = false := by
    intro x
    rw [hmem, occupy_occupied]
    apply and_congr_right
    intro hx
    rw [if_neg fun h => hne x hx h.1]
  rw [hrun]
  congr 1
  cases c' with
  | mk occupied' arity' =>
    have hsame : occupied' = c.occupied := by
      funext x u
      have hxu := hocc' x u
      dsimp only at hxu
      rw [hxu, occupy_occupied]
      by_cases hmod : x ∈ r.1 ∧ u = val
      · rw [if_pos hmod, hmod.2, ((hmodified x).mp hmod.1).2]
      · rw [if_neg hmod]
        by_cases hx : x = cell ∧ u = val
        · rw [if_pos hx, hx.1, hx.2, hfree]
        · rw [if_neg hx, Bool.eq_iff_iff, hocc, occupy_occupied, if_neg hx]
          apply or_iff_right_of_imp
          -- a neighbour that did not give the value up had it occupied
          rintro ⟨hns, rfl⟩
          by_contra hfalse
          exact hmod ⟨(hmodified x).mpr ⟨hns, by simpa using hfalse⟩, rfl⟩
    have hsame' : arity' = c.arity := by
      funext x
      have hx := harity' x
      dsimp only at hx
      rw [hx, occupy_arity, harity, occupy_arity]
      simp only [hmem]
      omega
    rw [hsame, hsame']

/-! ## Coherence -/

/-- For the open cells, the cache is what is to be counted. -/
def Coherent (neighbors : Nat → List Nat) (board : Nat → Nat) (c : Cache) : Prop :=
  ∀ x < 81, board x = 0 →
    (∀ u, Puzzle.Digit u → (c.occupied x u = true ↔ Puzzle.occupied neighbors board x u = true)) ∧
    c.arity x = Puzzle.arity neighbors board x

variable {neighbors : Nat → List Nat} {board : Nat → Nat}

/-- A value goes into an open cell. -/
theorem Coherent.hold (h : Coherent neighbors board c)
    (hsymm : ∀ x y, Puzzle.Near neighbors x y → Puzzle.Near neighbors y x) (hcell : board cell = 0)
    (hval : Puzzle.Digit val) : Coherent neighbors (update board cell val)
      (occupyAll val (neighbors cell) (occupy cell val true c)).2 := by
  intro x hx hopen
  have hne : x ≠ cell := by
    rintro rfl
    rw [Function.update_self] at hopen
    exact absurd hval.1 (by omega)
  rw [Function.update_of_ne hne] at hopen
  obtain ⟨hocc, harity⟩ := h x hx hopen
  obtain ⟨-, -, hocc', harity'⟩ := occupyAll_spec val (neighbors cell) (occupy cell val true c)
  replace hocc' := hocc' x
  replace harity' := harity' x
  simp only [occupy_occupied, hne, false_and, if_false, occupy_arity] at hocc' harity'
  have hnear : x ∈ neighbors cell ↔ cell ∈ neighbors x := ⟨hsymm cell x, hsymm x cell⟩
  -- A digit is occupied after the step exactly when it was before, or when it is this one.
  have hstep : ∀ u, Puzzle.Digit u → (Puzzle.occupied neighbors (update board cell val) x u = true ↔
      (x ∈ neighbors cell ∧ u = val) ∨ Puzzle.occupied neighbors board x u = true) := by
    intro u hu
    rw [Puzzle.occupied_iff, Puzzle.occupied_iff]
    constructor
    · rintro ⟨n, hn, heq⟩
      by_cases hnc : n = cell
      · subst hnc
        rw [Function.update_self] at heq
        exact .inl ⟨hnear.mpr hn, heq.symm⟩
      · rw [Function.update_of_ne hnc] at heq
        exact .inr ⟨n, hn, heq⟩
    · rintro (⟨hn, rfl⟩ | ⟨n, hn, heq⟩)
      · exact ⟨cell, hnear.mp hn, Function.update_self ..⟩
      · have hnc : n ≠ cell := by
          rintro rfl
          rw [hcell] at heq
          exact absurd hu.1 (by omega)
        exact ⟨n, hn, by rwa [Function.update_of_ne hnc]⟩
  refine ⟨?_, ?_⟩
  · intro u hu
    rw [hocc', hocc u hu, hstep u hu]
  · rw [harity', harity, Puzzle.arity, Puzzle.arity]
    by_cases hlose : x ∈ neighbors cell ∧ c.occupied x val = false
    · have hfree : Puzzle.occupied neighbors board x val = false := by
        rw [← Bool.not_eq_true, ← hocc val hval, hlose.2]
        exact Bool.false_ne_true
      have hcount := countP_lose (p := fun u => decide (Puzzle.occupied neighbors board x u = false))
        (q := fun u => decide (Puzzle.occupied neighbors (update board cell val) x u = false))
        List.nodup_range' (Puzzle.mem_digits.mpr hval) (decide_eq_true hfree)
        (decide_eq_false (by simp [(hstep val hval).mpr (.inl ⟨hlose.1, rfl⟩)]))
        (by
          intro u hu hne
          have hu := hstep u (Puzzle.digit_of_mem hu)
          simp only [hne, and_false, false_or] at hu
          rw [decide_eq_decide, ← Bool.not_eq_true, ← Bool.not_eq_true, hu])
      rw [if_pos hlose, hcount]
      omega
    · have hcount : (List.range' 1 9).countP
          (fun u => decide (Puzzle.occupied neighbors board x u = false)) =
          (List.range' 1 9).countP
          fun u => decide (Puzzle.occupied neighbors (update board cell val) x u = false) := by
        apply List.countP_congr
        intro u hu
        have hu := Puzzle.digit_of_mem hu
        rw [decide_eq_true_iff, decide_eq_true_iff, ← Bool.not_eq_true, ← Bool.not_eq_true, hstep u hu]
        apply not_congr
        symm
        apply or_iff_right_of_imp
        rintro ⟨hn, rfl⟩
        by_contra hfalse
        rw [← hocc u hu] at hfalse
        exact hlose ⟨hn, by simpa using hfalse⟩
      rw [if_neg hlose, hcount]
      omega

/-- `init_cache` goes through the cells as if their values were put in one after the other. -/
theorem initCache_coherent (hsymm : ∀ x y, Puzzle.Near neighbors x y → Puzzle.Near neighbors y x)
    (hlt : ∀ x, ∀ n ∈ neighbors x, n < 81) (hdigit : ∀ i < 81, board i ≤ 9) :
    Coherent neighbors board (initCache neighbors board) := by
  have hloop : ∀ m ≤ 81, Coherent neighbors (fun i => if i < m ∨ 81 ≤ i then board i else 0)
      ((List.range m).foldl (fun c cell =>
        let c := occupy cell 0 true c
        if board cell > 0 then
          (occupyAll (board cell) (neighbors cell) (occupy cell (board cell) true c)).2
        else c) { occupied := fun _ _ => false, arity := fun _ => 9 }) := by
    intro m
    induction m with
    | zero =>
      intro _ x _ _
      have hnone : ∀ u, Puzzle.Digit u → Puzzle.occupied neighbors
          (fun i => if i < 0 ∨ 81 ≤ i then board i else 0) x u = false := by
        intro u hu
        rw [← Bool.not_eq_true, Puzzle.occupied_iff]
        rintro ⟨n, hn, heq⟩
        have hn := hlt x n hn
        rw [if_neg (by omega)] at heq
        exact absurd hu.1 (by omega)
      refine ⟨?_, ?_⟩
      · intro u hu
        rw [hnone u hu]
        rfl
      · rw [Puzzle.arity, List.countP_eq_length.mpr, List.length_range']
        · rfl
        · intro u hu
          exact decide_eq_true (hnone u (Puzzle.digit_of_mem hu))
    | succ m ih =>
      intro hm
      have hcoh := ih (by omega)
      rw [List.range_succ, List.foldl_append, List.foldl_cons, List.foldl_nil]
      generalize (List.range m).foldl _ _ = c at hcoh
      -- the entry for the value 0 is never asked for
      have hzero : Coherent neighbors (fun i => if i < m ∨ 81 ≤ i then board i else 0)
          (occupy m 0 true c) := by
        intro x hx hopen
        obtain ⟨hocc, harity⟩ := hcoh x hx hopen
        refine ⟨?_, harity⟩
        intro u hu
        have hne : u ≠ 0 := by
          have hle := hu.1
          omega
        rw [occupy_occupied, if_neg fun h => hne h.2, hocc u hu]
      have hnext : ∀ i, (if i < m + 1 ∨ 81 ≤ i then board i else 0) =
          update (fun i => if i < m ∨ 81 ≤ i then board i else 0) m (board m) i := by
        intro i
        by_cases him : i = m
        · rw [him, Function.update_self, if_pos (by omega)]
        · rw [Function.update_of_ne him]
          by_cases hlt : i < m ∨ 81 ≤ i
          · rw [if_pos hlt, if_pos (by omega)]
          · rw [if_neg hlt, if_neg (by omega)]
      rw [funext hnext]
      by_cases hval : board m > 0
      · rw [if_pos hval]
        exact hzero.hold hsymm (if_neg (by omega)) ⟨hval, hdigit m (by omega)⟩
      · rw [if_neg hval, Nat.eq_zero_of_not_pos hval]
        have hsame : update (fun i => if i < m ∨ 81 ≤ i then board i else 0) m 0 =
            fun i => if i < m ∨ 81 ≤ i then board i else 0 := by
          apply Function.update_eq_self_iff.mpr
          rw [if_neg (by omega)]
        rw [hsame]
        exact hzero
  have hall := hloop 81 (Nat.le_refl 81)
  have hboard : (fun i => if i < 81 ∨ 81 ≤ i then board i else 0) = board := by
    funext i
    rw [if_pos (Nat.lt_or_ge i 81)]
  rw [hboard] at hall
  exact hall

end Loops

end Cache

namespace CachedPuzzle

open Cache

section Lockstep

variable {neighbors : Nat → List Nat}

/-! ## Lockstep -/

/-- One guess, with the cache and without it. -/
theorem tryGuess_lockstep {rec : CachedPuzzle → Option (Bool × CachedPuzzle)}
    {rec' : Puzzle → Option (Bool × Puzzle)} {w cell v : Nat} {board : Nat → Nat} {l : List Nat}
    {cache : Cache} (hcoh : Coherent neighbors board cache) (hlt : cell < 81)
    (hopen : board cell = 0) (hirrefl : cell ∉ neighbors cell) (hv : Puzzle.Digit v)
    (hsearch : ∀ t, Puzzle.Stays (w + 1) (update board cell v) l t →
      Puzzle.Searched neighbors (w + 1) (update board cell v) l (rec' t))
    (hrec : ∀ t, Puzzle.Stays (w + 1) (update board cell v) l t →
      SameVerdict (fun s' t' => s'.puzzle = t')
        (fun s' t' => s'.puzzle = t' ∧
          s'.cache = (occupyAll v (neighbors cell) (occupy cell v true cache)).2)
        (rec { puzzle := t, cache := (occupyAll v (neighbors cell) (occupy cell v true cache)).2 })
        (rec' t)) {s : CachedPuzzle} {t : Puzzle}
    (h : s.puzzle = t ∧ s.cache = cache ∧ Puzzle.Stays (w + 1) board l t) :
    SameVerdict (fun s' t' => s'.puzzle = t')
      (fun s' t' => s'.puzzle = t' ∧ s'.cache = cache ∧ Puzzle.Stays (w + 1) board l t')
      (tryGuess neighbors rec cell v s) (Puzzle.tryGuess neighbors rec' cell v t) := by
  obtain ⟨rfl, hcache, hstays⟩ := h
  have hboard := hstays.board
  have hfree : cache.occupied cell v = false ↔ Puzzle.available neighbors v cell s.puzzle = true := by
    rw [← Bool.not_eq_true, (hcoh cell hlt hopen).1 v hv, Puzzle.occupied_iff, Puzzle.available_iff,
      hboard]
    simp [Available, Puzzle.Near]
  unfold tryGuess Puzzle.tryGuess
  rw [hcache]
  by_cases hocc : cache.occupied cell v = false
  · rw [if_pos hocc, if_pos (hfree.mp hocc), Puzzle.hold, hboard, if_pos hopen]
    simp only [Option.bind_eq_bind, Option.bind_some]
    have hheld : Puzzle.Stays (w + 1) (update board cell v) l
        { s.puzzle with board := update board cell v } := ⟨rfl, hstays.perm, hstays.take⟩
    have hsame := hrec _ hheld
    rcases hsearch _ hheld with ⟨t', hrun, -⟩ | ⟨t', hrun, hstays', -⟩
    · rw [hrun] at hsame ⊢
      obtain ⟨s', hrun', hpuzzle⟩ := hsame.of_true
      rw [hrun']
      exact hpuzzle
    · rw [hrun] at hsame ⊢
      obtain ⟨s', hrun', hpuzzle, hcache'⟩ := hsame.of_false
      have hval : t'.board cell = v := by rw [hstays'.board, Function.update_self]
      have hback : update t'.board cell 0 = board := by
        rw [hstays'.board, Function.update_idem, ← hopen, Function.update_eq_self]
      rw [hrun']
      simp only [Option.bind_some, Bool.false_eq_true, if_false, Puzzle.unhold, hpuzzle, hval, if_true,
        hcache', release_occupy hocc hirrefl, hback]
      exact ⟨rfl, rfl, rfl, hstays'.perm, hstays'.take⟩
  · rw [if_neg hocc, if_neg (fun h => hocc (hfree.mpr h))]
    exact ⟨rfl, hcache, hstays⟩

/-- The search with the cache does what the search without it does, and gives the cache back when it
finds nothing. -/
theorem cache_lockstep (hsymm : ∀ c d, Puzzle.Near neighbors c d → Puzzle.Near neighbors d c)
    (hirrefl : ∀ c, ¬ Puzzle.Near neighbors c c) (fuel w : Nat) (s : CachedPuzzle)
    (hfuel : s.puzzle.spaces.length < w + fuel) (hw : w ≤ s.puzzle.spaces.length)
    (hnodup : s.puzzle.spaces.Nodup)
    (hopen : ∀ c ∈ s.puzzle.spaces.drop w, c < 81 ∧ s.puzzle.board c = 0)
    (hcoh : Coherent neighbors s.puzzle.board s.cache) :
    SameVerdict (fun s' t' => s'.puzzle = t') (fun s' t' => s'.puzzle = t' ∧ s'.cache = s.cache)
      (solveSudokuMinArityCache neighbors fuel w s)
      (Puzzle.solveSudokuMinArity neighbors fuel w s.puzzle) := by
  induction fuel generalizing w s with
  | zero => omega
  | succ fuel ih =>
    rw [solveSudokuMinArityCache, Puzzle.solveSudokuMinArity, Puzzle.solveWith]
    by_cases hend : s.puzzle.spaces.length ≤ w
    · rw [if_pos hend, if_pos hend]
      exact rfl
    · rw [if_neg hend, if_neg hend]
      have hlt : w < s.puzzle.spaces.length := Nat.lt_of_not_le hend
      -- The arities that are kept are those that are counted, so that the same space comes next.
      have hpick : Puzzle.findMinArity s.cache.arity w s.puzzle.spaces =
          Puzzle.findMinArity (Puzzle.arity neighbors s.puzzle.board) w s.puzzle.spaces := by
        apply Puzzle.findMinArity_congr _ hlt
        intro sp hle hlt
        have hmem : s.puzzle.spaces.getD sp 0 ∈ s.puzzle.spaces.drop w := by
          rw [List.getD_eq_getElem s.puzzle.spaces 0 hlt, List.mem_drop_iff_getElem]
          exact ⟨sp - w, by omega, by congr 1; omega⟩
        obtain ⟨hcell, hzero⟩ := hopen _ hmem
        exact (hcoh _ hcell hzero).2
      rw [hpick]
      dsimp only
      obtain ⟨hperm, htake, -⟩ :=
        @Puzzle.findMinArity_spec s.puzzle.spaces w (Puzzle.arity neighbors s.puzzle.board) hlt
      generalize Puzzle.findMinArity (Puzzle.arity neighbors s.puzzle.board) w s.puzzle.spaces = l
        at hperm htake
      have hlength := hperm.length_eq
      have hnodup := hperm.nodup_iff.mpr hnodup
      have hopen : ∀ c ∈ l.drop w, c < 81 ∧ s.puzzle.board c = 0 :=
        fun c hc => hopen c ((Puzzle.drop_perm hperm htake).mem_iff.mp hc)
      have hltl : w < l.length := by omega
      obtain ⟨hdrop, hnotin⟩ := Puzzle.next_space hltl hnodup
      rw [hdrop] at hopen
      generalize l.getD w 0 = cell at hdrop hnotin hopen
      obtain ⟨hcell, hzero⟩ := hopen cell List.mem_cons_self
      -- The spaces that remain, after a guess for this one.
      have hrest : ∀ v t, Puzzle.Stays (w + 1) (update s.puzzle.board cell v) l t →
          t.spaces.length < w + 1 + fuel ∧ w + 1 ≤ t.spaces.length ∧ t.spaces.Nodup ∧
            ∀ c ∈ t.spaces.drop (w + 1), c < 81 ∧ t.board c = 0 := by
        intro v t ht
        have hlength' := ht.perm.length_eq
        refine ⟨by omega, by omega, ht.perm.nodup_iff.mpr hnodup, ?_⟩
        intro c hc
        have hc := (Puzzle.drop_perm ht.perm ht.take).mem_iff.mp hc
        have hne : c ≠ cell := by
          rintro rfl
          exact hnotin hc
        rw [ht.board, Function.update_of_ne hne]
        exact hopen c (List.mem_cons_of_mem cell hc)
      have hbody : ∀ v ∈ List.range' 1 9, ∀ u t,
          (u.puzzle = t ∧ u.cache = s.cache ∧ Puzzle.Stays (w + 1) s.puzzle.board l t) →
          SameVerdict (fun s' t' => s'.puzzle = t')
            (fun s' t' => s'.puzzle = t' ∧ s'.cache = s.cache ∧
              Puzzle.Stays (w + 1) s.puzzle.board l t')
            (tryGuess neighbors (solveSudokuMinArityCache neighbors fuel (w + 1)) cell v u)
            (Puzzle.tryGuess neighbors (Puzzle.solveSudokuMinArity neighbors fuel (w + 1)) cell v t) := by
        intro v hv u t h
        apply tryGuess_lockstep hcoh hcell hzero (hirrefl cell) (Puzzle.digit_of_mem hv) _ _ h
        · intro t ht
          obtain ⟨hfuel', hw', hnodup', hopen'⟩ := hrest v t ht
          have hsearch := Puzzle.solveWith_spec (Puzzle.picks_minArity neighbors) hsymm hirrefl fuel
            (w + 1) t hfuel' hw' hnodup' fun c hc => (hopen' c hc).2
          rw [ht.board] at hsearch
          exact hsearch.congr ht.perm ht.take
        · intro t ht
          obtain ⟨hfuel', hw', hnodup', hopen'⟩ := hrest v t ht
          apply ih (w + 1) _ hfuel' hw' hnodup' hopen'
          rw [ht.board]
          exact hcoh.hold hsymm hzero (Puzzle.digit_of_mem hv)
      have hloop := tryEach_lockstep (s := ⟨⟨s.puzzle.board, l⟩, s.cache⟩) (t := ⟨s.puzzle.board, l⟩)
        hbody ⟨rfl, rfl, rfl, List.Perm.refl l, rfl⟩
      exact hloop.mono fun s' t' h => ⟨h.1, h.2.1⟩

/-! ## On a board -/

/-- With the cache that `init_cache` makes, the search does what `solve_sudoku_min_arity` does. -/
theorem cache_board {fuel : Nat} (hfuel : 81 < fuel) {s : Puzzle} (hdigit : ∀ i < 81, s.board i ≤ 9)
    (hspaces : s.spaces = Puzzle.findSpaces s.board) :
    SameVerdict (fun s' t' => s'.puzzle = t')
      (fun s' t' => s'.puzzle = t' ∧ s'.cache = initCache neighborTable s.board)
      (solveSudokuMinArityCache neighborTable fuel 0
        { puzzle := s, cache := initCache neighborTable s.board })
      (Puzzle.solveSudokuMinArity neighborTable fuel 0 s) := by
  have hlength := Puzzle.findSpaces_length s.board
  rw [← hspaces] at hlength
  have hsymm : ∀ c d, Puzzle.Near neighborTable c d → Puzzle.Near neighborTable d c := by
    rw [Puzzle.near_neighborTable]
    exact fun c d => Peer.symm
  have hirrefl : ∀ c, ¬ Puzzle.Near neighborTable c c := by
    rw [Puzzle.near_neighborTable]
    exact Peer.irrefl
  have hcoh : Coherent neighborTable s.board (initCache neighborTable s.board) := by
    apply initCache_coherent hsymm _ hdigit
    intro x n hn
    exact (mem_neighborTable.mp hn).2.1
  apply cache_lockstep hsymm hirrefl fuel 0 { puzzle := s, cache := initCache neighborTable s.board }
    (by dsimp only; omega) (Nat.zero_le _)
  · dsimp only
    rw [hspaces]
    exact Puzzle.findSpaces_nodup s.board
  · intro c hc
    rw [List.drop_zero] at hc
    dsimp only at hc ⊢
    rw [hspaces] at hc
    exact Puzzle.mem_findSpaces.mp hc
  · exact hcoh

/-- `solve_sudoku_min_arity_cache` after `init_cache` gives the verdict, the board and the order of the
spaces that `solve_sudoku_min_arity` gives; when it finds nothing, the cache is as `init_cache` made
it. None of its assertions fails. -/
theorem solveSudokuMinArityCache_spec (hn : initNeighbors = some neighbors) {line : Bytes} {s : Puzzle}
    (hin : Puzzle.input line = some s) {fuel : Nat} (hfuel : 81 < fuel) :
    ∃ found s', solveSudokuMinArityCache neighbors fuel 0
        { puzzle := s, cache := initCache neighbors s.board } = some (found, s') ∧
      Puzzle.solveSudokuMinArity neighbors fuel 0 s = some (found, s'.puzzle) ∧
      (found = false → s'.cache = initCache neighbors s.board) := by
  obtain ⟨hdigit, hspaces⟩ := Puzzle.input_spec hin
  obtain rfl : neighborTable = neighbors := Option.some.inj (initNeighbors_eq.symm.trans hn)
  have hsame := cache_board hfuel hdigit hspaces
  rcases Puzzle.solveWith_board (Puzzle.picks_minArity neighborTable) hfuel hspaces with
    ⟨t, hrun, -⟩ | ⟨t, hrun, -⟩
  · rw [Puzzle.solveSudokuMinArity, hrun] at hsame
    obtain ⟨s', hrun', rfl⟩ := hsame.of_true
    exact ⟨true, s', hrun', hrun, nofun⟩
  · rw [Puzzle.solveSudokuMinArity, hrun] at hsame
    obtain ⟨s', hrun', rfl, hcache⟩ := hsame.of_false
    exact ⟨false, s', hrun', hrun, fun _ => hcache⟩

theorem solveSudokuMinArityCache_spec_blank : ∃ neighbors s, initNeighbors = some neighbors ∧
    Puzzle.input (List.replicate 81 48) = some s ∧
    ∃ found s', solveSudokuMinArityCache neighbors 82 0
        { puzzle := s, cache := initCache neighbors s.board } = some (found, s') ∧
      Puzzle.solveSudokuMinArity neighbors 82 0 s = some (found, s'.puzzle) ∧
      (found = false → s'.cache = initCache neighbors s.board) := by
  obtain ⟨s, hs⟩ := Option.isSome_iff_exists.mp
    (show (Puzzle.input (List.replicate 81 48)).isSome = true by decide +kernel)
  exact ⟨neighborTable, s, initNeighbors_eq, hs,
    solveSudokuMinArityCache_spec initNeighbors_eq hs (by omega)⟩

end Lockstep

end CachedPuzzle

end CloudLabs.Sudoku
