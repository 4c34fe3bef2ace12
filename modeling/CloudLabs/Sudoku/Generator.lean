import CloudLabs.Foundation.Decimal
import CloudLabs.Sudoku.Backtrack
import CloudLabs.Sudoku.Solver

/-!
# The generator of puzzles

`make_test` blanks fifty cells of a full grid, counts with `search2` how the blanks can be filled, and
tries again until there is one way. `search2` keeps for each row, column and block which digits it
holds. It counts what it should, the completions of the blanks, as long as the counter, an `int`, can
hold their number (`search2_spec`), so that a puzzle that is printed has one completion, and the solver
gives the grid back (`makeProblem_spec`).

The random numbers are a list. What fills the first grid, `search`, is not modelled: it reads beyond
its array at the end of the grid.
-/

set_option autoImplicit false

namespace CloudLabs.Sudoku

open CloudLabs.Foundation
open Function (update)

/-- `a[x][y] = v`. -/
def set₂ (a : Nat → Nat → Nat) (x y v : Nat) : Nat → Nat → Nat := update a x (update (a x) y v)

/-- The globals that `search2` works on; `cnt` is an `int`. -/
structure Tables where
  sudoku : Nat → Nat → Nat
  row : Nat → Nat → Nat
  column : Nat → Nat → Nat
  block : Nat → Nat → Nat → Nat
  cnt : Nat

namespace Tables

/-- The entries of the digit `i` for a cell. -/
def setBits (x y i bit : Nat) (s : Tables) : Tables :=
  { s with
    row := set₂ s.row x i bit
    column := set₂ s.column y i bit
    block := update s.block ((x - 1) / 3 + 1)
      (set₂ (s.block ((x - 1) / 3 + 1)) ((y - 1) / 3 + 1) i bit) }

/-- A digit is put into a cell, or taken out of it again when `val` and `bit` are 0. -/
def put (x y i val bit : Nat) (s : Tables) : Tables :=
  setBits x y i bit { s with sudoku := set₂ s.sudoku x y val }

/-- The cells in the order of the loops over `i` and `j`, which start at 1. -/
def places : List (Nat × Nat) :=
  (List.range' 1 9).flatMap fun i => (List.range' 1 9).map fun j => (i, j)

/-- The tables are cleared and filled from the grid, as `init` does. -/
def init (sudoku : Nat → Nat → Nat) : Tables :=
  places.foldl (fun s (i, j) => if s.sudoku i j ≠ 0 then setBits i j (s.sudoku i j) 1 s else s)
    { sudoku := sudoku, row := fun _ _ => 0, column := fun _ _ => 0, block := fun _ _ _ => 0, cnt := 0 }

/-- `cnt` is increased; what the program does beyond the values of an `int` is undefined. -/
def addCnt (k : Nat) (s : Tables) : Option Tables :=
  if s.cnt + k < 2 ^ 31 then some { s with cnt := s.cnt + k } else none

/-- The body of the loop over the digits; `rec` is the recursive call. -/
def tryDigit (rec : Tables → Option Tables) (x y : Nat) (s : Tables) (i : Nat) : Option Tables :=
  if s.row x i = 0 ∧ s.column y i = 0 ∧ s.block ((x - 1) / 3 + 1) ((y - 1) / 3 + 1) i = 0 then do
    let s ← rec (put x y i i 1 s)
    some (put x y i 0 0 s)
  else some s

/-- `none`: the fuel is used up, or the counter has overflowed. -/
def search2 (known : Nat → Nat → Nat) : Nat → Nat → Nat → Tables → Option Tables
  | 0, _, _, _ => none
  | fuel + 1, x, y, s =>
    if x ≠ 10 ∧ known x y ≠ 0 then search2 known fuel ((9 * x + y - 9) / 9 + 1) (y % 9 + 1) s
    else if x = 10 ∧ y = 1 then addCnt 1 s
    else
      (List.range' 1 9).foldlM
        (tryDigit (search2 known fuel ((9 * x + y - 9) / 9 + 1) (y % 9 + 1)) x y) s

/-! ## The cells of the tables -/

/-- The value in a cell. -/
def grid (sudoku : Nat → Nat → Nat) (c : Nat) : Nat := sudoku (c / 9 + 1) (c % 9 + 1)

/-- The entry of a digit for a unit. -/
def bit (s : Tables) : Kind → Nat → Nat → Nat
  | .row, u, v => s.row (u + 1) v
  | .col, u, v => s.column (u + 1) v
  | .box, u, v => s.block (u / 3 + 1) (u % 3 + 1) v

def add (k : Nat) (s : Tables) : Tables := { s with cnt := s.cnt + k }

/-- The entries say which digits the units hold. -/
def Coherent (s : Tables) : Prop := ∀ kind : Kind, ∀ u < 9, ∀ v, Puzzle.Digit v →
  (s.bit kind u v = 0 ↔ kind.has (grid s.sudoku) u v = false)

section Cells

variable {a : Nat → Nat → Nat} {x y v w : Nat} {s : Tables} {c : Nat}

theorem set₂_apply (a : Nat → Nat → Nat) (x y v x' y' : Nat) :
    set₂ a x y v x' y' = if x' = x ∧ y' = y then v else a x' y' := by
  unfold set₂
  by_cases hx : x' = x
  · subst hx
    rw [Function.update_self]
    by_cases hy : y' = y
    · rw [hy, Function.update_self, if_pos ⟨rfl, rfl⟩]
    · rw [Function.update_of_ne hy, if_neg fun h => hy h.2]
  · rw [Function.update_of_ne hx, if_neg fun h => hx h.1]

/-- An entry that was 0 is back after it was set and cleared. -/
theorem set₂_back (h : a x y = 0) : set₂ (set₂ a x y v) x y 0 = a := by
  funext x' y'
  rw [set₂_apply, set₂_apply]
  by_cases hxy : x' = x ∧ y' = y
  · rw [if_pos hxy, hxy.1, hxy.2, h]
  · rw [if_neg hxy, if_neg hxy]

theorem grid_set₂ (a : Nat → Nat → Nat) (c v d : Nat) :
    grid (set₂ a (c / 9 + 1) (c % 9 + 1) v) d = update (grid a) c v d := by
  unfold grid
  rw [set₂_apply]
  by_cases hd : d = c
  · rw [hd, if_pos ⟨rfl, rfl⟩, Function.update_self]
  · rw [if_neg (by omega), Function.update_of_ne hd]

/-- Which entries a cell has. -/
theorem bit_setBits (s : Tables) (c i b : Nat) (kind : Kind) (u v : Nat) :
    (setBits (c / 9 + 1) (c % 9 + 1) i b s).bit kind u v =
      if u = kind.of c ∧ v = i then b else s.bit kind u v := by
  cases kind with
  | row =>
    show set₂ s.row (c / 9 + 1) i b (u + 1) v = if u = c / 9 ∧ v = i then b else s.row (u + 1) v
    rw [set₂_apply]
    simp only [Nat.add_right_cancel_iff]
  | col =>
    show set₂ s.column (c % 9 + 1) i b (u + 1) v = if u = c % 9 ∧ v = i then b else s.column (u + 1) v
    rw [set₂_apply]
    simp only [Nat.add_right_cancel_iff]
  | box =>
    show update s.block ((c / 9 + 1 - 1) / 3 + 1)
        (set₂ (s.block ((c / 9 + 1 - 1) / 3 + 1)) ((c % 9 + 1 - 1) / 3 + 1) i b) (u / 3 + 1) (u % 3 + 1) v =
      if u = Dance.boxOf c ∧ v = i then b else s.block (u / 3 + 1) (u % 3 + 1) v
    rw [Nat.add_sub_cancel, Nat.add_sub_cancel]
    have hbox : u = Dance.boxOf c ↔ u / 3 = c / 9 / 3 ∧ u % 3 = c % 9 / 3 := by
      rw [Dance.boxOf]
      omega
    by_cases hu : u / 3 = c / 9 / 3
    · rw [hu, Function.update_self, set₂_apply]
      simp only [hbox, hu, true_and, Nat.add_right_cancel_iff]
    · rw [Function.update_of_ne (by omega)]
      simp only [hbox, hu, false_and, if_false]

theorem bit_put (c i val b : Nat) (kind : Kind) (u v : Nat) :
    (put (c / 9 + 1) (c % 9 + 1) i val b s).bit kind u v =
      if u = kind.of c ∧ v = i then b else s.bit kind u v :=
  bit_setBits { s with sudoku := set₂ s.sudoku (c / 9 + 1) (c % 9 + 1) val } c i b kind u v

theorem grid_put (c i val b : Nat) : grid (put (c / 9 + 1) (c % 9 + 1) i val b s).sudoku =
    update (grid s.sudoku) c val := funext fun d => grid_set₂ s.sudoku c val d

/-- A digit that no unit of the cell holds may go into the cell. -/
theorem free_iff (c i : Nat) : (s.row (c / 9 + 1) i = 0 ∧ s.column (c % 9 + 1) i = 0 ∧
      s.block ((c / 9 + 1 - 1) / 3 + 1) ((c % 9 + 1 - 1) / 3 + 1) i = 0) ↔
    ∀ kind : Kind, s.bit kind (kind.of c) i = 0 := by
  have hbox : s.block ((c / 9 + 1 - 1) / 3 + 1) ((c % 9 + 1 - 1) / 3 + 1) i =
      s.bit .box (Kind.of .box c) i := by
    have hfirst : Dance.boxOf c / 3 = (c / 9 + 1 - 1) / 3 := by
      rw [Dance.boxOf]
      omega
    have hsecond : Dance.boxOf c % 3 = (c % 9 + 1 - 1) / 3 := by
      rw [Dance.boxOf]
      omega
    show _ = s.block (Dance.boxOf c / 3 + 1) (Dance.boxOf c % 3 + 1) i
    rw [hfirst, hsecond]
  rw [hbox]
  constructor
  · rintro ⟨hrow, hcol, hbox⟩ kind
    cases kind with
    | row => exact hrow
    | col => exact hcol
    | box => exact hbox
  · exact fun h => ⟨h .row, h .col, h .box⟩

/-- Taking a digit out again brings all entries back that were 0. -/
theorem put_back {c i k : Nat} (hcell : grid s.sudoku c = 0)
    (hfree : ∀ kind : Kind, s.bit kind (kind.of c) i = 0) :
    put (c / 9 + 1) (c % 9 + 1) i 0 0 (add k (put (c / 9 + 1) (c % 9 + 1) i i 1 s)) = add k s := by
  obtain ⟨hrow, hcol, hbox⟩ := (free_iff c i).mpr hfree
  have hsudoku : set₂ (set₂ s.sudoku (c / 9 + 1) (c % 9 + 1) i) (c / 9 + 1) (c % 9 + 1) 0 = s.sudoku :=
    set₂_back hcell
  have hblock : update (update s.block ((c / 9 + 1 - 1) / 3 + 1)
        (set₂ (s.block ((c / 9 + 1 - 1) / 3 + 1)) ((c % 9 + 1 - 1) / 3 + 1) i 1))
      ((c / 9 + 1 - 1) / 3 + 1)
      (set₂ (update s.block ((c / 9 + 1 - 1) / 3 + 1)
        (set₂ (s.block ((c / 9 + 1 - 1) / 3 + 1)) ((c % 9 + 1 - 1) / 3 + 1) i 1)
        ((c / 9 + 1 - 1) / 3 + 1)) ((c % 9 + 1 - 1) / 3 + 1) i 0) = s.block := by
    rw [Function.update_self, Function.update_idem, set₂_back hbox, Function.update_eq_self]
  simp only [put, setBits, add, hsudoku, set₂_back hrow, set₂_back hcol, hblock]

/-- The entries go on saying which digits the units hold, when a digit goes into a blank cell. -/
theorem Coherent.put (h : s.Coherent) {i : Nat} (hc : c < 81) (hcell : grid s.sudoku c = 0) :
    (put (c / 9 + 1) (c % 9 + 1) i i 1 s).Coherent := by
  intro kind u hu v hv
  rw [bit_put, grid_put]
  by_cases hnew : u = kind.of c ∧ v = i
  · rw [if_pos hnew]
    have hhas : kind.has (update (grid s.sudoku) c i) u v = true :=
      Kind.has_eq_true.mpr ⟨c, hc, hnew.1.symm, by rw [Function.update_self, hnew.2]⟩
    rw [hhas]
    exact ⟨fun h => absurd h Nat.one_ne_zero, fun h => absurd h.symm Bool.false_ne_true⟩
  · rw [if_neg hnew, h kind u hu v hv, Kind.has_eq_false, Kind.has_eq_false]
    apply forall_congr'
    intro d
    apply imp_congr_right
    intro hd
    apply imp_congr_right
    intro hof
    by_cases hdc : d = c
    · subst hdc
      rw [Function.update_self, hcell]
      have hzero : v ≠ 0 := by
        have hle := hv.1
        omega
      exact ⟨fun _ heq => hnew ⟨hof.symm, heq.symm⟩, fun _ heq => hzero heq.symm⟩
    · rw [Function.update_of_ne hdc]

end Cells

/-! ## The search -/

/-- The blanks from a cell on. -/
def blanksFrom (known : Nat → Nat → Nat) (c : Nat) : List Nat :=
  (List.range' c (81 - c)).filter fun d => grid known d = 0

/-- The number of ways to fill the blanks from a cell on. -/
def ways (known : Nat → Nat → Nat) (c : Nat) (board : Nat → Nat) : Nat :=
  (fillings neighborTable (List.range' 1 9) (blanksFrom known c) board).length

section Search

variable {known sudoku : Nat → Nat → Nat} {s : Tables} {c : Nat}

theorem blanksFrom_cons (hc : c < 81) : blanksFrom known c =
    if grid known c = 0 then c :: blanksFrom known (c + 1) else blanksFrom known (c + 1) := by
  have hrange : List.range' c (81 - c) = c :: List.range' (c + 1) (81 - (c + 1)) := by
    rw [show 81 - c = 81 - (c + 1) + 1 by omega, List.range'_succ]
  rw [blanksFrom, hrange]
  by_cases hknown : grid known c = 0
  · rw [List.filter_cons_of_pos (by simpa using hknown), if_pos hknown]
    rfl
  · rw [List.filter_cons_of_neg (by simpa using hknown), if_neg hknown]
    rfl

/-- For a blank cell the entries of its units say what its peers have. -/
theorem Coherent.free_iff_available (h : s.Coherent) (hc : c < 81) (hcell : grid s.sudoku c = 0)
    {v : Nat} (hv : Puzzle.Digit v) : (∀ kind : Kind, s.bit kind (kind.of c) v = 0) ↔
      ((neighborTable c).all fun d => grid s.sudoku d ≠ v) = true := by
  simp only [List.all_eq_true, decide_eq_true_iff, mem_neighborTable]
  constructor
  · rintro hbits d ⟨-, hd, -, kind, hof⟩
    exact Kind.has_eq_false.mp ((h kind _ (Kind.of_lt kind hc) v hv).mp (hbits kind)) d hd hof.symm
  · intro hpeers kind
    apply (h kind _ (Kind.of_lt kind hc) v hv).mpr
    apply Kind.has_eq_false.mpr
    intro d hd hof
    by_cases hdc : d = c
    · rw [hdc, hcell]
      have hle := hv.1
      omega
    · exact hpeers d ⟨hc, hd, Ne.symm hdc, kind, hof.symm⟩

theorem Coherent.add (h : s.Coherent) (k : Nat) : (add k s).Coherent := h

theorem add_add (k l : Nat) (s : Tables) : add k (add l s) = add (l + k) s := by
  simp [Tables.add, Nat.add_assoc]

theorem addCnt_of_lt {k : Nat} (h : s.cnt + k < 2 ^ 31) : addCnt k s = some (add k s) := if_pos h

theorem addCnt_of_le {k : Nat} (h : 2 ^ 31 ≤ s.cnt + k) : addCnt k s = none := if_neg (by omega)

theorem cnt_of_addCnt {k : Nat} {t : Tables} (h : addCnt k s = some t) :
    t.cnt = s.cnt + k ∧ s.cnt + k < 2 ^ 31 := by
  by_cases hroom : s.cnt + k < 2 ^ 31
  · rw [addCnt_of_lt hroom] at h
    cases h
    exact ⟨rfl, hroom⟩
  · rw [addCnt_of_le (by omega)] at h
    cases h

/-- The loop over the digits, when each recursive call increases the counter by a number. -/
theorem tryDigit_loop {rec : Tables → Option Tables} {N : Nat → Nat} (h : s.Coherent) (hc : c < 81)
    (hcell : grid s.sudoku c = 0)
    (hrec : ∀ v k, Puzzle.Digit v → s.cnt + k < 2 ^ 31 →
      rec (put (c / 9 + 1) (c % 9 + 1) v v 1 (add k s)) =
        addCnt (N v) (put (c / 9 + 1) (c % 9 + 1) v v 1 (add k s)))
    (vs : List Nat) (hvs : ∀ v ∈ vs, Puzzle.Digit v) (k : Nat) (hk : s.cnt + k < 2 ^ 31) :
    vs.foldlM (tryDigit rec (c / 9 + 1) (c % 9 + 1)) (add k s) = addCnt (k + ((vs.filter fun v =>
      (neighborTable c).all fun d => grid s.sudoku d ≠ v).map N).sum) s := by
  induction vs generalizing k with
  | nil => exact (addCnt_of_lt hk).symm
  | cons v vs ih =>
    obtain ⟨hv, hvs⟩ := List.forall_mem_cons.mp hvs
    have havail := (free_iff c v).trans ((h.add k).free_iff_available hc hcell hv)
    rw [List.foldlM_cons, tryDigit]
    by_cases hfree : ((neighborTable c).all fun d => grid s.sudoku d ≠ v) = true
    · rw [if_pos (havail.mpr hfree), hrec v k hv hk, List.filter_cons, if_pos hfree, List.map_cons,
        List.sum_cons]
      by_cases hroom : s.cnt + (k + N v) < 2 ^ 31
      · have hback := put_back (s := add k s) (k := N v) hcell
          ((h.free_iff_available hc hcell hv).mpr hfree)
        have hput : (put (c / 9 + 1) (c % 9 + 1) v v 1 (add k s)).cnt + N v < 2 ^ 31 := by
          rwa [← Nat.add_assoc] at hroom
        rw [addCnt_of_lt hput, Option.bind_eq_bind, Option.bind_some, Option.bind_some, hback, add_add,
          ih hvs _ hroom, Nat.add_assoc]
      · -- the counter overflows in this call
        have hput : 2 ^ 31 ≤ (put (c / 9 + 1) (c % 9 + 1) v v 1 (add k s)).cnt + N v := by
          show 2 ^ 31 ≤ s.cnt + k + N v
          omega
        rw [addCnt_of_le hput, addCnt_of_le (by omega)]
        rfl
    · rw [if_neg (fun hk => hfree (havail.mp hk)), Option.bind_eq_bind, Option.bind_some, ih hvs k hk,
        List.filter_cons, if_neg hfree]

/-- `search2` increases the counter by the number of ways to fill the blanks, and all else is as
before. -/
theorem search2_from (fuel : Nat) (hc : c ≤ 81) (hfuel : 81 - c < fuel) (h : s.Coherent)
    (hcnt : s.cnt < 2 ^ 31) (hopen : ∀ d ∈ blanksFrom known c, grid s.sudoku d = 0) :
    search2 known fuel (c / 9 + 1) (c % 9 + 1) s = addCnt (ways known c (grid s.sudoku)) s := by
  induction fuel generalizing c s with
  | zero => omega
  | succ fuel ih =>
    -- the arithmetic of the next cell
    have hnext : (9 * (c / 9 + 1) + (c % 9 + 1) - 9) / 9 + 1 = (c + 1) / 9 + 1 := by omega
    have hnext' : (c % 9 + 1) % 9 + 1 = (c + 1) % 9 + 1 := by omega
    rw [search2, hnext, hnext']
    by_cases hend : c = 81
    · subst hend
      rfl
    · have hlt : c < 81 := by omega
      have hcons := @blanksFrom_cons known c hlt
      by_cases hknown : grid known c = 0
      · rw [if_pos hknown] at hcons
        rw [if_neg (fun hk => hk.2 hknown), if_neg (by omega)]
        rw [hcons] at hopen
        obtain ⟨hcell, hrest⟩ := List.forall_mem_cons.mp hopen
        have hrec : ∀ v k, Puzzle.Digit v → s.cnt + k < 2 ^ 31 →
            search2 known fuel ((c + 1) / 9 + 1) ((c + 1) % 9 + 1)
              (put (c / 9 + 1) (c % 9 + 1) v v 1 (add k s)) =
            addCnt (ways known (c + 1) (update (grid s.sudoku) c v))
              (put (c / 9 + 1) (c % 9 + 1) v v 1 (add k s)) := by
          intro v k _ hk
          have hrun := ih (c := c + 1) (s := put (c / 9 + 1) (c % 9 + 1) v v 1 (add k s)) (by omega)
            (by omega) ((h.add k).put hlt hcell) hk (by
              intro d hd
              have hne : d ≠ c := by
                have hd := List.mem_range'_1.mp (List.mem_filter.mp hd).1
                omega
              rw [grid_put, Function.update_of_ne hne]
              exact hrest d hd)
          rw [grid_put] at hrun
          exact hrun
        have hloop := tryDigit_loop h hlt hcell hrec (List.range' 1 9)
          (fun v hv => Puzzle.digit_of_mem hv) 0 hcnt
        rw [Nat.zero_add] at hloop
        have hways : ways known c (grid s.sudoku) = (((List.range' 1 9).filter fun v =>
            (neighborTable c).all fun d => grid s.sudoku d ≠ v).map fun v =>
            ways known (c + 1) (update (grid s.sudoku) c v)).sum := by
          rw [ways, hcons, fillings, List.length_flatMap]
          rfl
        rw [hways]
        exact hloop
      · rw [if_neg hknown] at hcons
        rw [if_pos ⟨by omega, hknown⟩, ih (by omega) (by omega) h hcnt (by rwa [← hcons]), ways, ways,
          hcons]

theorem places_eq : places = (List.range 81).map fun c => (c / 9 + 1, c % 9 + 1) := by decide +kernel

/-- The tables that `init` fills are coherent. -/
theorem init_coherent (sudoku : Nat → Nat → Nat) :
    (init sudoku).sudoku = sudoku ∧ (init sudoku).cnt = 0 ∧ (init sudoku).Coherent := by
  have hloop : ∀ n, ∃ t : Tables, ((List.range n).map fun c => (c / 9 + 1, c % 9 + 1)).foldl
      (fun s (i, j) => if s.sudoku i j ≠ 0 then setBits i j (s.sudoku i j) 1 s else s)
      { sudoku := sudoku, row := fun _ _ => 0, column := fun _ _ => 0, block := fun _ _ _ => 0,
        cnt := 0 } = t ∧ t.sudoku = sudoku ∧ t.cnt = 0 ∧
      ∀ kind u v, 1 ≤ v → (t.bit kind u v = 0 ↔ ∀ d < n, kind.of d = u → grid sudoku d ≠ v) := by
    intro n
    induction n with
    | zero =>
      refine ⟨_, rfl, rfl, rfl, ?_⟩
      intro kind u v _
      cases kind <;> simp [bit]
    | succ n ih =>
      obtain ⟨t, ht, hsudoku, hcnt, hbits⟩ := ih
      rw [List.range_succ, List.map_append, List.foldl_append, ht, List.map_singleton, List.foldl_cons,
        List.foldl_nil]
      have hcell : t.sudoku (n / 9 + 1) (n % 9 + 1) = grid sudoku n := by rw [hsudoku]; rfl
      dsimp only
      rw [hcell]
      have hsplit : ∀ (kind : Kind) u v, (∀ d < n + 1, kind.of d = u → grid sudoku d ≠ v) ↔
          (∀ d < n, kind.of d = u → grid sudoku d ≠ v) ∧ (kind.of n = u → grid sudoku n ≠ v) := by
        intro kind u v
        simp only [Nat.lt_succ_iff_lt_or_eq, or_imp, forall_and, forall_eq]
      by_cases hzero : grid sudoku n = 0
      · rw [if_neg (not_not.mpr hzero)]
        refine ⟨t, rfl, hsudoku, hcnt, ?_⟩
        intro kind u v hv
        rw [hsplit, hbits kind u v hv, hzero, and_iff_left]
        exact fun _ => by omega
      · rw [if_pos hzero]
        refine ⟨_, rfl, hsudoku, hcnt, ?_⟩
        intro kind u v hv
        rw [bit_setBits, hsplit]
        by_cases hnew : u = kind.of n ∧ v = grid sudoku n
        · rw [if_pos hnew]
          exact ⟨fun h => absurd h Nat.one_ne_zero, fun h => absurd hnew.2.symm (h.2 hnew.1.symm)⟩
        · rw [if_neg hnew, hbits kind u v hv, and_iff_left]
          exact fun hof heq => hnew ⟨hof.symm, heq.symm⟩
  obtain ⟨t, ht, hsudoku, hcnt, hbits⟩ := hloop 81
  rw [← places_eq] at ht
  have hinit : init sudoku = t := ht
  rw [hinit]
  refine ⟨hsudoku, hcnt, ?_⟩
  intro kind u hu v hv
  rw [hbits kind u v hv.1, Kind.has_eq_false, hsudoku]

theorem length_fillings_spaces (g : Nat → Nat) :
    (fillings neighborTable (List.range' 1 9) (Puzzle.findSpaces g) g).length =
      Set.ncard {full | Puzzle.Fills g full} := by
  have hdigit : (fun v => v ∈ List.range' 1 9) = Puzzle.Digit := by
    funext v
    exact propext Puzzle.mem_digits
  rw [length_fillings (fun c d h => mem_neighborTable.mpr (mem_neighborTable.mp h).symm)
    (fun c h => Peer.irrefl c (mem_neighborTable.mp h)) List.nodup_range' (Puzzle.findSpaces_nodup g)
    (by
      intro c hc hmem
      rw [(Puzzle.mem_findSpaces.mp hc).2] at hmem
      exact absurd (Puzzle.digit_of_mem hmem).1 (Nat.not_succ_le_zero 0)), hdigit]
  exact congrArg (fun nbr => Set.ncard {full | Filling nbr Puzzle.Digit g (Puzzle.findSpaces g) full})
    Puzzle.near_neighborTable

/-- The completions of a board, with nothing changed beyond it. -/
def completions (g : Nat → Nat) : Set (Nat → Nat) :=
  {full | Completes g full ∧ ∀ i, 81 ≤ i → full i = g i}

/-- When the givens do not conflict, the fillings are the completions. -/
theorem fills_eq_completions {g : Nat → Nat} (hdigit : ∀ i < 81, g i ≤ 9) (hgiven : Consistent g) :
    {full | Puzzle.Fills g full} = completions g := by
  ext full
  constructor
  · intro h
    refine ⟨(Puzzle.Fills.completes_iff h hdigit).mpr hgiven, ?_⟩
    intro i hi
    apply h.same
    intro hmem
    have hlt := (Puzzle.mem_findSpaces.mp hmem).1
    omega
  · rintro ⟨h, hsame⟩
    have hfull : (fun i => if i < 81 then full i else g i) = full := by
      funext i
      by_cases hi : i < 81
      · rw [if_pos hi]
      · rw [if_neg hi, hsame i (by omega)]
    have hfills := Puzzle.fills_of_completes h
    rw [hfull] at hfills
    exact hfills

/-- The blanks are the spaces of the grid. -/
theorem blanksFrom_zero (hknown : ∀ c < 81, grid known c = 0 ↔ grid sudoku c = 0) :
    blanksFrom known 0 = Puzzle.findSpaces (grid sudoku) := by
  rw [blanksFrom, Puzzle.findSpaces, List.range_eq_range']
  apply List.filter_congr
  intro d hd
  have hd := List.mem_range'_1.mp hd
  rw [decide_eq_decide]
  exact hknown d (by omega)

theorem search2_fills (hknown : ∀ c < 81, grid known c = 0 ↔ grid sudoku c = 0) {fuel : Nat}
    (hfuel : 81 < fuel) : search2 known fuel 1 1 (init sudoku) =
      addCnt (Set.ncard {full | Puzzle.Fills (grid sudoku) full}) (init sudoku) := by
  obtain ⟨hsudoku, hcnt, hcoh⟩ := init_coherent sudoku
  have hblanks := blanksFrom_zero hknown
  have hrun := @search2_from known (init sudoku) 0 fuel (Nat.zero_le _) (by omega) hcoh (by omega) (by
    intro d hd
    rw [hblanks] at hd
    rw [hsudoku]
    exact (Puzzle.mem_findSpaces.mp hd).2)
  rw [hsudoku, ways, hblanks, length_fillings_spaces] at hrun
  exact hrun

/-- On the tables of a grid whose blanks are the cells that are not known, `search2` counts the
completions and leaves the tables as they were, if an `int` holds their number; otherwise the counter
overflows. -/
theorem search2_spec (hknown : ∀ c < 81, grid known c = 0 ↔ grid sudoku c = 0)
    (hdigit : ∀ c < 81, grid sudoku c ≤ 9) (hgiven : Consistent (grid sudoku)) {fuel : Nat}
    (hfuel : 81 < fuel) : search2 known fuel 1 1 (init sudoku) =
      if Set.ncard (completions (grid sudoku)) < 2 ^ 31 then
        some { init sudoku with cnt := Set.ncard (completions (grid sudoku)) }
      else none := by
  rw [search2_fills hknown hfuel, fills_eq_completions hdigit hgiven, addCnt,
    (init_coherent sudoku).2.1]
  simp only [Nat.zero_add]

/-- A full grid. -/
def sampleGrid (x y : Nat) : Nat :=
  ([[7, 9, 8, 3, 6, 5, 1, 4, 2],
    [4, 1, 6, 2, 8, 9, 5, 3, 7],
    [5, 2, 3, 7, 1, 4, 6, 8, 9],
    [9, 8, 7, 1, 3, 6, 2, 5, 4],
    [3, 5, 4, 9, 2, 7, 8, 6, 1],
    [2, 6, 1, 5, 4, 8, 9, 7, 3],
    [8, 3, 9, 4, 5, 1, 7, 2, 6],
    [1, 4, 5, 6, 7, 2, 3, 9, 8],
    [6, 7, 2, 8, 9, 3, 4, 1, 5]].getD (x - 1) []).getD (y - 1) 0

theorem sampleGrid_proper : (∀ c < 81, Puzzle.Digit (grid sampleGrid c)) ∧
    ∀ c d, Peer c d → grid sampleGrid d ≠ grid sampleGrid c := by
  have hsolved : Puzzle.solved (grid sampleGrid) = some true := by decide +kernel
  exact Puzzle.solved_iff.mp hsolved

/-- The grid without two 6 and two 8 that can change places: `search2` counts two. -/
theorem search2_spec_two :
    let known : Nat → Nat → Nat := fun x y => if (x = 1 ∨ x = 2) ∧ (y = 3 ∨ y = 5) then 0 else 1
    let sudoku : Nat → Nat → Nat := fun x y => if known x y = 0 then 0 else sampleGrid x y
    Set.ncard (completions (grid sudoku)) = 2 ∧
      search2 known 82 1 1 (init sudoku) = some { init sudoku with cnt := 2 } := by
  intro known sudoku
  have hknown : ∀ c < 81, grid known c = 0 ↔ grid sudoku c = 0 := by decide +kernel
  have hkeeps : ∀ c, grid sudoku c ≠ 0 → grid sudoku c = grid sampleGrid c := by
    intro c hc
    have hcell : grid sudoku c = if grid known c = 0 then 0 else grid sampleGrid c := rfl
    by_cases hz : grid known c = 0
    · rw [hcell, if_pos hz] at hc
      exact absurd rfl hc
    · rw [hcell, if_neg hz]
  have hgiven : Consistent (grid sudoku) := by
    intro c d hpeer hc heq
    have hd := hkeeps d (by rwa [heq])
    exact sampleGrid_proper.2 c d hpeer (hd.symm.trans (heq.trans (hkeeps c hc)))
  have hrun := search2_spec hknown (by decide +kernel) hgiven (by decide : 81 < 82)
  have hcnt : (search2 known 82 1 1 (init sudoku)).map Tables.cnt = some 2 := by decide +kernel
  rw [hrun] at hcnt ⊢
  by_cases hroom : Set.ncard (completions (grid sudoku)) < 2 ^ 31
  · rw [if_pos hroom] at hcnt ⊢
    have htwo : Set.ncard (completions (grid sudoku)) = 2 := Option.some.inj hcnt
    exact ⟨htwo, by rw [htwo]⟩
  · rw [if_neg hroom] at hcnt
    cases hcnt

end Search

/-! ## The generator -/

/-- The loop that blanks cells; the random numbers are the cells that it draws. -/
def drawBlanks : Nat → List (Nat × Nat) → (Nat → Nat → Nat) →
    Option ((Nat → Nat → Nat) × List (Nat × Nat))
  | 0, draws, known => some (known, draws)
  | _ + 1, [], _ => none
  | need + 1, (x, y) :: draws, known =>
    if known x y = 0 then drawBlanks (need + 1) draws known
    else drawBlanks need draws (set₂ known x y 0)

def everyKnown : Nat → Nat → Nat :=
  places.foldl (fun known (i, j) => set₂ known i j 1) fun _ _ => 0

/-- The grid with its blanks. -/
def blankOut (known sudoku : Nat → Nat → Nat) : Nat → Nat → Nat :=
  places.foldl (fun a (i, j) => if known i j = 0 then set₂ a i j 0 else a) sudoku

/-- The loop of `main` that ends with a problem for which `search2` has counted one. -/
def attempts (sudoku2 : Nat → Nat → Nat) (fuel : Nat) :
    Nat → List (Nat × Nat) → Option (Nat → Nat → Nat)
  | 0, _ => none
  | rounds + 1, draws => do
    let (known, draws) ← drawBlanks 50 draws everyKnown
    let problem := blankOut known sudoku2
    let s ← search2 known fuel 1 1 (init problem)
    if s.cnt = 1 then some problem else attempts sudoku2 fuel rounds draws

def print (sudoku : Nat → Nat → Nat) : Bytes :=
  (places.flatMap fun (i, j) => if sudoku i j ≠ 0 then toDec (sudoku i j) else [48]) ++ [10]

/-- What `main` appends to its file for one grid. -/
def makeProblem (sudoku2 : Nat → Nat → Nat) (fuel rounds : Nat) (draws : List (Nat × Nat)) :
    Option Bytes := do
  let problem ← attempts sudoku2 fuel rounds draws
  some (print problem)

section Generator

variable {known sudoku sudoku2 problem : Nat → Nat → Nat} {fuel rounds : Nat} {draws : List (Nat × Nat)}

theorem grid_everyKnown : ∀ c < 81, grid everyKnown c = 1 := by decide +kernel

theorem grid_blankOut {c : Nat} (hc : c < 81) :
    grid (blankOut known sudoku) c = if grid known c = 0 then 0 else grid sudoku c := by
  have hloop : ∀ n, grid (((List.range n).map fun c => (c / 9 + 1, c % 9 + 1)).foldl
      (fun a (i, j) => if known i j = 0 then set₂ a i j 0 else a) sudoku) c =
      if c < n ∧ grid known c = 0 then 0 else grid sudoku c := by
    intro n
    induction n with
    | zero => simp
    | succ n ih =>
      rw [List.range_succ, List.map_append, List.foldl_append, List.map_singleton, List.foldl_cons,
        List.foldl_nil]
      generalize ((List.range n).map fun c => (c / 9 + 1, c % 9 + 1)).foldl _ _ = a at ih
      have hcell : known (n / 9 + 1) (n % 9 + 1) = grid known n := rfl
      dsimp only
      rw [hcell]
      by_cases hcn : c = n
      · subst hcn
        by_cases hknown : grid known c = 0
        · rw [if_pos hknown, if_pos ⟨Nat.lt_succ_self c, hknown⟩, grid_set₂, Function.update_self]
        · rw [if_neg hknown, if_neg (fun h => hknown h.2), ih, if_neg (fun h => hknown h.2)]
      · have hlt : c < n + 1 ↔ c < n := by omega
        simp only [hlt]
        by_cases hknown : grid known n = 0
        · rw [if_pos hknown, grid_set₂, Function.update_of_ne hcn, ih]
        · rw [if_neg hknown, ih]
  rw [blankOut, places_eq, hloop 81]
  simp only [hc, true_and]

/-- A number that may be drawn: `rand() % 9 + 1`. -/
def Drawn (draw : Nat × Nat) : Prop := 1 ≤ draw.1 ∧ draw.1 ≤ 9 ∧ 1 ≤ draw.2 ∧ draw.2 ≤ 9

/-- The loop blanks as many cells as it should. -/
theorem drawBlanks_spec {need : Nat} {known' : Nat → Nat → Nat} {rest : List (Nat × Nat)}
    (hdraws : ∀ draw ∈ draws, Drawn draw)
    (h : drawBlanks need draws known = some (known', rest)) :
    (blanksFrom known' 0).length = (blanksFrom known 0).length + need ∧
      ∀ draw ∈ rest, Drawn draw := by
  induction draws generalizing need known with
  | nil =>
    cases need with
    | zero =>
      cases h
      exact ⟨rfl, hdraws⟩
    | succ need => cases h
  | cons draw draws ih =>
    obtain ⟨hdraw, hdraws'⟩ := List.forall_mem_cons.mp hdraws
    cases need with
    | zero =>
      cases h
      exact ⟨rfl, hdraws⟩
    | succ need =>
      obtain ⟨x, y⟩ := draw
      rw [drawBlanks] at h
      by_cases hknown : known x y = 0
      · rw [if_pos hknown] at h
        exact ih hdraws' h
      · rw [if_neg hknown] at h
        obtain ⟨hlength, hrest⟩ := ih hdraws' h
        refine ⟨?_, hrest⟩
        obtain ⟨hx₁, hx₉, hy₁, hy₉⟩ := hdraw
        dsimp only at hx₁ hx₉ hy₁ hy₉
        -- the cell that is drawn was known, and is blank now
        obtain ⟨c, hc, rfl, rfl⟩ : ∃ c < 81, c / 9 + 1 = x ∧ c % 9 + 1 = y :=
          ⟨9 * (x - 1) + (y - 1), by omega, by omega, by omega⟩
        have hcount := countP_lose (v := c)
          (p := fun d => decide (grid (set₂ known (c / 9 + 1) (c % 9 + 1) 0) d = 0))
          (q := fun d => decide (grid known d = 0)) (List.nodup_range' (s := 0) (n := 81 - 0))
          (List.mem_range'_1.mpr ⟨Nat.zero_le c, by omega⟩)
          (by rw [grid_set₂, Function.update_self]; rfl) (decide_eq_false hknown)
          (by
            intro d _ hd
            rw [grid_set₂, Function.update_of_ne hd])
        rw [List.countP_eq_length_filter, List.countP_eq_length_filter] at hcount
        rw [hlength, blanksFrom, blanksFrom, hcount]
        omega

/-- What the loop ends with: fifty blanks, and one way to fill them. -/
theorem attempts_spec (hgrid : Completes (fun _ => 0) (grid sudoku2)) (hfuel : 81 < fuel)
    (hdraws : ∀ draw ∈ draws, Drawn draw) (h : attempts sudoku2 fuel rounds draws = some problem) :
    (∀ c < 81, grid problem c = 0 ∨ grid problem c = grid sudoku2 c) ∧
      (Puzzle.findSpaces (grid problem)).length = 50 ∧ (completions (grid problem)).ncard = 1 := by
  induction rounds generalizing draws with
  | zero => cases h
  | succ rounds ih =>
    obtain ⟨⟨known, rest⟩, hblanks, h⟩ := Option.bind_eq_some_iff.mp h
    obtain ⟨hlength, hrest⟩ := drawBlanks_spec hdraws hblanks
    obtain ⟨hdigit, -, hproper⟩ := completes_iff.mp hgrid
    have hknown : ∀ c < 81, grid known c = 0 ↔ grid (blankOut known sudoku2) c = 0 := by
      intro c hc
      have hpos := (hdigit c hc).1
      rw [grid_blankOut hc]
      by_cases hz : grid known c = 0
      · simp [hz]
      · rw [if_neg hz]
        exact ⟨fun h => absurd h hz, fun h => by omega⟩
    have hkeeps : ∀ c < 81, grid (blankOut known sudoku2) c = 0 ∨
        grid (blankOut known sudoku2) c = grid sudoku2 c := by
      intro c hc
      rw [grid_blankOut hc]
      by_cases hz : grid known c = 0
      · exact .inl (if_pos hz)
      · exact .inr (if_neg hz)
    have hle : ∀ c < 81, grid (blankOut known sudoku2) c ≤ 9 := by
      intro c hc
      have hd := (hdigit c hc).2
      rcases hkeeps c hc with hz | hz <;> omega
    have hgiven : Consistent (grid (blankOut known sudoku2)) := by
      intro c d hpeer hc heq
      have hc' := (hkeeps c hpeer.1).resolve_left hc
      have hd' := (hkeeps d hpeer.2.1).resolve_left (by rwa [heq])
      exact hproper c d hpeer (hd'.symm.trans (heq.trans hc'))
    have hcount := search2_fills hknown hfuel
    rw [fills_eq_completions hle hgiven] at hcount
    obtain ⟨s, hs, h⟩ := Option.bind_eq_some_iff.mp h
    obtain ⟨hcnt, -⟩ := cnt_of_addCnt (hcount.symm.trans hs)
    rw [(init_coherent _).2.1, Nat.zero_add] at hcnt
    rw [hcnt] at h
    by_cases hone : (completions (grid (blankOut known sudoku2))).ncard = 1
    · rw [if_pos hone] at h
      cases h
      refine ⟨hkeeps, ?_, hone⟩
      have hnone : (blanksFrom everyKnown 0).length = 0 := by
        rw [List.length_eq_zero_iff, blanksFrom, List.filter_eq_nil_iff]
        intro c hc
        have hc := List.mem_range'_1.mp hc
        simp [grid_everyKnown c (by omega)]
      rw [← blanksFrom_zero hknown, hlength, hnone]
    · rw [if_neg hone] at h
      exact ih hrest h

/-- A problem is printed as the digits of its cells. -/
theorem print_eq (hle : ∀ c < 81, grid problem c ≤ 9) : print problem = digitsOf (grid problem) ++ [10] := by
  rw [print, places_eq, List.flatMap_map, digitsOf, ← List.flatMap_singleton' (List.map _ _),
    List.flatMap_map]
  apply congrArg (· ++ [10])
  apply List.flatMap_congr
  intro c hc
  have hc := List.mem_range.mp hc
  show (if grid problem c ≠ 0 then toDec (grid problem c) else [48]) = [UInt8.ofNat (grid problem c + 48)]
  by_cases hz : grid problem c = 0
  · rw [if_neg (not_not.mpr hz), hz]
    rfl
  · rw [if_pos hz, toDec_digit _ (hle c hc)]

/-- Completions depend on the givens of the board only. -/
theorem completes_congr {g g' full : Nat → Nat} (heq : ∀ i < 81, g' i = g i) (h : Completes g full) :
    Completes g' full :=
  ⟨h.digit, fun i hi hne => (h.keeps i hi (by rwa [← heq i hi])).trans (heq i hi).symm, h.once⟩

/-- What is printed for a full grid is a puzzle with fifty blanks whose only completion is the grid, and
that is what the solver answers. -/
theorem makeProblem_spec (hgrid : Completes (fun _ => 0) (grid sudoku2)) (hfuel : 81 < fuel)
    (hdraws : ∀ draw ∈ draws, Drawn draw) {text : Bytes}
    (h : makeProblem sudoku2 fuel rounds draws = some text) {fuel' : Nat} (hfuel' : kMaxNodes ≤ fuel') :
    ∃ puzzle, text = puzzle ++ [10] ∧ Digits puzzle ∧ puzzle.count 48 = 50 ∧
      Completes (boardOf puzzle) (grid sudoku2) ∧
      (∀ full, Completes (boardOf puzzle) full → ∀ i < 81, full i = grid sudoku2 i) ∧
      solver fuel' puzzle = some (digitsOf (grid sudoku2)) := by
  obtain ⟨problem, hproblem, h⟩ := Option.bind_eq_some_iff.mp h
  cases h
  obtain ⟨hkeeps, hblanks, hone⟩ := attempts_spec hgrid hfuel hdraws hproblem
  obtain ⟨hdigit, -, hproper⟩ := completes_iff.mp hgrid
  have hle : ∀ c < 81, grid problem c ≤ 9 := by
    intro c hc
    have hd := (hdigit c hc).2
    rcases hkeeps c hc with hz | hz <;> omega
  have hdigits := digitsOf_digits hle
  have hboard : ∀ i < 81, boardOf (digitsOf (grid problem)) i = grid problem i :=
    fun i hi => boardOf_digitsOf hle hi
  have hgridCompletes : Completes (grid problem) (grid sudoku2) :=
    completes_iff.mpr ⟨hdigit, fun i hi hne => ((hkeeps i hi).resolve_left hne).symm, hproper⟩
  -- Two completions are the same element of a set with one element.
  have hunique : ∀ full, Completes (grid problem) full → ∀ i < 81, full i = grid sudoku2 i := by
    obtain ⟨a, ha⟩ := Set.ncard_eq_one.mp hone
    have hmem : ∀ full, Completes (grid problem) full →
        (fun i => if i < 81 then full i else grid problem i) = a := by
      intro full hfull
      have hin : (fun i => if i < 81 then full i else grid problem i) ∈ completions (grid problem) :=
        ⟨hfull.congr fun i hi => if_pos hi, fun i hi => if_neg (by omega)⟩
      rwa [ha] at hin
    intro full hfull i hi
    have heq := congrFun ((hmem full hfull).trans (hmem _ hgridCompletes).symm) i
    simp only [if_pos hi] at heq
    exact heq
  have hunique' : ∀ full, Completes (boardOf (digitsOf (grid problem))) full →
      ∀ i < 81, full i = grid sudoku2 i :=
    fun full hfull => hunique full (completes_congr (fun i hi => (hboard i hi).symm) hfull)
  have hcompletes := completes_congr hboard hgridCompletes
  refine ⟨digitsOf (grid problem), print_eq hle, hdigits, ?_, hcompletes, hunique', ?_⟩
  · -- a cell is printed as '0' exactly when it is blank
    rw [← hblanks, Puzzle.findSpaces, ← List.countP_eq_length_filter, digitsOf, List.count,
      List.countP_map]
    apply List.countP_congr
    intro c hc
    have hc := hle c (List.mem_range.mp hc)
    have hzero : ∀ n ≤ 9, (UInt8.ofNat (n + 48) == 48) = decide (n = 0) := by decide
    rw [Function.comp_apply, hzero _ hc]
  · obtain ⟨inout, hrun, hyes, -⟩ := solver_board hfuel' hdigits
    have hfull := hyes ⟨_, hcompletes⟩
    rw [hrun, digitsOf, digitsOf]
    apply congrArg some
    apply List.map_congr_left
    intro i hi
    rw [hunique' inout hfull i (List.mem_range.mp hi)]

def sampleDraws : List (Nat × Nat) :=
  [(1, 1), (1, 2), (1, 4), (1, 5), (1, 7), (2, 1), (2, 4), (2, 5), (2, 8), (3, 1), (3, 3), (3, 4),
    (3, 6), (3, 7), (3, 9), (4, 3), (4, 6), (4, 8), (4, 9), (5, 2), (5, 4), (5, 5), (5, 6),
    (5, 7), (5, 9), (6, 1), (6, 2), (6, 3), (6, 4), (6, 5), (6, 8), (6, 9), (7, 1), (7, 3),
    (7, 5), (7, 6), (7, 7), (7, 9), (8, 2), (8, 4), (8, 6), (8, 7), (8, 8), (8, 9), (9, 2),
    (9, 3), (9, 5), (9, 6), (9, 8), (9, 9)]

theorem makeProblem_spec_sample : ∃ text, makeProblem sampleGrid 82 1 sampleDraws = some text ∧
    ∃ puzzle, text = puzzle ++ [10] ∧ Digits puzzle ∧ puzzle.count 48 = 50 ∧
      Completes (boardOf puzzle) (grid sampleGrid) ∧
      (∀ full, Completes (boardOf puzzle) full → ∀ i < 81, full i = grid sampleGrid i) ∧
      solver kMaxNodes puzzle = some (digitsOf (grid sampleGrid)) := by
  obtain ⟨text, htext⟩ := Option.isSome_iff_exists.mp
    (show (makeProblem sampleGrid 82 1 sampleDraws).isSome = true by decide +kernel)
  refine ⟨text, htext, makeProblem_spec ?_ (by omega) ?_ htext (Nat.le_refl _)⟩
  · exact completes_iff.mpr ⟨sampleGrid_proper.1, fun _ _ h => absurd rfl h, sampleGrid_proper.2⟩
  · unfold Drawn
    decide

end Generator

end Tables

end CloudLabs.Sudoku
