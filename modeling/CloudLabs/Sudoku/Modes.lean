import CloudLabs.Foundation.Decimal
import CloudLabs.Sudoku.ArityCache
import CloudLabs.Sudoku.Solver

/-!
# The program with four solvers

`main` reads a file in pieces of a line, or of what fits the buffer, and solves each piece of at least
81 characters. The second argument chooses the solver. A failed assertion ends the program, which is
`none`; so does a board that was filled but is not solved.

The three backtracking solvers make one program (`main_backtracking`): where it does not end by an
assertion, it reports the puzzles that have no completion. With the dancing links it ends by an
assertion exactly at a puzzle that has no completion, which the others report (`main_dancingLinks`).
-/

set_option autoImplicit false

namespace CloudLabs.Sudoku

open CloudLabs.Foundation

/-! ## Reading -/

/-- What `fgets` stores: at most `room` bytes, up to the end of the line, which is stored too. -/
def fgetsInto : Nat → Bytes → Bytes × Bytes
  | 0, rest => ([], rest)
  | _ + 1, [] => ([], [])
  | room + 1, b :: rest =>
    if b = 10 then ([b], rest)
    else
      let (stored, rest) := fgetsInto room rest
      (b :: stored, rest)

def fgets (size : Nat) (rest : Bytes) : Option (Bytes × Bytes) :=
  if rest = [] then none else some (fgetsInto (size - 1) rest)

/-! ## The solvers -/

namespace Dance

/-- The constructor on a board. -/
def ofBoard (inout : Nat → Nat) : Option Dance := do
  let (root, d) ← (blank inout).newColumn 0
  let d := { d with root := root }
  let d ← (columnNames inout).foldlM (fun d n => d.appendColumn n) d
  (choices inout).foldlM (fun d choice => d.addRow choice) d

def outAnswer (d : Dance) : Bytes := (List.range 81).flatMap fun i => toDec (d.inout i)

end Dance

/-- The choice of `argv[2]`. -/
inductive Mode where
  | basic
  | minArity
  | minArityCache
  | dancingLinks
  deriving DecidableEq

def modeOf : Option Bytes → Mode
  | some (97 :: _) => .minArity
  | some (99 :: _) => .minArityCache
  | some (100 :: _) => .dancingLinks
  | _ => .basic

/-- What a solver prints, its verdict, and the board that it leaves. -/
def solve (mode : Mode) (neighbors : Nat → List Nat) (fuel : Nat) (s : Puzzle) (cache : Cache) :
    Option (Bytes × Bool × (Nat → Nat)) :=
  match mode with
  | .basic => do
    let (found, s) ← Puzzle.solveSudokuBasic neighbors fuel 0 s
    some ([], found, s.board)
  | .minArity => do
    let (found, s) ← Puzzle.solveSudokuMinArity neighbors fuel 0 s
    some ([], found, s.board)
  | .minArityCache => do
    let (found, s) ← CachedPuzzle.solveSudokuMinArityCache neighbors fuel 0
      { puzzle := s, cache := cache }
    some ([], found, s.puzzle.board)
  | .dancingLinks => do
    let d ← Dance.ofBoard s.board
    let (_, d) ← d.solve fuel fuel
    some (d.outAnswer ++ [10], true, d.inout)

/-- One puzzle, with what is printed for it. -/
def solvePuzzle (mode : Mode) (neighbors : Nat → List Nat) (fuel : Nat) (puzzle : Bytes) :
    Option Bytes := do
  let s ← Puzzle.input puzzle
  let (printed, found, board) ← solve mode neighbors fuel s (Cache.initCache neighbors s.board)
  if found then
    if ← Puzzle.solved board then some printed else none
  else some (printed ++ ascii "No: " ++ puzzle)

/-- The loop of `main`; a piece is read as a string, that is up to its first zero byte. -/
def mainLoop (mode : Mode) (neighbors : Nat → List Nat) (fuel : Nat) : Nat → Bytes → Option Bytes
  | 0, _ => none
  | reads + 1, rest =>
    match fgets 128 rest with
    | none => some []
    | some (stored, rest) =>
      let puzzle := stored.takeWhile (· ≠ 0)
      if puzzle.length ≥ 81 then do
        let printed ← solvePuzzle mode neighbors fuel puzzle
        let more ← mainLoop mode neighbors fuel reads rest
        some (printed ++ more)
      else mainLoop mode neighbors fuel reads rest

/-- `main` on the contents of the file that it has opened. -/
def main (arg : Option Bytes) (fuel : Nat) (file : Bytes) : Option Bytes := do
  let neighbors ← initNeighbors
  mainLoop (modeOf arg) neighbors fuel (file.length + 1) file

/-! ## The pieces of a file -/

/-- What the calls of `fgets` store. -/
def piecesFrom : Nat → Bytes → List Bytes
  | 0, _ => []
  | reads + 1, rest =>
    match fgets 128 rest with
    | none => []
    | some (stored, rest) => stored :: piecesFrom reads rest

/-- The puzzles of a file. -/
def puzzlesOf (file : Bytes) : List Bytes :=
  ((piecesFrom (file.length + 1) file).map (List.takeWhile (· ≠ 0))).filter (81 ≤ ·.length)

theorem fgetsInto_append (room : Nat) (rest : Bytes) :
    (fgetsInto room rest).1 ++ (fgetsInto room rest).2 = rest := by
  induction room generalizing rest with
  | zero => rfl
  | succ room ih =>
    cases rest with
    | nil => rfl
    | cons b rest =>
      rw [fgetsInto]
      by_cases hb : b = 10
      · rw [if_pos hb]
        rfl
      · rw [if_neg hb]
        exact congrArg (b :: ·) (ih rest)

theorem fgetsInto_ne_nil {room : Nat} {rest : Bytes} (hroom : 0 < room) (hrest : rest ≠ []) :
    (fgetsInto room rest).1 ≠ [] := by
  cases room with
  | zero => exact absurd hroom (Nat.lt_irrefl 0)
  | succ room =>
    cases rest with
    | nil => exact absurd rfl hrest
    | cons b rest =>
      rw [fgetsInto]
      by_cases hb : b = 10
      · rw [if_pos hb]
        exact List.cons_ne_nil _ _
      · rw [if_neg hb]
        exact List.cons_ne_nil _ _

/-- `fgets` takes something off the front of the file, until there is nothing. -/
theorem fgets_spec {rest stored rest' : Bytes} (h : fgets 128 rest = some (stored, rest')) :
    stored ++ rest' = rest ∧ rest'.length < rest.length := by
  unfold fgets at h
  by_cases hrest : rest = []
  · rw [if_pos hrest] at h
    cases h
  · rw [if_neg hrest] at h
    have heq := Option.some.inj h
    have happend := fgetsInto_append (128 - 1) rest
    rw [heq] at happend
    have hne := fgetsInto_ne_nil (show 0 < 128 - 1 by omega) hrest
    rw [heq] at hne
    refine ⟨happend, ?_⟩
    have hlength := congrArg List.length happend
    rw [List.length_append] at hlength
    have hpos := List.length_pos_iff.mpr hne
    dsimp only at hlength hpos
    omega

/-! ## The output -/

/-- The outputs for a list of puzzles, of which none may fail. -/
def printAll (f : Bytes → Option Bytes) : List Bytes → Option Bytes
  | [] => some []
  | puzzle :: puzzles => do
    let printed ← f puzzle
    let more ← printAll f puzzles
    some (printed ++ more)

section Output

variable {f : Bytes → Option Bytes} {puzzles : List Bytes} {out : Bytes}

theorem printAll_iff {Ends : Bytes → Prop} {report : Bytes → Bytes}
    (hends : ∀ puzzle, Ends puzzle → f puzzle = some (report puzzle))
    (hfails : ∀ puzzle, ¬ Ends puzzle → f puzzle = none) :
    printAll f puzzles = some out ↔ (∀ puzzle ∈ puzzles, Ends puzzle) ∧ out = puzzles.flatMap report := by
  induction puzzles generalizing out with
  | nil => simp [printAll, eq_comm]
  | cons puzzle puzzles ih =>
    rw [printAll, List.forall_mem_cons, List.flatMap_cons]
    by_cases hp : Ends puzzle
    · rw [hends puzzle hp, Option.bind_eq_bind, Option.bind_some]
      constructor
      · intro h
        obtain ⟨more, hmore, h⟩ := Option.bind_eq_some_iff.mp h
        obtain ⟨hall, rfl⟩ := ih.mp hmore
        exact ⟨⟨hp, hall⟩, (Option.some.inj h).symm⟩
      · rintro ⟨⟨-, hall⟩, rfl⟩
        rw [ih.mpr ⟨hall, rfl⟩]
        rfl
    · rw [hfails puzzle hp]
      constructor
      · intro h
        cases h
      · exact fun h => absurd h.1.1 hp

theorem printAll_none : printAll f puzzles = none ↔ ∃ puzzle ∈ puzzles, f puzzle = none := by
  induction puzzles with
  | nil => simp [printAll]
  | cons puzzle puzzles ih =>
    rw [printAll, List.exists_mem_cons_iff, ← ih]
    cases f puzzle with
    | none => simp
    | some printed =>
      cases printAll f puzzles with
      | none => simp
      | some more => simp

/-- Each output of a puzzle, when all puzzles have one. -/
theorem printAll_forall₂ {P : Bytes → Bytes → Prop}
    (h : ∀ puzzle ∈ puzzles, ∀ printed, f puzzle = some printed → P puzzle printed)
    (hout : printAll f puzzles = some out) :
    ∃ outs, List.Forall₂ P puzzles outs ∧ out = outs.flatten := by
  induction puzzles generalizing out with
  | nil =>
    cases hout
    exact ⟨[], .nil, rfl⟩
  | cons puzzle puzzles ih =>
    obtain ⟨printed, hprinted, hout⟩ := Option.bind_eq_some_iff.mp hout
    obtain ⟨more, hmore, hout⟩ := Option.bind_eq_some_iff.mp hout
    obtain ⟨outs, hall, rfl⟩ := ih (fun q hq => h q (List.mem_cons_of_mem _ hq)) hmore
    refine ⟨printed :: outs, .cons (h puzzle List.mem_cons_self printed hprinted) hall, ?_⟩
    rw [List.flatten_cons]
    exact (Option.some.inj hout).symm

end Output

/-- The loop of `main` prints for the puzzles of the file. -/
theorem mainLoop_eq (mode : Mode) (neighbors : Nat → List Nat) (fuel : Nat) {reads : Nat} {rest : Bytes}
    (hreads : rest.length < reads) : mainLoop mode neighbors fuel reads rest =
      printAll (solvePuzzle mode neighbors fuel)
        (((piecesFrom reads rest).map (List.takeWhile (· ≠ 0))).filter (81 ≤ ·.length)) := by
  induction reads generalizing rest with
  | zero => omega
  | succ reads ih =>
    rw [mainLoop, piecesFrom]
    cases hget : fgets 128 rest with
    | none => rfl
    | some p =>
      obtain ⟨stored, rest'⟩ := p
      obtain ⟨-, hless⟩ := fgets_spec hget
      dsimp only
      rw [ih (by omega), List.map_cons]
      by_cases hlong : 81 ≤ (stored.takeWhile (· ≠ 0)).length
      · rw [if_pos hlong, List.filter_cons_of_pos (by simpa using hlong)]
        rfl
      · rw [if_neg hlong, List.filter_cons_of_neg (by simpa using hlong)]

theorem main_eq (arg : Option Bytes) (fuel : Nat) (file : Bytes) :
    main arg fuel file = printAll (solvePuzzle (modeOf arg) neighborTable fuel) (puzzlesOf file) := by
  rw [main, initNeighbors_eq]
  exact mainLoop_eq _ _ _ (Nat.lt_succ_self _)

/-! ## One puzzle -/

section One

variable {puzzle : Bytes} {fuel : Nat}

/-- The board is read off 81 digits. -/
def Readable (puzzle : Bytes) : Prop :=
  ∀ cell < 81, 48 ≤ (puzzle.getD cell 0).toNat ∧ (puzzle.getD cell 0).toNat ≤ 57

theorem input_of_readable (h : Readable puzzle) : Puzzle.input puzzle =
    some { board := boardOf puzzle, spaces := Puzzle.findSpaces (boardOf puzzle) } := by
  unfold Readable at h
  rw [Puzzle.input, Dance.input, if_pos h]
  rfl

theorem input_of_not_readable (h : ¬ Readable puzzle) : Puzzle.input puzzle = none := by
  unfold Readable at h
  rw [Puzzle.input, Dance.input, if_neg h]
  rfl

theorem Readable.boardOf_le (h : Readable puzzle) : ∀ i < 81, boardOf puzzle i ≤ 9 := by
  intro i hi
  have hcell := h i hi
  rw [boardOf]
  omega

/-- The backtracking solvers agree on the verdict; what they leave fills the blanks. -/
theorem solve_backtracking {mode : Mode} (hmode : mode ≠ .dancingLinks) (hfuel : 81 < fuel)
    (h : Readable puzzle) :
    (∃ board, solve mode neighborTable fuel
        { board := boardOf puzzle, spaces := Puzzle.findSpaces (boardOf puzzle) }
        (Cache.initCache neighborTable (boardOf puzzle)) = some ([], true, board) ∧
      Puzzle.Fills (boardOf puzzle) board) ∨
    (∃ board, solve mode neighborTable fuel
        { board := boardOf puzzle, spaces := Puzzle.findSpaces (boardOf puzzle) }
        (Cache.initCache neighborTable (boardOf puzzle)) = some ([], false, board) ∧
      ¬ ∃ full, Puzzle.Fills (boardOf puzzle) full) := by
  have hrun := fun pick (hpick : Puzzle.Picks pick) => Puzzle.solveWith_board hpick hfuel
    (s := ⟨boardOf puzzle, Puzzle.findSpaces (boardOf puzzle)⟩) rfl
  have hcache := CachedPuzzle.cache_board hfuel
    (s := ⟨boardOf puzzle, Puzzle.findSpaces (boardOf puzzle)⟩) h.boardOf_le rfl
  cases mode with
  | basic =>
    rcases hrun _ Puzzle.picks_basic with ⟨s', hs, -, hfills, -⟩ | ⟨s', hs, -, -, hnone⟩
    · exact .inl ⟨s'.board, by rw [solve, Puzzle.solveSudokuBasic, hs]; rfl, hfills⟩
    · exact .inr ⟨s'.board, by rw [solve, Puzzle.solveSudokuBasic, hs]; rfl, hnone⟩
  | minArity =>
    rcases hrun _ (Puzzle.picks_minArity neighborTable) with
      ⟨s', hs, -, hfills, -⟩ | ⟨s', hs, -, -, hnone⟩
    · exact .inl ⟨s'.board, by rw [solve, Puzzle.solveSudokuMinArity, hs]; rfl, hfills⟩
    · exact .inr ⟨s'.board, by rw [solve, Puzzle.solveSudokuMinArity, hs]; rfl, hnone⟩
  | minArityCache =>
    rcases hrun _ (Puzzle.picks_minArity neighborTable) with
      ⟨s', hs, -, hfills, -⟩ | ⟨s', hs, -, -, hnone⟩
    · rw [Puzzle.solveSudokuMinArity, hs] at hcache
      obtain ⟨c, hc, rfl⟩ := hcache.of_true
      exact .inl ⟨c.puzzle.board, by rw [solve, hc]; rfl, hfills⟩
    · rw [Puzzle.solveSudokuMinArity, hs] at hcache
      obtain ⟨c, hc, rfl, -⟩ := hcache.of_false
      exact .inr ⟨c.puzzle.board, by rw [solve, hc]; rfl, hnone⟩
  | dancingLinks => exact absurd rfl hmode

/-- A filled board is solved exactly when it is a completion. -/
theorem solved_of_fills {given full : Nat → Nat} (h : Puzzle.Fills given full) :
    Puzzle.solved full = some true ↔ Completes given full := by
  rw [Puzzle.solved_iff, completes_iff]
  have hkeeps : ∀ i < 81, given i ≠ 0 → full i = given i := fun i hi hne =>
    h.same i fun hmem => hne (Puzzle.mem_findSpaces.mp hmem).2
  exact ⟨fun hs => ⟨hs.1, hkeeps, hs.2⟩, fun hc => ⟨hc.1, hc.2.2⟩⟩

/-- The program goes on after a puzzle: it has digits, and its givens do not conflict unless the blanks
cannot be filled at all. -/
def GoesOn (puzzle : Bytes) : Prop :=
  Readable puzzle ∧
    ((∃ full, Puzzle.Fills (boardOf puzzle) full) → Consistent (boardOf puzzle))

open Classical in
/-- What is printed for a puzzle: nothing, or the puzzle when it has no completion. -/
noncomputable def report (puzzle : Bytes) : Bytes :=
  if ∃ full, Completes (boardOf puzzle) full then [] else ascii "No: " ++ puzzle

theorem solvePuzzle_backtracking {mode : Mode} (hmode : mode ≠ .dancingLinks) (hfuel : 81 < fuel) :
    (GoesOn puzzle → solvePuzzle mode neighborTable fuel puzzle = some (report puzzle)) ∧
    (¬ GoesOn puzzle → solvePuzzle mode neighborTable fuel puzzle = none) := by
  by_cases hread : Readable puzzle
  · have hle := hread.boardOf_le
    simp only [solvePuzzle, input_of_readable hread, Option.bind_eq_bind, Option.bind_some]
    rcases solve_backtracking hmode hfuel hread with ⟨board, hrun, hfills⟩ | ⟨board, hrun, hnone⟩
    · simp only [hrun, Option.bind_some, if_true]
      have hsolved := (solved_of_fills hfills).trans (hfills.completes_iff hle)
      constructor
      · intro hgo
        have hgiven := hgo.2 ⟨board, hfills⟩
        rw [report, if_pos ⟨board, (hfills.completes_iff hle).mpr hgiven⟩, hsolved.mpr hgiven]
        rfl
      · intro hstop
        have hgiven : ¬ Consistent (boardOf puzzle) := fun hc => hstop ⟨hread, fun _ => hc⟩
        cases hs : Puzzle.solved board with
        | none => rfl
        | some ok =>
          cases ok with
          | true => exact absurd (hsolved.mp hs) hgiven
          | false => rfl
    · simp only [hrun, Option.bind_some, Bool.false_eq_true, if_false]
      constructor
      · intro _
        have hno : ¬ ∃ full, Completes (boardOf puzzle) full := fun ⟨full, hfull⟩ =>
          hnone ⟨_, Puzzle.fills_of_completes hfull⟩
        rw [report, if_neg hno]
        rfl
      · exact fun hstop => absurd ⟨hread, fun hex => absurd hex hnone⟩ hstop
  · rw [solvePuzzle, input_of_not_readable hread]
    exact ⟨fun hgo => absurd hgo.1 hread, fun _ => rfl⟩

theorem ofBoard_eq (h : Readable puzzle) : Dance.new puzzle = Dance.ofBoard (boardOf puzzle) := by
  unfold Readable at h
  rw [Dance.new, Dance.input, if_pos h]
  rfl

/-- The digits of a board as `printf` writes them. -/
theorem outAnswer_eq {d : Dance} (h : ∀ i < 81, d.inout i ≤ 9) : d.outAnswer = digitsOf d.inout := by
  rw [Dance.outAnswer, digitsOf, ← List.flatMap_singleton' (List.map _ _), List.flatMap_map]
  apply List.flatMap_congr
  intro i hi
  exact toDec_digit _ (h i (List.mem_range.mp hi))

theorem solvePuzzle_dancingLinks (hfuel : kMaxNodes ≤ fuel) :
    ((Readable puzzle ∧ ∃ full, Completes (boardOf puzzle) full) →
      ∃ answer, solvePuzzle .dancingLinks neighborTable fuel puzzle = some (answer ++ [10]) ∧
        Digits answer ∧ Completes (boardOf puzzle) (boardOf answer)) ∧
    (¬ (Readable puzzle ∧ ∃ full, Completes (boardOf puzzle) full) →
      solvePuzzle .dancingLinks neighborTable fuel puzzle = none) := by
  by_cases hread : Readable puzzle
  · have hinput : Dance.input puzzle = some (boardOf puzzle) := by
      unfold Readable at hread
      rw [Dance.input, if_pos hread]
      rfl
    obtain ⟨found, d, hrun, hyes, hno⟩ := Dance.solve_board hinput hread.boardOf_le hfuel
    rw [ofBoard_eq hread] at hrun
    obtain ⟨d₀, hnew, hsolve⟩ := Option.bind_eq_some_iff.mp hrun
    simp only [solvePuzzle, input_of_readable hread, solve, hnew, hsolve, Option.bind_eq_bind,
      Option.bind_some, if_true]
    constructor
    · rintro ⟨-, hex⟩
      have hfull := hyes hex
      have hle : ∀ i < 81, d.inout i ≤ 9 := fun i hi => (hfull.digit i hi).2
      obtain ⟨hdigit, -, hproper⟩ := completes_iff.mp hfull
      rw [Puzzle.solved_iff.mpr ⟨hdigit, hproper⟩, outAnswer_eq hle]
      exact ⟨digitsOf d.inout, rfl, digitsOf_digits hle,
        hfull.congr fun i hi => boardOf_digitsOf hle hi⟩
    · intro hstop
      have hnone : ¬ ∃ full, Completes (boardOf puzzle) full := fun hex => hstop ⟨hread, hex⟩
      rw [(hno hnone).2]
      cases hs : Puzzle.solved (boardOf puzzle) with
      | none => rfl
      | some ok =>
        cases ok with
        | true =>
          -- a board that is solved already would be its own completion
          obtain ⟨hdigit, hproper⟩ := Puzzle.solved_iff.mp hs
          exact absurd ⟨_, completes_iff.mpr ⟨hdigit, fun _ _ _ => rfl, hproper⟩⟩ hnone
        | false => rfl
  · rw [solvePuzzle, input_of_not_readable hread]
    exact ⟨fun h => absurd h.1 hread, fun _ => rfl⟩

end One

/-! ## The program -/

/-- With a backtracking solver the program ends unless some puzzle has another character than a digit,
or givens that conflict though the blanks can be filled; it then has printed the puzzles that have no
completion. All three do the same on every file. -/
theorem main_backtracking (arg : Option Bytes) (hmode : modeOf arg ≠ .dancingLinks) (fuel : Nat)
    (hfuel : 81 < fuel) (file out : Bytes) : main arg fuel file = some out ↔
      (∀ puzzle ∈ puzzlesOf file, GoesOn puzzle) ∧ out = (puzzlesOf file).flatMap report := by
  rw [main_eq]
  exact printAll_iff (fun _ h => (solvePuzzle_backtracking hmode hfuel).1 h)
    fun _ h => (solvePuzzle_backtracking hmode hfuel).2 h

/-- A file with the empty board. -/
theorem main_backtracking_blank : main none 82 (List.replicate 81 48 ++ [10]) = some [] ↔
    (∀ puzzle ∈ puzzlesOf (List.replicate 81 48 ++ [10]), GoesOn puzzle) ∧
      [] = (puzzlesOf (List.replicate 81 48 ++ [10])).flatMap report :=
  main_backtracking none (by decide) 82 (by omega) _ []

/-- With the dancing links the program prints a completion of each puzzle, unless some puzzle has
another character than a digit or no completion: there it ends by an assertion. -/
theorem main_dancingLinks (arg : Option Bytes) (hmode : modeOf arg = .dancingLinks) (fuel : Nat)
    (hfuel : kMaxNodes ≤ fuel) (file : Bytes) :
    (main arg fuel file = none ↔ ∃ puzzle ∈ puzzlesOf file,
      ¬ (Readable puzzle ∧ ∃ full, Completes (boardOf puzzle) full)) ∧
    ∀ out, main arg fuel file = some out → ∃ outs, out = outs.flatten ∧
      List.Forall₂ (fun puzzle printed => ∃ answer, printed = answer ++ [10] ∧ Digits answer ∧
        Completes (boardOf puzzle) (boardOf answer)) (puzzlesOf file) outs := by
  rw [main_eq, hmode]
  constructor
  · rw [printAll_none]
    apply exists_congr
    intro puzzle
    apply and_congr_right
    intro _
    obtain ⟨hyes, hno⟩ := @solvePuzzle_dancingLinks puzzle fuel hfuel
    constructor
    · intro hnone hex
      obtain ⟨answer, hrun, -⟩ := hyes hex
      rw [hnone] at hrun
      cases hrun
    · exact hno
  · intro out hout
    obtain ⟨outs, hall, heq⟩ := printAll_forall₂ (P := fun puzzle printed => ∃ answer,
      printed = answer ++ [10] ∧ Digits answer ∧ Completes (boardOf puzzle) (boardOf answer)) (by
        intro puzzle _ printed hprinted
        obtain ⟨hyes, hno⟩ := @solvePuzzle_dancingLinks puzzle fuel hfuel
        by_cases hex : Readable puzzle ∧ ∃ full, Completes (boardOf puzzle) full
        · obtain ⟨answer, hrun, hanswer⟩ := hyes hex
          rw [hprinted] at hrun
          exact ⟨answer, Option.some.inj hrun, hanswer⟩
        · rw [hno hex] at hprinted
          cases hprinted) hout
    exact ⟨outs, heq, hall⟩

theorem main_dancingLinks_blank :
    (main (some [100]) kMaxNodes (List.replicate 81 48 ++ [10]) = none ↔
      ∃ puzzle ∈ puzzlesOf (List.replicate 81 48 ++ [10]),
        ¬ (Readable puzzle ∧ ∃ full, Completes (boardOf puzzle) full)) ∧
    ∀ out, main (some [100]) kMaxNodes (List.replicate 81 48 ++ [10]) = some out →
      ∃ outs, out = outs.flatten ∧
        List.Forall₂ (fun puzzle printed => ∃ answer, printed = answer ++ [10] ∧ Digits answer ∧
          Completes (boardOf puzzle) (boardOf answer))
          (puzzlesOf (List.replicate 81 48 ++ [10])) outs :=
  main_dancingLinks (some [100]) rfl kMaxNodes (Nat.le_refl _) _

end CloudLabs.Sudoku
