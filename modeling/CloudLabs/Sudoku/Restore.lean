import CloudLabs.Sudoku.Solver

/-!
# What a failed search restores

A search that fails has uncovered every column that it had covered, in the opposite order, so that
it ends in the state in which it was called: all the fields of all the nodes, the stack and the
board. The same holds of a single column: as long as it is in the header list, `uncover` undoes
`cover`. Both hold in every state to which the covers of `solve` lead from the constructor, also in
the midst of the columns of a row.
-/

set_option autoImplicit false

namespace CloudLabs.Sudoku

open CloudLabs.Foundation

namespace Dance

/-! ## The states of a search -/

/-- Following `next` from `h`, one comes to the node `x` before one is back. -/
def OnLoop (next : Nat → Nat) (h x : Nat) : Prop := x ≠ h ∧ ∃ n, next^[n] h = x

/-- In the state `d`, `solve` covers the column `c`, which leads to the state `d'`. -/
structure Opens (walk : Nat) (d : Dance) (c : Nat) (d' : Dance) : Prop where
  unsolved : d.left d.root ≠ d.root
  chosen : d.getMinColumn walk = some c
  covered : d.cover walk c = some d'

/-- The first `n` rounds of the loop of `solve` over the row of `x`, at the node `j`. -/
def coverFirst (walk x : Nat) : Nat → Nat → Dance → Option Dance
  | 0, _, d => some d
  | n + 1, j, d =>
    if j = x then some d
    else (d.cover walk (d.col j)).bind fun d' => coverFirst walk x n (d'.right j) d'

/-- The states in which `solve` is called, by `solver` or by itself. -/
inductive Called (walk : Nat) (problem : Bytes) : Dance → Prop where
  | new {d : Dance} : Dance.new problem = some d → Called walk problem d
  | row {d d' d'' : Dance} {c x : Nat} : Called walk problem d → Opens walk d c d' →
      OnLoop d'.down c x →
      forNodes (fun d => d.right) x (fun j d => d.cover walk (d.col j)) walk (d'.right x)
        { d' with stack := d'.stack ++ [x] } = some d'' →
      Called walk problem d''

/-- The states of the search: those of the calls, and those between two covers. -/
inductive Reached (walk : Nat) (problem : Bytes) : Dance → Prop where
  | called {d : Dance} : Called walk problem d → Reached walk problem d
  | column {d d' : Dance} {c : Nat} : Called walk problem d → Opens walk d c d' →
      Reached walk problem d'
  | row {d d' d'' : Dance} {c x n : Nat} : Called walk problem d → Opens walk d c d' →
      OnLoop d'.down c x →
      coverFirst walk x n (d'.right x) { d' with stack := d'.stack ++ [x] } = some d'' →
      Reached walk problem d''

section Restore

variable {m : Matrix} {L : Nat → List Nat} {d d' : Dance} {A : List Nat} {R : List (List Nat)}
  {name : Nat → Nat} {walk c x : Nat}

/-! ## The invariant -/

/-- The links of the state make up a part of the matrix, and the stack holds nodes of it. -/
def Fits (d : Dance) (m : Matrix) (name : Nat → Nat) : Prop :=
  d.name = name ∧ (∀ x ∈ d.stack, x ∈ m.nodes) ∧
    ∃ A R L, d.Links m L ∧ d.Active m A R L

theorem OnLoop.mem {next prev : Nat → Nat} {h : Nat} {l : List Nat} (hx : OnLoop next h x)
    (hring : Ring next prev h l) : x ∈ l := by
  obtain ⟨hne, n, rfl⟩ := hx
  exact (List.mem_cons.mp (hring.iterate_mem n)).resolve_left hne

/-- The root is alone in the header list when no column is left. -/
theorem Active.nonempty (ha : d.Active m A R L) (hroot : d.left d.root ≠ d.root) : A ≠ [] := by
  rintro rfl
  have hhead := ha.header.reverse.next_head
  exact hroot (by simpa using hhead.symm)

/-- The column is one of the header list, and what is left is the matrix without it. -/
theorem Opens.spec (hopen : Opens walk d c d') (h : d.Links m L) (ha : d.Active m A R L)
    (hwalk : Matrix.bound m < walk) :
    c ∈ A ∧ Same d d' ∧ ∃ L', d'.Links m L' ∧
      d'.Active m (without A [c]) (clearOf (colsOf d) R [c]) L' ∧
      ∀ x ∈ L' c, ∀ j ∈ m.rest x, d'.col j ∈ without A [c] := by
  obtain ⟨c', hmin, hc⟩ := getMinColumn_spec h ha (ha.nonempty hopen.unsolved)
    (Nat.lt_of_le_of_lt ha.length_le hwalk)
  -- there is only one column that the search may choose
  obtain rfl : c' = c := Option.some.inj (hmin.symm.trans hopen.chosen)
  obtain ⟨d₁, L₁, hcover, -, hlinks, hactive, hL, hsame⟩ := cover_spec h ha hc hwalk
  have hrun : cover walk c' d = some { d₁ with stack := d.stack } := hcover d.stack
  obtain rfl : d' = d₁ := by
    rw [hopen.covered] at hrun
    rw [Option.some.inj hrun, ← hsame.stack]
  refine ⟨hc, hsame, L₁, hlinks, hactive, ?_⟩
  rw [hL, hsame.col]
  exact rest_fresh h ha hc

/-- Some of the columns of a row are covered. -/
theorem coverFirst_spec (h : d.Links m L) (hx : x ∈ m.nodes) (hrest : ∀ j ∈ m.rest x, d.col j ∈ A)
    (hwalk : Matrix.bound m < walk) (st : List Nat) :
    ∀ (n : Nat) (todo : List Nat) (j : Nat) (s s' : Dance), (∀ y ∈ todo, y ∈ m.rest x) →
      RowState m walk d A R x st todo s → (todo ++ [x]).head? = some j →
      coverFirst walk x n j s = some s' → ∃ todo', RowState m walk d A R x st todo' s' := by
  intro n
  induction n with
  | zero =>
    intro todo j s s' _ hs _ hrun
    obtain rfl := Option.some.inj hrun
    exact ⟨todo, hs⟩
  | succ n ih =>
    intro todo j s s' htodo hs hj hrun
    rw [coverFirst] at hrun
    cases todo with
    | nil =>
      obtain rfl : x = j := by simpa using hj
      rw [if_pos rfl] at hrun
      obtain rfl := Option.some.inj hrun
      exact ⟨[], hs⟩
    | cons y todo =>
      obtain rfl : y = j := by simpa using hj
      have hy := htodo y List.mem_cons_self
      have hne : y ≠ x := ((Matrix.mem_rest h.nodes_nodup hx).mp hy).2
      -- one more cover keeps `RowState`, with one node less to do
      obtain ⟨s₁, hcover, hs₁, hnext⟩ := rowState_step h hx hrest hwalk hy hs
      rw [if_neg hne, hcover, Option.bind_some] at hrun
      exact ih todo _ s₁ s' (fun z hz => htodo z (List.mem_cons_of_mem _ hz)) hs₁ hnext hrun

theorem RowState.fits {st todo : List Nat} {s : Dance} (hs : RowState m walk d A R x st todo s)
    (hst : ∀ y ∈ st, y ∈ m.nodes) (hname : d.name = name) : s.Fits m name := by
  obtain ⟨done, d', L', -, rfl, -, hsame, hlinks, hactive⟩ := hs
  exact ⟨hsame.name.trans hname, hst, _, _, _, hlinks.onStack st, hactive.onStack st⟩

/-- The row of a node of the column that was covered, with its node on the stack. -/
theorem Fits.row (h : d.Fits m name) (hwalk : Matrix.bound m < walk) (hopen : Opens walk d c d')
    (hx : OnLoop d'.down c x) :
    ∃ A R L, d'.Links m L ∧ d'.Active m A R L ∧ d'.name = name ∧ x ∈ m.nodes ∧
      (∀ j ∈ m.rest x, d'.col j ∈ A) ∧ ∀ y ∈ d'.stack ++ [x], y ∈ m.nodes := by
  obtain ⟨hname, hstack, A, R, L, hlinks, hactive⟩ := h
  obtain ⟨hc, hsame, L', hlinks', hactive', hrest⟩ := hopen.spec hlinks hactive hwalk
  have hcm := hactive.cols c hc
  have hxL := hx.mem (hlinks'.colRing c hcm)
  have hnode := (hlinks'.members c hcm x hxL).1
  refine ⟨_, _, L', hlinks', hactive', hsame.name.trans hname, hnode, hrest x hxL, ?_⟩
  intro y hy
  rcases List.mem_append.mp hy with hy | hy
  · rw [hsame.stack] at hy
    exact hstack y hy
  · rw [List.mem_singleton.mp hy]
    exact hnode

theorem Called.fits {problem : Bytes} (h : Called walk problem d) {d₀ : Dance}
    (hnew : Dance.new problem = some d₀) (h₀ : d₀.Fits m name) (hwalk : Matrix.bound m < walk) :
    d.Fits m name := by
  induction h with
  | new hd =>
    obtain rfl := Option.some.inj (hd.symm.trans hnew)
    exact h₀
  | row _ hopen hx hrun ih =>
    obtain ⟨A, R, L, hlinks, hactive, hname, hnode, hrest, hst⟩ := ih.row hwalk hopen hx
    obtain ⟨d₁, L₁, hcover, -, hsame, hlinks', hactive'⟩ :=
      coverRow hlinks hactive hnode hrest hwalk _
    obtain rfl := Option.some.inj (hcover.symm.trans hrun)
    exact ⟨hsame.name.trans hname, hst, _, _, _, hlinks'.onStack _, hactive'.onStack _⟩

theorem Reached.fits {problem : Bytes} (h : Reached walk problem d) {d₀ : Dance}
    (hnew : Dance.new problem = some d₀) (h₀ : d₀.Fits m name) (hwalk : Matrix.bound m < walk) :
    d.Fits m name := by
  cases h with
  | called hd => exact hd.fits hnew h₀ hwalk
  | column hd hopen =>
    obtain ⟨hname, hstack, A, R, L, hlinks, hactive⟩ := hd.fits hnew h₀ hwalk
    obtain ⟨-, hsame, L', hlinks', hactive', -⟩ := hopen.spec hlinks hactive hwalk
    refine ⟨hsame.name.trans hname, ?_, _, _, L', hlinks', hactive'⟩
    rw [hsame.stack]
    exact hstack
  | row hd hopen hx hrun =>
    obtain ⟨A, R, L, hlinks, hactive, hname, hnode, hrest, hst⟩ :=
      (hd.fits hnew h₀ hwalk).row hwalk hopen hx
    obtain ⟨todo, hs⟩ := coverFirst_spec hlinks hnode hrest hwalk _ _ _ _ _ _ (fun _ hy => hy)
      (rowState_begin hlinks hactive _ _) (rest_ring hlinks hnode).next_head hrun
    exact hs.fits hst hname

/-! ## What is restored -/

/-- A search that ends without a solution ends where it began. -/
theorem Fits.solve {read : Nat → Nat × Nat} (h : d.Fits m name) (hread : Reads m walk name read)
    (hwalk : Matrix.bound m < walk) {fuel : Nat} (hfuel : Matrix.bound m < fuel) :
    ∃ found d', d.solve walk fuel = some (found, d') ∧ (found = false → d' = d) := by
  obtain ⟨hname, hstack, A, R, L, hlinks, hactive⟩ := h
  rcases solve_spec hread hwalk fuel d A R L hlinks hactive hname hstack
    (Nat.lt_of_le_of_lt hactive.length_le hfuel) with ⟨d', hrun, -⟩ | ⟨hrun, -⟩
  · exact ⟨true, d', hrun, fun hfalse => by cases hfalse⟩
  · exact ⟨false, d, hrun, fun _ => rfl⟩

theorem Fits.uncover_cover (h : d.Fits m name) (hwalk : Matrix.bound m < walk)
    (hc : OnLoop d.right d.root c) :
    ∃ d', d.cover walk c = some d' ∧ d'.uncover walk c = some d := by
  obtain ⟨-, -, A, R, L, hlinks, hactive⟩ := h
  obtain ⟨d', L', hcover, huncover, -, -, -, -⟩ :=
    cover_spec hlinks hactive (hc.mem hactive.header) hwalk
  exact ⟨_, hcover d.stack, huncover d.stack⟩

end Restore

/-- In every state of the search on a board, a call that fails leaves the state as it was, and so
does covering and uncovering a column of the header list. -/
theorem failed_search_restores (fuel : Nat) (hfuel : kMaxNodes ≤ fuel) (problem : Bytes)
    (hproblem : Digits problem) (d : Dance) (hd : Reached fuel problem d) :
    (∃ found d', d.solve fuel fuel = some (found, d') ∧ (found = false → d' = d)) ∧
    ∀ c, OnLoop d.right d.root c → ∃ d', d.cover fuel c = some d' ∧ d'.uncover fuel c = some d := by
  obtain ⟨d₀, m, hnew, hstands, -, hstack⟩ := new_spec hproblem.input
  have hbound : Matrix.bound m < fuel := Nat.lt_of_lt_of_le hstands.bound hfuel
  have hmax : kMaxNodes = 3241 := rfl
  have hread : Reads m fuel d₀.name (d₀.choiceAt m) := hstands.reads (by omega)
  -- the constructor leaves the stack empty
  have hbegin : d₀.Fits m d₀.name := by
    refine ⟨rfl, ?_, _, _, _, hstands.links, hstands.active⟩
    intro x hx
    rw [hstack] at hx
    cases hx
  have hfits := hd.fits hnew hbegin hbound
  exact ⟨hfits.solve hread hbound hbound, fun c hc => hfits.uncover_cover hbound hc⟩

/-- A board on which no digit is left for the last cell of the first row. -/
def closedBoard : Bytes :=
  [49, 50, 51, 52, 53, 54, 55, 56, 48] ++ (List.replicate 8 48 ++ 57 :: List.replicate 63 48)

theorem digits_closedBoard : Digits closedBoard := ⟨by decide, by decide +kernel⟩

theorem no_completion_closedBoard : ¬ ∃ full, Completes (boardOf closedBoard) full := by
  rintro ⟨full, h⟩
  obtain ⟨h₁, h₉⟩ := h.digit 8 (by omega)
  -- the digit of the cell is in its row, or is the 9 of its column
  have hrow : ∀ i < 8, full i = i + 1 := by
    intro i hi
    have hgiven : ∀ i < 8, boardOf closedBoard i = i + 1 := by decide
    rw [h.keeps i (by omega) (by rw [hgiven i hi]; omega), hgiven i hi]
  have hcol : full 17 = 9 := h.keeps 17 (by omega) (by decide)
  by_cases hnine : full 8 = 9
  · obtain ⟨i, -, hone⟩ := h.once .col 8 (by omega) 9 (by omega) le_rfl
    have heq := (hone 8 ⟨by omega, rfl, hnine⟩).trans (hone 17 ⟨by omega, rfl, hcol⟩).symm
    omega
  · obtain ⟨i, -, hone⟩ := h.once .row 0 (by omega) (full 8) h₁ h₉
    have hfirst : full (full 8 - 1) = full 8 := by
      rw [hrow (full 8 - 1) (by omega)]
      omega
    have hrow₀ : Kind.of .row (full 8 - 1) = 0 := Nat.div_eq_of_lt (by omega)
    have heq := (hone 8 ⟨by omega, rfl, rfl⟩).trans (hone _ ⟨by omega, hrow₀, hfirst⟩).symm
    omega

/-- On this board the search fails, and the state behind its first cover is one of the search. -/
theorem failed_search_restores_closed : ∃ d c d', Dance.new closedBoard = some d ∧
    d.solve kMaxNodes kMaxNodes = some (false, d) ∧ Opens kMaxNodes d c d' ∧
    (∃ found d'', d'.solve kMaxNodes kMaxNodes = some (found, d'') ∧ (found = false → d'' = d')) ∧
    ∀ e, OnLoop d'.right d'.root e →
      ∃ d'', d'.cover kMaxNodes e = some d'' ∧ d''.uncover kMaxNodes e = some d' := by
  obtain ⟨d, m, hnew, hstands, -, -⟩ := new_spec digits_closedBoard.input
  have hbound := hstands.bound
  -- the search covers a column first
  have hcols : m.cols ≠ [] := by
    intro hnil
    have hcell : 8 ∈ columnNames (boardOf closedBoard) :=
      mem_columnNames.mpr (.inl ⟨by omega, by decide⟩)
    rw [← hstands.colNames, hnil] at hcell
    cases hcell
  have hlinks := hstands.links
  have hactive := hstands.active
  obtain ⟨c, hmin, hc⟩ := getMinColumn_spec hlinks hactive hcols
    (Nat.lt_of_le_of_lt hactive.length_le hbound)
  obtain ⟨d₁, -, hcover, -⟩ := cover_spec hlinks hactive hc hbound
  have hopens : Opens kMaxNodes d c { d₁ with stack := d.stack } :=
    ⟨fun hroot => hcols ((hactive.left_root_iff hlinks).mp hroot), hmin, hcover d.stack⟩
  obtain ⟨⟨found, d', hrun, hkeep⟩, -⟩ := failed_search_restores kMaxNodes le_rfl closedBoard
    digits_closedBoard d (.called (.new hnew))
  obtain ⟨found', d'', hrun', -, hno⟩ :=
    solve_board digits_closedBoard.input digits_closedBoard.boardOf_le (le_refl kMaxNodes)
  rw [hnew, Option.bind_eq_bind, Option.bind_some, hrun, Option.some.injEq, Prod.mk.injEq] at hrun'
  have hfalse : found = false := hrun'.1.trans (hno no_completion_closedBoard).1
  rw [hkeep hfalse, hfalse] at hrun
  exact ⟨d, c, _, hnew, hrun, hopens, failed_search_restores kMaxNodes le_rfl closedBoard
    digits_closedBoard _ (.column (.new hnew) hopens)⟩

end Dance

end CloudLabs.Sudoku
