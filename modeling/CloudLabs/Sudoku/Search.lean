import CloudLabs.Sudoku.Links

/-!
# The search

`solve` covers a column and then, for each of its rows, the other columns of the row, before it
calls itself. By `solve_spec` it ends, for a matrix of any size and with enough fuel, in one of two
ways: with the rows of an exact cover on its stack, entered into the board, or in the state in which
it was called, when there is no exact cover.
-/

set_option autoImplicit false

namespace CloudLabs.Sudoku

open CloudLabs.Foundation

namespace Dance

open Function (update)

section Search

variable {m : Matrix} {L : Nat → List Nat} {d : Dance} {A : List Nat} {R : List (List Nat)} {walk : Nat}

/-! ## The choice of a column -/

theorem minFrom_spec (ha : d.Active m A R L) (hroot : d.root ∉ A) :
    ∀ (fuel : Nat) (done todo : List Nat) (cc c : Nat) (minSize : Int), A = done ++ todo →
      (todo ++ [d.root]).head? = some cc → c ∈ A → todo.length < fuel →
      ∃ c', d.minFrom fuel cc c minSize = some c' ∧ c' ∈ A := by
  intro fuel
  induction fuel with
  | zero =>
    intro done todo cc c minSize _ _ _ hfuel
    omega
  | succ fuel ih =>
    intro done todo cc c minSize hsplit hcc hc hfuel
    rw [minFrom]
    cases todo with
    | nil =>
      cases hcc
      rw [if_pos rfl]
      exact ⟨c, rfl, hc⟩
    | cons x todo =>
      obtain rfl : x = cc := by simpa using hcc
      have hx : x ∈ A := by
        rw [hsplit]
        exact List.mem_append_right _ List.mem_cons_self
      have hne : x ≠ d.root := by
        rintro rfl
        exact hroot hx
      have hring := ha.header
      rw [hsplit] at hring
      have hnext := hring.next_of_split
      have hsplit' : A = (done ++ [x]) ++ todo := by rw [hsplit, List.append_assoc]; rfl
      have hless : todo.length < fuel := by simpa using hfuel
      rw [if_neg hne]
      -- a smaller column is preferred, and the search for one ends at a size of one
      by_cases hmin : minSize > d.size x
      · rw [if_pos hmin]
        by_cases hone : d.size x ≤ 1
        · rw [if_pos hone]
          exact ⟨x, rfl, hx⟩
        · rw [if_neg hone]
          exact ih _ todo _ x _ hsplit' hnext hx hless
      · rw [if_neg hmin]
        exact ih _ todo _ c _ hsplit' hnext hc hless

/-- Some column of the header list is chosen. -/
theorem getMinColumn_spec (h : d.Links m L) (ha : d.Active m A R L) (hA : A ≠ [])
    (hwalk : A.length < walk) : ∃ c, d.getMinColumn walk = some c ∧ c ∈ A := by
  have hroot := (List.nodup_cons.mp (ha.header_nodup h)).1
  obtain ⟨c, A', rfl⟩ := List.exists_cons_of_ne_nil hA
  have hfirst : c = d.right d.root := by
    have hhead := ha.header.next_head
    simpa using hhead
  have hc : c ∈ c :: A' := List.mem_cons_self
  unfold getMinColumn
  dsimp only
  rw [← hfirst]
  by_cases hsize : d.size c > 1
  · rw [if_pos hsize]
    have hsplit : Ring d.right d.left d.root ([] ++ c :: A') := ha.header
    have hnext := hsplit.next_of_split
    apply minFrom_spec ha hroot walk [c] A' _ c _ rfl hnext hc
    rw [List.length_cons] at hwalk
    omega
  · rw [if_neg hsize]
    exact ⟨c, rfl, hc⟩

/-! ## The columns of a row -/

/-- The links of the rows. -/
def Rings (d : Dance) (m : Matrix) : Prop := ∀ x ∈ m.nodes, Ring d.right d.left x (m.rest x)

theorem Links.rings (h : d.Links m L) : d.Rings m := fun _ hx => rest_ring h hx

/-- Uncovering the columns of the nodes, one after the other, leads back to the state `d`. -/
def Undoes (m : Matrix) (walk : Nat) (d : Dance) : List Nat → Dance → Prop
  | [], d' => d' = d
  | j :: todo, d' => ∃ d'', d'.col = d''.col ∧
      (∀ st, uncover walk (d'.col j) { d' with stack := st } = some { d'' with stack := st }) ∧
      d''.Rings m ∧ Undoes m walk d todo d''

/-- The loop over the other columns of the row of `x` has those of `todo` still to come. -/
def RowState (m : Matrix) (walk : Nat) (d : Dance) (A : List Nat) (R : List (List Nat)) (x : Nat)
    (st todo : List Nat) (s : Dance) : Prop :=
  ∃ done d' L', m.rest x = done ++ todo ∧ s = { d' with stack := st } ∧
    Undoes m walk d done.reverse d' ∧ Same d d' ∧ d'.Links m L' ∧
    d'.Active m (without A (done.map d.col)) (clearOf (colsOf d) R (done.map d.col)) L'

theorem rowState_begin (h : d.Links m L) (ha : d.Active m A R L) (x : Nat) (st : List Nat) :
    RowState m walk d A R x st (m.rest x) { d with stack := st } := by
  refine ⟨[], d, L, rfl, rfl, rfl, Same.refl d, h, ?_⟩
  rw [List.map_nil, without_nil, clearOf_nil]
  exact ha

/-- The next column of the row is covered, and the links of the row lead on. -/
theorem rowState_step (h : d.Links m L) {x : Nat} (hx : x ∈ m.nodes)
    (hrest : ∀ j ∈ m.rest x, d.col j ∈ A) (hwalk : Matrix.bound m < walk) {st : List Nat}
    {y : Nat} {todo : List Nat} {s : Dance} (hy : y ∈ m.rest x)
    (hs : RowState m walk d A R x st (y :: todo) s) :
    ∃ s', s.cover walk (s.col y) = some s' ∧ RowState m walk d A R x st todo s' ∧
      (todo ++ [x]).head? = some (s'.right y) := by
  obtain ⟨done, d', L', hsplit, rfl, hundo, hsame, hlinks, hactive⟩ := hs
  -- The columns of a row are different, so the next one is still there.
  have hfresh : d.col y ∈ without A (done.map d.col) := by
    refine mem_without.mpr ⟨hrest y hy, ?_⟩
    intro hin
    obtain ⟨z, hz, hzy⟩ := List.mem_map.mp hin
    have hzr : z ∈ m.rest x := by
      rw [hsplit]
      exact List.mem_append_left _ hz
    have hrow := (Matrix.rowOf_spec hx).1
    have hzrow := ((Matrix.mem_rest h.nodes_nodup hx).mp hzr).1
    have hyrow := ((Matrix.mem_rest h.nodes_nodup hx).mp hy).1
    have heq := h.col_injective hrow hzrow hyrow hzy
    have hnodup := Matrix.rest_nodup h.nodes_nodup hx
    rw [hsplit] at hnodup
    exact (List.nodup_append.mp hnodup).2.2 z hz y List.mem_cons_self heq
  have hcol : d'.col = d.col := hsame.col
  obtain ⟨d'', L'', hcover, huncover, hlinks', hactive', -, hsame'⟩ :=
    cover_spec hlinks hactive hfresh hwalk
  have hcols : colsOf d' = colsOf d := by
    funext r
    rw [colsOf, colsOf, hcol]
  rw [hcols] at hactive'
  refine ⟨{ d'' with stack := st }, ?_, ⟨done ++ [y], d'', L'', ?_, rfl, ?_, hsame.trans hsame',
    hlinks', ?_⟩, ?_⟩
  · show cover walk (d'.col y) _ = _
    rw [congrFun hcol y]
    exact hcover st
  · rw [hsplit, List.append_assoc]
    rfl
  · -- this cover is the first to be undone
    rw [List.reverse_append]
    refine ⟨d', hsame'.col, ?_, hlinks.rings, hundo⟩
    rw [congrFun hsame'.col y, congrFun hcol y]
    exact huncover
  · rw [List.map_append, ← without_without, ← clearOf_clearOf]
    exact hactive'
  · have hring := hlinks'.rings x hx
    rw [hsplit] at hring
    exact hring.next_of_split

/-- The loop over the other columns of a row covers them. -/
theorem coverRow (h : d.Links m L) (ha : d.Active m A R L) {x : Nat} (hx : x ∈ m.nodes)
    (hrest : ∀ j ∈ m.rest x, d.col j ∈ A) (hwalk : Matrix.bound m < walk) (st : List Nat) :
    ∃ d' L', forNodes (fun d => d.right) x (fun j d => d.cover walk (d.col j)) walk (d.right x)
        { d with stack := st } = some { d' with stack := st } ∧
      Undoes m walk d (m.rest x).reverse d' ∧ Same d d' ∧ d'.Links m L' ∧
      d'.Active m (without A ((m.rest x).map d.col))
        (clearOf (colsOf d) R ((m.rest x).map d.col)) L' := by
  have hlen := Nat.lt_of_le_of_lt (rest_length h hx) hwalk
  obtain ⟨s', hrun, done, d', L', hdone, rfl, hundo, hsame, hlinks, hactive⟩ :=
    forNodes_run (fun d => d.right) (fun j d => d.cover walk (d.col j))
      (RowState m walk d A R x st) (notMem_rest h hx) hlen (rowState_begin h ha x st)
      (rest_ring h hx).next_head fun y todo s hy hs => rowState_step h hx hrest hwalk hy hs
  rw [List.append_nil] at hdone
  rw [← hdone] at hundo hactive
  exact ⟨d', L', hrun, hundo, hsame, hlinks, hactive⟩

/-- The loop back over the columns of a row. -/
theorem uncoverRow {d' : Dance} {x : Nat} (hx : x ∈ m.nodes) (hlen : (m.rest x).length < walk)
    (hstop : x ∉ m.rest x) (hrings : d'.Rings m) (hundo : Undoes m walk d (m.rest x).reverse d')
    (st : List Nat) :
    forNodes (fun d => d.left) x (fun j d => d.uncover walk (d.col j)) walk (d'.left x)
      { d' with stack := st } = some { d with stack := st } := by
  -- each step undoes the last of the covers that are left
  have hstep : ∀ y todo s, y ∈ (m.rest x).reverse →
      (∃ done d', (m.rest x).reverse = done ++ y :: todo ∧ s = { d' with stack := st } ∧
        Undoes m walk d (y :: todo) d') →
      ∃ s', s.uncover walk (s.col y) = some s' ∧
        (∃ done d', (m.rest x).reverse = done ++ todo ∧ s' = { d' with stack := st } ∧
          Undoes m walk d todo d') ∧
        (todo ++ [x]).head? = some (s'.left y) := by
    rintro y todo s hy ⟨done, d', hsplit, rfl, d'', -, huncover, hrings, hundo⟩
    refine ⟨_, huncover st, ⟨done ++ [y], d'', ?_, rfl, hundo⟩, ?_⟩
    · rw [hsplit, List.append_assoc]
      rfl
    · have hring := (hrings x hx).reverse
      rw [hsplit] at hring
      exact hring.next_of_split
  have hstop' : x ∉ (m.rest x).reverse := by rwa [List.mem_reverse]
  have hlen' : (m.rest x).reverse.length < walk := by rwa [List.length_reverse]
  have hbegin : ∃ done d'', (m.rest x).reverse = done ++ (m.rest x).reverse ∧
      ({ d' with stack := st } : Dance) = { d'' with stack := st } ∧
      Undoes m walk d (m.rest x).reverse d'' := ⟨[], d', rfl, rfl, hundo⟩
  obtain ⟨s', hrun, -, d'', -, rfl, rfl⟩ :=
    forNodes_run (fun d => d.left) (fun j d => d.uncover walk (d.col j))
      (fun todo s => ∃ done d', (m.rest x).reverse = done ++ todo ∧ s = { d' with stack := st } ∧
        Undoes m walk d todo d')
      hstop' hlen' hbegin (hrings x hx).reverse.next_head hstep
  exact hrun

/-! ## The rows of a column -/

/-- The board with the rows of the nodes entered. -/
def entered (read : Nat → Nat × Nat) (nodes : List Nat) (inout : Nat → Nat) : Nat → Nat :=
  nodes.foldl (fun inout x => update inout (read x).1 (read x).2) inout

/-- `read` is what `readRow` finds from the nodes of the matrix. -/
def Reads (m : Matrix) (walk : Nat) (name : Nat → Nat) (read : Nat → Nat × Nat) : Prop :=
  ∀ d : Dance, d.Rings m → d.name = name → ∀ x ∈ m.nodes, d.readRow walk x none none = some (read x)

/-- The nodes of the rows of an exact cover were entered behind those of the stack. -/
def Found (cols : List Nat → List Nat) (m : Matrix) (A : List Nat) (R : List (List Nat))
    (read : Nat → Nat × Nat) (stack : List Nat) (inout : Nat → Nat) (d' : Dance) : Prop :=
  ∃ xs : List Nat, ExactCover cols A R (xs.map m.rowOf) ∧ d'.inout = entered read (stack ++ xs) inout

theorem enter_spec {read : Nat → Nat × Nat} (hread : Reads m walk d.name read) (h : d.Rings m)
    (hstack : ∀ x ∈ d.stack, x ∈ m.nodes) :
    d.enter walk = some { d with inout := entered read d.stack d.inout } := by
  have hfold : ∀ (nodes : List Nat) (inout : Nat → Nat), (∀ x ∈ nodes, x ∈ m.nodes) →
      nodes.foldlM (fun inout n => (d.readRow walk n none none).bind fun p =>
        some (update inout p.1 p.2)) inout = some (entered read nodes inout) := by
    intro nodes
    induction nodes with
    | nil =>
      intro inout _
      rfl
    | cons x nodes ih =>
      intro inout hnodes
      rw [List.foldlM_cons, hread d h rfl x (hnodes x List.mem_cons_self)]
      exact ih _ fun y hy => hnodes y (List.mem_cons_of_mem _ hy)
  show (d.stack.foldlM (fun inout n => (d.readRow walk n none none).bind fun p =>
    some (update inout p.1 p.2)) d.inout).bind (fun inout => some { d with inout := inout }) = _
  rw [hfold d.stack d.inout hstack]
  rfl

theorem Links.onStack (h : d.Links m L) (st : List Nat) :
    ({ d with stack := st } : Dance).Links m L :=
  ⟨h.nodup, h.colSelf, h.colNode, h.rowCols, h.rowRing, h.colRing, h.members, h.distinct, h.size⟩

theorem Active.onStack (ha : d.Active m A R L) (st : List Nat) :
    ({ d with stack := st } : Dance).Active m A R L :=
  ⟨ha.header, ha.cols, ha.nodup, ha.rows, ha.closed, ha.lists⟩

/-- The specification of `solve`, for a search among fewer than `fuel` columns. -/
def Solves (m : Matrix) (name : Nat → Nat) (read : Nat → Nat × Nat) (fuel : Nat)
    (rec : Dance → Option (Bool × Dance)) : Prop :=
  ∀ (d : Dance) (A : List Nat) (R : List (List Nat)) (L : Nat → List Nat), d.Links m L →
    d.Active m A R L → d.name = name → (∀ x ∈ d.stack, x ∈ m.nodes) → A.length < fuel →
    (∃ d', rec d = some (true, d') ∧ Found (colsOf d) m A R read d.stack d.inout d') ∨
    (rec d = some (false, d) ∧ ¬ ∃ S, ExactCover (colsOf d) A R S)

/-- A row whose columns were covered and with which the search has come to an end. -/
theorem tryRows_found {rec : Dance → Option (Bool × Dance)} {c x fuel : Nat} {d₂ d' : Dance}
    (hne : x ≠ c)
    (hcover : forNodes (fun d => d.right) x (fun j d => d.cover walk (d.col j)) walk (d.right x)
      { d with stack := d.stack ++ [x] } = some d₂)
    (hrec : rec d₂ = some (true, d')) : tryRows walk rec c (fuel + 1) x d = some (true, d') := by
  rw [tryRows, if_neg hne]
  dsimp only
  rw [hcover]
  show (rec d₂).bind _ = _
  rw [hrec]
  rfl

/-- A row without a solution: its columns are uncovered, and the loop goes on with the next row. -/
theorem tryRows_next {rec : Dance → Option (Bool × Dance)} {c x fuel : Nat} {d₂ : Dance}
    (hne : x ≠ c)
    (hcover : forNodes (fun d => d.right) x (fun j d => d.cover walk (d.col j)) walk (d.right x)
      { d with stack := d.stack ++ [x] } = some { d₂ with stack := d.stack ++ [x] })
    (hrec : rec { d₂ with stack := d.stack ++ [x] } =
      some (false, { d₂ with stack := d.stack ++ [x] }))
    (huncover : forNodes (fun d => d.left) x (fun j d => d.uncover walk (d.col j)) walk (d₂.left x)
      { d₂ with stack := d.stack } = some d) :
    tryRows walk rec c (fuel + 1) x d = tryRows walk rec c fuel (d.down x) d := by
  rw [tryRows, if_neg hne]
  dsimp only
  rw [hcover]
  show (rec { d₂ with stack := d.stack ++ [x] }).bind _ = _
  rw [hrec]
  show (forNodes (fun d => d.left) x (fun j d => d.uncover walk (d.col j)) walk (d₂.left x)
    { d₂ with stack := (d.stack ++ [x]).dropLast }).bind _ = _
  -- the row leaves the stack before its columns are uncovered
  rw [List.dropLast_concat, huncover]
  rfl

/-- The rows that are still to be tried are those of `todo`. -/
theorem tryRows_spec {name : Nat → Nat} {read : Nat → Nat × Nat} {rec : Dance → Option (Bool × Dance)}
    {size c : Nat} (hrec : Solves m name read size rec) (h : d.Links m L) (ha : d.Active m A R L)
    (hname : d.name = name) (hstack : ∀ x ∈ d.stack, x ∈ m.nodes) (hc : c ∈ m.cols)
    (hrest : ∀ x ∈ L c, ∀ j ∈ m.rest x, d.col j ∈ A) (hsize : A.length < size)
    (hwalk : Matrix.bound m < walk) :
    ∀ (fuel : Nat) (done todo : List Nat) (row : Nat), L c = done ++ todo →
      (todo ++ [c]).head? = some row → todo.length < fuel →
      (∃ d' x, x ∈ todo ∧ tryRows walk rec c fuel row d = some (true, d') ∧
        Found (colsOf d) m (without A ((m.rest x).map d.col))
          (clearOf (colsOf d) R ((m.rest x).map d.col)) read (d.stack ++ [x]) d.inout d') ∨
      (tryRows walk rec c fuel row d = some (false, d) ∧
        ∀ x ∈ todo, ¬ ∃ S, ExactCover (colsOf d) (without A ((m.rest x).map d.col))
          (clearOf (colsOf d) R ((m.rest x).map d.col)) S) := by
  intro fuel
  induction fuel with
  | zero =>
    intro done todo row _ _ hfuel
    omega
  | succ fuel ih =>
    intro done todo row hsplit hrow hfuel
    cases todo with
    | nil =>
      obtain rfl : c = row := by simpa using hrow
      right
      rw [tryRows, if_pos rfl]
      exact ⟨rfl, fun x hx => by cases hx⟩
    | cons x todo =>
      obtain rfl : x = row := by simpa using hrow
      have hx : x ∈ L c := by
        rw [hsplit]
        exact List.mem_append_right _ List.mem_cons_self
      have hnode := (h.members c hc x hx).1
      have hne : x ≠ c := by
        rintro rfl
        exact h.col_notMem hc hnode
      obtain ⟨d₂, L₂, hcover, hundo, hsame, hlinks, hactive⟩ :=
        coverRow h ha hnode (hrest x hx) hwalk (d.stack ++ [x])
      have hcols : colsOf { d₂ with stack := d.stack ++ [x] } = colsOf d := by
        funext r
        show r.map d₂.col = r.map d.col
        rw [hsame.col]
      have hstack' : ∀ y ∈ d.stack ++ [x], y ∈ m.nodes := by
        intro y hy
        rcases List.mem_append.mp hy with hy | hy
        · exact hstack y hy
        · rw [List.mem_singleton.mp hy]
          exact hnode
      -- fewer columns are left for the recursive call
      have hless : (without A ((m.rest x).map d.col)).length < size :=
        Nat.lt_of_le_of_lt (List.length_filter_le _ _) hsize
      have hcall := hrec { d₂ with stack := d.stack ++ [x] } _ _ _ (hlinks.onStack _)
        (hactive.onStack _) (hsame.name.trans hname) hstack' hless
      rw [hcols] at hcall
      rcases hcall with ⟨d', hfound, xs, hexact, hinout⟩ | ⟨hnone, hno⟩
      · left
        refine ⟨d', x, List.mem_cons_self, tryRows_found hne hcover hfound, xs, hexact, ?_⟩
        rw [hinout]
        show entered read _ d₂.inout = _
        rw [hsame.inout]
      · -- Back in the state `d`, with the next row of the column.
        have hback := uncoverRow hnode (Nat.lt_of_le_of_lt (rest_length h hnode) hwalk)
          (notMem_rest h hnode) hlinks.rings hundo d.stack
        have hgo : tryRows walk rec c (fuel + 1) x d = tryRows walk rec c fuel (d.down x) d :=
          tryRows_next hne hcover hnone hback
        have hring := h.colRing c hc
        rw [hsplit] at hring
        have hsplit' : L c = (done ++ [x]) ++ todo := by rw [hsplit, List.append_assoc]; rfl
        have hnext := ih (done ++ [x]) todo (d.down x) hsplit' hring.next_of_split
          (by simpa using hfuel)
        rcases hnext with ⟨d', y, hy, hrun, hfound⟩ | ⟨hrun, hnone'⟩
        · left
          exact ⟨d', y, List.mem_cons_of_mem _ hy, hgo.trans hrun, hfound⟩
        · right
          exact ⟨hgo.trans hrun, List.forall_mem_cons.mpr ⟨hno, hnone'⟩⟩

/-! ## The search as a whole -/

/-- The columns of the row of `x` are the column of `x` and those of the rest. -/
theorem mem_colsOf_row {x : Nat} (hx : x ∈ m.nodes) (e : Nat) :
    e ∈ [d.col x] ++ (m.rest x).map d.col ↔ e ∈ colsOf d (m.rowOf x) := by
  obtain ⟨l₁, l₂, hrow, hrest⟩ := Matrix.rest_spec hx
  rw [colsOf, hrow, hrest]
  simp only [List.map_append, List.map_cons, List.mem_append, List.mem_cons, List.singleton_append]
  tauto

theorem Active.length_le (ha : d.Active m A R L) : A.length ≤ Matrix.bound m :=
  (List.Nodup.length_le_of_subset ha.nodup ha.cols).trans (Nat.le_add_right _ _)

/-- The other columns of the rows of a column are there when the column itself is gone. -/
theorem rest_fresh (h : d.Links m L) (ha : d.Active m A R L) {c : Nat} (hc : c ∈ A) :
    ∀ x ∈ L c, ∀ j ∈ m.rest x, d.col j ∈ without A [c] := by
  intro x hx j hj
  have hdropped : j ∈ dropped m (L c) := List.mem_flatMap.mpr ⟨x, hx, hj⟩
  obtain ⟨hjA, -, hjc⟩ := mem_dropped h ha hc (fun _ hx => hx) hdropped
  exact mem_without.mpr ⟨hjA, by simpa using hjc⟩

/-- What is left after the row of a node, column by column and at once. -/
theorem leave_row (h : d.Links m L) {c x : Nat} (hc : c ∈ m.cols) (hx : x ∈ L c) :
    without (without A [c]) ((m.rest x).map d.col) = without A (colsOf d (m.rowOf x)) ∧
      clearOf (colsOf d) (clearOf (colsOf d) R [c]) ((m.rest x).map d.col) =
        clearOf (colsOf d) R (colsOf d (m.rowOf x)) := by
  obtain ⟨hnode, rfl⟩ := h.members c hc x hx
  rw [without_without, clearOf_clearOf]
  exact ⟨without_congr (mem_colsOf_row hnode), clearOf_congr (mem_colsOf_row hnode)⟩

/-- The header list is empty exactly when all columns are covered. -/
theorem Active.left_root_iff (h : d.Links m L) (ha : d.Active m A R L) :
    d.left d.root = d.root ↔ A = [] := by
  have hhead := ha.header.reverse.next_head
  constructor
  · intro heq
    by_contra hA
    rw [List.head?_append_of_ne_nil _ (by simpa using hA), heq] at hhead
    exact (List.nodup_cons.mp (ha.header_nodup h)).1
      (List.mem_reverse.mp (List.mem_of_mem_head? hhead))
  · rintro rfl
    simpa using hhead.symm

/-- A column is covered and uncovered again, the stack being left alone. -/
theorem cover_column (h : d.Links m L) (ha : d.Active m A R L) {c : Nat} (hc : c ∈ A)
    (hwalk : Matrix.bound m < walk) : ∃ d' L', cover walk c d = some d' ∧
      uncover walk c d' = some d ∧ d'.Links m L' ∧
      d'.Active m (without A [c]) (clearOf (colsOf d) R [c]) L' ∧ L' c = L c ∧ Same d d' := by
  obtain ⟨d', L', hcover, huncover, hlinks, hactive, hL, hsame⟩ := cover_spec h ha hc hwalk
  refine ⟨d', L', ?_, ?_, hlinks, hactive, hL, hsame⟩
  · have hrun := hcover d.stack
    rw [← hsame.stack] at hrun
    rw [show d = { d with stack := d'.stack } by rw [hsame.stack]]
    exact hrun
  · have hrun := huncover d'.stack
    rwa [show ({ d with stack := d'.stack } : Dance) = d by rw [hsame.stack]] at hrun

/-- `solve` finds an exact cover, or comes back to its state when there is none. -/
theorem solve_spec {name : Nat → Nat} {read : Nat → Nat × Nat} (hread : Reads m walk name read)
    (hwalk : Matrix.bound m < walk) (fuel : Nat) : Solves m name read fuel (solve walk fuel) := by
  induction fuel with
  | zero =>
    intro d A R L _ _ _ _ hfuel
    omega
  | succ fuel ih =>
    intro d A R L h ha hname hstack hfuel
    subst hname
    rw [solve]
    -- without a column left the stack holds a cover
    by_cases hA : A = []
    · subst hA
      rw [if_pos ((ha.left_root_iff h).mpr rfl), enter_spec hread h.rings hstack]
      left
      refine ⟨_, rfl, [], exactCover_nil, ?_⟩
      rw [List.append_nil]
    · obtain ⟨c, hmin, hc⟩ := getMinColumn_spec h ha hA (Nat.lt_of_le_of_lt ha.length_le hwalk)
      obtain ⟨d₁, L₁, hcover, huncover, hlinks, hactive, hL, hsame⟩ := cover_column h ha hc hwalk
      have hcm := ha.cols c hc
      have hcols : colsOf d₁ = colsOf d := by
        funext r
        rw [colsOf, colsOf, hsame.col]
      have hrow : ∀ x ∈ L c, m.rowOf x ∈ R ∧ c ∈ colsOf d (m.rowOf x) := by
        intro x hx
        obtain ⟨hr, hxr, rfl⟩ := ha.row_of_mem h hc hx
        exact ⟨hr, List.mem_map_of_mem hxr⟩
      have hrest : ∀ x ∈ L₁ c, ∀ j ∈ m.rest x, d₁.col j ∈ without A [c] := by
        rw [hL, hsame.col]
        exact rest_fresh h ha hc
      have hless : (without A [c]).length < fuel := by
        have hlt := without_length_lt hc (List.mem_singleton.mpr rfl)
        omega
      have hlen : (L₁ c).length < walk := by
        apply Nat.lt_of_le_of_lt _ hwalk
        exact length_le_bound (hlinks.distinct c hcm) fun x hx => (hlinks.members c hcm x hx).1
      have hstack₁ : ∀ x ∈ d₁.stack, x ∈ m.nodes := by
        rw [hsame.stack]
        exact hstack
      -- the rows of the column in turn, each with a call of its own
      have htry := tryRows_spec ih hlinks hactive hsame.name hstack₁ hcm hrest hless hwalk walk []
        (L₁ c) (d₁.down c) rfl (hlinks.colRing c hcm).next_head hlen
      rw [hcols, hL, hsame.col, hsame.stack, hsame.inout] at htry
      rw [if_neg fun hleft => hA ((ha.left_root_iff h).mp hleft), hmin]
      have hgo : ∀ r, tryRows walk (solve walk fuel) c walk (d₁.down c) d₁ = some r →
          ((some c).bind fun col => (cover walk col d).bind fun d' =>
            (tryRows walk (solve walk fuel) col walk (d'.down col) d').bind fun p =>
              if p.1 = true then some (true, p.2)
              else (uncover walk col p.2).bind fun d'' => some (false, d'')) =
          if r.1 = true then some (true, r.2)
          else (uncover walk c r.2).bind fun d'' => some (false, d'') := by
        intro r hr
        rw [Option.bind_some, hcover, Option.bind_some, hr, Option.bind_some]
      rcases htry with ⟨d', x, hx, hrun, xs, hexact, hboard⟩ | ⟨hrun, hnone⟩
      · left
        obtain ⟨hwithout, hclear⟩ := leave_row (A := A) (R := R) h hcm hx
        rw [hwithout, hclear] at hexact
        refine ⟨d', hgo _ hrun, x :: xs, hexact.cons (hrow x hx).1, ?_⟩
        rw [hboard, List.append_assoc, List.singleton_append]
      · right
        constructor
        · apply (hgo _ hrun).trans
          rw [if_neg Bool.false_ne_true, huncover]
          rfl
        · -- a cover would have one of these rows in it
          rw [exists_exactCover_iff hc]
          · rintro ⟨r, hr, hcr, hS⟩
            obtain ⟨x, hxr, rfl⟩ := List.mem_map.mp hcr
            have hx := (ha.mem_list hr hxr).2
            have hrx := Matrix.rowOf_eq h.nodes_nodup (ha.rows.subset hr) hxr
            apply hnone x hx
            obtain ⟨hwithout, hclear⟩ := leave_row (A := A) (R := R) h hcm hx
            rw [hwithout, hclear, hrx]
            exact hS
          · intro r hr e he
            obtain ⟨x, hxr, rfl⟩ := List.mem_map.mp he
            exact ha.closed r hr x hxr

end Search

end Dance

end CloudLabs.Sudoku
