import CloudLabs.Sudoku.Build
import Mathlib.Data.List.GetD

/-!
# The solver is sound and complete

The constructor builds the matrix of the board, the search finds an exact cover of it or none, and
the rows that were found are read back as cells and values. So `solver` ends on every board, with a
completion of it if there is one, and else with the board itself. Enough fuel is `kMaxNodes`, which
bounds the length of every list of nodes and the depth of the recursion.
-/

set_option autoImplicit false

namespace CloudLabs.Sudoku

open CloudLabs.Foundation

namespace Dance

/-- The choice of a row, from the names of its nodes. -/
def choiceOf (names : List Nat) : Nat × Nat := (names.getD 0 0, names.getD 1 0 % 10)

theorem choiceOf_choiceNames {g : Nat → Nat} {choice : Nat × Nat} (hchoice : choice ∈ choices g) :
    choiceOf (choiceNames choice) = choice := by
  obtain ⟨-, -, -, hv, -⟩ := mem_choices.mp hchoice
  exact Prod.ext rfl (Kind.name_mod .row _ hv)

section Solver

variable {d : Dance} {m : Matrix} {g : Nat → Nat} {walk : Nat}

/-- The choice of the row of a node. -/
def choiceAt (d : Dance) (m : Matrix) (x : Nat) : Nat × Nat := choiceOf ((m.rowOf x).map d.name)

/-! ## Reading a row -/

/-- From each node of a row, the loop finds the cell and the value of its choice. -/
theorem Stands.reads (h : d.Stands m g) (hwalk : 5 ≤ walk) :
    Reads m walk d.name (d.choiceAt m) := by
  intro d' hrings hname x hx
  obtain ⟨hr, hxr⟩ := Matrix.rowOf_spec hx
  obtain ⟨⟨i, v⟩, hc, hnames⟩ := choice_of_names h.rowNames hr
  obtain ⟨hi, -, -, hv, -⟩ := mem_choices.mp hc
  rw [choiceAt, hnames, choiceOf_choiceNames hc]
  generalize hrow : m.rowOf x = r at hr hxr hnames
  obtain ⟨a, r₁, rfl, ha, hnames⟩ := List.map_eq_cons_iff.mp hnames
  obtain ⟨b, r₂, rfl, hb, hnames⟩ := List.map_eq_cons_iff.mp hnames
  obtain ⟨c, r₃, rfl, hc', hnames⟩ := List.map_eq_cons_iff.mp hnames
  obtain ⟨e, r₄, rfl, he, hnames⟩ := List.map_eq_cons_iff.mp hnames
  obtain rfl := List.map_eq_nil_iff.mp hnames
  -- The links of the row, seen from its first node.
  have hnode : a ∈ m.nodes := List.mem_flatten.mpr ⟨_, hr, List.mem_cons_self⟩
  have hrowA : m.rowOf a = [a, b, c, e] :=
    Matrix.rowOf_eq h.links.nodes_nodup hr List.mem_cons_self
  have hrest : m.rest a = [b, c, e] := by simp [Matrix.rest, hrowA]
  have hring := hrings a hnode
  rw [hrest] at hring
  have hchain : List.IsChain (Linked d'.right d'.left) [a, b, c, e, a] := hring
  simp only [List.isChain_cons_cons, Linked, List.isChain_singleton, and_true] at hchain
  obtain ⟨⟨hab, -⟩, ⟨hbc, -⟩, ⟨hce, -⟩, hea, -⟩ := hchain
  have hi : i < 81 := hi
  have hv : v ≤ 9 := hv
  have hva : d'.name a = i := by rw [hname, ha]
  have hvb : d'.name b = getRowCol (i / 9) v := by rw [hname, hb]
  have hvc : d'.name c = getColCol (i % 9) v := by rw [hname, hc']
  have hve : d'.name e = getBoxCol (boxOf i) v := by rw [hname, he]
  have hcell : i < 100 := by omega
  have hrowName : ¬ getRowCol (i / 9) v < 100 := Nat.not_lt.mpr (Kind.name_ge .row _ _)
  have hcolName : ¬ getColCol (i % 9) v < 100 := Nat.not_lt.mpr (Kind.name_ge .col _ _)
  have hboxName : ¬ getBoxCol (boxOf i) v < 100 := Nat.not_lt.mpr (Kind.name_ge .box _ _)
  have hrowVal : getRowCol (i / 9) v % 10 = v := Kind.name_mod .row _ hv
  have hcolVal : getColCol (i % 9) v % 10 = v := Kind.name_mod .col _ hv
  have hboxVal : getBoxCol (boxOf i) v % 10 = v := Kind.name_mod .box _ hv
  obtain ⟨w, rfl⟩ : ∃ w, walk = w + 5 := ⟨walk - 5, by omega⟩
  simp only [List.mem_cons, List.not_mem_nil, or_false] at hxr
  rcases hxr with rfl | rfl | rfl | rfl
  · -- from the cell the next name gives the value; from a value the loop comes around to the cell
    simp [readRow, hva, hvb, hab, hcell, hrowName, hrowVal]
  · simp [readRow, hva, hvb, hvc, hve, hbc, hce, hea, hcell, hrowName, hcolName, hboxName, hboxVal]
  · simp [readRow, hva, hvc, hve, hce, hea, hcell, hcolName, hboxName, hboxVal]
  · simp [readRow, hva, hve, hea, hcell, hboxName, hboxVal]

/-! ## Covers of the matrix and of the board -/

/-- The choice of a row of nodes. -/
def choiceOfRow (d : Dance) (r : List Nat) : Nat × Nat := choiceOf (r.map d.name)

theorem Stands.rowChoices (h : d.Stands m g) : m.rows.map d.choiceOfRow = choices g := by
  have hrows : m.rows.map d.choiceOfRow = (m.rows.map (List.map d.name)).map choiceOf := by
    rw [List.map_map]
    rfl
  have hchoices : ((choices g).map choiceNames).map choiceOf = (choices g).map id := by
    rw [List.map_map]
    exact List.map_congr_left fun choice hc => choiceOf_choiceNames hc
  rw [hrows, h.rowNames, hchoices, List.map_id]

theorem Stands.choiceNames_row (h : d.Stands m g) {r : List Nat} (hr : r ∈ m.rows) :
    choiceNames (d.choiceOfRow r) = (colsOf d r).map d.name := by
  obtain ⟨choice, hc, hnames⟩ := choice_of_names h.rowNames hr
  have hcols : (colsOf d r).map d.name = r.map d.name := by
    rw [colsOf, List.map_map]
    apply List.map_congr_left
    intro x hx
    exact (h.nodeName x (List.mem_flatten.mpr ⟨r, hr, hx⟩)).symm
  rw [choiceOfRow, hcols, hnames, choiceOf_choiceNames hc]

theorem Stands.colsOf_subset (h : d.Stands m g) : ∀ r ∈ m.rows, ∀ c ∈ colsOf d r, c ∈ m.cols := by
  intro r hr c hc
  obtain ⟨x, hx, rfl⟩ := List.mem_map.mp hc
  exact h.active.closed r hr x hx

theorem Stands.name_inj (h : d.Stands m g) :
    ∀ c ∈ m.cols, ∀ e ∈ m.cols, d.name c = d.name e → c = e := by
  have hnodup : (m.cols.map d.name).Nodup := by
    rw [h.colNames]
    exact columnNames_nodup g
  exact fun c hc e he heq => List.inj_on_of_nodup_map hnodup hc he heq

/-- A cover of the matrix is one of the board, under the names of its columns and rows. -/
theorem Stands.cover (h : d.Stands m g) {S : List (List Nat)}
    (hS : ExactCover (colsOf d) m.cols m.rows S) :
    ExactCover choiceNames (columnNames g) (choices g) (S.map d.choiceOfRow) := by
  have hmap := hS.map choiceNames d.choiceOfRow h.colsOf_subset h.name_inj
    fun r hr => h.choiceNames_row hr
  rwa [h.colNames, h.rowChoices] at hmap

/-- And every cover of the board comes from one of the matrix. -/
theorem Stands.uncover (h : d.Stands m g) {S : List (Nat × Nat)}
    (hS : ExactCover choiceNames (columnNames g) (choices g) S) :
    ∃ S', ExactCover (colsOf d) m.cols m.rows S' := by
  have hnodup : (m.rows.map d.choiceOfRow).Nodup := by
    rw [h.rowChoices]
    exact choices_nodup g
  rw [← h.colNames, ← h.rowChoices] at hS
  exact ⟨_, hS.of_map (fun r hr r' hr' heq => List.inj_on_of_nodup_map hnodup hr hr' heq)
    h.name_inj h.colsOf_subset fun r hr => h.choiceNames_row hr⟩

/-! ## The answer -/

theorem entered_eq_chosen (d : Dance) (m : Matrix) (xs : List Nat) (inout : Nat → Nat) :
    entered (d.choiceAt m) xs inout = chosen ((xs.map m.rowOf).map d.choiceOfRow) inout := by
  rw [chosen, List.map_map, List.foldl_map]
  rfl

/-- The search on the board of the buffer: it finds a completion if there is one. -/
theorem solve_board {problem : Bytes} {fuel : Nat} (hg : input problem = some g)
    (hdigit : ∀ i < 81, g i ≤ 9) (hfuel : kMaxNodes ≤ fuel) :
    ∃ found d', (do
        let d ← Dance.new problem
        d.solve fuel fuel) = some (found, d') ∧
      ((∃ f, Completes g f) → Completes g d'.inout) ∧
      ((¬ ∃ f, Completes g f) → found = false ∧ d'.inout = g) := by
  obtain ⟨d, m, hnew, h, hinout, hstack⟩ := new_spec hg
  have hmax : kMaxNodes = 3241 := rfl
  have hbound := h.bound
  have hcols : m.cols.length < fuel := by
    have hle : m.cols.length ≤ Matrix.bound m := Nat.le_add_right _ _
    omega
  have hreads : Reads m fuel d.name (d.choiceAt m) := h.reads (by omega)
  have hsolve := solve_spec hreads (by omega) fuel d m.cols m.rows _
    h.links h.active rfl (by
      intro x hx
      rw [hstack] at hx
      cases hx) hcols
  rw [hnew, Option.bind_eq_bind, Option.bind_some]
  rcases hsolve with ⟨d', hrun, xs, hcover, hentered⟩ | ⟨hrun, hnone⟩
  · have hfull : Completes g d'.inout := by
      rw [hentered, hstack, List.nil_append, entered_eq_chosen, hinout]
      exact completes_of_cover hdigit (h.cover hcover)
    exact ⟨true, d', hrun, fun _ => hfull, fun hno => absurd ⟨_, hfull⟩ hno⟩
  · refine ⟨false, d, hrun, ?_, fun _ => ⟨rfl, hinout⟩⟩
    rintro ⟨f, hf⟩
    exact absurd (h.uncover (cover_of_completes hf)) hnone

end Solver

end Dance

/-! ## The buffer -/

/-- The board in a buffer. -/
def boardOf (problem : Bytes) (cell : Nat) : Nat := (problem.getD cell 0).toNat - 48

/-- A string of 81 digits. -/
structure Digits (problem : Bytes) : Prop where
  length : problem.length = 81
  digit : ∀ b ∈ problem, 48 ≤ b.toNat ∧ b.toNat ≤ 57

section Buffer

variable {problem : Bytes}

theorem Digits.cell (h : Digits problem) {i : Nat} (hi : i < 81) :
    48 ≤ (problem.getD i 0).toNat ∧ (problem.getD i 0).toNat ≤ 57 := by
  rw [List.getD_eq_getElem problem 0 (by rw [h.length]; exact hi)]
  exact h.digit _ (List.getElem_mem _)

theorem Digits.input (h : Digits problem) : Dance.input problem = some (boardOf problem) := by
  unfold Dance.input
  rw [if_pos fun i hi => h.cell hi]
  rfl

theorem Digits.boardOf_le (h : Digits problem) : ∀ i < 81, boardOf problem i ≤ 9 := by
  intro i hi
  have hcell := h.cell hi
  rw [boardOf]
  omega

/-- The digits of a board, as `get_answer` writes them. -/
def digitsOf (inout : Nat → Nat) : Bytes := (List.range 81).map fun i => UInt8.ofNat (inout i + 48)

theorem digitsOf_digits {inout : Nat → Nat} (h : ∀ i < 81, inout i ≤ 9) : Digits (digitsOf inout) where
  length := by rw [digitsOf, List.length_map, List.length_range]
  digit := by
    intro b hb
    obtain ⟨i, hi, rfl⟩ := List.mem_map.mp hb
    have hle := h i (List.mem_range.mp hi)
    rw [UInt8.toNat_ofNat_of_lt' (show inout i + 48 < 256 by omega)]
    omega

theorem boardOf_digitsOf {inout : Nat → Nat} (h : ∀ i < 81, inout i ≤ 9) {i : Nat} (hi : i < 81) :
    boardOf (digitsOf inout) i = inout i := by
  have hle := h i hi
  have hget : (digitsOf inout).getD i 0 = UInt8.ofNat (inout i + 48) := by
    rw [List.getD_eq_getElem _ 0 (by rw [(digitsOf_digits h).length]; exact hi)]
    simp [digitsOf]
  rw [boardOf, hget, UInt8.toNat_ofNat_of_lt' (show inout i + 48 < 256 by omega)]
  omega

theorem digitsOf_boardOf (h : Digits problem) : digitsOf (boardOf problem) = problem := by
  apply List.ext_getElem
  · rw [digitsOf, List.length_map, List.length_range, h.length]
  · intro i hi hi'
    have hcell := h.digit _ (List.getElem_mem hi')
    have hbyte : boardOf problem i + 48 = problem[i].toNat := by
      rw [boardOf, List.getD_eq_getElem problem 0 hi']
      omega
    simp only [digitsOf, List.getElem_map, List.getElem_range]
    rw [hbyte, UInt8.ofNat_toNat]

/-- Completions do not depend on what is outside of the board. -/
theorem Completes.congr {g full full' : Nat → Nat} (h : Completes g full)
    (heq : ∀ i < 81, full' i = full i) : Completes g full' where
  digit := by
    intro i hi
    rw [heq i hi]
    exact h.digit i hi
  keeps := by
    intro i hi hgi
    rw [heq i hi]
    exact h.keeps i hi hgi
  once := by
    intro kind u hu v hv₁ hv₉
    obtain ⟨i, ⟨hi, hof, hv⟩, hone⟩ := h.once kind u hu v hv₁ hv₉
    refine ⟨i, ⟨hi, hof, (heq i hi).trans hv⟩, ?_⟩
    rintro j ⟨hj, hof', hv'⟩
    exact hone j ⟨hj, hof', (heq j hj).symm.trans hv'⟩

/-- `solver` ends with a completion of the board, or with the board if it has none. -/
theorem solver_complete (fuel : Nat) (hfuel : kMaxNodes ≤ fuel) (problem : Bytes)
    (hproblem : Digits problem) :
    ∃ answer, solver fuel problem = some answer ∧ Digits answer ∧
      ((∃ full, Completes (boardOf problem) full) → Completes (boardOf problem) (boardOf answer)) ∧
      ((¬ ∃ full, Completes (boardOf problem) full) → answer = problem) := by
  obtain ⟨found, d, hrun, hyes, hno⟩ :=
    Dance.solve_board hproblem.input hproblem.boardOf_le hfuel
  have hsolver : solver fuel problem = some (digitsOf d.inout) := by
    obtain ⟨d₀, hnew, hsolve⟩ := Option.bind_eq_some_iff.mp hrun
    simp only [solver, hnew, hsolve, Option.bind_eq_bind, Option.bind_some, Dance.getAnswer]
    rw [List.drop_of_length_le (Nat.le_of_eq hproblem.length), List.append_nil]
    rfl
  have hle : ∀ i < 81, d.inout i ≤ 9 := by
    intro i hi
    by_cases hex : ∃ full, Completes (boardOf problem) full
    · exact ((hyes hex).digit i hi).2
    · rw [(hno hex).2]
      exact hproblem.boardOf_le i hi
  refine ⟨_, hsolver, digitsOf_digits hle, ?_, ?_⟩
  · intro hex
    exact (hyes hex).congr fun i hi => boardOf_digitsOf hle hi
  · intro hex
    rw [(hno hex).2]
    exact digitsOf_boardOf hproblem

/-- The empty board. -/
theorem solver_complete_blank : ∃ answer, solver kMaxNodes (List.replicate 81 48) = some answer ∧
    Digits answer ∧
    ((∃ full, Completes (boardOf (List.replicate 81 48)) full) →
      Completes (boardOf (List.replicate 81 48)) (boardOf answer)) ∧
    ((¬ ∃ full, Completes (boardOf (List.replicate 81 48)) full) → answer = List.replicate 81 48) := by
  apply solver_complete kMaxNodes (Nat.le_refl _)
  constructor
  · exact List.length_replicate ..
  · intro b hb
    rw [List.eq_of_mem_replicate hb]
    decide

/-- What `solver` writes: the digits of a completion, or of the board when there is none. -/
theorem solver_board {fuel : Nat} (hfuel : kMaxNodes ≤ fuel) (hproblem : Digits problem) :
    ∃ inout, solver fuel problem = some (digitsOf inout) ∧
      ((∃ full, Completes (boardOf problem) full) → Completes (boardOf problem) inout) ∧
      ((¬ ∃ full, Completes (boardOf problem) full) → inout = boardOf problem) := by
  obtain ⟨found, d, hrun, hyes, hno⟩ :=
    Dance.solve_board hproblem.input hproblem.boardOf_le hfuel
  obtain ⟨d₀, hnew, hsolve⟩ := Option.bind_eq_some_iff.mp hrun
  refine ⟨d.inout, ?_, hyes, fun hex => (hno hex).2⟩
  simp only [solver, hnew, hsolve, Option.bind_eq_bind, Option.bind_some, Dance.getAnswer]
  rw [List.drop_of_length_le (Nat.le_of_eq hproblem.length), List.append_nil]
  rfl

end Buffer

end CloudLabs.Sudoku
