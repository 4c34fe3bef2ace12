import CloudLabs.Sudoku.Solver

/-!
# The matrix that the constructor builds

`Torus` is the representation invariant on which the search rests, stated over the board and not
over the loops of the constructor. The headers are the requirements that the givens leave open, the
rows the values that may still be put into a cell; the links lead back and forth between the nodes,
and the size of a column counts its nodes.

`Headed` says nothing about the links of the root up and down, which no insertion touches. `Apart`
is the reason: no other node points up to the root, and the root is not one of the columns.
-/

set_option autoImplicit false

namespace CloudLabs.Sudoku

open CloudLabs.Foundation

namespace Dance

open Function (update)

/-! ## The root stands apart -/

/-- The root is in no column. -/
structure Apart (d : Dance) : Prop where
  root : d.root < d.curNode
  column : ∀ n c, d.columns n = some c → c < d.curNode ∧ c ≠ d.root
  down : d.down d.root = d.root
  up : d.up d.root = d.root
  other : ∀ x < d.curNode, x ≠ d.root → d.up x ≠ d.root

section Apart

variable {d d' : Dance} {n r : Nat}

theorem Apart.newNode (h : d.Apart) : d.newNode.Apart := by
  have hne : d.root ≠ d.curNode := Nat.ne_of_lt h.root
  constructor
  · exact Nat.lt_succ_of_lt h.root
  · intro n c hc
    obtain ⟨hlt, hroot⟩ := h.column n c hc
    exact ⟨Nat.lt_succ_of_lt hlt, hroot⟩
  · show update d.down d.curNode d.curNode d.root = d.root
    rw [Function.update_of_ne hne, h.down]
  · show update d.up d.curNode d.curNode d.root = d.root
    rw [Function.update_of_ne hne, h.up]
  · intro x hx hroot
    show update d.up d.curNode d.curNode x ≠ d.root
    rcases Nat.lt_succ_iff_lt_or_eq.mp hx with hx | rfl
    · rw [Function.update_of_ne (Nat.ne_of_lt hx)]
      exact h.other x hx hroot
    · rw [Function.update_self]
      -- the new node points up to itself
      exact hne.symm

/-- A node that joins a column goes between two nodes other than the root. -/
theorem Apart.putUp (h : d.Apart) {c x : Nat} (hc : c < d.curNode) (hroot : c ≠ d.root) (hcx : c ≠ x)
    (hx : x ≠ d.root) : (putUp c x d).Apart := by
  have hlast : d.up c ≠ d.root := h.other c hc hroot
  constructor
  · exact h.root
  · exact h.column
  · show (Dance.putUp c x d).down d.root = d.root
    rw [putUp_down hcx, Function.update_of_ne hlast.symm, Function.update_of_ne hx.symm, h.down]
  · show (Dance.putUp c x d).up d.root = d.root
    rw [putUp_up, Function.update_of_ne hroot.symm, Function.update_of_ne hx.symm, h.up]
  · intro y hy hyroot
    show (Dance.putUp c x d).up y ≠ d.root
    rw [putUp_up]
    by_cases hyc : y = c
    · rw [hyc, Function.update_self]
      exact hx
    · rw [Function.update_of_ne hyc]
      by_cases hyx : y = x
      · rw [hyx, Function.update_self]
        -- the new node points up to what was the last of its column
        exact hlast
      · rw [Function.update_of_ne hyx]
        exact h.other y hy hyroot

theorem Apart.appendColumn (h : d.Apart) (hrun : d.appendColumn n = some d') : d'.Apart := by
  unfold Dance.appendColumn newColumn at hrun
  by_cases hn : d.columns n = none
  · by_cases hroom : d.curNode < kMaxNodes
    · rw [if_pos hn, if_pos hroom] at hrun
      obtain rfl := Option.some.inj hrun
      have hnew := h.newNode
      refine ⟨hnew.root, ?_, hnew.down, hnew.up, hnew.other⟩
      intro k c hc
      by_cases hk : k = n
      · have hc : update d.columns n (some d.curNode) k = some c := hc
        rw [hk, Function.update_self] at hc
        obtain rfl := Option.some.inj hc
        exact ⟨Nat.lt_succ_self _, (Nat.ne_of_lt h.root).symm⟩
      · have hc : update d.columns n (some d.curNode) k = some c := hc
        rw [Function.update_of_ne hk] at hc
        exact hnew.column k c hc
    · rw [if_pos hn, if_neg hroom] at hrun
      cases hrun
  · rw [if_neg hn] at hrun
    cases hrun

theorem Apart.newRow (h : d.Apart) (hrun : d.newRow n = some (r, d')) : d'.Apart := by
  unfold Dance.newRow at hrun
  cases hc : d.columns n with
  | none =>
    rw [hc] at hrun
    cases hrun
  | some c =>
    rw [hc] at hrun
    dsimp only at hrun
    by_cases hroom : d.curNode < kMaxNodes
    · rw [if_pos hroom] at hrun
      obtain ⟨-, rfl⟩ := Prod.mk.inj (Option.some.inj hrun)
      obtain ⟨hlt, hroot⟩ := h.column n c hc
      obtain ⟨hr, hcolumn, hdown, hup, hother⟩ := h.newNode
      have hnew : ({ d.newNode with
          name := update d.newNode.name d.curNode n
          col := update d.newNode.col d.curNode c } : Dance).Apart :=
        ⟨hr, hcolumn, hdown, hup, hother⟩
      have hcol : update d.newNode.col d.curNode c d.curNode = c := Function.update_self ..
      show (Dance.putUp (update d.newNode.col d.curNode c d.curNode) d.curNode _).Apart
      rw [hcol]
      exact hnew.putUp (Nat.lt_succ_of_lt hlt) hroot (Nat.ne_of_lt hlt) (Nat.ne_of_lt h.root).symm
    · rw [if_neg hroom] at hrun
      cases hrun

theorem Apart.addRow (h : d.Apart) {choice : Nat × Nat} (hrun : d.addRow choice = some d') :
    d'.Apart := by
  obtain ⟨i, v⟩ := choice
  unfold Dance.addRow at hrun
  obtain ⟨⟨n₀, d₀⟩, h₀, hrun⟩ := Option.bind_eq_some_iff.mp hrun
  obtain ⟨⟨nr, d₁⟩, h₁, hrun⟩ := Option.bind_eq_some_iff.mp hrun
  obtain ⟨⟨nc, d₂⟩, h₂, hrun⟩ := Option.bind_eq_some_iff.mp hrun
  obtain ⟨⟨nb, d₃⟩, h₃, hrun⟩ := Option.bind_eq_some_iff.mp hrun
  obtain rfl := Option.some.inj hrun
  obtain ⟨hr, hcolumn, hdown, hup, hother⟩ := (((h.newRow h₀).newRow h₁).newRow h₂).newRow h₃
  exact ⟨hr, hcolumn, hdown, hup, hother⟩

/-- What each step of a loop keeps, the loop keeps. -/
theorem foldlM_keeps {ι : Type} {P : Dance → Prop} {step : Dance → ι → Option Dance}
    (hstep : ∀ d a d', P d → step d a = some d' → P d') (l : List ι) :
    ∀ {d d'}, P d → l.foldlM step d = some d' → P d' := by
  induction l with
  | nil =>
    intro d d' h hrun
    obtain rfl := Option.some.inj hrun
    exact h
  | cons a l ih =>
    intro d d' h hrun
    rw [List.foldlM_cons] at hrun
    obtain ⟨d₁, ha, hl⟩ := Option.bind_eq_some_iff.mp hrun
    exact ih (hstep d a d₁ h ha) hl

/-- The constructor never links a node to the root from below or above. -/
theorem new_apart {problem : Bytes} (hrun : Dance.new problem = some d) : d.Apart := by
  unfold Dance.new at hrun
  obtain ⟨g, -, hrun⟩ := Option.bind_eq_some_iff.mp hrun
  obtain ⟨⟨root, d₀⟩, h₀, hrun⟩ := Option.bind_eq_some_iff.mp hrun
  obtain ⟨d₁, h₁, hrun⟩ := Option.bind_eq_some_iff.mp hrun
  -- in the beginning there is no node but the root
  have hbegin : ({ d₀ with root := root } : Dance).Apart := by
    unfold newColumn at h₀
    rw [if_pos (show (blank g).curNode < kMaxNodes from Nat.succ_pos _)] at h₀
    obtain ⟨rfl, rfl⟩ := Prod.mk.inj (Option.some.inj h₀)
    refine ⟨Nat.one_pos, ?_, rfl, rfl, ?_⟩
    · intro n c hc
      cases hc
    · intro x hx hne
      exact absurd (Nat.lt_one_iff.mp hx) hne
  have hcolumns := foldlM_keeps (fun _ _ _ h hrun => h.appendColumn hrun) (columnNames g)
    hbegin h₁
  exact foldlM_keeps (fun _ _ _ h hrun => h.addRow hrun) (choices g) hcolumns hrun

end Apart

end Dance

/-! ## What the matrix stands for -/

/-- What a column asks for: a value in a cell, or a value somewhere in a unit. -/
inductive Requirement where
  | cell (i : Nat)
  | digit (kind : Kind) (u v : Nat)

namespace Requirement

/-- The index in `columns_`. -/
def code : Requirement → Nat
  | cell i => i
  | digit kind u v => kind.name u v

/-- The givens do not meet the requirement. -/
def Open (g : Nat → Nat) : Requirement → Prop
  | cell i => i < 81 ∧ g i = 0
  | digit kind u v => u < 9 ∧ 1 ≤ v ∧ v ≤ 9 ∧ ∀ i < 81, kind.of i = u → g i ≠ v

variable {g : Nat → Nat} {q q' : Requirement} {n : Nat}

/-- The codes of the units do not collide with the cells, nor with each other. -/
theorem code_inj (hq : q.Open g) (hq' : q'.Open g) (h : q.code = q'.code) : q = q' := by
  cases q with
  | cell i =>
    cases q' with
    | cell j => exact congrArg cell h
    | digit kind u v =>
      -- cells are numbered below 81, the other requirements from 100 on
      have hge := Kind.name_ge kind u v
      have hlt := hq.1
      have h : i = kind.name u v := h
      omega
  | digit kind u v =>
    cases q' with
    | cell j =>
      have hge := Kind.name_ge kind u v
      have hlt := hq'.1
      have h : kind.name u v = j := h
      omega
    | digit kind' u' v' =>
      obtain ⟨hu, -, hv, -⟩ := hq
      obtain ⟨hu', -, hv', -⟩ := hq'
      obtain ⟨rfl, rfl, rfl⟩ := Kind.name_inj hu hu' hv hv' h
      rfl

/-- Codes are indices of `columns_`. -/
theorem code_lt (hq : q.Open g) : q.code < 400 := by
  cases q with
  | cell i => exact Nat.lt_trans hq.1 (by decide)
  | digit kind u v =>
    obtain ⟨hu, -, hv, -⟩ := hq
    cases kind with
    | row => show 100 + u * 10 + v < 400; omega
    | col => show 200 + u * 10 + v < 400; omega
    | box => show 300 + u * 10 + v < 400; omega

/-- The columns that are appended are those of the open requirements. -/
theorem mem_columnNames_iff : n ∈ Dance.columnNames g ↔ ∃ q : Requirement, q.Open g ∧ q.code = n := by
  rw [mem_columnNames]
  constructor
  · rintro (⟨hn, hg⟩ | ⟨kind, u, hu, v, hv₁, hv₉, hhas, rfl⟩)
    · exact ⟨cell n, ⟨hn, hg⟩, rfl⟩
    · exact ⟨digit kind u v, ⟨hu, hv₁, hv₉, Kind.has_eq_false.mp hhas⟩, rfl⟩
  · rintro ⟨q, hq, rfl⟩
    cases q with
    | cell i => exact .inl hq
    | digit kind u v =>
      obtain ⟨hu, hv₁, hv₉, hhas⟩ := hq
      exact .inr ⟨kind, u, hu, v, hv₁, hv₉, Kind.has_eq_false.mpr hhas, rfl⟩

end Requirement

/-- The value may be put into the cell, which is empty. -/
structure Allowed (g : Nat → Nat) (choice : Nat × Nat) : Prop where
  cell : choice.1 < 81 ∧ g choice.1 = 0
  value : 1 ≤ choice.2 ∧ choice.2 ≤ 9
  free : ∀ kind : Kind, ∀ j < 81, kind.of j = kind.of choice.1 → g j ≠ choice.2

theorem allowed_iff {g : Nat → Nat} {choice : Nat × Nat} :
    Allowed g choice ↔ choice ∈ Dance.choices g := by
  rw [mem_choices]
  constructor
  · rintro ⟨⟨hi, hg⟩, ⟨hv₁, hv₉⟩, hfree⟩
    exact ⟨hi, hg, hv₁, hv₉, fun kind => Kind.has_eq_false.mpr (hfree kind)⟩
  · rintro ⟨hi, hg, hv₁, hv₉, hhas⟩
    exact ⟨⟨hi, hg⟩, ⟨hv₁, hv₉⟩, fun kind => Kind.has_eq_false.mp (hhas kind)⟩

namespace Dance

/-- The row of a choice: a node for the cell and three for the value, each in its column. -/
structure Row (d : Dance) (row : List Nat) (choice : Nat × Nat) : Prop where
  nodes : ∃ n₀ nr nc nb, row = [n₀, nr, nc, nb] ∧ Ring d.right d.left n₀ [nr, nc, nb] ∧
    d.name n₀ = choice.1 ∧
    d.name nr = Kind.row.name (Kind.row.of choice.1) choice.2 ∧
    d.name nc = Kind.col.name (Kind.col.of choice.1) choice.2 ∧
    d.name nb = Kind.box.name (Kind.box.of choice.1) choice.2
  value : ∀ x ∈ row.tail, d.name x % 10 = choice.2
  column : ∀ x ∈ row, d.columns (d.name x) = some (d.col x)

/-- The nodes in use are the root, the headers `cols` and the nodes of `rows`. -/
structure Torus (d : Dance) (g : Nat → Nat) (cols : List Nat) (rows : List (List Nat)) : Prop where
  room : d.curNode ≤ kMaxNodes
  nodup : (d.root :: (cols ++ rows.flatten)).Nodup
  nodes : ∀ x, x < d.curNode ↔ x ∈ d.root :: (cols ++ rows.flatten)
  header : Ring d.right d.left d.root cols
  columns : ∀ n c, d.columns n = some c ↔ c ∈ cols ∧ d.name c = n
  column : ∀ q : Requirement, q.Open g → ∃! c, c ∈ cols ∧ d.name c = q.code
  requirement : ∀ c ∈ cols, ∃! q : Requirement, q.Open g ∧ d.name c = q.code
  row : ∀ choice, Allowed g choice → ∃! row, row ∈ rows ∧ d.Row row choice
  choice : ∀ row ∈ rows, ∃! choice, Allowed g choice ∧ d.Row row choice
  sides : ∀ x < d.curNode, d.right (d.left x) = x ∧ d.left (d.right x) = x
  ends : ∀ x < d.curNode, d.down (d.up x) = x ∧ d.up (d.down x) = x
  size : ∀ c ∈ cols, ∃ l : List Nat, Ring d.down d.up c l ∧ l.Nodup ∧ d.size c = l.length ∧
    ∀ x, x ∈ l ↔ x ∈ rows.flatten ∧ d.col x = c

section Built

variable {d : Dance} {g : Nat → Nat} {cols nodes : List Nat} {rows : List (List Nat)}

/-- Every node in use is the root, a header or a node of a row. -/
theorem Headed.lt_iff (h : d.Headed cols nodes) (x : Nat) :
    x < d.curNode ↔ x ∈ d.root :: (cols ++ nodes) := by
  have hsub : (d.root :: (cols ++ nodes)).toFinset ⊆ Finset.range d.curNode := by
    intro y hy
    exact Finset.mem_range.mpr (h.fresh y (List.mem_toFinset.mp hy))
  have hcard : (Finset.range d.curNode).card ≤ (d.root :: (cols ++ nodes)).toFinset.card := by
    rw [List.toFinset_card_of_nodup h.nodup, Finset.card_range, h.count, List.length_cons,
      List.length_append]
    omega
  rw [← List.mem_toFinset, Finset.eq_of_subset_of_card_le hsub hcard, Finset.mem_range]

theorem Headed.sides (h : d.Headed cols rows.flatten) (hrows : d.RowLinks rows) :
    ∀ x < d.curNode, d.right (d.left x) = x ∧ d.left (d.right x) = x := by
  intro x hx
  rcases List.mem_cons.mp ((h.lt_iff x).mp hx) with rfl | hin
  · exact h.header.wellLinked_head
  · rcases List.mem_append.mp hin with hc | hn
    · exact h.header.wellLinked hc
    · obtain ⟨r, hr, hxr⟩ := List.mem_flatten.mp hn
      obtain ⟨l₁, l₂, hsplit⟩ := List.append_of_mem hxr
      exact (hrows r hr l₁ x l₂ hsplit).wellLinked_head

theorem Headed.ends (h : d.Headed cols nodes) (hroot : d.Apart) :
    ∀ x < d.curNode, d.down (d.up x) = x ∧ d.up (d.down x) = x := by
  intro x hx
  rcases List.mem_cons.mp ((h.lt_iff x).mp hx) with rfl | hin
  · exact ⟨by rw [hroot.up, hroot.down], by rw [hroot.down, hroot.up]⟩
  · rcases List.mem_append.mp hin with hc | hn
    · exact (h.colRing x hc).wellLinked_head
    · have hmem : x ∈ d.inColumn nodes (d.col x) := mem_inColumn.mpr ⟨hn, rfl⟩
      exact (h.colRing _ (h.colNode x hn)).wellLinked hmem

/-- The list of a column has all its nodes, and the size counts them. -/
theorem Headed.sizes (h : d.Headed cols nodes) : ∀ c ∈ cols, ∃ l : List Nat,
    Ring d.down d.up c l ∧ l.Nodup ∧ d.size c = l.length ∧ ∀ x, x ∈ l ↔ x ∈ nodes ∧ d.col x = c := by
  intro c hc
  obtain ⟨-, hnodup⟩ := List.nodup_cons.mp (h.column_nodup hc)
  exact ⟨d.inColumn nodes c, h.colRing c hc, hnodup, h.size c hc, fun _ => mem_inColumn⟩

/-- The columns, from their names. -/
theorem column_of_names (hnames : cols.map d.name = columnNames g) {q : Requirement}
    (hq : q.Open g) : ∃! c, c ∈ cols ∧ d.name c = q.code := by
  have hin : q.code ∈ cols.map d.name := by
    rw [hnames]
    exact Requirement.mem_columnNames_iff.mpr ⟨q, hq, rfl⟩
  obtain ⟨c, hc, hcode⟩ := List.mem_map.mp hin
  refine ⟨c, ⟨hc, hcode⟩, ?_⟩
  rintro e ⟨he, hcode'⟩
  have hnodup : (cols.map d.name).Nodup := by
    rw [hnames]
    exact columnNames_nodup g
  exact List.inj_on_of_nodup_map hnodup he hc (hcode'.trans hcode.symm)

theorem requirement_of_names (hnames : cols.map d.name = columnNames g) {c : Nat} (hc : c ∈ cols) :
    ∃! q : Requirement, q.Open g ∧ d.name c = q.code := by
  have hin : d.name c ∈ columnNames g := by
    rw [← hnames]
    exact List.mem_map_of_mem hc
  obtain ⟨q, hq, hcode⟩ := Requirement.mem_columnNames_iff.mp hin
  refine ⟨q, ⟨hq, hcode.symm⟩, ?_⟩
  rintro q' ⟨hq', hcode'⟩
  exact Requirement.code_inj hq' hq (hcode'.symm.trans hcode.symm)

/-- A list of nodes with the names of a choice is the row of it. -/
theorem row_of_names (h : d.Headed cols rows.flatten) (hrows : d.RowLinks rows) {row : List Nat}
    (hrow : row ∈ rows) {choice : Nat × Nat} (hchoice : choice ∈ choices g)
    (hnames : row.map d.name = choiceNames choice) : d.Row row choice := by
  obtain ⟨-, -, -, hv, -⟩ := mem_choices.mp hchoice
  -- the four names of a choice: its cell, then row, column and box with the value
  obtain ⟨n₀, r₁, rfl, h₀, hnames⟩ := List.map_eq_cons_iff.mp hnames
  obtain ⟨nr, r₂, rfl, hr, hnames⟩ := List.map_eq_cons_iff.mp hnames
  obtain ⟨nc, r₃, rfl, hc, hnames⟩ := List.map_eq_cons_iff.mp hnames
  obtain ⟨nb, r₄, rfl, hb, hnames⟩ := List.map_eq_cons_iff.mp hnames
  obtain rfl := List.map_eq_nil_iff.mp hnames
  constructor
  · refine ⟨n₀, nr, nc, nb, rfl, ?_, h₀, hr, hc, hb⟩
    have hring := hrows _ hrow [] n₀ [nr, nc, nb] rfl
    rwa [List.append_nil] at hring
  · intro x hx
    simp only [List.tail_cons, List.mem_cons, List.not_mem_nil, or_false] at hx
    rcases hx with rfl | rfl | rfl
    · rw [hr]
      exact Kind.name_mod .row _ hv
    · rw [hc]
      exact Kind.name_mod .col _ hv
    · rw [hb]
      exact Kind.name_mod .box _ hv
  · intro x hx
    have hnode : x ∈ rows.flatten := List.mem_flatten.mpr ⟨_, hrow, hx⟩
    exact (h.columns _ _).mpr ⟨h.colNode x hnode, (h.nodeName x hnode).symm⟩

theorem Row.names {row : List Nat} {choice : Nat × Nat} (h : d.Row row choice) :
    row.map d.name = choiceNames choice := by
  obtain ⟨n₀, nr, nc, nb, rfl, -, h₀, hr, hc, hb⟩ := h.nodes
  show [d.name n₀, d.name nr, d.name nc, d.name nb] = _
  rw [h₀, hr, hc, hb]
  rfl

theorem choiceNames_inj {choice choice' : Nat × Nat} (h : choice ∈ choices g)
    (h' : choice' ∈ choices g) (heq : choiceNames choice = choiceNames choice') :
    choice = choice' := by
  rw [← choiceOf_choiceNames h, heq, choiceOf_choiceNames h']

end Built

end Dance

/-- The constructor passes all its checks and builds the torus of the board. -/
theorem new_torus (problem : Bytes) (hproblem : Digits problem) :
    ∃ d cols rows, Dance.new problem = some d ∧ d.Torus (boardOf problem) cols rows ∧
      (Dance.columnNames (boardOf problem)).Nodup ∧
      (∀ n ∈ Dance.columnNames (boardOf problem), n < 400) ∧
      ∀ choice ∈ Dance.choices (boardOf problem), ∀ n ∈ choiceNames choice,
        n ∈ Dance.columnNames (boardOf problem) := by
  obtain ⟨d, cols, rows, hnew, h, hrows, hcolNames, hrowNames, hroom, -, -⟩ :=
    Dance.new_headed hproblem.input
  -- no two rows have the same names, so that a choice has one row only
  have hnamesNodup : (rows.map (List.map d.name)).Nodup := by
    rw [hrowNames]
    exact (choices_nodup _).map_on fun c hc c' hc' heq => Dance.choiceNames_inj hc hc' heq
  refine ⟨d, cols, rows, hnew, ?_, columnNames_nodup _, ?_, fun c hc => choiceNames_subset hc⟩
  · constructor
    · exact hroom
    · exact h.nodup
    · exact h.lt_iff
    · exact h.header
    · exact h.columns
    · intro q hq
      exact Dance.column_of_names hcolNames hq
    · intro c hc
      exact Dance.requirement_of_names hcolNames hc
    · intro choice hchoice
      have hmem := allowed_iff.mp hchoice
      have hin : choiceNames choice ∈ rows.map (List.map d.name) := by
        rw [hrowNames]
        exact List.mem_map_of_mem hmem
      obtain ⟨row, hrow, hnames⟩ := List.mem_map.mp hin
      refine ⟨row, ⟨hrow, Dance.row_of_names h hrows hrow hmem hnames⟩, ?_⟩
      rintro row' ⟨hrow', hrow''⟩
      exact List.inj_on_of_nodup_map hnamesNodup hrow' hrow (hrow''.names.trans hnames.symm)
    · intro row hrow
      obtain ⟨choice, hc, hnames⟩ := Dance.choice_of_names hrowNames hrow
      refine ⟨choice, ⟨allowed_iff.mpr hc, Dance.row_of_names h hrows hrow hc hnames⟩, ?_⟩
      rintro choice' ⟨hallowed, hrow'⟩
      exact Dance.choiceNames_inj (allowed_iff.mp hallowed) hc (hrow'.names.symm.trans hnames)
    · exact h.sides hrows
    · exact h.ends (Dance.new_apart hnew)
    · exact h.sizes
  · intro n hn
    obtain ⟨q, hq, rfl⟩ := Requirement.mem_columnNames_iff.mp hn
    exact q.code_lt hq

/-- The empty board. -/
theorem new_torus_blank : ∃ d cols rows, Dance.new (List.replicate 81 48) = some d ∧
    d.Torus (boardOf (List.replicate 81 48)) cols rows ∧
    (Dance.columnNames (boardOf (List.replicate 81 48))).Nodup ∧
    (∀ n ∈ Dance.columnNames (boardOf (List.replicate 81 48)), n < 400) ∧
    ∀ choice ∈ Dance.choices (boardOf (List.replicate 81 48)), ∀ n ∈ choiceNames choice,
      n ∈ Dance.columnNames (boardOf (List.replicate 81 48)) := by
  apply new_torus
  constructor
  · exact List.length_replicate ..
  · intro b hb
    rw [List.eq_of_mem_replicate hb]
    decide

end CloudLabs.Sudoku
