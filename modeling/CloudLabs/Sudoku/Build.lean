import CloudLabs.Sudoku.Board
import CloudLabs.Sudoku.Search

/-!
# Building the matrix

The constructor appends a header for each column and then four nodes for each choice, one in each of
its columns. `Headed` is the state of the headers and of the column lists, `RowLinks` that of the
rows; `new_spec` puts them together: the constructor leaves the whole matrix active, with the
columns named by `columnNames` and the rows by `choices`.
-/

set_option autoImplicit false

namespace CloudLabs.Sudoku

open CloudLabs.Foundation

namespace Dance

open Function (update)

/-- The nodes of column `c`, in the order in which they were added. -/
def inColumn (d : Dance) (nodes : List Nat) (c : Nat) : List Nat := nodes.filter fun x => d.col x = c

/-- The headers, and the column lists of the nodes that have been added. -/
structure Headed (d : Dance) (cols nodes : List Nat) : Prop where
  nodup : (d.root :: (cols ++ nodes)).Nodup
  fresh : ∀ x ∈ d.root :: (cols ++ nodes), x < d.curNode
  count : d.curNode = 1 + cols.length + nodes.length
  colSelf : ∀ c ∈ cols, d.col c = c
  colNode : ∀ x ∈ nodes, d.col x ∈ cols
  nodeName : ∀ x ∈ nodes, d.name x = d.name (d.col x)
  header : Ring d.right d.left d.root cols
  colRing : ∀ c ∈ cols, Ring d.down d.up c (d.inColumn nodes c)
  size : ∀ c ∈ cols, d.size c = (d.inColumn nodes c).length
  columns : ∀ n c, d.columns n = some c ↔ c ∈ cols ∧ d.name c = n

/-- The links of the rows. -/
def RowLinks (d : Dance) (rows : List (List Nat)) : Prop :=
  ∀ r ∈ rows, ∀ l₁ x l₂, r = l₁ ++ x :: l₂ → Ring d.right d.left x (l₂ ++ l₁)

/-- What building leaves alone: the board, the root, and the names of the nodes there are. -/
structure Grown (d d' : Dance) : Prop where
  root : d'.root = d.root
  inout : d'.inout = d.inout
  stack : d'.stack = d.stack
  curNode : d.curNode ≤ d'.curNode
  name : ∀ x, x < d.curNode → d'.name x = d.name x
  col : ∀ x, x < d.curNode → d'.col x = d.col x

theorem Grown.refl (d : Dance) : Grown d d :=
  ⟨rfl, rfl, rfl, Nat.le_refl _, fun _ _ => rfl, fun _ _ => rfl⟩

theorem Grown.trans {d d' d'' : Dance} (h : Grown d d') (h' : Grown d' d'') : Grown d d'' where
  root := h'.root.trans h.root
  inout := h'.inout.trans h.inout
  stack := h'.stack.trans h.stack
  curNode := h.curNode.trans h'.curNode
  name := fun x hx => (h'.name x (Nat.lt_of_lt_of_le hx h.curNode)).trans (h.name x hx)
  col := fun x hx => (h'.col x (Nat.lt_of_lt_of_le hx h.curNode)).trans (h.col x hx)

section Build

variable {d : Dance} {cols nodes : List Nat} {n : Nat}

/-! ## The insertions -/

theorem putLeft_left {old nnew : Nat} :
    (putLeft old nnew d).left = update (update d.left nnew (d.left old)) old nnew := rfl

theorem putLeft_right {old nnew : Nat} (hne : old ≠ nnew) :
    (putLeft old nnew d).right = update (update d.right nnew old) (d.left old) nnew := by
  show update (update d.right nnew old) (update d.left nnew (d.left old) old) nnew = _
  rw [Function.update_of_ne hne]

theorem putUp_up {old nnew : Nat} :
    (putUp old nnew d).up = update (update d.up nnew (d.up old)) old nnew := rfl

theorem putUp_down {old nnew : Nat} (hne : old ≠ nnew) :
    (putUp old nnew d).down = update (update d.down nnew old) (d.up old) nnew := by
  show update (update d.down nnew old) (update d.up nnew (d.up old) old) nnew = _
  rw [Function.update_of_ne hne]

/-- `putLeft` adds to the end of a row, or of the header list. -/
theorem Ring.putLeft {h x : Nat} {l : List Nat} (hring : Ring d.right d.left h l)
    (hnodup : (h :: l).Nodup) (hx : x ∉ h :: l) :
    Ring (putLeft h x d).right (putLeft h x d).left h (l ++ [x]) := by
  have hne : h ≠ x := fun heq => hx (heq ▸ List.mem_cons_self)
  rw [putLeft_right hne, putLeft_left]
  exact hring.insert hnodup hx

/-- `putUp` adds to the end of a column. -/
theorem Ring.putUp {h x : Nat} {l : List Nat} (hring : Ring d.down d.up h l)
    (hnodup : (h :: l).Nodup) (hx : x ∉ h :: l) :
    Ring (putUp h x d).down (putUp h x d).up h (l ++ [x]) := by
  have hne : h ≠ x := fun heq => hx (heq ▸ List.mem_cons_self)
  rw [putUp_down hne, putUp_up]
  exact hring.insert hnodup hx

/-- A row that has nothing to do with an insertion. -/
theorem Ring.putLeft_frame {h x y : Nat} {l k : List Nat} (hring : Ring d.right d.left h l)
    (hother : Ring d.right d.left y k) (hk : ∀ z ∈ y :: k, z ∉ h :: l ∧ z ≠ x) (hne : h ≠ x) :
    Ring (Dance.putLeft h x d).right (Dance.putLeft h x d).left y k := by
  rw [putLeft_right hne, putLeft_left]
  exact hring.insert_frame hother hk

/-- A column that has nothing to do with an insertion. -/
theorem Ring.putUp_frame {h x y : Nat} {l k : List Nat} (hring : Ring d.down d.up h l)
    (hother : Ring d.down d.up y k) (hk : ∀ z ∈ y :: k, z ∉ h :: l ∧ z ≠ x) (hne : h ≠ x) :
    Ring (Dance.putUp h x d).down (Dance.putUp h x d).up y k := by
  rw [putUp_down hne, putUp_up]
  exact hring.insert_frame hother hk

/-! ## The nodes there are -/

theorem mem_inColumn {c x : Nat} : x ∈ d.inColumn nodes c ↔ x ∈ nodes ∧ d.col x = c := by
  rw [inColumn, List.mem_filter, decide_eq_true_iff]

theorem Headed.cols_fresh (h : d.Headed cols nodes) : ∀ c ∈ cols, c < d.curNode := fun c hc =>
  h.fresh c (List.mem_cons_of_mem _ (List.mem_append_left _ hc))

theorem Headed.nodes_fresh (h : d.Headed cols nodes) : ∀ x ∈ nodes, x < d.curNode := fun x hx =>
  h.fresh x (List.mem_cons_of_mem _ (List.mem_append_right _ hx))

theorem Headed.header_fresh (h : d.Headed cols nodes) : ∀ x ∈ d.root :: cols, x < d.curNode := by
  intro x hx
  rcases List.mem_cons.mp hx with rfl | hx
  · exact h.fresh _ List.mem_cons_self
  · exact h.cols_fresh x hx

theorem Headed.col_of_mem (h : d.Headed cols nodes) {c : Nat} (hc : c ∈ cols) :
    ∀ x ∈ c :: d.inColumn nodes c, d.col x = c := by
  intro x hx
  rcases List.mem_cons.mp hx with rfl | hx
  · exact h.colSelf x hc
  · exact (mem_inColumn.mp hx).2

theorem Headed.column_fresh (h : d.Headed cols nodes) {c : Nat} (hc : c ∈ cols) :
    ∀ x ∈ c :: d.inColumn nodes c, x < d.curNode := by
  intro x hx
  rcases List.mem_cons.mp hx with rfl | hx
  · exact h.cols_fresh x hc
  · exact h.nodes_fresh x (mem_inColumn.mp hx).1

theorem Headed.column_nodup (h : d.Headed cols nodes) {c : Nat} (hc : c ∈ cols) :
    (c :: d.inColumn nodes c).Nodup := by
  obtain ⟨-, hall⟩ := List.nodup_cons.mp h.nodup
  obtain ⟨-, hnodes, hdisj⟩ := List.nodup_append.mp hall
  exact List.nodup_cons.mpr ⟨fun hin => hdisj c hc c (mem_inColumn.mp hin).1 rfl, hnodes.filter _⟩

/-- The next node of the array is none of those there are. -/
theorem nodup_concat {k : Nat} {l : List Nat} (hnodup : l.Nodup) (hlt : ∀ x ∈ l, x < k) :
    (l ++ [k]).Nodup := by
  refine List.nodup_append.mpr ⟨hnodup, List.nodup_singleton k, ?_⟩
  intro x hx y hy
  rw [List.mem_singleton.mp hy]
  exact Nat.ne_of_lt (hlt x hx)

theorem lt_succ_of_mem_concat {k : Nat} {l : List Nat} (hlt : ∀ x ∈ l, x < k) :
    ∀ x ∈ l ++ [k], x < k + 1 := by
  intro x hx
  rcases List.mem_append.mp hx with hx | hx
  · exact Nat.lt_succ_of_lt (hlt x hx)
  · rw [List.mem_singleton.mp hx]
    exact Nat.lt_succ_self k

/-! ## A new column -/

/-- The state after `appendColumn`. -/
def withColumn (d : Dance) (n : Nat) : Dance :=
  { putLeft d.root d.curNode { d.newNode with
      col := update d.col d.curNode d.curNode
      name := update d.name d.curNode n } with
    columns := update d.columns n (some d.curNode) }

theorem appendColumn_eq (hn : d.columns n = none) (hroom : d.curNode < kMaxNodes) :
    d.appendColumn n = some (d.withColumn n) := by
  unfold appendColumn newColumn
  rw [if_pos hn, if_pos hroom]
  rfl

/-- A name that is new gets the new node as its column. -/
theorem columns_update {columns : Nat → Option Nat} {name : Nat → Nat} {x : Nat}
    (hcolumns : ∀ k c, columns k = some c ↔ c ∈ cols ∧ name c = k) (hn : columns n = none)
    (hx : x ∉ cols) (k c : Nat) :
    update columns n (some x) k = some c ↔ c ∈ cols ++ [x] ∧ update name x n c = k := by
  rw [List.mem_append, List.mem_singleton]
  by_cases hc : c = x
  · subst hc
    rw [Function.update_self]
    by_cases hk : k = n
    · subst hk
      simp
    · rw [Function.update_of_ne hk, hcolumns k c]
      constructor
      · rintro ⟨hin, -⟩
        exact absurd hin hx
      · rintro ⟨-, heq⟩
        exact absurd heq.symm hk
  · rw [Function.update_of_ne hc]
    by_cases hk : k = n
    · subst hk
      rw [Function.update_self]
      constructor
      · intro heq
        exact absurd (Option.some.inj heq).symm hc
      · rintro ⟨hin | hin, hname⟩
        · rw [(hcolumns k c).mpr ⟨hin, hname⟩] at hn
          cases hn
        · exact absurd hin hc
    · rw [Function.update_of_ne hk, hcolumns k c]
      simp [hc]

theorem Grown.withColumn (d : Dance) (n : Nat) : Grown d (d.withColumn n) where
  root := rfl
  inout := rfl
  stack := rfl
  curNode := Nat.le_succ _
  name := fun _ hx => Function.update_of_ne (Nat.ne_of_lt hx) ..
  col := fun _ hx => Function.update_of_ne (Nat.ne_of_lt hx) ..

theorem Headed.withColumn (h : d.Headed cols []) (hn : d.columns n = none) :
    (d.withColumn n).Headed (cols ++ [d.curNode]) [] := by
  have hnew : ∀ x ∈ d.root :: cols, x ≠ d.curNode := fun x hx => Nat.ne_of_lt (h.header_fresh x hx)
  have hcols : ∀ c ∈ cols, c ≠ d.curNode := fun c hc => hnew c (List.mem_cons_of_mem _ hc)
  have hnodup : (d.root :: cols).Nodup := by simpa using h.nodup
  constructor
  · rw [List.append_nil]
    exact nodup_concat hnodup h.header_fresh
  · rw [List.append_nil]
    exact lt_succ_of_mem_concat h.header_fresh
  · have hcount := h.count
    show d.curNode + 1 = _
    simp only [List.length_append, List.length_singleton, List.length_nil] at hcount ⊢
    omega
  · intro c hc
    rcases List.mem_append.mp hc with hc | hc
    · rw [(Grown.withColumn d n).col c (h.cols_fresh c hc), h.colSelf c hc]
    · rw [List.mem_singleton.mp hc]
      exact Function.update_self ..
  · intro x hx
    cases hx
  · intro x hx
    cases hx
  · -- The new node does not touch the header list before it is inserted.
    refine Ring.putLeft (d := { d.newNode with
      col := update d.col d.curNode d.curNode
      name := update d.name d.curNode n }) ?_ hnodup fun hin => hnew _ hin rfl
    apply h.header.frame
    · exact fun x hx => Function.update_of_ne (hnew x hx) ..
    · exact fun x hx => Function.update_of_ne (hnew x hx) ..
  · intro c hc
    show Ring (update d.down d.curNode d.curNode) (update d.up d.curNode d.curNode) c []
    rcases List.mem_append.mp hc with hc | hc
    · apply (h.colRing c hc).frame
      · intro a ha
        rw [List.mem_singleton.mp ha]
        exact Function.update_of_ne (hcols c hc) ..
      · intro a ha
        rw [List.mem_singleton.mp ha]
        exact Function.update_of_ne (hcols c hc) ..
    · rw [List.mem_singleton.mp hc]
      exact List.isChain_pair.mpr ⟨Function.update_self .., Function.update_self ..⟩
  · intro c hc
    show update d.size d.curNode 0 c = 0
    rcases List.mem_append.mp hc with hc | hc
    · rw [Function.update_of_ne (hcols c hc)]
      exact h.size c hc
    · rw [List.mem_singleton.mp hc]
      exact Function.update_self ..
  · exact columns_update h.columns hn fun hin => hcols _ hin rfl

theorem appendColumn_spec (h : d.Headed cols []) (hn : d.columns n = none)
    (hroom : d.curNode < kMaxNodes) :
    ∃ d', d.appendColumn n = some d' ∧ d'.Headed (cols ++ [d.curNode]) [] ∧ Grown d d' ∧
      d'.name d.curNode = n :=
  ⟨d.withColumn n, appendColumn_eq hn hroom, h.withColumn hn, Grown.withColumn d n,
    Function.update_self ..⟩

/-! ## A new node -/

/-- The state after `newRow` for a name whose column is `c`. -/
def withNode (d : Dance) (n c : Nat) : Dance :=
  putUp c d.curNode { d.newNode with
    name := update d.name d.curNode n
    col := update d.col d.curNode c }

theorem newRow_eq {c : Nat} (hcolumns : d.columns n = some c) (hroom : d.curNode < kMaxNodes) :
    d.newRow n = some (d.curNode, d.withNode n c) := by
  have hcol : update d.newNode.col d.curNode c d.curNode = c := Function.update_self ..
  unfold newRow
  rw [hcolumns]
  dsimp only
  rw [if_pos hroom, hcol]
  rfl

theorem withNode_col (d : Dance) (n c : Nat) :
    (d.withNode n c).col = update d.col d.curNode c := by
  show update (update d.col d.curNode c) d.curNode c = _
  rw [Function.update_idem]

theorem Grown.withNode (d : Dance) (n c : Nat) : Grown d (d.withNode n c) where
  root := rfl
  inout := rfl
  stack := rfl
  curNode := Nat.le_succ _
  name := fun _ hx => Function.update_of_ne (Nat.ne_of_lt hx) ..
  col := by
    intro x hx
    rw [withNode_col, Function.update_of_ne (Nat.ne_of_lt hx)]

/-- The new node is the last one of its column. -/
theorem inColumn_withNode {c : Nat} (hnodes : ∀ x ∈ nodes, x < d.curNode) (e : Nat) :
    (d.withNode n c).inColumn (nodes ++ [d.curNode]) e =
      d.inColumn nodes e ++ if c = e then [d.curNode] else [] := by
  rw [inColumn, List.filter_append, List.filter_singleton, withNode_col, Function.update_self]
  congr 1
  · apply List.filter_congr
    intro x hx
    rw [Function.update_of_ne (Nat.ne_of_lt (hnodes x hx))]
  · by_cases hce : c = e <;> simp [hce]

theorem Headed.withNode_colRing (h : d.Headed cols nodes) {c : Nat} (hc : c ∈ cols) {e : Nat}
    (he : e ∈ cols) : Ring (d.withNode n c).down (d.withNode n c).up e
      ((d.withNode n c).inColumn (nodes ++ [d.curNode]) e) := by
  have hnew : ∀ e ∈ cols, ∀ x ∈ e :: d.inColumn nodes e, x ≠ d.curNode := fun e he x hx =>
    Nat.ne_of_lt (h.column_fresh he x hx)
  have hne : c ≠ d.curNode := hnew c hc c List.mem_cons_self
  have hring : ∀ e ∈ cols, Ring (update d.down d.curNode d.curNode)
      (update d.up d.curNode d.curNode) e (d.inColumn nodes e) := by
    intro e he
    apply (h.colRing e he).frame
    · exact fun x hx => Function.update_of_ne (hnew e he x hx) ..
    · exact fun x hx => Function.update_of_ne (hnew e he x hx) ..
  let d₁ : Dance := { d.newNode with
    name := update d.name d.curNode n
    col := update d.col d.curNode c }
  rw [inColumn_withNode h.nodes_fresh]
  by_cases hce : c = e
  · subst hce
    rw [if_pos rfl]
    exact Ring.putUp (d := d₁) (hring c hc) (h.column_nodup hc) fun hin => hnew c hc _ hin rfl
  · -- The insertion is in another column.
    rw [if_neg hce, List.append_nil]
    refine Ring.putUp_frame (d := d₁) (hring c hc) (hring e he) ?_ hne
    intro z hz
    refine ⟨?_, hnew e he z hz⟩
    intro hin
    exact hce ((h.col_of_mem hc z hin).symm.trans (h.col_of_mem he z hz))

theorem Headed.withNode (h : d.Headed cols nodes) {c : Nat} (hc : c ∈ cols) (hname : d.name c = n) :
    (d.withNode n c).Headed cols (nodes ++ [d.curNode]) := by
  have hgrown := Grown.withNode d n c
  have hcols : ∀ e ∈ cols, e ≠ d.curNode := fun e he => Nat.ne_of_lt (h.cols_fresh e he)
  have hcolNew : (d.withNode n c).col d.curNode = c := by rw [withNode_col, Function.update_self]
  constructor
  · rw [← List.append_assoc, ← List.cons_append]
    exact nodup_concat h.nodup h.fresh
  · rw [← List.append_assoc, ← List.cons_append]
    exact lt_succ_of_mem_concat h.fresh
  · have hcount := h.count
    show d.curNode + 1 = _
    rw [List.length_append, List.length_singleton]
    omega
  · intro e he
    rw [hgrown.col e (h.cols_fresh e he), h.colSelf e he]
  · intro x hx
    rcases List.mem_append.mp hx with hx | hx
    · rw [hgrown.col x (h.nodes_fresh x hx)]
      exact h.colNode x hx
    · rw [List.mem_singleton.mp hx, hcolNew]
      exact hc
  · intro x hx
    rcases List.mem_append.mp hx with hx | hx
    · rw [hgrown.col x (h.nodes_fresh x hx), hgrown.name x (h.nodes_fresh x hx),
        hgrown.name _ (h.cols_fresh _ (h.colNode x hx))]
      exact h.nodeName x hx
    · rw [List.mem_singleton.mp hx, hcolNew, hgrown.name c (h.cols_fresh c hc), hname]
      exact Function.update_self ..
  · apply h.header.frame
    · exact fun x hx => Function.update_of_ne (Nat.ne_of_lt (h.header_fresh x hx)) ..
    · exact fun x hx => Function.update_of_ne (Nat.ne_of_lt (h.header_fresh x hx)) ..
  · exact fun e he => h.withNode_colRing hc he
  · intro e he
    rw [inColumn_withNode h.nodes_fresh]
    show update (update d.size d.curNode 0) c (update d.size d.curNode 0 c + 1) e = _
    by_cases hce : c = e
    · subst hce
      rw [Function.update_self, Function.update_of_ne (hcols c hc), h.size c hc, if_pos rfl]
      simp
    · rw [Function.update_of_ne (Ne.symm hce), Function.update_of_ne (hcols e he), h.size e he,
        if_neg hce, List.append_nil]
  · intro k e
    show d.columns k = some e ↔ e ∈ cols ∧ (d.withNode n c).name e = k
    rw [h.columns k e]
    constructor
    · rintro ⟨he, hk⟩
      exact ⟨he, by rw [hgrown.name e (h.cols_fresh e he), hk]⟩
    · rintro ⟨he, hk⟩
      exact ⟨he, by rw [← hk, hgrown.name e (h.cols_fresh e he)]⟩

/-- A new node goes to the end of its column, and is a row of its own. -/
theorem newRow_spec {rows : List (List Nat)} (h : d.Headed cols rows.flatten)
    (hrows : d.RowLinks rows) (hn : ∃ c ∈ cols, d.name c = n) (hroom : d.curNode < kMaxNodes) :
    ∃ d', d.newRow n = some (d.curNode, d') ∧ d'.Headed cols (rows ++ [[d.curNode]]).flatten ∧
      d'.RowLinks (rows ++ [[d.curNode]]) ∧ Grown d d' ∧ d'.name d.curNode = n ∧
      d'.curNode = d.curNode + 1 := by
  obtain ⟨c, hc, hname⟩ := hn
  have hflatten : (rows ++ [[d.curNode]]).flatten = rows.flatten ++ [d.curNode] := by simp
  refine ⟨d.withNode n c, newRow_eq ((h.columns n c).mpr ⟨hc, hname⟩) hroom, ?_, ?_,
    Grown.withNode d n c, Function.update_self .., rfl⟩
  · rw [hflatten]
    exact h.withNode hc hname
  · intro r hr l₁ x l₂ hsplit
    rcases List.mem_append.mp hr with hold | hnew
    · have hne : ∀ y ∈ x :: (l₂ ++ l₁), y ≠ d.curNode := by
        intro y hy
        apply Nat.ne_of_lt
        apply h.nodes_fresh y
        refine List.mem_flatten.mpr ⟨r, hold, ?_⟩
        rw [hsplit]
        simp only [List.mem_cons, List.mem_append] at hy ⊢
        tauto
      exact (hrows r hold l₁ x l₂ hsplit).frame (fun y hy => Function.update_of_ne (hne y hy) ..)
        fun y hy => Function.update_of_ne (hne y hy) ..
    · have hring : Ring (d.withNode n c).right (d.withNode n c).left d.curNode [] :=
        List.isChain_pair.mpr ⟨Function.update_self .., Function.update_self ..⟩
      rw [List.mem_singleton.mp hnew] at hsplit
      exact hring.of_split hsplit

/-! ## A new row -/

/-- A row takes in the node behind it, which was a row of its own. -/
theorem joinRow_spec {before after : List (List Nat)} {a x : Nat} {l : List Nat}
    (h : d.Headed cols (before ++ (a :: l) :: [x] :: after).flatten)
    (hrows : d.RowLinks (before ++ (a :: l) :: [x] :: after)) :
    (Dance.putLeft a x d).Headed cols (before ++ (a :: (l ++ [x])) :: after).flatten ∧
      (Dance.putLeft a x d).RowLinks (before ++ (a :: (l ++ [x])) :: after) := by
  have hring : Ring d.right d.left a l := by
    have hsplit := hrows (a :: l) (by simp) [] a l rfl
    rwa [List.append_nil] at hsplit
  have hnodup := h.nodup
  rw [← List.cons_append] at hnodup
  obtain ⟨-, hnodes, hdisj⟩ := List.nodup_append.mp hnodup
  have hflatten : (before ++ (a :: l) :: [x] :: after).flatten =
      before.flatten ++ ((a :: (l ++ [x])) ++ after.flatten) := by simp
  rw [hflatten] at hnodes
  obtain ⟨-, hlast, hbefore⟩ := List.nodup_append.mp hnodes
  obtain ⟨hrow, -, hafter⟩ := List.nodup_append.mp hlast
  obtain ⟨hal, -, hx⟩ := List.nodup_append.mp (List.cons_append ▸ hrow)
  have hne : a ≠ x := hx a List.mem_cons_self x List.mem_cons_self
  -- Whatever is not in the row is apart from the insertion.
  have hapart : ∀ z, (∀ y ∈ a :: (l ++ [x]), z ≠ y) → z ∉ a :: l ∧ z ≠ x := by
    intro z hz
    refine ⟨fun hin => hz z ?_ rfl, hz x (by simp)⟩
    rw [← List.cons_append]
    exact List.mem_append_left _ hin
  constructor
  · have hsame : (before ++ (a :: (l ++ [x])) :: after).flatten =
        (before ++ (a :: l) :: [x] :: after).flatten := by simp
    have hheader : Ring (Dance.putLeft a x d).right (Dance.putLeft a x d).left d.root cols := by
      refine Ring.putLeft_frame hring h.header (fun z hz => hapart z fun y hy => ?_) hne
      apply hdisj z hz y
      rw [hflatten]
      exact List.mem_append_right _ (List.mem_append_left _ hy)
    rw [hsame]
    exact ⟨h.nodup, h.fresh, h.count, h.colSelf, h.colNode, h.nodeName, hheader, h.colRing, h.size,
      h.columns⟩
  · have hother : ∀ r ∈ before ++ (a :: l) :: [x] :: after,
        (∀ z ∈ r, ∀ y ∈ a :: (l ++ [x]), z ≠ y) → ∀ l₁ y l₂, r = l₁ ++ y :: l₂ →
        Ring (Dance.putLeft a x d).right (Dance.putLeft a x d).left y (l₂ ++ l₁) := by
      intro r hr hout l₁ y l₂ hsplit
      refine Ring.putLeft_frame hring (hrows r hr l₁ y l₂ hsplit)
        (fun z hz => hapart z (hout z ?_)) hne
      rw [hsplit]
      simp only [List.mem_cons, List.mem_append] at hz ⊢
      tauto
    intro r hr l₁ y l₂ hsplit
    rcases List.mem_append.mp hr with hin | hin
    · refine hother r (List.mem_append_left _ hin) (fun z hz y hy => ?_) l₁ y l₂ hsplit
      exact hbefore z (List.mem_flatten.mpr ⟨r, hin, hz⟩) y (List.mem_append_left _ hy)
    · rcases List.mem_cons.mp hin with rfl | hin
      · have hjoined := Ring.putLeft hring hal fun hxl => hx x hxl x List.mem_cons_self rfl
        exact hjoined.of_split hsplit
      · refine hother r (by simp [hin]) (fun z hz y hy => ?_) l₁ y l₂ hsplit
        exact (hafter y hy z (List.mem_flatten.mpr ⟨r, hin, hz⟩)).symm

/-- The next four nodes become the row of a choice. -/
theorem addRow_spec {rows : List (List Nat)} (h : d.Headed cols rows.flatten)
    (hrows : d.RowLinks rows) {choice : Nat × Nat}
    (hcols : ∀ n ∈ choiceNames choice, ∃ c ∈ cols, d.name c = n)
    (hroom : d.curNode + 4 ≤ kMaxNodes) :
    ∃ d', d.addRow choice = some d' ∧ ∃ row, row.length = 4 ∧
      d'.Headed cols (rows ++ [row]).flatten ∧ d'.RowLinks (rows ++ [row]) ∧ Grown d d' ∧
      row.map d'.name = choiceNames choice := by
  obtain ⟨i, v⟩ := choice
  generalize hk : d.curNode = k at hroom
  have hfound : ∀ {d' : Dance}, Grown d d' → ∀ n ∈ choiceNames (i, v), ∃ c ∈ cols, d'.name c = n := by
    intro d' hg n hn
    obtain ⟨c, hc, hname⟩ := hcols n hn
    exact ⟨c, hc, (hg.name c (h.cols_fresh c hc)).trans hname⟩
  -- The four nodes, each a row of its own.
  obtain ⟨d₁, hrun₁, h₁, hrows₁, hg₁, hname₁, hcur₁⟩ := newRow_spec h hrows (n := i)
    (hcols _ (by simp [choiceNames])) (by omega)
  rw [hk] at hrun₁ h₁ hrows₁ hname₁ hcur₁
  obtain ⟨d₂, hrun₂, h₂, hrows₂, hg, hname₂, hcur₂⟩ := newRow_spec h₁ hrows₁
    (n := getRowCol (i / 9) v) (hfound hg₁ _ (by simp [choiceNames])) (by omega)
  have hg₂ := hg₁.trans hg
  rw [hcur₁] at hrun₂ h₂ hrows₂ hname₂ hcur₂
  obtain ⟨d₃, hrun₃, h₃, hrows₃, hg', hname₃, hcur₃⟩ := newRow_spec h₂ hrows₂
    (n := getColCol (i % 9) v) (hfound hg₂ _ (by simp [choiceNames])) (by omega)
  have hg₃ := hg₂.trans hg'
  rw [hcur₂] at hrun₃ h₃ hrows₃ hname₃ hcur₃
  obtain ⟨d₄, hrun₄, h₄, hrows₄, hg'', hname₄, -⟩ := newRow_spec h₃ hrows₃
    (n := getBoxCol (boxOf i) v) (hfound hg₃ _ (by simp [choiceNames])) (by omega)
  have hg₄ := hg₃.trans hg''
  rw [hcur₃] at hrun₄ h₄ hrows₄ hname₄
  simp only [List.append_assoc, List.singleton_append] at h₄ hrows₄
  -- The second, the third and the fourth join the first.
  obtain ⟨h₅, hrows₅⟩ := joinRow_spec h₄ hrows₄
  obtain ⟨h₆, hrows₆⟩ := joinRow_spec h₅ hrows₅
  obtain ⟨h₇, hrows₇⟩ := joinRow_spec h₆ hrows₆
  refine ⟨Dance.putLeft k (k + 3) (Dance.putLeft k (k + 2) (Dance.putLeft k (k + 1) d₄)), ?_,
    [k, k + 1, k + 2, k + 3], rfl, h₇, hrows₇, ?_, ?_⟩
  · unfold addRow
    dsimp only
    simp only [hrun₁, hrun₂, hrun₃, hrun₄, Option.bind_eq_bind, Option.bind_some]
  · exact ⟨hg₄.root, hg₄.inout, hg₄.stack, hg₄.curNode, hg₄.name, hg₄.col⟩
  · have hn₁ : d₄.name k = i := by
      rw [(hg.trans (hg'.trans hg'')).name k (by omega), hname₁]
    have hn₂ : d₄.name (k + 1) = getRowCol (i / 9) v := by
      rw [(hg'.trans hg'').name (k + 1) (by omega), hname₂]
    have hn₃ : d₄.name (k + 2) = getColCol (i % 9) v := by
      rw [hg''.name (k + 2) (by omega), hname₃]
    show [d₄.name k, d₄.name (k + 1), d₄.name (k + 2), d₄.name (k + 3)] = _
    rw [hn₁, hn₂, hn₃, hname₄]
    rfl

/-! ## All columns and rows -/

theorem Headed.columns_none (h : d.Headed cols nodes) (hn : n ∉ cols.map d.name) :
    d.columns n = none := by
  cases hc : d.columns n with
  | none => rfl
  | some c =>
    obtain ⟨hin, hname⟩ := (h.columns n c).mp hc
    exact absurd (List.mem_map.mpr ⟨c, hin, hname⟩) hn

/-- Nodes keep their names while the matrix grows. -/
theorem Grown.names {d' : Dance} (hg : Grown d d') {l : List Nat} (hl : ∀ x ∈ l, x < d.curNode) :
    l.map d'.name = l.map d.name :=
  List.map_congr_left fun x hx => hg.name x (hl x hx)

/-- A header for each name of a list. -/
theorem appendColumns_spec (names : List Nat) : ∀ {d : Dance} {cols : List Nat}, d.Headed cols [] →
    (cols.map d.name ++ names).Nodup → d.curNode + names.length ≤ kMaxNodes →
    ∃ d' cols', names.foldlM (fun d n => d.appendColumn n) d = some d' ∧ d'.Headed cols' [] ∧
      Grown d d' ∧ cols'.map d'.name = cols.map d.name ++ names := by
  induction names with
  | nil =>
    intro d cols h _ _
    exact ⟨d, cols, rfl, h, Grown.refl d, (List.append_nil _).symm⟩
  | cons n names ih =>
    intro d cols h hnodup hroom
    rw [List.length_cons] at hroom
    have hn : n ∉ cols.map d.name := fun hin =>
      (List.nodup_append.mp hnodup).2.2 n hin n List.mem_cons_self rfl
    obtain ⟨d₁, hrun, h₁, hg₁, hname⟩ := appendColumn_spec h (h.columns_none hn) (by omega)
    have hnames : (cols ++ [d.curNode]).map d₁.name = cols.map d.name ++ [n] := by
      rw [List.map_append, hg₁.names h.cols_fresh, List.map_singleton, hname]
    have hcur : d₁.curNode = d.curNode + 1 := by
      have hcount := h.count
      have hcount₁ := h₁.count
      rw [List.length_append, List.length_singleton] at hcount₁
      omega
    obtain ⟨d', cols', hrun', h', hg', hnames'⟩ := ih h₁ (by
      rw [hnames, List.append_assoc]
      exact hnodup) (by omega)
    refine ⟨d', cols', ?_, h', hg₁.trans hg', ?_⟩
    · rw [List.foldlM_cons, hrun]
      exact hrun'
    · rw [hnames', hnames, List.append_assoc]
      rfl

/-- A row for each choice of a list. -/
theorem addRows_spec (choices : List (Nat × Nat)) : ∀ {d : Dance} {rows : List (List Nat)},
    d.Headed cols rows.flatten → d.RowLinks rows →
    (∀ choice ∈ choices, ∀ n ∈ choiceNames choice, n ∈ cols.map d.name) →
    d.curNode + 4 * choices.length ≤ kMaxNodes →
    ∃ d' rows', choices.foldlM (fun d choice => d.addRow choice) d = some d' ∧
      d'.Headed cols rows'.flatten ∧ d'.RowLinks rows' ∧ Grown d d' ∧
      d'.curNode = d.curNode + 4 * choices.length ∧
      rows'.map (List.map d'.name) = rows.map (List.map d.name) ++ choices.map choiceNames := by
  induction choices with
  | nil =>
    intro d rows h hrows _ _
    exact ⟨d, rows, rfl, h, hrows, Grown.refl d, rfl, (List.append_nil _).symm⟩
  | cons choice choices ih =>
    intro d rows h hrows hcols hroom
    rw [List.length_cons] at hroom
    obtain ⟨d₁, hrun, row, hlen, h₁, hrows₁, hg₁, hname⟩ := addRow_spec h hrows
      (fun n hn => by simpa using hcols choice List.mem_cons_self n hn) (by omega)
    have hcur : d₁.curNode = d.curNode + 4 := by
      have hcount := h.count
      have hcount₁ := h₁.count
      rw [List.flatten_append, List.length_append, List.flatten_singleton, hlen] at hcount₁
      omega
    have hnames : (rows ++ [row]).map (List.map d₁.name) =
        rows.map (List.map d.name) ++ [choiceNames choice] := by
      rw [List.map_append, List.map_singleton, hname]
      congr 1
      apply List.map_congr_left
      intro r hr
      exact hg₁.names fun x hx => h.nodes_fresh x (List.mem_flatten.mpr ⟨r, hr, hx⟩)
    obtain ⟨d', rows', hrun', h', hrows', hg', hcur', hnames'⟩ := ih h₁ hrows₁ (by
      intro c hc n hn
      rw [hg₁.names h.cols_fresh]
      exact hcols c (List.mem_cons_of_mem _ hc) n hn) (by omega)
    refine ⟨d', rows', ?_, h', hrows', hg₁.trans hg', ?_, ?_⟩
    · rw [List.foldlM_cons, hrun]
      exact hrun'
    · rw [List.length_cons]
      omega
    · rw [hnames', hnames, List.append_assoc]
      rfl

end Build

/-! ## The constructor -/

/-- The matrix `m` is that of the board, with the names of the columns and of the rows. -/
structure Stands (d : Dance) (m : Matrix) (inout : Nat → Nat) : Prop where
  links : d.Links m (d.inColumn m.nodes)
  active : d.Active m m.cols m.rows (d.inColumn m.nodes)
  nodeName : ∀ x ∈ m.nodes, d.name x = d.name (d.col x)
  colNames : m.cols.map d.name = columnNames inout
  rowNames : m.rows.map (List.map d.name) = (choices inout).map choiceNames
  bound : Matrix.bound m < kMaxNodes

/-- The root is a header without columns. -/
theorem root_spec (g : Nat → Nat) : ∃ d₀ : Dance,
    ((blank g).newColumn 0).map (fun p => { p.2 with root := p.1 }) = some d₀ ∧ d₀.Headed [] [] ∧
      d₀.curNode = 1 ∧ d₀.inout = g ∧ d₀.stack = [] := by
  refine ⟨{ (blank g).newNode with
    root := 0, col := Function.update (blank g).col 0 0
    name := Function.update (blank g).name 0 0 }, ?_, ?_, rfl, rfl, rfl⟩
  · unfold newColumn
    rw [if_pos (show (blank g).curNode < kMaxNodes from Nat.succ_pos _)]
    rfl
  · constructor
    · exact List.nodup_singleton _
    · intro x hx
      rw [List.mem_singleton.mp hx]
      exact Nat.one_pos
    · rfl
    · intro c hc
      cases hc
    · intro x hx
      cases hx
    · intro x hx
      cases hx
    · exact List.isChain_pair.mpr ⟨rfl, rfl⟩
    · intro c hc
      cases hc
    · intro c hc
      cases hc
    · intro n c
      constructor
      · intro h
        cases h
      · rintro ⟨hc, -⟩
        cases hc

/-- What the constructor has built: the headers, the rows and the names of both. -/
theorem new_headed {problem : Bytes} {g : Nat → Nat} (hg : input problem = some g) :
    ∃ d cols rows, Dance.new problem = some d ∧ d.Headed cols rows.flatten ∧ d.RowLinks rows ∧
      cols.map d.name = columnNames g ∧ rows.map (List.map d.name) = (choices g).map choiceNames ∧
      d.curNode ≤ kMaxNodes ∧ d.inout = g ∧ d.stack = [] := by
  obtain ⟨d₀, hroot, h₀, hcur₀, hinout₀, hstack₀⟩ := root_spec g
  have hlenCols := columnNames_length_le g
  have hlenRows := choices_length_le g
  have hmax : kMaxNodes = 3241 := rfl
  obtain ⟨d₁, cols, hrun₁, h₁, hg₁, hnames₁⟩ := appendColumns_spec (columnNames g) h₀
    (by
      rw [List.map_nil, List.nil_append]
      exact columnNames_nodup g) (by omega)
  rw [List.map_nil, List.nil_append] at hnames₁
  have hcols : cols.length = (columnNames g).length := by rw [← hnames₁, List.length_map]
  have hcount₁ : d₁.curNode = 1 + cols.length := h₁.count
  have h₁' : d₁.Headed cols ([] : List (List Nat)).flatten := h₁
  have hnone : d₁.RowLinks [] := by
    intro r hr
    cases hr
  obtain ⟨d, rows, hrun, h, hrows, hg', hcur, hnames⟩ := addRows_spec (choices g) h₁' hnone (by
    intro choice hc n hn
    rw [hnames₁]
    exact choiceNames_subset hc n hn) (by omega)
  rw [List.map_nil, List.nil_append] at hnames
  refine ⟨d, cols, rows, ?_, h, hrows, ?_, hnames, by omega, ?_, ?_⟩
  · obtain ⟨⟨r, d'⟩, hnew, heq⟩ := Option.map_eq_some_iff.mp hroot
    have heq : ({ d' with root := r } : Dance) = d₀ := heq
    simp only [Dance.new, hg, hnew, heq, hrun₁, hrun, Option.bind_eq_bind, Option.bind_some]
  · rw [← hnames₁]
    exact hg'.names h₁.cols_fresh
  · rw [hg'.inout, hg₁.inout, hinout₀]
  · rw [hg'.stack, hg₁.stack, hstack₀]

/-- Rows with the names of the choices are named after one choice each. -/
theorem choice_of_names {d : Dance} {g : Nat → Nat} {rows : List (List Nat)}
    (hnames : rows.map (List.map d.name) = (choices g).map choiceNames) {r : List Nat}
    (hr : r ∈ rows) : ∃ choice ∈ choices g, r.map d.name = choiceNames choice := by
  have hname : r.map d.name ∈ (choices g).map choiceNames := by
    rw [← hnames]
    exact List.mem_map_of_mem hr
  obtain ⟨choice, hc, heq⟩ := List.mem_map.mp hname
  exact ⟨choice, hc, heq.symm⟩

/-- The constructor leaves the matrix of the board, all of it active. -/
theorem new_spec {problem : Bytes} {g : Nat → Nat} (hg : input problem = some g) :
    ∃ d m, Dance.new problem = some d ∧ d.Stands m g ∧ d.inout = g ∧ d.stack = [] := by
  obtain ⟨d, cols, rows, hnew, h, hrows, hcolNames, hnames, hcur, hinout, hstack⟩ := new_headed hg
  refine ⟨d, ⟨cols, rows⟩, hnew, ?_, hinout, hstack⟩
  constructor
  · constructor
    · exact h.nodup
    · exact h.colSelf
    · exact h.colNode
    · intro r hr
      -- The names of the columns of a row are different, and so the columns are.
      apply List.Nodup.of_map d.name
      obtain ⟨choice, hc, heq⟩ := choice_of_names hnames hr
      have hcol : (r.map d.col).map d.name = r.map d.name := by
        rw [List.map_map]
        apply List.map_congr_left
        intro x hx
        exact (h.nodeName x (List.mem_flatten.mpr ⟨r, hr, hx⟩)).symm
      rw [hcol, heq]
      exact choiceNames_nodup hc
    · exact hrows
    · exact h.colRing
    · exact fun _ _ _ hx => mem_inColumn.mp hx
    · exact fun c hc => (List.nodup_cons.mp (h.column_nodup hc)).2
    · exact h.size
  · constructor
    · exact h.header
    · exact fun _ hc => hc
    · obtain ⟨-, hall⟩ := List.nodup_cons.mp h.nodup
      exact (List.nodup_append.mp hall).1
    · exact List.Sublist.refl _
    · exact fun r hr x hx => h.colNode x (List.mem_flatten.mpr ⟨r, hr, hx⟩)
    · exact fun _ _ => rfl
  · exact h.nodeName
  · exact hcolNames
  · exact hnames
  · have hcount := h.count
    show cols.length + rows.flatten.length < kMaxNodes
    omega

end Dance

end CloudLabs.Sudoku
