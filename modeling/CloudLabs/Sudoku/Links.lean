import CloudLabs.Foundation.ExactCover
import CloudLabs.Sudoku.Dance
import Mathlib.Data.List.TakeWhile

/-!
# Covering and uncovering columns

`Links` says which lists the links of the nodes make up: the nodes of a row, and for each column the
nodes `L c` that are in its list. `Active` says which part of the matrix the header list and the
columns in it still show: the columns `A` and the rows `R` with all their nodes.

`cover` unlinks, for each node of the column, the rest of its row, in an order that `uncover` goes
through backwards. `cover_spec`: it leaves the matrix without the column and without its rows, and
`uncover` brings back the very state before.
-/

set_option autoImplicit false

namespace CloudLabs.Sudoku

open CloudLabs.Foundation

/-- The columns and rows of the whole matrix, as nodes. -/
structure Matrix where
  cols : List Nat
  rows : List (List Nat)

namespace Matrix

def nodes (m : Matrix) : List Nat := m.rows.flatten

/-- The row of a node. -/
def rowOf (m : Matrix) (x : Nat) : List Nat := (m.rows.find? (x ∈ ·)).getD []

/-- The other nodes of the row of a node, in the order of the links to the right. -/
def rest (m : Matrix) (x : Nat) : List Nat :=
  ((m.rowOf x).dropWhile (· ≠ x)).tail ++ (m.rowOf x).takeWhile (· ≠ x)

variable {m : Matrix} {x y : Nat} {r : List Nat}

theorem rowOf_spec (hx : x ∈ m.nodes) : m.rowOf x ∈ m.rows ∧ x ∈ m.rowOf x := by
  obtain ⟨r, hr, hxr⟩ := List.mem_flatten.mp hx
  cases hfind : m.rows.find? (x ∈ ·) with
  | none =>
    have hnone := List.find?_eq_none.mp hfind r hr
    simp [hxr] at hnone
  | some r' =>
    rw [rowOf, hfind, Option.getD_some]
    exact ⟨List.mem_of_find?_eq_some hfind, by simpa using List.find?_some hfind⟩

theorem rowOf_eq (hnodup : m.nodes.Nodup) (hr : r ∈ m.rows) (hx : x ∈ r) : m.rowOf x = r := by
  have hmem : x ∈ m.nodes := List.mem_flatten.mpr ⟨r, hr, hx⟩
  obtain ⟨hrow, hxrow⟩ := rowOf_spec hmem
  obtain ⟨-, hpair⟩ := List.nodup_flatten.mp hnodup
  by_contra hne
  have hsymm : Std.Symm (List.Disjoint : List Nat → List Nat → Prop) := ⟨fun _ _ h => h.symm⟩
  exact hpair.forall hrow hr hne hxrow hx

theorem rest_spec (hx : x ∈ m.nodes) :
    ∃ l₁ l₂, m.rowOf x = l₁ ++ x :: l₂ ∧ m.rest x = l₂ ++ l₁ := by
  obtain ⟨-, hxr⟩ := rowOf_spec hx
  have hsplit := List.takeWhile_append_dropWhile (p := (· ≠ x)) (l := m.rowOf x)
  cases hdrop : (m.rowOf x).dropWhile (· ≠ x) with
  | nil =>
    -- The row has the node, so the search for it does not come to the end.
    rw [List.dropWhile_eq_nil_iff] at hdrop
    have hno := hdrop x hxr
    simp at hno
  | cons y l₂ =>
    have hy : y = x := by
      have hhead := List.head?_dropWhile_not (· ≠ x) (m.rowOf x)
      rw [hdrop] at hhead
      simpa using hhead
    subst hy
    rw [hdrop] at hsplit
    exact ⟨_, l₂, hsplit.symm, by rw [rest, hdrop, List.tail_cons]⟩

theorem mem_rest (hnodup : m.nodes.Nodup) (hx : x ∈ m.nodes) :
    y ∈ m.rest x ↔ y ∈ m.rowOf x ∧ y ≠ x := by
  obtain ⟨l₁, l₂, hrow, hrest⟩ := rest_spec hx
  have hrnodup : (m.rowOf x).Nodup := (List.nodup_flatten.mp hnodup).1 _ (rowOf_spec hx).1
  rw [hrow] at hrnodup ⊢
  have hx₁ : x ∉ l₁ := fun h => (List.nodup_append.mp hrnodup).2.2 x h x List.mem_cons_self rfl
  have hx₂ : x ∉ l₂ := (List.nodup_cons.mp (List.nodup_append.mp hrnodup).2.1).1
  rw [hrest, List.mem_append, List.mem_append, List.mem_cons]
  constructor
  · rintro (h | h)
    · exact ⟨.inr (.inr h), fun heq => hx₂ (heq ▸ h)⟩
    · exact ⟨.inl h, fun heq => hx₁ (heq ▸ h)⟩
  · rintro ⟨h | h | h, hne⟩
    · exact .inr h
    · exact absurd h hne
    · exact .inl h

theorem rest_nodup (hnodup : m.nodes.Nodup) (hx : x ∈ m.nodes) : (m.rest x).Nodup := by
  obtain ⟨l₁, l₂, hrow, hrest⟩ := rest_spec hx
  have hrnodup : (m.rowOf x).Nodup := (List.nodup_flatten.mp hnodup).1 _ (rowOf_spec hx).1
  rw [hrow] at hrnodup
  rw [hrest]
  have hperm : List.Perm (l₁ ++ x :: l₂) (x :: (l₂ ++ l₁)) :=
    List.perm_append_comm.trans (List.Perm.refl _)
  exact (List.nodup_cons.mp (hperm.nodup_iff.mp hrnodup)).2

end Matrix

namespace Dance

open Function (update)

/-! ## The links -/

structure Links (d : Dance) (m : Matrix) (L : Nat → List Nat) : Prop where
  nodup : (d.root :: (m.cols ++ m.nodes)).Nodup
  colSelf : ∀ c ∈ m.cols, d.col c = c
  colNode : ∀ x ∈ m.nodes, d.col x ∈ m.cols
  rowCols : ∀ r ∈ m.rows, (r.map d.col).Nodup
  rowRing : ∀ r ∈ m.rows, ∀ l₁ x l₂, r = l₁ ++ x :: l₂ → Ring d.right d.left x (l₂ ++ l₁)
  colRing : ∀ c ∈ m.cols, Ring d.down d.up c (L c)
  members : ∀ c ∈ m.cols, ∀ x ∈ L c, x ∈ m.nodes ∧ d.col x = c
  distinct : ∀ c ∈ m.cols, (L c).Nodup
  size : ∀ c ∈ m.cols, d.size c = (L c).length

section Unlink

variable {m : Matrix} {L : Nat → List Nat} {d : Dance} {j : Nat}

theorem Links.nodes_nodup (h : d.Links m L) : m.nodes.Nodup :=
  (List.nodup_append.mp (List.nodup_cons.mp h.nodup).2).2.1

theorem Links.col_notMem (h : d.Links m L) {c : Nat} (hc : c ∈ m.cols) : c ∉ m.nodes := fun hin =>
  (List.nodup_append.mp (List.nodup_cons.mp h.nodup).2).2.2 c hc c hin rfl

theorem Links.ring_nodup (h : d.Links m L) {c : Nat} (hc : c ∈ m.cols) : (c :: L c).Nodup :=
  List.nodup_cons.mpr ⟨fun hin => h.col_notMem hc (h.members c hc c hin).1, h.distinct c hc⟩

/-- A node that is in its column. -/
theorem Links.col_of_ring (h : d.Links m L) {c : Nat} (hc : c ∈ m.cols) {x : Nat}
    (hx : x ∈ c :: L c) : d.col x = c := by
  rcases List.mem_cons.mp hx with rfl | hx
  · exact h.colSelf x hc
  · exact (h.members c hc x hx).2

@[simp] theorem unlink_up : (unlink j d).up = update d.up (d.down j) (d.up j) := rfl

@[simp] theorem unlink_down : (unlink j d).down = update d.down (d.up j) (d.down j) := by
  show update d.down (update d.up (d.down j) (d.up j) j) (d.down j) = _
  rw [unlinked_self]

theorem relink_unlink (hup : d.up (d.down j) = j) (hdown : d.down (d.up j) = j) :
    relink j (unlink j d) = d := by
  have hdown' : (unlink j d).down j = d.down j := by rw [unlink_down, unlinked_self]
  have hup' : (relink j (unlink j d)).up = d.up := by
    show update (unlink j d).up ((unlink j d).down j) j = d.up
    rw [hdown', unlink_up, relinked_prev hup]
  have hdown'' : (relink j (unlink j d)).down = d.down := by
    show update (unlink j d).down ((relink j (unlink j d)).up j) j = d.down
    rw [hup', unlink_down, relinked_next hdown]
  have hsize : (relink j (unlink j d)).size = d.size := by
    show update (update d.size (d.col j) (d.size (d.col j) - 1)) (d.col j)
      (update d.size (d.col j) (d.size (d.col j) - 1) (d.col j) + 1) = d.size
    rw [Function.update_self, Function.update_idem]
    exact Function.update_eq_self_iff.mpr (by omega)
  calc relink j (unlink j d)
      = { d with
          up := (relink j (unlink j d)).up
          down := (relink j (unlink j d)).down
          size := (relink j (unlink j d)).size } := rfl
    _ = d := by rw [hup', hdown'', hsize]

theorem filter_ne_of_split {l₁ l₂ : List Nat} {x : Nat} (hnodup : (l₁ ++ x :: l₂).Nodup) :
    (l₁ ++ x :: l₂).filter (· ≠ x) = l₁ ++ l₂ := by
  have hx₁ : ∀ a ∈ l₁, a ≠ x := fun a ha => (List.nodup_append.mp hnodup).2.2 a ha x List.mem_cons_self
  have hx₂ : ∀ a ∈ l₂, a ≠ x := by
    rintro a ha rfl
    exact (List.nodup_cons.mp (List.nodup_append.mp hnodup).2.1).1 ha
  rw [List.filter_append, List.filter_cons_of_neg (by simp),
    List.filter_eq_self.mpr (fun a ha => by simpa using hx₁ a ha),
    List.filter_eq_self.mpr (fun a ha => by simpa using hx₂ a ha)]

/-- A node that is unlinked leaves the list of its column, and no other list changes. -/
theorem Links.unlink (h : d.Links m L) (hc : d.col j ∈ m.cols) (hj : j ∈ L (d.col j)) :
    (unlink j d).Links m (fun c => (L c).filter (· ≠ j)) := by
  have hother : ∀ c ∈ m.cols, c ≠ d.col j → (L c).filter (· ≠ j) = L c := by
    intro c hc hne
    apply List.filter_eq_self.mpr
    intro x hx
    have hxj : x ≠ j := by
      rintro rfl
      exact hne (h.members c ‹_› x hx).2.symm
    simpa using hxj
  obtain ⟨l₁, l₂, hsplit⟩ := List.append_of_mem hj
  have hown : (L (d.col j)).filter (· ≠ j) = l₁ ++ l₂ := by
    have hdistinct := h.distinct _ hc
    rw [hsplit] at hdistinct ⊢
    exact filter_ne_of_split hdistinct
  have hneigh := (h.colRing _ hc).neighbours hj
  constructor
  · exact h.nodup
  · exact h.colSelf
  · exact h.colNode
  · exact h.rowCols
  · exact h.rowRing
  · -- only the list of the column of `j` changes
    intro c hcm
    by_cases hcj : c = d.col j
    · subst hcj
      have hring := h.colRing _ hc
      have hnodup := h.ring_nodup hc
      rw [hsplit] at hring hnodup
      simp only [hown, unlink_down, unlink_up]
      exact hring.unlink hnodup
    · -- The neighbours are in another column.
      rw [hother c hcm hcj]
      apply (h.colRing c hcm).frame
      · intro a ha
        rw [unlink_down]
        apply Function.update_of_ne
        rintro rfl
        exact hcj ((h.col_of_ring hcm ha).symm.trans (h.col_of_ring hc hneigh.2))
      · intro a ha
        rw [unlink_up]
        apply Function.update_of_ne
        rintro rfl
        exact hcj ((h.col_of_ring hcm ha).symm.trans (h.col_of_ring hc hneigh.1))
  · intro c hcm x hx
    exact h.members c hcm x (List.mem_filter.mp hx).1
  · intro c hcm
    exact (h.distinct c hcm).filter _
  · intro c hcm
    show update d.size (d.col j) (d.size (d.col j) - 1) c = _
    by_cases hcj : c = d.col j
    · subst hcj
      rw [Function.update_self, h.size _ hc, hown, hsplit]
      simp only [List.length_append, List.length_cons]
      omega
    · rw [Function.update_of_ne hcj, h.size c hcm]
      simp only [hother c hcm hcj]

/-- The nodes of `J` leave their columns. -/
def unlinkAll (J : List Nat) (d : Dance) : Dance := J.foldl (fun d j => Dance.unlink j d) d

def relinkAll (J : List Nat) (d : Dance) : Dance := J.foldl (fun d j => Dance.relink j d) d

theorem unlinkAll_append (J K : List Nat) :
    unlinkAll (J ++ K) d = unlinkAll K (unlinkAll J d) := List.foldl_append

theorem relinkAll_append (J K : List Nat) :
    relinkAll (J ++ K) d = relinkAll K (relinkAll J d) := List.foldl_append

/-- What unlinking leaves alone. -/
structure Same (d d' : Dance) : Prop where
  root : d'.root = d.root
  inout : d'.inout = d.inout
  stack : d'.stack = d.stack
  col : d'.col = d.col
  name : d'.name = d.name

theorem Same.refl (d : Dance) : Same d d := ⟨rfl, rfl, rfl, rfl, rfl⟩

theorem Same.trans {d d' d'' : Dance} (h : Same d d') (h' : Same d' d'') : Same d d'' :=
  ⟨h'.root.trans h.root, h'.inout.trans h.inout, h'.stack.trans h.stack, h'.col.trans h.col,
    h'.name.trans h.name⟩

theorem unlinkAll_same (J : List Nat) (d : Dance) :
    Same d (unlinkAll J d) ∧ (unlinkAll J d).left = d.left ∧ (unlinkAll J d).right = d.right := by
  induction J generalizing d with
  | nil => exact ⟨Same.refl d, rfl, rfl⟩
  | cons j J ih =>
    obtain ⟨hsame, hleft, hright⟩ := ih (Dance.unlink j d)
    have hfirst : Same d (Dance.unlink j d) := ⟨rfl, rfl, rfl, rfl, rfl⟩
    exact ⟨hfirst.trans hsame, hleft, hright⟩

/-- Nodes that are unlinked one after the other leave the lists of their columns, and putting them
back in the opposite order brings back the state before. -/
theorem Links.unlinkAll (h : d.Links m L) (J : List Nat) (hnodup : J.Nodup)
    (hmem : ∀ j ∈ J, d.col j ∈ m.cols ∧ j ∈ L (d.col j)) :
    (unlinkAll J d).Links m (fun c => (L c).filter (· ∉ J)) ∧
      relinkAll J.reverse (Dance.unlinkAll J d) = d := by
  induction J generalizing d L with
  | nil =>
    refine ⟨?_, rfl⟩
    have hsame : (fun c => (L c).filter (· ∉ ([] : List Nat))) = L := by
      funext c
      simp
    rw [hsame]
    exact h
  | cons j J ih =>
    obtain ⟨hjJ, hJ⟩ := List.nodup_cons.mp hnodup
    obtain ⟨hc, hj⟩ := hmem j List.mem_cons_self
    have hunlinked := h.unlink hc hj
    have hrest : ∀ k ∈ J, (Dance.unlink j d).col k ∈ m.cols ∧
        k ∈ (L ((Dance.unlink j d).col k)).filter (· ≠ j) := by
      intro k hk
      obtain ⟨hck, hkL⟩ := hmem k (List.mem_cons_of_mem _ hk)
      refine ⟨hck, List.mem_filter.mpr ⟨hkL, ?_⟩⟩
      have hkj : k ≠ j := by
        rintro rfl
        exact hjJ hk
      simpa using hkj
    obtain ⟨hlinks, hback⟩ := ih hunlinked hJ hrest
    constructor
    · have hsame : (fun c => (L c).filter (· ∉ j :: J)) =
          fun c => ((L c).filter (· ≠ j)).filter (· ∉ J) := by
        funext c
        rw [List.filter_filter]
        apply List.filter_congr
        intro x _
        simp [not_or, Bool.and_comm]
      rw [hsame]
      exact hlinks
    · have hwell := (h.colRing _ hc).wellLinked hj
      rw [List.reverse_cons, relinkAll_append]
      show Dance.relink j (relinkAll J.reverse (Dance.unlinkAll J (Dance.unlink j d))) = d
      rw [hback]
      exact relink_unlink hwell.2 hwell.1

end Unlink

/-! ## What the search sees -/

/-- The columns `A` in the header list, and the rows `R` in their lists. -/
structure Active (d : Dance) (m : Matrix) (A : List Nat) (R : List (List Nat)) (L : Nat → List Nat) :
    Prop where
  header : Ring d.right d.left d.root A
  cols : ∀ c ∈ A, c ∈ m.cols
  nodup : A.Nodup
  rows : R.Sublist m.rows
  closed : ∀ r ∈ R, ∀ x ∈ r, d.col x ∈ A
  lists : ∀ c ∈ A, L c = R.flatten.filter (fun x => d.col x = c)

section Cover

variable {m : Matrix} {L : Nat → List Nat} {d : Dance} {A : List Nat} {R : List (List Nat)} {c : Nat}

/-- The nodes that `cover` unlinks. -/
def dropped (m : Matrix) (l : List Nat) : List Nat := l.flatMap m.rest

theorem Active.row_of_mem (h : d.Links m L) (ha : d.Active m A R L) (hc : c ∈ A) {x : Nat}
    (hx : x ∈ L c) : m.rowOf x ∈ R ∧ x ∈ m.rowOf x ∧ d.col x = c := by
  rw [ha.lists c hc] at hx
  obtain ⟨hin, hcol⟩ := List.mem_filter.mp hx
  obtain ⟨r, hr, hxr⟩ := List.mem_flatten.mp hin
  rw [Matrix.rowOf_eq h.nodes_nodup (ha.rows.subset hr) hxr]
  exact ⟨hr, hxr, by simpa using hcol⟩

/-- A node of an active row is in the list of its column. -/
theorem Active.mem_list (ha : d.Active m A R L) {r : List Nat} (hr : r ∈ R) {x : Nat} (hx : x ∈ r) :
    d.col x ∈ A ∧ x ∈ L (d.col x) := by
  have hcol := ha.closed r hr x hx
  rw [ha.lists _ hcol]
  exact ⟨hcol, List.mem_filter.mpr ⟨List.mem_flatten.mpr ⟨r, hr, hx⟩, by simp⟩⟩

/-- Two nodes of one row are in different columns. -/
theorem Links.col_injective (h : d.Links m L) {r : List Nat} (hr : r ∈ m.rows) {x y : Nat}
    (hx : x ∈ r) (hy : y ∈ r) (hxy : d.col x = d.col y) : x = y :=
  List.inj_on_of_nodup_map (h.rowCols r hr) hx hy hxy

theorem mem_dropped (h : d.Links m L) (ha : d.Active m A R L) (hc : c ∈ A) {l : List Nat}
    (hl : ∀ x ∈ l, x ∈ L c) {j : Nat} (hj : j ∈ dropped m l) :
    d.col j ∈ A ∧ j ∈ L (d.col j) ∧ d.col j ≠ c := by
  obtain ⟨x, hx, hjx⟩ := List.mem_flatMap.mp hj
  obtain ⟨hrow, hxrow, hcol⟩ := ha.row_of_mem h hc (hl x hx)
  have hnode := (h.members c (ha.cols c hc) x (hl x hx)).1
  obtain ⟨hjrow, hne⟩ := (Matrix.mem_rest h.nodes_nodup hnode).mp hjx
  obtain ⟨hjA, hjL⟩ := ha.mem_list hrow hjrow
  refine ⟨hjA, hjL, ?_⟩
  rintro rfl
  exact hne (h.col_injective (ha.rows.subset hrow) hjrow hxrow hcol.symm)

theorem dropped_nodup (h : d.Links m L) (ha : d.Active m A R L) (hc : c ∈ A) {l : List Nat}
    (hl : ∀ x ∈ l, x ∈ L c) (hnodup : l.Nodup) : (dropped m l).Nodup := by
  rw [dropped, List.nodup_flatMap]
  constructor
  · intro x hx
    exact Matrix.rest_nodup h.nodes_nodup (h.members c (ha.cols c hc) x (hl x hx)).1
  · -- Different nodes of one column are in different rows.
    apply hnodup.imp_of_mem
    intro x y hx hy hne j hjx hjy
    have hx' := (h.members c (ha.cols c hc) x (hl x hx)).1
    have hy' := (h.members c (ha.cols c hc) y (hl y hy)).1
    obtain ⟨hrx, hxr, hcx⟩ := ha.row_of_mem h hc (hl x hx)
    obtain ⟨hry, hyr, hcy⟩ := ha.row_of_mem h hc (hl y hy)
    have hjrx := ((Matrix.mem_rest h.nodes_nodup hx').mp hjx).1
    have hjry := ((Matrix.mem_rest h.nodes_nodup hy').mp hjy).1
    have hsame : m.rowOf x = m.rowOf y :=
      (Matrix.rowOf_eq h.nodes_nodup (ha.rows.subset hrx) hjrx).symm.trans
        (Matrix.rowOf_eq h.nodes_nodup (ha.rows.subset hry) hjry)
    rw [hsame] at hxr
    exact hne (h.col_injective (ha.rows.subset hry) hxr hyr (hcx.trans hcy.symm))

/-! ## The header list -/

@[simp] theorem unlinkColumn_left :
    (unlinkColumn c d).left = update d.left (d.right c) (d.left c) := rfl

@[simp] theorem unlinkColumn_right :
    (unlinkColumn c d).right = update d.right (d.left c) (d.right c) := by
  show update d.right (update d.left (d.right c) (d.left c) c) (d.right c) = _
  rw [unlinked_self]

theorem relinkColumn_unlinkColumn (hleft : d.left (d.right c) = c) (hright : d.right (d.left c) = c) :
    relinkColumn c (unlinkColumn c d) = d := by
  have hright' : (unlinkColumn c d).right c = d.right c := by rw [unlinkColumn_right, unlinked_self]
  have hleft' : (relinkColumn c (unlinkColumn c d)).left = d.left := by
    show update (unlinkColumn c d).left ((unlinkColumn c d).right c) c = d.left
    rw [hright', unlinkColumn_left, relinked_prev hleft]
  have hright'' : (relinkColumn c (unlinkColumn c d)).right = d.right := by
    show update (unlinkColumn c d).right ((relinkColumn c (unlinkColumn c d)).left c) c = d.right
    rw [hleft', unlinkColumn_right, relinked_next hright]
  calc relinkColumn c (unlinkColumn c d)
      = { d with
          left := (relinkColumn c (unlinkColumn c d)).left
          right := (relinkColumn c (unlinkColumn c d)).right } := rfl
    _ = d := by rw [hleft', hright'']

theorem Active.header_nodup (h : d.Links m L) (ha : d.Active m A R L) : (d.root :: A).Nodup := by
  refine List.nodup_cons.mpr ⟨?_, ha.nodup⟩
  intro hin
  exact (List.nodup_cons.mp h.nodup).1 (List.mem_append_left _ (ha.cols _ hin))

/-- The header list is not linked to the nodes of the rows. -/
theorem Links.header_notMem (h : d.Links m L) (ha : d.Active m A R L) {x : Nat}
    (hx : x ∈ d.root :: A) : x ∉ m.nodes := by
  intro hin
  rcases List.mem_cons.mp hx with rfl | hx
  · exact (List.nodup_cons.mp h.nodup).1 (List.mem_append_right _ hin)
  · exact h.col_notMem (ha.cols x hx) hin

theorem Links.unlinkColumn (h : d.Links m L) (ha : d.Active m A R L) (hc : c ∈ A) :
    (unlinkColumn c d).Links m L := by
  obtain ⟨hright, hleft⟩ := ha.header.neighbours hc
  refine ⟨h.nodup, h.colSelf, h.colNode, h.rowCols, ?_, h.colRing, h.members, h.distinct, h.size⟩
  intro r hr l₁ x l₂ hsplit
  have hnode : ∀ y ∈ x :: (l₂ ++ l₁), y ∈ m.nodes := by
    intro y hy
    refine List.mem_flatten.mpr ⟨r, hr, ?_⟩
    rw [hsplit]
    simp only [List.mem_cons, List.mem_append] at hy ⊢
    tauto
  apply (h.rowRing r hr l₁ x l₂ hsplit).frame
  · intro y hy
    rw [unlinkColumn_right]
    apply Function.update_of_ne
    rintro rfl
    exact h.header_notMem ha hleft (hnode _ hy)
  · intro y hy
    rw [unlinkColumn_left]
    apply Function.update_of_ne
    rintro rfl
    exact h.header_notMem ha hright (hnode _ hy)

theorem unlinkColumn_header (h : d.Links m L) (ha : d.Active m A R L) (hc : c ∈ A) :
    Ring (unlinkColumn c d).right (unlinkColumn c d).left d.root (without A [c]) := by
  obtain ⟨l₁, l₂, rfl⟩ := List.append_of_mem hc
  have hwithout : without (l₁ ++ c :: l₂) [c] = l₁ ++ l₂ := by
    have hfilter := filter_ne_of_split ha.nodup
    simpa [without] using hfilter
  rw [hwithout, unlinkColumn_left, unlinkColumn_right]
  exact ha.header.unlink (ha.header_nodup h)

/-! ## The loops -/

/-- Every list of the matrix is shorter than this. -/
def Matrix.bound (m : Matrix) : Nat := m.cols.length + m.nodes.length

theorem length_le_bound {l : List Nat} (hnodup : l.Nodup) (hsub : ∀ x ∈ l, x ∈ m.nodes) :
    l.length ≤ Matrix.bound m :=
  (List.Nodup.length_le_of_subset hnodup hsub).trans (Nat.le_add_left _ _)

theorem rest_length (h : d.Links m L) {x : Nat} (hx : x ∈ m.nodes) :
    (m.rest x).length ≤ Matrix.bound m := by
  apply length_le_bound (Matrix.rest_nodup h.nodes_nodup hx)
  intro y hy
  exact List.mem_flatten.mpr ⟨_, (Matrix.rowOf_spec hx).1, ((Matrix.mem_rest h.nodes_nodup hx).mp hy).1⟩

theorem rest_ring (h : d.Links m L) {x : Nat} (hx : x ∈ m.nodes) :
    Ring d.right d.left x (m.rest x) := by
  obtain ⟨l₁, l₂, hrow, hrest⟩ := Matrix.rest_spec hx
  rw [hrest]
  exact h.rowRing _ (Matrix.rowOf_spec hx).1 l₁ x l₂ hrow

theorem notMem_rest (h : d.Links m L) {x : Nat} (hx : x ∈ m.nodes) : x ∉ m.rest x := fun hin =>
  ((Matrix.mem_rest h.nodes_nodup hx).mp hin).2 rfl

/-- The loop of `cover` over a row. -/
theorem unlinkRow (h : d.Links m L) {x fuel : Nat} (hx : x ∈ m.nodes)
    (hfuel : Matrix.bound m < fuel) :
    forNodes (fun d => d.right) x (fun j d => some (unlink j d)) fuel (d.right x) d =
      some (unlinkAll (m.rest x) d) :=
  forNodes_foldl (f := unlink) (fun _ _ => rfl) (rest_ring h hx) (notMem_rest h hx)
    (Nat.lt_of_le_of_lt (rest_length h hx) hfuel)

/-- The loop of `uncover` over a row. -/
theorem relinkRow (h : d.Links m L) {x fuel : Nat} (hx : x ∈ m.nodes)
    (hfuel : Matrix.bound m < fuel) :
    forNodes (fun d => d.left) x (fun j d => some (relink j d)) fuel (d.left x) d =
      some (relinkAll (m.rest x).reverse d) := by
  apply forNodes_foldl (f := relink) (fun _ _ => rfl) (rest_ring h hx).reverse
  · rw [List.mem_reverse]
    exact notMem_rest h hx
  · rw [List.length_reverse]
    exact Nat.lt_of_le_of_lt (rest_length h hx) hfuel

/-- The state of `cover` and `uncover` when the rows of the nodes `l` are unlinked. -/
theorem Links.partly (h : d.Links m L) (ha : d.Active m A R L) (hc : c ∈ A) {l : List Nat}
    (hl : ∀ x ∈ l, x ∈ L c) (hnodup : l.Nodup) :
    (Dance.unlinkAll (dropped m l) (Dance.unlinkColumn c d)).Links m
      (fun e => (L e).filter (· ∉ dropped m l)) :=
  ((h.unlinkColumn ha hc).unlinkAll _ (dropped_nodup h ha hc hl hnodup) fun _ hj =>
    ⟨ha.cols _ (mem_dropped h ha hc hl hj).1, (mem_dropped h ha hc hl hj).2.1⟩).1

/-- The list of the column itself does not change. -/
theorem filter_dropped_self (h : d.Links m L) (ha : d.Active m A R L) (hc : c ∈ A) {l : List Nat}
    (hl : ∀ x ∈ l, x ∈ L c) : (L c).filter (· ∉ dropped m l) = L c := by
  apply List.filter_eq_self.mpr
  intro x hx
  have hnot : x ∉ dropped m l := fun hin =>
    (mem_dropped h ha hc hl hin).2.2 (h.members c (ha.cols c hc) x hx).2
  simpa using hnot

theorem dropped_concat (l : List Nat) (x : Nat) : dropped m (l ++ [x]) = dropped m l ++ m.rest x := by
  rw [dropped, List.flatMap_append, List.flatMap_singleton]
  rfl

/-- `cover` unlinks the header and the rest of every row of the column. -/
theorem cover_eq (h : d.Links m L) (ha : d.Active m A R L) (hc : c ∈ A) {fuel : Nat}
    (hfuel : Matrix.bound m < fuel) :
    cover fuel c d = some (unlinkAll (dropped m (L c)) (unlinkColumn c d)) := by
  have hcm := ha.cols c hc
  have hstop : c ∉ L c := (List.nodup_cons.mp (h.ring_nodup hcm)).1
  have hlen : (L c).length < fuel := by
    apply Nat.lt_of_le_of_lt _ hfuel
    exact length_le_bound (h.distinct c hcm) fun x hx => (h.members c hcm x hx).1
  -- The rows of the nodes `done` are unlinked, those of `todo` are still to come.
  have hstep : ∀ y todo s, y ∈ L c →
      (∃ done, L c = done ++ y :: todo ∧ s = unlinkAll (dropped m done) (unlinkColumn c d)) →
      ∃ s', forNodes (fun d => d.right) y (fun j d => some (unlink j d)) fuel (s.right y) s = some s' ∧
        (∃ done, L c = done ++ todo ∧ s' = unlinkAll (dropped m done) (unlinkColumn c d)) ∧
        (todo ++ [c]).head? = some (s'.down y) := by
    rintro y todo s hy ⟨done, hsplit, rfl⟩
    have hnodup := h.distinct c hcm
    rw [hsplit] at hnodup
    have hdone : ∀ x ∈ done, x ∈ L c := by
      intro x hx
      rw [hsplit]
      exact List.mem_append_left _ hx
    have hsplit' : L c = (done ++ [y]) ++ todo := by rw [hsplit, List.append_assoc]; rfl
    have hdone' : ∀ x ∈ done ++ [y], x ∈ L c := by
      intro x hx
      rw [hsplit']
      exact List.mem_append_left _ hx
    have hnodup' : (done ++ [y]).Nodup := by
      have hall := h.distinct c hcm
      rw [hsplit'] at hall
      exact (List.nodup_append.mp hall).1
    have hlinks := h.partly ha hc hdone (List.nodup_append.mp hnodup).1
    have hlinks' := h.partly ha hc hdone' hnodup'
    refine ⟨_, unlinkRow hlinks (h.members c hcm y hy).1 hfuel, ⟨done ++ [y], hsplit', ?_⟩, ?_⟩
    · rw [dropped_concat, unlinkAll_append]
    · have hring := hlinks'.colRing c hcm
      simp only [filter_dropped_self h ha hc hdone'] at hring
      rw [hsplit, dropped_concat, unlinkAll_append] at hring
      exact hring.next_of_split
  have hbegin : ∃ done, L c = done ++ L c ∧
      unlinkColumn c d = unlinkAll (dropped m done) (unlinkColumn c d) := ⟨[], rfl, rfl⟩
  obtain ⟨s', hrun, done, hdone, rfl⟩ := forNodes_run (fun d => d.down) _
    (fun todo s => ∃ done, L c = done ++ todo ∧ s = unlinkAll (dropped m done) (unlinkColumn c d))
    hstop hlen hbegin (h.colRing c hcm).next_head hstep
  rw [List.append_nil] at hdone
  rw [hdone]
  exact hrun

/-- Relinking the row that was unlinked last. -/
theorem relink_dropped (h : d.Links m L) (ha : d.Active m A R L) (hc : c ∈ A) {done : List Nat}
    {y : Nat} (hmem : ∀ x ∈ done ++ [y], x ∈ L c) (hnodup : (done ++ [y]).Nodup) :
    relinkAll (m.rest y).reverse (unlinkAll (dropped m (done ++ [y])) (unlinkColumn c d)) =
      unlinkAll (dropped m done) (unlinkColumn c d) := by
  have hmem' : ∀ x ∈ done, x ∈ L c := fun x hx => hmem x (List.mem_append_left _ hx)
  have hy : y ∈ L c := hmem y (List.mem_append_right _ (List.mem_singleton.mpr rfl))
  have hnode := (h.members c (ha.cols c hc) y hy).1
  have hlinks := h.partly ha hc hmem' (List.nodup_append.mp hnodup).1
  rw [dropped_concat, unlinkAll_append]
  have hsame := (unlinkAll_same (dropped m done) (unlinkColumn c d)).1
  refine (hlinks.unlinkAll (m.rest y) (Matrix.rest_nodup h.nodes_nodup hnode) ?_).2
  intro j hj
  -- the other nodes of the row are in columns that still have them
  have hdropped : j ∈ dropped m (done ++ [y]) := by
    rw [dropped_concat]
    exact List.mem_append_right _ hj
  obtain ⟨hjA, hjL, -⟩ := mem_dropped h ha hc hmem hdropped
  have hdisj := dropped_nodup h ha hc hmem hnodup
  rw [dropped_concat] at hdisj
  have hcol : (unlinkAll (dropped m done) (unlinkColumn c d)).col j = d.col j := by
    rw [hsame.col]
    rfl
  rw [hcol]
  refine ⟨ha.cols _ hjA, List.mem_filter.mpr ⟨hjL, ?_⟩⟩
  have hnot : j ∉ dropped m done := fun hin => (List.nodup_append.mp hdisj).2.2 j hin j hj rfl
  simpa using hnot

/-- `uncover` brings back the state before `cover`. -/
theorem uncover_eq (h : d.Links m L) (ha : d.Active m A R L) (hc : c ∈ A) {fuel : Nat}
    (hfuel : Matrix.bound m < fuel) :
    uncover fuel c (unlinkAll (dropped m (L c)) (unlinkColumn c d)) = some d := by
  have hcm := ha.cols c hc
  have hstop : c ∉ (L c).reverse := by
    rw [List.mem_reverse]
    exact (List.nodup_cons.mp (h.ring_nodup hcm)).1
  have hlen : (L c).reverse.length < fuel := by
    rw [List.length_reverse]
    apply Nat.lt_of_le_of_lt _ hfuel
    exact length_le_bound (h.distinct c hcm) fun x hx => (h.members c hcm x hx).1
  -- The rows of the nodes `l` are still unlinked.
  have hstep : ∀ y todo s, y ∈ (L c).reverse →
      (∃ l l', L c = l ++ l' ∧ y :: todo = l.reverse ∧
        s = unlinkAll (dropped m l) (unlinkColumn c d)) →
      ∃ s', forNodes (fun d => d.left) y (fun j d => some (relink j d)) fuel (s.left y) s = some s' ∧
        (∃ l l', L c = l ++ l' ∧ todo = l.reverse ∧
          s' = unlinkAll (dropped m l) (unlinkColumn c d)) ∧
        (todo ++ [c]).head? = some (s'.up y) := by
    rintro y todo s hy ⟨l, l', hsplit, hrev, rfl⟩
    obtain rfl : l = todo.reverse ++ [y] := by
      rw [← List.reverse_reverse l, ← hrev, List.reverse_cons]
    have hall := h.distinct c hcm
    rw [hsplit] at hall
    have hnodup := (List.nodup_append.mp hall).1
    have hmem : ∀ x ∈ todo.reverse ++ [y], x ∈ L c := by
      intro x hx
      rw [hsplit]
      exact List.mem_append_left _ hx
    have hmem' : ∀ x ∈ todo.reverse, x ∈ L c := fun x hx => hmem x (List.mem_append_left _ hx)
    have hnode := (h.members c hcm y (List.mem_reverse.mp hy)).1
    have hlinks := h.partly ha hc hmem hnodup
    have hlinks' := h.partly ha hc hmem' (List.nodup_append.mp hnodup).1
    have hback := relink_dropped h ha hc hmem hnodup
    refine ⟨_, ?_, ⟨todo.reverse, y :: l', ?_, (List.reverse_reverse todo).symm, rfl⟩, ?_⟩
    · rw [relinkRow hlinks hnode hfuel, hback]
    · rw [hsplit, List.append_assoc]
      rfl
    · have hring := (hlinks'.colRing c hcm).reverse
      simp only [filter_dropped_self h ha hc hmem'] at hring
      rw [hsplit, List.reverse_append, List.reverse_append, List.reverse_reverse,
        List.reverse_singleton, List.singleton_append] at hring
      exact hring.next_of_split
  have hbegin : ∃ l l', L c = l ++ l' ∧ (L c).reverse = l.reverse ∧
      unlinkAll (dropped m (L c)) (unlinkColumn c d) =
        unlinkAll (dropped m l) (unlinkColumn c d) := ⟨L c, [], by simp, rfl, rfl⟩
  have hring := ((h.partly ha hc (fun _ hx => hx) (h.distinct c hcm)).colRing c hcm).reverse
  simp only [filter_dropped_self h ha hc (fun _ hx => hx)] at hring
  obtain ⟨s', hrun, l, l', -, hl, rfl⟩ := forNodes_run (fun d => d.up) _
    (fun todo s => ∃ l l', L c = l ++ l' ∧ todo = l.reverse ∧
      s = unlinkAll (dropped m l) (unlinkColumn c d))
    hstop hlen hbegin hring.next_head hstep
  have hnil : l = [] := List.reverse_eq_nil_iff.mp hl.symm
  subst hnil
  obtain ⟨hright, hleft⟩ := ha.header.wellLinked hc
  rw [uncover, hrun]
  show some (relinkColumn c (unlinkColumn c d)) = some d
  rw [relinkColumn_unlinkColumn hleft hright]

/-! ## What is left -/

/-- The columns of a row. -/
def colsOf (d : Dance) (r : List Nat) : List Nat := r.map d.col

/-- Nodes are dropped by whole rows. -/
theorem filter_rows {R : List (List Nat)} {p : Nat → Bool} {J : List Nat} {q : List Nat → Bool}
    (hrow : ∀ r ∈ R, ∀ y ∈ r, p y = true → (y ∉ J ↔ q r = true)) :
    (R.flatten.filter p).filter (· ∉ J) = (R.filter q).flatten.filter p := by
  induction R with
  | nil => rfl
  | cons r R ih =>
    have hrest := ih fun r' hr' => hrow r' (List.mem_cons_of_mem _ hr')
    have hfirst := hrow r List.mem_cons_self
    rw [List.flatten_cons, List.filter_append, List.filter_append, hrest]
    by_cases hq : q r = true
    · rw [List.filter_cons_of_pos hq, List.flatten_cons, List.filter_append,
        List.filter_eq_self.mpr]
      intro y hy
      obtain ⟨hyr, hp⟩ := List.mem_filter.mp hy
      simpa using (hfirst y hyr hp).mpr hq
    · rw [List.filter_cons_of_neg hq, List.filter_eq_nil_iff.mpr, List.nil_append]
      intro y hy
      obtain ⟨hyr, hp⟩ := List.mem_filter.mp hy
      have hin := (hfirst y hyr hp).not.mpr hq
      simpa using hin

/-- A node of another column is dropped with its row, when the row has the column `c`. -/
theorem mem_dropped_iff (h : d.Links m L) (ha : d.Active m A R L) (hc : c ∈ A) {r : List Nat}
    (hr : r ∈ R) {y : Nat} (hy : y ∈ r) (hyc : d.col y ≠ c) :
    y ∈ dropped m (L c) ↔ c ∈ colsOf d r := by
  have hrm := ha.rows.subset hr
  rw [dropped, List.mem_flatMap, colsOf, List.mem_map]
  constructor
  · rintro ⟨x, hx, hyx⟩
    obtain ⟨hrow, hxr, hcol⟩ := ha.row_of_mem h hc hx
    have hnode := (h.members c (ha.cols c hc) x hx).1
    have hyrow := ((Matrix.mem_rest h.nodes_nodup hnode).mp hyx).1
    have hsame : m.rowOf x = r :=
      (Matrix.rowOf_eq h.nodes_nodup (ha.rows.subset hrow) hyrow).symm.trans
        (Matrix.rowOf_eq h.nodes_nodup hrm hy)
    exact ⟨x, hsame ▸ hxr, hcol⟩
  · rintro ⟨x, hxr, rfl⟩
    have hnode : x ∈ m.nodes := List.mem_flatten.mpr ⟨r, hrm, hxr⟩
    refine ⟨x, (ha.mem_list hr hxr).2, (Matrix.mem_rest h.nodes_nodup hnode).mpr ⟨?_, ?_⟩⟩
    · rwa [Matrix.rowOf_eq h.nodes_nodup hrm hxr]
    · rintro rfl
      exact hyc rfl

theorem Active.covered (h : d.Links m L) (ha : d.Active m A R L) (hc : c ∈ A) :
    (unlinkAll (dropped m (L c)) (unlinkColumn c d)).Active m (without A [c])
      (clearOf (colsOf d) R [c]) (fun e => (L e).filter (· ∉ dropped m (L c))) := by
  obtain ⟨hsame, hleft, hright⟩ := unlinkAll_same (dropped m (L c)) (unlinkColumn c d)
  have hcol : (unlinkAll (dropped m (L c)) (unlinkColumn c d)).col = d.col := hsame.col
  constructor
  · rw [hleft, hright, hsame.root]
    exact unlinkColumn_header h ha hc
  · intro e he
    exact ha.cols e (mem_without.mp he).1
  · exact ha.nodup.filter _
  · exact List.filter_sublist.trans ha.rows
  · intro r hr x hx
    obtain ⟨hrR, hrc⟩ := mem_clearOf.mp hr
    rw [hcol]
    refine mem_without.mpr ⟨ha.closed r hrR x hx, ?_⟩
    intro hin
    rw [List.mem_singleton] at hin
    exact hrc c (List.mem_singleton.mpr rfl) (hin ▸ List.mem_map_of_mem hx)
  · intro e he
    obtain ⟨heA, hec⟩ := mem_without.mp he
    rw [List.mem_singleton] at hec
    rw [hcol, ha.lists e heA]
    apply filter_rows
    intro r hr y hy hye
    have hyc : d.col y ≠ c := by
      rw [of_decide_eq_true hye]
      exact hec
    rw [mem_dropped_iff h ha hc hr hy hyc]
    simp

theorem unlinkAll_stack (J : List Nat) (d : Dance) (st : List Nat) :
    unlinkAll J { d with stack := st } = { unlinkAll J d with stack := st } := by
  induction J generalizing d with
  | nil => rfl
  | cons j J ih => exact ih (unlink j d)

/-- `cover` takes a column and its rows out of the matrix, and `uncover` puts them back, whatever is
on the stack. -/
theorem cover_spec (h : d.Links m L) (ha : d.Active m A R L) (hc : c ∈ A) {fuel : Nat}
    (hfuel : Matrix.bound m < fuel) :
    ∃ d' L', (∀ st, cover fuel c { d with stack := st } = some { d' with stack := st }) ∧
      (∀ st, uncover fuel c { d' with stack := st } = some { d with stack := st }) ∧
      d'.Links m L' ∧ d'.Active m (without A [c]) (clearOf (colsOf d) R [c]) L' ∧
      L' c = L c ∧ Same d d' := by
  have hstack : ∀ st, unlinkAll (dropped m (L c)) (unlinkColumn c { d with stack := st }) =
      { unlinkAll (dropped m (L c)) (unlinkColumn c d) with stack := st } := fun st =>
    unlinkAll_stack _ (unlinkColumn c d) st
  have hlinks : ∀ st, ({ d with stack := st } : Dance).Links m L := fun _ =>
    ⟨h.nodup, h.colSelf, h.colNode, h.rowCols, h.rowRing, h.colRing, h.members, h.distinct, h.size⟩
  have hactive : ∀ st, ({ d with stack := st } : Dance).Active m A R L := fun _ =>
    ⟨ha.header, ha.cols, ha.nodup, ha.rows, ha.closed, ha.lists⟩
  have hsame := (unlinkAll_same (dropped m (L c)) (unlinkColumn c d)).1
  refine ⟨_, _, ?_, ?_, h.partly ha hc (fun _ hx => hx) (h.distinct c (ha.cols c hc)),
    ha.covered h hc, filter_dropped_self h ha hc fun _ hx => hx, ?_⟩
  · intro st
    rw [cover_eq (hlinks st) (hactive st) hc hfuel, hstack]
  · intro st
    rw [← hstack]
    exact uncover_eq (hlinks st) (hactive st) hc hfuel
  · have hfirst : Same d (unlinkColumn c d) := ⟨rfl, rfl, rfl, rfl, rfl⟩
    exact hfirst.trans hsame

end Cover

end Dance

end CloudLabs.Sudoku
