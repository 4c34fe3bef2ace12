import CloudLabs.Foundation.Bytes

/-!
# Relative paths

A directory is the list of the names that lead to it from the root, and a path is followed from it
one component at a time: an empty component and `.` stay, `..` goes up, and a name goes down. Links
to other places are not followed, and `..` above the root stays there.

`Inside` says that no prefix of the components leaves the directory. `inside_iff` turns it into a
count: wherever one stops, no more components have gone up than down.
-/

set_option autoImplicit false

namespace CloudLabs.Foundation

/-- The components of a path, empty ones included. -/
def components (path : Bytes) : List Bytes := path.splitOn 47

/-- One component, followed from a directory. -/
def enter (dir : List Bytes) (name : Bytes) : List Bytes :=
  if name = [] ∨ name = ascii "." then dir
  else if name = ascii ".." then dir.dropLast
  else dir ++ [name]

def walk (dir names : List Bytes) : List Bytes := names.foldl enter dir

/-- No prefix of the components leads out of the directory. -/
def Inside (dir names : List Bytes) : Prop := ∀ stop, stop <+: names → dir <+: walk dir stop

/-- The components that go down. -/
def isName (name : Bytes) : Bool := name ≠ [] ∧ name ≠ ascii "." ∧ name ≠ ascii ".."

/-- From `depth` levels down, the components never go up further than that. -/
def Level (depth : Nat) (names : List Bytes) : Prop :=
  ∀ stop, stop <+: names → stop.count (ascii "..") ≤ depth + stop.countP isName

section Path

variable {dir down names : List Bytes} {name : Bytes} {depth : Nat}

instance (depth : Nat) (names : List Bytes) : Decidable (Level depth names) :=
  decidable_of_iff (∀ stop ∈ names.inits, stop.count (ascii "..") ≤ depth + stop.countP isName) (by
    simp only [List.mem_inits, Level])

/-! ## Components -/

theorem components_cons_of_ne {b : UInt8} (hb : b ≠ 47) (path : Bytes) :
    components (b :: path) = (components path).modifyHead (b :: ·) := by
  rw [components, List.splitOn_cons_eq_if_modifyHead, if_neg (by simpa using hb)]
  rfl

/-- The bytes of a component are bytes of the path. -/
theorem sublist_of_mem_components {path : Bytes} (h : name ∈ components path) : name.Sublist path := by
  induction path generalizing name with
  | nil =>
    have h : name ∈ [[]] := h
    rw [List.mem_singleton.mp h]
  | cons b path ih =>
    by_cases hb : b = 47
    · subst hb
      have hcons : components (47 :: path) = [] :: components path := by
        rw [components, List.splitOn_cons_eq_if_modifyHead, if_pos (by decide)]
        rfl
      rw [hcons] at h
      rcases List.mem_cons.mp h with rfl | h
      · exact List.nil_sublist _
      · exact (ih h).cons _
    · rw [components_cons_of_ne hb] at h
      cases hpath : components path with
      | nil =>
        rw [hpath] at h
        cases h
      | cons first rest =>
        rw [hpath] at h ih
        rcases List.mem_cons.mp h with rfl | h
        · exact (ih List.mem_cons_self).cons_cons b
        · exact (ih (List.mem_cons_of_mem _ h)).cons b

theorem components_append_slash (a b : Bytes) :
    components (a ++ 47 :: b) = components a ++ components b :=
  List.splitOnP_append_cons a b rfl

/-- A path with at most one dot has no component `..`. -/
theorem up_notMem_components {path : Bytes} (h : path.count 46 ≤ 1) :
    ascii ".." ∉ components path := by
  intro hin
  have hle := (sublist_of_mem_components hin).count_le 46
  have htwo : (ascii "..").count 46 = 2 := by decide
  omega

/-! ## Following a path -/

theorem enter_name (h : isName name = true) : enter dir name = dir ++ [name] := by
  obtain ⟨hne, hdot, hup⟩ : name ≠ [] ∧ name ≠ ascii "." ∧ name ≠ ascii ".." := by
    simpa [isName] using h
  rw [enter, if_neg (not_or.mpr ⟨hne, hdot⟩), if_neg hup]

theorem enter_up : enter dir (ascii "..") = dir.dropLast := rfl

theorem enter_stay (h : name = [] ∨ name = ascii ".") : enter dir name = dir := if_pos h

/-- What a component can be. -/
theorem component_cases (name : Bytes) :
    isName name = true ∨ name = ascii ".." ∨ (name = [] ∨ name = ascii ".") := by
  by_cases hstay : name = [] ∨ name = ascii "."
  · exact .inr (.inr hstay)
  · by_cases hup : name = ascii ".."
    · exact .inr (.inl hup)
    · obtain ⟨hne, hdot⟩ := not_or.mp hstay
      exact .inl (by simp [isName, hne, hdot, hup])

/-- The prefixes of a path that has a first component. -/
theorem forall_prefix_cons {P : List Bytes → Prop} :
    (∀ stop, stop <+: name :: names → P stop) ↔
      P [] ∧ ∀ stop, stop <+: names → P (name :: stop) := by
  constructor
  · intro h
    exact ⟨h [] List.nil_prefix, fun stop hstop => h _ (List.cons_prefix_cons.mpr ⟨rfl, hstop⟩)⟩
  · rintro ⟨hnil, hcons⟩ stop hstop
    rcases List.prefix_cons_iff.mp hstop with rfl | ⟨rest, rfl, hrest⟩
    · exact hnil
    · exact hcons rest hrest

theorem level_name (h : isName name = true) : Level depth (name :: names) ↔ Level (depth + 1) names := by
  have hup : name ≠ ascii ".." := by
    rintro rfl
    cases h
  rw [Level, forall_prefix_cons]
  constructor
  · rintro ⟨-, hrest⟩ stop hstop
    have hle := hrest stop hstop
    rw [List.count_cons_of_ne hup, List.countP_cons_of_pos h] at hle
    omega
  · intro hrest
    refine ⟨Nat.zero_le _, ?_⟩
    intro stop hstop
    have hle := hrest stop hstop
    rw [List.count_cons_of_ne hup, List.countP_cons_of_pos h]
    omega

theorem level_stay (h : name = [] ∨ name = ascii ".") :
    Level depth (name :: names) ↔ Level depth names := by
  have hup : name ≠ ascii ".." := by
    rcases h with rfl | rfl <;> decide
  have hname : ¬ isName name = true := by
    rcases h with rfl | rfl <;> decide
  rw [Level, forall_prefix_cons]
  constructor
  · rintro ⟨-, hrest⟩ stop hstop
    have hle := hrest stop hstop
    rwa [List.count_cons_of_ne hup, List.countP_cons_of_neg hname] at hle
  · intro hrest
    refine ⟨Nat.zero_le _, ?_⟩
    intro stop hstop
    rw [List.count_cons_of_ne hup, List.countP_cons_of_neg hname]
    exact hrest stop hstop

theorem level_up : Level (depth + 1) (ascii ".." :: names) ↔ Level depth names := by
  have hname : ¬ isName (ascii "..") = true := by decide
  rw [Level, forall_prefix_cons]
  constructor
  · rintro ⟨-, hrest⟩ stop hstop
    have hle := hrest stop hstop
    rw [List.count_cons_self, List.countP_cons_of_neg hname] at hle
    omega
  · intro hrest
    refine ⟨Nat.zero_le _, ?_⟩
    intro stop hstop
    have hle := hrest stop hstop
    rw [List.count_cons_self, List.countP_cons_of_neg hname]
    omega

theorem not_level_up : ¬ Level 0 (ascii ".." :: names) := by
  intro h
  have hle := h [ascii ".."] (List.cons_prefix_cons.mpr ⟨rfl, List.nil_prefix⟩)
  exact absurd hle (by decide)

/-- Components without `..` stay level. -/
theorem level_of_notMem (h : ascii ".." ∉ names) : Level depth names := by
  intro stop hstop
  rw [List.count_eq_zero_of_not_mem fun hin => h (hstop.subset hin)]
  exact Nat.zero_le _

/-- From some levels below the directory, the components stay in it exactly when they never go up
further than these levels. -/
theorem stays_iff (hdir : dir ≠ []) :
    (∀ stop, stop <+: names → dir <+: walk (dir ++ down) stop) ↔ Level down.length names := by
  induction names generalizing down with
  | nil =>
    constructor
    · intro _ stop hstop
      rw [List.prefix_nil.mp hstop]
      exact Nat.zero_le _
    · intro _ stop hstop
      rw [List.prefix_nil.mp hstop]
      exact List.prefix_append dir down
  | cons name names ih =>
    have hsplit : (∀ stop, stop <+: name :: names → dir <+: walk (dir ++ down) stop) ↔
        ∀ stop, stop <+: names → dir <+: walk (enter (dir ++ down) name) stop := by
      rw [forall_prefix_cons]
      exact and_iff_right (List.prefix_append dir down)
    rw [hsplit]
    rcases component_cases name with hname | rfl | hstay
    · rw [enter_name hname, List.append_assoc, ih, level_name hname, List.length_append,
        List.length_singleton]
    · rw [enter_up]
      rcases List.eq_nil_or_concat down with rfl | ⟨down, last, rfl⟩
      · -- The first step up already leaves the directory.
        refine iff_of_false ?_ not_level_up
        intro h
        have hle := (h [] List.nil_prefix).length_le
        have hpos := List.length_pos_iff.mpr hdir
        simp only [walk, List.foldl_nil, List.append_nil, List.length_dropLast] at hle
        omega
      · rw [List.concat_eq_append, ← List.append_assoc, List.dropLast_concat, ih, List.length_append,
          List.length_singleton, level_up]
    · rw [enter_stay hstay, ih, level_stay hstay]

/-- A path stays inside of a directory exactly when it is level. -/
theorem inside_iff (hdir : dir ≠ []) : Inside dir names ↔ Level 0 names := by
  have h : (∀ stop, stop <+: names → dir <+: walk (dir ++ []) stop) ↔ Level 0 names := stays_iff hdir
  rwa [List.append_nil] at h

/-- From the root on, there is nothing above that a path could lead to. -/
theorem inside_all_iff : (∀ dir, Inside dir names) ↔ Level 0 names := by
  constructor
  · intro h
    exact (inside_iff (List.cons_ne_nil [] [])).mp (h [[]])
  · intro h dir
    by_cases hdir : dir = []
    · subst hdir
      exact fun _ _ => List.nil_prefix
    · exact (inside_iff hdir).mpr h

end Path

end CloudLabs.Foundation
