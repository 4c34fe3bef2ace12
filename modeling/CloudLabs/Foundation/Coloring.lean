import Mathlib.Data.List.Basic
import Mathlib.Tactic

/-!
# Colouring the open cells of a graph

Some cells of a graph have a colour and stay as they are; the others are open and are to get a
colour of a palette that no neighbour has. `Filling.cons_iff` is the step of a backtracking search:
an open cell takes some colour that is available, and the rest is filled with the cell coloured.

`tryEach` is the loop of such a search. It takes candidates in order, returns from within at the
first that works, and goes on after the others.
-/

set_option autoImplicit false

namespace CloudLabs.Foundation

open Function (update)

section Filling

variable {ι κ : Type} {nbr : ι → ι → Prop} {palette : κ → Prop} {f g : ι → κ} {S T : List ι}
  {cell : ι}

/-- `g` gives each open cell a colour that none of its neighbours has, and is `f` elsewhere. -/
structure Filling (nbr : ι → ι → Prop) (palette : κ → Prop) (f : ι → κ) (S : List ι)
    (g : ι → κ) : Prop where
  same : ∀ c, c ∉ S → g c = f c
  color : ∀ c ∈ S, palette (g c)
  proper : ∀ c ∈ S, ∀ d, nbr c d → g d ≠ g c

/-- No neighbour of the cell has the colour. -/
def Available (nbr : ι → ι → Prop) (f : ι → κ) (cell : ι) (v : κ) : Prop :=
  ∀ d, nbr cell d → f d ≠ v

/-- The order of the open cells does not matter. -/
theorem Filling.perm (h : Filling nbr palette f S g) (hST : S.Perm T) :
    Filling nbr palette f T g where
  same := fun c hc => h.same c fun hcS => hc (hST.mem_iff.mp hcS)
  color := fun c hc => h.color c (hST.mem_iff.mpr hc)
  proper := fun c hc => h.proper c (hST.mem_iff.mpr hc)

theorem Filling.perm_iff (hST : S.Perm T) :
    Filling nbr palette f S g ↔ Filling nbr palette f T g :=
  ⟨fun h => h.perm hST, fun h => h.perm hST.symm⟩

theorem Filling.nil_iff : Filling nbr palette f [] g ↔ g = f := by
  constructor
  · intro h
    funext c
    exact h.same c List.not_mem_nil
  · rintro rfl
    exact ⟨fun _ _ => rfl, fun c hc => absurd hc List.not_mem_nil,
      fun c hc => absurd hc List.not_mem_nil⟩

/-- The order of the colourings by the first of the cells in which they differ. -/
def LexLe [LT κ] : List ι → (ι → κ) → (ι → κ) → Prop
  | [], _, _ => True
  | c :: S, g, g' => g c < g' c ∨ (g c = g' c ∧ LexLe S g g')

variable [DecidableEq ι]

/-- An open cell takes a colour that is available, and the rest is filled after that. -/
theorem Filling.cons_iff (hsymm : ∀ c d, nbr c d → nbr d c) (hirrefl : ∀ c, ¬ nbr c c)
    (hcell : cell ∉ S) (hopen : ∀ c ∈ S, ¬ palette (f c)) :
    Filling nbr palette f (cell :: S) g ↔
      ∃ v, palette v ∧ Available nbr f cell v ∧ Filling nbr palette (update f cell v) S g := by
  constructor
  · intro h
    have hcolor := h.color cell List.mem_cons_self
    refine ⟨g cell, hcolor, ?_, ?_, fun c hc => h.color c (List.mem_cons_of_mem _ hc),
      fun c hc => h.proper c (List.mem_cons_of_mem _ hc)⟩
    · intro d hd heq
      by_cases hdS : d ∈ S
      · -- An open neighbour has no colour of the palette yet.
        exact hopen d hdS (heq ▸ hcolor)
      · have hne : d ≠ cell := by
          rintro rfl
          exact hirrefl d hd
        have hsame := h.same d (by simp [hne, hdS])
        exact h.proper cell List.mem_cons_self d hd (hsame.trans heq)
    · intro c hc
      by_cases hcc : c = cell
      · rw [hcc, Function.update_self]
      · rw [Function.update_of_ne hcc]
        exact h.same c (by simp [hcc, hc])
  · rintro ⟨v, hv, havail, h⟩
    have hval : g cell = v := by
      rw [h.same cell hcell, Function.update_self]
    refine ⟨?_, ?_, ?_⟩
    · intro c hc
      obtain ⟨hcc, hcS⟩ := not_or.mp fun h => hc (List.mem_cons.mpr h)
      rw [h.same c hcS, Function.update_of_ne hcc]
    · intro c hc
      rcases List.mem_cons.mp hc with rfl | hc
      · rwa [hval]
      · exact h.color c hc
    · intro c hc d hd
      rcases List.mem_cons.mp hc with rfl | hc
      · by_cases hdS : d ∈ S
        · -- The condition of the neighbour, from its side.
          exact (h.proper d hdS c (hsymm c d hd)).symm
        · have hne : d ≠ c := by
            rintro rfl
            exact hirrefl d hd
          rw [h.same d hdS, Function.update_of_ne hne, hval]
          exact havail d hd
      · exact h.proper c hc d hd

end Filling

section Count

variable {ι κ : Type} [DecidableEq ι] [DecidableEq κ] {nbrs : ι → List ι} {colors : List κ}
  {S : List ι} {f g : ι → κ}

/-- All fillings, in the order in which the search comes by them. -/
def fillings (nbrs : ι → List ι) (colors : List κ) : List ι → (ι → κ) → List (ι → κ)
  | [], f => [f]
  | c :: S, f => (colors.filter fun v => (nbrs c).all fun d => f d ≠ v).flatMap fun v =>
      fillings nbrs colors S (update f c v)

theorem mem_fillings (hsymm : ∀ c d, d ∈ nbrs c → c ∈ nbrs d) (hirrefl : ∀ c, c ∉ nbrs c)
    (hnodup : S.Nodup) (hopen : ∀ c ∈ S, f c ∉ colors) : g ∈ fillings nbrs colors S f ↔
      Filling (fun c d => d ∈ nbrs c) (· ∈ colors) f S g := by
  induction S generalizing f with
  | nil => simp [fillings, Filling.nil_iff]
  | cons c S ih =>
    obtain ⟨hc, hnodup⟩ := List.nodup_cons.mp hnodup
    obtain ⟨-, hopen⟩ := List.forall_mem_cons.mp hopen
    rw [fillings, Filling.cons_iff hsymm hirrefl hc hopen, List.mem_flatMap]
    apply exists_congr
    intro v
    rw [List.mem_filter, and_assoc]
    apply and_congr_right
    intro _
    apply and_congr
    · simp [Available]
    · apply ih hnodup
      intro d hd
      have hne : d ≠ c := by
        rintro rfl
        exact hc hd
      rw [Function.update_of_ne hne]
      exact hopen d hd

theorem fillings_nodup (hsymm : ∀ c d, d ∈ nbrs c → c ∈ nbrs d) (hirrefl : ∀ c, c ∉ nbrs c)
    (hcolors : colors.Nodup) (hnodup : S.Nodup) (hopen : ∀ c ∈ S, f c ∉ colors) :
    (fillings nbrs colors S f).Nodup := by
  induction S generalizing f with
  | nil => exact List.nodup_singleton f
  | cons c S ih =>
    obtain ⟨hc, hnodup⟩ := List.nodup_cons.mp hnodup
    obtain ⟨-, hopen⟩ := List.forall_mem_cons.mp hopen
    have hopen' : ∀ v, ∀ d ∈ S, update f c v d ∉ colors := by
      intro v d hd
      have hne : d ≠ c := by
        rintro rfl
        exact hc hd
      rw [Function.update_of_ne hne]
      exact hopen d hd
    rw [fillings]
    refine List.nodup_flatMap.mpr ⟨fun v _ => ih hnodup (hopen' v), ?_⟩
    apply List.Nodup.pairwise_of_forall_ne (hcolors.filter _)
    intro v _ w _ hne g hv hw
    -- the cell tells the two branches apart
    have hgv := ((mem_fillings hsymm hirrefl hnodup (hopen' v)).mp hv).same c hc
    have hgw := ((mem_fillings hsymm hirrefl hnodup (hopen' w)).mp hw).same c hc
    rw [Function.update_self] at hgv hgw
    exact hne (hgv.symm.trans hgw)

theorem length_fillings (hsymm : ∀ c d, d ∈ nbrs c → c ∈ nbrs d) (hirrefl : ∀ c, c ∉ nbrs c)
    (hcolors : colors.Nodup) (hnodup : S.Nodup) (hopen : ∀ c ∈ S, f c ∉ colors) :
    (fillings nbrs colors S f).length =
      Set.ncard {g | Filling (fun c d => d ∈ nbrs c) (· ∈ colors) f S g} := by
  classical
  have hset : {g | Filling (fun c d => d ∈ nbrs c) (· ∈ colors) f S g} =
      ↑(fillings nbrs colors S f).toFinset := by
    ext g
    rw [Finset.mem_coe, List.mem_toFinset, mem_fillings hsymm hirrefl hnodup hopen]
    exact Iff.rfl
  rw [hset, Set.ncard_coe_finset,
    List.toFinset_card_of_nodup (fillings_nodup hsymm hirrefl hcolors hnodup hopen)]

/-- A count loses one when one of the counted elements is no longer counted. -/
theorem countP_lose {α : Type} {p q : α → Bool} {xs : List α} {v : α} (hnodup : xs.Nodup) (hv : v ∈ xs)
    (hp : p v = true) (hq : q v = false) (hother : ∀ u ∈ xs, u ≠ v → q u = p u) :
    xs.countP p = xs.countP q + 1 := by
  obtain ⟨before, after, rfl⟩ := List.append_of_mem hv
  have hmiddle : (before ++ v :: after).Perm (v :: (before ++ after)) := List.perm_middle
  obtain ⟨hnotin, -⟩ := List.nodup_cons.mp (hmiddle.nodup_iff.mp hnodup)
  have hsame : (before ++ after).countP p = (before ++ after).countP q := by
    apply List.countP_congr
    intro u hu
    have hne : u ≠ v := by
      rintro rfl
      exact hnotin hu
    rw [hother u (hmiddle.mem_iff.mpr (List.mem_cons_of_mem v hu)) hne]
  rw [hmiddle.countP_eq, hmiddle.countP_eq, List.countP_cons_of_pos hp, hsame,
    List.countP_cons_of_neg (by simp [hq])]

end Count

section Loop

variable {α σ τ : Type}

/-- A loop with a return from within: a candidate that works ends it with `true`. -/
def tryEach (body : α → σ → Option (Bool × σ)) : List α → σ → Option (Bool × σ)
  | [], s => some (false, s)
  | a :: as, s =>
    match body a s with
    | none => none
    | some (true, s') => some (true, s')
    | some (false, s') => tryEach body as s'

/-- When each candidate that fails restores the invariant, the loop ends with the first candidate
that works, or after all of them have failed. -/
theorem tryEach_spec {body : α → σ → Option (Bool × σ)} (Inv : σ → Prop) (Fails : α → Prop)
    (Good : α → σ → Prop) (as : List α)
    (hbody : ∀ a ∈ as, ∀ s, Inv s →
      (∃ s', body a s = some (true, s') ∧ Good a s') ∨
      (∃ s', body a s = some (false, s') ∧ Fails a ∧ Inv s')) {s : σ} (hs : Inv s) :
    (∃ before a after s', as = before ++ a :: after ∧ tryEach body as s = some (true, s') ∧
      (∀ b ∈ before, Fails b) ∧ Good a s') ∨
    (∃ s', tryEach body as s = some (false, s') ∧ (∀ b ∈ as, Fails b) ∧ Inv s') := by
  induction as generalizing s with
  | nil =>
    exact .inr ⟨s, rfl, fun a ha => absurd ha List.not_mem_nil, hs⟩
  | cons a as ih =>
    rcases hbody a List.mem_cons_self s hs with ⟨s', hrun, hgood⟩ | ⟨s', hrun, hfails, hinv⟩
    · refine .inl ⟨[], a, as, s', rfl, by rw [tryEach, hrun], ?_, hgood⟩
      exact fun b hb => absurd hb List.not_mem_nil
    · have hloop : tryEach body (a :: as) s = tryEach body as s' := by rw [tryEach, hrun]
      rw [hloop]
      rcases ih (fun b hb => hbody b (List.mem_cons_of_mem _ hb)) hinv with
        ⟨before, c, after, t, rfl, ht, hall, hgood⟩ | ⟨t, ht, hall, hinv'⟩
      · exact .inl ⟨a :: before, c, after, t, rfl, ht, List.forall_mem_cons.mpr ⟨hfails, hall⟩, hgood⟩
      · exact .inr ⟨t, ht, List.forall_mem_cons.mpr ⟨hfails, hall⟩, hinv'⟩

/-- What every candidate keeps, the loop keeps. -/
theorem tryEach_keeps {body : α → σ → Option (Bool × σ)} (Inv : σ → Prop) {as : List α}
    (hbody : ∀ a s found s', Inv s → body a s = some (found, s') → Inv s') {s s' : σ} {found : Bool}
    (hs : Inv s) (hrun : tryEach body as s = some (found, s')) : Inv s' := by
  induction as generalizing s with
  | nil =>
    cases hrun
    exact hs
  | cons a as ih =>
    rw [tryEach] at hrun
    cases ha : body a s with
    | none => rw [ha] at hrun; cases hrun
    | some r =>
      obtain ⟨found', t⟩ := r
      have ht := hbody a s found' t hs ha
      rw [ha] at hrun
      cases found' with
      | true => cases hrun; exact ht
      | false => exact ih ht hrun

/-- Two results of a search: both failed an assertion, or both have the same verdict and states that
are related as the verdict says. -/
def SameVerdict (Found Failed : σ → τ → Prop) : Option (Bool × σ) → Option (Bool × τ) → Prop
  | none, none => True
  | some (true, s), some (true, t) => Found s t
  | some (false, s), some (false, t) => Failed s t
  | _, _ => False

theorem SameVerdict.of_true {Found Failed : σ → τ → Prop} {x : Option (Bool × σ)} {t : τ}
    (h : SameVerdict Found Failed x (some (true, t))) : ∃ s, x = some (true, s) ∧ Found s t := by
  match x, h with
  | some (true, s), h => exact ⟨s, rfl, h⟩

theorem SameVerdict.of_false {Found Failed : σ → τ → Prop} {x : Option (Bool × σ)} {t : τ}
    (h : SameVerdict Found Failed x (some (false, t))) : ∃ s, x = some (false, s) ∧ Failed s t := by
  match x, h with
  | some (false, s), h => exact ⟨s, rfl, h⟩

theorem SameVerdict.mono {Found Failed Failed' : σ → τ → Prop} {x : Option (Bool × σ)}
    {y : Option (Bool × τ)} (h : SameVerdict Found Failed x y)
    (himp : ∀ s t, Failed s t → Failed' s t) : SameVerdict Found Failed' x y := by
  match x, y, h with
  | none, none, _ => exact trivial
  | some (true, s), some (true, t), h => exact h
  | some (false, s), some (false, t), h => exact himp s t h

/-- Two loops whose bodies run in lockstep. -/
theorem tryEach_lockstep {body : α → σ → Option (Bool × σ)} {body' : α → τ → Option (Bool × τ)}
    {Found R : σ → τ → Prop} {as : List α}
    (hbody : ∀ a ∈ as, ∀ s t, R s t → SameVerdict Found R (body a s) (body' a t))
    {s : σ} {t : τ} (h : R s t) :
    SameVerdict Found R (tryEach body as s) (tryEach body' as t) := by
  induction as generalizing s t with
  | nil => exact h
  | cons a as ih =>
    have hstep := hbody a List.mem_cons_self s t h
    rw [tryEach, tryEach]
    generalize hs : body a s = x at hstep
    generalize ht : body' a t = y at hstep
    match x, y, hstep with
    | none, none, _ => exact trivial
    | some (true, s'), some (true, t'), hfound => exact hfound
    | some (false, s'), some (false, t'), hfailed =>
      exact ih (fun b hb => hbody b (List.mem_cons_of_mem _ hb)) hfailed

end Loop

end CloudLabs.Foundation
