import Mathlib.Data.List.Chain
import Mathlib.Data.List.Nodup
import Mathlib.Logic.Function.Basic
import Mathlib.Tactic

/-!
# Circular lists of linked nodes

A ring is given by the fields `next` and `prev` of its nodes, as functions from nodes to nodes:
`Ring next prev h l` says that `next` leads from the head `h` through `l` back to `h`, and `prev`
the other way round. A node is unlinked by joining its neighbours, which leaves its own fields as
they are, so that `relinked_next` and `relinked_prev` can put it back: the dancing of dancing links.

`forNodes` is the loop that follows one field around a ring, for a body that may change the state
and with it the fields; `forNodes_run` is its rule.
-/

set_option autoImplicit false

namespace CloudLabs.Foundation

variable {α : Type}

/-- Two neighbours. -/
def Linked (next prev : α → α) (a b : α) : Prop := next a = b ∧ prev b = a

/-- The ring of `h` and the nodes of `l` behind it. -/
def Ring (next prev : α → α) (h : α) (l : List α) : Prop :=
  List.IsChain (Linked next prev) (h :: (l ++ [h]))

/-- The fields of a chain may change where the chain does not use them. -/
theorem chain_frame {next prev next' prev' : α → α} {l : List α}
    (hchain : List.IsChain (Linked next prev) l) (hnext : ∀ a ∈ l.dropLast, next' a = next a)
    (hprev : ∀ b ∈ l.tail, prev' b = prev b) : List.IsChain (Linked next' prev') l := by
  induction l with
  | nil => exact .nil
  | cons a l ih =>
    cases l with
    | nil => exact .singleton a
    | cons b l =>
      rw [List.isChain_cons_cons] at hchain ⊢
      obtain ⟨⟨hab, hba⟩, hrest⟩ := hchain
      refine ⟨⟨?_, ?_⟩, ih hrest ?_ ?_⟩
      · rw [hnext a (by simp), hab]
      · rw [hprev b (by simp), hba]
      · intro x hx
        exact hnext x (by simp [hx])
      · intro x hx
        exact hprev x (List.mem_of_mem_tail hx)

namespace Ring

variable {next prev next' prev' : α → α} {h x : α} {l l₁ l₂ : List α}

/-- The ring is the same from any of its nodes on. -/
theorem rotate (hring : Ring next prev h (l₁ ++ x :: l₂)) : Ring next prev x (l₂ ++ h :: l₁) := by
  have hleft : List.IsChain (Linked next prev) ((h :: l₁) ++ x :: (l₂ ++ [h])) := by
    simpa [Ring] using hring
  rw [List.isChain_split] at hleft
  obtain ⟨hto, hfrom⟩ := hleft
  have hjoined : List.IsChain (Linked next prev) ((x :: l₂) ++ h :: (l₁ ++ [x])) := by
    rw [List.isChain_split]
    exact ⟨hfrom, hto⟩
  simpa [Ring] using hjoined

theorem of_split (hring : Ring next prev h l) (hsplit : h :: l = l₁ ++ x :: l₂) :
    Ring next prev x (l₂ ++ l₁) := by
  cases l₁ with
  | nil =>
    obtain ⟨rfl, rfl⟩ := List.cons.inj hsplit
    rwa [List.append_nil]
  | cons y l₁ =>
    obtain ⟨rfl, rfl⟩ := List.cons.inj hsplit
    exact hring.rotate

/-- The ring in the other direction. -/
theorem reverse (hring : Ring next prev h l) : Ring prev next h l.reverse := by
  have hrev : List.IsChain (fun a b => Linked next prev b a) (h :: (l ++ [h])).reverse := by
    rw [List.isChain_reverse]
    exact hring
  have hswap : ∀ a b, Linked next prev b a → Linked prev next a b := by
    rintro a b ⟨hn, hp⟩
    exact ⟨hp, hn⟩
  have hchain := hrev.imp hswap
  simpa [Ring] using hchain

/-- Fields outside the ring do not matter. -/
theorem frame (hring : Ring next prev h l) (hnext : ∀ a ∈ h :: l, next' a = next a)
    (hprev : ∀ a ∈ h :: l, prev' a = prev a) : Ring next' prev' h l := by
  apply chain_frame hring
  · intro a ha
    rw [← List.cons_append, List.dropLast_concat] at ha
    exact hnext a ha
  · intro b hb
    apply hprev
    simpa [or_comm] using hb

/-- The two neighbours of a node point to it. -/
theorem wellLinked (hring : Ring next prev h l) (hx : x ∈ l) :
    next (prev x) = x ∧ prev (next x) = x := by
  obtain ⟨l₁, l₂, rfl⟩ := List.append_of_mem hx
  have hchain : List.IsChain (Linked next prev) ((h :: l₁) ++ x :: (l₂ ++ [h])) := by
    simpa [Ring] using hring
  obtain ⟨u, p, hup⟩ : ∃ u p, h :: l₁ = u ++ [p] :=
    ⟨_, _, (List.dropLast_append_getLast (List.cons_ne_nil h l₁)).symm⟩
  obtain ⟨s, t, hst⟩ : ∃ s t, l₂ ++ [h] = s :: t :=
    List.exists_cons_of_ne_nil (by simp)
  rw [hup, hst, List.append_assoc, List.singleton_append, List.isChain_append_cons_cons] at hchain
  obtain ⟨-, ⟨hpx, hxp⟩, hafter⟩ := hchain
  obtain ⟨⟨hxs, hsx⟩, -⟩ := List.isChain_cons_cons.mp hafter
  exact ⟨by rw [hxp, hpx], by rw [hxs, hsx]⟩

/-- So do those of the head. -/
theorem wellLinked_head (hring : Ring next prev h l) : next (prev h) = h ∧ prev (next h) = h := by
  cases l with
  | nil =>
    obtain ⟨⟨hn, hp⟩, -⟩ := List.isChain_cons_cons.mp hring
    exact ⟨by rw [hp, hn], by rw [hn, hp]⟩
  | cons y l =>
    have hsplit : h :: (y :: l) = [h] ++ y :: l := rfl
    exact (hring.of_split hsplit).wellLinked (List.mem_append_right _ (List.mem_singleton.mpr rfl))

/-- The first node behind the head, or the head itself. -/
theorem next_head (hring : Ring next prev h l) : (l ++ [h]).head? = some (next h) := by
  cases l with
  | nil =>
    have hchain : List.IsChain (Linked next prev) (h :: h :: []) := hring
    rw [(List.isChain_cons_cons.mp hchain).1.1]
    rfl
  | cons x l =>
    have hchain : List.IsChain (Linked next prev) (h :: x :: (l ++ [h])) := hring
    rw [(List.isChain_cons_cons.mp hchain).1.1]
    rfl

/-- The node behind a node of the ring. -/
theorem next_of_split (hring : Ring next prev h (l₁ ++ x :: l₂)) :
    (l₂ ++ [h]).head? = some (next x) := by
  have hhead := hring.rotate.next_head
  cases l₂ <;> simpa using hhead

/-- The neighbours of a node are in the ring. -/
theorem neighbours (hring : Ring next prev h l) (hx : x ∈ l) : next x ∈ h :: l ∧ prev x ∈ h :: l := by
  have hmem : ∀ {f g : α → α} {l : List α}, Ring f g h l → x ∈ l → f x ∈ h :: l := by
    intro f g l hring hx
    obtain ⟨l₁, l₂, rfl⟩ := List.append_of_mem hx
    have hin := List.mem_of_mem_head? hring.next_of_split
    simp only [List.mem_append, List.mem_cons] at hin ⊢
    tauto
  exact ⟨hmem hring hx, by simpa using hmem hring.reverse (List.mem_reverse.mpr hx)⟩

/-- The field never leads out of the ring. -/
theorem iterate_mem (hring : Ring next prev h l) (n : Nat) : next^[n] h ∈ h :: l := by
  induction n with
  | zero => exact List.mem_cons_self
  | succ n ih =>
    rw [Function.iterate_succ_apply']
    rcases List.mem_cons.mp ih with heq | hin
    · rw [heq]
      have hfirst := List.mem_of_mem_head? hring.next_head
      simpa [or_comm] using hfirst
    · exact (hring.neighbours hin).1

/-- An element joins the end of the ring, in front of the head. -/
theorem insert [DecidableEq α] (hring : Ring next prev h l) (hnodup : (h :: l).Nodup)
    (hx : x ∉ h :: l) :
    Ring (Function.update (Function.update next x h) (prev h) x)
      (Function.update (Function.update prev x (prev h)) h x) h (l ++ [x]) := by
  -- `p` is the last node of the ring, or the head of an empty one
  obtain ⟨u, p, hup⟩ : ∃ u p, h :: l = u ++ [p] :=
    ⟨_, _, (List.dropLast_append_getLast (List.cons_ne_nil h l)).symm⟩
  have hchain : List.IsChain (Linked next prev) (u ++ p :: h :: []) := by
    have hold : List.IsChain (Linked next prev) ((h :: l) ++ [h]) := by simpa [Ring] using hring
    rwa [hup, List.append_assoc] at hold
  rw [List.isChain_append_cons_cons] at hchain
  obtain ⟨hbefore, ⟨hph, hhp⟩, -⟩ := hchain
  have hxh : x ≠ h := fun heq => hx (heq ▸ List.mem_cons_self)
  have hmem : ∀ a ∈ u ++ [p], a ≠ x := by
    intro a ha heq
    rw [← hup] at ha
    exact hx (heq ▸ ha)
  have hxp : p ≠ x := hmem p (by simp)
  have hpu : p ∉ u := by
    rw [hup] at hnodup
    intro hp
    exact (List.nodup_append.mp hnodup).2.2 p hp p (by simp) rfl
  have hgoal : List.IsChain
      (Linked (Function.update (Function.update next x h) (prev h) x)
        (Function.update (Function.update prev x (prev h)) h x)) (u ++ p :: x :: [h]) := by
    rw [List.isChain_append_cons_cons, hhp]
    refine ⟨?_, ⟨Function.update_self .., ?_⟩, List.isChain_cons_cons.mpr ⟨⟨?_, ?_⟩, .singleton h⟩⟩
    · -- up to `p` nothing changes
      apply chain_frame hbefore
      · intro a ha
        rw [List.dropLast_concat] at ha
        have hap : a ≠ p := fun heq => hpu (heq ▸ ha)
        rw [Function.update_of_ne hap, Function.update_of_ne (hmem a (List.mem_append_left _ ha))]
      · intro b hb
        have hbl : b ∈ l := by
          rw [← hup] at hb
          exact hb
        have hbh : b ≠ h := fun heq => (List.nodup_cons.mp hnodup).1 (heq ▸ hbl)
        have hbx : b ≠ x := fun heq => hx (heq ▸ List.mem_cons_of_mem _ hbl)
        rw [Function.update_of_ne hbh, Function.update_of_ne hbx]
    · rw [Function.update_of_ne hxh, Function.update_self]
    · rw [Function.update_of_ne (Ne.symm hxp), Function.update_self]
    · exact Function.update_self ..
  have hlist : h :: (l ++ [x] ++ [h]) = u ++ p :: x :: [h] := by
    rw [List.append_assoc, ← List.cons_append, hup, List.append_assoc]
    rfl
  rw [Ring, hlist]
  exact hgoal

/-- The insertion does not touch a ring that is apart from it. -/
theorem insert_frame [DecidableEq α] (hring : Ring next prev h l) {y : α} {k : List α}
    (hother : Ring next prev y k) (hk : ∀ z ∈ y :: k, z ∉ h :: l ∧ z ≠ x) :
    Ring (Function.update (Function.update next x h) (prev h) x)
      (Function.update (Function.update prev x (prev h)) h x) y k := by
  have hlast : prev h ∈ h :: l := by
    have hhead := List.mem_of_mem_head? hring.reverse.next_head
    simpa [or_comm] using hhead
  apply hother.frame
  · intro z hz
    obtain ⟨hzl, hzx⟩ := hk z hz
    rw [Function.update_of_ne, Function.update_of_ne hzx]
    rintro rfl
    exact hzl hlast
  · intro z hz
    obtain ⟨hzl, hzx⟩ := hk z hz
    rw [Function.update_of_ne, Function.update_of_ne hzx]
    rintro rfl
    exact hzl List.mem_cons_self

/-- A node leaves the ring. -/
theorem unlink [DecidableEq α] (hring : Ring next prev h (l₁ ++ x :: l₂))
    (hnodup : (h :: (l₁ ++ x :: l₂)).Nodup) :
    Ring (Function.update next (prev x) (next x)) (Function.update prev (next x) (prev x)) h
      (l₁ ++ l₂) := by
  have hchain : List.IsChain (Linked next prev) ((h :: l₁) ++ x :: (l₂ ++ [h])) := by
    simpa [Ring] using hring
  obtain ⟨u, p, hup⟩ : ∃ u p, h :: l₁ = u ++ [p] :=
    ⟨_, _, (List.dropLast_append_getLast (List.cons_ne_nil h l₁)).symm⟩
  obtain ⟨s, t, hst⟩ : ∃ s t, l₂ ++ [h] = s :: t :=
    List.exists_cons_of_ne_nil (by simp)
  rw [hup, hst, List.append_assoc, List.singleton_append, List.isChain_append_cons_cons] at hchain
  obtain ⟨hbefore, ⟨-, hxp⟩, hafter⟩ := hchain
  obtain ⟨⟨hxs, -⟩, hafter⟩ := List.isChain_cons_cons.mp hafter
  -- The parts of the ring before and behind the node have nothing in common but the head.
  have hall : ((h :: l₁) ++ x :: l₂).Nodup := by simpa using hnodup
  obtain ⟨hfront, hback, hdisj⟩ := List.nodup_append.mp hall
  have hback := (List.nodup_cons.mp hback).2
  have hpmem : p ∈ h :: l₁ := by
    rw [hup]
    exact List.mem_append_right _ (List.mem_singleton.mpr rfl)
  have hpu : p ∉ u := by
    rw [hup] at hfront
    intro hp
    exact (List.nodup_append.mp hfront).2.2 p hp p (by simp) rfl
  have hs : s ∈ l₂ ∨ s = h := by
    have hmem : s ∈ l₂ ++ [h] := by
      rw [hst]
      exact List.mem_cons_self
    simpa using hmem
  have hsl : s ∉ l₁ := by
    rcases hs with hs | rfl
    · intro hin
      exact hdisj s (List.mem_cons_of_mem _ hin) s (List.mem_cons_of_mem _ hs) rfl
    · exact (List.nodup_cons.mp hfront).1
  have hsnodup : (s :: t).Nodup := by
    rw [← hst, List.nodup_append]
    refine ⟨hback, List.nodup_singleton h, ?_⟩
    intro a ha b hb
    rw [List.mem_singleton.mp hb]
    exact (hdisj h List.mem_cons_self a (List.mem_cons_of_mem _ ha)).symm
  have hgoal : List.IsChain
      (Linked (Function.update next (prev x) (next x)) (Function.update prev (next x) (prev x)))
      (u ++ p :: s :: t) := by
    rw [hxp, hxs, List.isChain_append_cons_cons]
    refine ⟨?_, ⟨Function.update_self .., Function.update_self ..⟩, ?_⟩
    · -- before `x` only the link from `p` changes
      apply chain_frame hbefore
      · intro a ha
        rw [List.dropLast_concat] at ha
        apply Function.update_of_ne
        rintro rfl
        exact hpu ha
      · intro b hb
        rw [← hup] at hb
        apply Function.update_of_ne
        rintro rfl
        exact hsl hb
    · -- behind `x` only the link back from its successor changes
      apply chain_frame hafter
      · intro a ha
        rw [← hst, List.dropLast_concat] at ha
        apply Function.update_of_ne
        rintro rfl
        exact hdisj a hpmem a (List.mem_cons_of_mem _ ha) rfl
      · intro b hb
        apply Function.update_of_ne
        rintro rfl
        exact (List.nodup_cons.mp hsnodup).1 hb
  have hlist : h :: (l₁ ++ l₂ ++ [h]) = u ++ p :: s :: t := by
    rw [List.append_assoc, hst, ← List.cons_append, hup, List.append_assoc]
    rfl
  rw [Ring, hlist]
  exact hgoal

end Ring

/-! ## Putting a node back -/

section Relink

variable [DecidableEq α] {next prev : α → α} {x : α}

theorem relinked_prev (hx : prev (next x) = x) :
    Function.update (Function.update prev (next x) (prev x)) (next x) x = prev := by
  rw [Function.update_idem]
  exact Function.update_eq_self_iff.mpr hx.symm

theorem relinked_next (hx : next (prev x) = x) :
    Function.update (Function.update next (prev x) (next x)) (prev x) x = next := by
  rw [Function.update_idem]
  exact Function.update_eq_self_iff.mpr hx.symm

/-- Unlinking a node does not change its own fields. -/
theorem unlinked_self (y : α) : Function.update prev y (prev x) x = prev x := by
  by_cases hxy : x = y
  · rw [hxy, Function.update_self]
  · rw [Function.update_of_ne hxy]

end Relink

/-! ## Loops around a ring -/

section Loops

variable {σ : Type} [DecidableEq α]

/-- `for (x = first; x != stop; x = x->next) body`, where the body may change the fields. The loop
has no result when the fuel is used up. -/
def forNodes (next : σ → α → α) (stop : α) (body : α → σ → Option σ) : Nat → α → σ → Option σ
  | 0, _, _ => none
  | fuel + 1, x, s =>
    if x = stop then some s
    else (body x s).bind fun s' => forNodes next stop body fuel (next s' x) s'

/-- The rule for loops around a ring: `I` holds of the nodes that are still to come and the state,
and the field leads from each node to the next one after the body. -/
theorem forNodes_run (next : σ → α → α) {stop : α} (body : α → σ → Option σ) {l : List α}
    {fuel : Nat} {s : σ} (I : List α → σ → Prop) (hstop : stop ∉ l) (hfuel : l.length < fuel)
    (hs : I l s) {x : α} (hx : (l ++ [stop]).head? = some x)
    (hbody : ∀ y rest s, y ∈ l → I (y :: rest) s →
      ∃ s', body y s = some s' ∧ I rest s' ∧ (rest ++ [stop]).head? = some (next s' y)) :
    ∃ s', forNodes next stop body fuel x s = some s' ∧ I [] s' := by
  induction l generalizing fuel s x with
  | nil =>
    obtain ⟨fuel, rfl⟩ : ∃ k, fuel = k + 1 := ⟨fuel - 1, by simp at hfuel; omega⟩
    cases hx
    exact ⟨s, by rw [forNodes, if_pos rfl], hs⟩
  | cons y l ih =>
    obtain ⟨fuel, rfl⟩ : ∃ k, fuel = k + 1 := ⟨fuel - 1, by simp at hfuel; omega⟩
    cases hx
    rw [List.mem_cons, not_or] at hstop
    obtain ⟨s', hy, hs', hnext⟩ := hbody y l s List.mem_cons_self hs
    rw [forNodes, if_neg (Ne.symm hstop.1), hy, Option.bind_some]
    apply ih hstop.2 (by simpa using hfuel) hs' hnext
    intro z rest s hz hI
    exact hbody z rest s (List.mem_cons_of_mem _ hz) hI

/-- A loop around a ring whose body leaves the field alone folds its body over the nodes. -/
theorem forNodes_foldl {next : σ → α → α} {prev : α → α} {f : α → σ → σ} {stop : α} {l : List α}
    {fuel : Nat} {s : σ} (hfield : ∀ x s, next (f x s) = next s)
    (hring : Ring (next s) prev stop l) (hstop : stop ∉ l) (hfuel : l.length < fuel) :
    forNodes next stop (fun x s => some (f x s)) fuel (next s stop) s =
      some (l.foldl (fun s x => f x s) s) := by
  have hstep : ∀ y todo s', y ∈ l →
      (∃ done, l = done ++ y :: todo ∧ s' = done.foldl (fun s x => f x s) s ∧ next s' = next s) →
      ∃ s'', some (f y s') = some s'' ∧
        (∃ done, l = done ++ todo ∧ s'' = done.foldl (fun s x => f x s) s ∧ next s'' = next s) ∧
        (todo ++ [stop]).head? = some (next s'' y) := by
    rintro y todo s' - ⟨done, rfl, rfl, hsame⟩
    refine ⟨_, rfl, ⟨done ++ [y], by simp, by simp, ?_⟩, ?_⟩
    · rw [hfield, hsame]
    · rw [hfield, hsame]
      exact hring.next_of_split
  have hbegin : ∃ done, l = done ++ l ∧ s = done.foldl (fun s x => f x s) s ∧ next s = next s :=
    ⟨[], rfl, rfl, rfl⟩
  obtain ⟨s', hrun, done, hdone, hs', -⟩ := forNodes_run next _
    (fun todo s' => ∃ done, l = done ++ todo ∧ s' = done.foldl (fun s x => f x s) s ∧
      next s' = next s) hstop hfuel hbegin hring.next_head hstep
  rw [List.append_nil] at hdone
  rw [hdone, ← hs']
  exact hrun

end Loops

end CloudLabs.Foundation
