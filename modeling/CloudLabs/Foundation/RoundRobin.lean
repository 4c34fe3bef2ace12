import Mathlib.Data.List.Basic
import Mathlib.Tactic

/-!
# A list dealt out in turn

The elements of a list are numbered from some `k` on and dealt out to lanes, element `j` to lane
`turn j`. A reader that visits the lanes in the same turn finds the elements in the order of the
list: `lane_next` is the step of that argument.

The turn of a program is a counter, `counterLane`, which goes back to 0 at some `m`. A round of
`n + 1` elements gives one to each of `n + 1` lanes unless the counter goes back in the middle of it
and the lanes do not divide `m` (`injective_counterLane_iff`).
-/

set_option autoImplicit false

namespace CloudLabs.Foundation

section Lanes

variable {ι β γ : Type} [DecidableEq ι] {turn : Nat → ι}

/-- The elements of lane `q` in a list whose first element has number `k`. -/
def lane (turn : Nat → ι) (q : ι) (k : Nat) : List β → List β
  | [] => []
  | x :: l => if turn k = q then x :: lane turn q (k + 1) l else lane turn q (k + 1) l

@[simp] theorem lane_nil (q : ι) (k : Nat) : lane turn q k ([] : List β) = [] := rfl

theorem lane_append (q : ι) (k : Nat) (a b : List β) :
    lane turn q k (a ++ b) = lane turn q k a ++ lane turn q (k + a.length) b := by
  induction a generalizing k with
  | nil => rfl
  | cons x a ih =>
    have hnum : k + (x :: a).length = k + 1 + a.length := by
      rw [List.length_cons]
      omega
    rw [List.cons_append, lane, lane, ih (k + 1), hnum]
    by_cases hk : turn k = q
    · rw [if_pos hk, if_pos hk, List.cons_append]
    · rw [if_neg hk, if_neg hk]

theorem lane_map (f : β → γ) (q : ι) (k : Nat) (l : List β) :
    lane turn q k (l.map f) = (lane turn q k l).map f := by
  induction l generalizing k with
  | nil => rfl
  | cons x l ih =>
    rw [List.map_cons, lane, lane, ih (k + 1)]
    by_cases hk : turn k = q
    · rw [if_pos hk, if_pos hk, List.map_cons]
    · rw [if_neg hk, if_neg hk]

theorem lane_sublist (turn : Nat → ι) (q : ι) (k : Nat) (l : List β) :
    (lane turn q k l).Sublist l := by
  induction l generalizing k with
  | nil => exact .slnil
  | cons x l ih =>
    rw [lane]
    by_cases hk : turn k = q
    · rw [if_pos hk]
      exact (ih (k + 1)).cons_cons x
    · rw [if_neg hk]
      exact (ih (k + 1)).cons x

/-- The next element goes to the lane of its number. -/
theorem lane_concat (q : ι) (k : Nat) (l : List β) (x : β) :
    lane turn q k (l ++ [x]) =
      if turn (k + l.length) = q then lane turn q k l ++ [x] else lane turn q k l := by
  rw [lane_append, lane, lane_nil]
  by_cases hk : turn (k + l.length) = q
  · rw [if_pos hk, if_pos hk]
  · rw [if_neg hk, if_neg hk, List.append_nil]

/-- The lane whose turn it is begins with the first element. -/
theorem lane_turn {k : Nat} {l r : List β} {x : β}
    (h : lane turn (turn k) k l = x :: r) : ∃ l', l = x :: l' := by
  cases l with
  | nil => cases h
  | cons y l =>
    rw [lane, if_pos rfl, List.cons.injEq] at h
    rw [h.1]
    exact ⟨l, rfl⟩

/-- What the lane whose turn it is has beyond a prefix of the list begins with the element after the
prefix. -/
theorem lane_next (turn : Nat → ι) {k : Nat} {a c r : List β} {x : β} (hpre : a <+: c)
    (h : lane turn (turn (k + a.length)) k c = lane turn (turn (k + a.length)) k a ++ x :: r) :
    a ++ [x] <+: c := by
  obtain ⟨d, rfl⟩ := hpre
  rw [lane_append, List.append_cancel_left_eq] at h
  obtain ⟨d', rfl⟩ := lane_turn h
  exact ⟨d', by simp⟩

/-- When the lane whose turn it is has nothing beyond a prefix, the list has nothing either. -/
theorem lane_exhausted (turn : Nat → ι) {k : Nat} {a c : List β} (hpre : a <+: c)
    (h : lane turn (turn (k + a.length)) k c = lane turn (turn (k + a.length)) k a) : a = c := by
  obtain ⟨d, rfl⟩ := hpre
  rw [lane_append] at h
  cases d with
  | nil => exact (List.append_nil a).symm
  | cons y d =>
    rw [lane, if_pos rfl] at h
    have hlen := congrArg List.length h
    rw [List.length_append, List.length_cons] at hlen
    omega

/-- A stretch without a number of the lane gives it nothing. -/
theorem lane_eq_nil {q : ι} {k : Nat} {l : List β}
    (h : ∀ j, j < l.length → turn (k + j) ≠ q) : lane turn q k l = [] := by
  induction l generalizing k with
  | nil => rfl
  | cons x l ih =>
    have hfirst := h 0 (by simp)
    rw [Nat.add_zero k] at hfirst
    rw [lane, if_neg hfirst]
    apply ih
    intro j hj
    have hnext := h (j + 1) (by simpa using hj)
    rwa [show k + 1 + j = k + (j + 1) by omega]

/-- Every element goes to one lane. -/
theorem sum_length_lane [Fintype ι] (turn : Nat → ι) (k : Nat) (l : List β) :
    ∑ q, (lane turn q k l).length = l.length := by
  induction l generalizing k with
  | nil => simp
  | cons x l ih =>
    have hone : ∀ q, (lane turn q k (x :: l)).length =
        (lane turn q (k + 1) l).length + if turn k = q then 1 else 0 := by
      intro q
      rw [lane]
      by_cases hk : turn k = q
      · rw [if_pos hk, if_pos hk, List.length_cons]
      · rw [if_neg hk, if_neg hk]
        exact (Nat.add_zero _).symm
    simp only [hone, Finset.sum_add_distrib, ih, Finset.sum_ite_eq, Finset.mem_univ, if_true,
      List.length_cons]

end Lanes

/-! ## One round -/

section Round

variable {β : Type} {n : Nat} {turn : Nat → Fin (n + 1)} {k : Nat}

/-- A round of one element that gives no lane two gives one to each. -/
theorem lane_round_of_le_one {x : β}
    (h : ∀ q, (lane turn q k (List.replicate (n + 1) x)).length ≤ 1) (q : Fin (n + 1)) :
    lane turn q k (List.replicate (n + 1) x) = [x] := by
  have hsum := sum_length_lane turn k (List.replicate (n + 1) x)
  have hone : ∑ _q : Fin (n + 1), 1 = (List.replicate (n + 1) x).length := by simp
  rw [← hone, Finset.sum_eq_sum_iff_of_le fun i _ => h i] at hsum
  obtain ⟨y, hy⟩ := List.length_eq_one_iff.mp (hsum q (Finset.mem_univ q))
  have hmem : y ∈ List.replicate (n + 1) x :=
    (lane_sublist turn q k _).subset (hy ▸ List.mem_singleton_self y)
  rw [hy, List.eq_of_mem_replicate hmem]

/-- A round that comes to no lane twice gives one element to each. -/
theorem lane_round (h : Function.Injective fun j : Fin (n + 1) => turn (k + j)) (q : Fin (n + 1))
    (x : β) : lane turn q k (List.replicate (n + 1) x) = [x] := by
  obtain ⟨d, hd⟩ := Finite.injective_iff_surjective.mp h q
  have hother : ∀ j, j < n + 1 → j ≠ d → turn (k + j) ≠ q := by
    intro j hj hne hq
    exact hne (congrArg Fin.val (@h ⟨j, hj⟩ _ (hq.trans hd.symm)))
  have hsplit : List.replicate (n + 1) x =
      List.replicate d x ++ [x] ++ List.replicate (n - d) x := by
    rw [← List.replicate_succ', List.replicate_append_replicate]
    congr 1
    omega
  have hbefore : lane turn q k (List.replicate d x) = [] := by
    apply lane_eq_nil
    intro j hj
    rw [List.length_replicate] at hj
    exact hother j (by omega) (by omega)
  have hafter : lane turn q (k + (d + 1)) (List.replicate (n - d) x) = [] := by
    apply lane_eq_nil
    intro j hj
    rw [List.length_replicate] at hj
    rw [Nat.add_assoc]
    exact hother (d + 1 + j) (by omega) (by omega)
  rw [hsplit, lane_append, lane_concat, List.length_append, List.length_replicate,
    List.length_singleton, hbefore, hafter, if_pos hd]
  rfl

/-- A round that comes to a lane twice leaves one out. -/
theorem exists_lane_nil (h : ¬ Function.Injective fun j : Fin (n + 1) => turn (k + j)) (x : β) :
    ∃ q, lane turn q k (List.replicate (n + 1) x) = [] := by
  rw [Finite.injective_iff_surjective] at h
  obtain ⟨q, hq⟩ := not_forall.mp h
  refine ⟨q, lane_eq_nil fun j hj heq => ?_⟩
  rw [List.length_replicate] at hj
  exact hq ⟨⟨j, hj⟩, heq⟩

end Round

/-! ## The turn of a counter -/

/-- The lane of number `k`. -/
def laneOf (n k : Nat) : Fin (n + 1) := ⟨k % (n + 1), Nat.mod_lt k (Nat.succ_pos n)⟩

/-- The lane of element `k` when the numbers are kept in a counter that goes back to 0 at `m`. -/
def counterLane (m n k : Nat) : Fin (n + 1) := laneOf n (k % m)

/-- Two numbers of one lane are a round apart. -/
theorem laneOf_ne_of_lt {n a b : Nat} (hab : a < b) (hround : b < a + (n + 1)) :
    laneOf n a ≠ laneOf n b := by
  intro heq
  have hmod : a % (n + 1) = b % (n + 1) := congrArg Fin.val heq
  have hdvd := (Nat.modEq_iff_dvd' hab.le).mp hmod
  have hle := Nat.le_of_dvd (by omega) hdvd
  omega

/-- Consecutive numbers come to no lane twice within a round. -/
theorem injective_laneOf (n k : Nat) :
    Function.Injective fun j : Fin (n + 1) => laneOf n (k + j) := by
  intro i j heq
  by_contra hne
  rcases Nat.lt_or_gt_of_ne (fun h => hne (Fin.ext h)) with hij | hij
  · exact laneOf_ne_of_lt (by omega) (by omega) heq
  · exact laneOf_ne_of_lt (by omega) (by omega) heq.symm

/-- When the counter goes back to 0 in the middle of a round whose lanes do not divide `m`, the round
comes to a lane twice. -/
theorem counterLane_twice {m n k : Nat} (hm : 0 < m) (hback : m ≤ k % m + n)
    (hdvd : ¬ (n + 1) ∣ m) :
    ∃ i j : Fin (n + 1), i ≠ j ∧ counterLane m n (k + i) = counterLane m n (k + j) := by
  have hlt := Nat.mod_lt k hm
  have hadd : ∀ j, (k + j) % m = (k % m + j) % m := fun j => (Nat.mod_add_mod k m j).symm
  by_cases hmn : m ≤ n
  · -- the counter itself comes back within the round
    refine ⟨⟨0, by omega⟩, ⟨m, by omega⟩, fun h => ?_, ?_⟩
    · have hval := congrArg Fin.val h
      dsimp only at hval
      omega
    · simp [counterLane]
  · -- the counter has `a` steps before 0, and `t` lanes of a round are left over at 0
    obtain ⟨a, ha⟩ : ∃ a, k % m + a = m := ⟨m - k % m, by omega⟩
    have ht := Nat.mod_lt m (Nat.succ_pos n)
    have hdiv := Nat.div_add_mod m (n + 1)
    have htpos : m % (n + 1) ≠ 0 := fun h => hdvd (Nat.dvd_of_mod_eq_zero h)
    generalize hq : m / (n + 1) = q at hdiv
    generalize htdef : m % (n + 1) = t at hdiv ht htpos
    have hafter : ∀ j, a ≤ j → j ≤ n → (k + j) % m = j - a := by
      intro j haj hjn
      rw [hadd, show k % m + j = j - a + m by omega, Nat.add_mod_right]
      exact Nat.mod_eq_of_lt (by omega)
    have hbefore : ∀ j, j < a → (k + j) % m = k % m + j := by
      intro j hja
      rw [hadd]
      exact Nat.mod_eq_of_lt (by omega)
    by_cases hta : a ≤ t
    · refine ⟨⟨0, by omega⟩, ⟨t, by omega⟩, fun h => ?_, Fin.ext ?_⟩
      · have hval := congrArg Fin.val h
        dsimp only at hval
        omega
      · show (k + 0) % m % (n + 1) = (k + t) % m % (n + 1)
        rw [hbefore 0 (by omega), hafter t hta (by omega),
          show k % m + 0 = t - a + (n + 1) * q by omega, Nat.add_mul_mod_self_left]
    · refine ⟨⟨a - t, by omega⟩, ⟨a, by omega⟩, fun h => ?_, Fin.ext ?_⟩
      · have hval := congrArg Fin.val h
        dsimp only at hval
        omega
      · show (k + (a - t)) % m % (n + 1) = (k + a) % m % (n + 1)
        rw [hbefore (a - t) (by omega), hafter a le_rfl (by omega),
          show k % m + (a - t) = 0 + (n + 1) * q by omega, Nat.add_mul_mod_self_left, Nat.sub_self]

/-- A round of a counter gives each lane one element exactly if the counter does not go back to 0
within the round, or the lanes divide what it counts to. -/
theorem injective_counterLane_iff {m n k : Nat} (hm : 0 < m) :
    Function.Injective (fun j : Fin (n + 1) => counterLane m n (k + j)) ↔
      k % m + n < m ∨ (n + 1) ∣ m := by
  constructor
  · intro hinj
    by_contra hno
    rw [not_or, not_lt] at hno
    obtain ⟨i, j, hne, heq⟩ := counterLane_twice hm hno.1 hno.2
    exact hne (hinj heq)
  · rintro (hroom | hdvd)
    · have hsame : ∀ j : Fin (n + 1), counterLane m n (k + j) = laneOf n (k % m + j) := by
        intro j
        rw [counterLane, ← Nat.mod_add_mod, Nat.mod_eq_of_lt (by omega : k % m + j < m)]
      simp only [hsame]
      exact injective_laneOf n (k % m)
    · have hsame : ∀ j : Fin (n + 1), counterLane m n (k + j) = laneOf n (k + j) :=
        fun j => Fin.ext (Nat.mod_mod_of_dvd _ hdvd)
      simp only [hsame]
      exact injective_laneOf n k

end CloudLabs.Foundation
