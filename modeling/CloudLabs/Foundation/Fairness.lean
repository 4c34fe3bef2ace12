import Mathlib.Order.OrderIsoNat

/-!
# Runs that go on for ever

A rank that no step raises is constant from some point on. A system whose steps lower a rank, apart
from idle ones, therefore only idles in the end (`eventually_idle`); if an idle run would starve some
thread, a scheduler that is fair to this thread admits no infinite run (`not_stronglyFair`).
-/

set_option autoImplicit false

namespace CloudLabs.Foundation

section Fairness

variable {σ ρ : Type}

/-- The action can be taken. -/
def Enabled (act : σ → σ → Prop) (s : σ) : Prop := ∃ s', act s s'

/-- An action that can be taken again and again is taken again and again. -/
def StronglyFair (act : σ → σ → Prop) (run : Nat → σ) : Prop :=
  (∀ n, ∃ m, n ≤ m ∧ Enabled act (run m)) → ∀ n, ∃ m, n ≤ m ∧ act (run m) (run (m + 1))

variable [PartialOrder ρ] [WellFoundedLT ρ] {rank : σ → ρ} {idle act : σ → σ → Prop}
  {run : Nat → σ}

theorem eventually_idle
    (hrank : ∀ k, rank (run (k + 1)) < rank (run k) ∨
      (rank (run (k + 1)) = rank (run k) ∧ idle (run k) (run (k + 1)))) :
    ∃ K, ∀ k, K ≤ k → idle (run k) (run (k + 1)) := by
  have hanti : Antitone fun k => rank (run k) := by
    apply antitone_nat_of_succ_le
    intro k
    rcases hrank k with hlt | ⟨heq, -⟩
    · exact hlt.le
    · exact heq.le
  obtain ⟨K, hK⟩ := WellFoundedGT.monotone_chain_condition
    (⟨fun k => OrderDual.toDual (rank (run k)), hanti⟩ : ℕ →o ρᵒᵈ)
  refine ⟨K, fun k hk => ?_⟩
  rcases hrank k with hlt | ⟨-, hidle⟩
  · -- the rank has the same value in both states
    have hhere : rank (run K) = rank (run k) := hK k hk
    have hnext : rank (run K) = rank (run (k + 1)) := hK (k + 1) (Nat.le_succ_of_le hk)
    rw [← hhere, ← hnext] at hlt
    exact absurd hlt (lt_irrefl _)
  · exact hidle

/-- No infinite run is fair to an action that idling leaves out and makes possible again and
again. -/
theorem not_stronglyFair (rank : σ → ρ) (idle : σ → σ → Prop)
    (hrank : ∀ k, rank (run (k + 1)) < rank (run k) ∨
      (rank (run (k + 1)) = rank (run k) ∧ idle (run k) (run (k + 1))))
    (hout : ∀ s s', idle s s' → ¬ act s s')
    (henabled : ∀ K, (∀ k, K ≤ k → idle (run k) (run (k + 1))) →
      ∀ n, ∃ m, n ≤ m ∧ Enabled act (run m)) : ¬ StronglyFair act run := by
  intro hfair
  obtain ⟨K, hK⟩ := eventually_idle hrank
  obtain ⟨m, hm, hact⟩ := hfair (henabled K hK) K
  exact hout _ _ (hK m hm) hact

end Fairness

end CloudLabs.Foundation
