import Mathlib.Logic.Relation

/-!
# Backward simulation

A system takes quiet steps and steps that somebody outside sees; its traces are the rows of what is
seen along its runs. One system refines another if it has no other traces.

The upper system may have to decide early what the lower one leaves open for longer. A backward
simulation allows for this: it relates a lower state to every upper state that what was seen so far
leaves possible, and each step is followed from its end. `Backward.runs` gives the refinement.
-/

set_option autoImplicit false

namespace CloudLabs.Foundation

open Relation (ReflTransGen)

/-- The quiet steps of a system, and those that are seen from outside. -/
structure Observed (σ ε : Type) where
  quiet : σ → σ → Prop
  shows : σ → ε → σ → Prop

namespace Observed

variable {σ τ ε : Type}

/-- `M.Runs s tr s'`: a run from `s` to `s'` along which `tr` is seen. -/
inductive Runs (M : Observed σ ε) (s : σ) : List ε → σ → Prop
  | refl : Runs M s [] s
  | quiet {tr : List ε} {s₁ s₂ : σ} : Runs M s tr s₁ → M.quiet s₁ s₂ → Runs M s tr s₂
  | shows {tr : List ε} {s₁ s₂ : σ} {e : ε} : Runs M s tr s₁ → M.shows s₁ e s₂ →
      Runs M s (tr ++ [e]) s₂

section Runs

variable {M : Observed σ ε} {s s₁ s₂ : σ} {tr tr₁ tr₂ : List ε} {e : ε}

theorem Runs.of_quiet (h : ReflTransGen M.quiet s s₁) : M.Runs s [] s₁ := by
  induction h with
  | refl => exact .refl
  | tail _ hstep ih => exact ih.quiet hstep

theorem Runs.trans (h₁ : M.Runs s tr₁ s₁) (h₂ : M.Runs s₁ tr₂ s₂) :
    M.Runs s (tr₁ ++ tr₂) s₂ := by
  induction h₂ with
  | refl => rwa [List.append_nil]
  | quiet _ hstep ih => exact ih.quiet hstep
  | shows _ hstep ih =>
    rw [← List.append_assoc]
    exact ih.shows hstep

/-- One step that is seen, and quiet steps behind it. -/
theorem Runs.of_shows (h : M.shows s e s₁) (hquiet : ReflTransGen M.quiet s₁ s₂) :
    M.Runs s [e] s₂ :=
  (Runs.refl.shows h).trans (.of_quiet hquiet)

end Runs

/-- A backward simulation of `M` by `N`, with an invariant of the states of `M`. -/
structure Backward (M : Observed σ ε) (N : Observed τ ε) (Inv : σ → Prop) (R : σ → τ → Prop) :
    Prop where
  keeps_quiet : ∀ {s s'}, Inv s → M.quiet s s' → Inv s'
  keeps_shows : ∀ {s e s'}, Inv s → M.shows s e s' → Inv s'
  quiet : ∀ {s s' n'}, Inv s → M.quiet s s' → R s' n' → ∃ n, R s n ∧ ReflTransGen N.quiet n n'
  shows : ∀ {s e s' n'}, Inv s → M.shows s e s' → R s' n' → ∃ n, R s n ∧ N.Runs n [e] n'

section Backward

variable {M : Observed σ ε} {N : Observed τ ε} {Inv : σ → Prop} {R : σ → τ → Prop} {s₀ s : σ}
  {tr : List ε}

theorem Backward.inv (h : Backward M N Inv R) (hinv : Inv s₀) (hrun : M.Runs s₀ tr s) : Inv s := by
  induction hrun with
  | refl => exact hinv
  | quiet _ hstep ih => exact h.keeps_quiet ih hstep
  | shows _ hstep ih => exact h.keeps_shows ih hstep

/-- Every upper state related to the last one is the end of a run with the same trace. -/
theorem Backward.back (h : Backward M N Inv R) (hinv : Inv s₀) (hrun : M.Runs s₀ tr s) :
    ∀ n, R s n → ∃ n₀, R s₀ n₀ ∧ N.Runs n₀ tr n := by
  induction hrun with
  | refl => exact fun n hn => ⟨n, hn, .refl⟩
  | quiet hrun hstep ih =>
    intro n' hn'
    obtain ⟨n, hn, hquiet⟩ := h.quiet (h.inv hinv hrun) hstep hn'
    obtain ⟨n₀, hn₀, hup⟩ := ih n hn
    have hruns := hup.trans (.of_quiet hquiet)
    rw [List.append_nil] at hruns
    exact ⟨n₀, hn₀, hruns⟩
  | shows hrun hstep ih =>
    intro n' hn'
    obtain ⟨n, hn, hmore⟩ := h.shows (h.inv hinv hrun) hstep hn'
    obtain ⟨n₀, hn₀, hup⟩ := ih n hn
    exact ⟨n₀, hn₀, hup.trans hmore⟩

/-- From a state that is related to one upper state only, the runs of `M` are runs of `N`. -/
theorem Backward.runs (h : Backward M N Inv R) (hinv : Inv s₀) {n₀ n : τ}
    (hstart : ∀ n, R s₀ n → n = n₀) (hrun : M.Runs s₀ tr s) (hn : R s n) : N.Runs n₀ tr n := by
  obtain ⟨n₁, hn₁, hup⟩ := h.back hinv hrun n hn
  rwa [hstart n₁ hn₁] at hup

end Backward

end Observed

end CloudLabs.Foundation
