import CloudLabs.Foundation.Program
import Mathlib.Logic.Function.Basic

/-!
# Threads that share a state

A `Pool` is a family of threads of any size. Each thread carries out its program and then begins
again; between any two operations of one thread the others may carry out any number of theirs.

The rules are those of rely and guarantee. `Spec` is a triple for one thread: all its operations
keep the invariant `J` and change the state only as its guarantee `G t` allows, provided the others
do the same. An assertion may stand between two operations if it is `Steady` under the guarantees of
the other threads. From a specification of every thread's round, `Reached.invariant` and
`Reached.guarantee` give what holds in every state of every interleaving, and of every step.
-/

set_option autoImplicit false

namespace CloudLabs.Foundation

open Function (update)

/-- What each thread has left of its round, and the state they share. -/
structure Pool (T Op : Type) (Res : Op → Type) (σ : Type) where
  prog : T → Prog Op Res Unit
  shared : σ

namespace Pool

variable {T Op : Type} {Res : Op → Type} {σ α β : Type}

section Runs

variable [DecidableEq T] (body : T → Prog Op Res Unit)
  (step : T → (o : Op) → σ → Res o → σ → Prop)

/-- One operation of one thread, or the beginning of its next round. -/
inductive Step : Pool T Op Res σ → Pool T Op Res σ → Prop
  | op {c : Pool T Op Res σ} {t : T} {o : Op} {k : Res o → Prog Op Res Unit} {r : Res o} {s' : σ} :
      c.prog t = .op o k → step t o c.shared r s' → Step c ⟨update c.prog t (k r), s'⟩
  | again {c : Pool T Op Res σ} {t : T} : c.prog t = .ret () →
      Step c ⟨update c.prog t (body t), c.shared⟩

/-- The states of all interleavings from the state `s` on. -/
def Reached (s : σ) (c : Pool T Op Res σ) : Prop :=
  Relation.ReflTransGen (Step body step) ⟨body, s⟩ c

end Runs

section Rules

variable (step : T → (o : Op) → σ → Res o → σ → Prop) (J : σ → Prop) (G : T → σ → σ → Prop)

/-- What a thread does to the state, and to the invariant. -/
def guar (t : T) (s s' : σ) : Prop := G t s s' ∧ J s'

/-- What the other threads do. -/
def rely (t : T) (s s' : σ) : Prop := ∃ t', t' ≠ t ∧ guar J G t' s s'

/-- The other threads cannot falsify the assertion. -/
def Steady (t : T) (P : σ → Prop) : Prop :=
  ∀ t' s s', t' ≠ t → J s → J s' → G t' s s' → P s → P s'

/-- In every state with the invariant and the precondition, what the thread does keeps the invariant
and its guarantee, and it ends with the postcondition. -/
def Spec (t : T) (P : σ → Prop) (p : Prog Op Res α) (Q : α → σ → Prop) : Prop :=
  Prog.Triple (step t) (rely J G t) (guar J G t) (fun s => J s ∧ P s) p fun a s => J s ∧ Q a s

variable {step J G} {t : T}

theorem Steady.stable {P : σ → Prop} (hP : Steady J G t P) :
    Prog.Stable (rely J G t) fun s => J s ∧ P s := by
  rintro s s' ⟨hJ, hs⟩ ⟨t', hne, hG, hJ'⟩
  exact ⟨hJ', hP t' s s' hne hJ hJ' hG hs⟩

theorem Spec.ret {P : σ → Prop} {a : α} {Q : α → σ → Prop} (h : ∀ s, J s → P s → Q a s) :
    Spec step J G t P (.ret a) Q :=
  Prog.Triple.ret fun s hs => ⟨hs.1, h s hs.1 hs.2⟩

theorem Spec.conseq {P P' : σ → Prop} {p : Prog Op Res α} {Q Q' : α → σ → Prop}
    (h : Spec step J G t P p Q) (hP : ∀ s, J s → P' s → P s) (hQ : ∀ a s, J s → Q a s → Q' a s) :
    Spec step J G t P' p Q' :=
  Prog.Triple.conseq h (fun s hs => ⟨hs.1, hP s hs.1 hs.2⟩) fun a s hs => ⟨hs.1, hQ a s hs.1 hs.2⟩

theorem Spec.bind {P : σ → Prop} {p : Prog Op Res α} {R : α → σ → Prop} {f : α → Prog Op Res β}
    {Q : β → σ → Prop} (hp : Spec step J G t P p R) (hf : ∀ a, Spec step J G t (R a) (f a) Q) :
    Spec step J G t P (p >>= f) Q :=
  Prog.Triple.bind hp hf

/-- One operation from a steady assertion. -/
theorem Spec.op {P : σ → Prop} (hP : Steady J G t P) {o : Op} {k : Res o → Prog Op Res α}
    {R : Res o → σ → Prop} {Q : α → σ → Prop}
    (hstep : ∀ s r s', J s → P s → step t o s r s' → G t s s' ∧ J s' ∧ R r s')
    (hk : ∀ r, Spec step J G t (R r) (k r) Q) : Spec step J G t P (.op o k) Q := by
  apply Prog.Triple.op hP.stable (R := fun r s => J s ∧ R r s)
  · rintro s r s' ⟨hJ, hs⟩ hst
    obtain ⟨hG, hJ', hR⟩ := hstep s r s' hJ hs hst
    exact ⟨⟨hG, hJ'⟩, hJ', hR⟩
  · exact hk

theorem Spec.perform {P : σ → Prop} (hP : Steady J G t P) {o : Op} {Q : Res o → σ → Prop}
    (hstep : ∀ s r s', J s → P s → step t o s r s' → G t s s' ∧ J s' ∧ Q r s') :
    Spec step J G t P (Prog.perform o) Q :=
  Spec.op hP hstep fun _ => Spec.ret fun _ _ h => h

/-- A fact about the precondition's state is used to prove the triple. -/
theorem Spec.of_imp {P : σ → Prop} {C : Prop} {p : Prog Op Res α} {Q : α → σ → Prop}
    (hC : ∀ s, J s → P s → C) (h : C → Spec step J G t P p Q) : Spec step J G t P p Q :=
  Prog.Triple.of_imp (fun s hs => hC s hs.1 hs.2) h

end Rules

section Invariant

variable [DecidableEq T] {body : T → Prog Op Res Unit} {step : T → (o : Op) → σ → Res o → σ → Prop}
  {J : σ → Prop} {G : T → σ → σ → Prop} {P : T → σ → Prop} {s₀ : σ} {c c' : Pool T Op Res σ}

/-- What is left of every thread's round meets its specification. -/
def Meets (step : T → (o : Op) → σ → Res o → σ → Prop) (J : σ → Prop) (G : T → σ → σ → Prop)
    (P : T → σ → Prop) (c : Pool T Op Res σ) : Prop :=
  J c.shared ∧ ∀ t, Prog.wp (step t) (rely J G t) (guar J G t) (c.prog t)
    (fun _ s => J s ∧ P t s) c.shared

theorem Meets.next (hsteady : ∀ t, Steady J G t (P t))
    (hbody : ∀ t, Spec step J G t (P t) (body t) fun _ => P t) (hc : Meets step J G P c)
    (hstep : Step body step c c') :
    Meets step J G P c' ∧ (c'.shared = c.shared ∨ ∃ t, G t c.shared c'.shared) := by
  obtain ⟨hJ, hwp⟩ := hc
  cases hstep with
  | @op t o k r s' hprog hop =>
    have hown := hwp t
    rw [hprog] at hown
    obtain ⟨hguar, hrest⟩ := Prog.wp_op (step t) (rely J G t) (guar J G t) hown hop
    refine ⟨⟨hguar.2, ?_⟩, .inr ⟨t, hguar.1⟩⟩
    intro t'
    show Prog.wp (step t') (rely J G t') (guar J G t') (update c.prog t (k r) t') _ s'
    by_cases ht : t' = t
    · rw [ht, Function.update_self]
      exact hrest
    · -- For another thread the operation is interference.
      rw [Function.update_of_ne ht]
      have hrely : rely J G t' c.shared s' := ⟨t, Ne.symm ht, hguar⟩
      exact Prog.wp_closure (step t') (rely J G t') (guar J G t')
        (fun _ => (hsteady t').stable) (hwp t') (.single hrely)
  | @again t hprog =>
    refine ⟨⟨hJ, ?_⟩, .inl rfl⟩
    intro t'
    show Prog.wp (step t') (rely J G t') (guar J G t') (update c.prog t (body t) t') _ c.shared
    by_cases ht : t' = t
    · rw [ht, Function.update_self]
      have hown := hwp t
      rw [hprog] at hown
      exact hbody t c.shared hown
    · rw [Function.update_of_ne ht]
      exact hwp t'

theorem Reached.meets (hsteady : ∀ t, Steady J G t (P t))
    (hbody : ∀ t, Spec step J G t (P t) (body t) fun _ => P t) (hJ : J s₀) (hP : ∀ t, P t s₀)
    (hc : Reached body step s₀ c) : Meets step J G P c := by
  induction hc with
  | refl => exact ⟨hJ, fun t => hbody t s₀ ⟨hJ, hP t⟩⟩
  | tail _ hstep ih => exact (ih.next hsteady hbody hstep).1

/-- The invariant holds in every state of every interleaving. -/
theorem Reached.invariant (hsteady : ∀ t, Steady J G t (P t))
    (hbody : ∀ t, Spec step J G t (P t) (body t) fun _ => P t) (hJ : J s₀) (hP : ∀ t, P t s₀)
    (hc : Reached body step s₀ c) : J c.shared :=
  (hc.meets hsteady hbody hJ hP).1

/-- Every step of every interleaving is one that the guarantee of some thread allows. -/
theorem Reached.guarantee (hsteady : ∀ t, Steady J G t (P t))
    (hbody : ∀ t, Spec step J G t (P t) (body t) fun _ => P t) (hJ : J s₀) (hP : ∀ t, P t s₀)
    (hc : Reached body step s₀ c) (hstep : Step body step c c') :
    c'.shared = c.shared ∨ ∃ t, G t c.shared c'.shared :=
  ((hc.meets hsteady hbody hJ hP).next hsteady hbody hstep).2

end Invariant

end Pool

end CloudLabs.Foundation
