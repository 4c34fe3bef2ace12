import Mathlib.Logic.Relation

/-!
# Programs under interference

A program over a set of atomic operations (`Prog`) is run by a thread on a shared state, while an
environment changes that state between any two of its operations. `Prog.Step` is one atomic
operation of the program or one step of the environment.

`wp` is the weakest precondition under such interference: it asks that every run of the program
ends in a state with the postcondition, that no run reaches `abort`, and that each operation
changes the state as the guarantee `guar` allows. The rules `Triple.op`, `Triple.bind` and
`Triple.conseq` build triples for composite programs; each assertion before an operation has to be
stable under the environment. `wp_steps` ties the triples to the runs, and `wp_run` to a scheduler
that fixes the outcome of every operation.
-/

set_option autoImplicit false

namespace CloudLabs.Foundation

universe u

/-- A program: a result, an atomic operation with its continuation, or a failed assertion. -/
inductive Prog (Op : Type) (Res : Op → Type) (α : Type) : Type
  | ret (a : α)
  | op (o : Op) (k : Res o → Prog Op Res α)
  | abort

namespace Prog

variable {Op : Type} {Res : Op → Type} {α β σ : Type}

/-- Sequential composition. -/
def bind : Prog Op Res α → (α → Prog Op Res β) → Prog Op Res β
  | ret a, f => f a
  | op o k, f => op o fun r => bind (k r) f
  | abort, _ => abort

instance : Monad (Prog Op Res) where
  pure := ret
  bind := bind

/-- The program of a single operation. -/
def perform (o : Op) : Prog Op Res (Res o) := op o ret

/-- The value of an assertion-guarded expression. -/
def ofOption : Option α → Prog Op Res α
  | some a => ret a
  | none => abort

@[simp] theorem pure_eq (a : α) : (pure a : Prog Op Res α) = ret a := rfl

@[simp] theorem ofOption_some (a : α) : (ofOption (some a) : Prog Op Res α) = ret a := rfl

@[simp] theorem ret_bind (a : α) (f : α → Prog Op Res β) : (ret a >>= f) = f a := rfl

@[simp] theorem op_bind (o : Op) (k : Res o → Prog Op Res α) (f : α → Prog Op Res β) :
    (op o k >>= f) = op o fun r => k r >>= f := rfl

@[simp] theorem abort_bind (f : α → Prog Op Res β) : (abort >>= f) = abort := rfl

@[simp] theorem perform_bind (o : Op) (f : Res o → Prog Op Res β) :
    (perform o >>= f) = op o f := rfl

theorem bind_assoc {γ : Type} (p : Prog Op Res α) (f : α → Prog Op Res β) (g : β → Prog Op Res γ) :
    (p >>= f >>= g) = (p >>= fun a => f a >>= g) := by
  induction p with
  | ret a => rfl
  | op o k ih => exact congrArg (op o) (funext ih)
  | abort => rfl

/-- Nothing follows. -/
theorem bind_ret (p : Prog Op Res α) : (p >>= fun a => ret a) = p := by
  induction p with
  | ret a => rfl
  | op o k ih => exact congrArg (op o) (funext ih)
  | abort => rfl

/-! ## Runs -/

section Runs

variable (step : (o : Op) → σ → Res o → σ → Prop) (env guar : σ → σ → Prop)

/-- One atomic operation of the program, or one step of the environment. -/
inductive Step : Prog Op Res α × σ → Prog Op Res α × σ → Prop
  | op {o : Op} {k : Res o → Prog Op Res α} {s s' : σ} {r : Res o} :
      step o s r s' → Step (Prog.op o k, s) (k r, s')
  | env {p : Prog Op Res α} {s s' : σ} : env s s' → Step (p, s) (p, s')

/-- The weakest precondition: every run of the program ends in a state with the postcondition, and
every operation keeps the guarantee. -/
def wp : Prog Op Res α → (α → σ → Prop) → σ → Prop
  | ret a, Q, s => Q a s
  | op o k, Q, s => ∀ s', Relation.ReflTransGen env s s' → ∀ r s'', step o s' r s'' →
      guar s' s'' ∧ wp (k r) Q s''
  | abort, _, _ => False

/-- An assertion the environment cannot falsify. -/
def Stable (P : σ → Prop) : Prop := ∀ s s', P s → env s s' → P s'

theorem Stable.closure {P : σ → Prop} (hP : Stable env P) {s s' : σ} (h : P s)
    (hs : Relation.ReflTransGen env s s') : P s' := by
  induction hs with
  | refl => exact h
  | tail _ hstep ih => exact hP _ _ ih hstep

/-- The environment cannot falsify a weakest precondition of a stable postcondition. -/
theorem wp_closure {Q : α → σ → Prop} (hQ : ∀ a, Stable env (Q a)) {p : Prog Op Res α} {s s' : σ}
    (h : wp step env guar p Q s) (hs : Relation.ReflTransGen env s s') :
    wp step env guar p Q s' := by
  cases p with
  | ret a => exact (hQ a).closure env h hs
  | op o k => exact fun s₁ hs₁ r s₂ hstep => h s₁ (hs.trans hs₁) r s₂ hstep
  | abort => exact h

/-- Along every run the weakest precondition of what is left of the program holds. -/
theorem wp_steps {Q : α → σ → Prop} (hQ : ∀ a, Stable env (Q a)) {c c' : Prog Op Res α × σ}
    (h : wp step env guar c.1 Q c.2) (hc : Relation.ReflTransGen (Step step env) c c') :
    wp step env guar c'.1 Q c'.2 := by
  induction hc with
  | refl => exact h
  | tail _ hstep ih =>
      cases hstep with
      | op hop => exact (ih _ Relation.ReflTransGen.refl _ _ hop).2
      | env henv => exact wp_closure step env guar hQ ih (Relation.ReflTransGen.single henv)

/-- The next operation of a program keeps the guarantee and the weakest precondition. -/
theorem wp_op {Q : α → σ → Prop} {o : Op} {k : Res o → Prog Op Res α} {s s' : σ} {r : Res o}
    (h : wp step env guar (op o k) Q s) (hstep : step o s r s') :
    guar s s' ∧ wp step env guar (k r) Q s' :=
  h s Relation.ReflTransGen.refl r s' hstep

/-- A quantity that the guarantee and the environment never lower does not fall along a run. -/
theorem wp_steps_le {Q : α → σ → Prop} (hQ : ∀ a, Stable env (Q a)) (f : σ → Nat)
    (hguar : ∀ s s', guar s s' → f s ≤ f s') (henv : ∀ s s', env s s' → f s ≤ f s')
    {c c' : Prog Op Res α × σ} (h : wp step env guar c.1 Q c.2)
    (hc : Relation.ReflTransGen (Step step env) c c') : f c.2 ≤ f c'.2 := by
  induction hc with
  | refl => exact Nat.le_refl _
  | tail hc hstep ih =>
      have hw := wp_steps step env guar hQ h hc
      cases hstep with
      | op hop => exact Nat.le_trans ih (hguar _ _ (wp_op step env guar hw hop).1)
      | env hs => exact Nat.le_trans ih (henv _ _ hs)

theorem wp_mono {Q Q' : α → σ → Prop} (hQ : ∀ a s, Q a s → Q' a s) :
    ∀ (p : Prog Op Res α) (s : σ), wp step env guar p Q s → wp step env guar p Q' s
  | ret a, s, h => hQ a s h
  | op _ k, _, h => fun s' hs r s'' hstep =>
      ⟨(h s' hs r s'' hstep).1, wp_mono hQ (k r) s'' (h s' hs r s'' hstep).2⟩
  | abort, _, h => h

theorem wp_bind (f : α → Prog Op Res β) (Q : β → σ → Prop) :
    ∀ (p : Prog Op Res α) (s : σ),
      wp step env guar (p >>= f) Q s ↔
        wp step env guar p (fun a => wp step env guar (f a) Q) s
  | ret _, _ => Iff.rfl
  | op _ k, _ => by
      constructor
      · intro h s' hs r s'' hstep
        obtain ⟨hg, hw⟩ := h s' hs r s'' hstep
        exact ⟨hg, (wp_bind f Q (k r) s'').1 hw⟩
      · intro h s' hs r s'' hstep
        obtain ⟨hg, hw⟩ := h s' hs r s'' hstep
        exact ⟨hg, (wp_bind f Q (k r) s'').2 hw⟩
  | abort, _ => Iff.rfl

/-! ## Triples -/

/-- From every state with the precondition, every run ends with the postcondition. -/
def Triple (P : σ → Prop) (p : Prog Op Res α) (Q : α → σ → Prop) : Prop :=
  ∀ s, P s → wp step env guar p Q s

variable {step env guar}

theorem Triple.ret {P : σ → Prop} {a : α} {Q : α → σ → Prop} (h : ∀ s, P s → Q a s) :
    Triple step env guar P (.ret a) Q := h

theorem Triple.conseq {P P' : σ → Prop} {p : Prog Op Res α} {Q Q' : α → σ → Prop}
    (h : Triple step env guar P p Q) (hP : ∀ s, P' s → P s) (hQ : ∀ a s, Q a s → Q' a s) :
    Triple step env guar P' p Q' :=
  fun s hs => wp_mono step env guar hQ p s (h s (hP s hs))

theorem Triple.bind {P : σ → Prop} {p : Prog Op Res α} {R : α → σ → Prop} {f : α → Prog Op Res β}
    {Q : β → σ → Prop} (hp : Triple step env guar P p R)
    (hf : ∀ a, Triple step env guar (R a) (f a) Q) : Triple step env guar P (p >>= f) Q :=
  fun s hs => (wp_bind step env guar f Q p s).2
    (wp_mono step env guar (fun a => hf a) p s (hp s hs))

/-- One operation from a stable assertion. -/
theorem Triple.op {P : σ → Prop} (hP : Stable env P) {o : Op} {k : Res o → Prog Op Res α}
    {R : Res o → σ → Prop} {Q : α → σ → Prop}
    (hstep : ∀ s r s', P s → step o s r s' → guar s s' ∧ R r s')
    (hk : ∀ r, Triple step env guar (R r) (k r) Q) : Triple step env guar P (.op o k) Q := by
  intro s hs s' henv r s'' hst
  obtain ⟨hg, hR⟩ := hstep _ _ _ (hP.closure env hs henv) hst
  exact ⟨hg, hk r _ hR⟩

/-- A program that is a single operation. -/
theorem Triple.perform {P : σ → Prop} (hP : Stable env P) {o : Op} {Q : Res o → σ → Prop}
    (hstep : ∀ s r s', P s → step o s r s' → guar s s' ∧ Q r s') :
    Triple step env guar P (Prog.perform o) Q :=
  Triple.op hP hstep fun _ => Triple.ret fun _ h => h

/-- A precondition that holds of no state, or a fact about the program's arguments, is used to
prove the triple. -/
theorem Triple.of_imp {P : σ → Prop} {C : Prop} {p : Prog Op Res α} {Q : α → σ → Prop}
    (hC : ∀ s, P s → C) (h : C → Triple step env guar P p Q) : Triple step env guar P p Q :=
  fun s hs => h (hC s hs) s hs

end Runs

/-! ## Parts of a run -/

section Parts

variable {step : (o : Op) → σ → Res o → σ → Prop} {env guar : σ → σ → Prop}

/-- A run from an operation: only the environment has moved, or the operation was carried out. -/
theorem run_op {o : Op} {k : Res o → Prog Op Res α} {s s' : σ} {p : Prog Op Res α}
    (h : Relation.ReflTransGen (Step step env) (op o k, s) (p, s')) :
    (p = op o k ∧ Relation.ReflTransGen env s s') ∨
      ∃ s₁ r s₂, Relation.ReflTransGen env s s₁ ∧ step o s₁ r s₂ ∧
        Relation.ReflTransGen (Step step env) (k r, s₂) (p, s') := by
  generalize hc : (p, s') = c at h
  induction h generalizing p s' with
  | refl =>
    obtain ⟨rfl, rfl⟩ := Prod.mk.inj hc
    exact .inl ⟨rfl, .refl⟩
  | @tail c₁ c₂ _ hstep ih =>
    obtain ⟨p₁, s₁⟩ := c₁
    subst hc
    rcases ih rfl with ⟨rfl, henv⟩ | ⟨s₂, r, s₃, henv, hop, hrest⟩
    · -- So far only the environment has moved.
      cases hstep with
      | op hop => exact .inr ⟨s₁, _, s', henv, hop, .refl⟩
      | env hs => exact .inl ⟨rfl, henv.tail hs⟩
    · exact .inr ⟨s₂, r, s₃, henv, hop, hrest.tail hstep⟩

/-- Behind its end only the environment moves. -/
theorem run_ret {a : α} {s s' : σ} {p : Prog Op Res α}
    (h : Relation.ReflTransGen (Step step env) (ret a, s) (p, s')) :
    p = ret a ∧ Relation.ReflTransGen env s s' := by
  generalize hc : (p, s') = c at h
  induction h generalizing p s' with
  | refl =>
    obtain ⟨rfl, rfl⟩ := Prod.mk.inj hc
    exact ⟨rfl, .refl⟩
  | @tail c₁ _ _ hstep ih =>
    obtain ⟨p₁, s₁⟩ := c₁
    subst hc
    obtain ⟨rfl, henv⟩ := ih rfl
    cases hstep with
    | env hs => exact ⟨rfl, henv.tail hs⟩

/-- A run of the environment alone. -/
theorem run_env {p : Prog Op Res α} {s s' : σ} (h : Relation.ReflTransGen env s s') :
    Relation.ReflTransGen (Step step env) (p, s) (p, s') := by
  induction h with
  | refl => exact .refl
  | tail _ hs ih => exact ih.tail (.env hs)

/-- A failed assertion is never left. -/
theorem run_abort {s s' : σ} {p : Prog Op Res α}
    (h : Relation.ReflTransGen (Step step env) (abort, s) (p, s')) :
    p = abort ∧ Relation.ReflTransGen env s s' := by
  generalize hc : (p, s') = c at h
  induction h generalizing p s' with
  | refl =>
    obtain ⟨rfl, rfl⟩ := Prod.mk.inj hc
    exact ⟨rfl, .refl⟩
  | @tail c₁ _ _ hstep ih =>
    obtain ⟨p₁, s₁⟩ := c₁
    subst hc
    obtain ⟨rfl, henv⟩ := ih rfl
    cases hstep with
    | env hs => exact ⟨rfl, henv.tail hs⟩

/-- A run of a composite program is in the first part, or that part is over. -/
theorem run_parts (f : α → Prog Op Res β) (p : Prog Op Res α) : ∀ {s s' : σ} {q : Prog Op Res β},
    Relation.ReflTransGen (Step step env) (p >>= f, s) (q, s') →
    (∃ p', q = (p' >>= f) ∧ Relation.ReflTransGen (Step step env) (p, s) (p', s')) ∨
      ∃ a s₁, Relation.ReflTransGen (Step step env) (p, s) (ret a, s₁) ∧
        Relation.ReflTransGen (Step step env) (f a, s₁) (q, s') := by
  induction p with
  | ret a => exact fun h => .inr ⟨a, _, .refl, h⟩
  | op o k ih =>
    intro s s' q h
    rcases run_op h with ⟨rfl, henv⟩ | ⟨s₁, r, s₂, henv, hop, hrest⟩
    · exact .inl ⟨op o k, rfl, run_env henv⟩
    · have hfirst : Relation.ReflTransGen (Step step env) (op o k, s) (k r, s₂) :=
        (run_env henv).trans (.single (.op hop))
      rcases ih r hrest with ⟨p', hq, hp⟩ | ⟨a, s₃, hp, hf⟩
      · exact .inl ⟨p', hq, hfirst.trans hp⟩
      · exact .inr ⟨a, s₃, hfirst.trans hp, hf⟩
  | abort =>
    intro s s' q h
    obtain ⟨rfl, henv⟩ := run_abort h
    exact .inl ⟨abort, rfl, run_env henv⟩

/-- A complete run of a composite program is one of each part. -/
theorem run_of_bind {f : α → Prog Op Res β} {p : Prog Op Res α} {s s' : σ} {b : β}
    (h : Relation.ReflTransGen (Step step env) (p >>= f, s) (ret b, s')) :
    ∃ a s₁, Relation.ReflTransGen (Step step env) (p, s) (ret a, s₁) ∧
      Relation.ReflTransGen (Step step env) (f a, s₁) (ret b, s') := by
  rcases run_parts f p h with ⟨p', hret, hp⟩ | hparts
  · cases p' with
    | ret a => exact ⟨a, s', hp, by rw [show f a = ret b from hret.symm]⟩
    | op o k => cases hret
    | abort => cases hret
  · exact hparts

/-- A program that no state stops has a run to its end. -/
theorem wp_complete {Q : α → σ → Prop} (htotal : ∀ o s, ∃ r s', step o s r s') (p : Prog Op Res α) :
    ∀ {s : σ}, wp step env guar p Q s →
      ∃ a s', Relation.ReflTransGen (Step step env) (p, s) (ret a, s') := by
  induction p with
  | ret a => exact fun _ => ⟨a, _, .refl⟩
  | op o k ih =>
    intro s h
    obtain ⟨r, s₁, hop⟩ := htotal o s
    obtain ⟨a, s', hrest⟩ := ih r (h s .refl r s₁ hop).2
    exact ⟨a, s', .head (.op hop) hrest⟩
  | abort => exact fun h => h.elim

/-- Every operation of the program keeps the invariant `J` and changes the state as `guar` allows,
whatever the operations before it gave. -/
def Keeps (step : (o : Op) → σ → Res o → σ → Prop) (guar : σ → σ → Prop) (J : σ → Prop) :
    Prog Op Res α → Prop
  | ret _ => True
  | op o k => (∀ s r s', J s → step o s r s' → guar s s' ∧ J s') ∧ ∀ r, Keeps step guar J (k r)
  | abort => True

variable {J : σ → Prop}

theorem Keeps.bind {p : Prog Op Res α} {f : α → Prog Op Res β} (hp : Keeps step guar J p)
    (hf : ∀ a, Keeps step guar J (f a)) : Keeps step guar J (p >>= f) := by
  induction p with
  | ret a => exact hf a
  | op o k ih => exact ⟨hp.1, fun r => ih r (hp.2 r)⟩
  | abort => trivial

theorem Keeps.perform {o : Op} (h : ∀ s r s', J s → step o s r s' → guar s s' ∧ J s') :
    Keeps step guar J (Prog.perform o) := ⟨h, fun _ => trivial⟩

theorem Keeps.ofOption (o : Option α) : Keeps step guar J (Prog.ofOption o) := by
  cases o with
  | none => trivial
  | some a => trivial

/-- A weakest precondition with the guarantee that the operations keep. -/
theorem Keeps.wp {guar₀ : σ → σ → Prop} {Q : α → σ → Prop} (henv : ∀ s s', J s → env s s' → J s')
    (p : Prog Op Res α) : ∀ {s : σ}, Keeps step guar J p → J s → wp step env guar₀ p Q s →
      wp step env (fun s s' => guar s s' ∧ J s') p Q s := by
  induction p with
  | ret a => exact fun _ _ h => h
  | op o k ih =>
    intro s hp hJ h s₁ hs₁ r s₂ hop
    have hJ₁ : J s₁ := Stable.closure env (P := J) henv hJ hs₁
    obtain ⟨hguar, hJ₂⟩ := hp.1 s₁ r s₂ hJ₁ hop
    exact ⟨⟨hguar, hJ₂⟩, ih r (hp.2 r) hJ₂ (h s₁ hs₁ r s₂ hop).2⟩
  | abort => exact fun _ _ h => h

/-- What every operation and the environment guarantee, a run guarantees. -/
theorem wp_guar {Q : α → σ → Prop} (hQ : ∀ a, Stable env (Q a)) (hrefl : ∀ s, guar s s)
    (htrans : ∀ {s s' s''}, guar s s' → guar s' s'' → guar s s'')
    (henv : ∀ s s', J s → env s s' → guar s s' ∧ J s') {c c' : Prog Op Res α × σ}
    (hw : wp step env (fun s s' => guar s s' ∧ J s') c.1 Q c.2) (hJ : J c.2)
    (h : Relation.ReflTransGen (Step step env) c c') : guar c.2 c'.2 ∧ J c'.2 := by
  induction h with
  | refl => exact ⟨hrefl _, hJ⟩
  | tail hc hstep ih =>
    obtain ⟨hguar, hJ'⟩ := ih
    cases hstep with
    | op hop =>
      obtain ⟨⟨hguar', hJ''⟩, -⟩ := wp_op step env _ (wp_steps step env _ hQ hw hc) hop
      exact ⟨htrans hguar hguar', hJ''⟩
    | env hs =>
      obtain ⟨hguar', hJ''⟩ := henv _ _ hJ' hs
      exact ⟨htrans hguar hguar', hJ''⟩

end Parts

/-! ## Scheduled runs -/

section Scheduled

variable {τ : Type} (act : (o : Op) → τ → Res o × τ)

/-- The run under a scheduler that fixes the outcome of every operation. -/
def run : Prog Op Res α → τ → Option (α × τ)
  | ret a, s => some (a, s)
  | op o k, s => run (k (act o s).1) (act o s).2
  | abort, _ => none

variable (step : (o : Op) → σ → Res o → σ → Prop) (env guar : σ → σ → Prop) (view : τ → σ)

/-- A scheduled run is a run. -/
theorem steps_of_run (hact : ∀ o s, step o (view s) (act o s).1 (view (act o s).2)) :
    ∀ (p : Prog Op Res α) (s : τ) (a : α) (t : τ), run act p s = some (a, t) →
      Relation.ReflTransGen (Step step env) (p, view s) (ret a, view t)
  | ret a, s, a', t, h => by
      rw [run, Option.some.injEq, Prod.mk.injEq] at h
      rw [h.1, h.2]
  | op o k, s, a, t, h =>
      Relation.ReflTransGen.head (Step.op (hact o s))
        (steps_of_run hact (k (act o s).1) (act o s).2 a t h)
  | abort, _, _, _, h => by simp [run] at h

/-- The first `n` operations of a scheduled run. -/
def runFor : Nat → Prog Op Res α × τ → Prog Op Res α × τ
  | n + 1, (op o k, s) => runFor n (k (act o s).1, (act o s).2)
  | _, c => c

theorem steps_of_runFor (hact : ∀ o s, step o (view s) (act o s).1 (view (act o s).2)) (n : Nat) :
    ∀ c : Prog Op Res α × τ, Relation.ReflTransGen (Step step env) (c.1, view c.2)
      ((runFor act n c).1, view (runFor act n c).2) := by
  induction n with
  | zero => exact fun _ => Relation.ReflTransGen.refl
  | succ n ih =>
      rintro ⟨p, s⟩
      cases p with
      | ret a => exact Relation.ReflTransGen.refl
      | op o k => exact Relation.ReflTransGen.head (Step.op (hact o s)) (ih (k (act o s).1, (act o s).2))
      | abort => exact Relation.ReflTransGen.refl

/-- A scheduled run from a state with the weakest precondition ends with the postcondition. -/
theorem wp_run (hact : ∀ o s, step o (view s) (act o s).1 (view (act o s).2))
    {Q : α → σ → Prop} : ∀ (p : Prog Op Res α) (s : τ), wp step env guar p Q (view s) →
      ∃ a t, run act p s = some (a, t) ∧ Q a (view t)
  | ret a, s, h => ⟨a, s, rfl, h⟩
  | op o k, s, h =>
      wp_run hact (k (act o s).1) (act o s).2
        (h _ Relation.ReflTransGen.refl _ _ (hact o s)).2
  | abort, _, h => h.elim

end Scheduled

end Prog

end CloudLabs.Foundation
