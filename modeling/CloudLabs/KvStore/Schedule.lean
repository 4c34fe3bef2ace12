import CloudLabs.KvStore.System

/-!
# Scheduled runs

`Sys.perform` carries out one atomic operation with a given outcome of the request it may start, and
`Act` is a step of the system, or the next operations of the call in progress, with everything that
is left open fixed. `Config.exec_run`: a sequence of acts that can be carried out is a run.
-/

set_option autoImplicit false

namespace CloudLabs.KvStore

open CloudLabs.Foundation

/-- One atomic operation; a request it starts has the outcome `x`. -/
def Sys.perform (x : Choice) : (o : Op) → Sys → o.Res × Sys
  | .wait _ _, s => ((), s)
  | .post ⟨ch, .task, id⟩ .full, s =>
      ((), s.work id (workerRound ch x id (s.c.p id) (s.node id)))
  | .post _ _, s => ((), s)
  | .setTask ch id task, s =>
      ((), { s with c := { s.c with p := Function.update s.c.p id ((s.c.p id).setTask ch task) } })
  | .readRet ch id, s => (((s.c.p id).buf ch).ret, s)
  | .readData ch id, s => (((s.c.p id).buf ch).dataRet, s)
  | .readMem, s => (s.c, s)
  | .updateMem f, s => ((), { s with c := f s.c })

theorem Sys.perform_step {F : Faults} {x : Choice} (hx : ∀ id, F.choice id x) (o : Op) (s : Sys) :
    Sys.Step F o s (s.perform x o).1 (s.perform x o).2 := by
  cases o with
  | wait l sem => rfl
  | post l sem =>
      obtain ⟨ch, side, id⟩ := l
      cases side with
      | task =>
          cases sem with
          | empty => rfl
          | full => exact ⟨x, hx id, rfl⟩
          | mutex => rfl
      | ret => cases sem <;> rfl
  | setTask ch id task => rfl
  | readRet ch id => exact ⟨rfl, rfl⟩
  | readData ch id => exact ⟨rfl, rfl⟩
  | readMem => exact ⟨rfl, rfl⟩
  | updateMem f => rfl

/-- The operation starts a worker's round. -/
def Op.starts : Op → Bool
  | .post ⟨_, .task, _⟩ .full => true
  | _ => false

/-- One atomic operation with the outcomes of the next requests given in order; later ones are
answered. -/
def performNext (o : Op) (r : Sys × List Choice) : o.Res × (Sys × List Choice) :=
  let p := r.1.perform (r.2.headD .answer) o
  (p.1, p.2, if o.starts then r.2.tail else r.2)

/-- Everything may fail, and the participants in `restarts` may restart with empty memories. -/
def Faults.any (restarts : Nat → Bool) : Faults where
  choice _ _ := True
  drop _ := True
  fresh id q := restarts id = true ∧ q = Participant.Init

/-- Nothing fails. -/
def Faults.none : Faults where
  choice _ x := x = .answer
  drop _ := False
  fresh _ _ := False

/-- A run whose steps satisfy the condition. -/
def Config.Run (F : Faults) (pnum : Nat) (ok : Config → Label → Prop) : Config → Config → Prop :=
  Relation.ReflTransGen fun c c' => ∃ l, ok c l ∧ Config.Step F pnum c l c'

theorem Config.Run.mono {F : Faults} {pnum : Nat} {ok ok' : Config → Label → Prop} {c c' : Config}
    (h : Config.Run F pnum ok c c') (hok : ∀ c l, ok c l → ok' c l) : Config.Run F pnum ok' c c' := by
  induction h with
  | refl => exact Relation.ReflTransGen.refl
  | tail _ hs ih =>
      obtain ⟨l, hl, hstep⟩ := hs
      exact ih.tail ⟨l, hok _ l hl, hstep⟩

/-- A step with everything that is left open fixed; `run` takes the next `n` operations of the
call. -/
inductive Act where
  | drop (id : Nat)
  | restart (id : Nat)
  | connect (id : Nat)
  | enter
  | begin
  | done
  | accept (task : List Bytes)
  | start
  | run (n : Nat) (outcomes : List Choice)
  | reply
  | recover
  | recovered

/-- The configuration with another node. -/
def Config.setNode (c : Config) (id : Nat) (n : Node) : Config :=
  { c with sys := { c.sys with node := Function.update c.sys.node id n } }

/-- The configuration after an act that can be carried out, and the label of its steps. -/
def Config.next (restarts : Nat → Bool) (pnum : Nat) : Act → Config → Option (Label × Config)
  | .drop id, c => some (.internal, c.setNode id { c.sys.node id with alive := false })
  | .restart id, c =>
      if restarts id then some (.internal, c.setNode id ⟨Participant.Init, none, false, false⟩) else none
  | .connect id, c =>
      match c.sys.rpc with
      | .running => none
      | _ =>
          if (c.sys.c.p id).pstate = .P_WAITING ∧ (c.sys.node id).pending = none then
            some (.internal, { c with sys := c.sys.connect id })
          else none
  | .enter, c =>
      match c.sys.rpc with
      | .idle => some (.internal,
          { c with sys := { c.sys with c := clearMaxTxid c.sys.c, rpc := .entered (c.sys.c.TXID - 1) } })
      | _ => none
  | .begin, c =>
      match c.sys.rpc with
      | .entered m =>
          if c.sys.c.tmpNum ≠ 0 then
            some (.internal,
              { c with sys := { c.sys with c := { c.sys.c with cstate := .C_RECOVERY }, rpc := .begun m } })
          else none
      | _ => none
  | .done, c =>
      match c.sys.rpc with
      | .released => some (.internal,
          { c with sys := { c.sys with c := { c.sys.c with cstate := .C_WORKING }, rpc := .idle } })
      | _ => none
  | .accept task, ⟨s, none, .idle⟩ =>
      if task ≠ [] ∧ s.c.cstate = .C_WORKING then some (.accept task, ⟨s, some task, .idle⟩) else none
  | .start, ⟨s, some task, .idle⟩ =>
      some (.start task, ⟨{ s with hist := [] }, none, .work task s.c.TXID (Working pnum task)⟩)
  | .run n xs, ⟨s, a, .work task txid p⟩ =>
      let r := Prog.runFor performNext n (p, (s, xs))
      some (.internal, ⟨r.2.1, a, .work task txid r.1⟩)
  | .run n xs, ⟨s, a, .recover p⟩ =>
      let r := Prog.runFor performNext n (p, (s, xs))
      some (.internal, ⟨r.2.1, a, .recover r.1⟩)
  | .reply, ⟨s, a, .work task txid (.ret rc)⟩ => some (.reply task txid rc, ⟨s, a, .idle⟩)
  | .recover, ⟨s, a, .idle⟩ =>
      match s.rpc with
      | .begun m =>
          some (.recover, ⟨{ s with hist := [], rpc := .running }, a, .recover (Recovery pnum m)⟩)
      | _ => none
  | .recovered, ⟨s, a, .recover (.ret ())⟩ => some (.recovered, ⟨{ s with rpc := .released }, a, .idle⟩)
  | _, _ => none

/-- The configuration after a sequence of acts that can be carried out and satisfy the condition. -/
def Config.exec (restarts : Nat → Bool) (pnum : Nat) (ok : Config → Label → Bool) :
    List Act → Config → Option Config
  | [], c => some c
  | act :: acts, c =>
      (c.next restarts pnum act).bind fun r =>
        if ok c r.1 then r.2.exec restarts pnum ok acts else none

section Sound

variable {restarts : Nat → Bool} {pnum : Nat}

theorem performNext_step (o : Op) (r : Sys × List Choice) :
    Sys.Step (Faults.any restarts) o r.1 (performNext o r).1 (performNext o r).2.1 :=
  Sys.perform_step (fun _ => trivial) o r.1

/-- The operations of a call are steps of the system. -/
theorem Config.run_of_steps {F : Faults} {α : Type} {f : Sys → Proc α → Config}
    (hop : ∀ s s' o k r, Sys.Step F o s r s' →
      Config.Step F pnum (f s (.op o k)) .internal (f s' (k r)))
    (henv : ∀ s s' p, Env F s s' → Config.Step F pnum (f s p) .internal (f s' p))
    {c c' : Proc α × Sys} (h : Relation.ReflTransGen (Prog.Step (Sys.Step F) (Env F)) c c') :
    Config.Run F pnum (fun _ l => l = .internal) (f c.2 c.1) (f c'.2 c'.1) := by
  induction h with
  | refl => exact Relation.ReflTransGen.refl
  | tail _ hstep ih =>
      cases hstep with
      | op hs => exact ih.tail ⟨_, rfl, hop _ _ _ _ _ hs⟩
      | env hs => exact ih.tail ⟨_, rfl, henv _ _ _ hs⟩

/-- The act is a part of the call in progress. -/
def Act.isRun : Act → Prop
  | .run _ _ => True
  | _ => False

/-- Every other act that can be carried out is one step. -/
theorem Config.next_step {act : Act} {c c' : Config} {l : Label} (hact : ¬ act.isRun)
    (h : c.next restarts pnum act = some (l, c')) :
    Config.Step (Faults.any restarts) pnum c l c' := by
  obtain ⟨s, a, k⟩ := c
  cases act with
  | drop id =>
      cases h
      exact .env (.node (.drop trivial))
  | restart id =>
      simp only [Config.next] at h
      split at h
      · rename_i hr
        cases h
        exact .env (.node (.restart ⟨hr, rfl⟩))
      · cases h
  | connect id =>
      simp only [Config.next] at h
      split at h
      · cases h
      · rename_i hrpc
        split at h
        · rename_i hst
          cases h
          exact .env (.connect hrpc hst.1 hst.2)
        · cases h
  | enter =>
      simp only [Config.next] at h
      split at h
      · rename_i hrpc
        cases h
        exact .env (.enter hrpc)
      · cases h
  | begin =>
      simp only [Config.next] at h
      split at h
      · rename_i m hrpc
        split at h
        · rename_i htmp
          cases h
          exact .env (.begin hrpc htmp)
        · cases h
      · cases h
  | done =>
      simp only [Config.next] at h
      split at h
      · rename_i hrpc
        cases h
        exact .env (.done hrpc)
      · cases h
  | accept task =>
      cases a with
      | some _ => cases h
      | none =>
          cases k with
          | idle =>
              simp only [Config.next] at h
              split at h
              · rename_i hc
                cases h
                exact .accept (fun h => h) hc.1 hc.2
              · cases h
          | work _ _ _ => cases h
          | recover _ => cases h
  | start =>
      cases a with
      | none => cases k <;> cases h
      | some task =>
          cases k with
          | idle =>
              cases h
              exact .start
          | work _ _ _ => cases h
          | recover _ => cases h
  | run n xs => exact absurd trivial hact
  | reply =>
      cases k with
      | idle => cases h
      | work task txid p =>
          cases p with
          | ret rc =>
              cases h
              exact .reply
          | op _ _ => cases h
          | abort => cases h
      | recover _ => cases h
  | recover =>
      cases k with
      | idle =>
          simp only [Config.next] at h
          split at h
          · rename_i m hrpc
            cases h
            exact .recover hrpc
          · cases h
      | work _ _ _ => cases h
      | recover _ => cases h
  | recovered =>
      cases k with
      | idle => cases h
      | work _ _ _ => cases h
      | recover p =>
          cases p with
          | ret u =>
              cases h
              exact .recovered
          | op _ _ => cases h
          | abort => cases h

theorem Config.next_internal {act : Act} {c c' : Config} {l : Label} (hact : act.isRun)
    (h : c.next restarts pnum act = some (l, c')) : l = .internal := by
  obtain ⟨s, a, k⟩ := c
  cases act with
  | run n xs =>
      cases k with
      | idle => cases h
      | work task txid p => cases h; rfl
      | recover p => cases h; rfl
  | _ => exact absurd hact id

/-- An act that can be carried out is a run, all of whose steps have its label. -/
theorem Config.next_run {act : Act} {c c' : Config} {l : Label}
    (h : c.next restarts pnum act = some (l, c')) :
    Config.Run (Faults.any restarts) pnum (fun _ l' => l' = l) c c' := by
  by_cases hact : act.isRun
  · obtain ⟨s, a, k⟩ := c
    cases act with
    | run n xs =>
        cases k with
        | idle => cases h
        | work task txid p =>
            cases h
            exact Config.run_of_steps (f := fun s p => ⟨s, a, .work task txid p⟩)
              (fun _ _ _ _ _ hs => .work hs) (fun _ _ _ hs => .env hs)
              (Prog.steps_of_runFor performNext _ _ Prod.fst performNext_step n (p, (s, xs)))
        | recover p =>
            cases h
            exact Config.run_of_steps (f := fun s p => ⟨s, a, .recover p⟩)
              (fun _ _ _ _ _ hs => .recovery hs) (fun _ _ _ hs => .env hs)
              (Prog.steps_of_runFor performNext _ _ Prod.fst performNext_step n (p, (s, xs)))
    | _ => exact absurd hact id
  · exact Relation.ReflTransGen.single ⟨l, rfl, Config.next_step hact h⟩

/-- A sequence of acts that can be carried out is a run whose steps are internal or satisfy the
condition. -/
theorem Config.exec_run {ok : Config → Label → Bool} (acts : List Act) : ∀ {c c' : Config},
    c.exec restarts pnum ok acts = some c' →
    Config.Run (Faults.any restarts) pnum (fun c l => l = .internal ∨ ok c l = true) c c' := by
  induction acts with
  | nil =>
      intro c c' h
      cases h
      exact Relation.ReflTransGen.refl
  | cons act acts ih =>
      intro c c' h
      rw [Config.exec] at h
      obtain ⟨⟨l, c₁⟩, h₁, h₂⟩ := Option.bind_eq_some_iff.1 h
      split at h₂
      · rename_i hok
        refine Relation.ReflTransGen.trans ?_ (ih h₂)
        by_cases hact : act.isRun
        · refine (Config.next_run h₁).mono fun _ l' hl => Or.inl ?_
          rw [hl, Config.next_internal hact h₁]
        · exact Relation.ReflTransGen.single ⟨l, Or.inr hok, Config.next_step hact h₁⟩
      · cases h₂

end Sound

section Found

variable (restarts : Nat → Bool) (pnum : Nat) (ok : Config → Label → Bool) (acts : List Act)
  (c : Config)

/-- A sequence of acts that was found to lead to a configuration with a property is a run to such a
configuration. -/
theorem Config.exec_any (P : Config → Prop) [∀ c, Decidable (P c)]
    (h : (c.exec restarts pnum ok acts).any (fun c' => decide (P c')) = true) :
    ∃ c', Config.Run (Faults.any restarts) pnum (fun c l => l = .internal ∨ ok c l = true) c c' ∧
      P c' := by
  obtain ⟨c', hexec, hP⟩ := (Option.any_eq_true _ _).1 h
  exact ⟨c', Config.exec_run acts hexec, of_decide_eq_true hP⟩

/-- The same for the step after the sequence. -/
theorem Config.exec_next {act : Act} (hact : ¬ act.isRun) (P : Config → Label → Config → Prop)
    [∀ c l c', Decidable (P c l c')]
    (h : (c.exec restarts pnum ok acts).any (fun c₁ => (c₁.next restarts pnum act).any fun r =>
      decide (P c₁ r.1 r.2)) = true) :
    ∃ (c₁ : Config) (l : Label) (c₂ : Config),
      Config.Run (Faults.any restarts) pnum (fun c l => l = .internal ∨ ok c l = true) c c₁ ∧
      Config.Step (Faults.any restarts) pnum c₁ l c₂ ∧ P c₁ l c₂ := by
  obtain ⟨c₁, hexec, hnext⟩ := (Option.any_eq_true _ _).1 h
  obtain ⟨⟨l, c₂⟩, hstep, hP⟩ := (Option.any_eq_true _ _).1 hnext
  exact ⟨c₁, l, c₂, Config.exec_run acts hexec, Config.next_step hact hstep, of_decide_eq_true hP⟩

end Found

end CloudLabs.KvStore
