import CloudLabs.KvStore.RecoveryThread

/-!
# Reconnected participants

Every thread that `Launch` starts keeps the invariant and its guarantee, so both hold in all states
and of all steps of every interleaving. For the participants this means that `_tmpNum` counts those
in the state `P_TEMP` whenever `_recoveryMutex` is free, that their states change in six ways only,
and that the recovery thread never gives the mutex back while one of them is left in `P_TEMP`.
-/

set_option autoImplicit false

namespace CloudLabs.KvStore.Threads

open CloudLabs.Foundation
open Function (update)
open Relation (ReflTransGen)

/-! ## All threads -/

/-- What is left of the rounds of all threads, and what they share. -/
abbrev Config (ν : Type) := Pool Thread Act Act.Res (Shared ν)

/-- One operation of one thread, or the beginning of its next round. -/
abbrev Next {ν : Type} (N : Link ν) (pnum : Nat) : Config ν → Config ν → Prop :=
  Pool.Step (Launch pnum) (Act.Step N)

section All

variable {ν : Type} {N : Link ν} {K : Contract N} {pnum : Nat} {net : Nat → ν} {s s' : Config ν}

/-- What holds of a thread between two of its rounds. -/
def Between : Thread → View ν → Prop
  | .work, v => v.owner .workingMutex ≠ some .work
  | .recovery, v => ∀ m, v.owner m ≠ some .recovery
  | .worker ch id, v => Idle ch id v
  | _, _ => True

theorem between_lasting (t : Thread) : Lasting K pnum t (Between t) := by
  cases t with
  | work => exact notOwner_lasting .workingMutex
  | recovery =>
    exact fun t' v v' hne hv hv' hG h m => notOwner_lasting m t' v v' hne hv hv' hG (h m)
  | keepAlive id => exact Lasting.true
  | worker ch id => exact idle_lasting
  | outside => exact Lasting.true

/-- One round of any thread. -/
theorem spec_Launch (t : Thread) :
    Does K pnum t (Between t) (Launch pnum t) fun _ => Between t := by
  cases t with
  | work => exact spec_Working
  | recovery => exact spec_Recovery
  | keepAlive id => exact Does.ite spec_keepAlive fun _ => Does.ret fun _ _ h => h
  | worker ch id =>
    cases ch with
    | working => exact Does.ite (fun _ => spec_pWorking) fun _ => Does.ret fun _ _ h => h
    | recovery => exact Does.ite (fun _ => spec_pRecovery) fun _ => Does.ret fun _ _ h => h
  | outside => exact spec_outside

theorem temps_Init : temps pnum (Shared.Init pnum net).view = 0 := by
  rw [temps, List.countP_eq_zero]
  intro id hid
  have hst : (Shared.Init pnum net).view.pstate id = .P_WAITING := if_pos hid
  rw [hst]
  decide

theorem inv_Init (hnet : ∀ id, K.Clean (net id)) : Inv K pnum (Shared.Init pnum net).view where
  fits := by
    intro ch id
    refine ⟨⟨rfl, rfl, ?_, ?_⟩, ?_, ?_, ?_, ?_, ?_, ?_⟩
    · exact fun hno => Bool.noConfusion hno
    · rintro - a ⟨⟩
    · exact fun hno => Bool.noConfusion hno
    · exact fun _ hno => absurd hno (Nat.lt_irrefl 0)
    · exact fun _ hno => absurd hno (Nat.lt_irrefl 0)
    · exact fun hno => Bool.noConfusion hno
    · rintro r ⟨⟩
    · rintro k a r ⟨⟩
  counted := fun _ => temps_Init.symm
  clean := fun id _ => hnet id
  readings := by
    rintro r ⟨⟩

theorem between_Init (t : Thread) : Between t (Shared.Init pnum net).view := by
  cases t with
  | work => exact fun hno => by cases hno
  | recovery => exact fun m hno => by cases hno
  | keepAlive id => trivial
  | worker ch id => rfl
  | outside => trivial

/-- The invariant holds in every state of every interleaving. -/
theorem Reached.inv (hnet : ∀ id, K.Clean (net id)) (h : Reached N pnum net s) :
    Inv K pnum s.shared.view :=
  Pool.Reached.invariant (fun t => (between_lasting t).steady) spec_Launch (inv_Init hnet)
    between_Init h

/-- Every step of every interleaving is one that its thread may do. -/
theorem Reached.guar (h : Reached N pnum net s) (hstep : Next N pnum s s') :
    s'.shared = s.shared ∨ ∃ t, Guar N pnum t s.shared.view s'.shared.view :=
  Pool.Reached.guarantee (fun t => (between_lasting (K := Contract.trivial N) t).steady) spec_Launch
    (inv_Init fun _ => trivial) between_Init h hstep

theorem Reached.run (h : Reached N pnum net s) (hrun : ReflTransGen (Next N pnum) s s') :
    Reached N pnum net s' :=
  ReflTransGen.trans h hrun

end All

/-! ## The states of a participant -/

/-- The changes of a participant's state. -/
inductive Transition : PState → PState → Prop
  | reconnected : Transition .P_WAITING .P_TEMP
  | joined : Transition .P_TEMP .P_RECOVERY
  | reopened : Transition .P_WORKING .P_RECOVERY
  | recovered : Transition .P_RECOVERY .P_WORKING
  | lostInRecovery : Transition .P_RECOVERY .P_WAITING
  | lost : Transition .P_WORKING .P_WAITING

section Participants

variable {ν : Type} {N : Link ν} {pnum : Nat} {net : Nat → ν} {s s' : Config ν} {id : Nat}

/-- The state of a participant in the coordinator's memory. -/
def Config.pstate (s : Config ν) (id : Nat) : PState := (s.shared.c.p id).pstate

theorem Change.transition {t : Thread} {v : View ν} {st st' : PState} (h : Change t v id st st') :
    Transition st st' := by
  cases h with
  | connected _ _ hfrom hto =>
    rw [hfrom, hto]
    exact .reconnected
  | @lost ch _ _ hfrom hto =>
    rw [hfrom, hto]
    cases ch with
    | working => exact .lost
    | recovery => exact .lostInRecovery
  | taken _ _ _ _ hfrom hto =>
    rw [hto]
    rcases hfrom with hfrom | hfrom
    · rw [hfrom]
      exact .joined
    · rw [hfrom]
      exact .reopened
  | recovered _ _ _ _ hfrom hto =>
    rw [hfrom, hto]
    exact .recovered

/-- What a step does to the state of a participant. -/
theorem Reached.pstate_cases (h : Reached N pnum net s) (hstep : Next N pnum s s') (id : Nat) :
    s'.pstate id = s.pstate id ∨ ∃ t, Change t s.shared.view id (s.pstate id) (s'.pstate id) := by
  rcases h.guar hstep with heq | ⟨t, hG⟩
  · left
    rw [Config.pstate, heq]
    rfl
  · exact (hG.state id).imp_right fun hchange => ⟨t, hchange⟩

/-- The recovery thread keeps `_recoveryMutex` until no participant is left in the state
`P_TEMP`. -/
theorem Reached.release (h : Reached N pnum net s) (hstep : Next N pnum s s')
    (hheld : s.shared.owner .recoveryMutex = some .recovery)
    (hfree : s'.shared.owner .recoveryMutex = none) : ∀ id ∈ pids pnum, s.pstate id ≠ .P_TEMP := by
  rcases h.guar hstep with heq | ⟨t, hG⟩
  · rw [heq, hheld] at hfree
    cases hfree
  · rcases hG.owner .recoveryMutex with hsame | ⟨hnone, -⟩ | ⟨hsome, -⟩
    · exact absurd (hfree.symm.trans (hsame.trans hheld)) (Option.some_ne_none _).symm
    · exact absurd (hnone.symm.trans hheld) (Option.some_ne_none _).symm
    · have ht : t = .recovery := Option.some.inj (hsome.symm.trans hheld)
      subst ht
      exact hG.release rfl hheld hfree

/-- A participant leaves the state `P_TEMP` when the recovery thread, with both mutexes, takes
it. -/
def Taken (N : Link ν) (pnum id : Nat) (s s' : Config ν) : Prop :=
  ∃ a b, ReflTransGen (Next N pnum) s a ∧ Next N pnum a b ∧ ReflTransGen (Next N pnum) b s' ∧
    a.shared.owner .recoveryMutex = some .recovery ∧ a.shared.owner .workingMutex = some .recovery ∧
    a.pstate id = .P_TEMP ∧ b.pstate id = .P_RECOVERY

theorem temp_or_taken (h : Reached N pnum net s) (hst : s.pstate id = .P_TEMP)
    (hrun : ReflTransGen (Next N pnum) s s') : s'.pstate id = .P_TEMP ∨ Taken N pnum id s s' := by
  induction hrun with
  | refl => exact .inl hst
  | @tail a b hrun hstep ih =>
    rcases ih with htemp | ⟨a', b', h₁, h₂, h₃, hrest⟩
    · rcases (h.run hrun).pstate_cases hstep id with hsame | ⟨t, hchange⟩
      · exact .inl (hsame.trans htemp)
      · right
        rw [htemp] at hchange
        -- only the recovery thread takes a participant out of `P_TEMP`
        cases hchange with
        | connected _ _ hfrom => cases hfrom
        | @lost ch _ _ hfrom => cases ch <;> cases hfrom
        | taken ht hrec hwork _ _ hto =>
          subst ht
          exact ⟨a, b, hrun, hstep, .refl, hrec, hwork, htemp, hto⟩
        | recovered _ _ _ _ hfrom => cases hfrom
    · exact .inr ⟨a', b', h₁, h₂, h₃.tail hstep, hrest⟩

/-- No reconnected participant is forgotten. While `_recoveryMutex` is free, `_tmpNum` counts the
participants in the state `P_TEMP`, and it is not `0` if there is one. States change in six ways
only, and `_tmpNum` does otherwise than grow by one only when no participant is in the state
`P_TEMP`. A participant in that state is taken into recovery before the recovery thread gives back
the mutex. -/
theorem reconnect_not_forgotten (N : Link ν) (pnum : Nat) (net : Nat → ν) (s : Config ν)
    (h : Reached N pnum net s) :
    (s.shared.owner .recoveryMutex = none →
      s.shared.c.tmpNum = (pids pnum).countP fun id => s.pstate id = .P_TEMP) ∧
    (s.shared.owner .recoveryMutex = none → (∃ id ∈ pids pnum, s.pstate id = .P_TEMP) →
      s.shared.c.tmpNum ≠ 0) ∧
    (∀ s', Next N pnum s s' → ∀ id, s'.pstate id = s.pstate id ∨
      Transition (s.pstate id) (s'.pstate id)) ∧
    (∀ s', Next N pnum s s' → s'.shared.c.tmpNum ≠ s.shared.c.tmpNum →
      s'.shared.c.tmpNum = s.shared.c.tmpNum + 1 ∨ ∀ id ∈ pids pnum, s.pstate id ≠ .P_TEMP) ∧
    (∀ id ∈ pids pnum, s.pstate id = .P_TEMP → ∀ s₁ s₂, ReflTransGen (Next N pnum) s s₁ →
      Next N pnum s₁ s₂ → s₁.shared.owner .recoveryMutex = some .recovery →
      s₂.shared.owner .recoveryMutex = none → Taken N pnum id s s₁) := by
  have hcount : s.shared.owner .recoveryMutex = none →
      s.shared.c.tmpNum = (pids pnum).countP fun id => s.pstate id = .P_TEMP := by
    have hinv : Inv (Contract.trivial N) pnum s.shared.view := h.inv fun _ => trivial
    exact hinv.counted
  refine ⟨hcount, ?_, ?_, ?_, ?_⟩
  · rintro hfree ⟨id, hid, hst⟩
    rw [hcount hfree]
    exact Nat.pos_iff_ne_zero.mp (List.countP_pos_iff.mpr ⟨id, hid, by simpa using hst⟩)
  · intro s' hstep id
    exact (h.pstate_cases hstep id).imp_right fun ⟨_, hchange⟩ => hchange.transition
  · intro s' hstep hne
    rcases h.guar hstep with heq | ⟨t, hG⟩
    · rw [heq] at hne
      exact absurd rfl hne
    · rcases hG.count with hsame | ⟨-, hcases⟩
      · exact absurd hsame hne
      · exact hcases
  · -- the mutex is given back with nobody in `P_TEMP`
    intro id hid hst s₁ s₂ hrun hstep hheld hfree
    rcases temp_or_taken h hst hrun with htemp | htaken
    · exact absurd htemp ((h.run hrun).release hstep hheld hfree id hid)
    · exact htaken

/-- A connection on which every call may give anything. -/
def Link.any : Link Unit where
  reconnect := fun _ _ => True
  send := fun _ _ _ _ => True
  recv := fun _ _ _ _ => True
  close := fun _ _ => True
  move := fun _ _ => True

theorem Reached.op {prog : Thread → Routine Unit} {x : Shared ν} {t : Thread} {o : Act}
    {k : o.Res → Routine Unit} (h : Reached N pnum net ⟨prog, x⟩) (r : o.Res) (x' : Shared ν)
    (hprog : prog t = .op o k) (hstep : Act.Step N t o x r x') :
    Reached N pnum net ⟨update prog t (k r), x'⟩ :=
  ReflTransGen.tail h (.op hprog hstep)

/-- One round of `keepAlive`: the participant is in the state `P_TEMP`, and counted. -/
theorem reconnect_not_forgotten_one : ∃ s : Config Unit, Reached Link.any 1 (fun _ => ()) s ∧
    s.pstate 1 = .P_TEMP ∧ s.shared.c.tmpNum ≠ 0 := by
  have h₀ : Reached Link.any 1 (fun _ => ()) ⟨Launch 1, Shared.Init 1 fun _ => ()⟩ := .refl
  have h₁ := h₀.op (t := .keepAlive 1) (o := .mem .readMem) _ _ rfl ⟨rfl, rfl⟩
  have h₂ := h₁.op (t := .keepAlive 1) (o := .reconnect 1) () _ (Function.update_self ..)
    ⟨(), trivial, rfl⟩
  have h₃ := h₂.op (t := .keepAlive 1) (o := .lock .recoveryMutex) () _ (Function.update_self ..)
    ⟨rfl, rfl⟩
  have h₄ := h₃.op (t := .keepAlive 1) (o := .mem (.updateMem (setPState 1 .P_TEMP))) () _
    (Function.update_self ..) rfl
  have h₅ := h₄.op (t := .keepAlive 1) (o := .mem (.updateMem incTmpNum)) () _
    (Function.update_self ..) rfl
  have h₆ := h₅.op (t := .keepAlive 1) (o := .unlock .recoveryMutex) () _
    (Function.update_self ..) rfl
  exact ⟨_, h₆, rfl, (reconnect_not_forgotten Link.any 1 _ _ h₆).2.1 rfl ⟨1, by decide, rfl⟩⟩

end Participants

end CloudLabs.KvStore.Threads
