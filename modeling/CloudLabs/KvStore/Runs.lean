import CloudLabs.KvStore.Recovery
import CloudLabs.KvStore.Schedule

/-!
# The invariant of a run

`Config.Inv`: the invariant holds between the operations of the calls, the participants are in step
with the coordinator between the calls, and the rest of a call in progress leads to the result its
triple promises. Every step but a reply keeps it (`Config.Inv.step`); a reply leaves the state that
`Worked` describes (`Config.Inv.reply`).

`committed_log_grows` and `txids_in_step` are read off this invariant with every event related to
every number.
-/

set_option autoImplicit false

namespace CloudLabs.KvStore

open CloudLabs.Foundation

/-- The state between two calls. -/
def Quiet (S : Setting) (s : Sys) : Prop :=
  ∃ T, Assert S false (fun t _ _ => t = T) (Synced S.steady T) s

/-- Every run of the program ends with the postcondition. -/
abbrev Leads (S : Setting) {α : Type} (p : Proc α) (Q : α → Sys → Prop) (s : Sys) : Prop :=
  Prog.wp (Sys.Step S.faults) (Env S.faults) (Guarantee S.loose) p Q s

/-- What holds while a call is in progress, and between the calls. -/
def CallOk (S : Setting) (s : Sys) : Call → Prop
  | .idle => Quiet S s
  | .work task txid prog => Leads S prog (Worked S txid task) s
  | .recover prog => Leads S prog (fun _ => Recovered S) s

/-- The invariant of a run. -/
def Config.Inv (S : Setting) (c : Config) : Prop :=
  ∃ f, Core (S.since f).loose c.sys ∧ CallOk (S.since f) c.sys c.call

/-! ## The surroundings keep what a call leads to -/

section Stability

variable {S : Setting} {s s' : Sys}

theorem Env.hist {F : Faults} (h : Env F s s') : s'.hist = s.hist := by
  cases h <;> rfl

theorem Env.txid {F : Faults} (h : Env F s s') : s'.c.TXID = s.c.TXID := by
  cases h <;> rfl

/-- Nobody goes into the working state by itself. -/
theorem Env.working {F : Faults} (h : Env F s s') {id : Nat}
    (hst : (s'.c.p id).pstate = .P_WORKING) : (s.c.p id).pstate = .P_WORKING := by
  cases h with
  | node _ => exact hst
  | @connect j _ _ _ =>
      by_cases hj : id = j
      · subst hj
        simp [Sys.connect] at hst
      · simpa [Sys.connect, hj] using hst
  | enter _ => exact hst
  | begin _ _ => exact hst
  | done _ => exact hst

theorem Clean.env {F : Faults} {R : Nat → Bytes → Prop} (hR : F.Within R) (h : Env F s s')
    (hc : ∀ id, Clean R (s.node id)) (id : Nat) : Clean R (s'.node id) := by
  cases h with
  | @node j n hn =>
      by_cases hj : id = j
      · subst hj
        simpa using (hc id).step hR hn
      · simpa [hj] using hc id
  | @connect j _ _ _ =>
      by_cases hj : id = j
      · subst hj
        -- a new connection leaves the participant's memory as it is
        rw [show (s.connect id).node id = { s.node id with alive := true, kept := true } by
          simp [Sys.connect]]
        exact ⟨(hc id).within, (hc id).pending⟩
      · simpa [Sys.connect, hj] using hc id
  | enter _ => exact hc id
  | begin _ _ => exact hc id
  | done _ => exact hc id

theorem quiet_stable (S : Setting) : Prog.Stable (Env S.faults) (Quiet S) := by
  rintro s s' ⟨T, h⟩ hs
  exact ⟨T, Assert.stable (synced_stable S T) s s' h hs⟩

theorem updated_stable (S : Setting) {T : Nat} {resp : Bytes} (hb : S.bound T resp) (rc : Bytes) :
    Prog.Stable (Env S.faults) (Updated S hb rc) := by
  have hsynced (T' : Nat) := synced_stable (S.extend hb) T'
  rintro s s' (⟨hne, h⟩ | ⟨hrc, h, hclean, hidle⟩) hs
  · exact Or.inl ⟨hne, Assert.stable (hsynced (T + 1)) s s' h hs⟩
  · refine Or.inr ⟨hrc, Assert.stable (hsynced T) s s' h hs, ?_, fun hacc hlt id hid hst => ?_⟩
    · rw [hs.hist]
      exact hclean.imp_left fun hc => Clean.env S.fresh_within hs hc
    · exact hidle hacc hlt id hid (hs.working hst)

theorem requested_stable (S : Setting) (T : Nat) (resp rc : Bytes) :
    Prog.Stable (Env S.faults) (Requested S T resp rc) := by
  rintro s s' ⟨h, hres⟩ hs
  refine ⟨Assert.stable (synced_stable S T) s s' h hs, ?_⟩
  rw [hs.hist]
  exact hres.imp_right fun ⟨hrc, hall⟩ => ⟨hrc, fun id hid hst => hall id hid (hs.working hst)⟩

theorem worked_stable (S : Setting) (T : Nat) (task : List Bytes) (rc : Bytes) :
    Prog.Stable (Env S.faults) (Worked S T task rc) := by
  rintro s s' (⟨hup, hb, h⟩ | ⟨hget, h⟩ | ⟨hup, hget, hrc, h⟩) hs
  · exact Or.inl ⟨hup, hb, updated_stable S hb rc s s' h hs⟩
  · exact Or.inr (Or.inl ⟨hget, requested_stable S T _ rc s s' h hs⟩)
  · exact Or.inr (Or.inr ⟨hup, hget, hrc, Assert.stable (synced_stable S T) s s' h hs⟩)

theorem recovered_stable (S : Setting) : Prog.Stable (Env S.faults) (Recovered S) := by
  rintro s s' ⟨T, h⟩ hs
  exact ⟨T, Assert.stable (promoted_stable S T) s s' h hs⟩

end Stability

/-! ## Steps -/

section Steps

variable {S : Setting} {c c' : Config} {l : Label}

/-- A new call begins with no request sent. -/
theorem Core.newCall {s : Sys} (h : Core S s) {pc : RecoveryPc}
    (hpc : ∀ m, pc.Waits m → s.rpc.Waits m) :
    Core (S.since fun id => (s.node id).part.TXID) { s with hist := [], rpc := pc } where
  running := h.running
  committed := h.committed
  waits m hm := h.waits m (hpc m hm)
  nodes id := ⟨(h.nodes id).within, (h.nodes id).pending, (h.nodes id).alive, (h.nodes id).steady⟩
  outside := h.outside
  hist := nofun
  voted h₁ y h₂ heq := by simp at heq
  applied id _ := ⟨le_rfl, by simp [appliedNumbers, Setting.since]⟩

/-- The state at the start of a command's call. -/
theorem Quiet.start {s : Sys} (h : Quiet S s) :
    Assert (S.since fun id => (s.node id).part.TXID) false (fun t _ _ => t = s.c.TXID)
      (Unasked S.steady s.c.TXID) { s with hist := [] } := by
  obtain ⟨T, h⟩ := h
  obtain rfl : s.c.TXID = T := h.global
  exact ⟨h.core.newCall fun _ hm => hm, h.mutex, rfl,
    fun id => ⟨⟨(h.peers id).state, (h.peers id).txid, (h.peers id).steady⟩, nofun⟩⟩

/-- The state at the start of a recovery run. -/
theorem Quiet.recover {s : Sys} (h : Quiet S s) {m : Nat} (hrpc : s.rpc = .begun m) :
    (TXID_START ≤ m + 1 ∧ m + 1 ≤ s.c.TXID) ∧
      Assert (S.since fun id => (s.node id).part.TXID) true (fun t _ _ => t = s.c.TXID) Cleared
        { s with hist := [], rpc := .running } := by
  obtain ⟨T, h⟩ := h
  obtain ⟨h₁, h₂, h₃⟩ := h.core.waits m (Or.inr hrpc)
  refine ⟨⟨h₁, h₂⟩, h.core.newCall ?_, iff_of_true rfl rfl, rfl, h₃⟩
  rintro m (hm | hm) <;> exact nomatch hm

/-- The state after a recovery run. -/
theorem Recovered.quiet {s : Sys} (h : Recovered S s) : Quiet S { s with rpc := .released } := by
  obtain ⟨T, h⟩ := h
  have hcore := h.core
  refine ⟨T, ⟨hcore.running, hcore.committed, ?_, hcore.nodes, hcore.outside, hcore.hist, hcore.voted,
    hcore.applied⟩, iff_of_false nofun nofun, h.global, fun id => ?_⟩
  · rintro m (hm | hm) <;> exact nomatch hm
  · have hp := (h.peers id).1
    exact ⟨hp.state, hp.txid, hp.steady⟩

theorem Core.released {s : Sys} (h : Core S s) : Core S { s with rpc := .released } := by
  refine ⟨h.running, h.committed, ?_, h.nodes, h.outside, h.hist, h.voted, h.applied⟩
  rintro m (hm | hm) <;> exact nomatch hm

/-- The label is a reply. -/
def Label.isReply : Label → Prop
  | .reply _ _ _ => True
  | _ => False

/-- The command may be started in the setting: the bound admits its event, and a participant that
nothing happens to can decode it. -/
def Admits (S : Setting) (txid : Nat) (task : List Bytes) : Prop :=
  (IsUpdate task → S.bound txid (getRESPArry task)) ∧
    ∀ id, S.steady id → comds (getRESPArry task) ≠ none

/-- Every step but a reply keeps the invariant, and so does the start of a command that the setting
admits. -/
theorem Config.Inv.step (h : c.Inv S) (hs : Config.Step S.faults S.pnum c l c')
    (hstart : ∀ task, l = .start task → Admits S c.sys.c.TXID task) (hl : ¬ l.isReply) :
    c'.Inv S := by
  obtain ⟨f, hcore, hcall⟩ := h
  cases hs with
  | @env s s' a k henv =>
      refine ⟨f, Core.env hcore henv, ?_⟩
      cases k with
      | idle => exact quiet_stable (S.since f) _ _ hcall henv
      | work task txid prog =>
          -- what the call promises is stable under the environment's steps
          exact Prog.wp_closure _ _ _ (worked_stable (S.since f) txid task) hcall
            (Relation.ReflTransGen.single henv)
      | recover prog =>
          exact Prog.wp_closure _ _ _ (fun _ => recovered_stable (S.since f)) hcall
            (Relation.ReflTransGen.single henv)
  | accept _ _ _ => exact ⟨f, hcore, hcall⟩
  | refuse _ _ => exact ⟨f, hcore, hcall⟩
  | @start s task =>
      obtain ⟨hb, hfit⟩ := hstart task rfl
      have hst := Quiet.start hcall
      -- the call counts from the numbers that the participants have now
      refine ⟨_, hst.core.loose, ?_⟩
      exact spec_Working (S := S.since fun id => (s.node id).part.TXID)
        hst.core.committed.start_le hb hfit _ hst
  | work hop =>
      obtain ⟨hguar, hrest⟩ := Prog.wp_op _ _ _ hcall hop
      exact ⟨f, hguar.core, hrest⟩
  | reply => exact absurd trivial hl
  | recover hrpc =>
      obtain ⟨⟨h₁, h₂⟩, hst⟩ := Quiet.recover hcall hrpc
      exact ⟨_, hst.core.loose, spec_Recovery h₁ h₂ _ hst⟩
  | recovery hop =>
      obtain ⟨hguar, hrest⟩ := Prog.wp_op _ _ _ hcall hop
      exact ⟨f, hguar.core, hrest⟩
  | recovered => exact ⟨f, hcore.released, Recovered.quiet hcall⟩

theorem Quiet.loose {s : Sys} (h : Quiet S s) : Quiet S.loose s := by
  obtain ⟨T, h⟩ := h
  exact ⟨T, h.core.loose, h.mutex, h.global, h.peers⟩

/-- After a command the participants are in step again, within the bound. -/
theorem Worked.quiet {T : Nat} {task : List Bytes} {rc : Bytes} {s : Sys}
    (h : Worked S T task rc s) : Quiet S.loose s := by
  rcases h with ⟨-, hb, ⟨-, h⟩ | ⟨-, h, -⟩⟩ | ⟨-, h, -⟩ | ⟨-, -, -, h⟩
  · exact Quiet.loose (S := S.extend hb) ⟨T + 1, h.core, h.mutex, h.global.1, h.peers⟩
  · exact Quiet.loose (S := S.extend hb) ⟨T, h⟩
  · exact Quiet.loose ⟨T, h⟩
  · exact Quiet.loose ⟨T, h⟩

/-- A reply leaves the invariant within the bound. -/
theorem Config.Inv.step_reply (h : c.Inv S) (hs : Config.Step S.faults S.pnum c l c')
    (hl : l.isReply) : c'.Inv S.loose := by
  cases hs with
  | reply =>
      obtain ⟨f, hcore, hwork⟩ := h
      exact ⟨f, hcore, hwork.quiet⟩
  | _ => exact hl.elim

/-- The coordinator's committed log only grows. -/
structure Grows (s s' : Sys) : Prop where
  txid_le : s.c.TXID ≤ s'.c.TXID
  kept : ∀ t, TXID_START ≤ t → t < s.c.TXID → s'.c.lg t = s.c.lg t

theorem Grows.refl (s : Sys) : Grows s s := ⟨le_rfl, fun _ _ _ => rfl⟩

theorem Grows.trans {s s' s'' : Sys} (h : Grows s s') (h' : Grows s' s'') : Grows s s'' :=
  ⟨h.txid_le.trans h'.txid_le, fun t h₁ h₂ =>
    (h'.kept t h₁ (h₂.trans_le h.txid_le)).trans (h.kept t h₁ h₂)⟩

theorem Env.grows {F : Faults} {s s' : Sys} (h : Env F s s') : Grows s s' := by
  cases h <;> exact ⟨le_rfl, fun _ _ _ => rfl⟩

theorem Config.Inv.grows (h : c.Inv S) (hs : Config.Step S.faults S.pnum c l c') :
    Grows c.sys c'.sys := by
  obtain ⟨f, hcore, hcall⟩ := h
  cases hs with
  | env henv => exact henv.grows
  | accept _ _ _ => exact Grows.refl _
  | refuse _ _ => exact Grows.refl _
  | start => exact ⟨le_rfl, fun _ _ _ => rfl⟩
  | work hop =>
      obtain ⟨hguar, -⟩ := Prog.wp_op _ _ _ hcall hop
      exact ⟨hguar.txid_le, hguar.kept⟩
  | reply => exact Grows.refl _
  | recover _ => exact ⟨le_rfl, fun _ _ _ => rfl⟩
  | recovery hop =>
      obtain ⟨hguar, -⟩ := Prog.wp_op _ _ _ hcall hop
      exact ⟨hguar.txid_le, hguar.kept⟩
  | recovered => exact ⟨le_rfl, fun _ _ _ => rfl⟩

end Steps

/-! ## Runs in which anything may fail -/

/-- The setting of a run in which no participant is spared. -/
def Setting.run {F : Faults} {R B : Nat → Bytes → Prop} (pnum : Nat) (hF : F.Within R)
    (hB : ∀ t e, R t e → B t e) : Setting where
  faults := F
  steady _ := False
  first _ := 0
  rel := R
  bound := B
  pnum := pnum
  rel_bound := hB
  fresh_within := hF
  steady_choice _ _ h := h.elim
  steady_drop _ h := h.elim
  steady_fresh _ _ h := h.elim

/-- The first state of a coordinator process: nobody is connected, and the memories respect the
relation. -/
theorem Config.inv_start {S : Setting} (hsteady : ∀ id, ¬ S.steady id) {node : Nat → Node}
    (halive : ∀ id, (node id).alive = false) (hclean : ∀ id, Clean S.rel (node id))
    (hpend : ∀ id task, (node id).pending = some task → id ∈ pids S.pnum) :
    Config.Inv S ⟨⟨Coordinator.Init S.pnum, node, [], false, .idle⟩, none, .idle⟩ := by
  have hst (id : Nat) : ((Coordinator.Init S.pnum).p id).pstate =
      if id ∈ pids S.pnum then .P_WAITING else .P_INVALID := rfl
  have hbound : TXID_START ≤ 2 ^ 63 := by decide
  have hcore : Core S ⟨Coordinator.Init S.pnum, node, [], false, .idle⟩ := by
    refine ⟨rfl, ⟨le_rfl, hbound, fun t h₁ h₂ => absurd h₂ (Nat.not_lt.2 h₁)⟩, ?_, fun id => ?_,
      fun id hid => (hst id).trans (if_neg hid), nofun, fun h₁ y h₂ heq => by simp at heq,
      fun id hu => absurd hu (hsteady id)⟩
    · rintro m (hm | hm) <;> exact nomatch hm
    · refine ⟨(hclean id).within, fun task ht => ⟨(hclean id).pending task ht, ?_⟩,
        fun ha => absurd ((halive id).symm.trans ha) nofun, fun hu => absurd hu (hsteady id)⟩
      exact (hst id).trans (if_pos (hpend id task ht))
  refine ⟨S.first, hcore.loose, TXID_START, hcore, iff_of_false nofun nofun, rfl, fun id => ?_⟩
  -- nobody is in any other state, so that nothing is asked of the participants' numbers
  have hne {st : PState} (h₁ : st ≠ .P_WAITING) (h₂ : st ≠ .P_INVALID) :
      ((Coordinator.Init S.pnum).p id).pstate ≠ st := by
    rw [hst id]
    split
    · exact h₁.symm
    · exact h₂.symm
  exact ⟨hne nofun nofun, fun h => absurd h (hne nofun nofun), fun hu => absurd hu (hsteady id)⟩

theorem Config.inv_init {S : Setting} (hsteady : ∀ id, ¬ S.steady id) {part : Nat → Participant}
    (hpart : ∀ id, (part id).Within S.rel) : (Config.Init S.pnum part).Inv S :=
  Config.inv_start hsteady (fun _ => rfl) (fun id => ⟨hpart id, nofun⟩) nofun

/-- A new coordinator process over the same participants. -/
theorem Config.inv_restart {S : Setting} (hsteady : ∀ id, ¬ S.steady id) {c : Config}
    (hcore : Core S c.sys) : (c.restart S.pnum).Inv S := by
  refine Config.inv_start hsteady (fun _ => rfl) (fun id => ?_) fun id task ht => ?_
  · exact ⟨(hcore.nodes id).within, fun task ht => ((hcore.nodes id).pending task ht).1⟩
  · by_contra hid
    have hst := ((hcore.nodes id).pending task ht).2
    exact absurd ((hcore.outside id hid).symm.trans hst) nofun

/-- Every event is related to every number. -/
def Setting.anything {F : Faults} (pnum : Nat) (hfresh : ∀ id q, F.fresh id q → q.Sound) : Setting :=
  Setting.run (R := fun _ _ => True) (B := fun _ _ => True) pnum
    (fun id q h => ⟨hfresh id q h, fun _ _ _ => trivial⟩) fun _ _ h => h

/-- A run of a system whose participants begin, and restart, with logs that agree with their
tables. -/
abbrev Reaches (F : Faults) (pnum : Nat) : Config → Config → Prop :=
  Config.Run F pnum fun _ _ => True

section Anything

variable {F : Faults} {pnum : Nat} {hfresh : ∀ id q, F.fresh id q → q.Sound} {c c' : Config}

theorem Config.Inv.step_anything {l : Label} (h : c.Inv (Setting.anything pnum hfresh))
    (hs : Config.Step F pnum c l c') : c'.Inv (Setting.anything pnum hfresh) := by
  by_cases hl : l.isReply
  · exact h.step_reply hs hl
  · exact h.step hs (fun _ _ => ⟨fun _ => trivial, fun _ hu => hu.elim⟩) hl

theorem Config.Inv.reaches (h : c.Inv (Setting.anything pnum hfresh)) (hr : Reaches F pnum c c') :
    c'.Inv (Setting.anything pnum hfresh) ∧ Grows c.sys c'.sys := by
  induction hr with
  | refl => exact ⟨h, Grows.refl _⟩
  | tail _ hs ih =>
      obtain ⟨l, -, hstep⟩ := hs
      exact ⟨ih.1.step_anything hstep, ih.2.trans (ih.1.grows hstep)⟩

theorem Config.inv_of_reaches {part : Nat → Participant} (hpart : ∀ id, (part id).Sound)
    (hfresh : ∀ id q, F.fresh id q → q.Sound) (hr : Reaches F pnum (Config.Init pnum part) c) :
    c.Inv (Setting.anything pnum hfresh) := by
  have hinit : (Config.Init pnum part).Inv (Setting.anything pnum hfresh) :=
    Config.inv_init (S := Setting.anything pnum hfresh) (fun _ h => h)
      fun id => ⟨hpart id, fun _ _ _ => trivial⟩
  exact (hinit.reaches hr).1

end Anything

/-- No call is in progress. -/
def Call.isIdle : Call → Bool
  | .idle => true
  | _ => false

theorem Call.eq_idle {k : Call} (h : k.isIdle = true) : k = .idle := by
  cases k with
  | idle => rfl
  | work _ _ _ => cases h
  | recover _ => cases h

/-- The call has failed an assertion. -/
def Call.aborts : Call → Prop
  | .work _ _ .abort => True
  | .recover .abort => True
  | _ => False

theorem CallOk.not_aborts {S : Setting} {s : Sys} {k : Call} (h : CallOk S s k) : ¬ k.aborts := by
  cases k with
  | idle => exact id
  | work task txid prog =>
      cases prog with
      | ret _ => exact id
      | op _ _ => exact id
      | abort => exact fun _ => h
  | recover prog =>
      cases prog with
      | ret _ => exact id
      | op _ _ => exact id
      | abort => exact fun _ => h

/-- **The committed log is complete, committed and immutable.** In every state of a coordinator
process, the log holds one committed record for each number below the counter; from there on the
counter does not fall and these records stay; no assertion has failed; and all that the recovery
workers have sent are questions for the largest number and committed records. -/
theorem committed_log_grows {F : Faults} {pnum : Nat} {part : Nat → Participant}
    (hpart : ∀ id, (part id).Sound) (hfresh : ∀ id q, F.fresh id q → q.Sound) {c c' : Config}
    (hr : Reaches F pnum (Config.Init pnum part) c) (hr' : Reaches F pnum c c') :
    (TXID_START ≤ c.sys.c.TXID ∧ ∀ t, TXID_START ≤ t → t < c.sys.c.TXID →
      ∃ e, c.sys.c.lg t = some ⟨t, LogState.LOG_COMMIT, e⟩) ∧
    Grows c.sys c'.sys ∧
    (c.sys.aborted = false ∧ ¬ c.call.aborts) ∧
    ∀ y ∈ c.sys.hist, y.ch = .recovery → y.task = txidReq ∨ ∃ t e, y.task = commitReq t e := by
  have hinv := Config.inv_of_reaches hpart hfresh hr
  have hgrows := (hinv.reaches hr').2
  obtain ⟨f, hcore, hcall⟩ := hinv
  refine ⟨⟨hcore.committed.start_le, fun t h₁ h₂ => ?_⟩, hgrows, ⟨hcore.running, hcall.not_aborts⟩,
    fun y hy => (hcore.hist y hy).recovery⟩
  obtain ⟨e, he, -, -⟩ := hcore.committed.record t h₁ h₂
  exact ⟨e, he⟩

/-- Connect a participant and run the recovery. -/
def joinActs (id : Nat) : List Act :=
  [.connect id, .enter, .begin, .recover, .run 100 [], .recovered, .done]

/-- A client's command, with the outcomes of its requests. -/
def commandActs (task : List Bytes) (outcomes : List Choice) : List Act :=
  [.accept task, .start, .run 100 outcomes, .reply]

def setCmd : List Bytes := [ascii "SET", ascii "k", ascii "v"]

def getCmd : List Bytes := [ascii "GET", ascii "k"]

theorem sound_init_all (_ : Nat) : Participant.Init.Sound := Participant.sound_init

theorem any_fresh_sound (restarts : Nat → Bool) :
    ∀ id q, (Faults.any restarts).fresh id q → q.Sound := by
  rintro _ _ ⟨-, rfl⟩
  exact Participant.sound_init

theorem committed_log_grows_after_set :
    ∃ c, Reaches (Faults.any fun _ => true) 1 (Config.Init 1 fun _ => Participant.Init) c ∧
      c.sys.c.TXID = 6 ∧ ∃ e, c.sys.c.lg 5 = some ⟨5, LogState.LOG_COMMIT, e⟩ := by
  obtain ⟨c, hr, htx⟩ := Config.exec_any (fun _ => true) 1 (fun _ _ => true)
    (joinActs 1 ++ commandActs setCmd []) (Config.Init 1 fun _ => Participant.Init)
    (fun c => c.sys.c.TXID = 6) (by decide +kernel)
  have hr' : Reaches _ 1 _ c := hr.mono fun _ _ _ => trivial
  have h := committed_log_grows sound_init_all (any_fresh_sound _) hr' Relation.ReflTransGen.refl
  exact ⟨c, hr', htx, h.1.2 5 (by decide) (by omega)⟩

/-- **Transaction numbers in step.** Between two calls, a participant in the working state whose
connection is up has the coordinator's number. When a recovery run returns, nobody is left in the
recovery state: a participant in the working state whose process has not restarted since it
connected has the coordinator's number, and one that is not in the working state is not connected.
In every call, a commit is sent only to participants that have answered `PRE` before. -/
theorem txids_in_step {F : Faults} {pnum : Nat} {part : Nat → Participant}
    (hpart : ∀ id, (part id).Sound) (hfresh : ∀ id q, F.fresh id q → q.Sound) {c : Config}
    (hr : Reaches F pnum (Config.Init pnum part) c) :
    (c.call = .idle → ∀ id, (c.sys.c.p id).pstate = .P_WORKING → (c.sys.node id).alive = true →
      (c.sys.node id).part.TXID = c.sys.c.TXID) ∧
    (∀ c', Config.Step F pnum c .recovered c' → ∀ id,
      (c'.sys.c.p id).pstate ≠ .P_RECOVERY ∧
      ((c'.sys.c.p id).pstate = .P_WORKING → (c'.sys.node id).kept = true →
        (c'.sys.node id).part.TXID = c'.sys.c.TXID) ∧
      ((c'.sys.c.p id).pstate ≠ .P_WORKING → (c'.sys.node id).alive = false)) ∧
    VotedFirst c.sys.hist := by
  obtain ⟨f, hcore, hcall⟩ := Config.inv_of_reaches hpart hfresh hr
  refine ⟨fun hidle id hst ha => ?_, fun c' hs id => ?_, hcore.voted⟩
  · rw [hidle] at hcall
    obtain ⟨T, h⟩ := hcall
    rw [(h.peers id).txid hst ((h.core.nodes id).alive ha).1]
    exact h.global.symm
  · cases hs with
    | @recovered s a =>
        obtain ⟨T, h⟩ : Recovered _ s := hcall
        obtain ⟨hsync, htemp⟩ := h.peers id
        refine ⟨hsync.state, fun hst hk => (hsync.txid hst hk).trans h.global.symm, fun hst => ?_⟩
        -- after the run a connected participant can only be in the working state
        cases ha : (s.node id).alive with
        | false => rfl
        | true =>
            rcases ((h.core.nodes id).alive ha).2 with h' | h' | h'
            · exact absurd h' htemp
            · exact absurd h' hst
            · exact absurd h' hsync.state

theorem txids_in_step_after_set :
    ∃ c, Reaches (Faults.any fun _ => true) 1 (Config.Init 1 fun _ => Participant.Init) c ∧
      (c.sys.c.p 1).pstate = .P_WORKING ∧ (c.sys.node 1).part.TXID = c.sys.c.TXID := by
  obtain ⟨c, hr, hidle, hst, ha⟩ := Config.exec_any (fun _ => true) 1 (fun _ _ => true)
    (joinActs 1 ++ commandActs setCmd []) (Config.Init 1 fun _ => Participant.Init)
    (fun c => c.call.isIdle = true ∧ (c.sys.c.p 1).pstate = .P_WORKING ∧
      (c.sys.node 1).alive = true) (by decide +kernel)
  have hr' : Reaches _ 1 _ c := hr.mono fun _ _ _ => trivial
  have h := txids_in_step sound_init_all (any_fresh_sound _) hr'
  exact ⟨c, hr', hst, h.1 (Call.eq_idle hidle) 1 hst ha⟩

/-- A participant may restart after it has told its number: it is in the working state with another
number when the recovery run returns. -/
theorem txid_behind_after_recovery :
    ∃ c c', Reaches (Faults.any fun _ => true) 1 (Config.Init 1 fun _ => Participant.Init) c ∧
      Config.Step (Faults.any fun _ => true) 1 c .recovered c' ∧
      (c'.sys.c.p 1).pstate = .P_WORKING ∧ (c'.sys.node 1).part.TXID ≠ c'.sys.c.TXID := by
  have hrun : ¬ Act.isRun .recovered := id
  obtain ⟨c, l, c', hr, hs, rfl, hst, htx⟩ := Config.exec_next (fun _ => true) 1 (fun _ _ => true)
    (joinActs 1 ++ commandActs setCmd [] ++ [.drop 1] ++ commandActs getCmd [] ++
      [.connect 1, .enter, .begin, .recover, .run 8 [], .restart 1, .run 100 []])
    (Config.Init 1 fun _ => Participant.Init) hrun
    (fun _ l c => l = .recovered ∧ (c.sys.c.p 1).pstate = .P_WORKING ∧
      (c.sys.node 1).part.TXID ≠ c.sys.c.TXID) (by decide +kernel)
  exact ⟨c, c', hr.mono fun _ _ _ => trivial, hs, hst, htx⟩

end CloudLabs.KvStore
