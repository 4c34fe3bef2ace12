import CloudLabs.KvStore.Runs

/-!
# Replica agreement

`Config.Along L`: the events in all logs, under their numbers, are those of one sequence `L`. An
update extends the sequence at the coordinator's number, so this is kept as long as no update starts
while a participant has a number above the coordinator's (`Node.ahead`); every other step keeps it
whatever fails (`Config.Along.step`). Participants in the working state have the same number, hence
the same log and the same table (`replicas_agree`).

Without the condition two participants may apply different events under one number, and the
recovery, which compares numbers only, takes them for equal (`replicas_diverge`).
-/

set_option autoImplicit false

namespace CloudLabs.KvStore

open CloudLabs.Foundation

/-! ## Participants along one sequence -/

section Along

variable {L L' : Nat → Bytes} {p : Participant} {n : Node} {T : Nat}

/-- The events under `TXID_START .. T - 1`. -/
def upTo (L : Nat → Bytes) (T : Nat) : List Bytes :=
  (List.range' TXID_START (T - TXID_START)).map L

/-- The table of a participant is the replay of the sequence up to its number. -/
theorem Participant.Within.kvdb_eq (h : p.Within fun t e => e = L t) :
    p.kvdb = replay (upTo L p.TXID) := by
  rw [← h.sound.replayed, h.sound.events_eq_map]
  refine congrArg replay (List.map_congr_left fun t ht => ?_)
  rw [List.mem_range'_1] at ht
  obtain ⟨e, he, -⟩ := h.sound.lookup ht.1 (by omega)
  simpa [he] using h.logged t _ he

theorem Participant.within_init (R : Nat → Bytes → Prop) : Participant.Init.Within R :=
  ⟨Participant.sound_init, nofun⟩

/-- A participant has a number above `T`, or a task it has read will give it one. -/
def Node.ahead (T : Nat) (n : Node) : Bool :=
  decide (T < n.part.TXID) ||
    ((n.pending.bind n.part.pWorker).any fun r => decide (T < r.2.TXID))

/-- The events of a participant that is not ahead are those below the number. -/
theorem Participant.Within.below (h : p.Within fun t e => e = L t) (hle : p.TXID ≤ T)
    (hL : ∀ t < T, L' t = L t) : p.Within fun t e => t < T ∧ e = L' t := by
  refine ⟨h.sound, fun t l hl => ?_⟩
  have hlt := ((h.sound.keys t).1 (by rw [hl]; rfl)).2
  exact ⟨by omega, (h.logged t l hl).trans (hL t (by omega)).symm⟩

theorem Clean.below (h : Clean (fun t e => e = L t) n) (ha : n.ahead T = false)
    (hL : ∀ t < T, L' t = L t) : Clean (fun t e => t < T ∧ e = L' t) n := by
  simp only [Node.ahead, Bool.or_eq_false_iff, decide_eq_false_iff_not, Nat.not_lt] at ha
  refine ⟨h.within.below ha.1 hL, fun task ht => ⟨(h.pending task ht).1, fun r hr => ?_⟩⟩
  refine ((h.pending task ht).2 r hr).below ?_ hL
  simpa [ht, hr] using ha.2

theorem Clean.init {R : Nat → Bytes → Prop} (h : n.part = Participant.Init) (hp : n.pending = none) :
    Clean R n :=
  ⟨h ▸ Participant.within_init R, fun _ ht => absurd (hp.symm.trans ht) nofun⟩

end Along

/-! ## What a step does to a participant -/

section Nodes

variable {F : Faults} {pnum : Nat} {S : Setting} {c c' : Config} {l : Label}

theorem sendAndRecv_kept (x : Choice) (n : Node) (task : Bytes) :
    (sendAndRecv x n task).node.kept = n.kept := by
  rcases sendAndRecv_cases x n task with ⟨-, rmsg, part, -, ho⟩ | ⟨hf, -⟩
  · rw [ho]
  · exact hf.kept

/-- A round leaves the participant alone, or sends it one request. -/
theorem workerRound_node (ch : Chan) (x : Choice) (id : Nat) (e : Entry) (n : Node) :
    (workerRound ch x id e n).node = n ∨ ∃ task,
      (workerRound ch x id e n).node = (sendAndRecv x n task).node ∨
        (workerRound ch x id e n).node = (sendAndRecv x n task).node.close := by
  cases ch with
  | working =>
      simp only [workerRound, pWorking]
      split
      · exact Or.inl rfl
      · split
        · exact Or.inr ⟨_, Or.inr rfl⟩
        · exact Or.inr ⟨_, Or.inl rfl⟩
  | recovery =>
      simp only [workerRound, pRecovery]
      -- the round ends in one of five ways, on either side of the test that makes an entry
      repeat' split
      all_goals first
        | exact Or.inl rfl
        | exact Or.inr ⟨_, Or.inl rfl⟩
        | exact Or.inr ⟨_, Or.inr rfl⟩

theorem workerRound_kept (ch : Chan) (x : Choice) (id : Nat) (e : Entry) (n : Node) :
    (workerRound ch x id e n).node.kept = n.kept := by
  rcases workerRound_node ch x id e n with h | ⟨task, h | h⟩ <;> rw [h]
  · exact sendAndRecv_kept x n task
  · exact sendAndRecv_kept x n task

/-- Nothing is sent to a participant that is not connected. -/
theorem workerRound_invalid (ch : Chan) (x : Choice) (id : Nat) {e : Entry} (n : Node)
    (h : e.pstate = .P_INVALID) : (workerRound ch x id e n).node = n := by
  cases ch with
  | working => simp [workerRound, pWorking, h]
  | recovery => simp [workerRound, pRecovery, h]

/-- An operation changes a participant in a worker's round only. -/
theorem Sys.Step.node {o : Op} {s s' : Sys} {r : o.Res} (h : Sys.Step F o s r s') (id : Nat) :
    s'.node id = s.node id ∨
      ∃ ch x, s'.node id = (workerRound ch x id (s.c.p id) (s.node id)).node := by
  cases o with
  | post l sem =>
      obtain ⟨ch, side, j⟩ := l
      cases side with
      | task =>
          cases sem with
          | full =>
              obtain ⟨x, -, rfl⟩ := h
              by_cases hj : id = j
              · subst hj
                exact Or.inr ⟨ch, x, by simp [Sys.work]⟩
              · exact Or.inl (by simp [Sys.work, hj])
          | empty => obtain rfl := h; exact Or.inl rfl
          | mutex => obtain rfl := h; exact Or.inl rfl
      | ret => cases sem <;> obtain rfl := h <;> exact Or.inl rfl
  | wait _ _ => obtain rfl := h; exact Or.inl rfl
  | setTask _ _ _ => obtain rfl := h; exact Or.inl rfl
  | readRet _ _ => obtain ⟨-, rfl⟩ := h; exact Or.inl rfl
  | readData _ _ => obtain ⟨-, rfl⟩ := h; exact Or.inl rfl
  | readMem => obtain ⟨-, rfl⟩ := h; exact Or.inl rfl
  | updateMem _ => obtain rfl := h; exact Or.inl rfl

/-- No operation changes where the recovery thread is. -/
theorem Sys.Step.rpc {o : Op} {s s' : Sys} {r : o.Res} (h : Sys.Step F o s r s') :
    s'.rpc = s.rpc := by
  cases o with
  | post l sem =>
      obtain ⟨ch, side, j⟩ := l
      cases side with
      | task =>
          cases sem with
          | full => obtain ⟨x, -, rfl⟩ := h; rfl
          | empty => obtain rfl := h; rfl
          | mutex => obtain rfl := h; rfl
      | ret => cases sem <;> obtain rfl := h <;> rfl
  | wait _ _ => obtain rfl := h; rfl
  | setTask _ _ _ => obtain rfl := h; rfl
  | readRet _ _ => obtain ⟨-, rfl⟩ := h; rfl
  | readData _ _ => obtain ⟨-, rfl⟩ := h; rfl
  | readMem => obtain ⟨-, rfl⟩ := h; rfl
  | updateMem _ => obtain rfl := h; rfl

/-- Where no process restarts, every process keeps its memory. -/
theorem Config.Step.kept (hfresh : ∀ id q, ¬ F.fresh id q) (h : Config.Step F pnum c l c')
    (hk : ∀ id, (c.sys.node id).kept = true) (id : Nat) : (c'.sys.node id).kept = true := by
  have hop {o : Op} {s s' : Sys} {r : o.Res} (hs : Sys.Step F o s r s')
      (hk : ∀ id, (s.node id).kept = true) : (s'.node id).kept = true := by
    rcases hs.node id with h | ⟨ch, x, h⟩
    · rw [h]
      exact hk id
    · rw [h, workerRound_kept]
      exact hk id
  cases h with
  | env henv =>
      cases henv with
      | @node j n hn =>
          by_cases hj : id = j
          · subst hj
            simp only [Function.update_self]
            cases hn with
            | drop _ => exact hk id
            | restart hq => exact absurd hq (hfresh _ _)
            | finish _ _ => exact hk id
          · simpa [hj] using hk id
      | @connect j _ _ _ =>
          by_cases hj : id = j
          · subst hj
            simp [Sys.connect]
          · simpa [Sys.connect, hj] using hk id
      | enter _ => exact hk id
      | begin _ _ => exact hk id
      | done _ => exact hk id
  | work hs => exact hop hs hk
  | recovery hs => exact hop hs hk
  | accept _ _ _ => exact hk id
  | refuse _ _ => exact hk id
  | start => exact hk id
  | reply => exact hk id
  | recover _ => exact hk id
  | recovered => exact hk id

/-- A process that is no participant of the coordinator takes its own steps only. -/
theorem Config.Inv.node_outside (h : c.Inv S) (hs : Config.Step S.faults S.pnum c l c') {id : Nat}
    (hid : id ∉ pids S.pnum) : c'.sys.node id = c.sys.node id ∨
      NodeStep S.faults id (c.sys.node id) (c'.sys.node id) := by
  obtain ⟨f, hcore, -⟩ := h
  have hst := hcore.outside id hid
  have hop {o : Op} {s s' : Sys} {r : o.Res} (hs : Sys.Step S.faults o s r s')
      (hst : (s.c.p id).pstate = .P_INVALID) : s'.node id = s.node id := by
    rcases hs.node id with h | ⟨ch, x, h⟩
    · exact h
    · rw [h, workerRound_invalid ch x id _ hst]
  cases hs with
  | env henv =>
      cases henv with
      | @node j n hn =>
          by_cases hj : id = j
          · subst hj
            exact Or.inr (by simpa using hn)
          · exact Or.inl (by simp [hj])
      | @connect j _ hw _ =>
          have hj : id ≠ j := by
            rintro rfl
            exact absurd (hst.symm.trans hw) nofun
          exact Or.inl (by simp [Sys.connect, hj])
      | enter _ => exact Or.inl rfl
      | begin _ _ => exact Or.inl rfl
      | done _ => exact Or.inl rfl
  | work hs => exact Or.inl (hop hs hst)
  | recovery hs => exact Or.inl (hop hs hst)
  | accept _ _ _ => exact Or.inl rfl
  | refuse _ _ => exact Or.inl rfl
  | start => exact Or.inl rfl
  | reply => exact Or.inl rfl
  | recover _ => exact Or.inl rfl
  | recovered => exact Or.inl rfl

end Nodes

/-! ## Runs along one sequence -/

instance : DecidablePred IsUpdate := fun _ => inferInstanceAs (Decidable (_ ∨ _))

/-- No update starts while a participant is ahead of the coordinator. -/
def noneAhead (pnum : Nat) (c : Config) : Label → Bool
  | .start task => !decide (IsUpdate task) ||
      (pids pnum).all fun id => !(c.sys.node id).ahead c.sys.c.TXID
  | _ => true

/-- All logs are along one sequence; while an update is in progress, those before it are below its
number. -/
structure Config.Along (F : Faults) (pnum : Nat) (L : Nat → Bytes) (c : Config) : Prop where
  inv : ∃ (R : Nat → Bytes → Prop) (hF : F.Within R) (hB : ∀ t e, R t e → e = L t),
    c.Inv (Setting.run pnum hF hB) ∧ ∀ task txid prog, c.call = .work task txid prog →
      IsUpdate task → ∀ t e, R t e → t < txid
  away : ∀ id, id ∉ pids pnum →
    (c.sys.node id).part = Participant.Init ∧ (c.sys.node id).pending = none

section Run

variable {F : Faults} {pnum : Nat} {L : Nat → Bytes} {c c' : Config} {l : Label}

theorem within_of_init (hinit : ∀ id q, F.fresh id q → q = Participant.Init)
    (R : Nat → Bytes → Prop) : F.Within R :=
  fun id q h => hinit id q h ▸ Participant.within_init R

/-- A state between two calls in a setting with another relation that the logs respect. -/
theorem Quiet.replace {S S' : Setting} {s : Sys} (h : Quiet S s) (hpnum : S'.pnum = S.pnum)
    (hsteady : S'.steady = S.steady) (hfirst : S'.first = S.first)
    (hcommitted : Committed S'.rel s.c) (hclean : ∀ id, Clean S'.rel (s.node id)) : Quiet S' s := by
  obtain ⟨T, h⟩ := h
  refine ⟨T, h.core.replace hpnum (fun id hu => ⟨hsteady ▸ hu, congrFun hfirst id⟩) hcommitted hclean,
    h.mutex, h.global, fun id => ?_⟩
  rw [hsteady]
  exact h.peers id

/-- The event of an update extends the sequence at the coordinator's number, if nobody is ahead. -/
theorem Config.Along.extend (hinit : ∀ id q, F.fresh id q → q = Participant.Init)
    (h : c.Along F pnum L) (hidle : c.call = .idle)
    (hnone : ∀ id ∈ pids pnum, (c.sys.node id).ahead c.sys.c.TXID = false) (e : Bytes) :
    let L' := Function.update L c.sys.c.TXID e
    c.Inv (Setting.run (R := fun t e => t < c.sys.c.TXID ∧ e = L' t) (B := fun t e => e = L' t) pnum
      (within_of_init hinit _) fun _ _ h => h.2) := by
  intro L'
  obtain ⟨R, hF, hB, ⟨f, -, hcall⟩, -⟩ := h.inv
  have hL : ∀ t < c.sys.c.TXID, L' t = L t := fun t ht => Function.update_of_ne (Nat.ne_of_lt ht) _ _
  rw [hidle] at hcall
  have hquiet : Quiet _ c.sys := hcall
  obtain ⟨T, hs⟩ := hcall
  have hq : Quiet ((Setting.run (R := fun t e => t < c.sys.c.TXID ∧ e = L' t)
      (B := fun t e => e = L' t) pnum (within_of_init hinit _) fun _ _ h => h.2).since f) c.sys := by
    refine hquiet.replace rfl rfl rfl ?_ fun id => ?_
    · refine ⟨hs.core.committed.start_le, hs.core.committed.txid_le, fun t h₁ h₂ => ?_⟩
      obtain ⟨e', he', hacc, hR⟩ := hs.core.committed.record t h₁ h₂
      exact ⟨e', he', hacc, h₂, (hB t e' hR).trans (hL t h₂).symm⟩
    · by_cases hid : id ∈ pids pnum
      · exact ((hs.core.nodes id).clean.mono hB).below (hnone id hid) hL
      · exact Clean.init (h.away id hid).1 (h.away id hid).2
  refine ⟨f, ?_, ?_⟩
  · obtain ⟨T', hs'⟩ := hq
    exact hs'.core.loose
  · rw [hidle]
    exact hq

theorem Config.Along.step_away (hinit : ∀ id q, F.fresh id q → q = Participant.Init)
    (h : c.Along F pnum L) (hs : Config.Step F pnum c l c') (id : Nat) (hid : id ∉ pids pnum) :
    (c'.sys.node id).part = Participant.Init ∧ (c'.sys.node id).pending = none := by
  obtain ⟨R, hF, hB, hinv, -⟩ := h.inv
  obtain ⟨hpart, hpend⟩ := h.away id hid
  rcases hinv.node_outside hs hid with heq | hn
  · rw [heq]
    exact ⟨hpart, hpend⟩
  · generalize c'.sys.node id = n' at hn
    cases hn with
    | drop _ => exact ⟨hpart, hpend⟩
    | restart hq => exact ⟨hinit _ _ hq, rfl⟩
    | finish hp _ => exact absurd (hpend.symm.trans hp) nofun

/-- A step keeps all logs along one sequence, unless it starts an update while somebody is ahead. -/
theorem Config.Along.step (hinit : ∀ id q, F.fresh id q → q = Participant.Init)
    (h : c.Along F pnum L) (hs : Config.Step F pnum c l c') (hok : noneAhead pnum c l = true) :
    ∃ L', c'.Along F pnum L' := by
  have haway := h.step_away hinit hs
  by_cases hup : ∃ task, l = .start task ∧ IsUpdate task
  · obtain ⟨task, rfl, hup⟩ := hup
    have hnone : ∀ id ∈ pids pnum, (c.sys.node id).ahead c.sys.c.TXID = false := by
      simpa [noneAhead, hup] using hok
    cases hs with
    | @start s task =>
        -- nobody has the coordinator's number, so the sequence may go on with this event
        have hext := h.extend hinit rfl hnone (getRESPArry task)
        refine ⟨Function.update L s.c.TXID (getRESPArry task),
          ⟨fun t e => t < s.c.TXID ∧ e = Function.update L s.c.TXID (getRESPArry task) t,
            within_of_init hinit _, fun _ _ h => h.2, ?_, ?_⟩, haway⟩
        · refine hext.step Config.Step.start (fun task' heq => ?_) id
          cases heq
          have hself : getRESPArry task = Function.update L s.c.TXID (getRESPArry task) s.c.TXID := by
            rw [Function.update_self]
          exact ⟨fun _ => hself, fun _ hu => hu.elim⟩
        · rintro task' txid prog heq - t e hR
          cases heq
          exact hR.1
  -- every other step leaves the sequence as it is
  obtain ⟨R, hF, hB, hinv, hlt⟩ := h.inv
  by_cases hl : l.isReply
  · refine ⟨L, ⟨_, within_of_init hinit _, fun _ _ h => h, hinv.step_reply hs hl, ?_⟩, haway⟩
    intro task txid prog heq
    cases hs with
    | reply => exact nomatch heq
    | _ => exact hl.elim
  · refine ⟨L, ⟨R, hF, hB, hinv.step hs (fun task heq => ?_) hl, ?_⟩, haway⟩
    · exact ⟨fun hup' => absurd ⟨task, heq, hup'⟩ hup, fun _ hu => hu.elim⟩
    · intro task txid prog heq hup'
      rcases hs.working heq with ⟨prog', hbefore⟩ | ⟨hstart, -⟩
      · exact hlt task txid prog' hbefore hup'
      · exact absurd ⟨task, hstart, hup'⟩ hup

theorem Config.along_init (hinit : ∀ id q, F.fresh id q → q = Participant.Init) (L : Nat → Bytes) :
    (Config.Init pnum fun _ => Participant.Init).Along F pnum L where
  inv := ⟨fun t e => e = L t, within_of_init hinit _, fun _ _ h => h,
    Config.inv_init (fun _ h => h) fun _ => Participant.within_init _, nofun⟩
  away _ _ := ⟨rfl, rfl⟩

theorem Config.Along.run (hinit : ∀ id q, F.fresh id q → q = Participant.Init)
    (hr : Config.Run F pnum (fun c l => noneAhead pnum c l = true) c c')
    (h : ∃ L, c.Along F pnum L) : ∃ L, c'.Along F pnum L := by
  induction hr with
  | refl => exact h
  | tail _ hs ih =>
      obtain ⟨l, hok, hstep⟩ := hs
      obtain ⟨L, hL⟩ := ih
      exact hL.step hinit hstep hok

theorem Config.Run.kept (hfresh : ∀ id q, ¬ F.fresh id q) {ok : Config → Label → Prop}
    (hr : Config.Run F pnum ok c c') (hk : ∀ id, (c.sys.node id).kept = true) :
    ∀ id, (c'.sys.node id).kept = true := by
  induction hr with
  | refl => exact hk
  | tail _ hs ih =>
      obtain ⟨l, -, hstep⟩ := hs
      exact hstep.kept hfresh ih

end Run

/-- **Replica agreement.** Where processes keep their memories and no update starts while a
participant is ahead of the coordinator, any two participants that are in the working state between
two calls have the same table. -/
theorem replicas_agree {F : Faults} (hfresh : ∀ id q, ¬ F.fresh id q) {pnum : Nat} {c : Config}
    (hr : Config.Run F pnum (fun c l => noneAhead pnum c l = true)
      (Config.Init pnum fun _ => Participant.Init) c) (hidle : c.call = .idle) {i j : Nat}
    (hi : (c.sys.c.p i).pstate = .P_WORKING) (hj : (c.sys.c.p j).pstate = .P_WORKING) :
    (c.sys.node i).part.kvdb = (c.sys.node j).part.kvdb := by
  have hinit : ∀ id q, F.fresh id q → q = Participant.Init := fun id q h => absurd h (hfresh id q)
  have hk := hr.kept hfresh fun _ => rfl
  obtain ⟨L, hL⟩ := Config.Along.run hinit hr ⟨fun _ => [], Config.along_init hinit _⟩
  obtain ⟨R, hF, hB, ⟨f, -, hcall⟩, -⟩ := hL.inv
  rw [hidle] at hcall
  obtain ⟨T, hs⟩ := hcall
  have htable {id : Nat} (hst : (c.sys.c.p id).pstate = .P_WORKING) :
      (c.sys.node id).part.kvdb = replay (upTo L T) := by
    rw [((hs.core.nodes id).within.mono hB).kvdb_eq, (hs.peers id).txid hst (hk id)]
  rw [htable hi, htable hj]

theorem any_fresh_none (id : Nat) (q : Participant) : ¬ (Faults.any fun _ => false).fresh id q :=
  fun h => nomatch h.1

theorem replicas_agree_after_set :
    ∃ c, Config.Run (Faults.any fun _ => false) 2 (fun c l => noneAhead 2 c l = true)
        (Config.Init 2 fun _ => Participant.Init) c ∧
      (c.sys.c.p 2).pstate = .P_WORKING ∧ (c.sys.node 1).part.kvdb (ascii "k") = some (ascii "v") ∧
      (c.sys.node 1).part.kvdb = (c.sys.node 2).part.kvdb := by
  obtain ⟨c, hr, hidle, h₁, h₂, hkv⟩ := Config.exec_any (fun _ => false) 2 (noneAhead 2)
    (joinActs 1 ++ commandActs setCmd [] ++ joinActs 2) (Config.Init 2 fun _ => Participant.Init)
    (fun c => c.call.isIdle = true ∧ (c.sys.c.p 1).pstate = .P_WORKING ∧
      (c.sys.c.p 2).pstate = .P_WORKING ∧ (c.sys.node 1).part.kvdb (ascii "k") = some (ascii "v"))
    (by decide +kernel)
  have hr' : Config.Run _ 2 (fun c l => noneAhead 2 c l = true) _ c := hr.mono fun c l hl => by
    rcases hl with rfl | hl
    · rfl
    · exact hl
  exact ⟨c, hr', h₂, hkv, replicas_agree any_fresh_none hr' (Call.eq_idle hidle) h₁ h₂⟩

/-- The first participant applies an update and its reply is lost; the second one, which has not had
the update, applies another one under the same number. -/
theorem replicas_diverge :
    ∃ c, Reaches (Faults.any fun _ => false) 2 (Config.Init 2 fun _ => Participant.Init) c ∧
      c.call = .idle ∧ (c.sys.c.p 1).pstate = .P_WORKING ∧ (c.sys.c.p 2).pstate = .P_WORKING ∧
      (c.sys.node 1).part.kvdb (ascii "k") ≠ (c.sys.node 2).part.kvdb (ascii "k") := by
  obtain ⟨c, hr, hidle, h⟩ := Config.exec_any (fun _ => false) 2 (fun _ _ => true)
    ([.connect 1] ++ joinActs 2 ++
      commandActs setCmd [.answer, .answer, .unanswered .network [], .lost .network []] ++
      joinActs 2 ++ commandActs [ascii "SET", ascii "k", ascii "w"] [] ++ joinActs 1)
    (Config.Init 2 fun _ => Participant.Init)
    (fun c => c.call.isIdle = true ∧ (c.sys.c.p 1).pstate = .P_WORKING ∧
      (c.sys.c.p 2).pstate = .P_WORKING ∧
      (c.sys.node 1).part.kvdb (ascii "k") ≠ (c.sys.node 2).part.kvdb (ascii "k"))
    (by decide +kernel)
  exact ⟨c, hr.mono fun _ _ _ => trivial, Call.eq_idle hidle, h⟩

end CloudLabs.KvStore
