import CloudLabs.KvStore.Invariant

/-!
# Rules for the calls

The triples of the calls are built from a few rules. `spec_postTask` hands a task to a `pWorking`
thread and `spec_postRecovery` hands one to a `pRecovery` thread: the caller says what holds of the
participant after each way the worker's round can end (`WorkRound`, `RecoveryRound`).
`spec_postTasks` does this for all participants. `spec_takeReply` reads a reply from a fixed set of
buffers.

Every operation keeps `Guarantee`: the coordinator's log only grows, and the invariant holds.
-/

set_option autoImplicit false

namespace CloudLabs.KvStore

open CloudLabs.Foundation

/-! ## What every operation keeps -/

/-- The effect of an operation: the coordinator's log grows, its state is left alone, and the
invariant holds with the bound of the setting. -/
structure Guarantee (S : Setting) (s s' : Sys) : Prop where
  txid_le : s.c.TXID ≤ s'.c.TXID
  kept : ∀ t, TXID_START ≤ t → t < s.c.TXID → s'.c.lg t = s.c.lg t
  cstate : s'.c.cstate = s.c.cstate
  tmpNum_le : s'.c.tmpNum ≤ s.c.tmpNum
  core : Core S s'

/-- A triple in a setting. -/
abbrev Spec (S : Setting) {α : Type} (P : Sys → Prop) (p : Proc α) (Q : α → Sys → Prop) : Prop :=
  Prog.Triple (Sys.Step S.faults) (Env S.faults) (Guarantee S.loose) P p Q

variable {S : Setting}

/-- An operation that leaves the counter, the log and the state of the coordinator alone. -/
theorem Core.guarantee {s s' : Sys} (h : Core S s') (htx : s'.c.TXID = s.c.TXID)
    (hlg : s'.c.lg = s.c.lg) (hst : s'.c.cstate = s.c.cstate) (htmp : s'.c.tmpNum ≤ s.c.tmpNum) :
    Guarantee S.loose s s' :=
  ⟨htx.ge, fun t _ _ => by rw [hlg], hst, htmp, h.loose⟩

/-! ## Operations that leave the state as it is -/

section Keep

variable {running : Bool} {G : GlobalPred} {P : Nat → NodePred}

/-- An operation that leaves the state as it is. -/
theorem spec_keep (hP : ∀ id, NodeStable S running id (P id)) {o : Op}
    (hstep : ∀ s r s', Sys.Step S.faults o s r s' → s' = s) :
    Spec S (Assert S running G P) (Prog.perform o) fun _ => Assert S running G P := by
  refine Prog.Triple.perform (Assert.stable hP) ?_
  intro s r s' hs hst
  obtain rfl := hstep s r s' hst
  exact ⟨hs.core.guarantee rfl rfl rfl le_rfl, hs⟩

theorem spec_pGet (hP : ∀ id, NodeStable S running id (P id)) (l : Lock) :
    Spec S (Assert S running G P) (pGet l) fun _ => Assert S running G P :=
  Prog.Triple.bind (spec_keep hP fun _ _ _ h => h) fun _ => spec_keep hP fun _ _ _ h => h

theorem spec_cGet (hP : ∀ id, NodeStable S running id (P id)) (l : Lock) :
    Spec S (Assert S running G P) (cGet l) fun _ => Assert S running G P :=
  Prog.Triple.bind (spec_keep hP fun _ _ _ h => h) fun _ => spec_keep hP fun _ _ _ h => h

theorem step_post_mutex {l : Lock} {s s' : Sys} {r : Unit}
    (h : Sys.Step S.faults (.post l .mutex) s r s') : s' = s := by
  obtain ⟨ch, side, id⟩ := l
  cases side <;> exact h

theorem step_post_empty {l : Lock} {s s' : Sys} {r : Unit}
    (h : Sys.Step S.faults (.post l .empty) s r s') : s' = s := by
  obtain ⟨ch, side, id⟩ := l
  cases side <;> exact h

theorem spec_cRelease (hP : ∀ id, NodeStable S running id (P id)) (l : Lock) :
    Spec S (Assert S running G P) (cRelease l) fun _ => Assert S running G P :=
  Prog.Triple.bind (spec_keep hP fun _ _ _ h => step_post_mutex h)
    fun _ => spec_keep hP fun _ _ _ h => step_post_empty h

theorem spec_skipReply (hP : ∀ id, NodeStable S running id (P id)) (ch : Chan) (id : Nat) :
    Spec S (Assert S running G P) (skipReply ch id) fun _ => Assert S running G P :=
  Prog.Triple.bind (spec_cGet hP _) fun _ => spec_cRelease hP _

/-- Reading the coordinator's memory. -/
theorem spec_readMem (hP : ∀ id, NodeStable S running id (P id)) :
    Spec S (Assert S running G P) readMem fun c s => Assert S running G P s ∧ c = s.c := by
  refine Prog.Triple.perform (Assert.stable hP) ?_
  rintro s r s' hs ⟨rfl, rfl⟩
  exact ⟨hs.core.guarantee rfl rfl rfl le_rfl, hs, rfl⟩

/-- An update of the coordinator's memory. -/
theorem spec_updateMem (hP : ∀ id, NodeStable S running id (P id)) {f : Coordinator → Coordinator}
    {Q : Sys → Prop} (h : ∀ s, Assert S running G P s →
      Guarantee S.loose s { s with c := f s.c } ∧ Q { s with c := f s.c }) :
    Spec S (Assert S running G P) (updateMem f) fun _ => Q := by
  refine Prog.Triple.perform (Assert.stable hP) ?_
  rintro s r s' hs rfl
  exact h s hs

/-- The coordinator's counter and log are replaced: the records below the old counter stay, and
those up to the new one are committed and related to their numbers. -/
theorem Assert.withLog {G' : GlobalPred} {s : Sys} (h : Assert S running G P s) {T : Nat}
    {lg : Logger} (htx : s.c.TXID ≤ T) (hbound : T ≤ 2 ^ 63)
    (hold : ∀ t, TXID_START ≤ t → t < s.c.TXID → lg t = s.c.lg t)
    (hnew : ∀ t, s.c.TXID ≤ t → t < T →
      ∃ e, lg t = some ⟨t, LogState.LOG_COMMIT, e⟩ ∧ Accepted e ∧ S.rel t e)
    (hG : G' T lg s.hist) :
    Guarantee S.loose s { s with c := { s.c with TXID := T, lg := lg } } ∧
      Assert S running G' P { s with c := { s.c with TXID := T, lg := lg } } := by
  have hcore := h.core
  have hassert : Assert S running G' P { s with c := { s.c with TXID := T, lg := lg } } := by
    refine ⟨⟨hcore.running, ⟨hcore.committed.start_le.trans htx, hbound, fun t h₁ h₂ => ?_⟩,
      fun m hm => ?_, hcore.nodes, hcore.outside, hcore.hist, hcore.voted, hcore.applied⟩, h.mutex, hG,
      h.peers⟩
    · by_cases ht : t < s.c.TXID
      · obtain ⟨e, he, hrest⟩ := hcore.committed.record t h₁ ht
        exact ⟨e, (hold t h₁ ht).trans he, hrest⟩
      · exact hnew t (Nat.le_of_not_lt ht) h₂
    · obtain ⟨h₁, h₂, h₃⟩ := hcore.waits m hm
      exact ⟨h₁, h₂.trans htx, h₃⟩
  exact ⟨⟨htx, hold, rfl, le_rfl, hassert.core.loose⟩, hassert⟩

end Keep

/-! ## Reading replies -/

/-- The reply in a worker's buffers, if it satisfies the condition. -/
def Buffers.reply (b : Buffers) (cond : Bytes → Bool) : Option Bytes :=
  if b.ret = KV_OK ∧ cond b.dataRet then some b.dataRet else none

/-- The buffers of the worker are the given ones. -/
def Holds (P : NodePred) (ch : Chan) (b : Buffers) : NodePred := fun h e n => P h e n ∧ e.buf ch = b

section Replies

variable {running : Bool} {G : GlobalPred} {P : Nat → NodePred} {ch : Chan} {σ : Nat → Buffers}

theorem NodeStable.holds {id : Nat} {P : NodePred} (hP : NodeStable S running id P) (b : Buffers) :
    NodeStable S running id (Holds P ch b) where
  step hok h hs := ⟨hP.step hok h.1 hs, h.2⟩
  connect hr hok h hst hp := ⟨hP.connect hr hok h.1 hst hp, h.2⟩
  clear hr h := ⟨hP.clear hr h.1, h.2⟩
  sent hy h := ⟨hP.sent hy h.1, h.2⟩

/-- The buffers of a state may be named. -/
theorem Assert.holds {s : Sys} (h : Assert S running G P s) (ch : Chan) :
    Assert S running G (fun id => Holds (P id) ch ((s.c.p id).buf ch)) s :=
  h.imp (fun hG => hG) fun _ _ hP => ⟨hP, rfl⟩

theorem Assert.of_holds {s : Sys} (h : Assert S running G (fun id => Holds (P id) ch (σ id)) s) :
    Assert S running G P s :=
  h.imp (fun hG => hG) fun _ _ hP => hP.1

theorem spec_readReply (hP : ∀ id, NodeStable S running id (P id)) (id : Nat) {b : Buffers}
    (hbuf : ∀ h e n, P id h e n → e.buf ch = b) (cond : Bytes → Bool) :
    Spec S (Assert S running G P) (readReply ch id cond)
      fun r s => Assert S running G P s ∧ r = b.reply cond := by
  refine Prog.Triple.bind (R := fun r s => Assert S running G P s ∧ r = b.ret)
    (Prog.Triple.perform (Assert.stable hP) ?_) ?_
  · rintro s r s' hs ⟨rfl, rfl⟩
    exact ⟨hs.core.guarantee rfl rfl rfl le_rfl, hs, by rw [hbuf _ _ _ (hs.peers id)]⟩
  intro ret
  refine Prog.Triple.of_imp (C := ret = b.ret) (fun s hs => hs.2) fun hσ => ?_
  refine Prog.Triple.conseq (P := Assert S running G P) ?_ (fun s hs => hs.1) fun _ _ h => h
  by_cases hret : ret = KV_OK
  · rw [if_pos hret]
    refine Prog.Triple.bind (R := fun r s => Assert S running G P s ∧ r = b.dataRet)
      (Prog.Triple.perform (Assert.stable hP) ?_) ?_
    · rintro s r s' hs ⟨rfl, rfl⟩
      exact ⟨hs.core.guarantee rfl rfl rfl le_rfl, hs, by rw [hbuf _ _ _ (hs.peers id)]⟩
    · rintro rc s ⟨hs, rfl⟩
      exact ⟨hs, by simp [Buffers.reply, ← hσ, hret]⟩
  · rw [if_neg hret]
    exact fun s hs => ⟨hs, by simp [Buffers.reply, ← hσ, hret]⟩

/-- Reading a reply and releasing its lock. -/
theorem spec_takeReply (hP : ∀ id, NodeStable S running id (P id)) (id : Nat) {b : Buffers}
    (hbuf : ∀ h e n, P id h e n → e.buf ch = b) (cond : Bytes → Bool) :
    Spec S (Assert S running G P) (takeReply ch id cond)
      fun r s => Assert S running G P s ∧ r = b.reply cond := by
  refine Prog.Triple.bind (spec_cGet hP _) fun _ => ?_
  refine Prog.Triple.bind (spec_readReply hP id hbuf cond) fun r => ?_
  refine Prog.Triple.of_imp (C := r = b.reply cond) (fun s hs => hs.2) ?_
  rintro rfl
  refine Prog.Triple.conseq (Prog.Triple.bind (spec_cRelease hP _) fun _ => Prog.Triple.ret
    fun s hs => ⟨hs, rfl⟩) (fun s hs => hs.1) fun _ _ h => h

end Replies

/-! ## Worker rounds -/

@[simp] theorem Entry.setTask_pstate (e : Entry) (ch : Chan) (t : Bytes) :
    (e.setTask ch t).pstate = e.pstate := rfl
@[simp] theorem Entry.setTask_maxTxid (e : Entry) (ch : Chan) (t : Bytes) :
    (e.setTask ch t).maxTxid = e.maxTxid := rfl
@[simp] theorem Entry.setTask_task (e : Entry) (ch : Chan) (t : Bytes) :
    ((e.setTask ch t).buf ch).task = t := by simp [Entry.setTask]
@[simp] theorem Entry.setRet_pstate (e : Entry) (ch : Chan) (r : Int) :
    (e.setRet ch r).pstate = e.pstate := rfl
@[simp] theorem Entry.setRet_maxTxid (e : Entry) (ch : Chan) (r : Int) :
    (e.setRet ch r).maxTxid = e.maxTxid := rfl
@[simp] theorem Entry.setRet_ret (e : Entry) (ch : Chan) (r : Int) :
    ((e.setRet ch r).buf ch).ret = r := by simp [Entry.setRet]
@[simp] theorem Entry.setReply_pstate (e : Entry) (ch : Chan) (r : Int) (d : Bytes) :
    (e.setReply ch r d).pstate = e.pstate := rfl
@[simp] theorem Entry.setReply_maxTxid (e : Entry) (ch : Chan) (r : Int) (d : Bytes) :
    (e.setReply ch r d).maxTxid = e.maxTxid := rfl
@[simp] theorem Entry.setReply_ret (e : Entry) (ch : Chan) (r : Int) (d : Bytes) :
    ((e.setReply ch r d).buf ch).ret = r := by simp [Entry.setReply]
@[simp] theorem Entry.setReply_dataRet (e : Entry) (ch : Chan) (r : Int) (d : Bytes) :
    ((e.setReply ch r d).buf ch).dataRet = d := by simp [Entry.setReply]
@[simp] theorem Entry.setState_pstate (e : Entry) (st : PState) : (e.setState st).pstate = st := rfl
@[simp] theorem Entry.setState_maxTxid (e : Entry) (st : PState) :
    (e.setState st).maxTxid = e.maxTxid := rfl
@[simp] theorem Entry.setState_buf (e : Entry) (st : PState) : (e.setState st).buf = e.buf := rfl
@[simp] theorem Node.close_part (n : Node) : n.close.part = n.part := rfl
@[simp] theorem Node.close_pending (n : Node) : n.close.pending = n.pending := rfl
@[simp] theorem Node.close_kept (n : Node) : n.close.kept = n.kept := rfl
@[simp] theorem Node.close_alive (n : Node) : n.close.alive = false := rfl

/-- A request that got no reply: it was not read, it was carried out, or it is still to be carried
out. -/
structure Failed (task : Bytes) (n : Node) (o : Outcome) : Prop where
  ret : o.ret ≠ KV_OK
  side : (o.delivered = false ∧ o.node = n) ∨
    (o.delivered = true ∧ ((∃ r, n.part.pWorker task = some r ∧ o.node = { n with part := r.2 }) ∨
      o.node = { n with pending := some task }))

theorem Failed.kept {task : Bytes} {n : Node} {o : Outcome} (h : Failed task n o) :
    o.node.kept = n.kept := by
  rcases h.side with ⟨-, h⟩ | ⟨-, ⟨r, -, h⟩ | h⟩ <;> rw [h]

theorem network_ne : KV_NETWORK ≠ KV_OK := by decide

/-- A request is answered by the participant, or it fails; a participant that nothing happens to
answers. -/
theorem sendAndRecv_cases (x : Choice) (n : Node) (task : Bytes) :
    (n.alive = true ∧ ∃ rmsg part, n.part.pWorker task = some (rmsg, part) ∧
        sendAndRecv x n task = ⟨KV_OK, rmsg, true, { n with part := part }⟩) ∨
      (Failed task n (sendAndRecv x n task) ∧
        (x = .answer → n.alive = true → n.part.pWorker task = none)) := by
  unfold sendAndRecv
  by_cases ha : n.alive = true
  · rw [if_pos ha]
    cases x with
    | answer =>
        cases hw : n.part.pWorker task with
        | some r => exact Or.inl ⟨ha, r.1, r.2, rfl, rfl⟩
        | none => exact Or.inr ⟨⟨network_ne, Or.inr ⟨rfl, Or.inr rfl⟩⟩, fun _ _ => rfl⟩
    | lost code rmsg => exact Or.inr ⟨⟨code.2, Or.inl ⟨rfl, rfl⟩⟩, nofun⟩
    | unanswered code rmsg =>
        cases hw : n.part.pWorker task with
        | some r => exact Or.inr ⟨⟨code.2, Or.inr ⟨rfl, Or.inl ⟨r, hw, rfl⟩⟩⟩, nofun⟩
        | none => exact Or.inr ⟨⟨code.2, Or.inr ⟨rfl, Or.inr rfl⟩⟩, nofun⟩
    | late code rmsg => exact Or.inr ⟨⟨code.2, Or.inr ⟨rfl, Or.inr rfl⟩⟩, nofun⟩
  · rw [if_neg ha]
    right
    cases x with
    | answer => exact ⟨⟨network_ne, Or.inl ⟨rfl, rfl⟩⟩, fun _ h => absurd h ha⟩
    | lost code rmsg => exact ⟨⟨code.2, Or.inl ⟨rfl, rfl⟩⟩, nofun⟩
    | unanswered code rmsg => exact ⟨⟨code.2, Or.inl ⟨rfl, rfl⟩⟩, nofun⟩
    | late code rmsg => exact ⟨⟨code.2, Or.inl ⟨rfl, rfl⟩⟩, nofun⟩

/-- The request of a round and its outcome. -/
def Exch.of (ch : Chan) (id : Nat) (task : Bytes) (n : Node) (o : Outcome) : Exch :=
  ⟨ch, id, task, o, n.part⟩

/-- The outcome of a request that was answered. -/
def Outcome.answered (n : Node) (rmsg : Bytes) (part : Participant) : Outcome :=
  ⟨KV_OK, rmsg, true, { n with part := part }⟩

/-- The ways a round of `pWorking` can end. -/
inductive WorkRound (id : Nat) (task : Bytes) (e : Entry) (n : Node) : Round → Prop
  | skip : e.pstate ≠ .P_WORKING → WorkRound id task e n ⟨e.setRet .working RET_SKIP, n, [], false⟩
  | answered {rmsg : Bytes} {part : Participant} : e.pstate = .P_WORKING → n.alive = true →
      n.part.pWorker task = some (rmsg, part) →
      WorkRound id task e n ⟨e.setReply .working KV_OK rmsg, { n with part := part },
        [.of .working id task n (.answered n rmsg part)], false⟩
  | failed {o : Outcome} : e.pstate = .P_WORKING → Failed task n o →
      (S.steady id → n.part.pWorker task = none) →
      WorkRound id task e n ⟨(e.setReply .working o.ret o.rmsg).setState .P_WAITING, o.node.close,
        [.of .working id task n o], false⟩

theorem pWorking_round {id : Nat} {task : Bytes} {e : Entry} {n : Node} {x : Choice}
    (hok : NodeOk S id e n) (hx : S.faults.choice id x) (ht : (e.buf .working).task = task) :
    WorkRound (S := S) id task e n (pWorking x id e n) := by
  unfold pWorking
  by_cases hst : e.pstate = .P_WORKING
  · rw [if_neg (not_not.2 hst), ht]
    dsimp only
    rcases sendAndRecv_cases x n task with ⟨ha, rmsg, part, hw, ho⟩ | ⟨hf, hsteady⟩
    · rw [ho]
      exact .answered hst ha hw
    · simp only [hf.ret, ne_eq, not_false_eq_true, if_true]
      exact .failed hst hf fun hu => hsteady (S.steady_choice id x hu hx) (hok.steady hu)
  · rw [if_pos hst]
    exact .skip hst

/-- The entry of a participant whose recovery worker was answered: a reply that is no error message
counts the record. -/
def Entry.counted (e : Entry) (l : Log) (rmsg : Bytes) : Entry :=
  { e.setReply .recovery KV_OK rmsg with
    maxTxid :=
      if rmsg ≠ getErrorMessage then some (e.maxTxid.getD 0 + 1)
      else if TXID_START ≤ l.ID then some (e.maxTxid.getD 0) else e.maxTxid }

/-- The ways a round of `pRecovery` can end. -/
inductive RecoveryRound (id : Nat) (task : Bytes) (l : Log) (e : Entry) (n : Node) : Round → Prop
  | skip : e.pstate ≠ .P_RECOVERY →
      RecoveryRound id task l e n ⟨e.setRet .recovery RET_SKIP, n, [], false⟩
  | stale : e.pstate = .P_RECOVERY → TXID_START ≤ l.ID → l.ID ≠ e.maxTxid.getD 0 + 1 →
      RecoveryRound id task l e n
        ⟨{ e.setRet .recovery RET_SKIP with maxTxid := some (e.maxTxid.getD 0) }, n, [], false⟩
  | answered {rmsg : Bytes} {part : Participant} : e.pstate = .P_RECOVERY →
      (TXID_START ≤ l.ID → l.ID = e.maxTxid.getD 0 + 1) → n.alive = true →
      n.part.pWorker task = some (rmsg, part) →
      RecoveryRound id task l e n ⟨e.counted l rmsg, { n with part := part },
        [.of .recovery id task n (.answered n rmsg part)], false⟩
  | failed {o : Outcome} : e.pstate = .P_RECOVERY →
      (TXID_START ≤ l.ID → l.ID = e.maxTxid.getD 0 + 1) → Failed task n o →
      (S.steady id → n.part.pWorker task = none) →
      RecoveryRound id task l e n
        ⟨{ e.setReply .recovery o.ret o.rmsg with pstate := .P_WAITING, maxTxid := none },
          o.node.close, [.of .recovery id task n o], false⟩

theorem pRecovery_round {id : Nat} {task : Bytes} {l : Log} {e : Entry} {n : Node} {x : Choice}
    (hok : NodeOk S id e n) (hx : S.faults.choice id x) (ht : (e.buf .recovery).task = task)
    (hl : strToLog task = some l) :
    RecoveryRound (S := S) id task l e n (pRecovery x id e n) := by
  unfold pRecovery
  by_cases hst : e.pstate = .P_RECOVERY
  · rw [if_neg (not_not.2 hst), ht]
    simp only [hl]
    by_cases hstart : TXID_START ≤ l.ID
    · simp only [hstart, if_true, true_and, Option.getD_some]
      by_cases hID : l.ID = e.maxTxid.getD 0 + 1
      · simp only [hID, not_true_eq_false, if_false, ne_eq]
        rcases sendAndRecv_cases x n task with ⟨ha, rmsg, part, hw, ho⟩ | ⟨hf, hsteady⟩
        · rw [ho]
          have hround : RecoveryRound (S := S) id task l e n _ := .answered hst (fun _ => hID) ha hw
          simp only [Entry.counted, hstart, if_true] at hround
          by_cases hrc : rmsg = getErrorMessage
          · simpa [hrc, Entry.setReply, Exch.of, Outcome.answered] using hround
          · simpa [hrc, Entry.setReply, Exch.of, Outcome.answered] using hround
        · simp only [hf.ret, not_false_eq_true, if_true]
          exact .failed hst (fun _ => hID) hf
            fun hu => hsteady (S.steady_choice id x hu hx) (hok.steady hu)
      · simp only [hID, ne_eq, not_false_eq_true, if_true]
        exact .stale hst hstart hID
    · simp only [hstart, if_false, false_and]
      rcases sendAndRecv_cases x n task with ⟨ha, rmsg, part, hw, ho⟩ | ⟨hf, hsteady⟩
      · rw [ho]
        have hround : RecoveryRound (S := S) id task l e n _ :=
          .answered hst (fun h => absurd h hstart) ha hw
        simp only [Entry.counted, hstart, if_false] at hround
        by_cases hrc : rmsg = getErrorMessage
        · simpa [hrc, Entry.setReply, Exch.of, Outcome.answered] using hround
        · simpa [hrc, Entry.setReply, Exch.of, Outcome.answered] using hround
      · simp only [hf.ret, ne_eq, not_false_eq_true, if_true]
        exact .failed hst (fun h => absurd h hstart) hf
          fun hu => hsteady (S.steady_choice id x hu hx) (hok.steady hu)
  · rw [if_pos hst]
    exact .skip hst

/-! ## What a round keeps -/

section Rounds

variable {id : Nat} {task : Bytes} {e e' : Entry} {n : Node} {o : Outcome} {rmsg : Bytes}
  {part : Participant}

theorem NodeOk.answered (h : NodeOk S id e n) (hk : Keeps S.rel n.part task)
    (hw : n.part.pWorker task = some (rmsg, part)) (hst : e.pstate ≠ .P_WAITING)
    (he : e'.pstate = e.pstate) : NodeOk S id e' { n with part := part } where
  within := hk.2 _ hw
  pending := fun _ ht => absurd ((h.pending_none hst).symm.trans ht) nofun
  alive := fun ha => he ▸ h.alive ha
  steady := h.steady

theorem NodeOk.failed (h : NodeOk S id e n) (hk : Keeps S.rel n.part task) (hf : Failed task n o)
    (hst : e.pstate ≠ .P_WAITING) (hu : ¬ S.steady id) (he : e'.pstate = .P_WAITING) :
    NodeOk S id e' o.node.close := by
  have hp := h.pending_none hst
  refine ⟨?_, ?_, nofun, fun hu' => absurd hu' hu⟩
  · rcases hf.side with ⟨-, hn⟩ | ⟨-, ⟨r, hr, hn⟩ | hn⟩
    · rw [hn]; exact h.within
    · rw [hn]; exact hk.2 r hr
    · rw [hn]; exact h.within
  · intro task' ht
    refine ⟨?_, he⟩
    rcases hf.side with ⟨-, hn⟩ | ⟨-, ⟨r, hr, hn⟩ | hn⟩
    · rw [hn] at ht
      exact absurd (hp.symm.trans ht) nofun
    · rw [hn] at ht
      exact absurd (hp.symm.trans ht) nofun
    · rw [hn] at ht ⊢
      obtain rfl : task = task' := Option.some.inj ht
      exact hk

/-- A request that was sent to a participant, which is `n'` after it. -/
structure Sent (S : Setting) (id : Nat) (n n' : Node) (y : Exch) : Prop where
  ok : ExchOk y
  dest : y.id = id
  steady : S.steady id → y.id = id ∧ y.before = n.part ∧ y.out.node.part = n'.part ∧
    (n'.part.TXID = n.part.TXID ∨ n'.part.TXID = n.part.TXID + 1)

theorem Sent.answered {ch : Chan} (hk : Keeps S.rel n.part task)
    (hw : n.part.pWorker task = some (rmsg, part))
    (hrec : ch = .recovery → task = txidReq ∨ ∃ t e, task = commitReq t e) :
    Sent S id n { n with part := part } (.of ch id task n (.answered n rmsg part)) where
  ok := ⟨fun _ => hw, fun hd => (nomatch hd), hrec⟩
  dest := rfl
  steady := by
    refine fun _ => ⟨rfl, rfl, rfl, ?_⟩
    rcases pWorker_emitted hk.1 hw with rfl | ⟨l, -, -, -, -, -, -, rfl⟩
    · exact Or.inl rfl
    · exact Or.inr rfl

theorem Sent.failed {ch : Chan} (hf : Failed task n o) (hu : ¬ S.steady id)
    (hrec : ch = .recovery → task = txidReq ∨ ∃ t e, task = commitReq t e) :
    Sent S id n o.node.close (.of ch id task n o) where
  ok := by
    refine ⟨fun hret => absurd hret hf.ret, fun hd => ?_, hrec⟩
    rcases hf.side with ⟨-, hn⟩ | ⟨hd', -⟩
    · exact congrArg Node.part hn
    · exact absurd (hd.symm.trans hd') nofun
  dest := rfl
  steady hu' := absurd hu' hu

theorem Applied.concat {first : Nat} {hist : List Exch} {n n' : Node} {y : Exch}
    (h : Applied first id hist n.part)
    (hy : y.id = id ∧ y.before = n.part ∧ y.out.node.part = n'.part ∧
      (n'.part.TXID = n.part.TXID ∨ n'.part.TXID = n.part.TXID + 1)) :
    Applied first id (hist ++ [y]) n'.part := by
  obtain ⟨hle, hnum⟩ := h
  obtain ⟨hid, hbefore, hafter, htx⟩ := hy
  unfold Applied appliedNumbers at *
  rw [List.filter_append, List.map_append, hnum]
  rcases htx with htx | htx
  · simp [hid, hbefore, hafter, htx, hle]
  · have hlen : n.part.TXID + 1 - first = (n.part.TXID - first) + 1 := by omega
    have hlast : first + (n.part.TXID - first) = n.part.TXID := by omega
    refine ⟨by omega, ?_⟩
    rw [htx, hlen, List.range'_1_concat, hlast]
    simp [hid, hbefore, hafter, htx]

theorem Applied.concat_of_ne {first : Nat} {hist : List Exch} {p : Participant} {y : Exch}
    (h : Applied first id hist p) (hy : y.id ≠ id) : Applied first id (hist ++ [y]) p := by
  obtain ⟨hle, hnum⟩ := h
  refine ⟨hle, ?_⟩
  unfold appliedNumbers at *
  rw [List.filter_append, List.map_append, hnum]
  simp [hy]

theorem VotedFirst.concat {hist : List Exch} {y : Exch} (h : VotedFirst hist)
    (hy : y.ch = .working → ∀ T e, TXID_START ≤ T → y.task = commitReq T e →
      ∃ z ∈ hist, z.id = y.id ∧ z.IsVote T) : VotedFirst (hist ++ [y]) := by
  intro h₁ y' h₂ heq
  rcases List.append_eq_append_iff.1 heq with ⟨l, rfl, hl⟩ | ⟨l, rfl, hl⟩
  · cases l with
    | nil =>
        simp only [List.nil_append, List.cons.injEq] at hl
        rw [← hl.1, List.append_nil]
        exact hy
    | cons a l => simp at hl
  · cases l with
    | nil =>
        simp only [List.nil_append, List.cons.injEq] at hl
        rw [hl.1]
        simpa using hy
    | cons a l =>
        simp only [List.cons_append, List.cons.injEq] at hl
        obtain ⟨rfl, -⟩ := hl
        exact h h₁ y' l rfl

end Rounds

/-! ## Handing out tasks -/

section Tasks

variable {running : Bool} {G : GlobalPred} {P : Nat → NodePred} {Q : NodePred} {id : Nat}

/-- The state after a round: the predicate of the worker's participant is replaced. -/
theorem Assert.work {s : Sys} (h : Assert S running G P s)
    (hP : ∀ j, NodeStable S running j (P j)) (hid : id ∈ pids S.pnum) {r : Round}
    (hfailed : r.failed = false)
    (hmax : running = false → r.entry.maxTxid = (s.c.p id).maxTxid)
    (hnode : NodeOk S id r.entry r.node)
    (hsent : (r.sent = [] ∧ r.node = s.node id) ∨ ∃ y, r.sent = [y] ∧ Sent S id (s.node id) r.node y ∧
      (y.ch = .working → ∀ T e, TXID_START ≤ T → y.task = commitReq T e →
        ∃ z ∈ s.hist, z.id = y.id ∧ z.IsVote T))
    (hG : G s.c.TXID s.c.lg (s.hist ++ r.sent)) (hQ : Q (s.hist ++ r.sent) r.entry r.node) :
    Assert S running G (Function.update P id Q) (s.work id r) := by
  have hcore := h.core
  refine ⟨⟨?_, ⟨hcore.committed.start_le, hcore.committed.txid_le, hcore.committed.record⟩, ?_, ?_,
    ?_, ?_, ?_, ?_⟩, h.mutex, hG, ?_⟩
  · simp [Sys.work, hcore.running, hfailed]
  · intro m hm
    obtain ⟨h₁, h₂, h₃⟩ := hcore.waits m hm
    refine ⟨h₁, h₂, fun j => ?_⟩
    by_cases hj : j = id
    · subst hj
      -- while a recovery run is prepared, no worker enters a number into the table
      have hrun : running = false :=
        Bool.eq_false_iff.2 (h.not_running fun hrpc => by
          rcases hm with hm | hm <;> exact absurd (hrpc.symm.trans hm) nofun)
      simp [Sys.work, hmax hrun, h₃]
    · simpa [Sys.work, hj] using h₃ j
  · intro j
    by_cases hj : j = id
    · subst hj
      simpa [Sys.work] using hnode
    · simpa [Sys.work, hj] using hcore.nodes j
  · intro j hj
    have hne : j ≠ id := fun heq => hj (heq ▸ hid)
    simpa [Sys.work, hne] using hcore.outside j hj
  · intro y hy
    -- the request that was sent, if there was one
    rcases List.mem_append.1 hy with hy | hy
    · exact hcore.hist y hy
    · rcases hsent with ⟨hnil, -⟩ | ⟨y', hy', hok, -⟩
      · rw [hnil] at hy
        exact nomatch hy
      · rw [hy', List.mem_singleton] at hy
        exact hy ▸ hok.ok
  · rcases hsent with ⟨hnil, -⟩ | ⟨y, hy, -, hvote⟩
    · simpa [Sys.work, hnil] using hcore.voted
    · simpa [Sys.work, hy] using hcore.voted.concat hvote
  · intro j hu
    -- what a participant has applied grows with a request to it and with no other
    rcases hsent with ⟨hnil, hn⟩ | ⟨y, hy, hok, -⟩
    · by_cases hj : j = id
      · subst hj
        simpa [Sys.work, hnil, hn] using hcore.applied j hu
      · simpa [Sys.work, hnil, hj] using hcore.applied j hu
    · by_cases hj : j = id
      · subst hj
        simpa [Sys.work, hy] using (hcore.applied j hu).concat (hok.steady hu)
      · simpa [Sys.work, hy, hj] using (hcore.applied j hu).concat_of_ne (hok.dest.trans_ne (Ne.symm hj))
  · intro j
    by_cases hj : j = id
    · subst hj
      simpa [Sys.work] using hQ
    · rcases hsent with ⟨hnil, -⟩ | ⟨y, hy, hok, -⟩
      · simpa [Sys.work, hj, hnil] using h.peers j
      · simpa [Sys.work, hj, hy] using (hP j).sent (hok.dest.trans_ne (Ne.symm hj)) (h.peers j)

/-- What is known when a worker begins its round. -/
structure At (S : Setting) (G : GlobalPred) (id : Nat) (P : NodePred) (T : Nat) (lg : Logger)
    (h : List Exch) (e : Entry) (n : Node) : Prop where
  global : G T lg h
  ok : NodeOk S id e n
  pred : P h e n

/-- What has to be shown to hand a task to a `pWorking` thread. -/
structure WorkSpec (S : Setting) (G : GlobalPred) (id : Nat) (task : Bytes) (P Q : NodePred) :
    Prop where
  keeps : ∀ {T lg h e n}, At S G id P T lg h e n → e.pstate = .P_WORKING → Keeps S.rel n.part task
  answers : ∀ {T lg h e n}, At S G id P T lg h e n → e.pstate = .P_WORKING → S.steady id →
    n.part.pWorker task ≠ none
  voted : ∀ {T lg h e n}, At S G id P T lg h e n → e.pstate = .P_WORKING →
    ∀ T' e', TXID_START ≤ T' → task = commitReq T' e' → ∃ z ∈ h, z.id = id ∧ z.IsVote T'
  skip : ∀ {T lg h e n}, At S G id P T lg h e n → e.pstate ≠ .P_WORKING →
    Q h ((e.setTask .working task).setRet .working RET_SKIP) n
  answered : ∀ {T lg h e n rmsg part}, At S G id P T lg h e n → e.pstate = .P_WORKING →
    n.alive = true → n.part.pWorker task = some (rmsg, part) →
    G T lg (h ++ [.of .working id task n (.answered n rmsg part)]) ∧
      Q (h ++ [.of .working id task n (.answered n rmsg part)])
        ((e.setTask .working task).setReply .working KV_OK rmsg) { n with part := part }
  failed : ∀ {T lg h e n o}, At S G id P T lg h e n → e.pstate = .P_WORKING → Failed task n o →
    ¬ S.steady id → G T lg (h ++ [.of .working id task n o]) ∧
      Q (h ++ [.of .working id task n o])
        (((e.setTask .working task).setReply .working o.ret o.rmsg).setState .P_WAITING)
        o.node.close

/-- What has to be shown to hand a task to a `pRecovery` thread. -/
structure RecoverySpec (S : Setting) (G : GlobalPred) (id : Nat) (l : Log) (P Q : NodePred) :
    Prop where
  text : l.ID < 2 ^ 63 ∧ (l.logToStr = txidReq ∨ ∃ t e, l.logToStr = commitReq t e)
  keeps : ∀ {T lg h e n}, At S G id P T lg h e n → e.pstate = .P_RECOVERY →
    Keeps S.rel n.part l.logToStr
  answers : ∀ {T lg h e n}, At S G id P T lg h e n → e.pstate = .P_RECOVERY →
    (TXID_START ≤ l.ID → l.ID = e.maxTxid.getD 0 + 1) → S.steady id →
    n.part.pWorker l.logToStr ≠ none
  skip : ∀ {T lg h e n}, At S G id P T lg h e n → e.pstate ≠ .P_RECOVERY →
    Q h ((e.setTask .recovery l.logToStr).setRet .recovery RET_SKIP) n
  stale : ∀ {T lg h e n}, At S G id P T lg h e n → e.pstate = .P_RECOVERY → TXID_START ≤ l.ID →
    l.ID ≠ e.maxTxid.getD 0 + 1 →
    Q h { (e.setTask .recovery l.logToStr).setRet .recovery RET_SKIP with
      maxTxid := some (e.maxTxid.getD 0) } n
  answered : ∀ {T lg h e n rmsg part}, At S G id P T lg h e n → e.pstate = .P_RECOVERY →
    (TXID_START ≤ l.ID → l.ID = e.maxTxid.getD 0 + 1) → n.alive = true →
    n.part.pWorker l.logToStr = some (rmsg, part) →
    G T lg (h ++ [.of .recovery id l.logToStr n (.answered n rmsg part)]) ∧
      Q (h ++ [.of .recovery id l.logToStr n (.answered n rmsg part)])
        ((e.setTask .recovery l.logToStr).counted l rmsg) { n with part := part }
  failed : ∀ {T lg h e n o}, At S G id P T lg h e n → e.pstate = .P_RECOVERY →
    (TXID_START ≤ l.ID → l.ID = e.maxTxid.getD 0 + 1) → Failed l.logToStr n o → ¬ S.steady id →
    G T lg (h ++ [.of .recovery id l.logToStr n o]) ∧
      Q (h ++ [.of .recovery id l.logToStr n o])
        { (e.setTask .recovery l.logToStr).setReply .recovery o.ret o.rmsg with
          pstate := .P_WAITING, maxTxid := none } o.node.close

/-- The predicate after the task was written into the worker's buffer. -/
def Posted (P : NodePred) (ch : Chan) (task : Bytes) : NodePred :=
  fun h e n => ∃ e₀, P h e₀ n ∧ e = e₀.setTask ch task

theorem NodeStable.posted {P : NodePred} (hP : NodeStable S running id P) (ch : Chan)
    (task : Bytes) : NodeStable S running id (Posted P ch task) where
  step := by
    rintro h e n n' hok ⟨e₀, h₀, rfl⟩ hs
    exact ⟨e₀, hP.step (hok.entry rfl) h₀ hs, rfl⟩
  connect := by
    rintro h e n hr hok ⟨e₀, h₀, rfl⟩ hst hp
    exact ⟨e₀.setState .P_TEMP, hP.connect hr (hok.entry rfl) h₀ hst hp, rfl⟩
  clear := by
    rintro h e n hr ⟨e₀, h₀, rfl⟩
    exact ⟨{ e₀ with maxTxid := none }, hP.clear hr h₀, rfl⟩
  sent := by
    rintro h e n y hy ⟨e₀, h₀, rfl⟩
    exact ⟨e₀, hP.sent hy h₀, rfl⟩

theorem stable_update (hP : ∀ j, NodeStable S running j (P j)) (hQ : NodeStable S running id Q) :
    ∀ j, NodeStable S running j (Function.update P id Q j) := by
  intro j
  by_cases hj : j = id
  · subst hj
    simpa using hQ
  · simpa [hj] using hP j

/-- Writing a task into a worker's buffer. -/
theorem spec_setTask (hP : ∀ j, NodeStable S running j (P j)) (hid : id ∈ pids S.pnum) (ch : Chan)
    (task : Bytes) :
    Spec S (Assert S running G P) (setTask ch id task)
      fun _ => Assert S running G (Function.update P id (Posted (P id) ch task)) := by
  refine Prog.Triple.perform (Assert.stable hP) ?_
  rintro s r s' hs rfl
  suffices h : Assert S running G (Function.update P id (Posted (P id) ch task))
      { s with c := { s.c with p := Function.update s.c.p id ((s.c.p id).setTask ch task) } } from
    ⟨h.core.guarantee rfl rfl rfl le_rfl, h⟩
  have hcore := hs.core
  refine ⟨⟨hcore.running, ⟨hcore.committed.start_le, hcore.committed.txid_le,
    hcore.committed.record⟩, ?_, ?_, ?_, hcore.hist, hcore.voted, hcore.applied⟩, hs.mutex, hs.global,
    ?_⟩
  · intro m hm
    obtain ⟨h₁, h₂, h₃⟩ := hcore.waits m hm
    refine ⟨h₁, h₂, fun j => ?_⟩
    by_cases hj : j = id
    · subst hj
      simpa using h₃ j
    · simpa [hj] using h₃ j
  · intro j
    by_cases hj : j = id
    · subst hj
      simp only [Function.update_self]
      exact (hcore.nodes j).entry rfl
    · simpa [hj] using hcore.nodes j
  · intro j hj
    have hne : j ≠ id := fun heq => hj (heq ▸ hid)
    simpa [hne] using hcore.outside j hj
  · intro j
    by_cases hj : j = id
    · subst hj
      simp only [Function.update_self]
      exact ⟨s.c.p j, hs.peers j, rfl⟩
    · simpa [hj] using hs.peers j

/-- Handing a task to a worker, from what its round leads to. -/
theorem spec_post (hP : ∀ j, NodeStable S running j (P j)) (hid : id ∈ pids S.pnum) {ch : Chan}
    {task : Bytes}
    (hround : ∀ {s : Sys} {x : Choice} {P' : Nat → NodePred},
      (∀ j, NodeStable S running j (P' j)) → P' id = Posted (P id) ch task →
      Assert S running G P' s → S.faults.choice id x →
      Assert S running G (Function.update P' id Q)
        (s.work id (workerRound ch x id (s.c.p id) (s.node id)))) :
    Spec S (Assert S running G P) (postTask ch id task)
      fun _ => Assert S running G (Function.update P id Q) := by
  have hP' := stable_update hP ((hP id).posted ch task)
  refine Prog.Triple.bind (spec_pGet hP _) fun _ => ?_
  refine Prog.Triple.bind (spec_setTask hP hid ch task) fun _ => ?_
  refine Prog.Triple.bind (spec_keep hP' fun _ _ _ h => step_post_mutex h) fun _ => ?_
  refine Prog.Triple.perform (Assert.stable hP') ?_
  rintro s r s' hs ⟨x, hx, rfl⟩
  have h := hround hP' (Function.update_self _ _ _) hs hx
  rw [Function.update_idem] at h
  exact ⟨h.core.guarantee rfl rfl rfl le_rfl, h⟩

/-- Handing a task to a `pWorking` thread. -/
theorem spec_postTask (hP : ∀ j, NodeStable S running j (P j)) (hid : id ∈ pids S.pnum)
    {task : Bytes} (spec : WorkSpec S G id task (P id) Q) :
    Spec S (Assert S running G P) (postTask .working id task)
      fun _ => Assert S running G (Function.update P id Q) := by
  refine spec_post hP hid ?_
  intro s x P' hP' hid' hs hx
  have hpost := hs.peers id
  rw [hid'] at hpost
  obtain ⟨e, hPe, he⟩ := hpost
  have hok : NodeOk S id e (s.node id) := (hs.core.nodes id).entry (by rw [he]; rfl)
  have hat : At S G id (P id) s.c.TXID s.c.lg s.hist e (s.node id) := ⟨hs.global, hok, hPe⟩
  have hst : (s.c.p id).pstate = e.pstate := by rw [he]; rfl
  have hround := pWorking_round (hs.core.nodes id) hx (by rw [he, Entry.setTask_task])
  rw [he] at hround
  have hworking {st : PState} (h : (e.setTask .working task).pstate = st) : e.pstate = st := h
  show Assert S running G _ (s.work id (pWorking x id (s.c.p id) (s.node id)))
  rw [he]
  generalize hr : pWorking x id (e.setTask .working task) (s.node id) = r at hround
  cases hround with
  | skip hne =>
      refine hs.work hP' hid rfl (fun _ => by rw [he]; rfl) (hok.entry rfl) (Or.inl ⟨rfl, rfl⟩) ?_ ?_
      · simpa using hs.global
      · simpa using spec.skip hat hne
  | answered hst' ha hw =>
      obtain ⟨hG, hQ⟩ := spec.answered hat hst' ha hw
      refine hs.work hP' hid rfl (fun _ => by rw [he]; rfl)
        (hok.answered (spec.keeps hat hst') hw (by rw [hworking hst']; nofun) rfl)
        (Or.inr ⟨_, rfl, Sent.answered (spec.keeps hat hst') hw nofun, ?_⟩) hG hQ
      exact fun _ => spec.voted hat hst'
  | failed hst' hf hsteady =>
      have hu : ¬ S.steady id := fun hu => spec.answers hat hst' hu (hsteady hu)
      obtain ⟨hG, hQ⟩ := spec.failed hat hst' hf hu
      refine hs.work hP' hid rfl (fun _ => by rw [he]; rfl)
        (hok.failed (spec.keeps hat hst') hf (by rw [hworking hst']; nofun) hu rfl)
        (Or.inr ⟨_, rfl, Sent.failed hf hu nofun, ?_⟩) hG hQ
      exact fun _ => spec.voted hat hst'

/-- Handing a record to a `pRecovery` thread. -/
theorem spec_postRecovery (hP : ∀ j, NodeStable S true j (P j)) (hid : id ∈ pids S.pnum)
    {l : Log} (spec : RecoverySpec S G id l (P id) Q) :
    Spec S (Assert S true G P) (postTask .recovery id l.logToStr)
      fun _ => Assert S true G (Function.update P id Q) := by
  refine spec_post hP hid ?_
  intro s x P' hP' hid' hs hx
  have hpost := hs.peers id
  rw [hid'] at hpost
  obtain ⟨e, hPe, he⟩ := hpost
  have hok : NodeOk S id e (s.node id) := (hs.core.nodes id).entry (by rw [he]; rfl)
  have hat : At S G id (P id) s.c.TXID s.c.lg s.hist e (s.node id) := ⟨hs.global, hok, hPe⟩
  have hround := pRecovery_round (hs.core.nodes id) hx (by rw [he, Entry.setTask_task])
    (strToLog_logToStr_of_lt spec.text.1)
  rw [he] at hround
  have hworking {st : PState} (h : (e.setTask .recovery l.logToStr).pstate = st) :
      e.pstate = st := h
  show Assert S true G _ (s.work id (pRecovery x id (s.c.p id) (s.node id)))
  rw [he]
  generalize hr : pRecovery x id (e.setTask .recovery l.logToStr) (s.node id) = r at hround
  cases hround with
  | skip hne =>
      refine hs.work hP' hid rfl nofun (hok.entry rfl) (Or.inl ⟨rfl, rfl⟩) ?_ ?_
      · simpa using hs.global
      · simpa using spec.skip hat hne
  | stale hst' hl hID =>
      refine hs.work hP' hid rfl nofun (hok.entry rfl) (Or.inl ⟨rfl, rfl⟩) ?_ ?_
      · simpa using hs.global
      · simpa using spec.stale hat hst' hl hID
  | answered hst' hID ha hw =>
      obtain ⟨hG, hQ⟩ := spec.answered hat hst' hID ha hw
      refine hs.work hP' hid rfl nofun
        (hok.answered (spec.keeps hat hst') hw (by rw [hworking hst']; nofun) rfl)
        (Or.inr ⟨_, rfl, Sent.answered (spec.keeps hat hst') hw fun _ => spec.text.2, nofun⟩) hG hQ
  | failed hst' hID hf hsteady =>
      have hu : ¬ S.steady id := fun hu => spec.answers hat hst' hID hu (hsteady hu)
      obtain ⟨hG, hQ⟩ := spec.failed hat hst' hID hf hu
      refine hs.work hP' hid rfl nofun
        (hok.failed (spec.keeps hat hst') hf (by rw [hworking hst']; nofun) hu rfl)
        (Or.inr ⟨_, rfl, Sent.failed hf hu fun _ => spec.text.2, nofun⟩) hG hQ

/-- One predicate for the participants of a list, another one for the others. -/
def mix (ids : List Nat) (P Q : Nat → NodePred) : Nat → NodePred := fun id =>
  if id ∈ ids then Q id else P id

theorem stable_mix {P Q : Nat → NodePred} (hP : ∀ j, NodeStable S running j (P j))
    (hQ : ∀ j, NodeStable S running j (Q j)) (ids : List Nat) :
    ∀ j, NodeStable S running j (mix ids P Q j) := by
  intro j
  unfold mix
  split
  · exact hQ j
  · exact hP j

theorem update_mix (ids : List Nat) (P Q : Nat → NodePred) :
    Function.update (mix ids P Q) id (Q id) = mix (id :: ids) P Q := by
  funext j
  by_cases hj : j = id
  · subst hj
    simp [mix]
  · simp [mix, hj]

theorem mix_of_notMem {ids : List Nat} (P Q : Nat → NodePred) (h : id ∉ ids) :
    mix ids P Q id = P id := if_neg h

theorem mix_self {ids : List Nat} {P Q : Nat → NodePred} (h : id ∈ ids) :
    mix ids P Q id = Q id := if_pos h

/-- A participant of the list, or another one. -/
theorem mix_elim {ids : List Nat} {P Q : Nat → NodePred} {h : List Exch} {e : Entry} {n : Node}
    {R : Prop} (hm : mix ids P Q id h e n) (hQ : id ∈ ids → Q id h e n → R)
    (hP : id ∉ ids → P id h e n → R) : R := by
  by_cases hid : id ∈ ids
  · rw [mix_self hid] at hm
    exact hQ hid hm
  · rw [mix_of_notMem _ _ hid] at hm
    exact hP hid hm

/-- The participants that a loop has ahead of it, after one of them is done. -/
theorem ahead_cons {n : Nat} {ids done : List Nat} (hid : id ∉ ids)
    (hids : ∀ j ∈ id :: ids, j ∈ pids n ∧ j ∉ done) : ∀ j ∈ ids, j ∈ pids n ∧ j ∉ id :: done := by
  intro j hj
  obtain ⟨hin, hnot⟩ := hids j (List.mem_cons_of_mem _ hj)
  refine ⟨hin, ?_⟩
  rw [List.mem_cons, not_or]
  exact ⟨fun heq => hid (heq ▸ hj), hnot⟩

/-- A loop over participants that replaces the predicate of each. -/
theorem spec_forEach {P Q : Nat → NodePred} (body : List Nat → Proc Unit) (first : Nat → Proc Unit)
    (hnil : body [] = pure ())
    (hcons : ∀ id ids, body (id :: ids) = first id >>= fun _ => body ids)
    (hfirst : ∀ id done, id ∈ pids S.pnum → id ∉ done →
      Spec S (Assert S running G (mix done P Q)) (first id)
        fun _ => Assert S running G (mix (id :: done) P Q)) :
    Spec S (Assert S running G P) (body (pids S.pnum))
      fun _ => Assert S running G (mix (pids S.pnum) P Q) := by
  have hloop : ∀ ids done : List Nat, ids.Nodup → (∀ id ∈ ids, id ∈ pids S.pnum ∧ id ∉ done) →
      Spec S (Assert S running G (mix done P Q)) (body ids)
        fun _ => Assert S running G (mix (ids.reverse ++ done) P Q) := by
    intro ids
    induction ids with
    | nil =>
        intro done _ _
        rw [hnil]
        exact Prog.Triple.ret fun s hs => hs
    | cons id ids ih =>
        intro done hnd hids
        rw [hcons]
        obtain ⟨hid, hdone⟩ := hids id (by simp)
        rw [List.nodup_cons] at hnd
        refine Prog.Triple.bind (hfirst id done hid hdone) fun _ => ?_
        have hrest := ih (id :: done) hnd.2 (ahead_cons hnd.1 hids)
        simpa using hrest
  have hall := hloop (pids S.pnum) [] (nodup_pids _) fun id hid => ⟨hid, by simp⟩
  have hmix : mix ((pids S.pnum).reverse ++ []) P Q = mix (pids S.pnum) P Q := by
    funext j
    simp [mix]
  have hmix₀ : mix [] P Q = P := by
    funext j
    simp [mix]
  rwa [hmix, hmix₀] at hall

/-- Handing one task to all `pWorking` threads. -/
theorem spec_postTasks {P Q : Nat → NodePred} (hP : ∀ j, NodeStable S running j (P j))
    (hQ : ∀ j, NodeStable S running j (Q j)) {task : Bytes}
    (spec : ∀ id ∈ pids S.pnum, WorkSpec S G id task (P id) (Q id)) :
    Spec S (Assert S running G P) (postTasks .working task (pids S.pnum))
      fun _ => Assert S running G (mix (pids S.pnum) P Q) := by
  refine spec_forEach (postTasks .working task) (fun id => postTask .working id task) rfl
    (fun _ _ => rfl) ?_
  intro id done hid hdone
  rw [← update_mix]
  refine spec_postTask (stable_mix hP hQ done) hid ?_
  rw [mix_of_notMem P Q hdone]
  exact spec id hid

/-- Handing one record to all `pRecovery` threads. -/
theorem spec_postRecoveries {P Q : Nat → NodePred} (hP : ∀ j, NodeStable S true j (P j))
    (hQ : ∀ j, NodeStable S true j (Q j)) {l : Log}
    (spec : ∀ id ∈ pids S.pnum, RecoverySpec S G id l (P id) (Q id)) :
    Spec S (Assert S true G P) (postTasks .recovery l.logToStr (pids S.pnum))
      fun _ => Assert S true G (mix (pids S.pnum) P Q) := by
  refine spec_forEach (postTasks .recovery l.logToStr)
    (fun id => postTask .recovery id l.logToStr) rfl (fun _ _ => rfl) ?_
  intro id done hid hdone
  rw [← update_mix]
  refine spec_postRecovery (stable_mix hP hQ done) hid ?_
  rw [mix_of_notMem P Q hdone]
  exact spec id hid

end Tasks

end CloudLabs.KvStore
