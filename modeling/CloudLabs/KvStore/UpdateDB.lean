import CloudLabs.KvStore.Rounds

/-!
# The calls of the working thread

`Synced`: every participant in the working state that has kept its memory since it connected has the
coordinator's transaction number. `spec_UpdateDB` and `spec_Request` show that both calls keep this,
and say what their results mean.

A successful update raises the coordinator's number by one, and its reply is what a participant with
the old number answered to the commit. After an error the number is the old one, and either no
participant's memory has changed or some commit was read by a participant and its reply was not read
(`Exch.Silent`).
-/

set_option autoImplicit false

namespace CloudLabs.KvStore

open CloudLabs.Foundation

/-- The participant has the number `T` if it is in the working state, which it is if it is one of
`U`. -/
structure Synced (U : Nat → Prop) (T id : Nat) (h : List Exch) (e : Entry) (n : Node) : Prop where
  state : e.pstate ≠ .P_RECOVERY
  txid : e.pstate = .P_WORKING → n.kept = true → n.part.TXID = T
  steady : U id → e.pstate = .P_WORKING

/-- A task that was answered with `rc` by a participant that had the number `T`. -/
structure Exch.IsReply (R : Nat → Bytes → Prop) (T : Nat) (task rc : Bytes) (y : Exch) : Prop where
  ch : y.ch = .working
  task : y.task = task
  ret : y.out.ret = KV_OK
  rmsg : y.out.rmsg = rc
  within : y.before.Within R
  txid : y.before.TXID = T

/-- A commit that a participant has read and whose reply was not read. -/
structure Exch.Silent (T : Nat) (resp : Bytes) (y : Exch) : Prop where
  task : y.task = commitReq T resp
  delivered : y.out.delivered = true
  ret : y.out.ret ≠ KV_OK

/-- An event that participants accept was committed at some of them, and no reply to a commit was
read. -/
structure Lost (T : Nat) (resp : Bytes) (h : List Exch) : Prop where
  accepted : Accepted resp
  silent : ∃ y ∈ h, y.Silent T resp
  unheard : ∀ z ∈ h, z.task = commitReq T resp → z.out.ret ≠ KV_OK

section Predicates

variable {S : Setting} {T id : Nat}

/-- A participant with a task it has not carried out is not in the working state. -/
theorem NodeOk.not_pending_working {e : Entry} {n : Node} {task : Bytes} (h : NodeOk S id e n)
    (hst : e.pstate = .P_WORKING) (hp : n.pending = some task) : False := by
  have := h.pending_none (by rw [hst]; nofun)
  rw [this] at hp
  exact nomatch hp

/-- While a participant is in the working state, a fact about the number of a participant that has
kept its memory stays true. -/
theorem txid_step {X : Participant → Prop} {e : Entry} {n n' : Node} (hok : NodeOk S id e n)
    (h : e.pstate = .P_WORKING → n.kept = true → X n.part) (hs : NodeStep S.faults id n n') :
    e.pstate = .P_WORKING → n'.kept = true → X n'.part := by
  intro hst hk
  cases hs with
  | drop _ => exact h hst hk
  | restart _ => exact nomatch hk
  | finish hp _ => exact (hok.not_pending_working hst hp).elim

theorem synced_stable (S : Setting) (T id : Nat) : NodeStable S false id (Synced S.steady T id) where
  step hok h hs := ⟨h.state, txid_step (X := fun p => p.TXID = T) hok h.txid hs, h.steady⟩
  connect _ _ h hst _ := ⟨nofun, nofun, fun hu => absurd ((h.steady hu).symm.trans hst) nofun⟩
  clear _ h := ⟨h.state, h.txid, h.steady⟩
  sent _ h := ⟨h.state, h.txid, h.steady⟩

/-- Nothing was sent to the participant during this call. -/
structure Unasked (U : Nat → Prop) (T id : Nat) (h : List Exch) (e : Entry) (n : Node) : Prop where
  synced : Synced U T id h e n
  none : ∀ z ∈ h, z.id ≠ id

theorem unasked_stable (S : Setting) (T id : Nat) :
    NodeStable S false id (Unasked S.steady T id) where
  step hok h hs := ⟨(synced_stable S T id).step hok h.synced hs, h.none⟩
  connect hr hok h hst hp := ⟨(synced_stable S T id).connect hr hok h.synced hst hp, h.none⟩
  clear hr h := ⟨(synced_stable S T id).clear hr h.synced, h.none⟩
  sent hy h := ⟨(synced_stable S T id).sent hy h.synced, fun z hz => by
    rcases List.mem_append.1 hz with hz | hz
    · exact h.none z hz
    · rwa [List.mem_singleton.1 hz]⟩

/-- The only request sent to a participant that was not asked before. -/
theorem forall_concat {h : List Exch} {y : Exch} {X : Exch → Prop} (hnone : ∀ z ∈ h, z.id ≠ id)
    (hX : X y) : ∀ z ∈ h ++ [y], z.id = id → X z := by
  intro z hz hid
  rcases List.mem_append.1 hz with hz | hz
  · exact absurd hid (hnone z hz)
  · rwa [List.mem_singleton.1 hz]

/-- The memories a participant may restart with respect the relation. -/
def Faults.Within (F : Faults) (R : Nat → Bytes → Prop) : Prop :=
  ∀ id q, F.fresh id q → q.Within R

theorem Clean.step {F : Faults} {R : Nat → Bytes → Prop} (hR : F.Within R) {n n' : Node}
    (h : Clean R n) (hs : NodeStep F id n n') : Clean R n' := by
  cases hs with
  | drop _ => exact ⟨h.within, h.pending⟩
  | restart hq => exact ⟨hR id _ hq, nofun⟩
  | finish hp hr => exact ⟨(h.pending _ hp).2 _ hr, nofun⟩

/-- A failed request leaves the memory within the relation if the task does. -/
theorem Clean.failed {n : Node} {task : Bytes} {o : Outcome} (h : Clean S.rel n)
    (hk : Keeps S.rel n.part task) (hp : n.pending = none) (hf : Failed task n o) :
    Clean S.rel o.node.close := by
  rcases hf.side with ⟨-, hn⟩ | ⟨-, ⟨r, hr, hn⟩ | hn⟩
  · rw [hn]
    exact ⟨h.within, h.pending⟩
  · rw [hn]
    exact ⟨hk.2 r hr, fun task' ht => absurd (hp.symm.trans ht) nofun⟩
  · rw [hn]
    refine ⟨h.within, fun task' ht => ?_⟩
    obtain rfl : task = task' := Option.some.inj ht
    exact hk

/-- A failed request that was not read leaves the memory as it was. -/
theorem Clean.unread {n : Node} {task : Bytes} {o : Outcome} (h : Clean S.rel n)
    (hf : Failed task n o) (hd : o.delivered = false) : Clean S.rel o.node.close := by
  rcases hf.side with ⟨-, hn⟩ | ⟨hd', -⟩
  · rw [hn]
    exact ⟨h.within, h.pending⟩
  · rw [hd] at hd'
    exact nomatch hd'

end Predicates

/-! ## The vote -/

theorem pWorker_voteReq (p : Participant) {T : Nat} (hT : TXID_START ≤ T) :
    p.pWorker (voteReq T) =
      some (if min longMax T = p.TXID then ascii "PRE" else getErrorMessage, p) :=
  pWorker_pre p hT rfl

theorem voteReq_ne_commitReq {T T' : Nat} {e : Bytes} : voteReq T ≠ commitReq T' e := by
  intro h
  have hstate : LogState.LOG_PRE = LogState.LOG_COMMIT :=
    congrArg Log.state (logToStr_injective h)
  exact absurd hstate (by decide)

theorem min_longMax {T : Nat} (h : T < 2 ^ 63) : min longMax T = T := by
  simp only [longMax]
  omega

/-- After its vote: a participant in the working state has answered `PRE`. -/
structure Voted (U : Nat → Prop) (T id : Nat) (h : List Exch) (e : Entry) (n : Node) : Prop where
  synced : Synced U T id h e n
  vote : T < 2 ^ 63 → e.pstate = .P_WORKING →
    ((e.buf .working).ret = KV_OK ∧ (e.buf .working).dataRet = ascii "PRE") ∧
      ∃ z ∈ h, z.id = id ∧ z.IsVote T
  small : (e.buf .working).ret = KV_OK → (e.buf .working).dataRet = ascii "PRE" → T < 2 ^ 63
  asked : ∀ z ∈ h, z.id = id → z.task = voteReq T

theorem voted_stable (S : Setting) (T id : Nat) : NodeStable S false id (Voted S.steady T id) where
  step hok h hs := ⟨(synced_stable S T id).step hok h.synced hs, h.vote, h.small, h.asked⟩
  connect hr hok h hst hp :=
    ⟨(synced_stable S T id).connect hr hok h.synced hst hp, nofun, h.small, h.asked⟩
  clear hr h := ⟨(synced_stable S T id).clear hr h.synced, h.vote, h.small, h.asked⟩
  sent hy h := by
    refine ⟨(synced_stable S T id).sent hy h.synced, fun hT hst => ?_, h.small, fun z hz hid => ?_⟩
    · obtain ⟨hbuf, z, hz, hid⟩ := h.vote hT hst
      exact ⟨hbuf, z, by simp [hz], hid⟩
    · rcases List.mem_append.1 hz with hz | hz
      · exact h.asked z hz hid
      · exact absurd hid (List.mem_singleton.1 hz ▸ hy)

section Vote

variable {S : Setting} {T id : Nat} {G : GlobalPred}

/-- The counter and the log during the vote and the commit. -/
def Preparing (T : Nat) (resp : Bytes) : GlobalPred :=
  fun t lg _ => t = T ∧ lg T = some ⟨T, LogState.LOG_PRE, resp⟩

/-- One vote request. -/
theorem vote_spec (hT : TXID_START ≤ T) (resp : Bytes) :
    WorkSpec S (Preparing T resp) id (voteReq T)
      (Unasked S.steady T id) (Voted S.steady T id) where
  keeps hat _ := hat.ok.within.keeps_request (.update _ hT) (Or.inr (by simp; decide))
  answers hat _ _ := by rw [pWorker_voteReq _ hT]; exact Option.some_ne_none _
  voted _ _ T' e' _ heq := absurd heq voteReq_ne_commitReq
  skip := by
    intro T₀ lg h e n hat hst
    obtain ⟨hsync, hnone⟩ := hat.pred
    refine ⟨⟨hsync.state, hsync.txid, hsync.steady⟩, fun _ hst' => absurd hst' hst, ?_,
      fun z hz hid => absurd hid (hnone z hz)⟩
    intro hret
    rw [Entry.setRet_ret] at hret
    exact absurd hret (by decide)
  answered := by
    intro T₀ lg h e n rmsg part hat hst ha hw
    refine ⟨hat.global, ?_⟩
    rw [pWorker_voteReq _ hT, Option.some.injEq, Prod.mk.injEq] at hw
    obtain ⟨hrmsg, rfl⟩ := hw
    obtain ⟨hsync, hnone⟩ := hat.pred
    have htx := hsync.txid hst (hat.ok.alive ha).1
    rw [htx] at hrmsg
    refine ⟨⟨hsync.state, fun _ _ => htx, hsync.steady⟩, ?_, ?_, forall_concat hnone rfl⟩
    · -- the number fits a `long`, and the vote is `PRE`
      intro hlt _
      have hpre : rmsg = ascii "PRE" := by rw [← hrmsg, if_pos (min_longMax hlt)]
      refine ⟨by simpa using hpre, _, List.mem_append_right _ (List.mem_singleton_self _), rfl, rfl,
        rfl, rfl, hpre⟩
    · -- it does not, and the participant answers with an error
      intro _ hdata
      rw [Entry.setReply_dataRet, ← hrmsg] at hdata
      by_contra hlt
      have hne : min longMax T ≠ T := by simp only [longMax]; omega
      rw [if_neg hne] at hdata
      exact pre_ne_error hdata.symm
  failed := by
    intro T₀ lg h e n o hat hst hf hu
    refine ⟨hat.global, ⟨(fun h => by cases h), (fun h => by cases h), fun hu' => absurd hu' hu⟩,
        fun _ h => (by cases h), ?_,
      forall_concat hat.pred.none rfl⟩
    intro hret
    rw [Entry.setState_buf, Entry.setReply_ret] at hret
    exact absurd hret hf.ret

end Vote

/-! ## The commit -/

/-- A commit with the participant's number: its event is applied if it is accepted, and refused if
it is not. -/
theorem pWorker_commitReq {p part : Participant} {T : Nat} {e rmsg : Bytes} (hT : TXID_START ≤ T)
    (hlt : T < 2 ^ 63) (htx : p.TXID = T)
    (h : p.pWorker (commitReq T e) = some (rmsg, part)) :
    (Accepted e ∧ rmsg ≠ getErrorMessage ∧ part = p.push e) ∨
      (¬ Accepted e ∧ rmsg = getErrorMessage ∧ part = p) := by
  have hID : (Log.received ⟨T, LogState.LOG_COMMIT, e⟩).ID = p.TXID := by
    rw [htx]
    exact min_longMax hlt
  rw [commitReq, pWorker_commit p hT hID rfl] at h
  obtain ⟨⟨rc, kv⟩, hr, heq⟩ := Option.map_eq_some_iff.1 h
  by_cases hrc : rc = getErrorMessage
  · right
    simp only [hrc, ne_eq, not_true_eq_false, if_false, Prod.mk.injEq] at heq
    exact ⟨fun hacc => (accepted_iff hr).1 hacc hrc, heq.1.symm, heq.2.symm⟩
  · left
    simp only [ne_eq, hrc, not_false_eq_true, if_true, Prod.mk.injEq] at heq
    refine ⟨(accepted_iff hr).2 hrc, heq.1 ▸ hrc, ?_⟩
    have hrec : Log.received ⟨T, LogState.LOG_COMMIT, e⟩ = ⟨p.TXID, LogState.LOG_COMMIT, e⟩ := by
      rw [← hID]
      rfl
    rw [← heq.2, Participant.push, applyEvent_of_eventParser hr, hrec]

/-- Before its commit: the participant has voted, and its memory respects the relation. -/
structure Ready (U : Nat → Prop) (R : Nat → Bytes → Prop) (T id : Nat) (h : List Exch) (e : Entry)
    (n : Node) : Prop where
  voted : Voted U T id h e n
  clean : Clean R n

/-- After its commit: a participant in the working state has applied the event if it is accepted;
`clean` says where a new event may have come into its memory. -/
structure Decided (U : Nat → Prop) (R : Nat → Bytes → Prop) (T : Nat) (resp : Bytes) (id : Nat)
    (h : List Exch) (e : Entry) (n : Node) : Prop where
  state : e.pstate ≠ .P_RECOVERY
  steady : U id → e.pstate = .P_WORKING
  accepted : Accepted resp → e.pstate = .P_WORKING →
    (e.buf .working).ret = KV_OK ∧ (e.buf .working).dataRet ≠ getErrorMessage
  next : Accepted resp → e.pstate = .P_WORKING → n.kept = true → n.part.TXID = T + 1
  refused : ¬ Accepted resp → e.pstate = .P_WORKING → n.kept = true → n.part.TXID = T
  reply : (e.buf .working).ret = KV_OK → (e.buf .working).dataRet ≠ getErrorMessage →
    Accepted resp ∧ ∃ y ∈ h, y.IsReply R T (commitReq T resp) (e.buf .working).dataRet
  told : Accepted resp → ∀ z ∈ h, z.id = id → z.task = commitReq T resp → z.out.ret = KV_OK →
    (e.buf .working).ret = KV_OK ∧ (e.buf .working).dataRet ≠ getErrorMessage
  clean : Clean R n ∨
    ((e.buf .working).ret = KV_OK ∧ (e.buf .working).dataRet ≠ getErrorMessage) ∨
    (Accepted resp ∧ ∃ y ∈ h, y.Silent T resp)

section Commit

variable {S : Setting} {T id : Nat}

theorem ready_stable (S : Setting) {R : Nat → Bytes → Prop} (hR : S.faults.Within R) (T id : Nat) :
    NodeStable S false id (Ready S.steady R T id) where
  step hok h hs := ⟨(voted_stable S T id).step hok h.voted hs, h.clean.step hR hs⟩
  connect hr hok h hst hp := ⟨(voted_stable S T id).connect hr hok h.voted hst hp,
    ⟨h.clean.within, h.clean.pending⟩⟩
  clear hr h := ⟨(voted_stable S T id).clear hr h.voted, h.clean⟩
  sent hy h := ⟨(voted_stable S T id).sent hy h.voted, h.clean⟩

theorem decided_stable (S : Setting) {R : Nat → Bytes → Prop} (hR : S.faults.Within R) (T : Nat)
    (resp : Bytes) (id : Nat) : NodeStable S false id (Decided S.steady R T resp id) where
  step hok h hs := ⟨h.state, h.steady, h.accepted,
    fun hacc => txid_step (X := fun p => p.TXID = T + 1) hok (h.next hacc) hs,
    fun hacc => txid_step (X := fun p => p.TXID = T) hok (h.refused hacc) hs, h.reply, h.told,
    h.clean.imp_left fun hc => hc.step hR hs⟩
  connect _ _ h hst _ := ⟨nofun, fun hu => absurd ((h.steady hu).symm.trans hst) nofun,
    fun _ => nofun, fun _ => nofun, fun _ => nofun, h.reply, h.told,
    h.clean.imp_left fun hc => ⟨hc.within, hc.pending⟩⟩
  clear _ h := ⟨h.state, h.steady, h.accepted, h.next, h.refused, h.reply, h.told, h.clean⟩
  sent hy h := by
    refine ⟨h.state, h.steady, h.accepted, h.next, h.refused, fun hret hdata => ?_,
      fun hacc z hz hid => ?_, ?_⟩
    · obtain ⟨hacc, y, hy, hc⟩ := h.reply hret hdata
      exact ⟨hacc, y, by simp [hy], hc⟩
    · rcases List.mem_append.1 hz with hz | hz
      · exact h.told hacc z hz hid
      · exact absurd hid (List.mem_singleton.1 hz ▸ hy)
    · rcases h.clean with hc | hc | ⟨hacc, y, hy, hsil⟩
      · exact Or.inl hc
      · exact Or.inr (Or.inl hc)
      · exact Or.inr (Or.inr ⟨hacc, y, by simp [hy], hsil⟩)

/-- A commit that was answered is the last request, if the participant was only asked for its vote
before. -/
theorem Voted.told {U : Nat → Prop} {h : List Exch} {e : Entry} {n : Node} {resp : Bytes}
    (hv : Voted U T id h e n) {y : Exch} {C : Prop} (hy : y.out.ret = KV_OK → C) :
    ∀ z ∈ h ++ [y], z.id = id → z.task = commitReq T resp → z.out.ret = KV_OK → C := by
  intro z hz hid htask hret
  rcases List.mem_append.1 hz with hz | hz
  · exact absurd ((hv.asked z hz hid).symm.trans htask) voteReq_ne_commitReq
  · rw [List.mem_singleton.1 hz] at hret
    exact hy hret

/-- One commit. -/
theorem commit_spec (hT : TXID_START ≤ T) (hlt : T < 2 ^ 63) {resp : Bytes} (hb : S.bound T resp)
    (hfit : S.steady id → comds resp ≠ none) :
    WorkSpec (S.extend hb) (Preparing T resp) id (commitReq T resp)
      (Ready S.steady S.rel T id) (Decided S.steady S.rel T resp id) where
  keeps hat _ := hat.ok.within.keeps_commit hT fun _ hID =>
    Or.inr ⟨hID.symm.trans (min_longMax hlt), rfl⟩
  answers := by
    intro T₀ lg h e n hat hst hu
    have htx := hat.pred.voted.synced.txid hst (hat.ok.alive (hat.ok.steady hu)).1
    have hID : (Log.received ⟨T, LogState.LOG_COMMIT, resp⟩).ID = n.part.TXID := by
      rw [htx]
      exact min_longMax hlt
    rw [commitReq, pWorker_commit n.part hT hID rfl]
    simpa [eventParser] using hfit hu
  voted := by
    intro T₀ lg h e n hat hst T' e' hT' heq
    obtain ⟨rfl, -, rfl⟩ := Log.mk.inj (logToStr_injective heq)
    exact (hat.pred.voted.vote hlt hst).2
  skip := by
    intro T₀ lg h e n hat hst
    have hret : ((((e.setTask .working (commitReq T resp)).setRet .working RET_SKIP).buf
        .working).ret = KV_OK) → False := by
      rw [Entry.setRet_ret]
      decide
    exact ⟨hat.pred.voted.synced.state, hat.pred.voted.synced.steady,
      fun _ hst' => absurd hst' hst, fun _ hst' => absurd hst' hst, fun _ hst' => absurd hst' hst,
      fun h => (hret h).elim, fun _ z hz hid htask =>
        absurd ((hat.pred.voted.asked z hz hid).symm.trans htask) voteReq_ne_commitReq,
      Or.inl hat.pred.clean⟩
  answered := by
    intro T₀ lg h e n rmsg part hat hst ha hw
    refine ⟨hat.global, ?_⟩
    have htx := hat.pred.voted.synced.txid hst (hat.ok.alive ha).1
    have hp := hat.ok.pending_none (by rw [hst]; decide)
    rcases pWorker_commitReq hT hlt htx hw with ⟨hacc, hne, rfl⟩ | ⟨hacc, rfl, rfl⟩
    · -- applied
      refine ⟨hat.pred.voted.synced.state, hat.pred.voted.synced.steady, fun _ _ => by simpa using hne,
        fun _ _ _ => by rw [← htx]; rfl, fun h => absurd hacc h, fun _ _ => ⟨hacc, _,
          List.mem_append_right _ (List.mem_singleton_self _), ?_⟩,
        fun _ => hat.pred.voted.told fun _ => by simpa using hne, Or.inr (Or.inl (by simpa using hne))⟩
      exact ⟨rfl, rfl, rfl, by simp [Exch.of, Outcome.answered], hat.pred.clean.within, htx⟩
    · -- refused, and the memory is as before
      refine ⟨hat.pred.voted.synced.state, hat.pred.voted.synced.steady, fun h => absurd h hacc,
        fun h => absurd h hacc, fun _ _ _ => htx, fun _ hne => absurd (by simp) hne,
        fun h => absurd h hacc,
        Or.inl ⟨hat.pred.clean.within, fun task ht => absurd (hp.symm.trans ht) (fun h => by cases h)⟩⟩
  failed := by
    intro T₀ lg h e n o hat hst hf hu
    have hp := hat.ok.pending_none (by rw [hst]; decide)
    refine ⟨hat.global, (fun h => by cases h), fun hu' => absurd hu' hu, fun _ h => (by cases h),
        fun _ h => (by cases h),
      fun _ h => (by cases h), fun hret => absurd ?_ hf.ret,
      fun _ => hat.pred.voted.told fun hret => absurd hret hf.ret, ?_⟩
    · simpa using hret
    -- a commit that was read may have been applied although its reply is lost
    by_cases hacc : Accepted resp
    · cases hd : o.delivered with
      | false => exact Or.inl (hat.pred.clean.unread hf hd)
      | true => exact Or.inr (Or.inr ⟨hacc, _, List.mem_append_right _ (List.mem_singleton_self _),
          rfl, hd, hf.ret⟩)
    · exact Or.inl (hat.pred.clean.failed
        (hat.pred.clean.within.keeps_commit hT fun h => absurd h hacc) hp hf)

end Commit

/-! ## Reading the votes and the commits -/

section Collect

variable {S : Setting} {running : Bool} {G : GlobalPred} {P : Nat → NodePred} {σ : Nat → Buffers}

theorem reply_eq_some {b : Buffers} {cond : Bytes → Bool} {rc : Bytes} :
    b.reply cond = some rc ↔ b.ret = KV_OK ∧ cond b.dataRet = true ∧ rc = b.dataRet := by
  unfold Buffers.reply
  split
  · rename_i h
    simp only [Option.some.injEq, h, true_and]
    exact eq_comm
  · rename_i h
    simp only [reduceCtorEq, false_iff]
    exact fun h' => h ⟨h'.1, h'.2.1⟩

/-- The vote is carried by one `PRE`. -/
theorem spec_collectVotes (hP : ∀ id, NodeStable S running id (P id))
    (hbuf : ∀ id h e n, P id h e n → e.buf .working = σ id) (ids : List Nat) :
    ∀ vote : Bool, Spec S (Assert S running G P) (collectVotes ids vote) fun r s =>
      Assert S running G P s ∧
        (r = true ↔ vote = true ∨ ∃ id ∈ ids, ((σ id).reply (· == ascii "PRE")).isSome) := by
  induction ids with
  | nil =>
      intro vote
      exact Prog.Triple.ret fun s hs => ⟨hs, by simp⟩
  | cons id ids ih =>
      intro vote
      refine Prog.Triple.bind (spec_takeReply hP id (hbuf id) (· == ascii "PRE")) fun rc => ?_
      refine Prog.Triple.of_imp (C := rc = (σ id).reply (· == ascii "PRE")) (fun s hs => hs.2) ?_
      rintro rfl
      refine Prog.Triple.conseq (ih _) (fun s hs => hs.1) ?_
      rintro r s ⟨hs, hr⟩
      refine ⟨hs, hr.trans ?_⟩
      by_cases hrep : ((σ id).reply (· == ascii "PRE")).isSome
      · simp [hrep]
      · simp [hrep]

/-- The commit is carried by one reply that is no error message; the result is one of these. -/
theorem spec_collectCommits (hP : ∀ id, NodeStable S running id (P id))
    (hbuf : ∀ id h e n, P id h e n → e.buf .working = σ id) (ids : List Nat) :
    ∀ (commit : Bool) (rc : Bytes),
      Spec S (Assert S running G P) (collectCommits ids commit rc) fun r s =>
        Assert S running G P s ∧
          (r.1 = true → (∃ id ∈ ids, (σ id).reply (· != getErrorMessage) = some r.2) ∨
            (commit = true ∧ r.2 = rc)) ∧
          (r.1 = false → commit = false ∧ ∀ id ∈ ids, (σ id).reply (· != getErrorMessage) = none) := by
  induction ids with
  | nil =>
      intro commit rc
      exact Prog.Triple.ret fun s hs => ⟨hs, fun h => Or.inr ⟨h, rfl⟩, fun h => ⟨h, by simp⟩⟩
  | cons id ids ih =>
      intro commit rc
      refine Prog.Triple.bind (spec_takeReply hP id (hbuf id) (· != getErrorMessage)) fun reply => ?_
      refine Prog.Triple.of_imp (C := reply = (σ id).reply (· != getErrorMessage))
        (fun s hs => hs.2) fun hreply => ?_
      cases reply with
      | some rc' =>
          refine Prog.Triple.conseq (ih true rc') (fun s hs => hs.1) ?_
          rintro r s ⟨hs, htrue, hfalse⟩
          refine ⟨hs, fun hr => Or.inl ?_, fun hr => absurd (hfalse hr).1 nofun⟩
          rcases htrue hr with ⟨j, hj, hrep⟩ | ⟨-, hrc⟩
          · exact ⟨j, by simp [hj], hrep⟩
          · exact ⟨id, by simp, by rw [← hreply, hrc]⟩
      | none =>
          refine Prog.Triple.conseq (ih commit rc) (fun s hs => hs.1) ?_
          rintro r s ⟨hs, htrue, hfalse⟩
          refine ⟨hs, fun hr => (htrue hr).imp_left fun ⟨j, hj, hrep⟩ => ⟨j, by simp [hj], hrep⟩,
            fun hr => ⟨(hfalse hr).1, fun j hj => ?_⟩⟩
          rcases List.mem_cons.1 hj with rfl | hj
          · exact hreply.symm
          · exact (hfalse hr).2 j hj

end Collect

/-! ## The update -/

/-- The state after an update. -/
def Updated (S : Setting) {T : Nat} {resp : Bytes} (hb : S.bound T resp) (rc : Bytes) (s : Sys) :
    Prop :=
  (rc ≠ getErrorMessage ∧
    Assert (S.extend hb) false
      (fun t _ h => t = T + 1 ∧ Accepted resp ∧ ∃ y ∈ h, y.IsReply S.rel T (commitReq T resp) rc)
      (Synced S.steady (T + 1)) s) ∨
  (rc = getErrorMessage ∧
    Assert (S.extend hb) false (fun t _ _ => t = T) (Synced S.steady T) s ∧
    ((∀ id, Clean S.rel (s.node id)) ∨ Lost T resp s.hist) ∧
    (Accepted resp → T < 2 ^ 63 → ∀ id ∈ pids S.pnum, (s.c.p id).pstate ≠ .P_WORKING))

section Update

variable {S : Setting} {T : Nat} {resp : Bytes}

theorem Assert.extend {running : Bool} {G : GlobalPred} {P : Nat → NodePred} {s : Sys}
    (h : Assert S running G P s) (hb : S.bound T resp) : Assert (S.extend hb) running G P s := by
  refine h.relax ?_ ?_ ?_
  · rfl
  · exact fun _ _ => Or.inl
  · exact fun _ hu => ⟨hu, rfl⟩

/-- The record written before the vote. -/
theorem spec_writePre {P : Nat → NodePred} (hP : ∀ id, NodeStable S false id (P id)) :
    Spec S (Assert S false (fun t _ _ => t = T) P)
      (updateMem fun c => { c with lg := c.lg.writeLog ⟨c.TXID, LogState.LOG_PRE, resp⟩ })
      fun _ => Assert S false (Preparing T resp) P := by
  refine spec_updateMem hP fun s hs => ?_
  obtain rfl : s.c.TXID = T := hs.global
  refine hs.withLog le_rfl hs.core.committed.txid_le ?_ ?_ ⟨rfl, ?_⟩
  · exact fun t _ ht => Logger.writeLog_of_ne _ _ (Nat.ne_of_lt ht)
  · exact fun t h₁ h₂ => absurd h₂ (Nat.not_lt.2 h₁)
  · exact Logger.writeLog_self _ ⟨s.c.TXID, LogState.LOG_PRE, resp⟩

/-- The record is committed and counted; `H` is what is known of the requests. -/
theorem spec_writeCommit (hlt : T < 2 ^ 63) (hacc : Accepted resp) {P : Nat → NodePred}
    (hP : ∀ id, NodeStable S false id (P id)) (hrel : S.rel T resp) (H : List Exch → Prop)
    (rc : Bytes) :
    Spec S (Assert S false (fun t lg h => Preparing T resp t lg h ∧ H h) P)
      (readMem >>= fun c => Prog.ofOption (c.lg.chageLogState c.TXID LogState.LOG_COMMIT) >>=
        fun lg => (updateMem fun c => { c with lg := lg, TXID := c.TXID + 1 }) >>= fun _ => pure rc)
      fun r s => r = rc ∧ Assert S false (fun t _ h => t = T + 1 ∧ H h) P s := by
  have hlog (c : Coordinator) (h : Preparing T resp c.TXID c.lg []) :
      c.lg.chageLogState c.TXID LogState.LOG_COMMIT =
        some (c.lg.writeLog ⟨T, LogState.LOG_COMMIT, resp⟩) := by
    obtain ⟨rfl, hlg⟩ := h
    simp only [Logger.chageLogState, hlg, Log.changeState]
    rfl
  refine Prog.Triple.bind (spec_readMem hP) fun c => ?_
  refine Prog.Triple.of_imp (C := Preparing T resp c.TXID c.lg []) ?_ fun hc => ?_
  · rintro s ⟨hs, rfl⟩
    exact hs.global.1
  rw [hlog c hc, Prog.ofOption_some, Prog.ret_bind]
  refine Prog.Triple.conseq (P := Assert S false
    (fun t lg h => t = T ∧ lg = c.lg ∧ H h) P) ?_ ?_ fun _ _ h => h
  · refine Prog.Triple.bind (spec_updateMem hP fun s hs => ?_) fun _ =>
      Prog.Triple.ret fun s hs => ⟨rfl, hs⟩
    obtain ⟨rfl, hlg, hH⟩ := hs.global
    refine hs.withLog (Nat.le_succ _) hlt ?_ ?_ ⟨rfl, hH⟩
    · intro t _ ht
      rw [← hlg]
      exact Logger.writeLog_of_ne _ _ (Nat.ne_of_lt ht)
    · intro t h₁ h₂
      obtain rfl : t = s.c.TXID := by omega
      exact ⟨resp, Logger.writeLog_self _ ⟨s.c.TXID, LogState.LOG_COMMIT, resp⟩, hacc, hrel⟩
  · rintro s ⟨hs, rfl⟩
    exact hs.imp (fun hG => ⟨hG.1.1, rfl, hG.2⟩) fun _ _ h => h

/-- The participants that no loop reaches. -/
def Aside (U : Nat → Prop) (R : Nat → Bytes → Prop) (T id : Nat) : NodePred :=
  fun h e n => Unasked U T id h e n ∧ Clean R n

theorem aside_stable (S : Setting) {R : Nat → Bytes → Prop} (hR : S.faults.Within R) (T id : Nat) :
    NodeStable S false id (Aside S.steady R T id) where
  step hok h hs := ⟨(unasked_stable S T id).step hok h.1 hs, h.2.step hR hs⟩
  connect hr hok h hst hp := ⟨(unasked_stable S T id).connect hr hok h.1 hst hp,
    ⟨h.2.within, h.2.pending⟩⟩
  clear hr h := ⟨(unasked_stable S T id).clear hr h.1, h.2⟩
  sent hy h := ⟨(unasked_stable S T id).sent hy h.1, h.2⟩

theorem mix_mix (ids : List Nat) (P Q Q' : Nat → NodePred) :
    mix ids (mix ids P Q) Q' = mix ids P Q' := by
  funext id
  by_cases h : id ∈ ids
  · rw [mix_self h, mix_self h]
  · rw [mix_of_notMem _ _ h, mix_of_notMem _ _ h, mix_of_notMem _ _ h]

/-- The vote is over: every participant has voted, and no memory has changed. -/
def ReadyAll (S : Setting) {T : Nat} {resp : Bytes} (hb : S.bound T resp) : Sys → Prop :=
  Assert (S.extend hb) false (Preparing T resp)
    (mix (pids S.pnum) (Aside S.steady S.rel T) (Ready S.steady S.rel T))

/-- Every participant's worker has had the commit. -/
def DecidedAll (S : Setting) {T : Nat} {resp : Bytes} (hb : S.bound T resp) : Sys → Prop :=
  Assert (S.extend hb) false (Preparing T resp)
    (mix (pids S.pnum) (Aside S.steady S.rel T) (Decided S.steady S.rel T resp))

variable {hb : S.bound T resp}

theorem readyAll_stable (S : Setting) {T : Nat} {resp : Bytes} (hb : S.bound T resp) :
    ∀ id, NodeStable (S.extend hb) false id
      (mix (pids S.pnum) (Aside S.steady S.rel T) (Ready S.steady S.rel T) id) :=
  have hR : (S.extend hb).faults.Within S.rel := S.fresh_within
  stable_mix (aside_stable (S.extend hb) hR T) (ready_stable (S.extend hb) hR T) _

theorem decidedAll_stable (S : Setting) {T : Nat} {resp : Bytes} (hb : S.bound T resp) :
    ∀ id, NodeStable (S.extend hb) false id
      (mix (pids S.pnum) (Aside S.steady S.rel T) (Decided S.steady S.rel T resp) id) :=
  have hR : (S.extend hb).faults.Within S.rel := S.fresh_within
  stable_mix (aside_stable (S.extend hb) hR T) (decided_stable (S.extend hb) hR T resp) _

/-- All participants get the commit. -/
theorem spec_postCommits (hT : TXID_START ≤ T) (hlt : T < 2 ^ 63) (hb : S.bound T resp)
    (hfit : ∀ id, S.steady id → comds resp ≠ none) :
    Spec S (ReadyAll S hb) (postTasks .working (commitReq T resp) (pids S.pnum))
      fun _ => DecidedAll S hb := by
  have hR : (S.extend hb).faults.Within S.rel := S.fresh_within
  unfold DecidedAll
  rw [← mix_mix]
  refine spec_postTasks (S := S.extend hb) (readyAll_stable S hb)
    (decided_stable (S.extend hb) hR T resp) fun id hid => ?_
  rw [mix_self (show id ∈ pids S.pnum from hid)]
  exact commit_spec hT hlt hb fun hu => hfit id hu

/-- Where some reply counts, the update is decided. -/
theorem DecidedAll.committed {s : Sys} (hs : DecidedAll S hb s) {rc : Bytes} {id : Nat}
    (hid : id ∈ pids S.pnum)
    (hrep : ((s.c.p id).buf .working).reply (· != getErrorMessage) = some rc) :
    rc ≠ getErrorMessage ∧ Accepted resp ∧ ∃ y ∈ s.hist, y.IsReply S.rel T (commitReq T resp) rc := by
  have hd := hs.peers id
  rw [mix_self hid] at hd
  obtain ⟨hret, hne, rfl⟩ := reply_eq_some.1 hrep
  have hne' : ((s.c.p id).buf .working).dataRet ≠ getErrorMessage := by simpa using hne
  exact ⟨hne', hd.reply hret hne'⟩

/-- Participants in the working state after an accepted update. -/
theorem DecidedAll.synced_next {s : Sys} (hs : DecidedAll S hb s) (hacc : Accepted resp)
    (id : Nat) : Synced S.steady (T + 1) id s.hist (s.c.p id) (s.node id) := by
  refine mix_elim (hs.peers id) (fun _ hd => ⟨hd.state, hd.next hacc, hd.steady⟩) fun hid hd => ?_
  have hst := hs.core.outside id hid
  exact ⟨hd.1.synced.state, fun h => absurd (hst.symm.trans h) nofun, hd.1.synced.steady⟩

/-- Where no reply counts, no commit was answered. -/
theorem DecidedAll.unheard {s : Sys} (hs : DecidedAll S hb s) (hacc : Accepted resp)
    (hnone : ∀ id ∈ pids S.pnum, ((s.c.p id).buf .working).ret = KV_OK →
      ((s.c.p id).buf .working).dataRet ≠ getErrorMessage → False) :
    ∀ z ∈ s.hist, z.task = commitReq T resp → z.out.ret ≠ KV_OK := by
  intro z hz htask hret
  refine mix_elim (hs.peers z.id) (fun hid hd => ?_) fun _ hd => hd.1.none z hz rfl
  obtain ⟨h₁, h₂⟩ := hd.told hacc z hz rfl htask hret
  exact hnone z.id hid h₁ h₂

/-- Where no reply counts, the state is that before the update, but for commits that were read and
whose reply was not. -/
theorem DecidedAll.refused {s : Sys} (hs : DecidedAll S hb s)
    (hrep : ∀ id ∈ pids S.pnum,
      ((s.c.p id).buf .working).reply (· != getErrorMessage) = none) :
    Updated S hb getErrorMessage s := by
  have hnone : ∀ id ∈ pids S.pnum, ((s.c.p id).buf .working).ret = KV_OK →
      ((s.c.p id).buf .working).dataRet ≠ getErrorMessage → False := by
    intro id hid hret hne
    have hsome : ((s.c.p id).buf .working).reply (· != getErrorMessage) = some _ :=
      reply_eq_some.2 ⟨hret, by simpa using hne, rfl⟩
    rw [hrep id hid] at hsome
    exact nomatch hsome
  have hidle : Accepted resp → ∀ id ∈ pids S.pnum, (s.c.p id).pstate ≠ .P_WORKING := by
    intro hacc id hid hst
    have hd := hs.peers id
    rw [mix_self hid] at hd
    obtain ⟨hret, hne⟩ := hd.accepted hacc hst
    exact hnone id hid hret hne
  refine Or.inr ⟨rfl, ?_, ?_, fun hacc _ => hidle hacc⟩
  · refine ⟨hs.core, hs.mutex, hs.global.1, fun id => ?_⟩
    refine mix_elim (hs.peers id) (fun hid hd => ?_) fun _ hd => hd.1.synced
    refine ⟨hd.state, fun hst hk => ?_, hd.steady⟩
    by_cases hacc : Accepted resp
    · exact absurd hst (hidle hacc id hid)
    · exact hd.refused hacc hst hk
  · by_cases hsil : Accepted resp ∧ ∃ y ∈ s.hist, y.Silent T resp
    · exact Or.inr ⟨hsil.1, hsil.2, hs.unheard hsil.1 hnone⟩
    · left
      intro id
      refine mix_elim (hs.peers id) (fun hid hd => ?_) fun _ hd => hd.2
      rcases hd.clean with hc | ⟨hret, hne⟩ | hy
      · exact hc
      · exact (hnone id hid hret hne).elim
      · exact absurd hy hsil

/-- The commit round and what follows it. -/
theorem spec_commitPhase (hT : TXID_START ≤ T) (hlt : T < 2 ^ 63) (hb : S.bound T resp)
    (hfit : ∀ id, S.steady id → comds resp ≠ none) :
    Spec S (ReadyAll S hb)
      (readMem >>= fun c =>
        postTasks .working (commitReq c.TXID resp) (pids S.pnum) >>= fun _ =>
        collectCommits (pids S.pnum) false getErrorMessage >>= fun r =>
          if r.1 then
            readMem >>= fun c => Prog.ofOption (c.lg.chageLogState c.TXID LogState.LOG_COMMIT) >>=
              fun lg => (updateMem fun c => { c with lg := lg, TXID := c.TXID + 1 }) >>=
              fun _ => pure r.2
          else pure getErrorMessage)
      (Updated S hb) := by
  have hdone := decidedAll_stable S hb
  refine Prog.Triple.bind (R := fun c s => ReadyAll S hb s ∧ c = s.c)
    (spec_readMem (S := S.extend hb) (readyAll_stable S hb)) fun c => ?_
  refine Prog.Triple.of_imp (C := c.TXID = T) ?_ fun hc => ?_
  · rintro s ⟨hs, rfl⟩
    exact hs.global.1
  rw [hc]
  refine Prog.Triple.bind (R := fun _ => DecidedAll S hb)
    (Prog.Triple.conseq (spec_postCommits hT hlt hb hfit) (fun s hs => hs.1) fun _ _ h => h)
    fun _ => ?_
  intro s hs
  have hread := spec_collectCommits (fun id => (hdone id).holds _) (fun _ _ _ _ h => h.2)
    (pids S.pnum) false getErrorMessage s (hs.holds .working)
  refine (Prog.wp_bind _ _ _ _ _ _ _).2 (Prog.wp_mono _ _ _ ?_ _ _ hread)
  rintro ⟨commit, rc⟩ s' ⟨hs', htrue, hfalse⟩
  have hbuf : ∀ id, (s'.c.p id).buf .working = (s.c.p id).buf .working := fun id => (hs'.peers id).2
  have hs'' : DecidedAll S hb s' := hs'.of_holds
  cases commit with
  | false =>
      exact hs''.refused fun id hid => by
        rw [hbuf]
        exact (hfalse rfl).2 id hid
  | true =>
      obtain ⟨id, hid, hrep⟩ := (htrue rfl).resolve_right fun h => nomatch h.1
      rw [← hbuf] at hrep
      obtain ⟨hne, hacc, hy⟩ := hs''.committed hid hrep
      have hwrite := spec_writeCommit (S := S.extend hb) hlt hacc
        (synced_stable (S.extend hb) (T + 1)) (Or.inr ⟨rfl, rfl⟩)
        (fun h => Accepted resp ∧ ∃ y ∈ h, y.IsReply S.rel T (commitReq T resp) rc) rc s'
        ⟨hs''.core, hs''.mutex, ⟨hs''.global, hacc, hy⟩, hs''.synced_next hacc⟩
      refine Prog.wp_mono _ _ _ ?_ _ _ hwrite
      rintro r s₁ ⟨rfl, hs₁⟩
      exact Or.inl ⟨hne, hs₁⟩

/-- `UpdateDB` keeps the participants in the working state at the coordinator's number. -/
theorem spec_UpdateDB (hT : TXID_START ≤ T) (hb : S.bound T resp)
    (hfit : ∀ id, S.steady id → comds resp ≠ none) :
    Spec S (Assert S false (fun t _ _ => t = T) (Unasked S.steady T)) (UpdateDB S.pnum resp)
      (Updated S hb) := by
  have hasked := unasked_stable S T
  have hvoted : ∀ id, NodeStable S false id
      (mix (pids S.pnum) (Unasked S.steady T) (Voted S.steady T) id) :=
    stable_mix hasked (voted_stable S T) (pids S.pnum)
  refine Prog.Triple.bind (spec_writePre hasked) fun _ => ?_
  refine Prog.Triple.bind (spec_readMem hasked) fun c => ?_
  refine Prog.Triple.of_imp (C := c.TXID = T) ?_ fun hc => ?_
  · rintro s ⟨hs, rfl⟩
    exact hs.global.1
  rw [hc]
  refine Prog.Triple.bind (R := fun _ => Assert S false (Preparing T resp)
      (mix (pids S.pnum) (Unasked S.steady T) (Voted S.steady T)))
    (Prog.Triple.conseq (spec_postTasks hasked (voted_stable S T) fun id _ => vote_spec hT resp)
      (fun s hs => hs.1) fun _ _ h => h) fun _ => ?_
  intro s hs
  have hread := spec_collectVotes (fun id => (hvoted id).holds _) (fun _ _ _ _ h => h.2)
    (pids S.pnum) false s (hs.holds .working)
  refine (Prog.wp_bind _ _ _ _ _ _ _).2 (Prog.wp_mono _ _ _ ?_ _ _ hread)
  rintro vote s' ⟨hs', hvote⟩
  have hbuf : ∀ id, (s'.c.p id).buf .working = (s.c.p id).buf .working := fun id => (hs'.peers id).2
  have hs'' : Assert S false (Preparing T resp)
      (mix (pids S.pnum) (Unasked S.steady T) (Voted S.steady T)) s' := hs'.of_holds
  have hext := hs''.extend hb
  cases vote with
  | false =>
      -- nobody has voted, so nobody in the working state could have
      refine Or.inr ⟨rfl, ⟨hext.core, hext.mutex, hext.global.1, fun id => ?_⟩,
        Or.inl fun id => (hs''.core.nodes id).clean, fun _ hlt id hid hst => ?_⟩
      · exact mix_elim (hs''.peers id) (fun _ hp => hp.synced) fun _ hp => hp.synced
      · have hp := hs''.peers id
        rw [mix_self hid] at hp
        obtain ⟨⟨hret, hdata⟩, -⟩ := hp.vote hlt hst
        have hsome : ((s'.c.p id).buf .working).reply (· == ascii "PRE") = some _ :=
          reply_eq_some.2 ⟨hret, by simpa using hdata, rfl⟩
        rw [hbuf] at hsome
        exact absurd (hvote.2 (Or.inr ⟨id, hid, by rw [hsome]; rfl⟩)) nofun
  | true =>
      -- a vote repeats the number, which is therefore small enough to be read
      obtain ⟨id, hid, hsome⟩ := (hvote.1 rfl).resolve_left nofun
      obtain ⟨rc, hrep⟩ := Option.isSome_iff_exists.1 hsome
      rw [← hbuf] at hrep
      obtain ⟨hret, hpre, rfl⟩ := reply_eq_some.1 hrep
      have hlt : T < 2 ^ 63 := by
        have hp := hs''.peers id
        rw [mix_self hid] at hp
        exact hp.small hret (by simpa using hpre)
      refine spec_commitPhase hT hlt hb hfit s' ⟨hext.core, hext.mutex, hext.global, fun j => ?_⟩
      have hp := hs''.peers j
      have hclean := (hs''.core.nodes j).clean
      by_cases hj : j ∈ pids S.pnum
      · rw [mix_self hj] at hp ⊢
        exact ⟨hp, hclean⟩
      · rw [mix_of_notMem _ _ hj] at hp ⊢
        exact ⟨hp, hclean⟩

end Update

/-! ## The request -/

/-- The text of a read request. -/
def getReq (resp : Bytes) : Bytes := Log.logToStr ⟨SUPER_TXID, LogState.LOG_COMMIT, resp⟩

/-- A read request is answered from the table and changes nothing. -/
theorem pWorker_getReq {p part : Participant} {resp rmsg : Bytes} (hro : ReadOnly resp)
    (h : p.pWorker (getReq resp) = some (rmsg, part)) : part = p ∧ rmsg ≠ [] := by
  rw [getReq, pWorker_logToStr_super p rfl] at h
  obtain ⟨⟨rc, kv⟩, hr, heq⟩ := Option.map_eq_some_iff.1 h
  obtain ⟨cs, -, hrun⟩ := Option.map_eq_some_iff.1 hr
  have hkv := applyEvent_of_eventParser hr
  rw [hro] at hkv
  rw [Prod.mk.injEq] at heq
  refine ⟨by rw [← heq.2, ← hkv], ?_⟩
  have hne := runComds_ne_nil p.kvdb cs
  rw [hrun] at hne
  exact heq.1 ▸ hne

/-- After a read request: a participant in the working state has answered it. -/
structure Asked (U : Nat → Prop) (R : Nat → Bytes → Prop) (T : Nat) (resp : Bytes) (id : Nat)
    (h : List Exch) (e : Entry) (n : Node) : Prop where
  synced : Synced U T id h e n
  working : e.pstate = .P_WORKING → (e.buf .working).ret = KV_OK ∧ (e.buf .working).dataRet ≠ []
  reply : (e.buf .working).ret = KV_OK → ∃ y ∈ h, y.IsReply R T (getReq resp) (e.buf .working).dataRet

/-- The participant is not in the working state. -/
def Passed (U : Nat → Prop) (T id : Nat) : NodePred :=
  fun h e n => Synced U T id h e n ∧ e.pstate ≠ .P_WORKING

/-- The state after a read request: it was answered by a participant with the number `T`, or no
participant is in the working state. -/
def Requested (S : Setting) (T : Nat) (resp rc : Bytes) (s : Sys) : Prop :=
  Assert S false (fun t _ _ => t = T) (Synced S.steady T) s ∧
    ((∃ y ∈ s.hist, y.IsReply S.rel T (getReq resp) rc) ∨
      (rc = getErrorMessage ∧ ∀ id ∈ pids S.pnum, (s.c.p id).pstate ≠ .P_WORKING))

section Request

variable {S : Setting} {T : Nat} {resp : Bytes}

theorem asked_stable (S : Setting) (R : Nat → Bytes → Prop) (T : Nat) (resp : Bytes) (id : Nat) :
    NodeStable S false id (Asked S.steady R T resp id) where
  step hok h hs := ⟨(synced_stable S T id).step hok h.synced hs, h.working, h.reply⟩
  connect hr hok h hst hp := ⟨(synced_stable S T id).connect hr hok h.synced hst hp, nofun, h.reply⟩
  clear hr h := ⟨(synced_stable S T id).clear hr h.synced, h.working, h.reply⟩
  sent hy h := ⟨(synced_stable S T id).sent hy h.synced, h.working, fun hret => by
    obtain ⟨y, hy, hrep⟩ := h.reply hret
    exact ⟨y, by simp [hy], hrep⟩⟩

theorem passed_stable (S : Setting) (T id : Nat) :
    NodeStable S false id (Passed S.steady T id) where
  step hok h hs := ⟨(synced_stable S T id).step hok h.1 hs, h.2⟩
  connect hr hok h hst hp := ⟨(synced_stable S T id).connect hr hok h.1 hst hp, nofun⟩
  clear hr h := ⟨(synced_stable S T id).clear hr h.1, h.2⟩
  sent hy h := ⟨(synced_stable S T id).sent hy h.1, h.2⟩

/-- One read request. -/
theorem request_spec (hro : ReadOnly resp) {id : Nat} (hfit : S.steady id → comds resp ≠ none) :
    WorkSpec S (fun t _ _ => t = T) id (getReq resp) (Synced S.steady T id)
      (Asked S.steady S.rel T resp id) where
  keeps hat _ := hat.ok.within.keeps_request (.read _ hro)
    (Or.inl (show SUPER_TXID < TXID_START by decide))
  answers := by
    intro T₀ lg h e n _ _ hu
    rw [getReq, pWorker_logToStr_super n.part rfl]
    simpa [eventParser] using hfit hu
  voted := by
    intro T₀ lg h e n _ _ T' e' hT' heq
    have hID : SUPER_TXID = T' := congrArg Log.ID (logToStr_injective heq)
    rw [← hID] at hT'
    exact absurd hT' (by decide)
  skip hat hst := by
    refine ⟨⟨hat.pred.state, hat.pred.txid, hat.pred.steady⟩, fun h => absurd h hst, fun hret => ?_⟩
    rw [Entry.setRet_ret] at hret
    exact absurd hret (by decide)
  answered := by
    intro T₀ lg h e n rmsg part hat hst ha hw
    obtain ⟨rfl, hne⟩ := pWorker_getReq hro hw
    have htx := hat.pred.txid hst (hat.ok.alive ha).1
    refine ⟨hat.global, ⟨hat.pred.state, fun _ _ => htx, hat.pred.steady⟩, fun _ => by simpa using hne,
      fun _ => ⟨_, List.mem_append_right _ (List.mem_singleton_self _), ?_⟩⟩
    exact ⟨rfl, rfl, rfl, by simp [Exch.of, Outcome.answered], hat.ok.within, htx⟩
  failed := by
    intro T₀ lg h e n o hat hst hf hu
    refine ⟨hat.global, ⟨(fun h => by cases h), (fun h => by cases h), fun hu' => absurd hu' hu⟩,
        (fun h => by cases h), fun hret => ?_⟩
    rw [Entry.setState_buf, Entry.setReply_ret] at hret
    exact absurd hret hf.ret

/-- The loop of `Request`, with the participants asked so far. -/
theorem spec_requestLoop (hro : ReadOnly resp) (hfit : ∀ id, S.steady id → comds resp ≠ none)
    (ids : List Nat) : ∀ done : List Nat, ids.Nodup →
      (∀ id ∈ ids, id ∈ pids S.pnum ∧ id ∉ done) →
      Spec S (Assert S false (fun t _ _ => t = T) (mix done (Synced S.steady T) (Passed S.steady T)))
        (requestLoop (getReq resp) ids) fun rc s =>
          Assert S false (fun t _ _ => t = T) (Synced S.steady T) s ∧
            ((∃ y ∈ s.hist, y.IsReply S.rel T (getReq resp) rc) ∨
              (rc = getErrorMessage ∧ ∀ id ∈ ids ++ done, (s.c.p id).pstate ≠ .P_WORKING)) := by
  have hsynced := synced_stable S T
  have hweaken (done : List Nat) (s : Sys)
      (hs : Assert S false (fun t _ _ => t = T) (mix done (Synced S.steady T) (Passed S.steady T)) s) :
      Assert S false (fun t _ _ => t = T) (Synced S.steady T) s := by
    exact hs.imp (fun hG => hG) fun id _ hp => mix_elim hp (fun _ hp => hp.1) fun _ hp => hp
  induction ids with
  | nil =>
      intro done _ _
      refine Prog.Triple.ret fun s hs => ⟨hweaken done s hs, Or.inr ⟨rfl, fun id hid => ?_⟩⟩
      have hp := hs.peers id
      rw [mix_self (by simpa using hid)] at hp
      exact hp.2
  | cons id ids ih =>
      intro done hnd hids
      obtain ⟨hid, hdone⟩ := hids id (by simp)
      rw [List.nodup_cons] at hnd
      have hmix : ∀ j, NodeStable S false j
          (mix done (Synced S.steady T) (Passed S.steady T) j) :=
        stable_mix hsynced (passed_stable S T) done
      have hasked := stable_update hmix (asked_stable S S.rel T resp id)
      refine Prog.Triple.bind (spec_postTask hmix hid (Q := Asked S.steady S.rel T resp id) ?_)
        fun _ => ?_
      · rw [mix_of_notMem _ _ hdone]
        exact request_spec hro (hfit id)
      intro s hs
      have hread := spec_takeReply (fun j => (hasked j).holds ((s.c.p j).buf .working)) id
        (fun _ _ _ h => h.2) (· != []) s (hs.holds .working)
      refine (Prog.wp_bind _ _ _ _ _ _ _).2 (Prog.wp_mono _ _ _ ?_ _ _ hread)
      rintro reply s' ⟨hs', hreply⟩
      -- the buffer is the one in which the worker has put its reply
      have hbuf := (hs'.peers id).2
      have hs'' := hs'.of_holds
      have hp := hs''.peers id
      rw [Function.update_self] at hp
      rw [← hbuf] at hreply
      cases reply with
      | some rc =>
          obtain ⟨hret, -, rfl⟩ := reply_eq_some.1 hreply.symm
          refine ⟨hweaken done s' (hs''.restore fun hp => ?_), Or.inl (hp.reply hret)⟩
          rw [mix_of_notMem _ _ hdone]
          exact hp.synced
      | none =>
          have hpass : (s'.c.p id).pstate ≠ .P_WORKING := by
            intro hst
            obtain ⟨hret, hdata⟩ := hp.working hst
            have hsome : ((s'.c.p id).buf .working).reply (· != []) = some _ :=
              reply_eq_some.2 ⟨hret, by simpa using hdata, rfl⟩
            rw [← hreply] at hsome
            exact nomatch hsome
          have hnext : Assert S false (fun t _ _ => t = T)
              (mix (id :: done) (Synced S.steady T) (Passed S.steady T)) s' := by
            have hchanged := hs''.change id (Q := Passed S.steady T id) fun _ =>
              ⟨hp.synced, hpass⟩
            rwa [Function.update_idem, update_mix] at hchanged
          have hrest := ih (id :: done) hnd.2 (ahead_cons hnd.1 hids) s' hnext
          refine Prog.wp_mono _ _ _ ?_ _ _ hrest
          rintro rc s₁ ⟨hs₁, hres⟩
          -- the participants passed over so far were not in the working state either
          refine ⟨hs₁, hres.imp_right fun ⟨hrc, hall⟩ => ⟨hrc, fun j hj => hall j ?_⟩⟩
          simp only [List.mem_append, List.mem_cons] at hj ⊢
          tauto

/-- `Request` keeps the participants in the working state at the coordinator's number, and its
result is the answer of one of them. -/
theorem spec_Request (hro : ReadOnly resp) (hfit : ∀ id, S.steady id → comds resp ≠ none) :
    Spec S (Assert S false (fun t _ _ => t = T) (Synced S.steady T)) (Request S.pnum resp)
      (Requested S T resp) := by
  have hloop := spec_requestLoop (S := S) (T := T) hro hfit (pids S.pnum) [] (nodup_pids _)
    fun id hid => ⟨hid, by simp⟩
  have hnil : mix [] (Synced S.steady T) (Passed S.steady T) = Synced S.steady T := by
    funext id
    exact mix_of_notMem _ _ (by simp)
  simp only [hnil, List.append_nil] at hloop
  exact hloop

end Request

/-! ## The working thread's call -/

/-- The command is an update. -/
def IsUpdate (task : List Bytes) : Prop :=
  task.headD [] = ascii "SET" ∨ task.headD [] = ascii "DEL"

/-- The state after the call for a command. -/
def Worked (S : Setting) (T : Nat) (task : List Bytes) (rc : Bytes) (s : Sys) : Prop :=
  (IsUpdate task ∧ ∃ hb : S.bound T (getRESPArry task), Updated S hb rc s) ∨
  (task.headD [] = ascii "GET" ∧ Requested S T (getRESPArry task) rc s) ∨
  (¬ IsUpdate task ∧ task.headD [] ≠ ascii "GET" ∧ rc = getErrorMessage ∧
    Assert S false (fun t _ _ => t = T) (Synced S.steady T) s)

/-- The reply to a read is what the participant's table gives. -/
theorem Exch.IsReply.read {y : Exch} {R : Nat → Bytes → Prop} {T : Nat} {task : List Bytes}
    {rc : Bytes} (h : y.IsReply R T (getReq (getRESPArry task)) rc) (hok : ExchOk y)
    (hfit : (getRESPArry task).length < 2 ^ 31) : rc = (runComds y.before.kvdb task).1 := by
  have hw := hok.answered h.ret
  rw [h.task, getReq, pWorker_logToStr_super _ rfl, eventParser_getRESPArry _ hfit, Option.map_some,
    Option.some.injEq, Prod.mk.injEq, h.rmsg] at hw
  exact hw.1.symm

/-- The reply to a commit with the participant's number is what its table gives. -/
theorem Exch.IsReply.commit {y : Exch} {R : Nat → Bytes → Prop} {T : Nat} {task : List Bytes}
    {rc : Bytes} (h : y.IsReply R T (commitReq T (getRESPArry task)) rc) (hok : ExchOk y)
    (hT : TXID_START ≤ T) (hlt : T < 2 ^ 63) (hfit : (getRESPArry task).length < 2 ^ 31) :
    rc = (runComds y.before.kvdb task).1 := by
  have hw := hok.answered h.ret
  have hID : (Log.received ⟨T, LogState.LOG_COMMIT, getRESPArry task⟩).ID = y.before.TXID := by
    rw [h.txid]
    exact min_longMax hlt
  rw [h.task, commitReq, pWorker_commit _ hT hID rfl, eventParser_getRESPArry _ hfit, Option.map_some,
    Option.some.injEq, h.rmsg] at hw
  have hreply := congrArg Prod.fst hw
  dsimp only at hreply
  split at hreply <;> exact hreply.symm

theorem readOnly_of_get {task : List Bytes} (h : task.headD [] = ascii "GET") :
    ReadOnly (getRESPArry task) := by
  cases task with
  | nil => exact absurd h (by decide)
  | cons c args =>
      obtain rfl : c = ascii "GET" := h
      exact readOnly_get args

/-- The call for a command, whatever the command. -/
theorem spec_Working {S : Setting} {T : Nat} (hT : TXID_START ≤ T) {task : List Bytes}
    (hb : IsUpdate task → S.bound T (getRESPArry task))
    (hfit : ∀ id, S.steady id → comds (getRESPArry task) ≠ none) :
    Spec S (Assert S false (fun t _ _ => t = T) (Unasked S.steady T)) (Working S.pnum task)
      (Worked S T task) := by
  have hsynced (s : Sys) (hs : Assert S false (fun t _ _ => t = T) (Unasked S.steady T) s) :
      Assert S false (fun t _ _ => t = T) (Synced S.steady T) s :=
    hs.imp (fun hG => hG) fun _ _ hp => hp.synced
  unfold Working
  by_cases hup : task.headD [] = ascii "SET" ∨ task.headD [] = ascii "DEL"
  · rw [if_pos hup]
    exact Prog.Triple.conseq (spec_UpdateDB hT (hb hup) hfit) (fun _ h => h)
      fun _ _ h => Or.inl ⟨hup, hb hup, h⟩
  · rw [if_neg hup]
    by_cases hget : task.headD [] = ascii "GET"
    · rw [if_pos hget]
      exact Prog.Triple.conseq (spec_Request (readOnly_of_get hget) hfit) hsynced
        fun _ _ h => Or.inr (Or.inl ⟨hget, h⟩)
    · rw [if_neg hget]
      exact Prog.Triple.ret fun s hs => Or.inr (Or.inr ⟨hup, hget, rfl, hsynced s hs⟩)

end CloudLabs.KvStore
