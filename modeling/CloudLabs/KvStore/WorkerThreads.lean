import CloudLabs.KvStore.Guarantee

/-!
# The rounds of the worker threads

One round of `pWorking` or `pRecovery`, from the token of the task to that of the reply. While it
lasts nobody else touches the slot of the worker, and a participant in the worker's state stays in
it, so the assertions between its operations last. A round ends with a code that was written in it,
which is `KV_OK` only if the connection has answered the task with the data that were written.
-/

set_option autoImplicit false

namespace CloudLabs.KvStore.Threads

open CloudLabs.Foundation
open Function (update)

section Worker

variable {ν : Type} {N : Link ν} (K : Contract N) {pnum : Nat} (ch : Chan) (id : Nat)

/-! ## Assertions in a round -/

/-- The worker is between two rounds. -/
def Idle (v : View ν) : Prop := (v.slot ch id).book.inRound = false

/-- The worker has begun a round. -/
structure Begun (v : View ν) : Prop where
  inRound : (v.slot ch id).book.inRound = true
  busy : (v.slot ch id).book.busy = false
  listed : ch = .recovery → Listed v id

/-- The participant is in the state for the worker. -/
structure Serving (v : View ν) : Prop where
  inRound : (v.slot ch id).book.inRound = true
  pstate : v.pstate id = stateFor ch

/-- The task has been read from its buffer. -/
structure Asked (task : Bytes) (v : View ν) : Prop extends Serving ch id v where
  busy : (v.slot ch id).book.busy = false
  task : (v.slot ch id).buf.task = task

/-- The request is under way, if sending it gave the code `rc`. -/
structure Requested (rc : Int) (v : View ν) : Prop extends Serving ch id v where
  busy : (v.slot ch id).book.busy = true
  sent : rc = KV_OK → ∀ q ∈ (v.slot ch id).book.asked.getLast?,
    K.Sent q.net (v.slot ch id).buf.task (v.net id)

/-- `sendAndRecv` has returned the code and the text `r`. -/
structure Received (r : Int × Bytes) (v : View ν) : Prop extends Serving ch id v where
  busy : (v.slot ch id).book.busy = decide (r.1 ≠ KV_OK)
  output : r.1 = KV_OK → ∀ q ∈ (v.slot ch id).book.asked.getLast?,
    K.Output q.net (v.slot ch id).buf.task r.2 (v.net id)

/-- The code, or the code and the text, are in the buffers. -/
structure Stored (r : Int × Bytes) (v : View ν) : Prop extends Received K ch id r v where
  code : (v.slot ch id).book.draft.code = some r.1
  ret : (v.slot ch id).buf.ret = r.1

structure Kept (r : Int × Bytes) (v : View ν) : Prop extends Stored K ch id r v where
  data : (v.slot ch id).book.draft.data = some r.2
  dataRet : (v.slot ch id).buf.dataRet = r.2

/-- The connection is closed. -/
structure Closed (v : View ν) : Prop extends Serving ch id v where
  busy : (v.slot ch id).book.busy = false
  code : (v.slot ch id).book.draft.code = some (v.slot ch id).buf.ret
  failed : (v.slot ch id).buf.ret ≠ KV_OK

/-- The round has its result; the entry in `maxTxidTB` may still have to be erased. -/
structure Settled (v : View ν) : Prop where
  inRound : (v.slot ch id).book.inRound = true
  busy : (v.slot ch id).book.busy = false
  written : (v.slot ch id).Written
  told : ch = .recovery → (v.slot ch id).buf.ret = KV_OK → v.pstate id = .P_RECOVERY
  output : (v.slot ch id).buf.ret = KV_OK → ∀ q ∈ (v.slot ch id).book.asked.getLast?,
    K.Output q.net (v.slot ch id).buf.task (v.slot ch id).buf.dataRet (v.net id)

/-- The round may end. -/
structure Done (v : View ν) : Prop extends Settled K ch id v where
  listed : ch = .recovery → Listed v id

variable {K ch id} {v v' : View ν} {t' : Thread}

theorem Guar.listed (hG : Guar N pnum t' v v') (hv : Inv K pnum v)
    (hne : t' ≠ .worker .recovery id) (hin : (v.slot .recovery id).book.inRound = true)
    (h : Listed v id) : Listed v' id := by
  intro hentry
  rw [hG.maxTxid_of_inRound hv hne hin] at hentry
  exact hG.pstate_of_inRound hv hne hin (h hentry)

theorem idle_lasting : Lasting K pnum (.worker ch id) (Idle ch id) := by
  intro t' v v' hne _ _ hG h
  rw [Idle, (hG.idle hne).1]
  exact h

theorem begun_lasting : Lasting K pnum (.worker ch id) (Begun ch id) := by
  intro t' v v' hne hv _ hG h
  have hslot := hG.slot_of_inRound hv hne h.inRound
  constructor
  · rw [hslot]
    exact h.inRound
  · rw [hslot]
    exact h.busy
  · rintro rfl
    exact hG.listed hv hne h.inRound (h.listed rfl)

theorem Serving.last (h : Serving ch id v) (hG : Guar N pnum t' v v') (hv : Inv K pnum v)
    (hne : t' ≠ .worker ch id) : Serving ch id v' where
  inRound := by
    rw [hG.slot_of_inRound hv hne h.inRound]
    exact h.inRound
  pstate := hG.pstate_of_inRound hv hne h.inRound h.pstate

theorem asked_lasting (task : Bytes) :
    Lasting K pnum (.worker ch id) (Asked (ν := ν) ch id task) := by
  intro t' v v' hne hv _ hG h
  have hslot := hG.slot_of_inRound hv hne h.inRound
  refine ⟨h.toServing.last hG hv hne, ?_, ?_⟩
  · rw [hslot]
    exact h.busy
  · rw [hslot]
    exact h.task

theorem requested_lasting (rc : Int) : Lasting K pnum (.worker ch id) (Requested K ch id rc) := by
  intro t' v v' hne hv _ hG h
  have hslot := hG.slot_of_inRound hv hne h.inRound
  refine ⟨h.toServing.last hG hv hne, ?_, ?_⟩
  · rw [hslot]
    exact h.busy
  · intro hrc
    rw [hslot]
    rcases hG.net_of_inRound hne h.pstate with heq | hmove
    · rw [heq]
      exact h.sent hrc
    · exact fun q hq => K.moveSent hmove (h.sent hrc q hq)

theorem Received.last {r : Int × Bytes} (h : Received K ch id r v) (hG : Guar N pnum t' v v')
    (hv : Inv K pnum v) (hne : t' ≠ .worker ch id) : Received K ch id r v' := by
  have hslot := hG.slot_of_inRound hv hne h.inRound
  refine ⟨h.toServing.last hG hv hne, ?_, ?_⟩
  · rw [hslot]
    exact h.busy
  · intro hrc
    rw [hslot]
    exact fun q hq => hG.output (h.output hrc q hq)

theorem received_lasting (r : Int × Bytes) : Lasting K pnum (.worker ch id) (Received K ch id r) :=
  fun _ _ _ hne hv _ hG h => h.last hG hv hne

theorem Stored.last {r : Int × Bytes} (h : Stored K ch id r v) (hG : Guar N pnum t' v v')
    (hv : Inv K pnum v) (hne : t' ≠ .worker ch id) : Stored K ch id r v' := by
  have hslot := hG.slot_of_inRound hv hne h.inRound
  refine ⟨h.toReceived.last hG hv hne, ?_, ?_⟩
  · rw [hslot]
    exact h.code
  · rw [hslot]
    exact h.ret

theorem stored_lasting (r : Int × Bytes) : Lasting K pnum (.worker ch id) (Stored K ch id r) :=
  fun _ _ _ hne hv _ hG h => h.last hG hv hne

theorem kept_lasting (r : Int × Bytes) : Lasting K pnum (.worker ch id) (Kept K ch id r) := by
  intro t' v v' hne hv _ hG h
  have hslot := hG.slot_of_inRound hv hne h.inRound
  refine ⟨h.toStored.last hG hv hne, ?_, ?_⟩
  · rw [hslot]
    exact h.data
  · rw [hslot]
    exact h.dataRet

theorem closed_lasting : Lasting K pnum (.worker ch id) (Closed (ν := ν) ch id) := by
  intro t' v v' hne hv _ hG h
  have hslot := hG.slot_of_inRound hv hne h.inRound
  refine ⟨h.toServing.last hG hv hne, ?_, ?_, ?_⟩
  · rw [hslot]
    exact h.busy
  · rw [hslot]
    exact h.code
  · rw [hslot]
    exact h.failed

theorem Settled.last (h : Settled K ch id v) (hG : Guar N pnum t' v v') (hv : Inv K pnum v)
    (hne : t' ≠ .worker ch id) : Settled K ch id v' := by
  have hslot := hG.slot_of_inRound hv hne h.inRound
  constructor
  · rw [hslot]
    exact h.inRound
  · rw [hslot]
    exact h.busy
  · rw [hslot]
    exact h.written
  · rintro rfl hret
    rw [hslot] at hret
    exact hG.pstate_of_inRound hv hne h.inRound (h.told rfl hret)
  · intro hret
    rw [hslot] at hret ⊢
    exact fun q hq => hG.output (h.output hret q hq)

theorem settled_lasting : Lasting K pnum (.worker ch id) (Settled K ch id) :=
  fun _ _ _ hne hv _ hG h => h.last hG hv hne

theorem done_lasting : Lasting K pnum (.worker ch id) (Done K ch id) := by
  intro t' v v' hne hv _ hG h
  refine ⟨h.toSettled.last hG hv hne, ?_⟩
  rintro rfl
  exact hG.listed hv hne h.inRound (h.listed rfl)

/-! ## The operations of a round -/

/-- A step of the worker on its own slot, in a round that goes on. -/
theorem allowed_worked {x : Slot ν} (hv : Inv K pnum v) (hx : Fits K v ch id x)
    (hround : x.book.inRound = true)
    (hworked : (v.slot ch id).Worked x) (hbusy : x.book.busy = (v.slot ch id).book.busy)
    (hread : ∀ r : Reading, r.Valid (v.slot ch id).book → r.Valid x.book) :
    Allowed K pnum (.worker ch id) v (v.setSlot ch id x) := by
  constructor
  · apply Guar.setSlot (.inr ⟨rfl, hworked⟩)
    intro _ _ hnot
    rw [hround] at hnot
    cases hnot
  · exact hv.setSlot hx hbusy hread

theorem allowed_setRet (hv : Inv K pnum v) (hin : (v.slot ch id).book.inRound = true) (rc : Int) :
    Allowed K pnum (.worker ch id) v (v.setSlot ch id ((v.slot ch id).setRet rc)) :=
  allowed_worked hv ((hv.fits ch id).setRet hin rc) hin (.inr ⟨hin, rfl, rfl, rfl, rfl⟩) rfl
    fun _ hr => hr

theorem allowed_setData (hv : Inv K pnum v) (hin : (v.slot ch id).book.inRound = true)
    (rmsg : Bytes) :
    Allowed K pnum (.worker ch id) v (v.setSlot ch id ((v.slot ch id).setData rmsg)) :=
  allowed_worked hv ((hv.fits ch id).setData hin rmsg) hin (.inr ⟨hin, rfl, rfl, rfl, rfl⟩) rfl
    fun _ hr => hr

theorem spec_cGet : Does K pnum (.worker ch id) (Idle ch id) (call (cGet ⟨ch, .task, id⟩))
    fun _ => Begun ch id := by
  rw [call_cGet]
  refine Does.bind (Q := fun _ => Begun ch id) ?_ fun _ => Does.wait_rest (by decide) begun_lasting
  apply Does.act (a := .mem (.wait ⟨ch, .task, id⟩ .full)) idle_lasting
  rintro s - s' hs hidle ⟨htask, rfl⟩
  have hidle : (s.slot ch id).book.inRound = false := hidle
  have htask : 0 < (s.slot ch id).task := htask
  have hfits := hs.fits ch id
  rw [view_wait_task]
  refine ⟨⟨Guar.setSlot (.inr ⟨rfl, .inl ⟨htask, hidle, rfl⟩⟩) ?_,
    hs.setSlot (hfits.begin htask hidle) rfl fun _ hr => hr⟩, ?_, ?_, ?_⟩
  · intro _ hin
    rw [show (s.view.slot ch id).book.inRound = (s.slot ch id).book.inRound from rfl, hidle] at hin
    cases hin
  · rw [View.setSlot_self]
    rfl
  · rw [View.setSlot_self]
    exact hfits.busy_eq_false hidle
  · rintro rfl
    exact hfits.listed rfl htask

/-- The worker leaves its task alone. -/
theorem spec_skip : Does K pnum (.worker ch id) (Begun ch id)
    (act (.setRet ch id RET_SKIP)) fun _ => Done K ch id := by
  apply Does.act (a := .setRet ch id RET_SKIP) begun_lasting
  rintro s - s' hs hbegun rfl
  have hcode : RET_SKIP ≠ KV_OK := by decide
  have hskip : ((s.slot ch id).setRet RET_SKIP).buf.ret ≠ KV_OK := hcode
  rw [view_setRet]
  refine ⟨allowed_setRet hs hbegun.inRound RET_SKIP, ⟨?_, ?_, ?_, ?_, ?_⟩, hbegun.listed⟩
  · rw [View.setSlot_self]
    exact hbegun.inRound
  · rw [View.setSlot_self]
    exact hbegun.busy
  · rw [View.setSlot_self]
    exact ⟨rfl, fun hret => absurd hret hskip⟩
  · rintro rfl hret
    rw [View.setSlot_self] at hret
    exact absurd hret hskip
  · intro hret
    rw [View.setSlot_self] at hret
    exact absurd hret hskip

/-- While the participant is in its state the connection is free for the worker. -/
theorem Inv.clean_of_serving (hv : Inv K pnum v) (h : Serving ch id v)
    (hbusy : (v.slot ch id).book.busy = false) : K.Clean (v.net id) := by
  apply hv.clean id
  intro ch'
  by_cases heq : ch' = ch
  · rw [heq]
    exact hbusy
  · -- The other worker would have the participant in another state.
    cases hother : (v.slot ch' id).book.busy with
    | false => rfl
    | true =>
      have hst := ((hv.fits ch' id).busy hother).2
      rw [h.pstate] at hst
      exact absurd (stateFor_injective hst).symm heq

/-! ## The request -/

theorem spec_send (task : Bytes) : Does K pnum (.worker ch id) (Asked ch id task)
    (act (.send ch id task)) fun rc => Requested K ch id rc := by
  apply Does.act (a := .send ch id task) (asked_lasting task)
  rintro s rc s' hs h ⟨n, hsend, rfl⟩
  have hchanges : N.Changes (s.net id) n := .inr (.inl ⟨task, rc, hsend⟩)
  rw [view_useNet]
  refine ⟨⟨Guar.useNet h.inRound h.pstate hchanges, hs.useNet h.inRound h.pstate hchanges ?_⟩,
    ⟨?_, h.pstate⟩, ?_, ?_⟩
  · intro hno
    cases hno
  · rw [View.setSlot_self]
    exact h.inRound
  · rw [View.setSlot_self]
    rfl
  · rintro rfl
    rw [View.setSlot_self]
    have hnet : ((s.view.setNet id n).setSlot ch id ((s.slot ch id).setBusy true)).net id = n :=
      Function.update_self ..
    have htask : ((s.slot ch id).setBusy true).buf.task = task := h.task
    rw [hnet, htask]
    intro q hq
    -- the connection was clean up to this call
    have hsince := (hs.fits ch id).since q (List.mem_of_getLast? hq)
    exact K.send hsend (hs.clean_of_serving h.toServing h.busy) hsince

theorem spec_recv : Does K pnum (.worker ch id) (Requested K ch id KV_OK)
    (act (.recv ch id)) fun r => Received K ch id r := by
  apply Does.act (a := .recv ch id) (requested_lasting KV_OK)
  rintro s r s' hs h ⟨n, hrecv, rfl⟩
  have hchanges : N.Changes (s.net id) n := .inr (.inr (.inl ⟨r.1, r.2, hrecv⟩))
  obtain ⟨t, n₀, hq₀⟩ := (hs.fits ch id).ok.asked ((hs.fits ch id).ok.waiting_of_inRound h.inRound)
  -- The reply to the task, unless the call has failed.
  have hreply : r.1 = KV_OK → ∀ q ∈ (s.slot ch id).book.asked.getLast?,
      K.Clean n ∧ K.Output q.net (s.slot ch id).buf.task r.2 n := by
    intro hret q hq
    rw [hret] at hrecv
    exact K.recv hrecv (h.sent rfl q hq)
  rw [view_useNet]
  refine ⟨⟨Guar.useNet h.inRound h.pstate hchanges, hs.useNet h.inRound h.pstate hchanges ?_⟩,
    ⟨?_, h.pstate⟩, ?_, ?_⟩
  · intro hok
    exact (hreply (not_not.mp (of_decide_eq_false hok)) _ hq₀).1
  · rw [View.setSlot_self]
    exact h.inRound
  · rw [View.setSlot_self]
    rfl
  · intro hret
    rw [View.setSlot_self]
    have hnet : ((s.view.setNet id n).setSlot ch id
        ((s.slot ch id).setBusy (r.1 ≠ KV_OK))).net id = n := Function.update_self ..
    rw [hnet]
    exact fun q hq => (hreply hret q hq).2

/-- `sendAndRecv` gives the answer to the task, or an error. -/
theorem spec_sendAndRecv (task : Bytes) : Does K pnum (.worker ch id) (Asked ch id task)
    (sendAndRecv ch id task) fun r => Received K ch id r := by
  refine Does.bind (spec_send task) fun rc => ?_
  apply Does.ite
  · intro hrc
    apply Does.ret
    rintro v - h
    refine ⟨h.toServing, ?_, fun hok => absurd hok hrc⟩
    rw [h.busy]
    exact (decide_eq_true hrc).symm
  · intro hrc
    rw [not_not.mp hrc]
    exact spec_recv

theorem spec_setRet (r : Int × Bytes) : Does K pnum (.worker ch id) (Received K ch id r)
    (act (.setRet ch id r.1)) fun _ => Stored K ch id r := by
  apply Does.act (a := .setRet ch id r.1) (received_lasting r)
  rintro s - s' hs h rfl
  rw [view_setRet]
  refine ⟨allowed_setRet hs h.inRound r.1, ⟨⟨?_, h.pstate⟩, ?_, ?_⟩, ?_, ?_⟩
  · rw [View.setSlot_self]
    exact h.inRound
  · rw [View.setSlot_self]
    exact h.busy
  · rw [View.setSlot_self]
    exact h.output
  · rw [View.setSlot_self]
    rfl
  · rw [View.setSlot_self]
    rfl

theorem spec_setData (r : Int × Bytes) : Does K pnum (.worker ch id) (Stored K ch id r)
    (act (.setData ch id r.2)) fun _ => Kept K ch id r := by
  apply Does.act (a := .setData ch id r.2) (stored_lasting r)
  rintro s - s' hs h rfl
  rw [view_setData]
  refine ⟨allowed_setData hs h.inRound r.2, ⟨⟨⟨?_, h.pstate⟩, ?_, ?_⟩, ?_, ?_⟩, ?_, ?_⟩
  · rw [View.setSlot_self]
    exact h.inRound
  · rw [View.setSlot_self]
    exact h.busy
  · rw [View.setSlot_self]
    exact h.output
  · rw [View.setSlot_self]
    exact h.code
  · rw [View.setSlot_self]
    exact h.ret
  · rw [View.setSlot_self]
    rfl
  · rw [View.setSlot_self]
    rfl

theorem spec_close {r : Int × Bytes} (hr : r.1 ≠ KV_OK) :
    Does K pnum (.worker ch id) (Kept K ch id r) (act (.close ch id)) fun _ => Closed ch id := by
  apply Does.act (a := .close ch id) (kept_lasting r)
  rintro s - s' hs h ⟨n, hclose, rfl⟩
  have hchanges : N.Changes (s.net id) n := .inr (.inr (.inr (.inl hclose)))
  rw [view_useNet]
  refine ⟨⟨Guar.useNet h.inRound h.pstate hchanges,
    hs.useNet h.inRound h.pstate hchanges fun _ => K.close hclose⟩, ⟨?_, h.pstate⟩, ?_, ?_, ?_⟩
  · rw [View.setSlot_self]
    exact h.inRound
  · rw [View.setSlot_self]
    rfl
  · rw [View.setSlot_self]
    have hret : (s.slot ch id).buf.ret = r.1 := h.ret
    show (s.slot ch id).book.draft.code = some (s.slot ch id).buf.ret
    rw [hret]
    exact h.code
  · rw [View.setSlot_self]
    have hret : (s.slot ch id).buf.ret = r.1 := h.ret
    show (s.slot ch id).buf.ret ≠ KV_OK
    rw [hret]
    exact hr

/-- The participant is lost. -/
theorem spec_lost : Does K pnum (.worker ch id) (Closed ch id)
    (call (updateMem (setPState id .P_WAITING))) fun _ => Settled K ch id := by
  apply Does.updateMem closed_lasting
  intro s hs h
  have hzero := (hs.fits ch id).ok.task_eq_zero h.inRound
  have hfailed : (s.view.slot ch id).buf.ret ≠ KV_OK := h.failed
  rw [view_setPState]
  refine ⟨⟨Guar.setPState (.lost rfl h.inRound h.pstate rfl), hs.setPState ?_ ?_⟩,
    h.inRound, h.busy, ⟨h.code, fun hret => absurd hret hfailed⟩,
    fun _ hret => absurd hret hfailed, fun hret => absurd hret hfailed⟩
  · intro ch'
    by_cases heq : ch' = ch
    · subst heq
      exact (hs.fits ch' id).setPState_of_idle hzero.1 hzero.2 h.busy _
    · -- the worker of the other kind
      apply (hs.fits ch' id).setPState_of_ne
      rw [h.pstate]
      exact fun hst => heq (stateFor_injective hst).symm
  · intro _
    rw [h.pstate]
    cases ch <;> decide

theorem Kept.settled {r : Int × Bytes} (h : Kept K ch id r v) (hr : r.1 = KV_OK) :
    Settled K ch id v where
  inRound := h.inRound
  busy := by
    rw [h.busy, hr]
    rfl
  written := by
    refine ⟨?_, fun _ => ?_⟩
    · rw [h.code, h.ret]
    · rw [h.data, h.dataRet]
  told := by
    rintro rfl -
    exact h.pstate
  output := by
    intro _
    rw [h.dataRet]
    exact h.output hr

theorem spec_pRelease : Does K pnum (.worker ch id) (Done K ch id)
    (call (pRelease ⟨ch, .ret, id⟩)) fun _ => Idle ch id := by
  rw [call_pRelease]
  refine Does.bind (Does.post_rest (by decide) done_lasting) fun _ => ?_
  apply Does.act (a := .mem (.post ⟨ch, .ret, id⟩ .full)) done_lasting
  rintro s - s' hs h rfl
  have hfits := (hs.fits ch id).finish h.inRound h.busy h.written h.told h.output
  rw [view_post_ret]
  refine ⟨⟨Guar.setSlot (.inr ⟨rfl, .inr ⟨h.inRound, rfl, rfl, rfl, rfl⟩⟩) fun hch _ _ =>
    h.listed hch, hs.setSlot hfits rfl ?_⟩, ?_⟩
  · intro r hr
    apply Reading.Valid.mono hr
    · exact fun _ _ hq => hq
    · intro k a ha
      -- the answers so far keep their places
      obtain ⟨hk, -⟩ := List.getElem?_eq_some_iff.mp ha
      exact (List.getElem?_append_left hk).trans ha
  · rw [Idle, View.setSlot_self]
    rfl

/-- The state that a worker reads stays, if it is the one for it. -/
theorem spec_readState : Does K pnum (.worker ch id) (Begun ch id) (call readMem)
    fun c v => Begun ch id v ∧ ((c.p id).pstate = stateFor ch → v.pstate id = stateFor ch) :=
  Does.readMem begun_lasting fun _ _ h => ⟨h, fun hst => hst⟩

/-- Reading the task, the request, and storing its result. -/
theorem spec_answer {α : Type} {f : Int × Bytes → Routine α} {Q : α → View ν → Prop}
    (hf : ∀ r, Does K pnum (.worker ch id) (Kept K ch id r) (f r) Q) :
    Does K pnum (.worker ch id) (fun v => Begun ch id v ∧ v.pstate id = stateFor ch) (do
      let c ← call readMem
      let r ← sendAndRecv ch id ((c.p id).buf ch).task
      act (.setRet ch id r.1)
      act (.setData ch id r.2)
      f r) Q := by
  -- nobody else changes the participant's state during the round
  have hlasting : Lasting K pnum (.worker ch id)
      fun v => Begun ch id v ∧ v.pstate id = stateFor ch := by
    intro t' v v' hne hv hv' hG h
    exact ⟨begun_lasting t' v v' hne hv hv' hG h.1,
      hG.pstate_of_inRound hv hne h.1.inRound h.2⟩
  refine Does.bind (Q := fun c => Asked ch id ((c.p id).buf ch).task) ?_ fun c => ?_
  · exact Does.readMem hlasting fun s _ h => ⟨⟨h.1.inRound, h.2⟩, h.1.busy, rfl⟩
  · refine Does.bind (spec_sendAndRecv _) fun r => ?_
    refine Does.bind (spec_setRet r) fun _ => ?_
    exact Does.bind (spec_setData r) fun _ => hf r

end Worker

/-! ## The rounds -/

section Rounds

variable {ν : Type} {N : Link ν} {K : Contract N} {pnum id : Nat}

theorem spec_serveWorking : Does K pnum (.worker .working id) (Begun .working id) (serveWorking id)
    fun _ => Done K .working id := by
  refine Does.bind spec_readState fun c => Does.ite ?_ ?_
  · intro _
    exact spec_skip.conseq (fun _ _ h => h.1) fun _ _ _ h => h
  · intro hst
    refine Does.conseq (spec_answer fun r => Does.ite ?_ ?_)
      (fun v _ h => ⟨h.1, h.2 (not_not.mp hst)⟩) fun _ _ _ h => h
    · intro hr
      refine Does.bind (spec_close hr) fun _ => spec_lost.conseq (fun _ _ h => h) ?_
      exact fun _ _ _ h => ⟨h, fun hch => by cases hch⟩
    · intro hr
      exact Does.ret fun _ _ h => ⟨h.settled (not_not.mp hr), fun hch => by cases hch⟩

/-- One round of `pWorking`. -/
theorem spec_pWorking : Does K pnum (.worker .working id) (Idle .working id) (pWorking id)
    fun _ => Idle .working id := by
  refine Does.bind spec_cGet fun _ => ?_
  refine Does.bind (Does.pGet begun_lasting) fun _ => ?_
  refine Does.bind spec_serveWorking fun _ => ?_
  exact Does.bind (Does.cRelease done_lasting) fun _ => spec_pRelease

/-- The thread `pRecovery` changes the entry of its participant. -/
theorem allowed_setMaxTxid {v : View ν} (hv : Inv K pnum v)
    (hin : (v.slot .recovery id).book.inRound = true) (m : Option Nat) :
    Allowed K pnum (.worker .recovery id) v (v.setMaxTxid id m) :=
  ⟨Guar.setMaxTxid (.inl ⟨rfl, hin⟩),
    hv.setMaxTxid ((hv.fits .recovery id).ok.task_eq_zero hin).1 m⟩

theorem spec_exchange : Does K pnum (.worker .recovery id)
    (fun v => Begun .recovery id v ∧ v.pstate id = .P_RECOVERY) (exchange id)
    fun _ => Done K .recovery id := by
  refine spec_answer fun r => Does.ite ?_ fun hr => Does.ite ?_ ?_
  · intro hr
    refine Does.bind (spec_close hr) fun _ => Does.bind spec_lost fun _ => ?_
    -- The entry goes, so that the participant is not listed any more.
    apply Does.updateMem settled_lasting
    intro s hs h
    rw [eraseMaxTxid, view_setMaxTxid]
    refine ⟨allowed_setMaxTxid hs h.inRound none,
      ⟨⟨h.inRound, h.busy, h.written, h.told, h.output⟩, ?_⟩⟩
    intro _ hentry
    exact absurd (Function.update_self ..) hentry
  · intro _
    apply Does.updateMem (kept_lasting r)
    intro s hs h
    have hsettled := h.settled (not_not.mp hr)
    rw [incMaxTxid, view_setMaxTxid]
    exact ⟨allowed_setMaxTxid hs h.inRound _,
      ⟨⟨h.inRound, hsettled.busy, hsettled.written, hsettled.told, hsettled.output⟩,
        fun _ _ => h.pstate⟩⟩
  · intro _
    exact Does.ret fun _ _ h => ⟨h.settled (not_not.mp hr), fun _ _ => h.pstate⟩

theorem spec_serveRecovery : Does K pnum (.worker .recovery id) (Begun .recovery id)
    (serveRecovery id) fun _ => Done K .recovery id := by
  have hlasting : Lasting K pnum (.worker .recovery id)
      fun v => Begun .recovery id v ∧ v.pstate id = .P_RECOVERY := by
    intro t' v v' hne hv hv' hG h
    exact ⟨begun_lasting t' v v' hne hv hv' hG h.1,
      Guar.pstate_of_inRound hG hv hne h.1.inRound h.2⟩
  refine Does.bind spec_readState fun c => Does.ite ?_ ?_
  · intro _
    exact spec_skip.conseq (fun _ _ h => h.1) fun _ _ _ h => h
  · intro hst
    refine Does.conseq (P := fun v => Begun .recovery id v ∧ v.pstate id = .P_RECOVERY) ?_
      (fun v _ h => ⟨h.1, h.2 (not_not.mp hst)⟩) fun _ _ _ h => h
    refine Does.bind (Does.readRest hlasting) fun c => ?_
    refine Does.bind (Does.orCrash _) fun l => Does.ite ?_ fun _ => spec_exchange
    intro _
    refine Does.bind (Q := fun _ v => Begun .recovery id v ∧ v.pstate id = .P_RECOVERY) ?_ ?_
    · apply Does.updateMem hlasting
      intro s hs h
      rw [touchMaxTxid, view_setMaxTxid]
      exact ⟨allowed_setMaxTxid hs h.1.inRound _,
        ⟨⟨h.1.inRound, h.1.busy, fun _ _ => h.2⟩, h.2⟩⟩
    · intro _
      refine Does.bind (Does.readRest hlasting) fun c => Does.ite ?_ fun _ => spec_exchange
      intro _
      exact spec_skip.conseq (fun _ _ h => h.1) fun _ _ _ h => h

/-- One round of `pRecovery`. -/
theorem spec_pRecovery : Does K pnum (.worker .recovery id) (Idle .recovery id) (pRecovery id)
    fun _ => Idle .recovery id := by
  refine Does.bind spec_cGet fun _ => ?_
  refine Does.bind (Does.pGet begun_lasting) fun _ => ?_
  refine Does.bind spec_serveRecovery fun _ => ?_
  exact Does.bind spec_pRelease fun _ => Does.cRelease idle_lasting

end Rounds

end CloudLabs.KvStore.Threads
