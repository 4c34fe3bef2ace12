import CloudLabs.KvStore.IssuerThreads

/-!
# The round of the recovery thread

While the recovery thread holds both mutexes and no worker is in a round, it may move participants
from state to state. `Held` is what it knows then: no participant is in the state `P_TEMP`, those
with an entry in `maxTxidTB` are in recovery, and few enough are for the rounds that `recoveryFromP`
has left. The loops of `Recovery`, `recoveryFromC` and `recoveryFromP` are specified one by one.
-/

set_option autoImplicit false

namespace CloudLabs.KvStore.Threads

open CloudLabs.Foundation
open Function (update)

section Assertions

variable {ν : Type} (pnum : Nat)

/-- The participants that are in recovery. -/
def recoveries (v : View ν) : Nat := (pids pnum).countP fun id => v.pstate id = .P_RECOVERY

/-- `maxTxidTB` is empty, and the thread has not yet taken `_workingMutex`. -/
structure Cleared (v : View ν) : Prop where
  free : v.owner .workingMutex ≠ some .recovery
  empty : ∀ id, v.maxTxid id = none

/-- The participants that are not among `ids` have been taken into recovery. -/
structure Taking (ids : List Nat) (v : View ν) : Prop where
  asking : Asking .recovery .recovery [] v
  owner : v.owner .recoveryMutex = some .recovery
  empty : ∀ id, v.maxTxid id = none
  taken : ∀ id ∈ pids pnum, id ∉ ids → v.pstate id ≠ .P_TEMP

/-- What the thread knows while it may wait for workers. -/
structure Held (S : Nat → Prop) (rounds : Nat) (v : View ν) : Prop where
  owner : v.owner .recoveryMutex = some .recovery
  taken : ∀ id ∈ pids pnum, v.pstate id ≠ .P_TEMP
  listed : ∀ id, S id → (v.slot .recovery id).book.inRound = false → Listed v id
  few : recoveries pnum v < rounds

end Assertions

section Lasts

variable {ν : Type} {N : Link ν} {K : Contract N} {pnum : Nat} {t : Thread} {v v' : View ν}
  {ch : Chan} {id : Nat} {ids : List Nat} {S : Nat → Prop} {rounds : Nat}

/-! ## What lasts -/

/-- No worker waits for the recovery thread before it holds `_workingMutex`. -/
theorem Inv.not_waiting_recovery (hv : Inv K pnum v) (h : v.owner .workingMutex ≠ some .recovery)
    (id : Nat) : (v.slot .recovery id).book.waiting = false := by
  cases hwait : (v.slot .recovery id).book.waiting with
  | false => rfl
  | true =>
    obtain ⟨t, howner, rfl | ⟨-, hch⟩, -⟩ := (hv.fits .recovery id).issuer hwait
    · exact absurd howner h
    · cases hch

theorem cleared_lasting : Lasting K pnum .recovery (Cleared (ν := ν)) := by
  intro t' v v' hne hv _ hG h
  refine ⟨hG.notOwned hne h.free, fun id => ?_⟩
  rw [hG.maxTxid_of_rest hv hne (hv.not_waiting_recovery h.free id)]
  exact h.empty id

theorem owner_lasting (m : Mutex) : Lasting K pnum t fun v => v.owner m = some t :=
  fun _ _ _ hne _ _ hG h => hG.owned hne h

theorem Asking.waiting_eq_false (h : Asking t ch [] v) (ch' : Chan) (id : Nat) :
    (v.slot ch' id).book.waiting = false := by
  cases hwait : (v.slot ch' id).book.waiting with
  | false => rfl
  | true => exact absurd ((h.waiting ch' id).mp hwait).2 List.not_mem_nil

theorem taking_lasting : Lasting K pnum .recovery (Taking pnum ids) := by
  intro t' v v' hne hv hv' hG h
  refine ⟨asking_lasting t' v v' hne hv hv' hG h.asking, hG.owned hne h.owner, ?_, ?_⟩
  · intro id
    rw [hG.maxTxid_of_rest hv hne (h.asking.waiting_eq_false _ id)]
    exact h.empty id
  · intro id hid hnot htemp
    exact h.taken id hid hnot ((hG.temp_iff hne h.owner id).mp htemp)

/-- Only the recovery thread takes a participant into recovery. -/
theorem Guar.recovery_of_recovery (h : Guar N pnum t v v') (hne : t ≠ .recovery)
    (hst : v'.pstate id = .P_RECOVERY) : v.pstate id = .P_RECOVERY := by
  rcases h.state id with heq | hchange
  · rw [← heq, hst]
  · cases hchange with
    | connected _ _ _ hto =>
      rw [hst] at hto
      cases hto
    | lost _ _ _ hto =>
      rw [hst] at hto
      cases hto
    | taken ht => exact absurd ht hne
    | recovered ht => exact absurd ht hne

/-- A participant whose recovery worker is not in a round stays in recovery. -/
theorem Guar.stays_recovery (h : Guar N pnum t v v') (hne : t ≠ .recovery)
    (hin : (v.slot .recovery id).book.inRound = false) (hst : v.pstate id = .P_RECOVERY) :
    v'.pstate id = .P_RECOVERY := by
  rcases h.state id with heq | hchange
  · rw [heq, hst]
  · cases hchange with
    | connected _ _ hfrom =>
      rw [hst] at hfrom
      cases hfrom
    -- only a worker in a round gives its participant up, and this one is in none
    | @lost ch _ hround hfrom =>
      rw [hst] at hfrom
      have hch : Chan.recovery = ch := stateFor_injective hfrom
      rw [← hch, hin] at hround
      cases hround
    | taken ht => exact absurd ht hne
    | recovered ht => exact absurd ht hne

theorem held_lasting : Lasting K pnum .recovery (Held pnum S rounds) := by
  intro t' v v' hne hv _ hG h
  refine ⟨hG.owned hne h.owner, ?_, ?_, ?_⟩
  · intro id hid htemp
    exact h.taken id hid ((hG.temp_iff hne h.owner id).mp htemp)
  · intro id hS hin'
    cases hin : (v.slot .recovery id).book.inRound with
    | true => exact hG.finished id hin hin'
    | false =>
      intro hentry
      apply hG.stays_recovery hne hin
      apply h.listed id hS hin
      -- an entry comes from a round of `pRecovery` or from this thread
      rcases hG.table id with heq | ⟨-, hround⟩ | ⟨ht, -⟩
      · rwa [← heq]
      · rw [hin] at hround
        cases hround
      · exact absurd ht hne
  · -- no other thread puts a participant into recovery
    refine lt_of_le_of_lt ?_ h.few
    apply List.countP_mono_left
    intro id _ hst
    simp only [decide_eq_true_eq] at hst ⊢
    exact hG.recovery_of_recovery hne hst

theorem held_frame : Frame K pnum .recovery (Held pnum S rounds) where
  lasting := held_lasting
  slot := by
    intro v ch id x hissued h
    refine ⟨h.owner, h.taken, ?_, h.few⟩
    intro id' hS hin
    apply h.listed id' hS
    by_cases heq : Chan.recovery = ch ∧ id' = id
    · -- An issuing thread does not begin or end a round.
      obtain ⟨rfl, rfl⟩ := heq
      rw [View.setSlot_self] at hin
      rcases hissued with ⟨-, rfl⟩ | ⟨-, ⟨t, n, rfl⟩ | ⟨task, rfl⟩⟩ <;> exact hin
    · rwa [View.setSlot_of_ne _ _ heq] at hin
  read := fun v r h => ⟨h.owner, h.taken, h.listed, h.few⟩

/-- A participant in recovery while no worker is in a round. -/
theorem inRecovery_lasting :
    Lasting K pnum .recovery fun v => Asking .recovery ch [] v ∧ v.pstate id = .P_RECOVERY := by
  intro t' v v' hne hv hv' hG h
  refine ⟨asking_lasting t' v v' hne hv hv' hG h.1, ?_⟩
  have hwait := h.1.waiting_eq_false .recovery id
  exact hG.stays_recovery hne ((hv.fits .recovery id).ok.rest hwait).2.1 h.2

end Lasts

section Loops

variable {ν : Type} {N : Link ν} {K : Contract N} {pnum : Nat} {v : View ν} {ch : Chan} {id : Nat}
  {ids : List Nat} {S : Nat → Prop} {rounds : Nat}

/-! ## Taking the participants into recovery -/

theorem spec_clearMaxTxid :
    Does K pnum .recovery (fun v => ∀ m, v.owner m ≠ some .recovery) (call (updateMem clearMaxTxid))
      fun _ v => (∀ m, v.owner m ≠ some .recovery) ∧ Cleared v := by
  have hlasting : Lasting K pnum .recovery fun v => ∀ m, v.owner m ≠ some .recovery :=
    fun t' v v' hne hv hv' hG h m => notOwner_lasting m t' v v' hne hv hv' hG (h m)
  apply Does.updateMem hlasting
  intro s hs h
  -- without the mutex nobody waits for `pRecovery`, and the table is this thread's
  have hwait : ∀ id, (s.view.slot .recovery id).book.waiting = false :=
    hs.not_waiting_recovery (h .workingMutex)
  refine ⟨⟨?_, ?_⟩, h, h .workingMutex, fun _ => rfl⟩
  · have hrefl : Guar N pnum .recovery s.view s.view := Guar.refl .recovery s.view
    exact ⟨hrefl.owner, hrefl.state, hrefl.count, hrefl.release, fun id => .inr (.inr ⟨rfl, hwait id⟩),
      hrefl.slot, finished_of_slot rfl, hrefl.net⟩
  · refine ⟨fun ch id => ?_, hs.counted, hs.clean, hs.readings⟩
    have hfits := hs.fits ch id
    refine ⟨hfits.ok, hfits.issuer, ?_, hfits.told, hfits.busy, hfits.since, hfits.output⟩
    rintro rfl htask
    exact absurd (hfits.ok.rest (hwait id)).1 (Nat.pos_iff_ne_zero.mp htask)

/-- Moving a participant from state to state, while no worker is in a round. -/
theorem allowed_setPState {st : PState} (hv : Inv K pnum v) (hasking : Asking .recovery ch [] v)
    (howner : v.owner .recoveryMutex = some .recovery)
    (h : ((v.pstate id = .P_TEMP ∨ v.pstate id = .P_WORKING) ∧ st = .P_RECOVERY) ∨
      (v.pstate id = .P_RECOVERY ∧ st = .P_WORKING)) :
    Allowed K pnum .recovery v (v.setPState id st) := by
  have hquiet : Quiet v id := fun ch' => hasking.waiting_eq_false ch' id
  refine ⟨Guar.setPState ?_, hv.setPState (fun ch' => ?_) fun hnone => ?_⟩
  · rcases h with ⟨hfrom, hto⟩ | ⟨hfrom, hto⟩
    · exact .taken rfl howner hasking.owner hquiet hfrom hto
    · exact .recovered rfl howner hasking.owner hquiet hfrom hto
  · have hfits := hv.fits ch' id
    obtain ⟨htask, hin, hreply⟩ := hfits.ok.rest (hquiet ch')
    exact hfits.setPState_of_idle htask hreply (hfits.busy_eq_false hin) st
  · rw [howner] at hnone
    cases hnone

theorem Taking.setPState {st : PState} (h : Taking pnum (id :: ids) v) (hst : st ≠ .P_TEMP) :
    Taking pnum ids (v.setPState id st) := by
  refine ⟨⟨h.asking.owner, h.asking.waiting⟩, h.owner, h.empty, ?_⟩
  intro id' hid hnot
  by_cases heq : id' = id
  · rw [heq, show (v.setPState id st).pstate id = st from Function.update_self ..]
    exact hst
  · rw [show (v.setPState id st).pstate id' = v.pstate id' from Function.update_of_ne heq ..]
    exact h.taken id' hid fun hin => (List.mem_cons.mp hin).elim heq hnot

theorem Taking.next (h : Taking pnum (id :: ids) v) (hst : v.pstate id ≠ .P_TEMP) :
    Taking pnum ids v := by
  refine ⟨h.asking, h.owner, h.empty, ?_⟩
  intro id' hid hnot
  by_cases heq : id' = id
  · rw [heq]
    exact hst
  · exact h.taken id' hid fun hin => (List.mem_cons.mp hin).elim heq hnot

/-- While the thread holds both mutexes and no worker is in a round, no state changes. -/
theorem Guar.pstate_of_rest {t : Thread} {v' : View ν} (h : Guar N pnum t v v') (hv : Inv K pnum v)
    (hne : t ≠ .recovery) (howner : v.owner .recoveryMutex = some .recovery)
    (hasking : Asking .recovery ch [] v) (id : Nat) : v'.pstate id = v.pstate id := by
  rcases h.state id with heq | hchange
  · exact heq
  · cases hchange with
    | connected _ hother => exact absurd hother (owner_ne hne howner)
    | @lost ch' _ hin =>
      rw [((hv.fits ch' id).ok.rest (hasking.waiting_eq_false ch' id)).2.1] at hin
      cases hin
    | taken ht => exact absurd ht hne
    | recovered ht => exact absurd ht hne

/-- A state that was read is still the participant's. -/
theorem state_lasting (st : PState) :
    Lasting K pnum .recovery fun v => Taking pnum ids v ∧ v.pstate id = st := by
  intro t' v v' hne hv hv' hG h
  refine ⟨taking_lasting t' v v' hne hv hv' hG h.1, ?_⟩
  rw [hG.pstate_of_rest hv hne h.1.owner h.1.asking]
  exact h.2

theorem Taking.weaken (h : Taking pnum ids v) : Taking pnum (id :: ids) v :=
  ⟨h.asking, h.owner, h.empty, fun id' hid hnot =>
    h.taken id' hid fun hin => hnot (List.mem_cons_of_mem _ hin)⟩

/-- One participant is taken into recovery. -/
theorem spec_take_in {st : PState} (hst : st = .P_TEMP ∨ st = .P_WORKING) :
    Does K pnum .recovery (fun v => Taking pnum (id :: ids) v ∧ v.pstate id = st)
      (call (updateMem (setPState id .P_RECOVERY))) fun _ => Taking pnum ids := by
  apply Does.updateMem (state_lasting st)
  intro s hs h
  rw [view_setPState]
  refine ⟨allowed_setPState hs h.1.asking h.1.owner (.inl ⟨?_, rfl⟩), h.1.setPState (by decide)⟩
  rw [h.2]
  exact hst

theorem spec_putRecovery (ids : List Nat) :
    Does K pnum .recovery (Taking pnum ids) (putRecovery ids) fun _ => Taking pnum [] := by
  induction ids with
  | nil => exact Does.ret fun _ _ h => h
  | cons id ids ih =>
    refine Does.bind (Q := fun c v => Taking pnum (id :: ids) v ∧ v.pstate id = (c.p id).pstate)
      (Does.readMem taking_lasting fun _ _ h => ⟨h, rfl⟩) fun c => Does.ite (fun htemp => ?_)
        fun htemp => ?_
    · -- in `P_TEMP`, else in `P_WORKING`, else left as it is
      exact Does.bind (spec_take_in (.inl htemp)) fun _ => ih
    · refine Does.conseq (P := Taking pnum ids) ?_ ?_ fun _ _ _ h => h
      · refine Does.bind (Q := fun c v => Taking pnum ids v ∧ v.pstate id = (c.p id).pstate)
          (Does.readMem taking_lasting fun _ _ h => ⟨h, rfl⟩) fun c => Does.ite (fun hwork => ?_)
            fun _ => ?_
        · refine Does.bind ?_ fun _ => ih
          exact Does.conseq (spec_take_in (.inr hwork)) (fun _ _ h => ⟨h.1.weaken, h.2⟩)
            fun _ _ _ h => h
        · exact Does.conseq ih (fun _ _ h => h.1) fun _ _ _ h => h
      · intro v _ h
        apply h.1.next
        rw [h.2]
        exact htemp

/-! ## The table of the numbers -/

/-- The assertion of the loops below. -/
def Holds (pnum : Nat) (ch : Chan) (ids : List Nat) (S : Nat → Prop) (rounds : Nat) (v : View ν) :
    Prop :=
  Asking .recovery ch ids v ∧ Held pnum S rounds v

theorem holds_lasting : Lasting K pnum .recovery (Holds pnum ch ids S rounds) :=
  asking_lasting.and held_lasting

theorem Holds.channel {ch' : Chan} (h : Holds pnum ch [] S rounds v) :
    Holds pnum ch' [] S rounds v := by
  refine ⟨⟨h.1.owner, fun ch'' id => ?_⟩, h.2⟩
  rw [h.1.waiting_eq_false]
  exact ⟨fun hno => Bool.noConfusion hno, fun hin => absurd hin.2 List.not_mem_nil⟩

/-- The thread may change an entry while it does not wait for the participant's recovery worker. -/
theorem allowed_setEntry (hv : Inv K pnum v) (hwait : (v.slot .recovery id).book.waiting = false)
    (m : Option Nat) : Allowed K pnum .recovery v (v.setMaxTxid id m) :=
  ⟨Guar.setMaxTxid (.inr ⟨rfl, hwait⟩),
    hv.setMaxTxid ((hv.fits .recovery id).ok.rest hwait).1 m⟩

/-- A participant in recovery may have an entry. -/
theorem Held.setMaxTxid (h : Held pnum S rounds v) (hst : v.pstate id = .P_RECOVERY)
    (m : Option Nat) : Held pnum S rounds (v.setMaxTxid id m) := by
  refine ⟨h.owner, h.taken, ?_, h.few⟩
  intro id' hS hin hentry
  by_cases heq : id' = id
  · rw [heq]
    exact hst
  · rw [show (v.setMaxTxid id m).maxTxid id' = v.maxTxid id' from Function.update_of_ne heq ..] at hentry
    exact h.listed id' hS hin hentry

/-- A number that a participant has given is put into `maxTxidTB`. -/
theorem spec_putTxid {ok : Prop} (h : ok) (m : Nat) :
    Does K pnum .recovery (Reads .recovery .recovery id ids (Held pnum S rounds) ok)
      (call (updateMem (setMaxTxid id m)))
      fun _ => Reads .recovery .recovery id ids (Held pnum S rounds) ok := by
  apply Does.updateMem (reads_lasting held_frame ok)
  rintro s hs ⟨⟨⟨hasking, hheld⟩, hready⟩, hok⟩
  rw [setMaxTxid, view_setMaxTxid]
  exact ⟨allowed_setEntry hs hready.waiting _, ⟨⟨⟨hasking.owner, hasking.waiting⟩,
    hheld.setMaxTxid (hready.told rfl (hok h)) _⟩, hready.owner, hready.waiting, hready.asked,
    hready.told⟩, hok⟩

theorem spec_collectTxids (ids : List Nat) : ∀ consistance, ids.Nodup →
    Does K pnum .recovery (Holds pnum .recovery ids S rounds) (call (collectTxids ids consistance))
      fun _ => Holds pnum .recovery [] S rounds := by
  induction ids with
  | nil => exact fun consistance _ => Does.pure fun _ _ h => h
  | cons id ids ih =>
    intro consistance hnodup
    obtain ⟨hid, hrest⟩ := List.nodup_cons.mp hnodup
    have hframe : Frame K pnum .recovery (Held pnum S rounds) := held_frame
    have hrelease : ∀ ok, Does K pnum .recovery
        (Reads .recovery .recovery id ids (Held pnum S rounds) ok)
        (call (cRelease ⟨.recovery, .ret, id⟩)) fun _ => Holds pnum .recovery ids S rounds :=
      fun ok => Does.conseq (Does.cRelease (reads_lasting hframe ok)) (fun _ _ h => h)
        fun _ _ _ h => h.1.1
    rw [collectTxids, call_bind]
    refine Does.bind (Q := fun _ => Reads .recovery .recovery id ids (Held pnum S rounds) False) ?_
      fun _ => ?_
    · exact Does.conseq (spec_take hframe hid) (fun _ _ h => h) fun _ _ _ h => ⟨h, False.elim⟩
    rw [call_bind]
    refine Does.bind (spec_readReply hframe _) fun reply => ?_
    cases reply with
    | none =>
      rw [call_bind]
      exact Does.bind (hrelease _) fun _ => ih consistance hrest
    | some rc =>
      rw [call_bind]
      refine Does.bind (spec_putTxid rfl _) fun _ => ?_
      rw [call_bind]
      refine Does.bind (Does.readRest (reads_lasting hframe _)) fun c => ?_
      rw [call_bind]
      exact Does.bind (hrelease _) fun _ => ih _ hrest

/-! ## Handing records to the participants -/

theorem spec_hand (rc : Bytes) :
    Does K pnum .recovery (Holds pnum .recovery [] (fun _ => True) rounds)
      (call (postTask .recovery id rc >>= fun _ => skipReply .recovery id))
      fun _ => Holds pnum .recovery [] (fun _ => True) rounds := by
  have hframe : Frame K pnum .recovery (Held pnum (fun _ => True) rounds) := held_frame
  have hnil : id ∉ ([] : List Nat) := List.not_mem_nil
  rw [call_bind]
  refine Does.bind (spec_postTask hframe (.inl rfl) hnil ?_ rc) fun _ => spec_skipReply hframe hnil
  intro v hv hheld hwait _
  exact hheld.listed id trivial ((hv.fits .recovery id).ok.rest hwait).2.1

theorem spec_relay (rc : Bytes) (ids : List Nat) :
    Does K pnum .recovery (Holds pnum .recovery [] (fun _ => True) rounds) (call (relay rc ids))
      fun _ => Holds pnum .recovery [] (fun _ => True) rounds := by
  induction ids with
  | nil => exact Does.pure fun _ _ h => h
  | cons id ids ih =>
    rw [show relay rc (id :: ids) = ((postTask .recovery id rc >>= fun _ => skipReply .recovery id) >>=
      fun _ => relay rc ids) from (Prog.bind_assoc _ _ _).symm, call_bind]
    exact Does.bind (spec_hand rc) fun _ => ih

theorem spec_pushLog (tid : Nat) (ids : List Nat) :
    Does K pnum .recovery (Holds pnum .recovery [] (fun _ => True) rounds) (call (pushLog tid ids))
      fun _ => Holds pnum .recovery [] (fun _ => True) rounds := by
  induction ids with
  | nil => exact Does.pure fun _ _ h => h
  | cons id ids ih =>
    rw [pushLog, call_bind]
    refine Does.bind (Does.readRest holds_lasting) fun c => ?_
    rw [call_bind]
    refine Does.bind (Does.ofOption _) fun l => ?_
    rw [← Prog.bind_assoc, call_bind]
    exact Does.bind (spec_hand _) fun _ => ih

theorem spec_pushLogs (tids : List Nat) :
    Does K pnum .recovery (Holds pnum .recovery [] (fun _ => True) rounds) (call (pushLogs pnum tids))
      fun _ => Holds pnum .recovery [] (fun _ => True) rounds := by
  induction tids with
  | nil => exact Does.pure fun _ _ h => h
  | cons tid tids ih =>
    rw [pushLogs, call_bind]
    exact Does.bind (spec_pushLog tid (pids pnum)) fun _ => ih

theorem spec_recoveryFromC :
    Does K pnum .recovery (Holds pnum .recovery [] (fun _ => True) rounds) (call (recoveryFromC pnum))
      fun _ => Holds pnum .recovery [] (fun _ => True) rounds := by
  rw [recoveryFromC, call_bind]
  exact Does.bind (Does.readRest holds_lasting) fun c => spec_pushLogs _

/-! ## Leaders -/

theorem view_storeLog (l : Log) (s : Shared ν) :
    ({ s with c := storeLog l s.c } : Shared ν).view = s.view := by
  rw [storeLog]
  split <;> rfl

theorem spec_pull (leader count : Nat) : ∀ minID,
    Does K pnum .recovery (Holds pnum .recovery [] (fun _ => True) rounds)
      (call (pull pnum leader count minID))
      fun _ => Holds pnum .recovery [] (fun _ => True) rounds := by
  have hframe : Frame K pnum .recovery (Held pnum (fun _ => True) rounds) := held_frame
  have hnil : leader ∉ ([] : List Nat) := List.not_mem_nil
  have hlisted : ∀ v, Inv K pnum v → Held pnum (fun _ => True) rounds v →
      (v.slot .working leader).book.waiting = false → Chan.working = .recovery → Listed v leader :=
    fun _ _ _ _ hno => Chan.noConfusion hno
  induction count with
  | zero => exact fun minID => Does.pure fun _ _ h => h
  | succ count ih =>
    intro minID
    rw [pull, call_bind]
    -- the leader is at work again and answers through `pWorking`
    refine Does.bind (Q := fun _ => Holds pnum .working [leader] (fun _ => True) rounds) ?_ fun _ => ?_
    · exact Does.conseq (spec_postTask hframe (.inl rfl) hnil hlisted _)
        (fun _ _ h => h.channel) fun _ _ _ h => h
    rw [call_bind]
    refine Does.bind (Q := fun _ => Holds pnum .recovery [] (fun _ => True) rounds) ?_ fun reply => ?_
    · exact Does.conseq (spec_takeReply hframe hnil _) (fun _ _ h => h)
        fun _ _ _ h => Holds.channel h
    cases reply with
    | none => exact Does.pure fun _ _ h => h
    | some rc =>
      rw [call_bind]
      refine Does.bind (Does.ofOption _) fun tempLog => ?_
      rw [call_bind]
      refine Does.bind (Does.updateRest holds_lasting (view_storeLog tempLog)) fun _ => ?_
      rw [call_bind]
      exact Does.bind (spec_relay rc (pids pnum)) fun _ => ih _

theorem recoveries_setPState (hid : id ∈ pids pnum) (h : v.pstate id = .P_RECOVERY) :
    recoveries pnum v = recoveries pnum (v.setPState id .P_WORKING) + 1 := by
  apply countP_change (nodup_pids pnum) hid
  · intro i _ hne
    rw [show (v.setPState id .P_WORKING).pstate i = v.pstate i from Function.update_of_ne hne ..]
  · simp [h]
  · simp [View.setPState]

/-- A participant that goes to work may keep its entry if nobody asks its recovery worker. -/
theorem Held.setWorking (h : Held pnum S rounds v) {S' : Nat → Prop}
    (hS : ∀ id', S' id' → S id' ∧ id' ≠ id) {rounds' : Nat}
    (hfew : recoveries pnum (v.setPState id .P_WORKING) < rounds') :
    Held pnum S' rounds' (v.setPState id .P_WORKING) := by
  refine ⟨h.owner, ?_, ?_, hfew⟩
  · intro id' hid
    by_cases heq : id' = id
    · rw [heq, show (v.setPState id .P_WORKING).pstate id = .P_WORKING from Function.update_self ..]
      decide
    · rw [show (v.setPState id .P_WORKING).pstate id' = v.pstate id' from
        Function.update_of_ne heq ..]
      exact h.taken id' hid
  · intro id' hS' hin hentry
    obtain ⟨hold, hne⟩ := hS id' hS'
    rw [show (v.setPState id .P_WORKING).pstate id' = v.pstate id' from Function.update_of_ne hne ..]
    exact h.listed id' hold hin hentry

/-- A participant with an entry that the thread has read. -/
theorem held_inRecovery_lasting : Lasting K pnum .recovery
    fun v => Holds pnum .recovery [] S rounds v ∧ v.pstate id = .P_RECOVERY := by
  intro t' v v' hne hv hv' hG h
  exact ⟨holds_lasting t' v v' hne hv hv' hG h.1,
    (inRecovery_lasting t' v v' hne hv hv' hG ⟨h.1.1, h.2⟩).2⟩

theorem Holds.inRecovery (h : Holds pnum ch [] S rounds v) (hv : Inv K pnum v) (hS : S id)
    (hentry : v.maxTxid id ≠ none) : v.pstate id = .P_RECOVERY :=
  have hin := ((hv.fits .recovery id).ok.rest (h.1.waiting_eq_false .recovery id)).2.1
  h.2.listed id hS hin hentry

/-- The leader goes to work, and leaves `maxTxidTB`. -/
theorem spec_promoteLeader (hid : id ∈ pids pnum) :
    Does K pnum .recovery
      (fun v => Holds pnum .recovery [] (fun _ => True) (rounds + 1) v ∧ v.pstate id = .P_RECOVERY)
      (call (updateMem (setPState id .P_WORKING)) >>= fun _ =>
        call (updateMem (eraseMaxTxid id)))
      fun _ => Holds pnum .recovery [] (fun _ => True) rounds := by
  refine Does.bind (Q := fun _ => Holds pnum .recovery [] (· ≠ id) rounds) ?_ fun _ => ?_
  · apply Does.updateMem held_inRecovery_lasting
    rintro s hs ⟨⟨hasking, hheld⟩, hst⟩
    -- one participant less is in recovery
    have hfew := hheld.few
    rw [recoveries_setPState hid hst] at hfew
    rw [view_setPState]
    exact ⟨allowed_setPState hs hasking hheld.owner (.inr ⟨hst, rfl⟩),
      ⟨hasking.owner, hasking.waiting⟩,
      hheld.setWorking (fun id' hne => ⟨trivial, hne⟩) (Nat.lt_of_succ_lt_succ hfew)⟩
  · apply Does.updateMem holds_lasting
    rintro s hs ⟨hasking, hheld⟩
    rw [eraseMaxTxid, view_setMaxTxid]
    refine ⟨allowed_setEntry hs (hasking.waiting_eq_false _ id) none,
      ⟨hasking.owner, hasking.waiting⟩, hheld.owner, hheld.taken, ?_, hheld.few⟩
    -- without its entry the leader satisfies the condition on entries again
    intro id' _ hin hentry
    by_cases heq : id' = id
    · rw [heq, show (s.view.setMaxTxid id none).maxTxid id = none from Function.update_self ..] at hentry
      exact absurd rfl hentry
    · rw [show (s.view.setMaxTxid id none).maxTxid id' = s.view.maxTxid id' from
        Function.update_of_ne heq ..] at hentry
      exact hheld.listed id' heq hin hentry

theorem Held.all (h : Held pnum S rounds v) : Held pnum S (pnum + 1) v := by
  refine ⟨h.owner, h.taken, h.listed, ?_⟩
  have hle : recoveries pnum v ≤ (pids pnum).length := List.countP_le_length
  rw [length_pids] at hle
  exact Nat.lt_succ_of_le hle

/-- The induction is on the rounds that are left: each leader is one less in recovery. -/
theorem spec_recoveryFromP (rounds : Nat) : ∀ minID,
    Does K pnum .recovery (Holds pnum .recovery [] (fun _ => True) rounds)
      (recoveryFromP pnum rounds minID)
      fun _ => Holds pnum .recovery [] (fun _ => True) (pnum + 1) := by
  induction rounds with
  -- there are always fewer participants in recovery than rounds left
  | zero => exact fun minID => Does.of_imp (fun v _ h => Nat.not_lt_zero _ h.2.few) False.elim
  | succ rounds ih =>
    intro minID
    rw [recoveryFromP]
    refine Does.bind (Q := fun c v => Holds pnum .recovery [] (fun _ => True) (rounds + 1) v ∧
      ((getRecoveryLeader c (pids pnum)).1 ≠ 0 →
        (getRecoveryLeader c (pids pnum)).1 ∈ pids pnum ∧
          v.pstate (getRecoveryLeader c (pids pnum)).1 = .P_RECOVERY))
      (Does.readMem holds_lasting fun s hs h => ⟨h, ?_⟩) fun c => ?_
    · -- The leader has an entry, and so it is in recovery.
      intro hne
      rcases getRecoveryLeader_spec (c := s.c) (zero_notMem_pids pnum) with ⟨h0, -⟩ | ⟨-, hid, hm, -⟩
      · exact absurd h0 hne
      · refine ⟨hid, h.inRecovery hs trivial ?_⟩
        rw [show s.view.maxTxid _ = _ from hm]
        exact Option.some_ne_none _
    · show Does K pnum .recovery _ (if (getRecoveryLeader c (pids pnum)).1 = 0 then _ else _) _
      refine Does.ite (fun _ => ?_) fun hne => ?_
      · exact Does.conseq spec_recoveryFromC (fun _ _ h => h.1) fun _ _ _ h => ⟨h.1, h.2.all⟩
      · refine Does.of_imp (fun v _ h => (h.2 hne).1) fun hid => ?_
        refine Does.conseq (P := fun v => Holds pnum .recovery [] (fun _ => True) (rounds + 1) v ∧
          v.pstate (getRecoveryLeader c (pids pnum)).1 = .P_RECOVERY) ?_
          (fun _ _ h => ⟨h.1, (h.2 hne).2⟩) fun _ _ _ h => h
        rw [← Prog.bind_assoc]
        refine Does.bind (spec_promoteLeader hid) fun _ => ?_
        exact Does.bind (spec_pull _ _ _) fun minID => ih minID

/-! ## The end of the round -/

/-- The participants that hold the coordinator's log go to work. -/
theorem spec_promote (ids : List Nat) : ids.Nodup →
    Does K pnum .recovery (Holds pnum .recovery [] (· ∈ ids) (pnum + 1)) (promote ids)
      fun _ => Holds pnum .recovery [] (· ∈ []) (pnum + 1) := by
  induction ids with
  | nil => exact fun _ => Does.ret fun _ _ h => h
  | cons id ids ih =>
    intro hnodup
    obtain ⟨hid, hrest⟩ := List.nodup_cons.mp hnodup
    have hnext : ∀ id' ∈ ids, id' ∈ id :: ids ∧ id' ≠ id := by
      rintro id' hin
      refine ⟨List.mem_cons_of_mem _ hin, ?_⟩
      rintro rfl
      exact hid hin
    refine Does.bind (Q := fun c v => Holds pnum .recovery [] (· ∈ id :: ids) (pnum + 1) v ∧
      ((c.p id).maxTxid = some (c.TXID - 1) → v.pstate id = .P_RECOVERY))
      (Does.readMem holds_lasting fun s hs h => ⟨h, ?_⟩) fun c => Does.ite (fun hm => ?_) fun _ => ?_
    · -- one with an entry is in recovery
      intro hm
      apply h.inRecovery hs List.mem_cons_self
      rw [show s.view.maxTxid id = _ from hm]
      exact Option.some_ne_none _
    · refine Does.bind (Q := fun _ => Holds pnum .recovery [] (· ∈ ids) (pnum + 1)) ?_ fun _ => ih hrest
      refine Does.conseq (P := fun v => Holds pnum .recovery [] (· ∈ id :: ids) (pnum + 1) v ∧
        v.pstate id = .P_RECOVERY) ?_ (fun _ _ h => ⟨h.1, h.2 hm⟩) fun _ _ _ h => h
      apply Does.updateMem held_inRecovery_lasting
      rintro s hs ⟨⟨hasking, hheld⟩, hst⟩
      rw [view_setPState]
      have hall : Held pnum (· ∈ ids) (recoveries pnum (s.view.setPState id .P_WORKING) + 1)
          (s.view.setPState id .P_WORKING) := hheld.setWorking hnext (Nat.lt_succ_self _)
      exact ⟨allowed_setPState hs hasking hheld.owner (.inr ⟨hst, rfl⟩),
        ⟨hasking.owner, hasking.waiting⟩, hall.all⟩
    · refine Does.conseq (ih hrest) (fun v _ h => ?_) fun _ _ _ h => h
      exact ⟨h.1.1, h.1.2.owner, h.1.2.taken,
        fun id' hin => h.1.2.listed id' (List.mem_cons_of_mem _ hin), h.1.2.few⟩

/-- What the thread knows at the end of `Recovery`, while it still holds `_recoveryMutex`. -/
structure Counted (pnum : Nat) (v : View ν) : Prop where
  owner : v.owner .recoveryMutex = some .recovery
  taken : ∀ id ∈ pids pnum, v.pstate id ≠ .P_TEMP
  none_left : v.tmpNum = 0

theorem counted_lasting : Lasting K pnum .recovery (Counted (ν := ν) pnum) := by
  intro t' v v' hne _ _ hG h
  refine ⟨hG.owned hne h.owner, ?_, ?_⟩
  · intro id hid htemp
    exact h.taken id hid ((hG.temp_iff hne h.owner id).mp htemp)
  · rw [hG.tmpNum hne h.owner]
    exact h.none_left

theorem Counted.tmpNum_eq (h : Counted pnum v) : v.tmpNum = temps pnum v := by
  rw [h.none_left, temps, eq_comm, List.countP_eq_zero]
  intro id hid
  simpa using h.taken id hid

/-- The counter is reset when no participant is left in the state `P_TEMP`. -/
theorem spec_resetTmpNum :
    Does K pnum .recovery (Holds pnum .recovery [] S rounds) (call (updateMem (setTmpNum 0)))
      fun _ v => Asking .recovery .recovery [] v ∧ Counted pnum v := by
  apply Does.updateMem holds_lasting
  rintro s hs ⟨hasking, hheld⟩
  refine ⟨⟨Guar.setTmpNum hheld.owner (.inr hheld.taken), hs.setTmpNum hheld.owner 0⟩,
    ⟨hasking.owner, hasking.waiting⟩, hheld.owner, hheld.taken, rfl⟩

theorem spec_recover (minID : Nat) :
    Does K pnum .recovery (Taking pnum (pids pnum)) (recover pnum minID)
      fun _ v => Asking .recovery .recovery [] v ∧ Counted pnum v := by
  have hframe : Frame K pnum .recovery (Held pnum (fun _ => True) (pnum + 1)) := held_frame
  have hend : Does K pnum .recovery (Holds pnum .recovery [] (fun _ => True) (pnum + 1))
      (promote (pids pnum) >>= fun _ => call (updateMem (setTmpNum 0)))
      fun _ v => Asking .recovery .recovery [] v ∧ Counted pnum v := by
    refine Does.bind (Q := fun _ => Holds pnum .recovery [] (· ∈ []) (pnum + 1)) ?_ fun _ =>
      spec_resetTmpNum
    refine Does.conseq (spec_promote (pids pnum) (nodup_pids pnum)) ?_ fun _ _ _ h => h
    exact fun _ _ h => ⟨h.1, h.2.owner, h.2.taken, fun id _ => h.2.listed id trivial, h.2.few⟩
  rw [recover]
  refine Does.bind (spec_putRecovery (pids pnum)) fun _ => ?_
  refine Does.bind (Q := fun _ => Holds pnum .recovery (pids pnum) (fun _ => True) (pnum + 1)) ?_
    fun _ => ?_
  · refine Does.conseq (spec_postTasks hframe (.inl rfl) ?_ _ (pids pnum) [] (nodup_pids pnum)) ?_
      fun _ _ _ h => h
    · intro v id hv hheld hwait _
      exact hheld.listed id trivial ((hv.fits .recovery id).ok.rest hwait).2.1
    · intro v _ h
      have hheld : Held pnum (fun _ => True) (recoveries pnum v + 1) v :=
        ⟨h.owner, fun id hid => h.taken id hid List.not_mem_nil,
          fun id _ _ hentry => absurd (h.empty id) hentry, Nat.lt_succ_self _⟩
      exact ⟨h.asking, hheld.all⟩
  refine Does.bind (spec_collectTxids (pids pnum) true (nodup_pids pnum)) fun consistance => ?_
  -- logs of different lengths are brought to one length first
  refine Does.ite (fun _ => ?_) fun _ => hend
  refine Does.bind (Does.readRest holds_lasting) fun c => ?_
  exact Does.bind (spec_recoveryFromP (pnum + 1) _) fun _ => hend

theorem setOwner_recoveryMutex (v : View ν) (o : Option Thread) :
    (v.setOwner .recoveryMutex o).owner .workingMutex = v.owner .workingMutex :=
  View.setOwner_of_ne v o (by decide)

theorem setOwner_workingMutex (v : View ν) (o : Option Thread) :
    (v.setOwner .workingMutex o).owner .recoveryMutex = v.owner .recoveryMutex :=
  View.setOwner_of_ne v o (by decide)

/-- One round of the recovery thread. -/
theorem spec_Recovery : Does K pnum .recovery (fun v => ∀ m, v.owner m ≠ some .recovery)
    (Recovery pnum) fun _ v => ∀ m, v.owner m ≠ some .recovery := by
  have hfree : Lasting K pnum .recovery fun v => ∀ m, v.owner m ≠ some .recovery :=
    fun t' v v' hne hv hv' hG h m => notOwner_lasting m t' v v' hne hv hv' hG (h m)
  have hcleared : Lasting K pnum .recovery
      fun v => (∀ m, v.owner m ≠ some .recovery) ∧ Cleared v := hfree.and cleared_lasting
  refine Does.bind (Does.readRest hfree) fun c => ?_
  refine Does.bind spec_clearMaxTxid fun _ => ?_
  refine Does.bind (Does.quiet (a := .awaitTmp) hcleared fun s _ s' hstep => by
    rw [show s' = s from hstep.2]) fun _ => ?_
  refine Does.bind (Does.updateRest hcleared fun _ => rfl) fun _ => ?_
  refine Does.bind (Q := fun _ v => v.owner .recoveryMutex = some .recovery ∧ Cleared v) ?_ fun _ => ?_
  · apply Does.act (a := .lock .recoveryMutex) hcleared
    rintro s - s' hs ⟨hnot, hclear⟩ ⟨hnone, rfl⟩
    refine ⟨⟨Guar.lock hnone, hs.setOwner (fun heq => absurd heq (by decide)) fun _ heq => ?_⟩,
      View.setOwner_self s.view .., (setOwner_recoveryMutex s.view _).trans_ne hclear.free,
      hclear.empty⟩
    cases heq
  refine Does.bind (Q := fun _ => Taking pnum (pids pnum)) ?_ fun _ => ?_
  · -- with both mutexes the thread may hand tasks to all workers
    apply Does.act (a := .lock .workingMutex) ((owner_lasting _).and cleared_lasting)
    rintro s - s' hs ⟨howner, hclear⟩ ⟨hnone, rfl⟩
    obtain ⟨hallowed, hasking⟩ := allowed_lock_working hs hnone
    exact ⟨hallowed, hasking, (setOwner_workingMutex s.view _).trans howner, hclear.empty,
      fun id hid hnot => absurd hid hnot⟩
  refine Does.bind (spec_recover _) fun _ => ?_
  refine Does.bind (Q := fun _ v => v.owner .workingMutex ≠ some .recovery ∧ Counted pnum v) ?_
    fun _ => ?_
  · -- no reply is outstanding, and nobody is left in `P_TEMP`
    apply Does.act (a := .unlock .workingMutex) (asking_lasting.and counted_lasting)
    rintro s - s' hs ⟨hasking, hcounted⟩ rfl
    exact ⟨allowed_unlock_working hs hasking, notOwner_setOwner s.view .workingMutex .recovery,
      (setOwner_workingMutex s.view none).trans hcounted.owner, hcounted.taken, hcounted.none_left⟩
  refine Does.bind (Q := fun _ v => ∀ m, v.owner m ≠ some .recovery) ?_ fun _ =>
    Does.updateRest hfree fun _ => rfl
  apply Does.act (a := .unlock .recoveryMutex) ((notOwner_lasting _).and counted_lasting)
  rintro s - s' hs ⟨hnot, hcounted⟩ rfl
  refine ⟨⟨Guar.unlock hcounted.owner fun _ _ => hcounted.taken,
    hs.setOwner (fun heq => absurd heq (by decide)) fun _ _ => hcounted.tmpNum_eq⟩, ?_⟩
  intro m
  cases m with
  | recoveryMutex => exact notOwner_setOwner s.view .recoveryMutex .recovery
  | workingMutex => exact (setOwner_recoveryMutex s.view none).trans_ne hnot

end Loops

end CloudLabs.KvStore.Threads
