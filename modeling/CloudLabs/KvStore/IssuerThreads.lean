import CloudLabs.KvStore.WorkerThreads

/-!
# The rounds of `keepAlive` and of the working thread

`keepAlive` counts each participant it connects under `_recoveryMutex`. The working thread and the
recovery thread post tasks and take replies under `_workingMutex`, so that `Asking` knows all
workers that they wait for. What the two do with a worker is specified here once for both, with a
`Frame` for what else the thread knows; the commands of the working thread are made of it.
-/

set_option autoImplicit false

namespace CloudLabs.KvStore.Threads

open CloudLabs.Foundation
open Function (update)

/-! ## Counting participants -/

/-- A count over different elements, after a change at one of them. -/
theorem countP_change {p q : Nat → Bool} {ids : List Nat} {id : Nat} (hnodup : ids.Nodup)
    (hid : id ∈ ids) (hrest : ∀ i ∈ ids, i ≠ id → p i = q i) (hp : p id = true)
    (hq : q id = false) : ids.countP p = ids.countP q + 1 := by
  obtain ⟨l₁, l₂, rfl⟩ := List.append_of_mem hid
  have hnot : ∀ i ∈ l₁ ++ l₂, i ≠ id := by
    rintro i hi rfl
    have hperm : List.Perm (l₁ ++ i :: l₂) (i :: (l₁ ++ l₂)) := List.perm_middle
    exact (List.nodup_cons.mp (hperm.nodup_iff.mp hnodup)).1 hi
  -- all other elements are counted alike
  have hsame : ∀ l : List Nat, (∀ i ∈ l, i ∈ l₁ ++ l₂) → l.countP p = l.countP q := by
    intro l hl
    apply List.countP_congr
    intro i hi
    have hin : i ∈ l₁ ++ id :: l₂ := by
      rcases List.mem_append.mp (hl i hi) with h | h
      · exact List.mem_append_left _ h
      · exact List.mem_append_right _ (List.mem_cons_of_mem _ h)
    rw [hrest i hin (hnot i (hl i hi))]
  rw [List.countP_append, List.countP_append, List.countP_cons_of_pos hp,
    List.countP_cons_of_neg (by simp [hq]), hsame l₁ fun i hi => List.mem_append_left _ hi,
    hsame l₂ fun i hi => List.mem_append_right _ hi]
  omega

section KeepAlive

variable {ν : Type} {N : Link ν} {K : Contract N} {pnum id : Nat} {v : View ν}

/-! ## Connecting -/

theorem temps_setPState (hid : id ∈ pids pnum) (h : v.pstate id = .P_WAITING) :
    temps pnum (v.setPState id .P_TEMP) = temps pnum v + 1 := by
  apply countP_change (nodup_pids pnum) hid
  · intro i _ hne
    rw [show (v.setPState id .P_TEMP).pstate i = v.pstate i from Function.update_of_ne hne ..]
  · simp [View.setPState]
  · simp [h]

/-- The thread `keepAlive` holds `_recoveryMutex`, and `_tmpNum` lacks `missing`. -/
def Counting (t : Thread) (pnum missing : Nat) (v : View ν) : Prop :=
  v.owner .recoveryMutex = some t ∧ v.tmpNum + missing = temps pnum v

theorem counting_lasting (t : Thread) (missing : Nat) :
    Lasting K pnum t (Counting t pnum missing) := by
  intro t' v v' hne _ _ hG h
  refine ⟨hG.owned hne h.1, ?_⟩
  rw [hG.tmpNum hne h.1, hG.temps hne h.1]
  exact h.2

theorem waiting_lasting : Lasting K pnum (.keepAlive id) fun v => v.pstate id = .P_WAITING :=
  fun _ _ _ hne _ _ hG h => hG.stays_waiting hne h

/-- One round of `keepAlive`. -/
theorem spec_keepAlive (hid : id ∈ pids pnum) :
    Does K pnum (.keepAlive id) (fun _ => True) (keepAlive id) fun _ _ => True := by
  refine Does.bind (Q := fun c v => (c.p id).pstate = .P_WAITING → v.pstate id = .P_WAITING)
    (Does.readMem Lasting.true fun s _ _ h => h) fun c => Does.ite ?_ ?_
  · -- a participant that does not wait is left alone
    exact fun _ => Does.ret fun _ _ _ => trivial
  · intro hst
    refine Does.conseq (P := fun v => v.pstate id = .P_WAITING) ?_
      (fun v _ h => h (not_not.mp hst)) fun _ _ _ h => h
    refine Does.bind (Q := fun _ v => v.pstate id = .P_WAITING) ?_ fun _ => ?_
    · -- the connection is free, as nobody else uses it while the state is `P_WAITING`
      apply Does.act (a := .reconnect id) waiting_lasting
      rintro s - s' hs h ⟨n, hrec, rfl⟩
      have hchanges : N.Changes (s.net id) n := .inl hrec
      exact ⟨⟨Guar.setNet hchanges (.inr ⟨rfl, h⟩), hs.setNet hchanges fun hfree =>
        K.reconnect hrec (hs.clean id hfree)⟩, h⟩
    refine Does.bind (Q := fun _ v => v.pstate id = .P_WAITING ∧
      Counting (.keepAlive id) pnum 0 v) ?_ fun _ => ?_
    · apply Does.act (a := .lock .recoveryMutex) waiting_lasting
      rintro s - s' hs h ⟨hfree, rfl⟩
      refine ⟨⟨Guar.lock hfree, hs.setOwner (fun heq => absurd heq (by decide)) fun _ heq => ?_⟩,
        h, View.setOwner_self s.view .., hs.counted hfree⟩
      cases heq
    refine Does.bind (Q := fun _ => Counting (.keepAlive id) pnum 1) ?_ fun _ => ?_
    · -- `P_TEMP` and then `tmpNum`, which is one too small in between
      apply Does.updateMem (waiting_lasting.and (counting_lasting _ 0))
      intro s hs h
      have hwait : s.view.pstate id = .P_WAITING := h.1
      rw [view_setPState]
      refine ⟨⟨Guar.setPState (.connected rfl h.2.1 hwait rfl), hs.setPState ?_ ?_⟩, h.2.1, ?_⟩
      · intro ch
        apply (hs.fits ch id).setPState_of_ne
        rw [hwait]
        cases ch <;> decide
      · intro hnone
        rw [h.2.1] at hnone
        cases hnone
      · rw [temps_setPState hid hwait, ← h.2.2]
        rfl
    refine Does.bind (Q := fun _ => Counting (.keepAlive id) pnum 0) ?_ fun _ => ?_
    · apply Does.updateMem (counting_lasting _ 1)
      intro s hs h
      exact ⟨⟨Guar.setTmpNum h.1 (.inl rfl), hs.setTmpNum h.1 _⟩, h.1, h.2⟩
    · apply Does.act (a := .unlock .recoveryMutex) (counting_lasting _ 0)
      rintro s - s' hs h rfl
      refine ⟨⟨Guar.unlock h.1 fun ht => ?_, hs.setOwner (fun heq => absurd heq (by decide))
        fun _ _ => h.2⟩, trivial⟩
      cases ht

/-- What happens outside of the coordinator. -/
theorem spec_outside : Does K pnum .outside (fun _ => True) (act .move) fun _ _ => True := by
  apply Does.act (a := .move) Lasting.true
  rintro s - s' hs - ⟨id, n, hmove, rfl⟩
  have hchanges : N.Changes (s.net id) n := .inr (.inr (.inr (.inr hmove)))
  exact ⟨⟨Guar.setNet hchanges (.inl hmove), hs.setNet hchanges fun hfree =>
    K.moveClean hmove (hs.clean id hfree)⟩, trivial⟩

end KeepAlive

section Issuing

variable {ν : Type} {N : Link ν} (K : Contract N) (pnum : Nat) (t : Thread)

/-! ## Posting tasks and taking replies -/

/-- The thread holds `_workingMutex`, and it waits for the workers of `ids` and no others. -/
structure Asking (ch : Chan) (ids : List Nat) (v : View ν) : Prop where
  owner : v.owner .workingMutex = some t
  waiting : ∀ ch' id, (v.slot ch' id).book.waiting = true ↔ ch' = ch ∧ id ∈ ids

/-- The reply of a worker has been taken and may be read. -/
structure Ready (ch : Chan) (id : Nat) (v : View ν) : Prop where
  owner : v.owner .workingMutex = some t
  waiting : (v.slot ch id).book.waiting = false
  asked : ∃ q, (v.slot ch id).book.asked.getLast? = some q ∧ q.poster = t
  told : ch = .recovery → (v.slot ch id).buf.ret = KV_OK → v.pstate id = .P_RECOVERY

/-- An assertion that posting tasks and reading replies do not touch. -/
structure Frame (F : View ν → Prop) : Prop where
  lasting : Lasting K pnum t F
  slot : ∀ v ch id x, (v.slot ch id).Issued x → F v → F (v.setSlot ch id x)
  read : ∀ v r, F v → F (View.read v r)

variable {K pnum t} {ch : Chan} {id : Nat} {ids : List Nat} {v : View ν} {F : View ν → Prop}

theorem Frame.true : Frame K pnum t fun _ => True :=
  ⟨Lasting.true, fun _ _ _ _ _ _ => trivial, fun _ _ _ => trivial⟩

theorem asking_lasting : Lasting K pnum t (Asking t ch ids) := by
  intro t' v v' hne _ _ hG h
  refine ⟨hG.owned hne h.owner, ?_⟩
  intro ch' id
  rw [hG.waiting hne h.owner]
  exact h.waiting ch' id

theorem ready_lasting : Lasting K pnum t (Ready t ch id) := by
  intro t' v v' hne hv _ hG h
  have hslot := hG.slot_of_rest hv hne h.owner h.waiting
  refine ⟨hG.owned hne h.owner, ?_, ?_, ?_⟩
  · rw [hslot]
    exact h.waiting
  · rw [hslot]
    exact h.asked
  · rintro rfl hret
    rw [hslot] at hret
    have hst := h.told rfl hret
    rcases hG.state id with heq | hchange
    · rw [heq, hst]
    · cases hchange with
      | connected _ _ hfrom =>
        rw [hst] at hfrom
        cases hfrom
      | @lost ch' _ hin hfrom =>
        -- The worker of a participant in recovery is the one that has replied.
        rw [hst] at hfrom
        have hch : Chan.recovery = ch' := stateFor_injective hfrom
        rw [← hch] at hin
        rw [((hv.fits .recovery id).ok.rest h.waiting).2.1] at hin
        cases hin
      | taken _ _ howner => exact absurd howner (owner_ne hne h.owner)
      | recovered _ _ howner => exact absurd howner (owner_ne hne h.owner)

theorem Asking.not_waiting (h : Asking t ch ids v) (hid : id ∉ ids) :
    (v.slot ch id).book.waiting = false := by
  cases hwait : (v.slot ch id).book.waiting with
  | false => rfl
  | true => exact absurd ((h.waiting ch id).mp hwait).2 hid

/-- A step of an issuing thread on a slot. -/
theorem allowed_issued {x : Slot ν} (hv : Inv K pnum v) (howner : v.owner .workingMutex = some t)
    (hissued : (v.slot ch id).Issued x) (hx : Fits K v ch id x)
    (hround : x.book.inRound = (v.slot ch id).book.inRound)
    (hbusy : x.book.busy = (v.slot ch id).book.busy)
    (hread : ∀ r : Reading, r.Valid (v.slot ch id).book → r.Valid x.book) :
    Allowed K pnum t v (v.setSlot ch id x) := by
  constructor
  · apply Guar.setSlot (.inl ⟨howner, hissued⟩)
    intro _ hin hnot
    rw [hround, hin] at hnot
    cases hnot
  · exact hv.setSlot hx hbusy hread

theorem spec_setTask (hF : Frame K pnum t F) (hid : id ∉ ids) (task : Bytes) :
    Does K pnum t (fun v => Asking t ch ids v ∧ F v) (call (setTask ch id task))
      fun _ v => Asking t ch ids v ∧ F v := by
  apply Does.act (a := .mem (.setTask ch id task)) (asking_lasting.and hF.lasting)
  rintro s - s' hs ⟨hasking, hframe⟩ rfl
  have hwait := hasking.not_waiting hid
  have hissued : (s.view.slot ch id).Issued ((s.slot ch id).setTask task) :=
    .inr ⟨hwait, .inr ⟨task, rfl⟩⟩
  rw [view_setTask]
  refine ⟨allowed_issued hs hasking.owner hissued ((hs.fits ch id).setTask hwait task) rfl rfl
    fun _ hr => hr, ⟨hasking.owner, ?_⟩, hF.slot _ _ _ _ hissued hframe⟩
  intro ch' id'
  rw [← hasking.waiting ch' id']
  by_cases heq : ch' = ch ∧ id' = id
  · obtain ⟨rfl, rfl⟩ := heq
    rw [View.setSlot_self]
    rfl
  · rw [View.setSlot_of_ne _ _ heq]

/-- The task is handed over. -/
theorem spec_ask (hF : Frame K pnum t F) (hch : Issuer t ch) (hid : id ∉ ids)
    (hlisted : ∀ v, Inv K pnum v → F v → (v.slot ch id).book.waiting = false → ch = .recovery →
      Listed v id) :
    Does K pnum t (fun v => Asking t ch ids v ∧ F v) (call (pRelease ⟨ch, .task, id⟩))
      fun _ v => Asking t ch (ids ++ [id]) v ∧ F v := by
  rw [call_pRelease]
  refine Does.bind (Does.post_rest (by decide) (asking_lasting.and hF.lasting)) fun _ => ?_
  apply Does.act (a := .mem (.post ⟨ch, .task, id⟩ .full)) (asking_lasting.and hF.lasting)
  rintro s - s' hs ⟨hasking, hframe⟩ rfl
  have hwait := hasking.not_waiting hid
  have hissued : (s.view.slot ch id).Issued ((s.slot ch id).ask t (s.net id)) :=
    .inr ⟨hwait, .inl ⟨_, _, rfl⟩⟩
  have hfits := (hs.fits ch id).ask hwait hasking.owner hch (hlisted _ hs hframe hwait)
  rw [view_post_task]
  refine ⟨allowed_issued hs hasking.owner hissued hfits rfl rfl ?_, ⟨hasking.owner, ?_⟩,
    hF.slot _ _ _ _ hissued hframe⟩
  · intro r hr
    apply Reading.Valid.mono hr
    · intro k q hq
      exact (List.getElem?_append_left (List.getElem?_eq_some_iff.mp hq).1).trans hq
    · exact fun _ _ ha => ha
  · intro ch' id'
    by_cases heq : ch' = ch ∧ id' = id
    · obtain ⟨rfl, rfl⟩ := heq
      rw [View.setSlot_self]
      exact ⟨fun _ => ⟨rfl, List.mem_append_right _ List.mem_cons_self⟩, fun _ => rfl⟩
    · rw [View.setSlot_of_ne _ _ heq, hasking.waiting ch' id', List.mem_append, List.mem_singleton]
      constructor
      · exact fun h => ⟨h.1, .inl h.2⟩
      · rintro ⟨hch', hin | hid'⟩
        · exact ⟨hch', hin⟩
        · exact absurd ⟨hch', hid'⟩ heq

theorem call_postTask (task : Bytes) : call (postTask ch id task) =
    (call (pGet ⟨ch, .task, id⟩) >>= fun _ => call (setTask ch id task) >>= fun _ =>
      call (pRelease ⟨ch, .task, id⟩)) := rfl

theorem spec_postTask (hF : Frame K pnum t F) (hch : Issuer t ch) (hid : id ∉ ids)
    (hlisted : ∀ v, Inv K pnum v → F v → (v.slot ch id).book.waiting = false → ch = .recovery →
      Listed v id) (task : Bytes) :
    Does K pnum t (fun v => Asking t ch ids v ∧ F v) (call (postTask ch id task))
      fun _ v => Asking t ch (ids ++ [id]) v ∧ F v := by
  rw [call_postTask]
  refine Does.bind (Does.pGet (asking_lasting.and hF.lasting)) fun _ => ?_
  exact Does.bind (spec_setTask hF hid task) fun _ => spec_ask hF hch hid hlisted

/-- The reply is taken. -/
theorem spec_take (hF : Frame K pnum t F) (hid : id ∉ ids) :
    Does K pnum t (fun v => Asking t ch (id :: ids) v ∧ F v) (call (cGet ⟨ch, .ret, id⟩))
      fun _ v => (Asking t ch ids v ∧ F v) ∧ Ready t ch id v := by
  rw [call_cGet]
  refine Does.bind (Q := fun _ v => (Asking t ch ids v ∧ F v) ∧ Ready t ch id v) ?_ fun _ =>
    Does.wait_rest (by decide) ((asking_lasting.and hF.lasting).and ready_lasting)
  apply Does.act (a := .mem (.wait ⟨ch, .ret, id⟩ .full)) (asking_lasting.and hF.lasting)
  rintro s - s' hs ⟨hasking, hframe⟩ ⟨hreply, rfl⟩
  have hreply : 0 < (s.slot ch id).reply := hreply
  have hissued : (s.view.slot ch id).Issued (s.slot ch id).take := .inl ⟨hreply, rfl⟩
  have hfits := hs.fits ch id
  have hwait : (s.view.slot ch id).book.waiting = true :=
    (hasking.waiting ch id).mpr ⟨rfl, List.mem_cons_self⟩
  rw [view_wait_ret]
  refine ⟨allowed_issued hs hasking.owner hissued (hfits.take hreply) rfl rfl fun _ hr => hr,
    ⟨⟨hasking.owner, ?_⟩, hF.slot _ _ _ _ hissued hframe⟩, hasking.owner, ?_, ?_, ?_⟩
  · intro ch' id'
    by_cases heq : ch' = ch ∧ id' = id
    · obtain ⟨rfl, rfl⟩ := heq
      rw [View.setSlot_self]
      exact ⟨fun hno => Bool.noConfusion hno, fun hin => absurd hin.2 hid⟩
    · rw [View.setSlot_of_ne _ _ heq, hasking.waiting ch' id', List.mem_cons]
      constructor
      · rintro ⟨hch', rfl | hin⟩
        · exact absurd ⟨hch', rfl⟩ heq
        · exact ⟨hch', hin⟩
      · exact fun h => ⟨h.1, .inr h.2⟩
  · rw [View.setSlot_self]
    rfl
  · rw [View.setSlot_self]
    -- the last task is this thread's own, which holds the mutex since
    obtain ⟨t', n, hlast⟩ := hfits.ok.asked hwait
    obtain ⟨t'', howner, -, hposter⟩ := hfits.issuer hwait
    obtain rfl : t = t'' := Option.some.inj (hasking.owner.symm.trans howner)
    exact ⟨_, hlast, hposter _ hlast⟩
  · intro hrec hret
    rw [View.setSlot_self] at hret
    exact hfits.told hrec hreply hret

/-! ## Reading a reply -/

theorem Asking.read (h : Asking t ch ids v) (r : Reading) : Asking t ch ids (v.read r) :=
  ⟨h.owner, h.waiting⟩

theorem Ready.read (h : Ready t ch id v) (r : Reading) : Ready t ch id (v.read r) :=
  ⟨h.owner, h.waiting, h.asked, h.told⟩

/-- What stands in the buffers is the answer to the last task. -/
theorem Ready.valid (h : Ready t ch id v) (hv : Inv K pnum v) {value : Int ⊕ Bytes}
    (hvalue : value = .inl (v.slot ch id).buf.ret ∨
      ((v.slot ch id).buf.ret = KV_OK ∧ value = .inr (v.slot ch id).buf.dataRet)) :
    Reading.Valid ⟨t, ch, id, (v.slot ch id).book.asked.length, value⟩ (v.slot ch id).book := by
  obtain ⟨q, hlast, hposter⟩ := h.asked
  have hasked : (v.slot ch id).book.asked ≠ [] := by
    intro hnil
    rw [hnil] at hlast
    cases hlast
  obtain ⟨a, ha, hcode, hdata⟩ := (hv.fits ch id).ok.last h.waiting hasked
  rw [List.getLast?_eq_getElem?] at hlast
  refine ⟨List.length_pos_iff.mpr hasked, ⟨q, hlast, hposter⟩, a, ha, ?_⟩
  rcases hvalue with rfl | ⟨hret, rfl⟩
  · exact hcode
  · rw [hret] at hcode
    exact ⟨hcode, hdata hret⟩

/-- The assertion between the operations on a reply. -/
def Reads (t : Thread) (ch : Chan) (id : Nat) (ids : List Nat) (F : View ν → Prop) (ok : Prop)
    (v : View ν) : Prop :=
  ((Asking t ch ids v ∧ F v) ∧ Ready t ch id v) ∧ (ok → (v.slot ch id).buf.ret = KV_OK)

theorem reads_lasting (hF : Frame K pnum t F) (ok : Prop) :
    Lasting K pnum t (Reads t ch id ids F ok) := by
  intro t' v v' hne hv hv' hG h
  refine ⟨((asking_lasting.and hF.lasting).and ready_lasting) t' v v' hne hv hv' hG h.1, ?_⟩
  rw [hG.slot_of_rest hv hne h.1.2.owner h.1.2.waiting]
  exact h.2

theorem call_readReply (cond : Bytes → Bool) : call (readReply ch id cond) =
    (Threads.act (.mem (.readRet ch id)) >>= fun (ret : Int) =>
      if ret = KV_OK then
        Threads.act (.mem (.readData ch id)) >>= fun rc => Pure.pure (if cond rc then some rc else none)
      else Pure.pure none) := by
  rw [readReply, call_bind]
  refine congrArg (Prog.bind _) (funext fun ret => ?_)
  rw [call_ite]
  rfl

theorem spec_readReply (hF : Frame K pnum t F) (cond : Bytes → Bool) :
    Does K pnum t (Reads t ch id ids F False) (call (readReply ch id cond))
      fun r => Reads t ch id ids F (r.isSome = true) := by
  rw [call_readReply]
  refine Does.bind (Q := fun (ret : Int) => Reads t ch id ids F (ret = KV_OK)) ?_ fun ret =>
    Does.ite (fun hret => ?_) fun _ => ?_
  · apply Does.act (a := .mem (.readRet ch id)) (reads_lasting hF False)
    rintro s - s' hs ⟨⟨⟨hasking, hframe⟩, hready⟩, -⟩ ⟨rfl, rfl⟩
    exact ⟨⟨Guar.read _, hs.read (hready.valid hs (.inl rfl))⟩,
      ⟨⟨hasking.read _, hF.read _ _ hframe⟩, hready.read _⟩, fun hret => hret⟩
  · refine Does.bind (Q := fun _ => Reads t ch id ids F True) ?_ fun rc =>
      Does.ret fun v _ h => ⟨h.1, fun _ => h.2 trivial⟩
    apply Does.act (a := .mem (.readData ch id)) (reads_lasting hF _)
    rintro s - s' hs ⟨⟨⟨hasking, hframe⟩, hready⟩, hok⟩ ⟨rfl, rfl⟩
    exact ⟨⟨Guar.read _, hs.read (hready.valid hs (.inr ⟨hok hret, rfl⟩))⟩,
      ⟨⟨hasking.read _, hF.read _ _ hframe⟩, hready.read _⟩, fun _ => hok hret⟩
  · refine Does.ret fun v _ h => ⟨h.1, ?_⟩
    intro hsome
    cases hsome

theorem call_takeReply (cond : Bytes → Bool) : call (takeReply ch id cond) =
    (call (cGet ⟨ch, .ret, id⟩) >>= fun _ => call (readReply ch id cond) >>= fun rc =>
      call (cRelease ⟨ch, .ret, id⟩) >>= fun _ => call (Pure.pure rc)) := by
  rw [takeReply, call_bind]
  refine congrArg (Prog.bind _) (funext fun _ => ?_)
  rw [call_bind]
  refine congrArg (Prog.bind _) (funext fun _ => ?_)
  rw [call_bind]

theorem spec_takeReply (hF : Frame K pnum t F) (hid : id ∉ ids) (cond : Bytes → Bool) :
    Does K pnum t (fun v => Asking t ch (id :: ids) v ∧ F v) (call (takeReply ch id cond))
      fun _ v => Asking t ch ids v ∧ F v := by
  rw [call_takeReply]
  refine Does.bind (Q := fun _ => Reads t ch id ids F False) ?_ fun _ => ?_
  · exact Does.conseq (spec_take hF hid) (fun _ _ h => h) fun _ _ _ h => ⟨h, False.elim⟩
  refine Does.bind (spec_readReply hF cond) fun rc => ?_
  refine Does.bind (Does.cRelease (reads_lasting hF _)) fun _ => Does.pure fun _ _ h => h.1.1

theorem call_skipReply : call (skipReply ch id) =
    (call (cGet ⟨ch, .ret, id⟩) >>= fun _ => call (cRelease ⟨ch, .ret, id⟩)) := rfl

theorem spec_skipReply (hF : Frame K pnum t F) (hid : id ∉ ids) :
    Does K pnum t (fun v => Asking t ch (id :: ids) v ∧ F v) (call (skipReply ch id))
      fun _ v => Asking t ch ids v ∧ F v := by
  rw [call_skipReply]
  refine Does.bind (spec_take hF hid) fun _ => ?_
  exact Does.conseq (Does.cRelease ((asking_lasting.and hF.lasting).and ready_lasting))
    (fun _ _ h => h) fun _ _ _ h => h.1

/-! ## Loops over the participants -/

/-- `hlisted` is what a task for the recovery worker needs. -/
theorem spec_postTasks (hF : Frame K pnum t F) (hch : Issuer t ch)
    (hlisted : ∀ v id, Inv K pnum v → F v → (v.slot ch id).book.waiting = false →
      ch = .recovery → Listed v id) (task : Bytes) (ids : List Nat) :
    ∀ asked, (asked ++ ids).Nodup →
      Does K pnum t (fun v => Asking t ch asked v ∧ F v) (call (postTasks ch task ids))
        fun _ v => Asking t ch (asked ++ ids) v ∧ F v := by
  induction ids with
  | nil =>
    intro asked _
    rw [List.append_nil]
    exact Does.pure fun _ _ h => h
  | cons id ids ih =>
    intro asked hnodup
    have hid : id ∉ asked := fun hin =>
      (List.nodup_append.mp hnodup).2.2 id hin id List.mem_cons_self rfl
    rw [postTasks, call_bind]
    refine Does.bind (spec_postTask hF hch hid (fun v hv hf => hlisted v id hv hf) task) fun _ => ?_
    have hnext := ih (asked ++ [id])
    rw [List.append_assoc, List.singleton_append] at hnext
    exact hnext hnodup

theorem spec_collectVotes (hF : Frame K pnum t F) (ids : List Nat) :
    ∀ vote, ids.Nodup →
      Does K pnum t (fun v => Asking t .working ids v ∧ F v) (call (collectVotes ids vote))
        fun _ v => Asking t .working [] v ∧ F v := by
  induction ids with
  | nil => exact fun vote _ => Does.pure fun _ _ h => h
  | cons id ids ih =>
    intro vote hnodup
    obtain ⟨hid, hrest⟩ := List.nodup_cons.mp hnodup
    rw [collectVotes, call_bind]
    exact Does.bind (spec_takeReply hF hid _) fun rc => ih _ hrest

theorem spec_collectCommits (hF : Frame K pnum t F) (ids : List Nat) :
    ∀ commit rc, ids.Nodup →
      Does K pnum t (fun v => Asking t .working ids v ∧ F v) (call (collectCommits ids commit rc))
        fun _ v => Asking t .working [] v ∧ F v := by
  induction ids with
  | nil => exact fun commit rc _ => Does.pure fun _ _ h => h
  | cons id ids ih =>
    intro commit rc hnodup
    obtain ⟨hid, hrest⟩ := List.nodup_cons.mp hnodup
    rw [collectCommits, call_bind]
    refine Does.bind (spec_takeReply hF hid _) fun reply => ?_
    cases reply with
    | some rc' => exact ih true rc' hrest
    | none => exact ih commit rc hrest

theorem spec_requestLoop (hF : Frame K pnum t F) (hch : Issuer t .working) (getReq : Bytes)
    (ids : List Nat) : Does K pnum t (fun v => Asking t .working [] v ∧ F v)
      (call (requestLoop getReq ids)) fun _ v => Asking t .working [] v ∧ F v := by
  induction ids with
  | nil => exact Does.pure fun _ _ h => h
  | cons id ids ih =>
    rw [requestLoop, call_bind]
    have hnil : id ∉ ([] : List Nat) := List.not_mem_nil
    have hlisted : ∀ v, Inv K pnum v → F v → (v.slot .working id).book.waiting = false →
        Chan.working = .recovery → Listed v id := fun _ _ _ _ hno => Chan.noConfusion hno
    refine Does.bind (spec_postTask hF hch hnil hlisted getReq) fun _ => ?_
    rw [call_bind]
    refine Does.bind (spec_takeReply hF List.not_mem_nil _) fun reply => ?_
    cases reply with
    | some rc => exact Does.pure fun _ _ h => h
    | none => exact ih

/-! ## The working thread -/

theorem spec_UpdateDB (resp : Bytes) :
    Does K pnum .work (Asking .work .working []) (call (UpdateDB pnum resp))
      fun _ => Asking .work .working [] := by
  have hissuer : Issuer .work .working := .inr ⟨rfl, rfl⟩
  have hpost : ∀ task, Does K pnum .work (Asking .work .working [])
      (call (postTasks .working task (pids pnum))) fun _ => Asking .work .working (pids pnum) :=
    fun task => Does.conseq (spec_postTasks Frame.true hissuer
      (fun _ _ _ _ _ hno => Chan.noConfusion hno) task (pids pnum) [] (nodup_pids pnum))
      (fun _ _ h => ⟨h, trivial⟩) fun _ _ _ h => h.1
  have hlasting : Lasting K pnum .work (Asking .work .working []) := asking_lasting
  rw [UpdateDB, call_bind]
  refine Does.bind (Does.updateRest hlasting fun _ => rfl) fun _ => ?_
  rw [call_bind]
  refine Does.bind (Does.readRest hlasting) fun c => ?_
  rw [call_bind]
  refine Does.bind (hpost _) fun _ => ?_
  rw [call_bind]
  refine Does.bind (Q := fun _ => Asking .work .working []) ?_ fun vote => ?_
  · exact Does.conseq (spec_collectVotes Frame.true (pids pnum) false (nodup_pids pnum))
      (fun _ _ h => ⟨h, trivial⟩) fun _ _ _ h => h.1
  rw [call_ite]
  refine Does.ite (fun _ => ?_) fun _ => Does.pure fun _ _ h => h
  rw [call_bind]
  refine Does.bind (Does.readRest hlasting) fun c => ?_
  rw [call_bind]
  refine Does.bind (hpost _) fun _ => ?_
  rw [call_bind]
  refine Does.bind (Q := fun _ => Asking .work .working []) ?_ fun r => ?_
  · exact Does.conseq
      (spec_collectCommits Frame.true (pids pnum) false getErrorMessage (nodup_pids pnum))
      (fun _ _ h => ⟨h, trivial⟩) fun _ _ _ h => h.1
  rw [call_ite]
  refine Does.ite (fun _ => ?_) fun _ => Does.pure fun _ _ h => h
  rw [call_bind]
  refine Does.bind (Does.readRest hlasting) fun c => ?_
  rw [call_bind]
  refine Does.bind (Does.ofOption _) fun lg => ?_
  rw [call_bind]
  exact Does.bind (Does.updateRest hlasting fun _ => rfl) fun _ => Does.pure fun _ _ h => h

theorem spec_Request (resp : Bytes) :
    Does K pnum .work (Asking .work .working []) (call (Request pnum resp))
      fun _ => Asking .work .working [] :=
  Does.conseq (spec_requestLoop Frame.true (.inr ⟨rfl, rfl⟩) _ (pids pnum))
    (fun _ _ h => ⟨h, trivial⟩) fun _ _ _ h => h.1

theorem spec_command (task : List Bytes) :
    Does K pnum .work (Asking .work .working []) (call (KvStore.Working pnum task))
      fun _ => Asking .work .working [] := by
  rw [KvStore.Working, call_ite, call_ite]
  exact Does.ite (fun _ => spec_UpdateDB _) fun _ => Does.ite (fun _ => spec_Request _) fun _ =>
    Does.pure fun _ _ h => h

theorem notOwner_lasting (m : Mutex) : Lasting K pnum t fun v => v.owner m ≠ some t :=
  fun _ _ _ hne _ _ hG h => hG.notOwned hne h

theorem notOwner_setOwner (v : View ν) (m : Mutex) (t : Thread) :
    (v.setOwner m none).owner m ≠ some t := by
  rw [View.setOwner_self]
  intro hno
  cases hno

/-- Who takes `_workingMutex` finds no worker waiting. -/
theorem allowed_lock_working (hv : Inv K pnum v) (h : v.owner .workingMutex = none) :
    Allowed K pnum t v (v.setOwner .workingMutex (some t)) ∧
      Asking t ch [] (v.setOwner .workingMutex (some t)) := by
  have hwait := hv.not_waiting h
  refine ⟨⟨Guar.lock h, hv.setOwner (fun _ => hwait) fun heq => absurd heq (by decide)⟩,
    View.setOwner_self .., ?_⟩
  intro ch' id'
  rw [show (v.setOwner .workingMutex (some t)).slot = v.slot from rfl, hwait]
  exact ⟨fun hno => Bool.noConfusion hno, fun hin => absurd hin.2 List.not_mem_nil⟩

theorem allowed_unlock_working (hv : Inv K pnum v) (h : Asking t ch [] v) :
    Allowed K pnum t v (v.setOwner .workingMutex none) := by
  refine ⟨Guar.unlock h.owner fun _ heq => absurd heq (by decide), hv.setOwner (fun _ => ?_)
    fun heq => absurd heq (by decide)⟩
  intro ch' id'
  cases hwait : (v.slot ch' id').book.waiting with
  | false => rfl
  | true => exact absurd ((h.waiting ch' id').mp hwait).2 List.not_mem_nil

/-- One round of the working thread. -/
theorem spec_Working : Does K pnum .work (fun v => v.owner .workingMutex ≠ some .work)
    (Working pnum) fun _ v => v.owner .workingMutex ≠ some .work := by
  have hlasting : Lasting K pnum .work fun v => v.owner .workingMutex ≠ some .work :=
    notOwner_lasting .workingMutex
  have hreply : ∀ rc, Does K pnum .work (fun v => v.owner .workingMutex ≠ some .work)
      (act (.sendResult rc)) fun _ v => v.owner .workingMutex ≠ some .work :=
    fun rc => Does.quiet (a := .sendResult rc) hlasting fun _ _ _ hstep => by
      rw [show _ = _ from hstep]
  refine Does.bind (Does.quiet (a := .recvCommand) hlasting fun _ _ _ hstep => by
    rw [show _ = _ from hstep]) fun task => ?_
  refine Does.ite (fun _ => hreply _) fun _ => ?_
  refine Does.bind (Does.readRest hlasting) fun c => Does.ite (fun _ => hreply _) fun _ => ?_
  refine Does.bind (Q := fun _ => Asking .work .working []) ?_ fun _ => ?_
  · apply Does.act (a := .lock .workingMutex) hlasting
    rintro s - s' hs - ⟨hfree, rfl⟩
    exact allowed_lock_working hs hfree
  refine Does.bind (spec_command task) fun rc => ?_
  refine Does.bind (Q := fun _ v => v.owner .workingMutex ≠ some .work) ?_ fun _ => hreply rc
  apply Does.act (a := .unlock .workingMutex) asking_lasting
  rintro s - s' hs hasking rfl
  exact ⟨allowed_unlock_working hs hasking, notOwner_setOwner s.view .workingMutex .work⟩

end Issuing

end CloudLabs.KvStore.Threads
