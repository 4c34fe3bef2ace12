import CloudLabs.KvStore.Handshake

/-!
# What the threads of a participant guarantee

`Does t P p Q` is the specification of a program of the thread `t`, with assertions about the
`View`. The operations of `Act` are taken to the updates of the view, and the rounds of `keepAlive`,
`pWorking` and `pRecovery` are specified: each of them keeps the invariant and its guarantee
whatever the other threads do, and whatever becomes of the connection.
-/

set_option autoImplicit false

namespace CloudLabs.KvStore.Threads

open CloudLabs.Foundation
open Function (update)

/-! ## What an operation does to the view -/

section Views

variable {ν : Type} {s : Shared ν} {ch : Chan} {id : Nat}

theorem view_of_slots {s' : Shared ν} {v : View ν} (hslot : ∀ ch id, s'.slot ch id = v.slot ch id)
    (hrest : { s'.view with slot := v.slot } = v) : s'.view = v := by
  have hslots : s'.slot = v.slot := by
    funext ch id
    exact hslot ch id
  rw [← hrest, ← hslots]
  rfl

/-- The locks of different worker threads are different. -/
theorem slot_of_ne {s s' : Shared ν} {ch' : Chan} {id' : Nat} (hne : ¬ (ch' = ch ∧ id' = id))
    (hlock : ∀ l : Lock, ¬ (l.ch = ch ∧ l.id = id) → s'.lock l = s.lock l)
    (hbook : s'.book ch' id' = s.book ch' id')
    (hbuf : (s'.c.p id').buf ch' = (s.c.p id').buf ch') : s'.slot ch' id' = s.slot ch' id' := by
  rw [Shared.slot, Shared.slot, hlock _ hne, hlock _ hne, hbook, hbuf]

theorem note_of_ne (s : Shared ν) (b : Book ν) {ch' : Chan} {id' : Nat}
    (hne : ¬ (ch' = ch ∧ id' = id)) : (s.note ch id b).book ch' id' = s.book ch' id' := by
  show update s.book ch (update (s.book ch) id b) ch' id' = _
  by_cases hch : ch' = ch
  · subst hch
    rw [Function.update_self, Function.update_of_ne fun hid => hne ⟨rfl, hid⟩]
  · rw [Function.update_of_ne hch]

@[simp] theorem note_self (s : Shared ν) (ch : Chan) (id : Nat) (b : Book ν) :
    (s.note ch id b).book ch id = b := by
  show update s.book ch (update (s.book ch) id b) ch id = b
  rw [Function.update_self, Function.update_self]

/-- A step on the locks and the history of one worker thread. -/
theorem view_lock {l : Lock} {x : CpLock} {b : Book ν} (hl : l.ch = ch ∧ l.id = id) {y : Slot ν}
    (htask : (update s.lock l x ⟨ch, .task, id⟩).full = y.task)
    (hreply : (update s.lock l x ⟨ch, .ret, id⟩).full = y.reply) (hbook : b = y.book)
    (hbuf : (s.c.p id).buf ch = y.buf) :
    ({ s.note ch id b with lock := update s.lock l x } : Shared ν).view = s.view.setSlot ch id y := by
  apply view_of_slots
  · intro ch' id'
    by_cases heq : ch' = ch ∧ id' = id
    · obtain ⟨rfl, rfl⟩ := heq
      rw [View.setSlot_self]
      show (⟨_, _, (s.note ch' id' b).book ch' id', _⟩ : Slot ν) = y
      rw [note_self]
      exact (congr (congr (congr (congrArg Slot.mk htask) hreply) hbook) hbuf)
    · rw [View.setSlot_of_ne _ _ heq]
      apply slot_of_ne heq
      · intro l' hne
        apply Function.update_of_ne
        rintro rfl
        exact hne hl
      · exact note_of_ne s b heq
      · rfl
  · rfl

theorem ret_ne_task : (⟨ch, .ret, id⟩ : Lock) ≠ ⟨ch, .task, id⟩ := fun h => by cases h

theorem view_wait_task : (s.wait ⟨ch, .task, id⟩ .full).view =
    s.view.setSlot ch id (s.slot ch id).begin := by
  apply view_lock ⟨rfl, rfl⟩
  · rw [Function.update_self]
    rfl
  · rw [Function.update_of_ne ret_ne_task]
    rfl
  · rfl
  · rfl

theorem view_wait_ret : (s.wait ⟨ch, .ret, id⟩ .full).view =
    s.view.setSlot ch id (s.slot ch id).take := by
  apply view_lock ⟨rfl, rfl⟩
  · rw [Function.update_of_ne ret_ne_task.symm]
    rfl
  · rw [Function.update_self]
    rfl
  · rfl
  · rfl

theorem view_post_task (t : Thread) : (s.post t ⟨ch, .task, id⟩ .full).view =
    s.view.setSlot ch id ((s.slot ch id).ask t (s.net id)) := by
  apply view_lock ⟨rfl, rfl⟩
  · rw [Function.update_self]
    rfl
  · rw [Function.update_of_ne ret_ne_task]
    rfl
  · rfl
  · rfl

theorem view_post_ret (t : Thread) : (s.post t ⟨ch, .ret, id⟩ .full).view =
    s.view.setSlot ch id (s.slot ch id).finish := by
  apply view_lock ⟨rfl, rfl⟩
  · rw [Function.update_of_ne ret_ne_task.symm]
    rfl
  · rw [Function.update_self]
    rfl
  · rfl
  · rfl

/-- The other two counters of a lock do not matter. -/
theorem view_lock_rest {l : Lock} {x : CpLock} {b : Book ν} (hx : x.full = (s.lock l).full)
    (hb : b = s.book l.ch l.id) :
    ({ s.note l.ch l.id b with lock := update s.lock l x } : Shared ν).view = s.view := by
  -- a view shows the counter `full` only
  have hfull : ∀ l', (update s.lock l x l').full = (s.lock l').full := by
    intro l'
    by_cases heq : l' = l
    · rw [heq, Function.update_self, hx]
    · rw [Function.update_of_ne heq]
  have hbook : (s.note l.ch l.id b).book = s.book := by
    rw [hb]
    show update s.book l.ch (update (s.book l.ch) l.id (s.book l.ch l.id)) = s.book
    rw [Function.update_eq_self, Function.update_eq_self]
  apply view_of_slots
  · intro ch' id'
    show (⟨(update s.lock l x _).full, (update s.lock l x _).full,
      (s.note l.ch l.id b).book ch' id', _⟩ : Slot ν) = _
    rw [hfull, hfull, hbook]
    rfl
  · rfl

theorem view_wait_rest {l : Lock} {sem : Part} (hsem : sem ≠ .full) :
    (s.wait l sem).view = s.view := by
  apply view_lock_rest
  · cases sem with
    | full => exact absurd rfl hsem
    | empty => rfl
    | mutex => rfl
  · cases sem with
    | full => exact absurd rfl hsem
    | empty => cases l.side <;> rfl
    | mutex => cases l.side <;> rfl

theorem view_post_rest (t : Thread) {l : Lock} {sem : Part} (hsem : sem ≠ .full) :
    (s.post t l sem).view = s.view := by
  apply view_lock_rest
  · cases sem with
    | full => exact absurd rfl hsem
    | empty => rfl
    | mutex => rfl
  · cases sem with
    | full => exact absurd rfl hsem
    | empty => cases l.side <;> rfl
    | mutex => cases l.side <;> rfl

/-- One field of the entries when one entry changes. -/
theorem field_update {β : Type} (f : Entry → β) (p : Nat → Entry) (id : Nat) (e : Entry) :
    (fun id' => f (update p id e id')) = update (fun id' => f (p id')) id (f e) :=
  Function.comp_update f p id e

theorem field_kept {β : Type} (f : Entry → β) {p : Nat → Entry} {e : Entry} (h : f e = f (p id)) :
    (fun id' => f (update p id e id')) = fun id' => f (p id') := by
  rw [field_update, h]
  exact Function.update_eq_self id fun id' => f (p id')

/-- A step on the buffers and the history of one worker thread. -/
theorem view_buffer {e : Entry} {b : Book ν} {y : Slot ν} (hst : e.pstate = (s.c.p id).pstate)
    (hmax : e.maxTxid = (s.c.p id).maxTxid)
    (hother : ∀ ch', ch' ≠ ch → e.buf ch' = (s.c.p id).buf ch')
    (htask : (s.lock ⟨ch, .task, id⟩).full = y.task)
    (hreply : (s.lock ⟨ch, .ret, id⟩).full = y.reply) (hbook : b = y.book) (hbuf : e.buf ch = y.buf) :
    ((s.setEntry id e).note ch id b).view = s.view.setSlot ch id y := by
  have hentry : ((s.setEntry id e).note ch id b).c.p = update s.c.p id e := rfl
  apply view_of_slots
  · intro ch' id'
    by_cases heq : ch' = ch ∧ id' = id
    · obtain ⟨rfl, rfl⟩ := heq
      -- the slot of the buffer
      rw [View.setSlot_self]
      show (⟨_, _, ((s.setEntry id' e).note ch' id' b).book ch' id',
        (update s.c.p id' e id').buf ch'⟩ : Slot ν) = y
      rw [note_self, Function.update_self]
      exact congr (congr (congr (congrArg Slot.mk htask) hreply) hbook) hbuf
    · rw [View.setSlot_of_ne _ _ heq]
      -- the other slots, one of which may be of the same participant
      apply slot_of_ne heq
      · exact fun _ _ => rfl
      · exact note_of_ne (s.setEntry id e) b heq
      · rw [hentry]
        by_cases hid : id' = id
        · subst hid
          rw [Function.update_self]
          exact hother ch' fun hch => heq ⟨hch, rfl⟩
        · rw [Function.update_of_ne hid]
  · show View.mk _ (fun id' => (update s.c.p id e id').pstate)
      (fun id' => (update s.c.p id e id').maxTxid) _ _ _ _ = _
    rw [field_kept Entry.pstate hst, field_kept Entry.maxTxid hmax]
    rfl

theorem note_book (s : Shared ν) (ch : Chan) (id : Nat) : s.note ch id (s.book ch id) = s := by
  show { s with book := update s.book ch (update (s.book ch) id (s.book ch id)) } = s
  rw [Function.update_eq_self, Function.update_eq_self]

theorem view_setTask (task : Bytes) : (s.setEntry id ((s.c.p id).setTask ch task)).view =
    s.view.setSlot ch id ((s.slot ch id).setTask task) := by
  have hnote := note_book (s.setEntry id ((s.c.p id).setTask ch task)) ch id
  rw [← hnote]
  apply view_buffer
  · rfl
  · rfl
  · exact fun ch' hne => Function.update_of_ne hne ..
  · rfl
  · rfl
  · rfl
  · exact Function.update_self ..

theorem view_setRet (rc : Int) :
    ((s.setEntry id ((s.c.p id).setRet ch rc)).note ch id ((s.book ch id).setRet rc)).view =
      s.view.setSlot ch id ((s.slot ch id).setRet rc) := by
  apply view_buffer
  · rfl
  · rfl
  · exact fun ch' hne => Function.update_of_ne hne ..
  · rfl
  · rfl
  · rfl
  · exact Function.update_self ..

theorem view_setData (rmsg : Bytes) :
    ((s.setEntry id ((s.c.p id).setReply ch ((s.c.p id).buf ch).ret rmsg)).note ch id
      ((s.book ch id).setData rmsg)).view =
      s.view.setSlot ch id ((s.slot ch id).setData rmsg) := by
  apply view_buffer
  · rfl
  · rfl
  · exact fun ch' hne => Function.update_of_ne hne ..
  · rfl
  · rfl
  · rfl
  · exact Function.update_self ..

/-- A worker's call on its connection. -/
theorem view_useNet (n : ν) (busy : Bool) :
    ((s.setNet id n).note ch id ((s.book ch id).setBusy busy)).view =
      (s.view.setNet id n).setSlot ch id ((s.slot ch id).setBusy busy) := by
  apply view_of_slots
  · intro ch' id'
    by_cases heq : ch' = ch ∧ id' = id
    · obtain ⟨rfl, rfl⟩ := heq
      rw [View.setSlot_self]
      show (⟨_, _, ((s.setNet id' n).note ch' id' _).book ch' id', _⟩ : Slot ν) = _
      rw [note_self]
      rfl
    · rw [View.setSlot_of_ne _ _ heq]
      apply slot_of_ne heq
      · exact fun _ _ => rfl
      · exact note_of_ne (s.setNet id n) _ heq
      · rfl
  · rfl

/-- A step on one entry that leaves its buffers as they are. -/
theorem view_entry {e : Entry} (hbuf : e.buf = (s.c.p id).buf) :
    (s.setEntry id e).view = (s.view.setPState id e.pstate).setMaxTxid id e.maxTxid := by
  apply view_of_slots
  · intro ch' id'
    show (⟨_, _, _, (update s.c.p id e id').buf ch'⟩ : Slot ν) = _
    rw [congrFun (field_kept Entry.buf hbuf) id']
    rfl
  · show View.mk _ (fun id' => (update s.c.p id e id').pstate)
      (fun id' => (update s.c.p id e id').maxTxid) _ _ _ _ = _
    rw [field_update Entry.pstate, field_update Entry.maxTxid]
    rfl

theorem view_setPState (st : PState) :
    ({ s with c := setPState id st s.c } : Shared ν).view = s.view.setPState id st := by
  have hentry : (s.setEntry id ((s.c.p id).setState st)).view =
      (s.view.setPState id st).setMaxTxid id (s.view.maxTxid id) := view_entry rfl
  have hkept : update s.view.maxTxid id (s.view.maxTxid id) = s.view.maxTxid :=
    Function.update_eq_self ..
  apply hentry.trans
  rw [View.setMaxTxid]
  dsimp only [View.setPState]
  rw [hkept]

theorem view_setMaxTxid (m : Option Nat) :
    ({ s with c := { s.c with p := update s.c.p id { s.c.p id with maxTxid := m } } } :
      Shared ν).view = s.view.setMaxTxid id m := by
  have hentry : (s.setEntry id { s.c.p id with maxTxid := m }).view =
      (s.view.setPState id (s.view.pstate id)).setMaxTxid id m := view_entry rfl
  have hkept : update s.view.pstate id (s.view.pstate id) = s.view.pstate :=
    Function.update_eq_self ..
  apply hentry.trans
  rw [View.setPState, hkept]

end Views

/-! ## Specifications -/

section Rules

variable {ν : Type} {N : Link ν} (K : Contract N) (pnum : Nat) {α β : Type}

/-- The other threads cannot falsify the assertion. -/
def Lasting (t : Thread) (P : View ν → Prop) : Prop :=
  ∀ t' v v', t' ≠ t → Inv K pnum v → Inv K pnum v' → Guar N pnum t' v v' → P v → P v'

/-- A step that keeps the invariant and the guarantee of its thread. -/
def Allowed (t : Thread) (v v' : View ν) : Prop := Guar N pnum t v v' ∧ Inv K pnum v'

def Does (t : Thread) (P : View ν → Prop) (p : Routine α) (Q : α → View ν → Prop) : Prop :=
  Pool.Spec (Act.Step N) (fun s => Inv K pnum s.view)
    (fun t s s' => Guar N pnum t s.view s'.view) t (fun s => P s.view) p fun a s => Q a s.view

variable {K pnum} {t : Thread} {P P' : View ν → Prop} {Q Q' : α → View ν → Prop}

theorem Lasting.and (hP : Lasting K pnum t P) (hP' : Lasting K pnum t P') :
    Lasting K pnum t fun v => P v ∧ P' v :=
  fun t' v v' hne hv hv' hG h => ⟨hP t' v v' hne hv hv' hG h.1, hP' t' v v' hne hv hv' hG h.2⟩

theorem Lasting.true : Lasting K pnum t fun _ => True := fun _ _ _ _ _ _ _ _ => trivial

theorem Lasting.steady (hP : Lasting K pnum t P) :
    Pool.Steady (fun s : Shared ν => Inv K pnum s.view)
      (fun t s s' => Guar N pnum t s.view s'.view) t fun s => P s.view :=
  fun t' s s' hne hs hs' hG h => hP t' s.view s'.view hne hs hs' hG h

theorem Does.ret {a : α} (h : ∀ v, Inv K pnum v → P v → Q a v) : Does K pnum t P (.ret a) Q :=
  Pool.Spec.ret fun s => h s.view

theorem Does.bind {p : Routine α} {f : α → Routine β} {R : β → View ν → Prop}
    (hp : Does K pnum t P p Q) (hf : ∀ a, Does K pnum t (Q a) (f a) R) :
    Does K pnum t P (p >>= f) R :=
  Pool.Spec.bind hp hf

theorem Does.conseq {p : Routine α} (h : Does K pnum t P p Q)
    (hP : ∀ v, Inv K pnum v → P' v → P v) (hQ : ∀ a v, Inv K pnum v → Q a v → Q' a v) :
    Does K pnum t P' p Q' :=
  Pool.Spec.conseq h (fun s => hP s.view) fun a s => hQ a s.view

theorem Does.of_imp {p : Routine α} {C : Prop} (hC : ∀ v, Inv K pnum v → P v → C)
    (h : C → Does K pnum t P p Q) : Does K pnum t P p Q :=
  Pool.Spec.of_imp (fun s => hC s.view) h

theorem Does.ite {C : Prop} [Decidable C] {p p' : Routine α} (h : C → Does K pnum t P p Q)
    (h' : ¬ C → Does K pnum t P p' Q) : Does K pnum t P (if C then p else p') Q := by
  by_cases hC : C
  · rw [if_pos hC]
    exact h hC
  · rw [if_neg hC]
    exact h' hC

/-- One operation. -/
theorem Does.act {a : Act} {Q : a.Res → View ν → Prop} (hP : Lasting K pnum t P)
    (h : ∀ s r s', Inv K pnum s.view → P s.view → Act.Step N t a s r s' →
      Allowed K pnum t s.view s'.view ∧ Q r s'.view) : Does K pnum t P (act a) Q := by
  apply Pool.Spec.perform hP.steady
  intro s r s' hs hP' hstep
  obtain ⟨⟨hG, hs'⟩, hQ⟩ := h s r s' hs hP' hstep
  exact ⟨hG, hs', hQ⟩

/-- An operation that the view does not show. -/
theorem Does.quiet {a : Act} (hP : Lasting K pnum t P)
    (hview : ∀ s r s', Act.Step N t a s r s' → s'.view = s.view) :
    Does K pnum t P (Threads.act a) fun _ => P := by
  apply Does.act hP
  intro s r s' hs h hstep
  rw [hview s r s' hstep]
  exact ⟨⟨Guar.refl t s.view, hs⟩, h⟩

/-- Reading the memory. -/
theorem Does.readMem {Q : Coordinator → View ν → Prop} (hP : Lasting K pnum t P)
    (hQ : ∀ s : Shared ν, Inv K pnum s.view → P s.view → Q s.c s.view) :
    Does K pnum t P (call readMem) Q := by
  apply Does.act (a := .mem .readMem) hP
  rintro s r s' hs h ⟨rfl, rfl⟩
  exact ⟨⟨Guar.refl t s'.view, hs⟩, hQ s' hs h⟩

/-- Reading what the assertion does not mention. -/
theorem Does.readRest (hP : Lasting K pnum t P) :
    Does K pnum t P (call KvStore.readMem) fun _ => P :=
  Does.readMem (Q := fun _ => P) hP fun _ _ h => h

/-- An update of the memory. -/
theorem Does.updateMem {f : Coordinator → Coordinator} {Q : View ν → Prop}
    (hP : Lasting K pnum t P)
    (h : ∀ s : Shared ν, Inv K pnum s.view → P s.view →
      Allowed K pnum t s.view ({ s with c := f s.c } : Shared ν).view ∧
        Q ({ s with c := f s.c } : Shared ν).view) :
    Does K pnum t P (call (updateMem f)) fun _ => Q := by
  apply Does.act (a := .mem (.updateMem f)) hP
  rintro s - s' hs hP' rfl
  exact h s hs hP'

theorem Does.wait_rest {l : Lock} {sem : Part} (hsem : sem ≠ .full) (hP : Lasting K pnum t P) :
    Does K pnum t P (Threads.act (.mem (.wait l sem))) fun _ => P := by
  apply Does.quiet hP
  rintro s - s' ⟨-, rfl⟩
  exact view_wait_rest hsem

theorem Does.post_rest {l : Lock} {sem : Part} (hsem : sem ≠ .full) (hP : Lasting K pnum t P) :
    Does K pnum t P (Threads.act (.mem (.post l sem))) fun _ => P := by
  apply Does.quiet hP
  rintro s - s' rfl
  exact view_post_rest t hsem

/-- What throws goes no further. -/
theorem Does.crash {k : Empty → Routine α} : Does K pnum t P (.op .crash k) Q := by
  intro s _ s' _ r
  exact Empty.elim r

theorem Does.orCrash (o : Option α) :
    Does K pnum t P (Threads.orCrash o) fun _ => P := by
  cases o with
  | some a => exact Does.ret fun _ _ h => h
  | none => exact Does.crash

/-! ## Programs of the issuing threads -/

theorem call_bind (p : Proc α) (f : α → Proc β) :
    call (p >>= f) = (call p >>= fun a => call (f a)) := by
  induction p with
  | ret a => rfl
  | op o k ih => exact congrArg (Prog.op (Act.mem o)) (funext ih)
  | abort => exact congrArg (Prog.op Act.crash) (funext fun e => e.elim)

theorem call_ite {C : Prop} [Decidable C] (p p' : Proc α) :
    call (if C then p else p') = if C then call p else call p' := by
  split <;> rfl

theorem Does.pure {a : α} (h : ∀ v, Inv K pnum v → P v → Q a v) :
    Does K pnum t P (call (Pure.pure a)) Q :=
  Does.ret h

theorem Does.ofOption (o : Option α) :
    Does K pnum t P (call (Prog.ofOption o)) fun _ => P := by
  cases o with
  | some a => exact Does.ret fun _ _ h => h
  | none => exact Does.crash

/-- An update that the view does not show. -/
theorem Does.updateRest {f : Coordinator → Coordinator} (hP : Lasting K pnum t P)
    (hview : ∀ s : Shared ν, ({ s with c := f s.c } : Shared ν).view = s.view) :
    Does K pnum t P (call (KvStore.updateMem f)) fun _ => P := by
  apply Does.updateMem hP
  intro s hs h
  rw [hview]
  exact ⟨⟨Guar.refl t s.view, hs⟩, h⟩

theorem call_cGet (l : Lock) : call (cGet l) =
    (Threads.act (.mem (.wait l .full)) >>= fun _ => Threads.act (.mem (.wait l .mutex))) := rfl

theorem call_pGet (l : Lock) : call (pGet l) =
    (Threads.act (.mem (.wait l .empty)) >>= fun _ => Threads.act (.mem (.wait l .mutex))) := rfl

theorem call_cRelease (l : Lock) : call (cRelease l) =
    (Threads.act (.mem (.post l .mutex)) >>= fun _ => Threads.act (.mem (.post l .empty))) := rfl

theorem call_pRelease (l : Lock) : call (pRelease l) =
    (Threads.act (.mem (.post l .mutex)) >>= fun _ => Threads.act (.mem (.post l .full))) := rfl

/-- The counters `empty` and `mutex` hand nothing over. -/
theorem Does.pGet {l : Lock} (hP : Lasting K pnum t P) :
    Does K pnum t P (call (pGet l)) fun _ => P := by
  rw [call_pGet]
  exact Does.bind (Does.wait_rest (by decide) hP) fun _ => Does.wait_rest (by decide) hP

theorem Does.cRelease {l : Lock} (hP : Lasting K pnum t P) :
    Does K pnum t P (call (cRelease l)) fun _ => P := by
  rw [call_cRelease]
  exact Does.bind (Does.post_rest (by decide) hP) fun _ => Does.post_rest (by decide) hP

end Rules

end CloudLabs.KvStore.Threads
