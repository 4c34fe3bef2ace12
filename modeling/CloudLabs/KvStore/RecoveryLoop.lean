import CloudLabs.KvStore.Runs

/-!
# The loop of `recoveryFromP`

`Loop` is where `recoveryFromP` is between two parts of its loop, with its local variables, and
`Loop.Step` carries out one part: the choice of a leader at `next`, or the question for one record.
Within a part each request may fail, and the surroundings may take any steps.

`recoveryFromP_terminates`: there is no infinite sequence of such steps (`Terminates.finite`), and a
run of the call is one of these sequences (`Terminates.parts`). Each leader leaves the table
`maxTxidTB`, and what has left the table does not come back (`Onward`), so that the passes of the
outer loop are as many as the participants of the table at most.
-/

set_option autoImplicit false

namespace CloudLabs.KvStore

open CloudLabs.Foundation

/-- Where the loop is: at `next`, at the test of the inner loop, or behind `break`. -/
inductive Loop where
  | next (minID : Nat)
  | ask (leader maxID minID : Nat)
  | done

/-- A run of a part of the call to its end. -/
abbrev Runs (F : Faults) {α : Type} (p : Proc α) (s : Sys) (a : α) (s' : Sys) : Prop :=
  Relation.ReflTransGen (Prog.Step (Sys.Step F) (Env F)) (p, s) (.ret a, s')

/-- One part of the loop. -/
inductive Loop.Step (F : Faults) (pnum : Nat) : Loop × Sys → Loop × Sys → Prop
  | leave {minID : Nat} {r : Nat × Nat} {s s' : Sys} (h : Runs F (chooseLeader pnum) s r s')
      (hr : r.1 = 0) : Loop.Step F pnum (.next minID, s) (.done, s')
  | lead {minID : Nat} {r : Nat × Nat} {s s' : Sys} (h : Runs F (chooseLeader pnum) s r s')
      (hr : r.1 ≠ 0) : Loop.Step F pnum (.next minID, s) (.ask r.1 r.2 minID, s')
  | pulled {leader maxID minID : Nat} {s s' : Sys} (hle : minID ≤ maxID)
      (h : Runs F (askLeader pnum leader minID) s true s') :
      Loop.Step F pnum (.ask leader maxID minID, s) (.ask leader maxID (minID + 1), s')
  | failed {leader maxID minID : Nat} {s s' : Sys} (hle : minID ≤ maxID)
      (h : Runs F (askLeader pnum leader minID) s false s') :
      Loop.Step F pnum (.ask leader maxID minID, s) (.next minID, s')
  | finished {leader maxID minID : Nat} {s s' : Sys} (hlt : maxID < minID)
      (h : Relation.ReflTransGen (Env F) s s') :
      Loop.Step F pnum (.ask leader maxID minID, s) (.next minID, s')

/-- A state that is reached within a part of the loop. -/
inductive Loop.During (F : Faults) (pnum : Nat) : Loop × Sys → Sys → Prop
  | next {minID : Nat} {s s' : Sys} {p : Proc (Nat × Nat)}
      (h : Relation.ReflTransGen (Prog.Step (Sys.Step F) (Env F)) (chooseLeader pnum, s) (p, s')) :
      Loop.During F pnum (.next minID, s) s'
  | ask {leader maxID minID : Nat} {s s' : Sys} {p : Proc Bool} (hle : minID ≤ maxID)
      (h : Relation.ReflTransGen (Prog.Step (Sys.Step F) (Env F))
        (askLeader pnum leader minID, s) (p, s')) :
      Loop.During F pnum (.ask leader maxID minID, s) s'

abbrev Loop.Path (F : Faults) (pnum : Nat) : Loop × Sys → Loop × Sys → Prop :=
  Relation.ReflTransGen (Loop.Step F pnum)

/-- The bound that is still to be compared with the numbers of the leaders. -/
def Loop.minID : Loop → Option Nat
  | .next minID => some minID
  | .ask _ _ minID => some minID
  | .done => none

/-! ## The program and the loop -/

section Program

variable {F : Faults} {pnum : Nat}

/-- A run may be followed by steps of the surroundings. -/
theorem Runs.env {α : Type} {p : Proc α} {s s₁ s' : Sys} {a : α} (h : Runs F p s a s₁)
    (henv : Relation.ReflTransGen (Env F) s₁ s') : Runs F p s a s' :=
  h.trans (Prog.run_env henv)

/-- The inner loop. -/
theorem path_of_pull {leader maxID : Nat} (count : Nat) : ∀ {minID : Nat} {s s' : Sys} {m : Nat},
    count = maxID + 1 - minID → Runs F (pull pnum leader count minID) s m s' →
    Loop.Path F pnum (.ask leader maxID minID, s) (.next m, s') := by
  induction count with
  | zero =>
    intro minID s s' m hcount h
    obtain ⟨hret, henv⟩ := Prog.run_ret h
    obtain rfl : m = minID := Prog.ret.inj hret
    exact .single (.finished (by omega) henv)
  | succ count ih =>
    intro minID s s' m hcount h
    have hle : minID ≤ maxID := by omega
    rw [pull_succ] at h
    obtain ⟨pulled, s₁, hask, hrest⟩ := Prog.run_of_bind h
    cases pulled with
    | false =>
      obtain ⟨hret, henv⟩ := Prog.run_ret hrest
      obtain rfl : m = minID := Prog.ret.inj hret
      exact .single (.failed hle (Runs.env hask henv))
    | true => exact .head (.pulled hle hask) (ih (by omega) hrest)

/-- A run of `recoveryFromP` to its end goes through the loop. -/
theorem path_of_recoveryFromP (rounds : Nat) : ∀ {minID : Nat} {s s' : Sys},
    Runs F (recoveryFromP pnum rounds minID) s () s' →
    Loop.Path F pnum (.next minID, s) (.done, s') := by
  induction rounds with
  | zero =>
    intro minID s s' h
    cases (Prog.run_abort h).1
  | succ rounds ih =>
    intro minID s s' h
    rw [recoveryFromP_succ] at h
    obtain ⟨r, s₁, hchoose, hrest⟩ := Prog.run_of_bind h
    by_cases hr : r.1 = 0
    · rw [if_pos hr] at hrest
      obtain ⟨-, henv⟩ := Prog.run_ret hrest
      exact .single (.leave (Runs.env hchoose henv) hr)
    · rw [if_neg hr] at hrest
      obtain ⟨m, s₂, hpull, hnext⟩ := Prog.run_of_bind hrest
      exact (Relation.ReflTransGen.head (.lead hchoose hr) (path_of_pull _ rfl hpull)).trans (ih hnext)

/-- A state within the inner loop. -/
theorem during_pull {leader maxID : Nat} (count : Nat) : ∀ {minID : Nat} {s s' : Sys} {p : Proc Nat},
    count = maxID + 1 - minID →
    Relation.ReflTransGen (Prog.Step (Sys.Step F) (Env F)) (pull pnum leader count minID, s) (p, s') →
    ∃ l s₁, Loop.Path F pnum (.ask leader maxID minID, s) (l, s₁) ∧ Loop.During F pnum (l, s₁) s' := by
  induction count with
  | zero =>
    intro minID s s' p hcount h
    obtain ⟨-, henv⟩ := Prog.run_ret h
    exact ⟨.next minID, s', .single (.finished (by omega) henv), .next .refl⟩
  | succ count ih =>
    intro minID s s' p hcount h
    have hle : minID ≤ maxID := by omega
    rw [pull_succ] at h
    rcases Prog.run_parts _ _ h with ⟨p', -, hask⟩ | ⟨pulled, s₁, hask, hrest⟩
    · exact ⟨_, s, .refl, .ask hle hask⟩
    · cases pulled with
      | false =>
        obtain ⟨-, henv⟩ := Prog.run_ret hrest
        exact ⟨.next minID, s', .single (.failed hle (Runs.env hask henv)), .next .refl⟩
      | true =>
        obtain ⟨l, s₂, hpath, hduring⟩ := ih (by omega) hrest
        exact ⟨l, s₂, .head (.pulled hle hask) hpath, hduring⟩

/-- Every state of a run belongs to a part of the loop. -/
theorem during_recoveryFromP (rounds : Nat) : ∀ {minID : Nat} {s s' : Sys} {p : Proc Unit},
    Relation.ReflTransGen (Prog.Step (Sys.Step F) (Env F))
      (recoveryFromP pnum rounds minID, s) (p, s') →
    ∃ l s₁, Loop.Path F pnum (.next minID, s) (l, s₁) ∧ Loop.During F pnum (l, s₁) s' := by
  induction rounds with
  | zero =>
    intro minID s s' p h
    exact ⟨_, s, .refl, .next (Prog.run_env (Prog.run_abort h).2)⟩
  | succ rounds ih =>
    intro minID s s' p h
    rw [recoveryFromP_succ] at h
    rcases Prog.run_parts _ _ h with ⟨p', -, hchoose⟩ | ⟨r, s₁, hchoose, hrest⟩
    · exact ⟨_, s, .refl, .next hchoose⟩
    by_cases hr : r.1 = 0
    · rw [if_pos hr] at hrest
      obtain ⟨-, henv⟩ := Prog.run_ret hrest
      exact ⟨_, s, .refl, .next (Runs.env hchoose henv)⟩
    · rw [if_neg hr] at hrest
      have hlead : Loop.Path F pnum (.next minID, s) (.ask r.1 r.2 minID, s₁) :=
        .single (.lead hchoose hr)
      rcases Prog.run_parts _ _ hrest with ⟨p', -, hpull⟩ | ⟨m, s₂, hpull, hnext⟩
      · obtain ⟨l, s₂, hpath, hduring⟩ := during_pull _ rfl hpull
        exact ⟨l, s₂, hlead.trans hpath, hduring⟩
      · obtain ⟨l, s₃, hpath, hduring⟩ := ih hnext
        exact ⟨l, s₃, (hlead.trans (path_of_pull _ rfl hpull)).trans hpath, hduring⟩

/-- Each operation can be carried out if each request has some outcome. -/
theorem step_total (hchoice : ∀ id, ∃ x, F.choice id x) (o : Op) (s : Sys) :
    ∃ r s', Sys.Step F o s r s' := by
  cases o with
  | wait l sem => exact ⟨(), s, rfl⟩
  | post l sem =>
    obtain ⟨ch, side, id⟩ := l
    cases side with
    | ret => exact ⟨(), s, rfl⟩
    | task =>
      cases sem with
      | empty => exact ⟨(), s, rfl⟩
      | mutex => exact ⟨(), s, rfl⟩
      | full =>
        obtain ⟨x, hx⟩ := hchoice id
        exact ⟨(), _, x, hx, rfl⟩
  | setTask ch id task => exact ⟨(), _, rfl⟩
  | readRet ch id => exact ⟨_, s, rfl, rfl⟩
  | readData ch id => exact ⟨_, s, rfl, rfl⟩
  | readMem => exact ⟨_, s, rfl, rfl⟩
  | updateMem f => exact ⟨(), _, rfl⟩

end Program

/-! ## What the operations do to the table -/

/-- The table has the participants in the recovery state, and no others. -/
def Entry.Listed (e : Entry) : Prop := e.maxTxid ≠ none ↔ e.pstate = .P_RECOVERY

/-- The recovery thread holds the mutexes, and the table has the participants in the recovery
state. -/
structure Table (s : Sys) : Prop where
  running : s.rpc = .running
  listed : ∀ id, (s.c.p id).Listed

/-- From one entry to a later one: what has left the table is not in it again, and who waits goes on
waiting. -/
structure Entry.Onward (e e' : Entry) : Prop where
  table : e.maxTxid = none → e'.maxTxid = none
  waiting : e.pstate = .P_WAITING → e'.pstate = .P_WAITING

/-- From one state to a later one. -/
structure Onward (s s' : Sys) : Prop where
  txid_le : s.c.TXID ≤ s'.c.TXID
  entry : ∀ id, (s.c.p id).Onward (s'.c.p id)

theorem Entry.Onward.refl (e : Entry) : e.Onward e := ⟨fun h => h, fun h => h⟩

theorem Onward.refl (s : Sys) : Onward s s := ⟨Nat.le_refl _, fun _ => Entry.Onward.refl _⟩

theorem Onward.trans {s s' s'' : Sys} (h : Onward s s') (h' : Onward s' s'') : Onward s s'' where
  txid_le := h.txid_le.trans h'.txid_le
  entry := fun id => ⟨fun hm => (h'.entry id).table ((h.entry id).table hm),
    fun hw => (h'.entry id).waiting ((h.entry id).waiting hw)⟩

section Rounds

variable {e : Entry} {n : Node}

/-- An entry with other buffers. -/
theorem Entry.Listed.same {e' : Entry} (h : e.Listed) (htable : e'.maxTxid = e.maxTxid)
    (hstate : e'.pstate = e.pstate) : e.Onward e' ∧ e'.Listed := by
  refine ⟨⟨fun hm => htable.trans hm, fun hw => hstate.trans hw⟩, ?_⟩
  rw [Entry.Listed, htable, hstate]
  exact h

/-- A participant that is not in the recovery state may be given up. -/
theorem Entry.Listed.drop {e' : Entry} (htable : e'.maxTxid = none)
    (hstate : e'.pstate = .P_WAITING) : e.Onward e' ∧ e'.Listed := by
  refine ⟨⟨fun _ => htable, fun _ => hstate⟩, ?_⟩
  rw [Entry.Listed, htable, hstate]
  simp

theorem pWorking_listed (x : Choice) (id : Nat) (h : e.Listed) :
    e.Onward (pWorking x id e n).entry ∧ (pWorking x id e n).entry.Listed := by
  unfold pWorking
  by_cases hst : e.pstate = .P_WORKING
  · rw [if_neg (not_not.mpr hst)]
    have hnone : e.maxTxid = none := by
      by_contra hm
      cases hst.symm.trans (h.mp hm)
    dsimp only
    split
    · exact Entry.Listed.drop hnone rfl
    · exact h.same rfl rfl
  · rw [if_pos hst]
    exact h.same rfl rfl

theorem pRecovery_listed (x : Choice) (id : Nat) (h : e.Listed) :
    e.Onward (pRecovery x id e n).entry ∧ (pRecovery x id e n).entry.Listed := by
  unfold pRecovery
  by_cases hst : e.pstate = .P_RECOVERY
  · rw [if_neg (not_not.mpr hst)]
    obtain ⟨m, hm⟩ := Option.ne_none_iff_exists'.mp (h.mpr hst)
    -- The participant keeps an entry as long as it is in the recovery state.
    have hkeep : ∀ e' : Entry, e'.maxTxid ≠ none → e'.pstate = .P_RECOVERY →
        e.Onward e' ∧ e'.Listed := by
      intro e' hm' hst'
      refine ⟨⟨fun hnone => ?_, fun hw => ?_⟩, iff_of_true hm' hst'⟩
      · rw [hm] at hnone
        cases hnone
      · cases hst.symm.trans hw
    -- Reading the number of a participant that has an entry makes none.
    have hread : ∀ l : Log,
        (if TXID_START ≤ l.ID then { e with maxTxid := some (e.maxTxid.getD 0) } else e) = e := by
      intro l
      rw [hm, Option.getD_some, ← hm]
      exact ite_self e
    dsimp only
    cases strToLog (e.buf .recovery).task with
    | none => exact h.same rfl rfl
    | some l =>
      dsimp only
      rw [hread l]
      split
      · exact h.same rfl rfl
      · split
        · exact Entry.Listed.drop rfl rfl
        · split
          · exact hkeep _ (Option.some_ne_none _) hst
          · exact h.same rfl rfl
  · rw [if_pos hst]
    exact h.same rfl rfl

end Rounds

/-- An operation that neither writes an entry of a participant nor lowers the counter. -/
def Op.Quiet : Op → Prop
  | .updateMem f => ∀ c, (f c).p = c.p ∧ c.TXID ≤ (f c).TXID
  | _ => True

section Operations

variable {F : Faults} {pnum : Nat} {s s' : Sys}

theorem Table.next (h : Table s) (hrpc : s'.rpc = s.rpc) (htxid : s.c.TXID ≤ s'.c.TXID)
    (hp : ∀ id, (s.c.p id).Onward (s'.c.p id) ∧ (s'.c.p id).Listed) : Onward s s' ∧ Table s' :=
  ⟨⟨htxid, fun id => (hp id).1⟩, hrpc.trans h.running, fun id => (hp id).2⟩

theorem Table.same (h : Table s) (hrpc : s'.rpc = s.rpc) (htxid : s.c.TXID ≤ s'.c.TXID)
    (hp : s'.c.p = s.c.p) : Onward s s' ∧ Table s' := by
  refine h.next hrpc htxid fun id => ?_
  rw [hp]
  exact ⟨Entry.Onward.refl _, h.listed id⟩

/-- One entry is written. -/
theorem Table.update (h : Table s) {id : Nat} {e : Entry} (hrpc : s'.rpc = s.rpc)
    (htxid : s'.c.TXID = s.c.TXID) (hp : s'.c.p = Function.update s.c.p id e)
    (he : (s.c.p id).Onward e ∧ e.Listed) : Onward s s' ∧ Table s' := by
  refine h.next hrpc htxid.ge fun j => ?_
  rw [hp]
  by_cases hj : j = id
  · subst hj
    rwa [Function.update_self]
  · rw [Function.update_of_ne hj]
    exact ⟨Entry.Onward.refl _, h.listed j⟩

theorem workerRound_listed {e : Entry} {n : Node} (ch : Chan) (x : Choice) (id : Nat)
    (h : e.Listed) :
    e.Onward (workerRound ch x id e n).entry ∧ (workerRound ch x id e n).entry.Listed := by
  cases ch with
  | working => exact pWorking_listed x id h
  | recovery => exact pRecovery_listed x id h

theorem Table.step {o : Op} {r : o.Res} (h : Table s) (ho : o.Quiet) (hs : Sys.Step F o s r s') :
    Onward s s' ∧ Table s' := by
  cases o with
  | wait l sem =>
    obtain rfl : s' = s := hs
    exact h.same rfl le_rfl rfl
  | post l sem =>
    obtain ⟨ch, side, id⟩ := l
    -- Only the post that hands over a task starts a round of the worker.
    have hidle : s' = s → Onward s s' ∧ Table s' := by
      rintro rfl
      exact h.same rfl le_rfl rfl
    cases side with
    | ret => exact hidle hs
    | task =>
      cases sem with
      | empty => exact hidle hs
      | mutex => exact hidle hs
      | full =>
        obtain ⟨x, -, rfl⟩ := hs
        exact h.update rfl rfl rfl (workerRound_listed ch x id (h.listed id))
  | setTask ch id task =>
    obtain rfl := hs
    exact h.update rfl rfl rfl ((h.listed id).same rfl rfl)
  | readRet ch id =>
    obtain ⟨-, rfl⟩ := hs
    exact h.same rfl le_rfl rfl
  | readData ch id =>
    obtain ⟨-, rfl⟩ := hs
    exact h.same rfl le_rfl rfl
  | readMem =>
    obtain ⟨-, rfl⟩ := hs
    exact h.same rfl le_rfl rfl
  | updateMem f =>
    obtain rfl := hs
    exact h.same rfl (ho s.c).2 (ho s.c).1

/-- While the recovery thread holds the mutexes its surroundings do not change the memory of the
coordinator. -/
theorem Table.env (h : Table s) (hs : Env F s s') : s'.c = s.c ∧ Table s' := by
  cases hs with
  | node _ => exact ⟨rfl, h.running, h.listed⟩
  | connect hrpc _ _ => exact absurd h.running hrpc
  | enter hrpc => cases h.running.symm.trans hrpc
  | begin hrpc _ => cases h.running.symm.trans hrpc
  | done hrpc => cases h.running.symm.trans hrpc

theorem Table.envs (h : Table s) (hs : Relation.ReflTransGen (Env F) s s') :
    s'.c = s.c ∧ Table s' := by
  induction hs with
  | refl => exact ⟨rfl, h⟩
  | tail _ hstep ih =>
    obtain ⟨hc, ht⟩ := ih
    obtain ⟨hc', ht'⟩ := ht.env hstep
    exact ⟨hc'.trans hc, ht'⟩

theorem Onward.of_eq (h : s'.c = s.c) : Onward s s' := by
  refine ⟨by rw [h], fun id => ?_⟩
  rw [h]
  exact Entry.Onward.refl _

/-- A program of quiet operations. -/
abbrev KeepsTable (F : Faults) {α : Type} (p : Proc α) : Prop := Prog.Keeps (Sys.Step F) Onward Table p

theorem keepsTable_perform {o : Op} (ho : o.Quiet) : KeepsTable F (Prog.perform o) :=
  Prog.Keeps.perform fun _ _ _ hJ hs => hJ.step ho hs

/-! ### The parts of the loop are quiet -/

theorem keepsTable_postTask (ch : Chan) (id : Nat) (task : Bytes) :
    KeepsTable F (postTask ch id task) := by
  refine .bind (.bind (keepsTable_perform trivial) fun _ => keepsTable_perform trivial) fun _ => ?_
  refine .bind (keepsTable_perform trivial) fun _ => ?_
  exact .bind (keepsTable_perform trivial) fun _ => keepsTable_perform trivial

theorem keepsTable_cGet (l : Lock) : KeepsTable F (cGet l) :=
  .bind (keepsTable_perform trivial) fun _ => keepsTable_perform trivial

theorem keepsTable_cRelease (l : Lock) : KeepsTable F (cRelease l) :=
  .bind (keepsTable_perform trivial) fun _ => keepsTable_perform trivial

theorem keepsTable_takeReply (ch : Chan) (id : Nat) (cond : Bytes → Bool) :
    KeepsTable F (takeReply ch id cond) := by
  refine .bind (keepsTable_cGet _) fun _ => ?_
  refine .bind (.bind (keepsTable_perform trivial) fun ret => ?_) fun _ => ?_
  · split
    · exact .bind (keepsTable_perform trivial) fun _ => trivial
    · exact trivial
  · exact .bind (keepsTable_cRelease _) fun _ => trivial

theorem keepsTable_skipReply (ch : Chan) (id : Nat) : KeepsTable F (skipReply ch id) :=
  .bind (keepsTable_cGet _) fun _ => keepsTable_cRelease _

theorem keepsTable_relay (rc : Bytes) (ids : List Nat) : KeepsTable F (relay rc ids) := by
  induction ids with
  | nil => exact trivial
  | cons id ids ih =>
    refine .bind (keepsTable_postTask _ _ _) fun _ => ?_
    exact .bind (keepsTable_skipReply _ _) fun _ => ih

theorem keepsTable_pushLog (tid : Nat) (ids : List Nat) : KeepsTable F (pushLog tid ids) := by
  induction ids with
  | nil => exact trivial
  | cons id ids ih =>
    refine .bind (keepsTable_perform trivial) fun _ => .bind (.ofOption _) fun _ => ?_
    refine .bind (keepsTable_postTask _ _ _) fun _ => ?_
    exact .bind (keepsTable_skipReply _ _) fun _ => ih

theorem keepsTable_pushLogs (tids : List Nat) : KeepsTable F (pushLogs pnum tids) := by
  induction tids with
  | nil => exact trivial
  | cons tid tids ih => exact .bind (keepsTable_pushLog _ _) fun _ => ih

theorem keepsTable_recoveryFromC : KeepsTable F (recoveryFromC pnum) :=
  .bind (keepsTable_perform trivial) fun _ => keepsTable_pushLogs _

theorem storeLog_quiet (l : Log) : (Op.updateMem (storeLog l)).Quiet := by
  intro c
  unfold storeLog
  split
  · exact ⟨rfl, Nat.le_succ _⟩
  · exact ⟨rfl, le_rfl⟩

theorem keepsTable_askLeader (leader minID : Nat) : KeepsTable F (askLeader pnum leader minID) := by
  refine .bind (keepsTable_postTask _ _ _) fun _ => .bind (keepsTable_takeReply _ _ _) fun reply => ?_
  cases reply with
  | none => exact trivial
  | some rc =>
    refine .bind (.ofOption _) fun l => .bind (keepsTable_perform (storeLog_quiet l)) fun _ => ?_
    exact .bind (keepsTable_relay _ _) fun _ => trivial

end Operations

/-! ## The guarantee of the call -/

section Guaranteed

variable {S : Setting} {A : List Nat} {leader maxID minID : Nat}

/-- Every operation goes on from its state. -/
abbrev Forward (s s' : Sys) : Prop := Onward s s' ∧ Table s'

theorem forward_env {F : Faults} (s s' : Sys) (h : Table s) (hs : Env F s s') : Forward s s' := by
  obtain ⟨hc, ht⟩ := h.env hs
  exact ⟨Onward.of_eq hc, ht⟩

theorem Assert.table {G : GlobalPred} {W : Nat → Option Nat} {lo hi : Nat} {s : Sys}
    (h : Assert S true G (Tabled S.steady A W lo hi) s) : Table s := by
  refine ⟨h.mutex.2 rfl, fun id => ⟨fun hne => ?_, (h.peers id).listed⟩⟩
  obtain ⟨m, hm⟩ := Option.ne_none_iff_exists'.1 hne
  exact ((h.peers id).entry m hm).2.1

theorem Head.table {s : Sys} (h : Head S A minID s) : Table s := by
  obtain ⟨T, hi, W, -, -, -, hs⟩ := h
  exact hs.table

theorem forward_askLeader (hM : minID ≤ maxID) :
    Prog.Triple (Sys.Step S.faults) (Env S.faults) Forward (Pulling S A leader maxID minID)
      (askLeader S.pnum leader minID) fun pulled s =>
        if pulled then Pulling S A leader maxID (minID + 1) s else Head S A minID s :=
  fun s hs => Prog.Keeps.wp (fun _ _ hJ henv => (hJ.env henv).2) _ (keepsTable_askLeader _ _)
    hs.tabled.table (spec_askLeader hM s hs)

/-- A leader is in the recovery state, so that it does not come back from the waiting state. -/
theorem Table.promote {s : Sys} (h : Table s) {m : Nat} (hm : (s.c.p leader).maxTxid = some m) :
    Forward s { s with c := promoteLeader leader s.c } := by
  have hst : (s.c.p leader).pstate = .P_RECOVERY :=
    (h.listed leader).1 (by rw [hm]; exact Option.some_ne_none m)
  refine h.update rfl rfl rfl ⟨⟨fun _ => rfl, fun hw => ?_⟩, ?_⟩
  · cases hst.symm.trans hw
  · exact iff_of_false (fun hne => hne rfl) (fun h => by cases h)

theorem forward_chooseLeader (hnd : A.Nodup) (hA : ∀ id ∈ A, id ∈ pids S.pnum) :
    Prog.Triple (Sys.Step S.faults) (Env S.faults) Forward (Head S A minID) (chooseLeader S.pnum)
      fun r s => if r.1 = 0 then ∃ T, Assert S true (fun t _ _ => t = T) (Settled S.steady T) s
        else r.1 ∈ A ∧ Pulling S (A.erase r.1) r.1 r.2 minID s := by
  intro s hs s₁ henv c s₂ hread
  obtain ⟨-, ht⟩ := hs.table.envs henv
  have hw := (spec_chooseLeader hnd hA s hs s₁ henv c s₂ hread).2
  obtain ⟨rfl, rfl⟩ := hread
  refine ⟨⟨Onward.refl _, ht⟩, ?_⟩
  simp only [Prog.bind] at hw ⊢
  by_cases hzero : (getRecoveryLeader s₂.c (pids S.pnum)).1 = 0
  · rw [if_pos hzero] at hw ⊢
    exact Prog.Keeps.wp (fun _ _ hJ henv => (hJ.env henv).2) _
      (.bind keepsTable_recoveryFromC fun _ => trivial) ht hw
  · rw [if_neg hzero] at hw ⊢
    rcases getRecoveryLeader_spec (c := s₂.c) (zero_notMem_pids S.pnum) with ⟨hno, -⟩ | ⟨-, -, hm, -, -⟩
    · exact absurd hno hzero
    -- The entry of the leader is still there when it is promoted.
    intro s₃ henv₃ _ s₄ hpromote
    obtain ⟨hc, ht₃⟩ := ht.envs henv₃
    refine ⟨?_, (hw s₃ henv₃ _ s₄ hpromote).2⟩
    obtain rfl := hpromote
    exact ht₃.promote (by rw [hc]; exact hm)

/-- Every operation of the call goes on from its state. -/
theorem forward_recoveryFromP {s : Sys} (h : Called S minID s) :
    Prog.wp (Sys.Step S.faults) (Env S.faults) Forward (recoveryFromP S.pnum (S.pnum + 1) minID)
      (fun _ s => ∃ T, Assert S true (fun t _ _ => t = T) (Settled S.steady T) s) s :=
  triple_recoveryFromP (fun _ _ hnd hA => forward_chooseLeader hnd hA)
    (fun _ _ _ _ hM => forward_askLeader hM) (S.pnum + 1) (pids S.pnum) minID (nodup_pids _)
    (fun _ h => h) (by rw [length_pids]; omega) s h.head

end Guaranteed

/-! ## The loop ends -/

/-- The participants that may still become leaders. -/
def leaders (pnum : Nat) (s : Sys) : List Nat :=
  (pids pnum).filter fun id => (s.c.p id).maxTxid.isSome

/-- How far the loop is from its next choice of a leader. -/
def Loop.stage : Loop → Nat
  | .next _ => 1
  | .ask _ maxID minID => maxID + 3 - minID
  | .done => 0

/-- Each part lowers the number of possible leaders, or keeps it and comes nearer to the next
choice. -/
def Loop.rank (pnum : Nat) (x : Loop × Sys) : Nat ×ₗ Nat :=
  toLex ((leaders pnum x.2).length, x.1.stage)

/-- What holds between two parts of the loop. -/
def Loop.Inv (S : Setting) : Loop → Sys → Prop
  | .next minID, s => ∃ A : List Nat, (∀ id ∈ A, id ∈ pids S.pnum) ∧ Head S A minID s
  | .ask leader maxID minID, s =>
      ∃ A : List Nat, (∀ id ∈ A, id ∈ pids S.pnum) ∧ Pulling S A leader maxID minID s
  | .done, _ => True

section Ends

variable {S : Setting} {A : List Nat} {leader maxID minID : Nat} {s s' : Sys}

theorem mem_leaders {pnum id : Nat} :
    id ∈ leaders pnum s ↔ id ∈ pids pnum ∧ (s.c.p id).maxTxid ≠ none := by
  rw [leaders, List.mem_filter, Option.isSome_iff_ne_none]

theorem Onward.leaders_sublist {pnum : Nat} (h : Onward s s') :
    (leaders pnum s').Sublist (leaders pnum s) := by
  refine List.monotone_filter_right _ fun id hid => ?_
  rw [Option.isSome_iff_ne_none] at hid ⊢
  exact fun hnone => hid ((h.entry id).table hnone)

/-- The possible leaders are those that the table still has. -/
theorem Head.leaders (h : Head S A minID s) (hA : ∀ id ∈ A, id ∈ pids S.pnum) :
    Head S (leaders S.pnum s) minID s := by
  obtain ⟨T, hi, W, hk, hkT, hW, hs⟩ := h
  refine ⟨T, hi, W, hk, hkT, hW, hs.core, hs.mutex, hs.global, fun id => ?_⟩
  refine (hs.peers id).mono (fun m hm => ?_) fun _ _ hw => hw
  obtain ⟨hid, -, hlo, hhi, -⟩ := (hs.peers id).entry m hm
  exact ⟨mem_leaders.2 ⟨hA id hid, by rw [hm]; exact Option.some_ne_none m⟩, hlo, hhi⟩

theorem head_stable (S : Setting) (A : List Nat) (minID : Nat) :
    Prog.Stable (Env S.faults) (Head S A minID) := by
  rintro s s' ⟨T, hi, W, hk, hkT, hW, hs⟩ henv
  exact ⟨T, hi, W, hk, hkT, hW, Assert.stable (tabled_stable S A W TXID_START hi) s s' hs henv⟩

theorem pulling_stable (S : Setting) (A : List Nat) (leader maxID minID : Nat) :
    Prog.Stable (Env S.faults) (Pulling S A leader maxID minID) := by
  rintro s s' ⟨hk, hM, hid, hA, hs⟩ henv
  exact ⟨hk, hM, hid, hA, Assert.stable (tabled_stable S A _ TXID_START maxID) s s' hs henv⟩

theorem settled_all_stable (S : Setting) : Prog.Stable (Env S.faults)
    fun s => ∃ T, Assert S true (fun t _ _ => t = T) (Settled S.steady T) s := by
  rintro s s' ⟨T, hs⟩ henv
  exact ⟨T, Assert.stable (settled_stable S T) s s' hs henv⟩

/-- What a run of a part guarantees, and what it ends with. -/
theorem forward_run {α : Type} {p p' : Proc α} {Q : α → Sys → Prop}
    (hQ : ∀ a, Prog.Stable (Env S.faults) (Q a))
    (hw : Prog.wp (Sys.Step S.faults) (Env S.faults) Forward p Q s) (ht : Table s)
    (h : Relation.ReflTransGen (Prog.Step (Sys.Step S.faults) (Env S.faults)) (p, s) (p', s')) :
    Onward s s' ∧ ∀ a, p' = .ret a → Q a s' := by
  refine ⟨(Prog.wp_guar hQ Onward.refl Onward.trans forward_env hw ht h).1, ?_⟩
  rintro a rfl
  exact Prog.wp_steps _ _ _ hQ hw h

theorem chooseLeader_run {p : Proc (Nat × Nat)} (hs : Head S A minID s)
    (hA : ∀ id ∈ A, id ∈ pids S.pnum)
    (h : Relation.ReflTransGen (Prog.Step (Sys.Step S.faults) (Env S.faults))
      (chooseLeader S.pnum, s) (p, s')) :
    Onward s s' ∧ ∀ r, p = .ret r → r.1 ≠ 0 → r.1 ∈ leaders S.pnum s ∧
      r.1 ∉ leaders S.pnum s' ∧
      Pulling S ((leaders S.pnum s).erase r.1) r.1 r.2 minID s' := by
  have hnd : (leaders S.pnum s).Nodup := (nodup_pids _).filter _
  obtain ⟨hon, hpost⟩ := forward_run (fun r s₁ s₂ hr henv => by
      split at hr
      · rw [if_pos ‹_›]
        exact settled_all_stable S _ _ hr henv
      · rw [if_neg ‹_›]
        exact ⟨hr.1, pulling_stable S _ _ _ _ _ _ hr.2 henv⟩)
    (forward_chooseLeader hnd (fun id hid => (mem_leaders.1 hid).1) s (hs.leaders hA)) hs.table h
  refine ⟨hon, fun r hr hne => ?_⟩
  have hr' := hpost r hr
  rw [if_neg hne] at hr'
  obtain ⟨hmem, hpull⟩ := hr'
  refine ⟨hmem, fun hin => ?_, hpull⟩
  -- The table of the new state has none but the leaders that are left.
  obtain ⟨m, hm⟩ := Option.ne_none_iff_exists'.1 (mem_leaders.1 hin).2
  exact hpull.notMem ((hpull.tabled.peers r.1).entry m hm).1

theorem askLeader_run {p : Proc Bool} (hs : Pulling S A leader maxID minID s) (hle : minID ≤ maxID)
    (h : Relation.ReflTransGen (Prog.Step (Sys.Step S.faults) (Env S.faults))
      (askLeader S.pnum leader minID, s) (p, s')) :
    Onward s s' ∧ ∀ pulled, p = .ret pulled →
      if pulled then Pulling S A leader maxID (minID + 1) s' else Head S A minID s' := by
  refine forward_run (fun pulled => ?_) (forward_askLeader hle s hs) hs.tabled.table h
  cases pulled with
  | true => exact pulling_stable S A leader maxID (minID + 1)
  | false => exact head_stable S A minID

/-- The bound is not above the counter of the coordinator. -/
theorem Loop.Inv.minID_le {l : Loop} {m : Nat} (h : l.Inv S s) (hm : l.minID = some m) :
    m ≤ s.c.TXID := by
  cases l with
  | next minID =>
    obtain rfl := Option.some.inj hm
    obtain ⟨A, -, T, hi, W, -, hkT, -, hs⟩ := h
    exact hkT.trans_eq hs.global.symm
  | ask leader maxID minID =>
    obtain rfl := Option.some.inj hm
    obtain ⟨A, -, hpull⟩ := h
    exact hpull.tabled.global.1
  | done => cases hm

theorem Loop.Inv.during {l : Loop} (h : l.Inv S s) (hd : Loop.During S.faults S.pnum (l, s) s') :
    Onward s s' := by
  cases hd with
  | next hrun =>
    obtain ⟨A, hA, hs⟩ := h
    exact (chooseLeader_run hs hA hrun).1
  | ask hle hrun =>
    obtain ⟨A, hA, hs⟩ := h
    exact (askLeader_run hs hle hrun).1

/-- One part of the loop keeps the invariant and lowers the rank. -/
theorem Loop.Inv.step {l l' : Loop} (h : l.Inv S s)
    (hs : Loop.Step S.faults S.pnum (l, s) (l', s')) :
    l'.Inv S s' ∧ Loop.rank S.pnum (l', s') < Loop.rank S.pnum (l, s) := by
  have hlower : Onward s s' → l'.stage < l.stage →
      Loop.rank S.pnum (l', s') < Loop.rank S.pnum (l, s) := fun hon hstage =>
    Prod.Lex.toLex_lt_toLex'.2 ⟨hon.leaders_sublist.length_le, fun _ => hstage⟩
  cases hs with
  | leave hrun hr =>
    obtain ⟨A, hA, hhead⟩ := h
    exact ⟨trivial, hlower (chooseLeader_run hhead hA hrun).1 Nat.zero_lt_one⟩
  | lead hrun hr =>
    obtain ⟨A, hA, hhead⟩ := h
    obtain ⟨hon, hpost⟩ := chooseLeader_run hhead hA hrun
    obtain ⟨hmem, hnotMem, hpull⟩ := hpost _ rfl hr
    refine ⟨⟨_, fun id hid => (mem_leaders.1 (List.mem_of_mem_erase hid)).1, hpull⟩, ?_⟩
    -- The leader is one of the possible leaders no more.
    refine Prod.Lex.toLex_lt_toLex.2 (Or.inl ?_)
    refine hon.leaders_sublist.length_le.lt_of_ne fun heq => hnotMem ?_
    rw [hon.leaders_sublist.eq_of_length heq]
    exact hmem
  | pulled hle hrun =>
    obtain ⟨A, hA, hpull⟩ := h
    obtain ⟨hon, hpost⟩ := askLeader_run hpull hle hrun
    exact ⟨⟨A, hA, hpost true rfl⟩, hlower hon (by simp only [Loop.stage]; omega)⟩
  | failed hle hrun =>
    obtain ⟨A, hA, hpull⟩ := h
    obtain ⟨hon, hpost⟩ := askLeader_run hpull hle hrun
    exact ⟨⟨A, hA, hpost false rfl⟩, hlower hon (by simp only [Loop.stage]; omega)⟩
  | finished hlt henv =>
    obtain ⟨A, hA, hpull⟩ := h
    have hle := hpull.le_max
    obtain ⟨hc, -⟩ := hpull.tabled.table.envs henv
    exact ⟨⟨A, hA, (head_stable S A _).closure _ (hpull.over hlt) henv⟩,
      hlower (Onward.of_eq hc) (by simp only [Loop.stage]; omega)⟩

theorem Loop.Inv.path {x y : Loop × Sys} (h : x.1.Inv S x.2)
    (hp : Loop.Path S.faults S.pnum x y) : y.1.Inv S y.2 := by
  induction hp with
  | refl => exact h
  | tail _ hs ih => exact (Loop.Inv.step ih hs).1

/-- Before `break` the loop goes on. -/
theorem Loop.Inv.moves {l : Loop} (h : l.Inv S s) (hchoice : ∀ id, ∃ x, S.faults.choice id x)
    (hl : l ≠ .done) : ∃ y, Loop.Step S.faults S.pnum (l, s) y := by
  cases l with
  | next minID =>
    obtain ⟨A, hA, hhead⟩ := h
    obtain ⟨r, s', hrun⟩ := Prog.wp_complete (step_total hchoice) _
      (spec_chooseLeader ((nodup_pids _).filter _) (fun id hid => (mem_leaders.1 hid).1) s
        (hhead.leaders hA))
    by_cases hr : r.1 = 0
    · exact ⟨_, .leave hrun hr⟩
    · exact ⟨_, .lead hrun hr⟩
  | ask leader maxID minID =>
    obtain ⟨A, hA, hpull⟩ := h
    by_cases hle : minID ≤ maxID
    · obtain ⟨pulled, s', hrun⟩ := Prog.wp_complete (step_total hchoice) _ (spec_askLeader hle s hpull)
      cases pulled with
      | true => exact ⟨_, .pulled hle hrun⟩
      | false => exact ⟨_, .failed hle hrun⟩
    · exact ⟨_, .finished (Nat.lt_of_not_le hle) .refl⟩
  | done => exact absurd rfl hl

end Ends

/-- The runs of `recoveryFromP` from a state. -/
abbrev CallRun (S : Setting) : Proc Unit × Sys → Proc Unit × Sys → Prop :=
  Relation.ReflTransGen (Prog.Step (Sys.Step S.faults) (Env S.faults))

/-- The call with the bound `minID` gets to its `break`, whatever fails. -/
structure Terminates (S : Setting) (minID : Nat) (s : Sys) : Prop where
  /-- No run gets to the bound on the rounds, and each of its states belongs to a part of the
  loop. -/
  parts : ∀ p s', CallRun S (recoveryFromP S.pnum (S.pnum + 1) minID, s) (p, s') →
    p ≠ .abort ∧ ∃ l s₁, Loop.Path S.faults S.pnum (.next minID, s) (l, s₁) ∧
      Loop.During S.faults S.pnum (l, s₁) s'
  /-- A run to the end is a path to `break`. -/
  ends : ∀ s', CallRun S (recoveryFromP S.pnum (S.pnum + 1) minID, s) (.ret (), s') →
    Loop.Path S.faults S.pnum (.next minID, s) (.done, s')
  /-- There are finitely many parts. -/
  finite : ¬ ∃ f : Nat → Loop × Sys, f 0 = (.next minID, s) ∧
    ∀ n, Loop.Step S.faults S.pnum (f n) (f (n + 1))
  /-- Before `break` there is a next part. -/
  moves : (∀ id, ∃ x, S.faults.choice id x) → ∀ l s₁,
    Loop.Path S.faults S.pnum (.next minID, s) (l, s₁) → l ≠ .done →
      ∃ y, Loop.Step S.faults S.pnum (l, s₁) y
  /-- A pass takes one participant out of the possible leaders. -/
  leader : ∀ m s₁ l s₂, Loop.Path S.faults S.pnum (.next minID, s) (.next m, s₁) →
    Loop.Step S.faults S.pnum (.next m, s₁) (l, s₂) → l = .done ∨
      ∃ leader maxID, l = .ask leader maxID m ∧ leader ∈ leaders S.pnum s₁ ∧
        leader ∉ leaders S.pnum s₂
  /-- From a state to a later one of the call nobody comes into the table, nobody comes back from
  the waiting state, and the counter does not fall. -/
  onward : ∀ c₁ c₂, CallRun S (recoveryFromP S.pnum (S.pnum + 1) minID, s) c₁ → CallRun S c₁ c₂ →
    Onward c₁.2 c₂.2
  /-- The bound is never above the counter. -/
  bound : ∀ l s₁ m, Loop.Path S.faults S.pnum (.next minID, s) (l, s₁) → l.minID = some m →
    m ≤ s₁.c.TXID ∧ ∀ s₂, Loop.During S.faults S.pnum (l, s₁) s₂ → m ≤ s₂.c.TXID

/-- **`recoveryFromP` ends under any failures.** -/
theorem recoveryFromP_terminates {S : Setting} {minID : Nat} {s : Sys} (h : Called S minID s) :
    Terminates S minID s := by
  have hinv : (Loop.next minID).Inv S s := ⟨pids S.pnum, fun _ hid => hid, h.head⟩
  have hw := forward_recoveryFromP h
  have hQ := fun _ : Unit => settled_all_stable S
  constructor
  case parts =>
    intro p s' hrun
    refine ⟨?_, during_recoveryFromP _ hrun⟩
    rintro rfl
    exact Prog.wp_steps _ _ _ hQ hw hrun
  case ends => exact fun s' hrun => path_of_recoveryFromP _ hrun
  case finite =>
    rintro ⟨f, hf, hstep⟩
    have hreach : ∀ n, (f n).1.Inv S (f n).2 := by
      intro n
      induction n with
      | zero =>
        rw [hf]
        exact hinv
      | succ n ih => exact (ih.step (hstep n)).1
    -- The rank falls with every part.
    obtain ⟨n, hn⟩ := WellFounded.not_rel_apply_succ (r := (· < ·)) fun n => Loop.rank S.pnum (f n)
    exact hn ((hreach n).step (hstep n)).2
  case moves =>
    intro hchoice l s₁ hpath hl
    exact Loop.Inv.moves (Loop.Inv.path (x := (.next minID, s)) hinv hpath) hchoice hl
  case leader =>
    intro m s₁ l s₂ hpath hstep
    obtain ⟨A, hA, hhead⟩ := Loop.Inv.path (x := (.next minID, s)) hinv hpath
    cases hstep with
    | leave _ _ => exact Or.inl rfl
    | lead hrun hr =>
      obtain ⟨hmem, hnotMem, -⟩ := (chooseLeader_run hhead hA hrun).2 _ rfl hr
      exact Or.inr ⟨_, _, rfl, hmem, hnotMem⟩
  case onward =>
    intro c₁ c₂ hrun₁ hrun₂
    obtain ⟨-, ht⟩ := Prog.wp_guar hQ Onward.refl Onward.trans forward_env hw h.head.table hrun₁
    exact (Prog.wp_guar hQ Onward.refl Onward.trans forward_env (Prog.wp_steps _ _ _ hQ hw hrun₁)
      ht hrun₂).1
  case bound =>
    intro l s₁ m hpath hm
    have hl : l.Inv S s₁ := Loop.Inv.path (x := (.next minID, s)) hinv hpath
    have hle := hl.minID_le hm
    exact ⟨hle, fun s₂ hduring => hle.trans (hl.during hduring).txid_le⟩

/-- A recovery run of a system with one participant, whose number is above the coordinator's and
which has restarted since it told it. -/
def Sys.restarted : Sys where
  c := { Coordinator.Init 1 with
    p := fun id => if id = 1 then { Entry.Init .P_RECOVERY with maxTxid := some TXID_START }
      else Entry.Init .P_INVALID }
  node := fun _ => ⟨Participant.Init, none, false, false⟩
  hist := []
  aborted := false
  rpc := .running

theorem Sys.restarted_entry (id : Nat) : (id = 1 ∧
      Sys.restarted.c.p id = { Entry.Init .P_RECOVERY with maxTxid := some TXID_START }) ∨
    (id ≠ 1 ∧ Sys.restarted.c.p id = Entry.Init .P_INVALID) := by
  by_cases hid : id = 1
  · exact Or.inl ⟨hid, if_pos hid⟩
  · exact Or.inr ⟨hid, if_neg hid⟩

theorem called_restarted :
    Called (Setting.anything (F := Faults.any fun _ => false) 1 fun _ _ h => nomatch h.1) TXID_START
      Sys.restarted := by
  refine ⟨⟨rfl, ⟨le_rfl, by decide, fun t h₁ h₂ => absurd h₂ (Nat.not_lt.2 h₁)⟩, ?_, fun id => ?_, ?_,
    nofun, fun h₁ y h₂ heq => by simp [Sys.restarted] at heq, fun id hu => hu.elim⟩, rfl, ?_, ?_, ?_, ?_,
    le_rfl, le_rfl⟩
  · rintro m (hm | hm) <;> cases hm
  · exact ⟨⟨Participant.sound_init, fun _ _ _ => trivial⟩, fun task ht => (by cases ht),
      fun ha => (by cases ha), fun hu => hu.elim⟩
  · intro id hid
    rcases Sys.restarted_entry id with ⟨rfl, -⟩ | ⟨-, hp⟩
    · exact absurd (by decide) hid
    · rw [hp]
      rfl
  · intro id
    rcases Sys.restarted_entry id with ⟨-, hp⟩ | ⟨-, hp⟩ <;> rw [hp]
    · exact iff_of_true (Option.some_ne_none _) rfl
    · exact iff_of_false (fun h => h rfl) (fun h => by cases h)
  · intro id m hm
    rcases Sys.restarted_entry id with ⟨-, hp⟩ | ⟨-, hp⟩ <;> rw [hp] at hm
    · obtain rfl := Option.some.inj hm
      exact ⟨Nat.le_succ _, fun hk => by cases hk⟩
    · cases hm
  · intro id hst
    rcases Sys.restarted_entry id with ⟨-, hp⟩ | ⟨-, hp⟩ <;> rw [hp] at hst <;> cases hst
  · intro id hst
    rcases Sys.restarted_entry id with ⟨-, hp⟩ | ⟨-, hp⟩ <;> rw [hp] at hst <;> cases hst

theorem recoveryFromP_terminates_restarted :
    Terminates (Setting.anything (F := Faults.any fun _ => false) 1 fun _ _ h => nomatch h.1) TXID_START
      Sys.restarted :=
  recoveryFromP_terminates called_restarted

end CloudLabs.KvStore
