import CloudLabs.KvStore.Agreement

/-!
# A recovery run in which nothing fails

Let the logs of the coordinator and of the participants be prefixes of one sequence. A call of
`Recovery` during which no connection fails can always be completed, and when it returns the
coordinator and the connected participants have the longest log that one of them had
(`recovery_converges`).

The memory of a participant that is not connected does not matter (`Same.run`), so the invariant of
the call may speak of the connected ones only: no event in their logs has a number from `M` on,
where `M` is the largest counter.
-/

set_option autoImplicit false

namespace CloudLabs.KvStore

open CloudLabs.Foundation

/-! ## Participants that are not connected -/

/-- The states differ at most in the memories of participants that are not connected. -/
structure Same (s t : Sys) : Prop where
  c : t.c = s.c
  aborted : t.aborted = s.aborted
  rpc : t.rpc = s.rpc
  alive : ∀ id, (t.node id).alive = (s.node id).alive
  node : ∀ id, (s.node id).alive = true → t.node id = s.node id
  applied : ∀ id, (s.node id).alive = true → appliedNumbers id t.hist = appliedNumbers id s.hist

section Same

variable {s s' t : Sys}

theorem Same.symm (h : Same s t) : Same t s where
  c := h.c.symm
  aborted := h.aborted.symm
  rpc := h.rpc.symm
  alive id := (h.alive id).symm
  node id ha := (h.node id ((h.alive id).symm.trans ha)).symm
  applied id ha := (h.applied id ((h.alive id).symm.trans ha)).symm

theorem appliedNumbers_append (id : Nat) (h h' : List Exch) :
    appliedNumbers id (h ++ h') = appliedNumbers id h ++ appliedNumbers id h' := by
  simp [appliedNumbers]

theorem appliedNumbers_of_ne {id : Nat} {h : List Exch} (hne : ∀ y ∈ h, y.id ≠ id) :
    appliedNumbers id h = [] := by
  rw [appliedNumbers, List.filter_eq_nil_iff.2 (fun y hy => by simp [hne y hy]), List.map_nil]

/-- What a worker's round does to a participant that is not connected: its memory is left alone, and
what becomes of the entry does not depend on it. -/
theorem workerRound_unconnected (ch : Chan) (id : Nat) (e : Entry) {n n' : Node}
    (hn : n.alive = false) (hn' : n'.alive = false) :
    (workerRound ch .answer id e n').entry = (workerRound ch .answer id e n).entry ∧
    (workerRound ch .answer id e n').failed = (workerRound ch .answer id e n).failed ∧
    (workerRound ch .answer id e n).node.alive = false ∧
    ∀ y ∈ (workerRound ch .answer id e n).sent, y.id = id := by
  have ho {m : Node} (hm : m.alive = false) (task : Bytes) :
      sendAndRecv .answer m task = ⟨KV_NETWORK, [], false, m⟩ := by
    simp [sendAndRecv, hm]
  cases ch with
  | working =>
      simp only [workerRound, pWorking, ho hn, ho hn']
      split
      · exact ⟨rfl, rfl, hn, List.forall_mem_nil _⟩
      · simp [network_ne]
  | recovery =>
      simp only [workerRound, pRecovery, ho hn, ho hn']
      split
      · exact ⟨rfl, rfl, hn, List.forall_mem_nil _⟩
      · cases strToLog (e.buf Chan.recovery).task with
        | none => exact ⟨rfl, rfl, hn, List.forall_mem_nil _⟩
        | some l =>
            by_cases hl : TXID_START ≤ l.ID
            · simp only [hl, if_true, true_and, Option.getD_some]
              split
              · exact ⟨rfl, rfl, hn, List.forall_mem_nil _⟩
              · simp [network_ne]
            · simp [hl, network_ne]

theorem workerRound_alive (ch : Chan) (x : Choice) (id : Nat) (e : Entry) {n : Node}
    (hn : n.alive = false) : (workerRound ch x id e n).node.alive = false := by
  rcases workerRound_node ch x id e n with h | ⟨task, h | h⟩ <;> rw [h]
  · exact hn
  · cases x <;> simp [sendAndRecv, hn]
  · rfl

theorem Same.work (h : Same s t) (ch : Chan) (id : Nat) :
    Same (s.work id (workerRound ch .answer id (s.c.p id) (s.node id)))
      (t.work id (workerRound ch .answer id (t.c.p id) (t.node id))) := by
  have hc := h.c
  have hrpc := h.rpc
  have hab := h.aborted
  by_cases ha : (s.node id).alive = true
  · -- the same round on both sides
    have hn := h.node id ha
    rw [hc, hn]
    refine ⟨by simp [Sys.work, hc], by simp [Sys.work, hab], hrpc, fun j => ?_, fun j hj => ?_,
      fun j hj => ?_⟩
    · by_cases hji : j = id
      · subst hji
        simp [Sys.work]
      · simpa [Sys.work, hji] using h.alive j
    · by_cases hji : j = id
      · subst hji
        simp [Sys.work]
      · simp only [Sys.work, Function.update_of_ne hji] at hj ⊢
        exact h.node j hj
    · have hj' : (s.node j).alive = true := by
        by_cases hji : j = id
        · exact hji ▸ ha
        · simpa [Sys.work, hji] using hj
      simp only [Sys.work, appliedNumbers_append, h.applied j hj']
  · -- on both sides the round fails and sends nothing
    have ha := Bool.eq_false_iff.2 ha
    have ha' := (h.alive id).trans ha
    obtain ⟨hentry, hfailed, hdead, hsent⟩ := workerRound_unconnected ch id (s.c.p id) ha ha'
    obtain ⟨-, -, hdead', hsent'⟩ := workerRound_unconnected ch id (s.c.p id) ha' ha
    rw [hc]
    refine ⟨by simp [Sys.work, hc, hentry], by simp [Sys.work, hab, hfailed], hrpc, fun j => ?_,
      fun j hj => ?_, fun j hj => ?_⟩
    · by_cases hji : j = id
      · subst hji
        simp [Sys.work, hdead, hdead']
      · simpa [Sys.work, hji] using h.alive j
    · by_cases hji : j = id
      · subst hji
        simp [Sys.work, hdead] at hj
      · simp only [Sys.work, Function.update_of_ne hji] at hj ⊢
        exact h.node j hj
    · have hji : j ≠ id := by
        rintro rfl
        simp [Sys.work, hdead] at hj
      have hj' : (s.node j).alive = true := by simpa [Sys.work, hji] using hj
      simp only [Sys.work, appliedNumbers_append, h.applied j hj',
        appliedNumbers_of_ne fun y hy => (hsent y hy).trans_ne hji.symm,
        appliedNumbers_of_ne fun y hy => (hsent' y hy).trans_ne hji.symm]

theorem Same.withMem (h : Same s t) (f : Coordinator → Coordinator) :
    Same { s with c := f s.c } { t with c := f t.c } :=
  ⟨congrArg f h.c, h.aborted, h.rpc, h.alive, h.node, h.applied⟩

/-- An operation does the same in both states. -/
theorem Same.step (h : Same s t) {o : Op} {r : o.Res} (hs : Sys.Step Faults.none o s r s') :
    ∃ t', Sys.Step Faults.none o t r t' ∧ Same s' t' := by
  cases o with
  | post l sem =>
      obtain ⟨ch, side, id⟩ := l
      cases side with
      | task =>
          cases sem with
          | full =>
              obtain ⟨x, rfl, rfl⟩ := hs
              exact ⟨_, ⟨.answer, rfl, rfl⟩, h.work ch id⟩
          | empty => obtain rfl := hs; exact ⟨t, rfl, h⟩
          | mutex => obtain rfl := hs; exact ⟨t, rfl, h⟩
      | ret => cases sem <;> obtain rfl := hs <;> exact ⟨t, rfl, h⟩
  | wait _ _ => obtain rfl := hs; exact ⟨t, rfl, h⟩
  | setTask ch id task =>
      obtain rfl := hs
      exact ⟨_, rfl, h.withMem fun c =>
        { c with p := Function.update c.p id ((c.p id).setTask ch task) }⟩
  | readRet _ _ => obtain ⟨rfl, rfl⟩ := hs; exact ⟨t, ⟨by rw [h.c], rfl⟩, h⟩
  | readData _ _ => obtain ⟨rfl, rfl⟩ := hs; exact ⟨t, ⟨by rw [h.c], rfl⟩, h⟩
  | readMem => obtain ⟨rfl, rfl⟩ := hs; exact ⟨t, ⟨h.c.symm, rfl⟩, h⟩
  | updateMem f => obtain rfl := hs; exact ⟨_, rfl, h.withMem f⟩

/-- While the recovery thread holds the mutexes nobody connects, and where nothing fails only a
participant that has read a task moves. -/
theorem Same.env (h : Same s t) (hrpc : s.rpc = .running) (hs : Env Faults.none s s') :
    ∃ t', Relation.ReflTransGen (Env Faults.none) t t' ∧ Same s' t' := by
  cases hs with
  | @node id n hn =>
      cases hn with
      | drop hd => exact hd.elim
      | restart hq => exact hq.elim
      | @finish task r ht hr =>
          by_cases ha : (s.node id).alive = true
          · -- the task is the same on the other side
            have hnode := h.node id ha
            refine ⟨_, Relation.ReflTransGen.single (.node (.finish (hnode ▸ ht) (hnode ▸ hr))),
              h.c, h.aborted, h.rpc, fun j => ?_, fun j hj => ?_, fun j hj => h.applied j ?_⟩
            · by_cases hji : j = id
              · subst hji
                simpa using h.alive j
              · simpa [hji] using h.alive j
            · by_cases hji : j = id
              · subst hji
                simp [hnode]
              · simp only [Function.update_of_ne hji] at hj ⊢
                exact h.node j hj
            · by_cases hji : j = id
              · exact hji ▸ ha
              · simpa [hji] using hj
          · -- the participant has another memory there, and nobody compares it
            have hne {j : Nat} (hj : (Function.update s.node id
                { s.node id with part := r.2, pending := none } j).alive = true) :
                j ≠ id ∧ (s.node j).alive = true := by
              by_cases hji : j = id
              · subst hji
                simp [ha] at hj
              · exact ⟨hji, by simpa [hji] using hj⟩
            refine ⟨t, Relation.ReflTransGen.refl, h.c, h.aborted, h.rpc, fun j => ?_,
              fun j hj => ?_, fun j hj => h.applied j (hne hj).2⟩
            · by_cases hji : j = id
              · subst hji
                simpa using h.alive j
              · simpa [hji] using h.alive j
            · simp only [Function.update_of_ne (hne hj).1]
              exact h.node j (hne hj).2
  | connect hr _ _ => exact absurd hrpc hr
  | enter hr => exact absurd (hrpc.symm.trans hr) nofun
  | begin hr _ => exact absurd (hrpc.symm.trans hr) nofun
  | done hr => exact absurd (hrpc.symm.trans hr) nofun

theorem Sys.Step.running {F : Faults} {o : Op} {r : o.Res} (h : Sys.Step F o s r s')
    (hrpc : s.rpc = .running) : s'.rpc = .running := h.rpc.trans hrpc

theorem Env.running {F : Faults} (h : Env F s s') (hrpc : s.rpc = .running) : s'.rpc = .running := by
  cases h with
  | node _ => exact hrpc
  | connect hr _ _ => exact absurd hrpc hr
  | enter hr => exact absurd (hrpc.symm.trans hr) nofun
  | begin hr _ => exact absurd (hrpc.symm.trans hr) nofun
  | done hr => exact absurd (hrpc.symm.trans hr) nofun

/-- A run of a recovery call in which nothing fails. -/
abbrev Calm {α : Type} : Proc α × Sys → Proc α × Sys → Prop :=
  Relation.ReflTransGen (Prog.Step (Sys.Step Faults.none) (Env Faults.none))

/-- Every run is also a run from a state in which participants that are not connected have other
memories. -/
theorem Same.run {α : Type} {p : Proc α} (h : Same s t) (hrpc : s.rpc = .running)
    {c : Proc α × Sys} (hr : Calm (p, s) c) :
    c.2.rpc = .running ∧ ∃ t', Calm (p, t) (c.1, t') ∧ Same c.2 t' := by
  induction hr with
  | refl => exact ⟨hrpc, t, Relation.ReflTransGen.refl, h⟩
  | tail _ hs ih =>
      obtain ⟨hrun, t', hr', h'⟩ := ih
      cases hs with
      | op hop =>
          obtain ⟨t'', hop', h''⟩ := h'.step hop
          exact ⟨hop.running hrun, t'', hr'.tail (.op hop'), h''⟩
      | env henv =>
          obtain ⟨t'', henv', h''⟩ := h'.env hrun henv
          exact ⟨henv.running hrun, t'',
            hr'.trans (henv'.lift (fun s => (_, s)) fun _ _ hs => .env hs), h''⟩

/-- Nobody connects during a recovery call. -/
theorem Calm.alive {α : Type} {c c' : Proc α × Sys} (hr : Calm c c') (hrpc : c.2.rpc = .running)
    {id : Nat} (ha : (c.2.node id).alive = false) :
    c'.2.rpc = .running ∧ (c'.2.node id).alive = false := by
  induction hr with
  | refl => exact ⟨hrpc, ha⟩
  | tail _ hs ih =>
      obtain ⟨hrun, ha⟩ := ih
      cases hs with
      | @op o k s s' r hop =>
          refine ⟨hop.running hrun, ?_⟩
          rcases hop.node id with h | ⟨ch, x, h⟩
          · rw [h]
            exact ha
          · rw [h]
            exact workerRound_alive ch x id _ ha
      | env henv =>
          refine ⟨henv.running hrun, ?_⟩
          cases henv with
          | @node j n hn =>
              by_cases hj : id = j
              · subst hj
                simp only [Function.update_self]
                cases hn with
                | drop hd => exact hd.elim
                | restart hq => exact hq.elim
                | finish _ _ => exact ha
              · simpa [hj] using ha
          | connect hr _ _ => exact absurd hrun hr
          | enter _ => exact ha
          | begin _ _ => exact ha
          | done _ => exact ha

end Same

/-! ## The call -/

/-- The logs of the coordinator and of the participants are prefixes of one sequence of accepted
events, the tables are the replays of the logs, somebody waits for a recovery run, and nothing is
under way on the connections. -/
structure Aligned (pnum : Nat) (L : Nat → Bytes) (s : Sys) : Prop where
  running : s.aborted = false
  committed : Committed (fun t e => e = L t) s.c
  within : ∀ id, (s.node id).part.Within fun t e => e = L t
  pending : ∀ id, (s.node id).pending = none
  connected : ∀ id, (s.node id).alive = true →
    (s.node id).kept = true ∧ ((s.c.p id).pstate = .P_TEMP ∨ (s.c.p id).pstate = .P_WORKING)
  outside : ∀ id, id ∉ pids pnum → (s.c.p id).pstate = .P_INVALID
  temp : s.c.tmpNum ≠ 0

/-- The log with the events under `TXID_START .. T - 1`. -/
def logUpTo (L : Nat → Bytes) (T : Nat) : Logger := fun t =>
  if TXID_START ≤ t ∧ t < T then some ⟨t, LogState.LOG_COMMIT, L t⟩ else none

theorem Participant.Within.lg_eq {L : Nat → Bytes} {p : Participant}
    (h : p.Within fun t e => e = L t) : p.lg = logUpTo L p.TXID := by
  funext t
  by_cases ht : TXID_START ≤ t ∧ t < p.TXID
  · obtain ⟨e, he, -⟩ := h.sound.lookup ht.1 ht.2
    obtain rfl : e = L t := h.logged t _ he
    rw [he, logUpTo, if_pos ht]
  · rw [logUpTo, if_neg ht]
    exact Option.not_isSome_iff_eq_none.1 fun hl => ht ((h.sound.keys t).1 hl)

/-- What a call that began in the state `s` leads to: the coordinator and the participants that are
connected have the longest of their logs, and each of these participants has applied the events it
had not, one after the other. -/
structure Converged (L : Nat → Bytes) (s s' : Sys) : Prop where
  connected : ∀ id, (s.node id).alive = true → (s'.node id).alive = true
  txid : IsGreatest {T | T = s.c.TXID ∨
    ∃ id, (s'.node id).alive = true ∧ T = (s.node id).part.TXID} s'.c.TXID
  log : ∀ t < s'.c.TXID, TXID_START ≤ t → s'.c.lg t = logUpTo L s'.c.TXID t
  peers : ∀ id, (s'.node id).alive = true → (s'.c.p id).pstate = .P_WORKING ∧
    (s'.node id).part.TXID = s'.c.TXID ∧ (s'.node id).part.lg = logUpTo L s'.c.TXID ∧
    (s'.node id).part.kvdb = replay (upTo L s'.c.TXID)
  applied : ∀ id, (s'.node id).alive = true → appliedNumbers id s'.hist =
    List.range' (s.node id).part.TXID (s'.c.TXID - (s.node id).part.TXID)

section Call

variable {pnum : Nat} {L : Nat → Bytes} {s : Sys}

/-- The state with fresh memories for the participants that are not connected. -/
def Sys.mask (s : Sys) : Sys :=
  { s with node := fun id =>
      if (s.node id).alive then s.node id else ⟨Participant.Init, none, false, false⟩ }

theorem Same.mask (s : Sys) : Same s s.mask where
  c := rfl
  aborted := rfl
  rpc := rfl
  alive id := by
    cases ha : (s.node id).alive <;> simp [Sys.mask, ha]
  node id ha := by simp [Sys.mask, ha]
  applied _ _ := rfl

/-- The setting of a call in which nothing fails: the connected participants are steady, and no
event has a number from `M` on. -/
def Setting.calm (pnum : Nat) (L : Nat → Bytes) (M : Nat) (s : Sys) : Setting where
  faults := Faults.none
  steady id := (s.node id).alive = true
  first id := (s.node id).part.TXID
  rel t e := t < M ∧ e = L t
  bound t e := t < M ∧ e = L t
  pnum := pnum
  rel_bound _ _ h := h
  fresh_within _ _ h := h.elim
  steady_choice _ _ _ h := h
  steady_drop _ _ h := h
  steady_fresh _ _ _ h := h

/-- The state in which the recovery thread has taken the mutexes. -/
def Sys.begun (s : Sys) : Sys := { s with hist := [], rpc := .running }

/-- At the begin of the call the invariant holds of the connected participants. -/
theorem Aligned.start {M : Nat} (h : Aligned pnum L s) (hM : s.c.TXID ≤ M)
    (hids : ∀ id, (s.node id).alive = true → (s.node id).part.TXID ≤ M)
    (hmax : ∀ id, (s.c.p id).maxTxid = none) :
    Assert (Setting.calm pnum L M s) true (fun t _ _ => t = s.c.TXID) Cleared s.begun.mask := by
  have hnode (id : Nat) : NodeOk (Setting.calm pnum L M s) id (s.c.p id) (s.begun.mask.node id) := by
    cases ha : (s.node id).alive with
    | true =>
        have hn : s.begun.mask.node id = s.node id := by simp [Sys.begun, Sys.mask, ha]
        rw [hn]
        refine ⟨(h.within id).below (hids id ha) fun _ _ => rfl, fun task ht => ?_, fun _ => ?_,
          fun _ => ha⟩
        · exact absurd ((h.pending id).symm.trans ht) nofun
        · exact ⟨(h.connected id ha).1, (h.connected id ha).2.imp_right Or.inl⟩
    | false =>
        have hn : s.begun.mask.node id = ⟨Participant.Init, none, false, false⟩ := by
          simp [Sys.begun, Sys.mask, ha]
        rw [hn]
        exact ⟨Participant.within_init _, nofun, nofun, fun hu => absurd (ha.symm.trans hu) nofun⟩
  refine ⟨⟨h.running, ⟨h.committed.start_le, h.committed.txid_le, fun t h₁ h₂ => ?_⟩, ?_, hnode,
    h.outside, nofun, ?_, fun id hu => ?_⟩, ⟨fun _ => rfl, fun _ => rfl⟩, rfl, hmax⟩
  · obtain ⟨e, he, hacc, hrel⟩ := h.committed.record t h₁ h₂
    exact ⟨e, he, hacc, h₂.trans_le hM, hrel⟩
  · rintro m (hm | hm) <;> exact nomatch hm
  · exact fun h₁ y h₂ heq => absurd heq (by simp [Sys.begun, Sys.mask])
  · have hu' : (s.node id).alive = true := hu
    have hn : (s.begun.mask.node id).part.TXID = (s.node id).part.TXID := by
      simp [Sys.begun, Sys.mask, hu']
    rw [Applied, hn]
    refine ⟨le_rfl, ?_⟩
    show [] = List.range' _ ((s.node id).part.TXID - (s.node id).part.TXID)
    rw [Nat.sub_self]
    rfl

/-- The longest of the logs that take part in the call. -/
theorem Aligned.exists_greatest (h : Aligned pnum L s) : ∃ M, IsGreatest {T | T = s.c.TXID ∨
    ∃ id, (s.node id).alive = true ∧ T = (s.node id).part.TXID} M := by
  have hbdd : BddAbove {T | T = s.c.TXID ∨
      ∃ id, (s.node id).alive = true ∧ T = (s.node id).part.TXID} := by
    refine ⟨2 ^ 63, ?_⟩
    rintro T (rfl | ⟨id, -, rfl⟩)
    · exact h.committed.txid_le
    · exact (h.within id).sound.txid_le
  exact ⟨_, Nat.sSup_mem ⟨s.c.TXID, Or.inl rfl⟩ hbdd, fun T hT => le_csSup hbdd hT⟩

/-- The result of a call, seen from a state that agrees with its last one on the connected
participants. -/
theorem Recovered.converged {M : Nat} {s' t : Sys} (hs : Recovered (Setting.calm pnum L M s) t)
    (hsame : Same s' t) (hstart : TXID_START ≤ s.c.TXID) (htxid : s.c.TXID ≤ t.c.TXID)
    (hdead : ∀ id, (s.node id).alive = false → (s'.node id).alive = false)
    (hM : IsGreatest {T | T = s.c.TXID ∨
      ∃ id, (s.node id).alive = true ∧ T = (s.node id).part.TXID} M) : Converged L s s' := by
  obtain ⟨T, hs⟩ := hs
  have hc : t.c = s'.c := hsame.c
  have hT : s'.c.TXID = T := hc ▸ hs.global
  have halive (id : Nat) : (s'.node id).alive = true ↔ (s.node id).alive = true := by
    refine ⟨fun ha => ?_, fun ha => ?_⟩
    · by_contra hn
      exact absurd ((hdead id (Bool.eq_false_iff.2 hn)).symm.trans ha) nofun
    · rw [← hsame.alive id]
      exact (hs.core.nodes id).steady ha
  have hpeer (id : Nat) (ha : (s'.node id).alive = true) :
      (s'.c.p id).pstate = .P_WORKING ∧ (s'.node id).part.TXID = T ∧
        (s'.node id).part.Within fun t e => e = L t := by
    have hn := hsame.node id ha
    obtain ⟨hsync, -⟩ := hs.peers id
    have hst := hsync.steady ((halive id).1 ha)
    have hkept := ((hs.core.nodes id).alive ((hsame.alive id).trans ha)).1
    rw [← hc, ← hn]
    exact ⟨hst, hsync.txid hst hkept, (hs.core.nodes id).within.mono fun _ _ h => h.2⟩
  have happlied (id : Nat) (ha : (s'.node id).alive = true) :
      Applied (s.node id).part.TXID id s'.hist (s'.node id).part := by
    have := hs.core.applied id ((halive id).1 ha)
    rwa [Applied, hsame.applied id ha, hsame.node id ha] at this
  have hcommitted : Committed (fun t e => t < M ∧ e = L t) s'.c := hc ▸ hs.core.committed
  -- no event has a number from `M` on, and nobody who is connected falls behind his own log
  have hTM : s'.c.TXID = M := by
    refine le_antisymm ?_ ?_
    · by_contra hlt
      have hle : s.c.TXID ≤ M := hM.2 (Or.inl rfl)
      obtain ⟨e, -, -, hrel, -⟩ := hcommitted.record (s'.c.TXID - 1) (by omega) (by omega)
      omega
    · rcases hM.1 with rfl | ⟨id, ha, rfl⟩
      · exact hc ▸ htxid
      · rw [hT, ← (hpeer id ((halive id).2 ha)).2.1]
        exact (happlied id ((halive id).2 ha)).1
  refine ⟨fun id ha => (halive id).2 ha, ?_, fun t h₁ h₂ => ?_, fun id ha => ?_, fun id ha => ?_⟩
  · rw [hTM]
    refine ⟨hM.1.imp_right fun ⟨id, ha, heq⟩ => ⟨id, (halive id).2 ha, heq⟩, ?_⟩
    rintro T' (rfl | ⟨id, ha, rfl⟩)
    · exact hM.2 (Or.inl rfl)
    · exact hM.2 (Or.inr ⟨id, (halive id).1 ha, rfl⟩)
  · obtain ⟨e, he, -, -, rfl⟩ := hcommitted.record t h₂ h₁
    rw [he, logUpTo, if_pos ⟨h₂, h₁⟩]
  · obtain ⟨hst, htx, hwithin⟩ := hpeer id ha
    rw [hT]
    exact ⟨hst, htx, htx ▸ hwithin.lg_eq, htx ▸ hwithin.kvdb_eq⟩
  · rw [hT, ← (hpeer id ha).2.1]
    exact (happlied id ha).2

/-- From every state of the call it can be completed, and its result is `Converged`. -/
theorem Aligned.recovery {m : Nat} (h : Aligned pnum L s) (hm : m + 1 = s.c.TXID)
    (hmax : ∀ id, (s.c.p id).maxTxid = none) {p : Proc Unit} {s' : Sys}
    (hr : Calm (Recovery pnum m, s.begun) (p, s')) :
    (∃ s'', Calm (p, s') (.ret (), s'')) ∧ (p = .ret () → Converged L s s') := by
  obtain ⟨M, hM⟩ := h.exists_greatest
  have hids : ∀ id, (s.node id).alive = true → (s.node id).part.TXID ≤ M :=
    fun id ha => hM.2 (Or.inr ⟨id, ha, rfl⟩)
  have hwp := spec_Recovery (S := Setting.calm pnum L M s) (hm ▸ h.committed.start_le) hm.le _
    (h.start (hM.2 (Or.inl rfl)) hids hmax)
  have hstable (_ : Unit) := recovered_stable (Setting.calm pnum L M s)
  -- the same run with fresh memories for the participants that are not connected
  obtain ⟨hrun, t, hrt, hsame⟩ := (Same.mask s.begun).run rfl hr
  have hw := Prog.wp_steps _ _ _ hstable (c := (_, _)) hwp hrt
  refine ⟨?_, ?_⟩
  · have hact (o : Op) (s : Sys) :
        Sys.Step Faults.none o s (s.perform .answer o).1 (s.perform .answer o).2 :=
      Sys.perform_step (fun _ => rfl) o s
    obtain ⟨u, t', hrun', -⟩ := Prog.wp_run (fun o s => s.perform .answer o) _ _ _ id hact p t hw
    have hsteps := Prog.steps_of_run (fun o s => Sys.perform .answer o s) _ (Env Faults.none) id hact
      p t u t' hrun'
    obtain ⟨-, s'', hrs, -⟩ := hsame.symm.run (hsame.rpc.trans hrun) hsteps
    exact ⟨s'', hrs⟩
  · rintro rfl
    have htxid : s.c.TXID ≤ t.c.TXID := Prog.wp_steps_le _ _ _ hstable (fun s => s.c.TXID)
      (fun _ _ hg => hg.txid_le) (fun _ _ hs => hs.txid.ge) (c := (_, _)) hwp hrt
    exact Recovered.converged hw hsame h.committed.start_le htxid (fun id ha => (hr.alive rfl ha).2) hM

/-- The steps of a call of `Recovery` while no command is accepted. -/
def OfRecovery (l : Label) : Prop := l = .internal ∨ l = .recover

/-- What the call sees of the state it began in. -/
structure SameLogs (s s' : Sys) : Prop where
  txid : s'.c.TXID = s.c.TXID
  part : ∀ id, (s'.node id).part = (s.node id).part
  alive : ∀ id, (s.node id).alive = true → (s'.node id).alive = true

/-- The recovery thread waits for a participant, or for the mutexes. -/
structure Waiting (s : Sys) : Prop where
  rpc : s.rpc = .idle ∨ ∃ m, s.rpc.Waits m
  table : ∀ m, s.rpc.Waits m → m + 1 = s.c.TXID ∧ ∀ id, (s.c.p id).maxTxid = none

/-- The states of a call of `Recovery` in which nothing fails. -/
inductive Recovering (pnum : Nat) (L : Nat → Bytes) (s₀ : Sys) : Config → Prop
  | waiting {s : Sys} {a : Option (List Bytes)} : Aligned pnum L s → Waiting s → SameLogs s₀ s →
      Recovering pnum L s₀ ⟨s, a, .idle⟩
  | running {s s' : Sys} {a : Option (List Bytes)} {m : Nat} {p : Proc Unit} : Aligned pnum L s →
      m + 1 = s.c.TXID → (∀ id, (s.c.p id).maxTxid = none) → SameLogs s₀ s →
      Calm (Recovery pnum m, s.begun) (p, s') → Recovering pnum L s₀ ⟨s', a, .recover p⟩

theorem Aligned.env {s s' : Sys} (h : Aligned pnum L s) (hw : Waiting s)
    (hs : Env Faults.none s s') : Aligned pnum L s' ∧ Waiting s' ∧ SameLogs s s' := by
  cases hs with
  | @node id n hn =>
      cases hn with
      | drop hd => exact hd.elim
      | restart hq => exact hq.elim
      | finish ht _ => exact absurd ((h.pending id).symm.trans ht) (fun h => by cases h)
  | @connect id _ hst _ =>
      -- a participant that connects begins in `P_TEMP`
      have hid : id ∈ pids pnum := by
        by_contra hout
        rw [h.outside id hout] at hst
        cases hst
      refine ⟨⟨h.running, ⟨h.committed.start_le, h.committed.txid_le, h.committed.record⟩,
        fun j => ?_, fun j => ?_, fun j hj => ?_, fun j hj => ?_, Nat.succ_ne_zero _⟩,
        ⟨hw.rpc, fun m hm => ⟨(hw.table m hm).1, fun j => ?_⟩⟩, rfl, fun j => ?_, fun j hj => ?_⟩
      · by_cases hji : j = id
        · subst hji
          simpa [Sys.connect] using h.within j
        · simpa [Sys.connect, hji] using h.within j
      · by_cases hji : j = id
        · subst hji
          simpa [Sys.connect] using h.pending j
        · simpa [Sys.connect, hji] using h.pending j
      · by_cases hji : j = id
        · subst hji
          simp [Sys.connect]
        · simp only [Sys.connect, Function.update_of_ne hji] at hj ⊢
          exact h.connected j hj
      · have hji : j ≠ id := fun heq => hj (heq ▸ hid)
        simpa [Sys.connect, hji] using h.outside j hj
      · by_cases hji : j = id
        · subst hji
          simpa [Sys.connect] using (hw.table m hm).2 j
        · simpa [Sys.connect, hji] using (hw.table m hm).2 j
      · by_cases hji : j = id
        · subst hji
          simp [Sys.connect]
        · simp [Sys.connect, hji]
      · by_cases hji : j = id
        · subst hji
          simp [Sys.connect]
        · simpa [Sys.connect, hji] using hj
  | enter hrpc =>
      -- `maxTxid` is cleared, and the number the thread reads is that of the last event
      refine ⟨⟨h.running, ⟨h.committed.start_le, h.committed.txid_le, h.committed.record⟩, h.within,
        h.pending, h.connected, h.outside, h.temp⟩, ⟨Or.inr ⟨_, Or.inl rfl⟩, fun m hm => ?_⟩, rfl,
        fun _ => rfl, fun _ ha => ha⟩
      have hstart := h.committed.start_le
      obtain rfl : s.c.TXID - 1 = m := by
        rcases hm with hm | hm
        · exact RecoveryPc.entered.inj hm
        · cases hm
      refine ⟨?_, fun _ => rfl⟩
      simp only [TXID_START] at hstart
      show s.c.TXID - 1 + 1 = s.c.TXID
      omega
  | @begin m hrpc htmp =>
      refine ⟨⟨h.running, ⟨h.committed.start_le, h.committed.txid_le, h.committed.record⟩, h.within,
        h.pending, h.connected, h.outside, h.temp⟩, ⟨Or.inr ⟨_, Or.inr rfl⟩, fun m' hm => ?_⟩, rfl,
        fun _ => rfl, fun _ ha => ha⟩
      obtain rfl : m = m' := by
        rcases hm with hm | hm
        · cases hm
        · exact RecoveryPc.begun.inj hm
      exact hw.table m (Or.inl hrpc)
  | done hrpc =>
      -- nobody is in a recovery run
      rcases hw.rpc with h' | ⟨m, h' | h'⟩ <;> exact absurd (hrpc.symm.trans h') (fun h => by cases h)

theorem Recovering.step {s₀ : Sys} {c c' : Config} {l : Label} (h : Recovering pnum L s₀ c)
    (hs : Config.Step Faults.none pnum c l c') (hl : OfRecovery l) : Recovering pnum L s₀ c' := by
  cases h with
  | waiting h hw hsame =>
      cases hs with
      | env henv =>
          obtain ⟨h', hw', hsame'⟩ := h.env hw henv
          exact .waiting h' hw' ⟨hsame'.txid.trans hsame.txid,
            fun id => (hsame'.part id).trans (hsame.part id),
            fun id ha => hsame'.alive id (hsame.alive id ha)⟩
      | recover hrpc =>
          obtain ⟨hm, hmax⟩ := hw.table _ (Or.inr hrpc)
          exact .running h hm hmax hsame Relation.ReflTransGen.refl
      | accept _ _ _ => exact nomatch hl
      | refuse _ _ => exact nomatch hl
      | start => exact nomatch hl
  | running h hm hmax hsame hr =>
      cases hs with
      | env henv => exact .running h hm hmax hsame (hr.tail (.env henv))
      | recovery hop => exact .running h hm hmax hsame (hr.tail (.op hop))
      | recovered => exact nomatch hl
      | accept _ _ _ => exact nomatch hl
      | refuse _ _ => exact nomatch hl

/-- A call in which nothing fails can be completed. -/
theorem Recovering.completes {s₀ : Sys} {c : Config} (h : Recovering pnum L s₀ c) :
    ∃ c₁ c₂, Config.Run Faults.none pnum (fun _ l => OfRecovery l) c c₁ ∧
      Config.Step Faults.none pnum c₁ .recovered c₂ := by
  have hrunning {s s' : Sys} {a : Option (List Bytes)} {m : Nat} {p : Proc Unit}
      (h : Aligned pnum L s) (hm : m + 1 = s.c.TXID) (hmax : ∀ id, (s.c.p id).maxTxid = none)
      (hr : Calm (Recovery pnum m, s.begun) (p, s')) :
      ∃ c₁ c₂, Config.Run Faults.none pnum (fun _ l => OfRecovery l) ⟨s', a, .recover p⟩ c₁ ∧
        Config.Step Faults.none pnum c₁ .recovered c₂ := by
    obtain ⟨s'', hr'⟩ := (h.recovery hm hmax hr).1
    have hrun : Config.Run Faults.none pnum _ _ _ :=
    Config.run_of_steps (f := fun s p => ⟨s, a, .recover p⟩)
      (fun _ _ _ _ _ hs => .recovery hs) (fun _ _ _ hs => .env hs) hr'
    exact ⟨_, _, hrun.mono fun _ _ hl => Or.inl hl, .recovered⟩
  have hbegun {s : Sys} {a : Option (List Bytes)} {m : Nat} (h : Aligned pnum L s) (hw : Waiting s)
      (hrpc : s.rpc = .begun m) :
      ∃ c₁ c₂, Config.Run Faults.none pnum (fun _ l => OfRecovery l) ⟨s, a, .idle⟩ c₁ ∧
        Config.Step Faults.none pnum c₁ .recovered c₂ := by
    obtain ⟨hm, hmax⟩ := hw.table m (Or.inr hrpc)
    obtain ⟨c₁, c₂, hr, hs⟩ := hrunning (a := a) h hm hmax Relation.ReflTransGen.refl
    exact ⟨c₁, c₂, Relation.ReflTransGen.head ⟨_, Or.inr rfl, .recover hrpc⟩ hr, hs⟩
  have hentered {s : Sys} {a : Option (List Bytes)} {m : Nat} (h : Aligned pnum L s) (hw : Waiting s)
      (hrpc : s.rpc = .entered m) :
      ∃ c₁ c₂, Config.Run Faults.none pnum (fun _ l => OfRecovery l) ⟨s, a, .idle⟩ c₁ ∧
        Config.Step Faults.none pnum c₁ .recovered c₂ := by
    have hs := Env.begin (F := Faults.none) hrpc h.temp
    obtain ⟨h', hw', -⟩ := h.env hw hs
    obtain ⟨c₁, c₂, hr, hs'⟩ := hbegun (a := a) h' hw' rfl
    exact ⟨c₁, c₂, Relation.ReflTransGen.head ⟨_, Or.inl rfl, .env hs⟩ hr, hs'⟩
  cases h with
  | running h hm hmax _ hr => exact hrunning h hm hmax hr
  | @waiting s a h hw _ =>
      rcases hw.rpc with hrpc | ⟨m, hrpc | hrpc⟩
      · have hs := Env.enter (F := Faults.none) hrpc
        obtain ⟨h', hw', -⟩ := h.env hw hs
        obtain ⟨c₁, c₂, hr, hs'⟩ := hentered (a := a) h' hw' rfl
        exact ⟨c₁, c₂, Relation.ReflTransGen.head ⟨_, Or.inl rfl, .env hs⟩ hr, hs'⟩
      · exact hentered h hw hrpc
      · exact hbegun h hw hrpc

theorem Recovering.converged {s₀ : Sys} {c c' : Config} (h : Recovering pnum L s₀ c)
    (hs : Config.Step Faults.none pnum c .recovered c') : Converged L s₀ c'.sys := by
  cases h with
  | waiting h hw hsame => cases hs
  | running h hm hmax hsame hr =>
      cases hs with
      | recovered =>
          obtain ⟨hconn, htxid, hlog, hpeers, happlied⟩ := (h.recovery hm hmax hr).2 rfl
          simp only [hsame.txid, hsame.part] at htxid happlied
          exact ⟨fun id ha => hconn id (hsame.alive id ha), htxid, hlog, hpeers, happlied⟩

end Call

/-- **Recovery converges to the longest log.** Let the logs of the coordinator and of the
participants be prefixes of one sequence. From every state of a call of `Recovery` during which no
connection fails and no command is accepted, the call can be completed; when it returns, the
coordinator's number is the largest one that it or a connected participant had, its log and the log
of every connected participant are the sequence up to this number, the table of the participant is
the replay of it, all connected participants are in the working state, and each of them has applied
the events it did not have once, in order. -/
theorem recovery_converges {pnum : Nat} {L : Nat → Bytes} {c₀ c : Config}
    (h : Aligned pnum L c₀.sys) (hidle : c₀.call = .idle) (hrpc : c₀.sys.rpc = .idle)
    (hr : Config.Run Faults.none pnum (fun _ l => OfRecovery l) c₀ c) :
    (∃ c₁ c₂, Config.Run Faults.none pnum (fun _ l => OfRecovery l) c c₁ ∧
      Config.Step Faults.none pnum c₁ .recovered c₂) ∧
    ∀ c', Config.Step Faults.none pnum c .recovered c' → Converged L c₀.sys c'.sys := by
  have hrec : Recovering pnum L c₀.sys c := by
    induction hr with
    | refl =>
        obtain ⟨s, a, k⟩ := c₀
        obtain rfl : k = .idle := hidle
        refine .waiting h ⟨Or.inl hrpc, fun m hm => ?_⟩ ⟨rfl, fun _ => rfl, fun _ ha => ha⟩
        rcases hm with hm | hm <;> exact absurd (hrpc.symm.trans hm) nofun
    | tail _ hs ih =>
        obtain ⟨l, hl, hstep⟩ := hs
        exact ih.step hstep hl
  exact ⟨hrec.completes, fun c' hs => hrec.converged hs⟩

/-- Two participants wait for a recovery run, and the first one has an event that nobody else
has. -/
def oneAhead : Config where
  sys :=
    { c := { Coordinator.Init 2 with
        tmpNum := 2
        p := fun id => Entry.Init (if id ∈ pids 2 then .P_TEMP else .P_INVALID) }
      node := fun id =>
        ⟨if id = 1 then Participant.Init.push (getRESPArry setCmd) else Participant.Init, none,
          decide (id ∈ pids 2), true⟩
      hist := []
      aborted := false
      rpc := .idle }
  admitted := none
  call := .idle

theorem aligned_oneAhead : Aligned 2 (fun _ => getRESPArry setCmd) oneAhead.sys where
  running := rfl
  committed := ⟨le_rfl, by decide, fun t h₁ h₂ => absurd h₁ (Nat.not_le.2 h₂)⟩
  within id := by
    have hpush : (Participant.Init.push (getRESPArry setCmd)).Within
        fun _ e => e = getRESPArry setCmd :=
      (Participant.within_init _).push ⟨setCmd, comds_getRESPArry (by decide),
        Or.inr (Or.inl ⟨by decide, rfl⟩)⟩ (by decide) rfl
    by_cases hid : id = 1
    · simpa [oneAhead, hid] using hpush
    · simpa [oneAhead, hid] using Participant.within_init _
  pending _ := rfl
  connected id ha := ⟨rfl, Or.inl (by simpa [oneAhead, Entry.Init] using ha)⟩
  outside id hid := by simp [oneAhead, Entry.Init, hid]
  temp := by decide

theorem recovery_converges_to_one_ahead :
    ∃ c', Converged (fun _ => getRESPArry setCmd) oneAhead.sys c' ∧ c'.c.TXID = 6 := by
  obtain ⟨⟨c₁, c₂, hr, hs⟩, -⟩ := recovery_converges aligned_oneAhead rfl rfl
    Relation.ReflTransGen.refl
  have h := (recovery_converges aligned_oneAhead rfl rfl hr).2 _ hs
  refine ⟨_, h, le_antisymm ?_ (h.txid.2 (Or.inr ⟨1, h.connected 1 (by decide), rfl⟩))⟩
  rcases h.txid.1 with heq | ⟨id, -, heq⟩
  · rw [heq]
    decide
  · rw [heq]
    by_cases hid : id = 1
    · simp [oneAhead, hid, Participant.push, Participant.Init, TXID_START]
    · simp [oneAhead, hid, Participant.Init, TXID_START]

end CloudLabs.KvStore
