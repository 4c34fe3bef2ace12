import CloudLabs.KvStore.System

/-!
# The invariant of the system

A `Setting` fixes what may go wrong in a run and a relation `rel` between transaction numbers and
events. `Core` is the part of the invariant that holds at every operation of every call: the log and
the table of each participant agree, every event in a log is related to its number, and the
coordinator's log holds one committed record for each number below its counter.

An assertion (`Assert`) adds what is known of the coordinator's counter and log, and of each
participant. `Assert.stable`: the surroundings of a call cannot falsify it if they cannot falsify
what it says about one participant.
-/

set_option autoImplicit false

namespace CloudLabs.KvStore

open CloudLabs.Foundation

/-! ## Participants within a relation -/

/-- The participant's log and table agree, and each logged event is related to its number. -/
structure Participant.Within (R : Nat → Bytes → Prop) (p : Participant) : Prop where
  sound : p.Sound
  logged : ∀ t l, p.lg t = some l → R t l.event

/-- Carrying out the task leaves the participant within the relation. -/
def Keeps (R : Nat → Bytes → Prop) (p : Participant) (task : Bytes) : Prop :=
  Emitted task ∧ ∀ r, p.pWorker task = some r → r.2.Within R

section Within

variable {R R' : Nat → Bytes → Prop} {p : Participant}

theorem Participant.Within.mono (h : p.Within R) (hR : ∀ t e, R t e → R' t e) : p.Within R' :=
  ⟨h.sound, fun t l hl => hR _ _ (h.logged t l hl)⟩

theorem Keeps.mono {task : Bytes} (h : Keeps R p task) (hR : ∀ t e, R t e → R' t e) :
    Keeps R' p task :=
  ⟨h.1, fun r hr => (h.2 r hr).mono hR⟩

theorem Participant.Within.push (h : p.Within R) {e : Bytes} (hacc : Accepted e)
    (hlt : p.TXID < 2 ^ 63) (hR : R p.TXID e) : (p.push e).Within R := by
  refine ⟨h.sound.push hacc hlt, ?_⟩
  intro t l hl
  by_cases ht : t = p.TXID
  · subst ht
    rw [Participant.push_lg_self, Option.some.injEq] at hl
    rw [← hl]
    exact hR
  · rw [Participant.push_lg_of_ne e ht] at hl
    exact h.logged t l hl

/-- A task keeps a participant within the relation if the event it may add is related to the
participant's next number. -/
theorem Participant.Within.keeps (h : p.Within R) {task : Bytes} (ht : Emitted task)
    (hnew : ∀ l : Log, task = l.logToStr → TXID_START ≤ l.ID → l.state = LogState.LOG_COMMIT →
      l.received.ID = p.TXID → Accepted l.event → R p.TXID l.event) : Keeps R p task := by
  refine ⟨ht, ?_⟩
  rintro ⟨reply, p'⟩ hr
  rcases pWorker_emitted ht hr with rfl | ⟨l, htext, hl, hID, hstate, hacc, -, rfl⟩
  · exact h
  · exact h.push hacc (hID ▸ l.received_ID_lt) (hnew l htext hl hstate hID hacc)

/-- A request that is no commit keeps every participant within its relation. -/
theorem Participant.Within.keeps_request (h : p.Within R) {l : Log} (ht : Emitted l.logToStr)
    (hl : l.ID < TXID_START ∨ l.state ≠ LogState.LOG_COMMIT) : Keeps R p l.logToStr := by
  refine h.keeps ht ?_
  intro l' htext hl' hstate
  obtain rfl := logToStr_injective htext
  rcases hl with hl | hl
  · exact absurd hl (by omega)
  · exact absurd hstate hl

/-- A commit keeps a participant within the relation if its event is accepted only where it is
related to its number. -/
theorem Participant.Within.keeps_commit (h : p.Within R) {t : Nat} {e : Bytes}
    (ht : TXID_START ≤ t) (hR : Accepted e → min longMax t = p.TXID → R p.TXID e) :
    Keeps R p (Log.logToStr ⟨t, LogState.LOG_COMMIT, e⟩) := by
  refine h.keeps (.update _ ht) ?_
  intro l htext _ _ hID hacc
  obtain rfl := logToStr_injective htext
  exact hR hacc hID

end Within

/-- The participant's memory, with the task it may still carry out, respects the relation. -/
structure Clean (R : Nat → Bytes → Prop) (n : Node) : Prop where
  within : n.part.Within R
  pending : ∀ task, n.pending = some task → Keeps R n.part task

theorem Clean.mono {R R' : Nat → Bytes → Prop} {n : Node} (h : Clean R n)
    (hR : ∀ t e, R t e → R' t e) : Clean R' n :=
  ⟨h.within.mono hR, fun task ht => (h.pending task ht).mono hR⟩

/-! ## The setting of a run -/

/-- What may go wrong in a run, the participants that nothing happens to, the numbers these have at
the start of the call, and the relation between numbers and events that the memories of restarted
participants respect. The relation may grow during a call, up to `bound`. -/
structure Setting where
  faults : Faults
  steady : Nat → Prop
  first : Nat → Nat
  rel : Nat → Bytes → Prop
  bound : Nat → Bytes → Prop
  pnum : Nat
  rel_bound : ∀ t e, rel t e → bound t e
  fresh_within : ∀ id q, faults.fresh id q → q.Within rel
  steady_choice : ∀ id x, steady id → faults.choice id x → x = .answer
  steady_drop : ∀ id, steady id → ¬ faults.drop id
  steady_fresh : ∀ id q, steady id → ¬ faults.fresh id q

/-- The setting with one more related event. -/
def Setting.extend (S : Setting) {T : Nat} {resp : Bytes} (hb : S.bound T resp) : Setting :=
  { S with
    rel := fun t e => S.rel t e ∨ (t = T ∧ e = resp)
    rel_bound := by
      rintro t e (h | ⟨rfl, rfl⟩)
      · exact S.rel_bound t e h
      · exact hb
    fresh_within := fun id q h => (S.fresh_within id q h).mono fun _ _ => Or.inl }

/-- The setting of a call that begins with the numbers `f`. -/
def Setting.since (S : Setting) (f : Nat → Nat) : Setting := { S with first := f }

/-- The setting with the relation up to which a call may go. -/
def Setting.loose (S : Setting) : Setting :=
  { S with
    rel := S.bound
    rel_bound := fun _ _ h => h
    fresh_within := fun id q h => (S.fresh_within id q h).mono S.rel_bound }

variable (S : Setting)

/-- What holds of each participant at every operation. -/
structure NodeOk (id : Nat) (e : Entry) (n : Node) : Prop where
  within : n.part.Within S.rel
  pending : ∀ task, n.pending = some task → Keeps S.rel n.part task ∧ e.pstate = .P_WAITING
  alive : n.alive = true →
    n.kept = true ∧ (e.pstate = .P_TEMP ∨ e.pstate = .P_WORKING ∨ e.pstate = .P_RECOVERY)
  steady : S.steady id → n.alive = true

/-- The request for the largest transaction number. -/
def txidReq : Bytes := Log.logToStr ⟨RECOVERY_TXID, LogState.LOG_PRE, []⟩

/-- The text of a vote request. -/
def voteReq (T : Nat) : Bytes := Log.logToStr ⟨T, LogState.LOG_PRE, []⟩

/-- The text of a committed record. -/
def commitReq (T : Nat) (e : Bytes) : Bytes := Log.logToStr ⟨T, LogState.LOG_COMMIT, e⟩

/-- The numbers under which participant `id` has applied an event. -/
def appliedNumbers (id : Nat) (hist : List Exch) : List Nat :=
  (hist.filter fun y => y.id = id ∧ y.out.node.part.TXID ≠ y.before.TXID).map (·.before.TXID)

/-- The participant has applied one event for each number from `first` to its counter, in order. -/
def Applied (first id : Nat) (hist : List Exch) (p : Participant) : Prop :=
  first ≤ p.TXID ∧ appliedNumbers id hist = List.range' first (p.TXID - first)

/-- A request answered `PRE`. -/
def Exch.IsVote (z : Exch) (T : Nat) : Prop :=
  z.ch = .working ∧ z.task = voteReq T ∧ z.out.ret = KV_OK ∧ z.out.rmsg = ascii "PRE"

/-- What holds of each request: the reply that counts is the participant's, and the recovery worker
sends questions for the largest number and committed records only. -/
structure ExchOk (y : Exch) : Prop where
  answered : y.out.ret = KV_OK → y.before.pWorker y.task = some (y.out.rmsg, y.out.node.part)
  unread : y.out.delivered = false → y.out.node.part = y.before
  recovery : y.ch = .recovery → y.task = txidReq ∨ ∃ t e, y.task = commitReq t e

/-- A participant is sent a commit only after it has answered the vote request with the same
number. -/
def VotedFirst (hist : List Exch) : Prop :=
  ∀ h₁ y h₂, hist = h₁ ++ y :: h₂ → y.ch = .working → ∀ T e, TXID_START ≤ T →
    y.task = commitReq T e → ∃ z ∈ h₁, z.id = y.id ∧ z.IsVote T

/-- The coordinator's log holds one committed record for each number below its counter. -/
structure Committed (R : Nat → Bytes → Prop) (c : Coordinator) : Prop where
  start_le : TXID_START ≤ c.TXID
  txid_le : c.TXID ≤ 2 ^ 63
  record : ∀ t, TXID_START ≤ t → t < c.TXID →
    ∃ e, c.lg t = some ⟨t, LogState.LOG_COMMIT, e⟩ ∧ Accepted e ∧ R t e

/-- The recovery thread has computed `minID` and has the mutexes still to take. -/
def RecoveryPc.Waits (pc : RecoveryPc) (m : Nat) : Prop := pc = .entered m ∨ pc = .begun m

/-- What holds at every operation. -/
structure Core (s : Sys) : Prop where
  running : s.aborted = false
  committed : Committed S.rel s.c
  waits : ∀ m, s.rpc.Waits m →
    TXID_START ≤ m + 1 ∧ m + 1 ≤ s.c.TXID ∧ ∀ id, (s.c.p id).maxTxid = none
  nodes : ∀ id, NodeOk S id (s.c.p id) (s.node id)
  outside : ∀ id, id ∉ pids S.pnum → (s.c.p id).pstate = .P_INVALID
  hist : ∀ y ∈ s.hist, ExchOk y
  voted : VotedFirst s.hist
  applied : ∀ id, S.steady id → Applied (S.first id) id s.hist (s.node id).part

section Relax

variable {S}

theorem NodeOk.clean {id : Nat} {e : Entry} {n : Node} (h : NodeOk S id e n) : Clean S.rel n :=
  ⟨h.within, fun task ht => (h.pending task ht).1⟩

theorem Committed.mono {R R' : Nat → Bytes → Prop} (hR : ∀ t e, R t e → R' t e) {c : Coordinator}
    (h : Committed R c) : Committed R' c :=
  ⟨h.start_le, h.txid_le, fun t h₁ h₂ => by
    obtain ⟨e, he, hacc, hrel⟩ := h.record t h₁ h₂
    exact ⟨e, he, hacc, hR t e hrel⟩⟩

/-- What holds in a setting holds with another relation that the logs respect, and with fewer steady
participants. -/
theorem Core.replace {S' : Setting} (hpnum : S'.pnum = S.pnum)
    (hsteady : ∀ id, S'.steady id → S.steady id ∧ S'.first id = S.first id) {s : Sys}
    (hcommitted : Committed S'.rel s.c) (hclean : ∀ id, Clean S'.rel (s.node id))
    (h : Core S s) : Core S' s where
  running := h.running
  committed := hcommitted
  waits := h.waits
  nodes id := ⟨(hclean id).within,
    fun task ht => ⟨(hclean id).pending task ht, ((h.nodes id).pending task ht).2⟩, (h.nodes id).alive,
    fun hu => (h.nodes id).steady (hsteady id hu).1⟩
  outside := by rw [hpnum]; exact h.outside
  hist := h.hist
  voted := h.voted
  applied id hu := by
    rw [(hsteady id hu).2]
    exact h.applied id (hsteady id hu).1

/-- What holds in a setting holds with a larger relation and fewer steady participants. -/
theorem Core.relax {S' : Setting} (hpnum : S'.pnum = S.pnum)
    (hrel : ∀ t e, S.rel t e → S'.rel t e)
    (hsteady : ∀ id, S'.steady id → S.steady id ∧ S'.first id = S.first id) {s : Sys}
    (h : Core S s) : Core S' s :=
  h.replace hpnum hsteady (h.committed.mono hrel) fun id => (h.nodes id).clean.mono hrel

theorem Core.loose {s : Sys} (h : Core S s) : Core S.loose s := by
  refine h.relax ?_ ?_ ?_
  · rfl
  · exact S.rel_bound
  · exact fun _ hu => ⟨hu, rfl⟩

end Relax

/-! ## The surroundings of a call -/

section Stability

variable {S}

theorem NodeOk.entry {id : Nat} {e e' : Entry} {n : Node} (h : NodeOk S id e n)
    (he : e'.pstate = e.pstate) : NodeOk S id e' n :=
  ⟨h.within, fun task ht => ⟨(h.pending task ht).1, he ▸ (h.pending task ht).2⟩,
    fun ha => he ▸ h.alive ha, h.steady⟩

/-- A participant with a task it has not carried out has no connection. -/
theorem NodeOk.pending_none {id : Nat} {e : Entry} {n : Node} (h : NodeOk S id e n)
    (hst : e.pstate ≠ .P_WAITING) : n.pending = none := by
  cases hp : n.pending with
  | none => rfl
  | some task => exact absurd (h.pending task hp).2 hst

theorem NodeOk.step {id : Nat} {e : Entry} {n n' : Node} (h : NodeOk S id e n)
    (hs : NodeStep S.faults id n n') : NodeOk S id e n' := by
  cases hs with
  | drop hd =>
      exact ⟨h.within, h.pending, nofun, fun hu => absurd hd (S.steady_drop id hu)⟩
  | restart hq =>
      exact ⟨S.fresh_within id _ hq, nofun, nofun, fun hu => absurd hq (S.steady_fresh id _ hu)⟩
  | finish ht hr =>
      exact ⟨(h.pending _ ht).1.2 _ hr, nofun, h.alive, h.steady⟩

theorem NodeOk.connect {id : Nat} {e : Entry} {n : Node} (h : NodeOk S id e n)
    (hp : n.pending = none) :
    NodeOk S id (e.setState .P_TEMP) { n with alive := true, kept := true } :=
  ⟨h.within, fun _ ht => absurd (hp.symm.trans ht) nofun, fun _ => ⟨rfl, Or.inl rfl⟩, fun _ => rfl⟩

/-- Nothing changes the memory of a steady participant but the requests to it. -/
theorem NodeOk.steady_part {id : Nat} {e : Entry} {n n' : Node} (h : NodeOk S id e n)
    (hu : S.steady id) (hs : NodeStep S.faults id n n') : n'.part = n.part := by
  cases hs with
  | drop hd => exact absurd hd (S.steady_drop id hu)
  | restart hq => exact absurd hq (S.steady_fresh id _ hu)
  | finish hp _ =>
      have hst := (h.pending _ hp).2
      rcases (h.alive (h.steady hu)).2 with h' | h' | h' <;> exact absurd (hst.symm.trans h') nofun

/-- The surroundings of a call keep the invariant. -/
theorem Core.env {s s' : Sys} (h : Core S s) (hs : Env S.faults s s') : Core S s' := by
  cases hs with
  | @node id n hn =>
      -- a step of one participant
      refine ⟨h.running, h.committed, h.waits, fun j => ?_, h.outside, h.hist, h.voted,
        fun j hu => ?_⟩
      · by_cases hj : j = id
        · subst hj
          simpa using (h.nodes j).step hn
        · simpa [hj] using h.nodes j
      · by_cases hj : j = id
        · subst hj
          simpa [(h.nodes j).steady_part hu hn] using h.applied j hu
        · simpa [hj] using h.applied j hu
  | @connect id hrpc hst hp =>
      -- the new connection leaves everything but the entry and the node of `id` alone
      have hid : id ∈ pids S.pnum := by
        by_contra hout
        rw [h.outside id hout] at hst
        cases hst
      refine ⟨h.running, ⟨h.committed.start_le, h.committed.txid_le, h.committed.record⟩, ?_, ?_, ?_,
        h.hist, h.voted, ?_⟩
      · intro m hm
        obtain ⟨h₁, h₂, h₃⟩ := h.waits m hm
        refine ⟨h₁, h₂, fun j => ?_⟩
        by_cases hj : j = id
        · subst hj
          simpa [Sys.connect, Entry.setState] using h₃ j
        · simpa [Sys.connect, hj] using h₃ j
      · intro j
        by_cases hj : j = id
        · subst hj
          simpa [Sys.connect] using (h.nodes j).connect hp
        · simpa [Sys.connect, hj] using h.nodes j
      · intro j hj
        have hne : j ≠ id := fun heq => hj (heq ▸ hid)
        simpa [Sys.connect, hne] using h.outside j hj
      · intro j hu
        by_cases hj : j = id
        · subst hj
          simpa [Sys.connect] using h.applied j hu
        · simpa [Sys.connect, hj] using h.applied j hu
  | enter hrpc =>
      -- the thread is about to read the number of the last event
      have hstart := h.committed.start_le
      refine ⟨h.running, ⟨hstart, h.committed.txid_le, h.committed.record⟩, ?_,
        fun j => (h.nodes j).entry rfl, h.outside, h.hist, h.voted, h.applied⟩
      intro m hm
      obtain rfl : s.c.TXID - 1 = m := by
        rcases hm with hm | hm
        · exact RecoveryPc.entered.inj hm
        · cases hm
      simp only [TXID_START] at hstart
      exact ⟨by simp only [TXID_START]; omega, by simp only [clearMaxTxid]; omega, fun _ => rfl⟩
  | @begin m hrpc htmp =>
      -- the same number, with the table cleared
      refine ⟨h.running, ⟨h.committed.start_le, h.committed.txid_le, h.committed.record⟩, ?_,
        h.nodes, h.outside, h.hist, h.voted, h.applied⟩
      intro m' hm'
      obtain rfl : m = m' := by
        rcases hm' with hm' | hm'
        · cases hm'
        · exact RecoveryPc.begun.inj hm'
      exact h.waits m (Or.inl hrpc)
  | done hrpc =>
      refine ⟨h.running, ⟨h.committed.start_le, h.committed.txid_le, h.committed.record⟩, ?_,
        h.nodes, h.outside, h.hist, h.voted, h.applied⟩
      rintro m (hm | hm) <;> cases hm

end Stability

/-! ## Assertions -/

/-- What an assertion says about one participant, by the requests sent so far. -/
abbrev NodePred := List Exch → Entry → Node → Prop

/-- What an assertion says about the coordinator's counter and log and the requests sent so far. -/
abbrev GlobalPred := Nat → Logger → List Exch → Prop

/-- The surroundings of a call, and requests to other participants, cannot falsify the predicate;
`running` says that the recovery thread holds the mutexes. -/
structure NodeStable (running : Bool) (id : Nat) (P : NodePred) : Prop where
  step : ∀ {h e n n'}, NodeOk S id e n → P h e n → NodeStep S.faults id n n' → P h e n'
  connect : ∀ {h e n}, running = false → NodeOk S id e n → P h e n → e.pstate = .P_WAITING →
    n.pending = none → P h (e.setState .P_TEMP) { n with alive := true, kept := true }
  clear : ∀ {h e n}, running = false → P h e n → P h { e with maxTxid := none } n
  sent : ∀ {h e n y}, y.id ≠ id → P h e n → P (h ++ [y]) e n

/-- An assertion about a state of the system. -/
structure Assert (running : Bool) (G : GlobalPred) (P : Nat → NodePred) (s : Sys) : Prop where
  core : Core S s
  mutex : s.rpc = .running ↔ running = true
  global : G s.c.TXID s.c.lg s.hist
  peers : ∀ id, P id s.hist (s.c.p id) (s.node id)

section Assertions

variable {S} {running : Bool} {G : GlobalPred} {P : Nat → NodePred}

theorem Assert.not_running {s : Sys} (h : Assert S running G P s) (hrpc : s.rpc ≠ .running) :
    running ≠ true :=
  fun hr => hrpc (h.mutex.2 hr)

/-- The surroundings of a call cannot falsify an assertion. -/
theorem Assert.stable (hP : ∀ id, NodeStable S running id (P id)) :
    Prog.Stable (Env S.faults) (Assert S running G P) := by
  intro s s' h hs
  refine ⟨h.core.env hs, ?_, ?_, ?_⟩
  · cases hs with
    | node _ => exact h.mutex
    | connect _ _ _ => exact h.mutex
    | enter hrpc => exact iff_of_false nofun (h.not_running (by rw [hrpc]; nofun))
    | begin hrpc _ => exact iff_of_false nofun (h.not_running (by rw [hrpc]; nofun))
    | done hrpc => exact iff_of_false nofun (h.not_running (by rw [hrpc]; nofun))
  · cases hs <;> exact h.global
  · intro j
    have hpeer := h.peers j
    have hnode := h.core.nodes j
    cases hs with
    | @node id n hn =>
        by_cases hj : j = id
        · subst hj
          simpa using (hP j).step hnode hpeer hn
        · simpa [hj] using hpeer
    | @connect id hrpc hst hp =>
        have hrun : running = false := Bool.eq_false_iff.2 (h.not_running hrpc)
        by_cases hj : j = id
        · subst hj
          simpa [Sys.connect] using (hP j).connect hrun hnode hpeer hst hp
        · simpa [Sys.connect, hj] using hpeer
    | enter hrpc =>
        have hrun : running = false :=
          Bool.eq_false_iff.2 (h.not_running (by rw [hrpc]; nofun))
        exact (hP j).clear hrun hpeer
    | begin _ _ => exact hpeer
    | done _ => exact hpeer

/-- What holds in a setting holds with a larger relation and fewer steady participants. -/
theorem Assert.relax {S' : Setting} (hpnum : S'.pnum = S.pnum)
    (hrel : ∀ t e, S.rel t e → S'.rel t e)
    (hsteady : ∀ id, S'.steady id → S.steady id ∧ S'.first id = S.first id) {s : Sys}
    (h : Assert S running G P s) : Assert S' running G P s :=
  ⟨h.core.relax hpnum hrel hsteady, h.mutex, h.global, h.peers⟩

/-- An assertion may be weakened at the state it holds in. -/
theorem Assert.imp {G' : GlobalPred} {P' : Nat → NodePred} {s : Sys} (h : Assert S running G P s)
    (hG : G s.c.TXID s.c.lg s.hist → G' s.c.TXID s.c.lg s.hist)
    (hP : ∀ id, NodeOk S id (s.c.p id) (s.node id) → P id s.hist (s.c.p id) (s.node id) →
      P' id s.hist (s.c.p id) (s.node id)) : Assert S running G' P' s :=
  ⟨h.core, h.mutex, hG h.global, fun id => hP id (h.core.nodes id) (h.peers id)⟩

/-- Something else is known of one participant. -/
theorem Assert.change {s : Sys} {Q : NodePred} (h : Assert S running G P s) (id : Nat)
    (hQ : P id s.hist (s.c.p id) (s.node id) → Q s.hist (s.c.p id) (s.node id)) :
    Assert S running G (Function.update P id Q) s := by
  refine h.imp (fun hG => hG) fun j _ hp => ?_
  by_cases hj : j = id
  · subst hj
    rw [Function.update_self]
    exact hQ hp
  · rwa [Function.update_of_ne hj]

/-- What was known of one participant is known again. -/
theorem Assert.restore {s : Sys} {id : Nat} {Q : NodePred}
    (h : Assert S running G (Function.update P id Q) s)
    (hQ : Q s.hist (s.c.p id) (s.node id) → P id s.hist (s.c.p id) (s.node id)) :
    Assert S running G P s := by
  have hback := h.change id (Q := P id) (by rwa [Function.update_self])
  rwa [Function.update_idem, Function.update_eq_self] at hback

end Assertions

end CloudLabs.KvStore
