import CloudLabs.KvStore.UpdateDB

/-!
# The recovery run

`spec_Recovery`: whatever fails during a recovery run, no participant is left in the recovery state,
and every participant in the working state that has kept its memory since it connected has the
coordinator's number (`Recovered`).

`Tabled` is the invariant between the phases: a participant in the recovery state has an entry in
`maxTxidTB`, and the entry is its largest number. A record is pushed to those whose entry is just
below it (`record_spec`). While a leader's log is pulled, its records raise the coordinator's
counter up to the leader's, and a leader that fails leaves nobody in the working state (`Head`). At
the end the coordinator's log is pushed to all, which brings every entry to its last number
(`spec_recoveryFromC`).
-/

set_option autoImplicit false

namespace CloudLabs.KvStore

open CloudLabs.Foundation

/-! ## Updates of the state table -/

section Entries

variable {S : Setting} {G : GlobalPred} {P P' : Nat → NodePred}

/-- An update of the participants' entries while the recovery thread holds the mutexes. -/
theorem Assert.mapEntries {s : Sys} (h : Assert S true G P s) {g : Nat → Entry → Entry}
    (hok : ∀ id, NodeOk S id (s.c.p id) (s.node id) → P id s.hist (s.c.p id) (s.node id) →
      NodeOk S id (g id (s.c.p id)) (s.node id))
    (hout : ∀ id, id ∉ pids S.pnum → P id s.hist (s.c.p id) (s.node id) →
      (s.c.p id).pstate = .P_INVALID → (g id (s.c.p id)).pstate = .P_INVALID)
    (hP : ∀ id, NodeOk S id (s.c.p id) (s.node id) → P id s.hist (s.c.p id) (s.node id) →
      P' id s.hist (g id (s.c.p id)) (s.node id)) :
    Guarantee S.loose s { s with c := { s.c with p := fun id => g id (s.c.p id) } } ∧
      Assert S true G P' { s with c := { s.c with p := fun id => g id (s.c.p id) } } := by
  have hcore := h.core
  have hrpc : s.rpc = .running := h.mutex.2 rfl
  have hassert : Assert S true G P' { s with c := { s.c with p := fun id => g id (s.c.p id) } } := by
    refine ⟨⟨hcore.running, ⟨hcore.committed.start_le, hcore.committed.txid_le,
      hcore.committed.record⟩, ?_, fun id => hok id (hcore.nodes id) (h.peers id),
      fun id hid => hout id hid (h.peers id) (hcore.outside id hid), hcore.hist, hcore.voted,
      hcore.applied⟩,
      h.mutex, h.global, fun id => hP id (hcore.nodes id) (h.peers id)⟩
    rintro m (hm | hm) <;> exact absurd (hrpc.symm.trans hm) nofun
  exact ⟨hassert.core.guarantee rfl rfl rfl le_rfl, hassert⟩

/-- An update of one participant's entry while the recovery thread holds the mutexes. -/
theorem Assert.mapAt {s : Sys} {id : Nat} {Q : NodePred} (h : Assert S true G P s)
    (hid : id ∈ pids S.pnum) {f : Entry → Entry}
    (hok : NodeOk S id (s.c.p id) (s.node id) → P id s.hist (s.c.p id) (s.node id) →
      NodeOk S id (f (s.c.p id)) (s.node id))
    (hQ : NodeOk S id (s.c.p id) (s.node id) → P id s.hist (s.c.p id) (s.node id) →
      Q s.hist (f (s.c.p id)) (s.node id)) :
    Guarantee S.loose s { s with c := { s.c with p := Function.update s.c.p id (f (s.c.p id)) } } ∧
      Assert S true G (Function.update P id Q)
        { s with c := { s.c with p := Function.update s.c.p id (f (s.c.p id)) } } := by
  have hmap : Function.update s.c.p id (f (s.c.p id)) =
      fun j => if j = id then f (s.c.p j) else s.c.p j := by
    funext j
    by_cases hj : j = id
    · subst hj
      simp
    · simp [hj]
  rw [hmap]
  refine h.mapEntries (g := fun j e => if j = id then f e else e) ?_ ?_ ?_
  · intro j hj hP
    split
    · rename_i heq
      subst heq
      exact hok hj hP
    · exact hj
  · intro j hj _ hst
    have hne : j ≠ id := fun heq => hj (heq ▸ hid)
    rwa [if_neg hne]
  · intro j hj hP
    by_cases heq : j = id
    · subst heq
      rw [if_pos rfl, Function.update_self]
      exact hQ hj hP
    · rw [if_neg heq, Function.update_of_ne heq]
      exact hP

/-- A predicate that the surroundings of a recovery run cannot falsify. -/
theorem NodeStable.ofRunning {id : Nat} {P : NodePred}
    (hstep : ∀ {h e n n'}, NodeOk S id e n → P h e n → NodeStep S.faults id n n' → P h e n')
    (hsent : ∀ {h e n y}, y.id ≠ id → P h e n → P (h ++ [y]) e n) : NodeStable S true id P where
  step := hstep
  connect hr := nomatch hr
  clear hr := nomatch hr
  sent := hsent

/-- A fact about the number of a participant that has kept its memory stays true while no task is
pending there. -/
theorem kept_step {id : Nat} {X : Participant → Prop} {e : Entry} {n n' : Node}
    (hok : NodeOk S id e n) (hst : e.pstate ≠ .P_WAITING) (h : n.kept = true → X n.part)
    (hs : NodeStep S.faults id n n') : n'.kept = true → X n'.part := by
  intro hk
  cases hs with
  | drop _ => exact h hk
  | restart _ => exact nomatch hk
  | finish hp _ =>
      rw [hok.pending_none hst] at hp
      exact nomatch hp

end Entries

/-! ## The question for the largest number -/

/-- The recovery table holds nothing about the participant. -/
def Cleared (_ : Nat) : NodePred := fun _ e _ => e.maxTxid = none

/-- The participant is in the recovery state if it is connected. -/
structure Gathered (U : Nat → Prop) (id : Nat) (h : List Exch) (e : Entry) (n : Node) : Prop where
  temp : e.pstate ≠ .P_TEMP
  working : e.pstate ≠ .P_WORKING
  table : e.maxTxid = none
  steady : U id → e.pstate = .P_RECOVERY

/-- The participant has told its largest number if it is in the recovery state. -/
structure Reported (U : Nat → Prop) (id : Nat) (h : List Exch) (e : Entry) (n : Node) : Prop where
  temp : e.pstate ≠ .P_TEMP
  working : e.pstate ≠ .P_WORKING
  steady : U id → e.pstate = .P_RECOVERY
  told : e.pstate = .P_RECOVERY → ∃ m, (e.buf .recovery).ret = KV_OK ∧
    (e.buf .recovery).dataRet = toDec m ∧ TXID_START ≤ m + 1 ∧ m < 2 ^ 63 ∧
    (n.kept = true → n.part.TXID = m + 1)
  silent : e.pstate ≠ .P_RECOVERY → (e.buf .recovery).ret ≠ KV_OK ∧ e.maxTxid = none

section Question

variable {S : Setting} {id : Nat} {G : GlobalPred} {g : Nat → Prop}

theorem cleared_stable (S : Setting) (id : Nat) : NodeStable S true id (Cleared id) :=
  .ofRunning (fun _ h _ => h) fun _ h => h

theorem gathered_stable (S : Setting) (id : Nat) : NodeStable S true id (Gathered S.steady id) :=
  .ofRunning (fun _ h _ => ⟨h.temp, h.working, h.table, h.steady⟩)
    fun _ h => ⟨h.temp, h.working, h.table, h.steady⟩

theorem reported_stable (S : Setting) (id : Nat) : NodeStable S true id (Reported S.steady id) := by
  refine .ofRunning (fun hok h hs => ⟨h.temp, h.working, h.steady, fun hst => ?_, h.silent⟩)
    fun _ h => ⟨h.temp, h.working, h.steady, h.told, h.silent⟩
  obtain ⟨m, hret, hdata, hm, hlt, hk⟩ := h.told hst
  exact ⟨m, hret, hdata, hm, hlt,
    kept_step (X := fun p => p.TXID = m + 1) hok (by rw [hst]; nofun) hk hs⟩

/-- The connected participants go into the recovery state. -/
theorem spec_putRecovery :
    Spec S (Assert S true G Cleared) (updateMem putRecovery)
      fun _ => Assert S true G (Gathered S.steady) := by
  refine spec_updateMem (cleared_stable S) fun s hs => ?_
  refine hs.mapEntries (g := fun _ e =>
    if e.pstate = .P_TEMP ∨ e.pstate = .P_WORKING then e.setState .P_RECOVERY else e) ?_ ?_ ?_
  · intro id hok _
    split
    · rename_i hst
      refine ⟨hok.within, fun task ht => ?_, fun ha => ⟨(hok.alive ha).1, Or.inr (Or.inr rfl)⟩,
        hok.steady⟩
      have hwait := (hok.pending task ht).2
      rw [hwait] at hst
      exact absurd hst (by simp)
    · exact hok
  · intro id _ _ hst
    rw [hst]
    simp [hst]
  · intro id hok hP
    split
    · exact ⟨nofun, nofun, hP, fun _ => rfl⟩
    · rename_i hst
      rw [not_or] at hst
      refine ⟨hst.1, hst.2, hP, fun hu => ?_⟩
      rcases (hok.alive (hok.steady hu)).2 with h | h | h
      · exact absurd h hst.1
      · exact absurd h hst.2
      · exact h

theorem pWorker_txidReq (p : Participant) : p.pWorker txidReq = some (toDec (p.TXID - 1), p) :=
  pWorker_logToStr_recovery p rfl

/-- The question for the largest number. -/
theorem txid_spec :
    RecoverySpec S (fun t _ _ => g t) id ⟨RECOVERY_TXID, LogState.LOG_PRE, []⟩
      (Gathered S.steady id) (Reported S.steady id) where
  text := ⟨by decide, Or.inl rfl⟩
  keeps hat _ := hat.ok.within.keeps_request (.recovery _ _)
    (Or.inl (show RECOVERY_TXID < TXID_START by decide))
  answers {T lg h e n} _ _ _ _ := by
    rw [show Log.logToStr ⟨RECOVERY_TXID, LogState.LOG_PRE, []⟩ = txidReq from rfl, pWorker_txidReq]
    exact Option.some_ne_none _
  skip hat hst := by
    refine ⟨hat.pred.temp, hat.pred.working, hat.pred.steady, fun h => absurd h hst,
      fun _ => ⟨?_, hat.pred.table⟩⟩
    rw [Entry.setRet_ret]
    decide
  stale _ _ hl := absurd hl (show ¬ TXID_START ≤ RECOVERY_TXID by decide)
  answered := by
    intro T lg h e n rmsg part hat hst _ ha hw
    rw [show Log.logToStr ⟨RECOVERY_TXID, LogState.LOG_PRE, []⟩ = txidReq from rfl,
      pWorker_txidReq, Option.some.injEq, Prod.mk.injEq] at hw
    obtain ⟨hrmsg, rfl⟩ := hw
    have hsound := hat.ok.within.sound
    have h₁ := hsound.start_le
    have h₂ := hsound.txid_le
    have hpos : TXID_START ≤ n.part.TXID - 1 + 1 := by simp only [TXID_START] at *; omega
    refine ⟨hat.global, hat.pred.temp, hat.pred.working, hat.pred.steady, fun _ =>
      ⟨n.part.TXID - 1, ?_, ?_, hpos, ?_, ?_⟩, fun hne => absurd hst hne⟩
    · simp [Entry.counted]
    · simp [Entry.counted, ← hrmsg]
    · simp only [TXID_START] at h₁
      omega
    · intro _
      show n.part.TXID = n.part.TXID - 1 + 1
      simp only [TXID_START] at h₁
      omega
  failed := by
    intro T lg h e n o hat hst _ hf hu
    refine ⟨hat.global, (fun h => by cases h), (fun h => by cases h), fun hu' => absurd hu' hu,
        (fun h => by cases h), fun _ => ⟨?_, rfl⟩⟩
    simpa using hf.ret

end Question

/-! ## The recovery table -/

/-- The entry of a participant in the recovery state is its largest number, between `lo - 1` and
`hi`; `A` lists the participants that may have an entry, and `W` the counters of those that may be
in the working state. -/
structure Tabled (U : Nat → Prop) (A : List Nat) (W : Nat → Option Nat) (lo hi id : Nat)
    (h : List Exch) (e : Entry) (n : Node) : Prop where
  entry : ∀ m, e.maxTxid = some m → id ∈ A ∧ e.pstate = .P_RECOVERY ∧ lo ≤ m + 1 ∧ m ≤ hi ∧
    (n.kept = true → n.part.TXID = m + 1)
  listed : e.pstate = .P_RECOVERY → e.maxTxid ≠ none
  temp : e.pstate ≠ .P_TEMP
  working : e.pstate = .P_WORKING → ∃ w, W id = some w ∧ (n.kept = true → n.part.TXID = w)
  steady : U id → e.pstate = .P_RECOVERY ∨ e.pstate = .P_WORKING

section Table

variable {S : Setting} {A : List Nat} {W : Nat → Option Nat} {lo hi id : Nat} {g : Nat → Prop}

theorem tabled_stable (S : Setting) (A : List Nat) (W : Nat → Option Nat) (lo hi id : Nat) :
    NodeStable S true id (Tabled S.steady A W lo hi id) := by
  refine .ofRunning (fun hok h hs => ⟨fun m hm => ?_, h.listed, h.temp, fun hst => ?_, h.steady⟩)
    fun _ h => ⟨h.entry, h.listed, h.temp, h.working, h.steady⟩
  · obtain ⟨hA, hst, hlo, hhi, hk⟩ := h.entry m hm
    exact ⟨hA, hst, hlo, hhi,
      kept_step (X := fun p => p.TXID = m + 1) hok (by rw [hst]; nofun) hk hs⟩
  · obtain ⟨w, hw, hk⟩ := h.working hst
    exact ⟨w, hw, kept_step (X := fun p => p.TXID = w) hok (by rw [hst]; nofun) hk hs⟩

theorem Tabled.mono {A' : List Nat} {W' : Nat → Option Nat} {lo' hi' : Nat} {U : Nat → Prop}
    {h : List Exch} {e : Entry} {n : Node} (ht : Tabled U A W lo hi id h e n)
    (hA : ∀ m, e.maxTxid = some m → id ∈ A' ∧ lo' ≤ m + 1 ∧ m ≤ hi')
    (hW : ∀ w, e.pstate = .P_WORKING → W id = some w → W' id = some w) :
    Tabled U A' W' lo' hi' id h e n := by
  refine ⟨fun m hm => ?_, ht.listed, ht.temp, fun hst => ?_, ht.steady⟩
  · obtain ⟨-, hst, -, -, hk⟩ := ht.entry m hm
    obtain ⟨hA', hlo, hhi⟩ := hA m hm
    exact ⟨hA', hst, hlo, hhi, hk⟩
  · obtain ⟨w, hw, hk⟩ := ht.working hst
    exact ⟨w, hW w hst hw, hk⟩

/-- A committed record is pushed to the participants whose largest number is just below its own; the
others skip it. -/
theorem record_spec {k lo' : Nat} {e₀ : Bytes} (hk : TXID_START ≤ k) (hlt : k < 2 ^ 63)
    (hhi : k ≤ hi) (hacc : Accepted e₀) (hrel : S.rel k e₀) (hlo' : lo' ≤ k + 1)
    (hlo : ∀ m, lo ≤ m + 1 → m + 1 ≠ k → lo' ≤ m + 1) :
    RecoverySpec S (fun t _ _ => g t) id ⟨k, LogState.LOG_COMMIT, e₀⟩ (Tabled S.steady A W lo hi id)
      (Tabled S.steady A W lo' hi id) where
  text := ⟨hlt, Or.inr ⟨k, e₀, rfl⟩⟩
  keeps hat _ := hat.ok.within.keeps_commit hk fun _ hID => by
    rw [← hID, min_longMax hlt]
    exact hrel
  answers := by
    intro T lg h e n hat hst hID hu
    obtain ⟨m, hm⟩ := Option.ne_none_iff_exists'.1 (hat.pred.listed hst)
    obtain ⟨-, -, -, -, hkept⟩ := hat.pred.entry m hm
    have htx := hkept (hat.ok.alive (hat.ok.steady hu)).1
    have hkm : k = m + 1 := by simpa [hm] using hID hk
    have hID' : (Log.received ⟨k, LogState.LOG_COMMIT, e₀⟩).ID = n.part.TXID := by
      rw [htx, ← hkm]
      exact min_longMax hlt
    obtain ⟨rc, kv, hrun, -⟩ := eventParser_of_accepted n.part.kvdb hacc
    rw [pWorker_commit n.part hk hID' rfl, hrun]
    exact Option.some_ne_none _
  skip hat hst := by
    refine ⟨fun m hm => ?_, fun h => absurd h hst, hat.pred.temp, hat.pred.working, hat.pred.steady⟩
    exact absurd (hat.pred.entry m hm).2.1 hst
  stale := by
    intro T lg h e n hat hst _ hID
    obtain ⟨m, hm⟩ := Option.ne_none_iff_exists'.1 (hat.pred.listed hst)
    obtain ⟨hA, -, hlom, hhim, hkept⟩ := hat.pred.entry m hm
    have hkm : k ≠ m + 1 := by simpa [hm] using hID
    refine ⟨fun m' hm' => ?_, fun _ h => (by cases h), hat.pred.temp, hat.pred.working, hat.pred.steady⟩
    obtain rfl : m = m' := by simpa [hm] using hm'
    exact ⟨hA, hst, hlo m hlom (Ne.symm hkm), hhim, hkept⟩
  answered := by
    intro T lg h e n rmsg part hat hst hID ha hw
    obtain ⟨m, hm⟩ := Option.ne_none_iff_exists'.1 (hat.pred.listed hst)
    obtain ⟨hA, -, hlom, hhim, hkept⟩ := hat.pred.entry m hm
    have htx := hkept (hat.ok.alive ha).1
    have hkm : k = m + 1 := by simpa [hm] using hID hk
    refine ⟨hat.global, ?_⟩
    rcases pWorker_commitReq hk hlt (htx.trans hkm.symm) hw with ⟨-, hne, rfl⟩ | ⟨hacc', -, -⟩
    · -- applied, and the worker has counted the entry up
      refine ⟨fun m' hm' => ?_, fun _ => ?_, hat.pred.temp, fun hst' => ?_, hat.pred.steady⟩
      · have hm'' : m + 1 = m' := by simpa [Entry.counted, hne, hm] using hm'
        refine ⟨hA, hst, by omega, by omega, fun _ => ?_⟩
        show n.part.TXID + 1 = m' + 1
        rw [htx, hm'']
      · simp [Entry.counted, hne]
      · exact absurd (hst.symm.trans hst') (fun h => by cases h)
    · -- the event is accepted, so it is not refused
      exact absurd hacc hacc'
  failed hat _ _ hf hu := by
    -- the participant is in the waiting state, without an entry
    refine ⟨hat.global, fun m hm => ?_, fun h => ?_, fun h => ?_, fun h => ?_,
      fun hu' => absurd hu' hu⟩
    · cases hm
    · cases h
    · cases h
    · cases h

/-- One participant gets a record. -/
theorem spec_pushOne {P Q : Nat → NodePred} {G : GlobalPred} (hP : ∀ j, NodeStable S true j (P j))
    (hQ : ∀ j, NodeStable S true j (Q j)) {l : Log} {done : List Nat} (hid : id ∈ pids S.pnum)
    (hdone : id ∉ done) (spec : RecoverySpec S G id l (P id) (Q id)) :
    Spec S (Assert S true G (mix done P Q))
      (postTask .recovery id l.logToStr >>= fun _ => skipReply .recovery id)
      fun _ => Assert S true G (mix (id :: done) P Q) := by
  rw [← update_mix]
  refine Prog.Triple.bind (spec_postRecovery (stable_mix hP hQ done) hid ?_)
    fun _ => spec_skipReply (stable_update (stable_mix hP hQ done) (hQ id)) _ _
  rw [mix_of_notMem _ _ hdone]
  exact spec

/-- After a loop over all participants, nothing is known of the other ones but that they are not
connected. -/
theorem Assert.tabled {lo' : Nat} {s : Sys} {G : GlobalPred}
    (h : Assert S true G (mix (pids S.pnum) (Tabled S.steady A W lo hi)
      (Tabled S.steady A W lo' hi)) s) : Assert S true G (Tabled S.steady A W lo' hi) s := by
  refine ⟨h.core, h.mutex, h.global, fun id => ?_⟩
  refine mix_elim (h.peers id) (fun _ hp => hp) fun hid hp => ?_
  refine hp.mono (fun m hm => ?_) fun _ _ hw => hw
  exact absurd ((h.core.outside id hid).symm.trans (hp.entry m hm).2.1) nofun

/-- A record of the leader is relayed to all participants. -/
theorem spec_relay {k : Nat} {e₀ : Bytes} (hk : TXID_START ≤ k) (hlt : k < 2 ^ 63) (hhi : k ≤ hi)
    (hacc : Accepted e₀) (hrel : S.rel k e₀) :
    Spec S (Assert S true (fun t _ _ => g t) (Tabled S.steady A W TXID_START hi))
      (relay (commitReq k e₀) (pids S.pnum))
      fun _ => Assert S true (fun t _ _ => g t) (Tabled S.steady A W TXID_START hi) := by
  have hstable := tabled_stable S A W TXID_START hi
  refine Prog.Triple.conseq (spec_forEach (relay (commitReq k e₀))
    (fun id => postTask .recovery id (commitReq k e₀) >>= fun _ => skipReply .recovery id) rfl
    (fun _ _ => (Prog.bind_assoc _ _ _).symm) fun id done hid hdone => ?_) (fun _ h => h)
    fun _ _ h => h.tabled
  exact spec_pushOne hstable hstable hid hdone
    (record_spec hk hlt hhi hacc hrel (by omega) fun m hm _ => hm)

/-- A record of the coordinator is pushed to all participants. -/
theorem spec_pushLog {T k : Nat} (hk : TXID_START ≤ k) (hkT : k < T) (hhi : k ≤ hi) :
    Spec S (Assert S true (fun t _ _ => t = T) (Tabled S.steady A W k hi)) (pushLog k (pids S.pnum))
      fun _ => Assert S true (fun t _ _ => t = T) (Tabled S.steady A W (k + 1) hi) := by
  have hP := tabled_stable S A W k hi
  have hQ := tabled_stable S A W (k + 1) hi
  refine Prog.Triple.conseq (spec_forEach (pushLog k) (fun id =>
    readMem >>= fun c => Prog.ofOption (c.lg.getLogByTXID k) >>= fun l =>
      postTask .recovery id l.logToStr >>= fun _ => skipReply .recovery id) rfl
    (fun _ _ => by simp only [pushLog, Prog.bind_assoc]) fun id done hid hdone => ?_) (fun _ h => h)
    fun _ _ h => h.tabled
  have hmix : ∀ j, NodeStable S true j _ := stable_mix hP hQ done
  refine Prog.Triple.bind (spec_readMem hmix) fun c => ?_
  refine Prog.Triple.of_imp (C := k < 2 ^ 63 ∧ ∃ e, c.lg.getLogByTXID k =
    some ⟨k, LogState.LOG_COMMIT, e⟩ ∧ Accepted e ∧ S.rel k e) ?_ ?_
  · rintro s ⟨hs, rfl⟩
    have hT : s.c.TXID = T := hs.global
    have hle := hs.core.committed.txid_le
    exact ⟨by omega, hs.core.committed.record k hk (by omega)⟩
  rintro ⟨hlt, e, he, hacc, hrel⟩
  rw [he, Prog.ofOption_some, Prog.ret_bind]
  refine Prog.Triple.conseq (spec_pushOne hP hQ hid hdone
    (record_spec hk hlt hhi hacc hrel (by omega) fun m hm hne => by omega)) (fun s hs => hs.1)
    fun _ _ h => h

/-- The coordinator's log is pushed to all participants: every entry is its last number
afterwards. -/
theorem spec_pushLogs {T : Nat} (n : Nat) : ∀ k, TXID_START ≤ k → k + n = T →
    Spec S (Assert S true (fun t _ _ => t = T) (Tabled S.steady A W k (T - 1)))
      (pushLogs S.pnum (List.range' k n))
      fun _ => Assert S true (fun t _ _ => t = T) (Tabled S.steady A W T (T - 1)) := by
  induction n with
  | zero =>
      rintro k - rfl
      exact Prog.Triple.ret fun s hs => hs
  | succ n ih =>
      intro k hk hT
      rw [List.range'_succ]
      exact Prog.Triple.bind (spec_pushLog hk (by omega) (by omega)) fun _ =>
        ih (k + 1) (by omega) (by omega)

end Table

/-! ## Reading the largest numbers -/

/-- The number a participant has told. -/
def toldTxid (b : Buffers) : Option Nat := (b.reply (· != [])).map fun rc => toUInt64 (strtol rc)

/-- The participant's number is in the table. -/
def Collected (U : Nat → Prop) (A : List Nat) (σ : Nat → Buffers) (id : Nat) : NodePred :=
  fun h e n => Tabled U A (fun _ => none) TXID_START (2 ^ 63) id h e n ∧ e.maxTxid = toldTxid (σ id)

section Collect

variable {S : Setting} {T : Nat} {σ : Nat → Buffers}

theorem collected_stable (S : Setting) (A : List Nat) (σ : Nat → Buffers) (id : Nat) :
    NodeStable S true id (Collected S.steady A σ id) :=
  .ofRunning (fun hok h hs => ⟨(tabled_stable S _ _ _ _ id).step hok h.1 hs, h.2⟩)
    fun hy h => ⟨(tabled_stable S _ _ _ _ id).sent hy h.1, h.2⟩

/-- What a participant has told is its entry, once it is read. -/
theorem Reported.collected {U : Nat → Prop} {id : Nat} {h : List Exch} {e : Entry} {n : Node}
    {A : List Nat} (hr : Reported U id h e n) (hA : id ∈ A) (hbuf : e.buf .recovery = σ id) :
    match (σ id).reply (· != []) with
    | some rc => Collected U A σ id h { e with maxTxid := some (toUInt64 (strtol rc)) } n
    | none => Collected U A σ id h e n := by
  by_cases hst : e.pstate = .P_RECOVERY
  · obtain ⟨m, hret, hdata, hm, hlt, hk⟩ := hr.told hst
    have hrep : (σ id).reply (· != []) = some (toDec m) := by
      rw [← hbuf]
      exact reply_eq_some.2 ⟨hret, by rw [hdata]; simpa using toDec_ne_nil m, hdata.symm⟩
    rw [hrep]
    refine ⟨⟨fun m' hm' => ?_, fun _ => nofun, hr.temp, fun h => absurd (hst.symm.trans h) nofun,
      fun _ => Or.inl hst⟩, ?_⟩
    · rw [Option.some.injEq, toUInt64_strtol_toDec_of_lt hlt] at hm'
      subst hm'
      exact ⟨hA, hst, hm, by omega, hk⟩
    · rw [toldTxid, hrep]
      rfl
  · obtain ⟨hret, hmax⟩ := hr.silent hst
    have hrep : (σ id).reply (· != []) = none := by
      rw [← hbuf]
      exact if_neg fun h => hret h.1
    rw [hrep]
    refine ⟨⟨fun m hm => ?_, fun h => absurd h hst, hr.temp, fun h => absurd h hr.working,
      fun hu => Or.inl (hr.steady hu)⟩, ?_⟩
    · rw [hmax] at hm
      exact nomatch hm
    · rw [hmax, toldTxid, hrep]
      rfl

/-- Before its number is read: the participant has reported it. -/
def ReportHeld (S : Setting) (σ : Nat → Buffers) (id : Nat) : NodePred :=
  Holds (mix (pids S.pnum) (Gathered S.steady) (Reported S.steady) id) .recovery (σ id)

/-- After its number is read. -/
def CollectHeld (S : Setting) (σ : Nat → Buffers) (id : Nat) : NodePred :=
  Holds (Collected S.steady (pids S.pnum) σ id) .recovery (σ id)

theorem reportHeld_stable (S : Setting) (σ : Nat → Buffers) (id : Nat) :
    NodeStable S true id (ReportHeld S σ id) :=
  (stable_mix (gathered_stable S) (reported_stable S) _ id).holds _

theorem collectHeld_stable (S : Setting) (σ : Nat → Buffers) (id : Nat) :
    NodeStable S true id (CollectHeld S σ id) :=
  (collected_stable S _ σ id).holds _

section One

variable {done : List Nat} {id : Nat}

/-- The reply of a participant whose number has not been read. -/
theorem reported_of_mix {h : List Exch} {e : Entry} {n : Node} (hid : id ∈ pids S.pnum)
    (hdone : id ∉ done) (hp : mix done (ReportHeld S σ) (CollectHeld S σ) id h e n) :
    Reported S.steady id h e n ∧ e.buf .recovery = σ id := by
  rw [mix_of_notMem _ _ hdone] at hp
  have hp₁ := hp.1
  rw [mix_self hid] at hp₁
  exact ⟨hp₁, hp.2⟩

/-- The number of a reply goes into the table. -/
theorem spec_enterTxid {rc : Bytes} (hid : id ∈ pids S.pnum) (hdone : id ∉ done)
    (hr : some rc = (σ id).reply (· != [])) :
    Spec S (Assert S true (fun t _ _ => t = T) (mix done (ReportHeld S σ) (CollectHeld S σ)))
      (updateMem (setMaxTxid id (toUInt64 (strtol rc))))
      fun _ => Assert S true (fun t _ _ => t = T)
        (mix (id :: done) (ReportHeld S σ) (CollectHeld S σ)) := by
  refine spec_updateMem (stable_mix (reportHeld_stable S σ) (collectHeld_stable S σ) done)
    fun s hs => ?_
  rw [← update_mix]
  refine hs.mapAt hid (f := fun e => { e with maxTxid := some (toUInt64 (strtol rc)) })
    (fun hok _ => hok.entry rfl) fun _ hp => ?_
  obtain ⟨hrep, hbuf⟩ := reported_of_mix hid hdone hp
  have hc := hrep.collected hid hbuf
  rw [← hr] at hc
  exact ⟨hc, hbuf⟩

/-- Without a reply the entry stays empty. -/
theorem collected_of_silent {s : Sys} (hid : id ∈ pids S.pnum) (hdone : id ∉ done)
    (hr : none = (σ id).reply (· != []))
    (hs : Assert S true (fun t _ _ => t = T) (mix done (ReportHeld S σ) (CollectHeld S σ)) s) :
    Assert S true (fun t _ _ => t = T) (mix (id :: done) (ReportHeld S σ) (CollectHeld S σ)) s := by
  rw [← update_mix]
  refine hs.change id fun hp => ?_
  obtain ⟨hrep, hbuf⟩ := reported_of_mix hid hdone hp
  have hc := hrep.collected hid hbuf
  rw [← hr] at hc
  exact ⟨hc, hbuf⟩

end One

/-- The loop over the reported numbers; `consistance` stays true if they all are the coordinator's
last number. -/
theorem spec_collectTxids (ids : List Nat) : ∀ (done : List Nat) (consistance : Bool), ids.Nodup →
    (∀ id ∈ ids, id ∈ pids S.pnum ∧ id ∉ done) →
    Spec S (Assert S true (fun t _ _ => t = T) (mix done (ReportHeld S σ) (CollectHeld S σ)))
      (collectTxids ids consistance) fun r s =>
        Assert S true (fun t _ _ => t = T)
          (mix (ids.reverse ++ done) (ReportHeld S σ) (CollectHeld S σ)) s ∧
        (r = true → consistance = true ∧ ∀ id ∈ ids, ∀ m, toldTxid (σ id) = some m → m = T - 1) := by
  induction ids with
  | nil =>
      intro done consistance _ _
      exact Prog.Triple.ret fun s hs => ⟨hs, fun h => ⟨h, by simp⟩⟩
  | cons id ids ih =>
      intro done consistance hnd hids
      obtain ⟨hid, hdone⟩ := hids id (by simp)
      rw [List.nodup_cons] at hnd
      have hmix := stable_mix (reportHeld_stable S σ) (collectHeld_stable S σ) done
      have hmix' := stable_mix (reportHeld_stable S σ) (collectHeld_stable S σ) (id :: done)
      have hrest (r : Bool) := ih (id :: done) r hnd.2 (ahead_cons hnd.1 hids)
      simp only [List.reverse_cons, List.append_assoc, List.singleton_append]
      refine Prog.Triple.bind (spec_cGet hmix _) fun _ => ?_
      refine Prog.Triple.bind (spec_readReply hmix id
        (fun _ _ _ hp => (reported_of_mix hid hdone hp).2) (· != [])) fun reply => ?_
      refine Prog.Triple.of_imp (C := reply = (σ id).reply (· != [])) (fun s hs => hs.2) fun hr => ?_
      refine Prog.Triple.conseq (P := Assert S true (fun t _ _ => t = T)
        (mix done (ReportHeld S σ) (CollectHeld S σ))) ?_ (fun s hs => hs.1) fun _ _ h => h
      -- a number goes into the table; without one the entry stays empty
      cases reply with
      | some rc =>
          have htold : toldTxid (σ id) = some (toUInt64 (strtol rc)) := by
            rw [toldTxid, ← hr]
            rfl
          refine Prog.Triple.bind (spec_enterTxid hid hdone hr) fun _ => ?_
          refine Prog.Triple.bind (spec_readMem hmix') fun c => ?_
          refine Prog.Triple.of_imp (C := (c.p id).maxTxid = some (toUInt64 (strtol rc)) ∧ c.TXID = T)
            ?_ fun hc => ?_
          · rintro s ⟨hs, rfl⟩
            have hp := hs.peers id
            rw [mix_self List.mem_cons_self] at hp
            exact ⟨hp.1.2.trans htold, hs.global⟩
          refine Prog.Triple.bind (R := fun _ => Assert S true (fun t _ _ => t = T)
            (mix (id :: done) (ReportHeld S σ) (CollectHeld S σ)))
            (Prog.Triple.conseq (spec_cRelease hmix' _) (fun s hs => hs.1) fun _ _ h => h) fun _ => ?_
          refine Prog.Triple.conseq (hrest _) (fun _ h => h) ?_
          rintro r s ⟨hs, hres⟩
          refine ⟨hs, fun h => ?_⟩
          obtain ⟨hcons, hall⟩ := hres h
          rw [hc.1, hc.2] at hcons
          split at hcons
          · exact nomatch hcons
          · rename_i heq
            refine ⟨hcons, List.forall_mem_cons.2 ⟨fun m hm => ?_, hall⟩⟩
            rw [htold, Option.some.injEq] at hm
            rw [← hm]
            exact Option.some.inj (not_not.1 heq)
      | none =>
          have htold : toldTxid (σ id) = none := by
            rw [toldTxid, ← hr]
            rfl
          refine Prog.Triple.bind (spec_cRelease hmix _) fun _ => ?_
          refine Prog.Triple.conseq (hrest consistance)
            (fun _ hs => collected_of_silent hid hdone hr hs) ?_
          rintro r s ⟨hs, hres⟩
          refine ⟨hs, fun h => ?_⟩
          obtain ⟨hcons, hall⟩ := hres h
          refine ⟨hcons, List.forall_mem_cons.2 ⟨fun m hm => ?_, hall⟩⟩
          rw [htold] at hm
          exact nomatch hm

end Collect

/-! ## The leader -/

section Leader

variable {c : Coordinator}

/-- The least number of the table and of the coordinator's at the start of the run. -/
theorem minTxid_spec (ids : List Nat) : ∀ minID,
    (∀ id ∈ ids, ∀ m, (c.p id).maxTxid = some m → TXID_START ≤ m + 1) → TXID_START ≤ minID + 1 →
    TXID_START ≤ minTxid c ids minID + 1 ∧ minTxid c ids minID ≤ minID := by
  induction ids with
  | nil => exact fun minID _ h => ⟨h, le_rfl⟩
  | cons id ids ih =>
      intro minID hids hmin
      have hrest : ∀ j ∈ ids, ∀ m, (c.p j).maxTxid = some m → TXID_START ≤ m + 1 :=
        fun j hj => hids j (by simp [hj])
      unfold minTxid at ih ⊢
      rw [List.foldl_cons]
      cases hm : (c.p id).maxTxid with
      | none => exact ih minID hrest hmin
      | some m =>
          by_cases hlt : m < minID
          · simp only [hlt, if_true]
            obtain ⟨h₁, h₂⟩ := ih m hrest (hids id (by simp) m hm)
            exact ⟨h₁, h₂.trans hlt.le⟩
          · simp only [hlt, if_false]
            exact ih minID hrest hmin

end Leader

/-! ## Pulling the leader's log -/

/-- The question for one record. -/
def askReq (k : Nat) : Bytes := Log.logToStr ⟨ASK_DATA_TXID, LogState.LOG_COMMIT, toDec k⟩

/-- The counter of the leader, which is the only participant in the working state. -/
def leaderTxid (leader maxID : Nat) : Nat → Option Nat := fun id =>
  if id = leader then some (maxID + 1) else none

/-- The leader after it was asked for the record `k`: if it is still in the working state it has
sent it. -/
structure Led (S : Setting) (A : List Nat) (leader maxID k id : Nat) (h : List Exch) (e : Entry)
    (n : Node) : Prop where
  tabled : Tabled S.steady A (leaderTxid leader maxID) TXID_START maxID id h e n
  working : e.pstate = .P_WORKING → (e.buf .working).ret = KV_OK
  reply : (e.buf .working).ret = KV_OK → k < 2 ^ 63 ∧
    ∃ e₀, (e.buf .working).dataRet = commitReq k e₀ ∧ Accepted e₀ ∧ S.rel k e₀

/-- The state at `next`: nobody is in the working state, or no entry is above the coordinator's last
number and those in the working state have its counter. -/
def Head (S : Setting) (A : List Nat) (minID : Nat) (s : Sys) : Prop :=
  ∃ (T hi : Nat) (W : Nat → Option Nat), TXID_START ≤ minID ∧ minID ≤ T ∧
    ((∀ id, W id = none) ∨ (hi + 1 ≤ T ∧ ∀ id w, W id = some w → w = T)) ∧
    Assert S true (fun t _ _ => t = T) (Tabled S.steady A W TXID_START hi) s

section Pull

variable {S : Setting} {A : List Nat} {leader maxID k : Nat} {g : Nat → Prop}

theorem led_stable (S : Setting) (A : List Nat) (leader maxID k id : Nat) :
    NodeStable S true id (Led S A leader maxID k id) :=
  .ofRunning (fun hok h hs => ⟨(tabled_stable S _ _ _ _ id).step hok h.tabled hs, h.working, h.reply⟩)
    fun hy h => ⟨(tabled_stable S _ _ _ _ id).sent hy h.tabled, h.working, h.reply⟩

/-- A participant that has the record answers the question with it. -/
theorem pWorker_askReq {p : Participant} {R : Nat → Bytes → Prop} (hp : p.Within R)
    (hk : TXID_START ≤ k) (hlt : k < p.TXID) :
    k < 2 ^ 63 ∧ ∃ e₀, p.pWorker (askReq k) = some (commitReq k e₀, p) ∧ Accepted e₀ ∧ R k e₀ := by
  have hle := hp.sound.txid_le
  obtain ⟨e₀, he₀, hacc⟩ := hp.sound.lookup hk hlt
  refine ⟨by omega, e₀, ?_, hacc, hp.logged k _ he₀⟩
  rw [askReq, pWorker_logToStr_ask p rfl]
  simp only [toUInt64_strtol_toDec_of_lt (show k < 2 ^ 63 by omega)]
  rw [if_neg (by omega), he₀]
  rfl

/-- One question for a record of the leader. -/
theorem ask_spec (hA : leader ∉ A) (hk : TXID_START ≤ k) (hkM : k ≤ maxID) :
    WorkSpec S (fun t _ _ => g t) leader (askReq k)
      (Tabled S.steady A (leaderTxid leader maxID) TXID_START maxID leader)
      (Led S A leader maxID k leader) where
  keeps hat _ := hat.ok.within.keeps_request (.ask _ _)
    (Or.inl (show ASK_DATA_TXID < TXID_START by decide))
  answers := by
    intro T lg h e n hat hst hu
    obtain ⟨w, hw, hkept⟩ := hat.pred.working hst
    have htx := hkept (hat.ok.alive (hat.ok.steady hu)).1
    have hwM : maxID + 1 = w := by simpa [leaderTxid] using hw
    obtain ⟨-, e₀, hans, -⟩ := pWorker_askReq hat.ok.within hk (by omega)
    rw [hans]
    nofun
  voted := by
    intro T lg h e n _ _ T' e' hT' heq
    -- a question is no commit
    have hID : ASK_DATA_TXID = T' := congrArg Log.ID (logToStr_injective heq)
    rw [← hID] at hT'
    exact absurd hT' (by decide)
  skip hat hst := by
    refine ⟨⟨hat.pred.entry, hat.pred.listed, hat.pred.temp, hat.pred.working, hat.pred.steady⟩,
      fun h => absurd h hst, fun hret => ?_⟩
    rw [Entry.setRet_ret] at hret
    exact absurd hret (by decide)
  answered := by
    intro T lg h e n rmsg part hat hst ha hw
    obtain ⟨w, hwW, hkept⟩ := hat.pred.working hst
    have htx := hkept (hat.ok.alive ha).1
    have hwM : maxID + 1 = w := by simpa [leaderTxid] using hwW
    obtain ⟨hlt, e₀, hans, hacc, hrel⟩ := pWorker_askReq hat.ok.within hk (by omega)
    rw [hans, Option.some.injEq, Prod.mk.injEq] at hw
    obtain ⟨rfl, rfl⟩ := hw
    refine ⟨hat.global, ⟨hat.pred.entry, hat.pred.listed, hat.pred.temp, hat.pred.working,
      hat.pred.steady⟩, fun _ => by simp, fun _ => ⟨hlt, e₀, by simp, hacc, hrel⟩⟩
  failed := by
    intro T lg h e n o hat hst hf hu
    refine ⟨hat.global, ⟨fun m hm => ?_, nofun, nofun, nofun, fun hu' => absurd hu' hu⟩, nofun,
      fun hret => ?_⟩
    · exact absurd (hat.pred.entry m hm).1 hA
    · rw [Entry.setState_buf, Entry.setReply_ret] at hret
      exact absurd hret hf.ret

/-- The coordinator stores a record of the leader if it is its next one. -/
theorem spec_storeLog {P : Nat → NodePred} (hP : ∀ id, NodeStable S true id (P id)) {e₀ : Bytes}
    (hlt : k < 2 ^ 63) (hkM : k ≤ maxID) (hacc : Accepted e₀) (hrel : S.rel k e₀) :
    Spec S (Assert S true (fun t _ _ => k ≤ t ∧ t ≤ maxID + 1) P)
      (updateMem (storeLog ⟨k, LogState.LOG_COMMIT, e₀⟩))
      fun _ => Assert S true (fun t _ _ => k + 1 ≤ t ∧ t ≤ maxID + 1) P := by
  refine spec_updateMem hP fun s hs => ?_
  obtain ⟨h₁, h₂⟩ := hs.global
  by_cases hkT : k = s.c.TXID
  · subst hkT
    simp only [storeLog, if_true]
    refine hs.withLog (Nat.le_succ _) hlt (fun t _ ht => ?_) (fun t ht₁ ht₂ => ?_)
      ⟨le_rfl, by omega⟩
    · exact Logger.writeLog_of_ne _ _ (Nat.ne_of_lt ht)
    · obtain rfl : t = s.c.TXID := by omega
      exact ⟨e₀, Logger.writeLog_self _ ⟨s.c.TXID, LogState.LOG_COMMIT, e₀⟩, hacc, hrel⟩
  · simp only [storeLog, hkT, if_false]
    have hs' : Assert S true (fun t _ _ => k + 1 ≤ t ∧ t ≤ maxID + 1) P s :=
      hs.imp (fun _ => ⟨by omega, h₂⟩) fun _ _ h => h
    exact ⟨hs'.core.guarantee rfl rfl rfl le_rfl, hs'⟩

/-- The inner loop of `recoveryFromP` at the record `minID`, with the leader at work. -/
structure Pulling (S : Setting) (A : List Nat) (leader maxID minID : Nat) (s : Sys) : Prop where
  start_le : TXID_START ≤ minID
  le_max : minID ≤ maxID + 1
  mem : leader ∈ pids S.pnum
  notMem : leader ∉ A
  tabled : Assert S true (fun t _ _ => minID ≤ t ∧ t ≤ maxID + 1)
    (Tabled S.steady A (leaderTxid leader maxID) TXID_START maxID) s

/-- Behind the last record the coordinator is at the leader's counter. -/
theorem Pulling.over {minID : Nat} {s : Sys} (h : Pulling S A leader maxID minID s)
    (hover : maxID < minID) : Head S A minID s := by
  have hle := h.le_max
  refine ⟨maxID + 1, maxID, leaderTxid leader maxID, h.start_le, hle, Or.inr ⟨le_rfl, ?_⟩,
    h.tabled.imp (fun hG => by omega) fun _ _ h => h⟩
  intro id w hw
  unfold leaderTxid at hw
  split at hw
  · exact (Option.some.inj hw).symm
  · exact nomatch hw

/-- The body of the inner loop: whether the record was pulled, or the loop is left by
`goto next`. -/
def askLeader (pnum leader minID : Nat) : Proc Bool := do
  postTask .working leader (askReq minID)
  let reply ← takeReply .working leader (· != [])
  reply.elim (pure false) fun rc => do
    let tempLog ← Prog.ofOption (strToLog rc)
    updateMem (storeLog tempLog)
    relay rc (pids pnum)
    pure true

theorem pull_succ (pnum leader count minID : Nat) :
    pull pnum leader (count + 1) minID = askLeader pnum leader minID >>= fun pulled =>
      if pulled then pull pnum leader count (minID + 1) else pure minID := by
  unfold askLeader
  rw [pull, Prog.bind_assoc]
  congr 1
  funext _
  rw [Prog.bind_assoc]
  congr 1
  funext reply
  cases reply with
  | none => rfl
  | some rc =>
      simp only [Option.elim_some, Prog.bind_assoc]
      rfl

/-- One record of the leader: it was pulled, or nobody is in the working state. -/
theorem spec_askLeader {minID : Nat} (hM : minID ≤ maxID) :
    Spec S (Pulling S A leader maxID minID) (askLeader S.pnum leader minID) fun pulled s =>
      if pulled then Pulling S A leader maxID (minID + 1) s else Head S A minID s := by
  rintro s₀ ⟨hk, -, hid, hA, hs₀⟩
  have hP := tabled_stable S A (leaderTxid leader maxID) TXID_START maxID
  have hP' := stable_update hP (led_stable S A leader maxID minID leader)
  refine Prog.Triple.bind (spec_postTask hP hid (ask_spec hA hk hM)) (fun _ => ?_) s₀ hs₀
  intro s hs
  have hread := spec_takeReply (fun j => (hP' j).holds ((s.c.p j).buf .working)) leader
    (fun _ _ _ h => h.2) (· != []) s (hs.holds .working)
  refine (Prog.wp_bind _ _ _ _ _ _ _).2 (Prog.wp_mono _ _ _ ?_ _ _ hread)
  rintro reply s' ⟨hs', hreply⟩
  have hbuf := (hs'.peers leader).2
  rw [← hbuf] at hreply
  have hs'' := hs'.of_holds
  have hled := hs''.peers leader
  rw [Function.update_self] at hled
  have htab := hs''.restore fun hled => hled.tabled
  cases reply with
  | none =>
      -- the leader has failed, and the table holds nothing about it
      have hfailed : (s'.c.p leader).pstate ≠ .P_WORKING := by
        intro hst
        have hret := hled.working hst
        obtain ⟨-, e₀, hdata, -⟩ := hled.reply hret
        have hsome : ((s'.c.p leader).buf .working).reply (· != []) = some _ :=
          reply_eq_some.2 ⟨hret, by rw [hdata]; exact bne_iff_ne.2 (logToStr_ne_nil _), rfl⟩
        rw [← hreply] at hsome
        exact nomatch hsome
      refine ⟨s'.c.TXID, maxID, fun _ => none, hk, htab.global.1, Or.inl fun _ => rfl,
        ⟨htab.core, htab.mutex, rfl, fun j => (htab.peers j).mono (fun m hm => ?_) ?_⟩⟩
      · obtain ⟨hj, -, hlo, hhi, -⟩ := (htab.peers j).entry m hm
        exact ⟨hj, hlo, hhi⟩
      · intro w hst hw
        unfold leaderTxid at hw
        split at hw
        · rename_i heq
          exact absurd hst (heq ▸ hfailed)
        · exact hw
  | some rc =>
      obtain ⟨hret, -, rfl⟩ := reply_eq_some.1 hreply.symm
      obtain ⟨hlt, e₀, hdata, hacc, hrel⟩ := hled.reply hret
      have hlog : strToLog ((s'.c.p leader).buf .working).dataRet =
          some ⟨minID, LogState.LOG_COMMIT, e₀⟩ := by
        rw [hdata]
        exact strToLog_logToStr_of_lt hlt
      have hnext : Spec S (Assert S true (fun t _ _ => minID ≤ t ∧ t ≤ maxID + 1)
            (Tabled S.steady A (leaderTxid leader maxID) TXID_START maxID))
          (updateMem (storeLog ⟨minID, LogState.LOG_COMMIT, e₀⟩) >>= fun _ =>
            relay (commitReq minID e₀) (pids S.pnum) >>= fun _ => pure true)
          fun pulled s => if pulled then Pulling S A leader maxID (minID + 1) s
            else Head S A minID s :=
        Prog.Triple.bind (spec_storeLog hP hlt hM hacc hrel) fun _ =>
          Prog.Triple.bind (spec_relay hk hlt hM hacc hrel) fun _ =>
            Prog.Triple.ret fun _ h => ⟨by omega, by omega, hid, hA, h⟩
      simp only [Option.elim_some, hlog, Prog.ofOption_some, Prog.ret_bind]
      rw [hdata]
      exact hnext s' htab

/-- Pulling the leader's records from `minID` on, under any guarantee. -/
theorem triple_pull {guar : Sys → Sys → Prop} (hask : ∀ minID, minID ≤ maxID →
      Prog.Triple (Sys.Step S.faults) (Env S.faults) guar (Pulling S A leader maxID minID)
        (askLeader S.pnum leader minID) fun pulled s =>
          if pulled then Pulling S A leader maxID (minID + 1) s else Head S A minID s)
    (count : Nat) : ∀ minID, minID + count = maxID + 1 →
    Prog.Triple (Sys.Step S.faults) (Env S.faults) guar (Pulling S A leader maxID minID)
      (pull S.pnum leader count minID) (Head S A) := by
  induction count with
  | zero => exact fun minID hM => Prog.Triple.ret fun s hs => hs.over (by omega)
  | succ count ih =>
      intro minID hM
      rw [pull_succ]
      refine Prog.Triple.bind (hask minID (by omega)) fun pulled => ?_
      cases pulled with
      | false => exact Prog.Triple.ret fun _ h => h
      | true => exact ih (minID + 1) (by omega)

end Pull

/-! ## The run -/

/-- A participant in the recovery state has the coordinator's last number in the table, and one in
the working state has the coordinator's counter. -/
structure Settled (U : Nat → Prop) (T id : Nat) (h : List Exch) (e : Entry) (n : Node) : Prop where
  entry : ∀ m, e.maxTxid = some m → m = T - 1 ∧ e.pstate = .P_RECOVERY ∧
    (n.kept = true → n.part.TXID = T)
  listed : e.pstate = .P_RECOVERY → e.maxTxid ≠ none
  temp : e.pstate ≠ .P_TEMP
  working : e.pstate = .P_WORKING → n.kept = true → n.part.TXID = T
  steady : U id → e.pstate = .P_RECOVERY ∨ e.pstate = .P_WORKING

/-- After the run: the participant is in step with the coordinator, or not connected. -/
def Promoted (U : Nat → Prop) (T id : Nat) : NodePred :=
  fun h e n => Synced U T id h e n ∧ e.pstate ≠ .P_TEMP

/-- After a recovery run. -/
def Recovered (S : Setting) (s : Sys) : Prop :=
  ∃ T, Assert S true (fun t _ _ => t = T) (Promoted S.steady T) s

section Run

variable {S : Setting} {T : Nat}

theorem settled_stable (S : Setting) (T id : Nat) :
    NodeStable S true id (Settled S.steady T id) := by
  refine .ofRunning (fun hok h hs => ⟨fun m hm => ?_, h.listed, h.temp, fun hst => ?_, h.steady⟩)
    fun _ h => ⟨h.entry, h.listed, h.temp, h.working, h.steady⟩
  · obtain ⟨hmT, hst, hk⟩ := h.entry m hm
    exact ⟨hmT, hst, kept_step (X := fun p => p.TXID = T) hok (by rw [hst]; nofun) hk hs⟩
  · exact kept_step (X := fun p => p.TXID = T) hok (by rw [hst]; nofun) (h.working hst) hs

theorem Tabled.settled {U : Nat → Prop} {A : List Nat} {W : Nat → Option Nat} {id lo hi : Nat}
    {h : List Exch} {e : Entry} {n : Node} (ht : Tabled U A W lo hi id h e n) (hT : TXID_START ≤ T)
    (hm : ∀ m, e.maxTxid = some m → m = T - 1)
    (hW : e.pstate = .P_WORKING → ∀ w, W id = some w → w = T) : Settled U T id h e n := by
  refine ⟨fun m hm' => ?_, ht.listed, ht.temp, fun hst hk => ?_, ht.steady⟩
  · obtain ⟨-, hst, -, -, hk⟩ := ht.entry m hm'
    have hmT := hm m hm'
    refine ⟨hmT, hst, fun hkept => ?_⟩
    have := hk hkept
    simp only [TXID_START] at hT
    omega
  · obtain ⟨w, hw, hk'⟩ := ht.working hst
    rw [← hW hst w hw]
    exact hk' hk

/-- Pushing the whole log of the coordinator settles every participant whose number is not above its
last one. -/
theorem spec_recoveryFromC {A : List Nat} {W : Nat → Option Nat} (hT : TXID_START ≤ T)
    (hW : ∀ id w, W id = some w → w = T) :
    Spec S (Assert S true (fun t _ _ => t = T) (Tabled S.steady A W TXID_START (T - 1)))
      (recoveryFromC S.pnum) fun _ => Assert S true (fun t _ _ => t = T) (Settled S.steady T) := by
  refine Prog.Triple.bind (spec_readMem (tabled_stable S A W TXID_START (T - 1))) fun c => ?_
  refine Prog.Triple.of_imp (C := c.TXID = T) (fun s hs => by rw [hs.2]; exact hs.1.global) ?_
  rintro rfl
  refine Prog.Triple.conseq (spec_pushLogs (c.TXID - TXID_START) TXID_START le_rfl (by omega))
    (fun s hs => hs.1) fun _ s hs => hs.imp (fun hG => hG) fun id _ ht => ?_
  refine ht.settled hT (fun m hm => ?_) fun _ => hW id
  obtain ⟨-, -, hlo, hhi, -⟩ := ht.entry m hm
  omega

/-- The leader of the table goes into the working state and leaves the table. -/
theorem spec_promoteLeader {A : List Nat} {minID leader maxID : Nat}
    (hid : leader ∈ pids S.pnum) (hkT : minID ≤ T) (hTM : T ≤ maxID) :
    Spec S (Assert S true (fun t _ _ => t = T) fun id h e n =>
        Tabled S.steady A (fun _ => none) TXID_START maxID id h e n ∧
          (id = leader → e.maxTxid = some maxID))
      (updateMem (promoteLeader leader))
      fun _ => Assert S true (fun t _ _ => minID ≤ t ∧ t ≤ maxID + 1)
        (Tabled S.steady (A.erase leader) (leaderTxid leader maxID) TXID_START maxID) := by
  have hP := tabled_stable S A (fun _ => none) TXID_START maxID
  refine spec_updateMem (fun id => .ofRunning (fun hok h hs => ⟨(hP id).step hok h.1 hs, h.2⟩)
    fun hy h => ⟨(hP id).sent hy h.1, h.2⟩) fun s hs => ?_
  obtain ⟨htab, hmax⟩ := hs.peers leader
  obtain ⟨-, hst, -, -, hkept⟩ := htab.entry maxID (hmax rfl)
  obtain ⟨hguar, hs'⟩ := hs.mapAt hid
    (f := fun e => { e with pstate := .P_WORKING, maxTxid := none })
    (Q := Tabled S.steady (A.erase leader) (leaderTxid leader maxID) TXID_START maxID leader)
    (fun hok _ => by
      have hpend := hok.pending_none (by rw [hst]; nofun)
      exact ⟨hok.within, fun task ht => absurd (hpend.symm.trans ht) nofun,
        fun ha => ⟨(hok.alive ha).1, Or.inr (Or.inl rfl)⟩, hok.steady⟩)
    fun _ _ => ⟨nofun, nofun, nofun, fun _ => ⟨maxID + 1, if_pos rfl, hkept⟩, fun _ => Or.inr rfl⟩
  refine ⟨hguar, hs'.imp (fun hG => ?_) fun id _ hp => ?_⟩
  · have : s.c.TXID = T := hG
    show minID ≤ s.c.TXID ∧ s.c.TXID ≤ maxID + 1
    omega
  · by_cases hj : id = leader
    · subst hj
      rwa [Function.update_self] at hp
    · rw [Function.update_of_ne hj] at hp
      refine hp.1.mono (fun m hm => ?_) fun w _ hw => nomatch hw
      obtain ⟨hjA, -, hlo, hhi, -⟩ := hp.1.entry m hm
      exact ⟨(List.mem_erase_of_ne hj).2 hjA, hlo, hhi⟩

/-- The head of the loop of `recoveryFromP`: the coordinator's log is pushed if there is no leader,
and else the leader goes to work. -/
def chooseLeader (pnum : Nat) : Proc (Nat × Nat) := do
  let c ← readMem
  let r := getRecoveryLeader c (pids pnum)
  if r.1 = 0 then
    recoveryFromC pnum
    pure r
  else
    updateMem (promoteLeader r.1)
    pure r

theorem recoveryFromP_succ (pnum rounds minID : Nat) :
    recoveryFromP pnum (rounds + 1) minID = chooseLeader pnum >>= fun r =>
      if r.1 = 0 then pure ()
      else pull pnum r.1 (r.2 + 1 - minID) minID >>= recoveryFromP pnum rounds := by
  unfold chooseLeader
  rw [recoveryFromP, Prog.bind_assoc]
  congr 1
  funext c
  dsimp only
  by_cases hzero : (getRecoveryLeader c (pids pnum)).1 = 0
  · simp only [if_pos hzero, Prog.bind_assoc, Prog.pure_eq, Prog.ret_bind]
    exact (Prog.bind_ret _).symm
  · simp only [if_neg hzero, Prog.bind_assoc, Prog.pure_eq, Prog.ret_bind]

/-- A leader is taken out of the table, or everything is settled. -/
theorem spec_chooseLeader {A : List Nat} {minID : Nat} (hnd : A.Nodup)
    (hA : ∀ id ∈ A, id ∈ pids S.pnum) :
    Spec S (Head S A minID) (chooseLeader S.pnum) fun r s =>
      if r.1 = 0 then ∃ T, Assert S true (fun t _ _ => t = T) (Settled S.steady T) s
      else r.1 ∈ A ∧ Pulling S (A.erase r.1) r.1 r.2 minID s := by
  rintro s ⟨T, hi, W, hk, hkT, hW, hs⟩
  have hread := spec_readMem (tabled_stable S A W TXID_START hi) s hs
  refine (Prog.wp_bind _ _ _ _ _ _ _).2 (Prog.wp_mono _ _ _ ?_ _ _ hread)
  rintro c s' ⟨hs', rfl⟩
  have hT : s'.c.TXID = T := hs'.global
  have hpids : ∀ id m, (s'.c.p id).maxTxid = some m → id ∈ pids S.pnum :=
    fun id m hm => hA id ((hs'.peers id).entry m hm).1
  dsimp only
  rcases getRecoveryLeader_spec (c := s'.c) (zero_notMem_pids S.pnum) with
    ⟨hzero, hmax⟩ | ⟨hzero, hid, hm, hlt, hmax⟩
  · -- no leader: everything the participants have is in the coordinator's log
    have hW' : ∀ id w, W id = some w → w = T := by
      rcases hW with hnone | ⟨-, hW⟩
      · exact fun id w hw => by rw [hnone id] at hw; exact nomatch hw
      · exact hW
    have htop : Assert S true (fun t _ _ => t = T)
        (Tabled S.steady A W TXID_START (T - 1)) s' := by
      refine hs'.imp (fun hG => hG) fun id _ ht => ht.mono (fun m hm => ?_) fun _ _ hw => hw
      obtain ⟨hj, -, hlo, -, -⟩ := ht.entry m hm
      exact ⟨hj, hlo, hT ▸ hmax id (hpids id m hm) m hm⟩
    rw [if_pos hzero]
    refine Prog.Triple.bind (spec_recoveryFromC (hk.trans hkT) hW')
      (fun _ => Prog.Triple.ret fun s₁ hs₁ => ?_) s' htop
    rw [if_pos hzero]
    exact ⟨T, hs₁⟩
  · rw [if_neg hzero]
    generalize getRecoveryLeader s'.c (pids S.pnum) = r at *
    obtain ⟨leader, maxID⟩ := r
    obtain ⟨hlA, -, -, hlhi, -⟩ := (hs'.peers leader).entry maxID hm
    have hnone : W = fun _ => none := by
      -- with everybody at the coordinator's number there would be no leader
      rcases hW with hnone | ⟨hhi, -⟩
      · exact funext hnone
      · omega
    subst hnone
    have hTM : T ≤ maxID := by omega
    refine Prog.Triple.bind (spec_promoteLeader (A := A) hid hkT hTM)
      (fun _ => Prog.Triple.ret fun s₁ hs₁ => ?_) s' ?_
    · rw [if_neg hzero]
      exact ⟨hlA, hk, by omega, hid, hnd.not_mem_erase, hs₁⟩
    · refine hs'.imp (fun hG => hG) fun id _ ht => ⟨ht.mono (fun m hm' => ?_) fun _ _ hw => hw, ?_⟩
      · obtain ⟨hj, -, hlo, -, -⟩ := ht.entry m hm'
        exact ⟨hj, hlo, hmax id (hpids id m hm') m hm'⟩
      · rintro rfl
        exact hm

/-- The loop over the leaders ends with all participants settled, under any guarantee; each round
takes a leader out of the table, so the bound on the rounds is not reached. -/
theorem triple_recoveryFromP {guar : Sys → Sys → Prop}
    (hchoose : ∀ (A : List Nat) (minID : Nat), A.Nodup → (∀ id ∈ A, id ∈ pids S.pnum) →
      Prog.Triple (Sys.Step S.faults) (Env S.faults) guar (Head S A minID) (chooseLeader S.pnum)
        fun r s => if r.1 = 0 then ∃ T, Assert S true (fun t _ _ => t = T) (Settled S.steady T) s
          else r.1 ∈ A ∧ Pulling S (A.erase r.1) r.1 r.2 minID s)
    (hask : ∀ (A : List Nat) (leader maxID minID : Nat), minID ≤ maxID →
      Prog.Triple (Sys.Step S.faults) (Env S.faults) guar (Pulling S A leader maxID minID)
        (askLeader S.pnum leader minID) fun pulled s =>
          if pulled then Pulling S A leader maxID (minID + 1) s else Head S A minID s)
    (rounds : Nat) : ∀ (A : List Nat) (minID : Nat), A.Nodup →
    (∀ id ∈ A, id ∈ pids S.pnum) → A.length < rounds →
    Prog.Triple (Sys.Step S.faults) (Env S.faults) guar (Head S A minID)
      (recoveryFromP S.pnum rounds minID)
      fun _ s => ∃ T, Assert S true (fun t _ _ => t = T) (Settled S.steady T) s := by
  induction rounds with
  | zero => exact fun A minID _ _ hlen => absurd hlen (Nat.not_lt_zero _)
  | succ rounds ih =>
      intro A minID hnd hA hlen
      rw [recoveryFromP_succ]
      refine Prog.Triple.bind (hchoose A minID hnd hA) fun r s hs => ?_
      by_cases hzero : r.1 = 0
      · rw [if_pos hzero] at hs ⊢
        exact hs
      · rw [if_neg hzero] at hs ⊢
        obtain ⟨hlA, hpull⟩ := hs
        have hlen' : (A.erase r.1).length < rounds := by
          rw [List.length_erase_of_mem hlA]
          have := List.length_pos_of_mem hlA
          omega
        have hle := hpull.tabled.global
        refine Prog.Triple.bind
          (triple_pull (hask (A.erase r.1) r.1 r.2) (r.2 + 1 - minID) minID (by omega))
          (fun minID' => ih (A.erase r.1) minID' (hnd.erase _)
            (fun j hj => hA j (List.mem_of_mem_erase hj)) hlen') s hpull

theorem promoted_stable (S : Setting) (T id : Nat) :
    NodeStable S true id (Promoted S.steady T id) :=
  .ofRunning (fun hok h hst => ⟨⟨h.1.state, txid_step (X := fun p => p.TXID = T) hok h.1.txid hst,
    h.1.steady⟩, h.2⟩) fun _ h => ⟨⟨h.1.state, h.1.txid, h.1.steady⟩, h.2⟩

/-- Settled participants go to work. -/
theorem spec_promote (hT : TXID_START ≤ T) :
    Spec S (Assert S true (fun t _ _ => t = T) (Settled S.steady T)) (updateMem promote)
      fun _ => Assert S true (fun t _ _ => t = T) (Promoted S.steady T) := by
  refine spec_updateMem (settled_stable S T) fun s hs => ?_
  obtain rfl : s.c.TXID = T := hs.global
  refine hs.mapEntries (g := fun _ e =>
    if e.maxTxid = some (s.c.TXID - 1) then e.setState .P_WORKING else e) ?_ ?_ ?_
  · intro id hok hp
    split
    · rename_i hm
      obtain ⟨-, hst, -⟩ := hp.entry _ hm
      have hpend := hok.pending_none (by rw [hst]; nofun)
      exact ⟨hok.within, fun task ht => absurd (hpend.symm.trans ht) nofun,
        fun ha => ⟨(hok.alive ha).1, Or.inr (Or.inl rfl)⟩, hok.steady⟩
    · exact hok
  · intro id _ hp hst
    split
    · rename_i hm
      exact absurd (hst.symm.trans (hp.entry _ hm).2.1) nofun
    · exact hst
  · intro id hok hp
    split
    · rename_i hm
      exact ⟨⟨nofun, fun _ => (hp.entry _ hm).2.2, fun _ => rfl⟩, nofun⟩
    · rename_i hm
      have hst : (s.c.p id).pstate ≠ .P_RECOVERY := by
        intro hst
        obtain ⟨m, hm'⟩ := Option.ne_none_iff_exists'.1 (hp.listed hst)
        exact hm (by rw [hm', (hp.entry m hm').1])
      exact ⟨⟨hst, hp.working, fun hu => (hp.steady hu).resolve_left hst⟩, hp.temp⟩

/-- The end of the run. -/
theorem spec_finish :
    Spec S (fun s => ∃ T, Assert S true (fun t _ _ => t = T) (Settled S.steady T) s)
      (updateMem promote >>= fun _ => updateMem fun c => { c with tmpNum := 0 })
      fun _ => Recovered S := by
  rintro s ⟨T, hs⟩
  refine Prog.Triple.bind (spec_promote (hs.global ▸ hs.core.committed.start_le)) (fun _ => ?_) s hs
  refine spec_updateMem (promoted_stable S T) fun s₁ hs₁ => ?_
  have hcore := hs₁.core
  have hend : Assert S true (fun t _ _ => t = T) (Promoted S.steady T)
      { s₁ with c := { s₁.c with tmpNum := 0 } } :=
    ⟨⟨hcore.running, ⟨hcore.committed.start_le, hcore.committed.txid_le, hcore.committed.record⟩,
      hcore.waits, hcore.nodes, hcore.outside, hcore.hist, hcore.voted, hcore.applied⟩, hs₁.mutex,
      hs₁.global, hs₁.peers⟩
  exact ⟨hend.core.guarantee rfl rfl rfl (Nat.zero_le _), T, hend⟩

/-- After the numbers were read, the table holds them. -/
theorem Assert.collected {σ : Nat → Buffers} {s : Sys} (h : Assert S true (fun t _ _ => t = T)
      (mix ((pids S.pnum).reverse ++ []) (ReportHeld S σ) (CollectHeld S σ)) s) :
    Assert S true (fun t _ _ => t = T)
        (Tabled S.steady (pids S.pnum) (fun _ => none) TXID_START (2 ^ 63)) s ∧
      ∀ id m, (s.c.p id).maxTxid = some m → id ∈ pids S.pnum ∧ toldTxid (σ id) = some m := by
  have hpeer : ∀ id, Tabled S.steady (pids S.pnum) (fun _ => none) TXID_START (2 ^ 63) id s.hist
      (s.c.p id) (s.node id) ∧
      ∀ m, (s.c.p id).maxTxid = some m → id ∈ pids S.pnum ∧ toldTxid (σ id) = some m := by
    intro id
    refine mix_elim (h.peers id) (fun hid hp => ?_) fun hid hp => ?_
    · exact ⟨hp.1.1, fun m hm => ⟨by simpa using hid, hp.1.2.symm.trans hm⟩⟩
    · -- a participant that does not exist is not in the table
      have hid : id ∉ pids S.pnum := by simpa using hid
      have hg := hp.1
      rw [mix_of_notMem _ _ hid] at hg
      refine ⟨⟨fun m hm => ?_, fun hst => ?_, hg.temp, fun hst => absurd hst hg.working,
        fun hu => Or.inl (hg.steady hu)⟩, fun m hm => ?_⟩
      · rw [hg.table] at hm
        exact nomatch hm
      · exact absurd ((h.core.outside id hid).symm.trans hst) nofun
      · rw [hg.table] at hm
        exact nomatch hm
  exact ⟨⟨h.core, h.mutex, h.global, fun id => (hpeer id).1⟩, fun id => (hpeer id).2⟩

/-- The state in which `Recovery` calls `recoveryFromP`: the table has the participants in the
recovery state with their largest numbers, and `minID` is not above the coordinator's counter. -/
structure Called (S : Setting) (minID : Nat) (s : Sys) : Prop where
  core : Core S s
  running : s.rpc = .running
  listed : ∀ id, (s.c.p id).maxTxid ≠ none ↔ (s.c.p id).pstate = .P_RECOVERY
  number : ∀ id m, (s.c.p id).maxTxid = some m → TXID_START ≤ m + 1 ∧
    ((s.node id).kept = true → (s.node id).part.TXID = m + 1)
  temp : ∀ id, (s.c.p id).pstate ≠ .P_TEMP
  working : ∀ id, (s.c.p id).pstate ≠ .P_WORKING
  start_le : TXID_START ≤ minID
  le_txid : minID ≤ s.c.TXID

/-- `Recovery` calls `recoveryFromP` with the least number of the table, or a lower one. -/
theorem Assert.called {s : Sys} {m hi : Nat} (h : Assert S true (fun t _ _ => t = T)
      (Tabled S.steady (pids S.pnum) (fun _ => none) TXID_START hi) s) (hm : TXID_START ≤ m + 1)
    (hmT : m + 1 ≤ T) : Called S (minTxid s.c (pids S.pnum) m + 1) s := by
  obtain ⟨h₁, h₂⟩ := minTxid_spec (c := s.c) (pids S.pnum) m
    (fun id _ k hk => ((h.peers id).entry k hk).2.2.1) hm
  have hT : s.c.TXID = T := h.global
  refine ⟨h.core, h.mutex.2 rfl, fun id => ⟨fun hne => ?_, (h.peers id).listed⟩, fun id k hk => ?_,
    fun id => (h.peers id).temp, fun id hst => ?_, h₁, by omega⟩
  · obtain ⟨k, hk⟩ := Option.ne_none_iff_exists'.1 hne
    exact ((h.peers id).entry k hk).2.1
  · obtain ⟨-, -, hlo, -, hkept⟩ := (h.peers id).entry k hk
    exact ⟨hlo, hkept⟩
  · obtain ⟨w, hw, -⟩ := (h.peers id).working hst
    exact nomatch hw

/-- At the call nobody is in the working state. -/
theorem Called.head {minID : Nat} {s : Sys} (h : Called S minID s) : Head S (pids S.pnum) minID s := by
  have hmem : ∀ id m, (s.c.p id).maxTxid = some m →
      id ∈ pids S.pnum ∧ (s.c.p id).pstate = .P_RECOVERY := by
    intro id m hm
    have hst := (h.listed id).1 (by rw [hm]; exact Option.some_ne_none m)
    refine ⟨?_, hst⟩
    by_contra hid
    exact absurd ((h.core.outside id hid).symm.trans hst) nofun
  refine ⟨s.c.TXID, (pids S.pnum).toFinset.sup fun id => (s.c.p id).maxTxid.getD 0, fun _ => none,
    h.start_le, h.le_txid, Or.inl fun _ => rfl,
    ⟨h.core, iff_of_true h.running rfl, rfl, fun id => ⟨fun m hm => ?_, (h.listed id).2, h.temp id,
      fun hst => absurd hst (h.working id), fun hu => ?_⟩⟩⟩
  · obtain ⟨hid, hst⟩ := hmem id m hm
    obtain ⟨hlo, hkept⟩ := h.number id m hm
    refine ⟨hid, hst, hlo, ?_, hkept⟩
    have hle := Finset.le_sup (f := fun id => (s.c.p id).maxTxid.getD 0) (List.mem_toFinset.2 hid)
    simpa [hm] using hle
  · have hnode := h.core.nodes id
    rcases (hnode.alive (hnode.steady hu)).2 with hst | hst | hst
    · exact absurd hst (h.temp id)
    · exact absurd hst (h.working id)
    · exact Or.inl hst

/-- The part of `Recovery` before it calls `recoveryFromP`; the result is the argument of that call,
and `none` if the call is left out. -/
def buildTable (pnum minID : Nat) : Proc (Option Nat) := do
  updateMem putRecovery
  postTasks .recovery (Log.logToStr ⟨RECOVERY_TXID, LogState.LOG_PRE, []⟩) (pids pnum)
  let consistance ← collectTxids (pids pnum) true
  if consistance = false then
    let c ← readMem
    pure (some (minTxid c (pids pnum) minID + 1))
  else
    pure none

theorem Recovery_eq (pnum minID : Nat) :
    Recovery pnum minID = buildTable pnum minID >>= fun call =>
      call.elim (pure ()) (recoveryFromP pnum (pnum + 1)) >>= fun _ =>
        updateMem promote >>= fun _ => updateMem fun c => { c with tmpNum := 0 } := by
  unfold Recovery buildTable
  simp only [Prog.bind_assoc]
  congr 1
  funext _
  congr 1
  funext _
  congr 1
  funext consistance
  cases consistance with
  | true => rfl
  | false => rfl

/-- `Recovery` calls `recoveryFromP` in the state that `Called` describes, and else everything is
settled. -/
theorem spec_buildTable {m : Nat} (hm : TXID_START ≤ m + 1) (hmT : m + 1 ≤ T) :
    Spec S (Assert S true (fun t _ _ => t = T) Cleared) (buildTable S.pnum m) fun call s =>
      call.elim (∃ T, Assert S true (fun t _ _ => t = T) (Settled S.steady T) s)
        fun minID => Called S minID s := by
  have hT : TXID_START ≤ T := hm.trans hmT
  refine Prog.Triple.bind spec_putRecovery fun _ => ?_
  refine Prog.Triple.bind (spec_postRecoveries (gathered_stable S) (reported_stable S)
    fun id _ => txid_spec) fun _ => ?_
  intro s hs
  have hheld : Assert S true (fun t _ _ => t = T)
      (mix [] (ReportHeld S fun id => (s.c.p id).buf .recovery)
        (CollectHeld S fun id => (s.c.p id).buf .recovery)) s := by
    refine ⟨hs.core, hs.mutex, hs.global, fun id => ?_⟩
    rw [mix_of_notMem _ _ (by simp)]
    exact ⟨hs.peers id, rfl⟩
  have hread := spec_collectTxids (pids S.pnum) [] true (nodup_pids _) (fun id hid => ⟨hid, by simp⟩)
    s hheld
  refine (Prog.wp_bind _ _ _ _ _ _ _).2 (Prog.wp_mono _ _ _ ?_ _ _ hread)
  rintro consistance s' ⟨hs', hcons⟩
  obtain ⟨htab, htold⟩ := hs'.collected
  cases consistance with
  | true =>
      refine ⟨T, htab.imp (fun hG => hG) fun id _ ht => ?_⟩
      refine ht.settled hT (fun m hm => ?_) fun _ w hw => nomatch hw
      obtain ⟨hid, hσ⟩ := htold id m hm
      exact (hcons rfl).2 id hid m hσ
  | false =>
      refine Prog.Triple.bind (spec_readMem (tabled_stable S _ _ _ _)) (fun c => ?_) s' htab
      rintro s₁ ⟨hs₁, rfl⟩
      exact hs₁.called hm hmT

/-- Whatever fails during a recovery run, it returns with nobody left in the recovery state and with
the participants in the working state at the coordinator's number. -/
theorem spec_Recovery {m : Nat} (hm : TXID_START ≤ m + 1) (hmT : m + 1 ≤ T) :
    Spec S (Assert S true (fun t _ _ => t = T) Cleared) (Recovery S.pnum m)
      fun _ => Recovered S := by
  rw [Recovery_eq]
  refine Prog.Triple.bind (spec_buildTable hm hmT) fun call => ?_
  refine Prog.Triple.bind (R := fun _ s => ∃ T, Assert S true (fun t _ _ => t = T)
    (Settled S.steady T) s) ?_ fun _ => spec_finish
  cases call with
  | none => exact Prog.Triple.ret fun _ h => h
  | some minID =>
      intro s (hs : Called S minID s)
      exact triple_recoveryFromP (fun _ _ hnd hA => spec_chooseLeader hnd hA)
        (fun _ _ _ _ hM => spec_askLeader hM) (S.pnum + 1) (pids S.pnum) minID (nodup_pids _)
        (fun _ h => h) (by rw [length_pids]; omega) s hs.head

end Run

end CloudLabs.KvStore
