import CloudLabs.KvStore.Coordinator

/-!
# Records on their way between processes

In a recovery the text of a record passes from process to process. `recoveryFromP` hands the
leader's answer on as it came; it also stores the decoded record, and `recoveryFromC` writes it out
again from there; a participant that has run the record answers with it when it is the leader of a
later recovery. Each is a `Hop`.

`record_round_trip`: a record with a number below `2 ^ 63` is read back from its text, and its text
is the same after any number of hops.
-/

set_option autoImplicit false

namespace CloudLabs.KvStore

open CloudLabs.Foundation

/-- One process a record passes through. -/
inductive Hop where
  /-- `recoveryFromP` sends the leader's answer to the other participants. -/
  | relay
  /-- `recoveryFromP` stores the leader's record, and `recoveryFromC` sends it from the log. -/
  | store (c : Coordinator)
  /-- A participant runs the record, and `recoveryFromP` asks it for the record. -/
  | execute (p : Participant)

/-- The text that leaves a process, for the text that came in. -/
def Hop.pass : Hop → Bytes → Option Bytes
  | .relay, rc => some rc
  | .store c, rc => do
      let tempLog ← strToLog rc
      let l ← (storeLog tempLog c).lg.getLogByTXID tempLog.ID
      pure l.logToStr
  | .execute p, rc => do
      let r ← p.pWorker rc
      let a ← r.2.pWorker (Log.logToStr ⟨ASK_DATA_TXID, LogState.LOG_COMMIT, toDec p.TXID⟩)
      pure a.1

/-- The process takes the record: it is the next one of the coordinator's log, or a committed update
that is the participant's next and that the participant carries out. -/
def Hop.Takes : Hop → Log → Prop
  | .relay, _ => True
  | .store c, l => c.TXID = l.ID
  | .execute p, l => p.TXID = l.ID ∧ TXID_START ≤ l.ID ∧ l.state = LogState.LOG_COMMIT ∧
      Accepted l.event

/-- The text after a row of hops. -/
def deliver : List Hop → Bytes → Option Bytes
  | [], rc => some rc
  | hop :: hops, rc => hop.pass rc >>= deliver hops

theorem Hop.pass_store {c : Coordinator} {l : Log} (hID : l.ID < 2 ^ 63) (h : c.TXID = l.ID) :
    (Hop.store c).pass l.logToStr = some l.logToStr := by
  have hread := strToLog_logToStr_of_lt hID
  simp only [pass, hread, Option.bind_eq_bind, Option.bind_some, storeLog, if_pos h.symm,
    Logger.getLogByTXID, Logger.writeLog_self]
  rfl

/-- A participant that has run a record holds it under its number and answers with its text. -/
theorem Hop.pass_execute {p : Participant} {l : Log} (hID : l.ID < 2 ^ 63)
    (h : (Hop.execute p).Takes l) : (Hop.execute p).pass l.logToStr = some l.logToStr := by
  obtain ⟨hTXID, hstart, hstate, hacc⟩ := h
  have hrec := Log.received_of_lt hID
  obtain ⟨rc, kv', hrun, hne⟩ := eventParser_of_accepted p.kvdb hacc
  -- the record is run and stored
  have hcommit : p.pWorker l.logToStr =
      some (rc, { TXID := p.TXID + 1, lg := p.lg.writeLog l, kvdb := kv' }) := by
    rw [pWorker_commit p hstart (by rw [hrec, hTXID]) hstate, hrun, hrec]
    simp only [Option.map_some, ne_eq, hne, not_false_eq_true, if_true]
  -- its number is below the participant's own after that, so the question finds it
  have hask : toUInt64 (strtol (toDec p.TXID)) = l.ID := by
    rw [hTXID, toUInt64_strtol_toDec_of_lt hID]
  have hanswer := pWorker_logToStr_ask { TXID := p.TXID + 1, lg := p.lg.writeLog l, kvdb := kv' }
    (l := ⟨ASK_DATA_TXID, LogState.LOG_COMMIT, toDec p.TXID⟩) rfl
  simp only [hask] at hanswer
  rw [if_neg (by omega), Logger.writeLog_self, Option.map_some] at hanswer
  simp only [pass, hcommit, Option.bind_eq_bind, Option.bind_some, hanswer]
  rfl

/-- One hop leaves the text of a record it takes unchanged. -/
theorem Hop.pass_logToStr (hop : Hop) {l : Log} (hID : l.ID < 2 ^ 63) (h : hop.Takes l) :
    hop.pass l.logToStr = some l.logToStr := by
  cases hop with
  | relay => rfl
  | store c => exact pass_store hID h
  | execute p => exact pass_execute hID h

/-- A record survives its text, whatever its state and its event, and the text survives any row of
hops. -/
theorem record_round_trip (l : Log) (hID : l.ID < 2 ^ 63) :
    strToLog l.logToStr = some l ∧
      ∀ hops : List Hop, (∀ hop ∈ hops, hop.Takes l) →
        deliver hops l.logToStr = some l.logToStr ∧
          deliver hops l.logToStr >>= strToLog = some l := by
  have hread := strToLog_logToStr_of_lt hID
  refine ⟨hread, ?_⟩
  intro hops htakes
  have htext : deliver hops l.logToStr = some l.logToStr := by
    induction hops with
    | nil => rfl
    | cons hop hops ih =>
        have hhop := hop.pass_logToStr hID (htakes hop List.mem_cons_self)
        rw [deliver, hhop]
        exact ih fun hop' h => htakes hop' (List.mem_cons_of_mem _ h)
  refine ⟨htext, ?_⟩
  rw [htext]
  exact hread

/-- A record whose event is a command with the field markers among its bytes, through the
coordinator's log and a participant's. -/
theorem record_round_trip_markers :
    let l : Log := ⟨5, LogState.LOG_COMMIT, getRESPArry [ascii "SET", ascii "TXID: ", ascii "\r\nS: "]⟩
    let c : Coordinator := ⟨5, .C_RECOVERY, Logger.empty, 0, fun _ => Entry.Init .P_WAITING⟩
    strToLog l.logToStr = some l ∧
      deliver [.relay, .store c, .execute Participant.Init, .relay] l.logToStr >>= strToLog =
        some l := by
  intro l c
  have hround := record_round_trip l (by decide)
  refine ⟨hround.1, (hround.2 _ ?_).2⟩
  intro hop hmem
  have hacc : Accepted l.event :=
    ⟨_, comds_getRESPArry (by decide), Or.inr (Or.inl ⟨by decide, rfl⟩)⟩
  fin_cases hmem
  · trivial
  · rfl
  · exact ⟨rfl, le_refl _, rfl, hacc⟩
  · trivial

end CloudLabs.KvStore
