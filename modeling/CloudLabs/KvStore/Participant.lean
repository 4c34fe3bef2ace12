import CloudLabs.KvStore.Logger

/-!
# The participant

`KV` is the participant's table of keys, `eventParser` runs one RESP-encoded command on it, and
`pWorker` answers one task of the coordinator: a read, a question for the largest transaction
number, a question for one log record, a vote request, or a commit.

The commit branch is the only one that changes the participant (`pWorker_commit`). It applies an
event the participant accepts, stores its record and counts it; whether an event is accepted does
not depend on the table (`accepted_iff`), and a refused event changes nothing
(`eventParser_error`).
-/

set_option autoImplicit false

namespace CloudLabs.KvStore

open CloudLabs.Foundation

def KV_OK : Int := 0
def KV_NETWORK : Int := -6
def KV_DEL : Int := -10

/-! ## The table of keys -/

/-- The contents of the hash map in `KV`, as a finite map. -/
abbrev KV := Bytes → Option Bytes

def KV.empty : KV := fun _ => none

/-- `KV::kvSET`. -/
def KV.kvSET (kv : KV) (k v : Bytes) : KV := Function.update kv k (some v)

/-- `KV::kvDEL`. -/
def KV.kvDEL (kv : KV) (k : Bytes) : Int × KV :=
  match kv k with
  | some _ => (KV_OK, Function.update kv k none)
  | none => (KV_DEL, kv)

/-- The loop of `KV::kvDELArry`, with the deletions counted so far. -/
def KV.kvDELArryLoop : KV → List Bytes → Int → Int × KV
  | kv, [], number => (number, kv)
  | kv, k :: ks, number =>
      let r := kv.kvDEL k
      KV.kvDELArryLoop r.2 ks (if r.1 = KV_OK then number + 1 else number)

/-- `KV::kvDELArry`. -/
def KV.kvDELArry (kv : KV) (ks : List Bytes) : Int × KV := kv.kvDELArryLoop ks 0

/-- Deleting keys removes them and leaves the others. -/
theorem KV.kvDELArryLoop_snd (ks : List Bytes) : ∀ (kv : KV) (n : Int) (k : Bytes),
    (kv.kvDELArryLoop ks n).2 k = if k ∈ ks then none else kv k := by
  induction ks with
  | nil => intro kv n k; simp [KV.kvDELArryLoop]
  | cons k' ks ih =>
      intro kv n k
      have hdel : (kv.kvDEL k').2 k = if k = k' then none else kv k := by
        unfold KV.kvDEL
        cases hk' : kv k' with
        | none =>
            by_cases hk : k = k'
            · subst hk
              simp [hk']
            · simp [hk]
        | some v => simp [Function.update_apply]
      rw [KV.kvDELArryLoop, ih, hdel]
      by_cases hks : k ∈ ks
      · simp [hks]
      · simp [hks]

/-- `KV::kvGET`. -/
def KV.kvGET (kv : KV) (k : Bytes) : Bytes := (kv k).getD (ascii "nil")

/-! ## Commands -/

/-- The `switch` of `Participant::eventParser` on the first letter of the decoded command. -/
def runComds (kv : KV) : List Bytes → Bytes × KV
  | [] => (getErrorMessage, kv)
  | c :: args =>
      -- `D`, `S`, `G` and `P`: only the first letter of the word counts
      if c.headD 0 = 68 then
        let r := kv.kvDELArry args
        (getIntergerMessage r.1, r.2)
      else if c.headD 0 = 83 then
        match args with
        | [k, v] => (getSuccessMessage, kv.kvSET k v)
        | _ => (getErrorMessage, kv)
      else if c.headD 0 = 71 then
        match args with
        | [k] => (getRESPArryOne (kv.kvGET k), kv)
        | _ => (getErrorMessage, kv)
      else if c.headD 0 = 80 then (ascii "PRE", kv)
      else (getErrorMessage, kv)

/-- The command an event decodes to. -/
def comds (event : Bytes) : Option (List Bytes) := (parserRESPArry (event ++ [0]) []).map Prod.fst

/-- `Participant::eventParser`: the reply and the table after the event. -/
def eventParser (kv : KV) (event : Bytes) : Option (Bytes × KV) := (comds event).map (runComds kv)

/-- An encoding that fits into an `int` decodes to the encoded command. -/
theorem comds_getRESPArry {words : List Bytes} (h : (getRESPArry words).length < 2 ^ 31) :
    comds (getRESPArry words) = some words := by
  simp [comds, parserRESPArry_getRESPArry words [] [0] h]

theorem eventParser_getRESPArry (kv : KV) {words : List Bytes}
    (h : (getRESPArry words).length < 2 ^ 31) :
    eventParser kv (getRESPArry words) = some (runComds kv words) := by
  simp [eventParser, comds_getRESPArry h]

/-- The memory of a participant. -/
structure Participant where
  TXID : Nat
  lg : Logger
  kvdb : KV

/-- `Participant::Init`. -/
def Participant.Init : Participant := ⟨TXID_START, Logger.empty, KV.empty⟩

/-- `Participant::pWorker`: the reply and the participant after the task. -/
def Participant.pWorker (p : Participant) (task : Bytes) : Option (Bytes × Participant) :=
  match strToLog task with
  | none => none
  | some l =>
      -- the three numbers that are no transactions
      if l.ID = SUPER_TXID then
        (eventParser p.kvdb l.event).map fun r => (r.1, { p with kvdb := r.2 })
      else if l.ID = RECOVERY_TXID then some (toDec (p.TXID - 1), p)
      else if l.ID = ASK_DATA_TXID then
        if p.TXID ≤ toUInt64 (strtol l.event) then some ([], p)
        else (p.lg.getLogByTXID (toUInt64 (strtol l.event))).map fun r => (r.logToStr, p)
      -- the two phases of the next transaction; any other number is refused
      else if l.ID = p.TXID ∧ l.state = LogState.LOG_PRE then some (ascii "PRE", p)
      else if l.ID = p.TXID ∧ l.state = LogState.LOG_COMMIT then
        (eventParser p.kvdb l.event).map fun r =>
          if r.1 ≠ getErrorMessage then
            (r.1, { TXID := p.TXID + 1, lg := p.lg.writeLog l, kvdb := r.2 })
          else (r.1, { p with kvdb := r.2 })
      else some (getErrorMessage, p)

theorem runComds_SET (kv : KV) (args : List Bytes) :
    runComds kv (ascii "SET" :: args) =
      match args with
      | [k, v] => (getSuccessMessage, kv.kvSET k v)
      | _ => (getErrorMessage, kv) := rfl

theorem runComds_DEL (kv : KV) (args : List Bytes) :
    runComds kv (ascii "DEL" :: args) =
      (getIntergerMessage (kv.kvDELArry args).1, (kv.kvDELArry args).2) := rfl

theorem runComds_GET (kv : KV) (args : List Bytes) :
    runComds kv (ascii "GET" :: args) =
      match args with
      | [k] => (getRESPArryOne (kv.kvGET k), kv)
      | _ => (getErrorMessage, kv) := rfl

/-! ## Which events are accepted -/

/-- The command is one that `runComds` carries out. -/
def Runnable : List Bytes → Prop
  | [] => False
  | c :: args =>
      c.headD 0 = 68 ∨ (c.headD 0 = 83 ∧ args.length = 2) ∨ (c.headD 0 = 71 ∧ args.length = 1) ∨
        c.headD 0 = 80

/-- The event decodes to a command that is carried out. -/
def Accepted (event : Bytes) : Prop := ∃ cs, comds event = some cs ∧ Runnable cs

theorem getIntergerMessage_ne_error (i : Int) : getIntergerMessage i ≠ getErrorMessage := by
  intro h
  have := congrArg List.head? h
  simp [getIntergerMessage, getErrorMessage, ascii] at this

theorem getRESPArryOne_ne_error (w : Bytes) : getRESPArryOne w ≠ getErrorMessage := by
  intro h
  have := congrArg List.head? h
  simp [getRESPArryOne, getErrorMessage, ascii] at this

theorem getSuccessMessage_ne_error : getSuccessMessage ≠ getErrorMessage := by decide

theorem pre_ne_error : ascii "PRE" ≠ getErrorMessage := by decide

/-- A command that is carried out is answered without the error message. -/
theorem runComds_ne_error (kv : KV) {cs : List Bytes} (h : Runnable cs) :
    (runComds kv cs).1 ≠ getErrorMessage := by
  cases cs with
  | nil => exact h.elim
  | cons c args =>
      unfold runComds
      rcases h with h | ⟨h, hlen⟩ | ⟨h, hlen⟩ | h
      · simp only [h, if_true]
        exact getIntergerMessage_ne_error _
      · obtain ⟨k, v, rfl⟩ := List.length_eq_two.1 hlen
        simp only [h]
        exact getSuccessMessage_ne_error
      · obtain ⟨k, rfl⟩ := List.length_eq_one_iff.1 hlen
        simp only [h]
        exact getRESPArryOne_ne_error _
      · simp only [h]
        exact pre_ne_error

/-- Every other command is refused and changes nothing. -/
theorem runComds_of_not_runnable (kv : KV) {cs : List Bytes} (h : ¬ Runnable cs) :
    runComds kv cs = (getErrorMessage, kv) := by
  cases cs with
  | nil => rfl
  | cons c args =>
      simp only [Runnable, not_or, not_and] at h
      obtain ⟨h68, h83, h71, h80⟩ := h
      unfold runComds
      simp only [if_neg h68]
      by_cases hS : c.headD 0 = 83
      · rw [if_pos hS]
        split
        · exact absurd rfl (h83 hS)
        · rfl
      rw [if_neg hS]
      by_cases hG : c.headD 0 = 71
      · rw [if_pos hG]
        split
        · exact absurd rfl (h71 hG)
        · rfl
      rw [if_neg hG, if_neg h80]

/-- No reply is empty. -/
theorem runComds_ne_nil (kv : KV) (cs : List Bytes) : (runComds kv cs).1 ≠ [] := by
  by_cases h : Runnable cs
  · cases cs with
    | nil => exact h.elim
    | cons c args =>
        unfold runComds
        rcases h with h | ⟨h, hlen⟩ | ⟨h, hlen⟩ | h
        · simp only [h, if_true]
          exact List.cons_ne_nil _ _
        · obtain ⟨k, v, rfl⟩ := List.length_eq_two.1 hlen
          simp only [h]
          exact List.cons_ne_nil _ _
        · obtain ⟨k, rfl⟩ := List.length_eq_one_iff.1 hlen
          simp only [h]
          exact List.cons_ne_nil _ _
        · simp only [h]
          exact List.cons_ne_nil _ _
  · rw [runComds_of_not_runnable kv h]
    exact List.cons_ne_nil _ _

/-- Whether an event is accepted does not depend on the table. -/
theorem accepted_iff {kv kv' : KV} {event rc : Bytes} (h : eventParser kv event = some (rc, kv')) :
    Accepted event ↔ rc ≠ getErrorMessage := by
  obtain ⟨cs, hcs, hrun⟩ := Option.map_eq_some_iff.1 h
  constructor
  · rintro ⟨cs', hcs', hr⟩
    obtain rfl : cs = cs' := Option.some.inj (hcs.symm.trans hcs')
    have := runComds_ne_error kv hr
    rwa [hrun] at this
  · intro hne
    refine ⟨cs, hcs, ?_⟩
    by_contra hr
    rw [runComds_of_not_runnable kv hr] at hrun
    exact hne (congrArg Prod.fst hrun).symm

/-- An accepted event runs on every table. -/
theorem eventParser_of_accepted (kv : KV) {event : Bytes} (h : Accepted event) :
    ∃ rc kv', eventParser kv event = some (rc, kv') ∧ rc ≠ getErrorMessage := by
  obtain ⟨cs, hcs, hr⟩ := h
  refine ⟨(runComds kv cs).1, (runComds kv cs).2, ?_, runComds_ne_error kv hr⟩
  simp [eventParser, hcs]

/-- A refused event changes nothing. -/
theorem eventParser_error {kv kv' : KV} {event : Bytes}
    (h : eventParser kv event = some (getErrorMessage, kv')) : kv' = kv := by
  obtain ⟨cs, hcs, hrun⟩ := Option.map_eq_some_iff.1 h
  by_cases hr : Runnable cs
  · exact absurd (congrArg Prod.fst hrun) (runComds_ne_error kv hr)
  · rw [runComds_of_not_runnable kv hr] at hrun
    exact (congrArg Prod.snd hrun).symm

/-- The table after an event that runs, and the same table after one that does not. -/
def applyEvent (kv : KV) (event : Bytes) : KV := ((eventParser kv event).map Prod.snd).getD kv

theorem applyEvent_of_eventParser {kv kv' : KV} {event rc : Bytes}
    (h : eventParser kv event = some (rc, kv')) : applyEvent kv event = kv' := by
  simp [applyEvent, h]

theorem applyEvent_getRESPArry (kv : KV) {task : List Bytes}
    (hfit : (getRESPArry task).length < 2 ^ 31) :
    applyEvent kv (getRESPArry task) = (runComds kv task).2 := by
  simp [applyEvent, eventParser_getRESPArry kv hfit]

/-! ## What one task does -/

/-- A record read back from its text: its number is cut off at the largest `long`. -/
def Log.received (l : Log) : Log := ⟨min longMax l.ID, l.state, l.event⟩

theorem Log.received_of_lt {l : Log} (h : l.ID < 2 ^ 63) : l.received = l := by
  rw [Log.received, longMax, Nat.min_eq_right (by omega)]

section Worker

variable (p : Participant)

theorem pWorker_logToStr_super {l : Log} (h : l.ID = SUPER_TXID) :
    p.pWorker l.logToStr =
      (eventParser p.kvdb l.event).map fun r => (r.1, { p with kvdb := r.2 }) := by
  simp [Participant.pWorker, strToLog_logToStr, h, SUPER_TXID]

theorem pWorker_logToStr_recovery {l : Log} (h : l.ID = RECOVERY_TXID) :
    p.pWorker l.logToStr = some (toDec (p.TXID - 1), p) := by
  simp [Participant.pWorker, strToLog_logToStr, h, SUPER_TXID, RECOVERY_TXID, longMax]

theorem pWorker_logToStr_ask {l : Log} (h : l.ID = ASK_DATA_TXID) :
    p.pWorker l.logToStr =
      if p.TXID ≤ toUInt64 (strtol l.event) then some ([], p)
      else (p.lg (toUInt64 (strtol l.event))).map fun r => (r.logToStr, p) := by
  simp [Participant.pWorker, strToLog_logToStr, h, SUPER_TXID, RECOVERY_TXID, ASK_DATA_TXID,
    longMax, Logger.getLogByTXID]

/-- Vote requests and commits: the branch taken depends on the received number alone. -/
theorem pWorker_logToStr_update {l : Log} (h : TXID_START ≤ l.ID) :
    p.pWorker l.logToStr =
      if l.received.ID = p.TXID ∧ l.state = LogState.LOG_PRE then some (ascii "PRE", p)
      else if l.received.ID = p.TXID ∧ l.state = LogState.LOG_COMMIT then
        (eventParser p.kvdb l.event).map fun r =>
          if r.1 ≠ getErrorMessage then
            (r.1, { TXID := p.TXID + 1, lg := p.lg.writeLog l.received, kvdb := r.2 })
          else (r.1, { p with kvdb := r.2 })
      else some (getErrorMessage, p) := by
  have h0 : min longMax l.ID ≠ SUPER_TXID := by simp only [TXID_START, SUPER_TXID, longMax] at *; omega
  have h1 : min longMax l.ID ≠ RECOVERY_TXID := by
    simp only [TXID_START, RECOVERY_TXID, longMax] at *; omega
  have h2 : min longMax l.ID ≠ ASK_DATA_TXID := by
    simp only [TXID_START, ASK_DATA_TXID, longMax] at *; omega
  simp only [Participant.pWorker, strToLog_logToStr, if_neg h0, if_neg h1, if_neg h2, Log.received]
  rfl

/-- The commit branch: an accepted event is applied, stored and counted, a refused one is not. -/
theorem pWorker_commit {l : Log} (h : TXID_START ≤ l.ID) (hID : l.received.ID = p.TXID)
    (hstate : l.state = LogState.LOG_COMMIT) :
    p.pWorker l.logToStr = (eventParser p.kvdb l.event).map fun r =>
      if r.1 ≠ getErrorMessage then
        (r.1, { TXID := p.TXID + 1, lg := p.lg.writeLog l.received, kvdb := r.2 })
      else (r.1, p) := by
  have hpre : ¬ (l.received.ID = p.TXID ∧ l.state = LogState.LOG_PRE) := by
    rintro ⟨-, h'⟩
    rw [hstate] at h'
    exact absurd h' (by decide)
  rw [pWorker_logToStr_update p h, if_neg hpre, if_pos ⟨hID, hstate⟩]
  cases hp : eventParser p.kvdb l.event with
  | none => rfl
  | some r =>
      obtain ⟨rc, kv'⟩ := r
      by_cases hrc : rc = getErrorMessage
      · subst hrc
        rw [eventParser_error hp]
        simp
      · simp [hrc]

/-- A vote request changes nothing, and is answered `PRE` if its number is the participant's. -/
theorem pWorker_pre {l : Log} (h : TXID_START ≤ l.ID) (hstate : l.state = LogState.LOG_PRE) :
    p.pWorker l.logToStr =
      some (if l.received.ID = p.TXID then ascii "PRE" else getErrorMessage, p) := by
  have hcommit : ¬ (l.received.ID = p.TXID ∧ l.state = LogState.LOG_COMMIT) := by
    rintro ⟨-, h'⟩
    rw [hstate] at h'
    exact absurd h' (by decide)
  rw [pWorker_logToStr_update p h, if_neg hcommit]
  simp only [hstate, and_true]
  split <;> rfl

end Worker

end CloudLabs.KvStore
