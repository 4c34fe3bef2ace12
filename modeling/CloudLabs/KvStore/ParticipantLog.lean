import CloudLabs.KvStore.Participant

/-!
# A participant's log and table stay together

`Participant.Sound` relates the three parts of a participant's memory: the log holds exactly the
numbers `TXID_START .. TXID - 1`, each record is committed and stored under its own number, and
the table is the replay of the logged events in the order of their numbers.

The table is updated before the log and the counter, and a command may be refused, repeated, stale
or early. `Sound.pWorker` shows that every task the coordinator emits keeps the relation, and
`runTasks_spec` that every sequence of such tasks does, starting from `Participant.Init`.
-/

set_option autoImplicit false

namespace CloudLabs.KvStore

open CloudLabs.Foundation

/-- The table after the events, applied in order to an empty table. -/
def replay (events : List Bytes) : KV := events.foldl applyEvent KV.empty

theorem replay_concat (events : List Bytes) (e : Bytes) :
    replay (events ++ [e]) = applyEvent (replay events) e := by
  simp [replay]

/-- The events logged under `TXID_START .. TXID - 1`, in that order. -/
def Participant.events (p : Participant) : List Bytes :=
  (List.range' TXID_START (p.TXID - TXID_START)).filterMap fun t => (p.lg t).map Log.event

/-- The log, the counter and the table of a participant agree. -/
structure Participant.Sound (p : Participant) : Prop where
  start_le : TXID_START ≤ p.TXID
  txid_le : p.TXID ≤ 2 ^ 63
  keys : ∀ t, (p.lg t).isSome ↔ TXID_START ≤ t ∧ t < p.TXID
  record : ∀ t l, p.lg t = some l → l.ID = t ∧ l.state = LogState.LOG_COMMIT
  accepted : ∀ t l, p.lg t = some l → Accepted l.event
  replayed : replay p.events = p.kvdb

theorem Participant.sound_init : Participant.Init.Sound where
  start_le := le_rfl
  txid_le := by decide
  keys := by intro t; simp only [Participant.Init, Logger.empty]; constructor <;> simp
  record := by intro t l h; simp [Participant.Init, Logger.empty] at h
  accepted := by intro t l h; simp [Participant.Init, Logger.empty] at h
  replayed := by simp [Participant.events, Participant.Init, replay]

section Sound

variable {p : Participant}

/-- The record of a number below the counter. -/
theorem Participant.Sound.lookup (hp : p.Sound) {t : Nat} (h₁ : TXID_START ≤ t)
    (h₂ : t < p.TXID) : ∃ e, p.lg t = some ⟨t, LogState.LOG_COMMIT, e⟩ ∧ Accepted e := by
  obtain ⟨l, hl⟩ := Option.isSome_iff_exists.1 ((hp.keys t).2 ⟨h₁, h₂⟩)
  obtain ⟨hID, hstate⟩ := hp.record t l hl
  refine ⟨l.event, ?_, hp.accepted t l hl⟩
  rw [hl, ← hID, ← hstate]

theorem Participant.Sound.events_eq_map (hp : p.Sound) :
    p.events = (List.range' TXID_START (p.TXID - TXID_START)).map
      fun t => ((p.lg t).map Log.event).getD [] := by
  rw [Participant.events, ← List.filterMap_eq_map]
  apply List.filterMap_congr
  intro t ht
  rw [List.mem_range'_1] at ht
  obtain ⟨e, he, -⟩ := hp.lookup ht.1 (by omega)
  simp [he]

theorem Participant.Sound.length_events (hp : p.Sound) :
    p.events.length = p.TXID - TXID_START := by
  rw [hp.events_eq_map, List.length_map, List.length_range']

/-- The record of the `k`-th number holds the `k`-th event. -/
theorem Participant.Sound.lg_of_getElem? (hp : p.Sound) {k : Nat} {e : Bytes}
    (h : p.events[k]? = some e) :
    p.lg (TXID_START + k) = some ⟨TXID_START + k, LogState.LOG_COMMIT, e⟩ := by
  obtain ⟨hk, -⟩ := List.getElem?_eq_some_iff.1 h
  rw [hp.length_events] at hk
  obtain ⟨e', he', -⟩ := hp.lookup (t := TXID_START + k) (Nat.le_add_right _ _) (by omega)
  rw [hp.events_eq_map, List.getElem?_map, List.getElem?_range' hk] at h
  simp only [Nat.one_mul, Option.map_some, he', Option.getD_some, Option.some.injEq] at h
  rw [he', h]

/-- The participant after an accepted event: the record under the next number, the event applied. -/
def Participant.push (p : Participant) (event : Bytes) : Participant where
  TXID := p.TXID + 1
  lg := p.lg.writeLog ⟨p.TXID, LogState.LOG_COMMIT, event⟩
  kvdb := applyEvent p.kvdb event

theorem Participant.push_lg_self (event : Bytes) :
    (p.push event).lg p.TXID = some ⟨p.TXID, LogState.LOG_COMMIT, event⟩ :=
  Logger.writeLog_self p.lg ⟨p.TXID, LogState.LOG_COMMIT, event⟩

theorem Participant.push_lg_of_ne (event : Bytes) {t : Nat} (h : t ≠ p.TXID) :
    (p.push event).lg t = p.lg t :=
  Logger.writeLog_of_ne _ _ h

theorem Participant.events_push (h : TXID_START ≤ p.TXID) (event : Bytes) :
    (p.push event).events = p.events ++ [event] := by
  have hlen : p.TXID + 1 - TXID_START = p.TXID - TXID_START + 1 := by omega
  have hlast : TXID_START + (p.TXID - TXID_START) = p.TXID := by omega
  have hold : (List.range' TXID_START (p.TXID - TXID_START)).filterMap
      (fun t => ((p.push event).lg t).map Log.event) = p.events := by
    apply List.filterMap_congr
    intro t ht
    rw [List.mem_range'_1] at ht
    rw [Participant.push_lg_of_ne event (by omega)]
  have hnew : (p.push event).TXID = p.TXID + 1 := rfl
  rw [Participant.events, hnew, hlen, List.range'_1_concat, List.filterMap_append, hold, hlast]
  simp [Participant.push_lg_self]

/-- Applying, logging and counting an accepted event keeps the three parts together. -/
theorem Participant.Sound.push (hp : p.Sound) {event : Bytes} (hacc : Accepted event)
    (hlt : p.TXID < 2 ^ 63) : (p.push event).Sound where
  start_le := by have := hp.start_le; simp only [Participant.push]; omega
  txid_le := by simp only [Participant.push]; omega
  keys := by
    intro t
    by_cases ht : t = p.TXID
    · subst ht
      have := hp.start_le
      simp only [Participant.push_lg_self, Option.isSome_some, true_iff]
      simp only [Participant.push]
      omega
    · rw [Participant.push_lg_of_ne event ht, hp.keys]
      simp only [Participant.push]
      omega
  record := by
    intro t l h
    by_cases ht : t = p.TXID
    · subst ht
      rw [Participant.push_lg_self, Option.some.injEq] at h
      subst h
      exact ⟨rfl, rfl⟩
    · rw [Participant.push_lg_of_ne event ht] at h
      exact hp.record t l h
  accepted := by
    intro t l h
    by_cases ht : t = p.TXID
    · subst ht
      rw [Participant.push_lg_self, Option.some.injEq] at h
      subst h
      exact hacc
    · rw [Participant.push_lg_of_ne event ht] at h
      exact hp.accepted t l h
  replayed := by
    rw [Participant.events_push hp.start_le, replay_concat, hp.replayed]
    rfl

end Sound

/-! ## The tasks of the coordinator -/

/-- An event that leaves every table as it is. -/
def ReadOnly (event : Bytes) : Prop := ∀ kv, applyEvent kv event = kv

/-- The task texts the coordinator emits: reads, questions, and records of updates. -/
inductive Emitted : Bytes → Prop
  | read (event : Bytes) : ReadOnly event →
      Emitted (Log.logToStr ⟨SUPER_TXID, LogState.LOG_COMMIT, event⟩)
  | recovery (state : LogState) (event : Bytes) :
      Emitted (Log.logToStr ⟨RECOVERY_TXID, state, event⟩)
  | ask (state : LogState) (event : Bytes) : Emitted (Log.logToStr ⟨ASK_DATA_TXID, state, event⟩)
  | update (l : Log) : TXID_START ≤ l.ID → Emitted l.logToStr

/-- What one emitted task does to a participant: nothing, or the accepted event of a commit for its
next number is pushed and answered without the error message. -/
theorem pWorker_emitted {p p' : Participant} {task reply : Bytes} (ht : Emitted task)
    (h : p.pWorker task = some (reply, p')) :
    p' = p ∨ ∃ l : Log, task = l.logToStr ∧ TXID_START ≤ l.ID ∧ l.received.ID = p.TXID ∧
      l.state = LogState.LOG_COMMIT ∧ Accepted l.event ∧ reply ≠ getErrorMessage ∧
      p' = p.push l.event := by
  cases ht with
  | read event hro =>
      -- a read leaves the table as it is
      rw [pWorker_logToStr_super p rfl] at h
      obtain ⟨r, hr, heq⟩ := Option.map_eq_some_iff.1 h
      left
      have hkv := applyEvent_of_eventParser (show eventParser _ _ = some (r.1, r.2) from hr)
      rw [hro] at hkv
      rw [Prod.mk.injEq] at heq
      rw [← heq.2, ← hkv]
  | recovery state event =>
      rw [pWorker_logToStr_recovery p rfl, Option.some.injEq, Prod.mk.injEq] at h
      exact Or.inl h.2.symm
  | ask state event =>
      rw [pWorker_logToStr_ask p rfl] at h
      left
      split at h
      · rw [Option.some.injEq, Prod.mk.injEq] at h
        exact h.2.symm
      · obtain ⟨r, -, heq⟩ := Option.map_eq_some_iff.1 h
        rw [Prod.mk.injEq] at heq
        exact heq.2.symm
  | update l hl =>
      -- only a commit for the next number can change anything
      by_cases hcommit : l.received.ID = p.TXID ∧ l.state = LogState.LOG_COMMIT
      · obtain ⟨hID, hstate⟩ := hcommit
        rw [pWorker_commit p hl hID hstate] at h
        obtain ⟨⟨rc, kv'⟩, hr, heq⟩ := Option.map_eq_some_iff.1 h
        by_cases hrc : rc = getErrorMessage
        · left
          simp only [hrc, ne_eq, not_true_eq_false, if_false, Prod.mk.injEq] at heq
          exact heq.2.symm
        · right
          simp only [ne_eq, hrc, not_false_eq_true, if_true, Prod.mk.injEq] at heq
          refine ⟨l, rfl, hl, hID, hstate, (accepted_iff hr).2 hrc, heq.1 ▸ hrc, ?_⟩
          have hrec : l.received = ⟨p.TXID, LogState.LOG_COMMIT, l.event⟩ := by
            rw [← hID, ← hstate]; rfl
          rw [← heq.2, Participant.push, applyEvent_of_eventParser hr, hrec]
      · left
        rw [pWorker_logToStr_update p hl, if_neg hcommit] at h
        split at h <;>
        · rw [Option.some.injEq, Prod.mk.injEq] at h
          exact h.2.symm

theorem Log.received_ID_lt (l : Log) : l.received.ID < 2 ^ 63 := by
  simp only [Log.received, longMax]
  omega

/-- Every emitted task keeps the log, the counter and the table together. -/
theorem Participant.Sound.pWorker {p p' : Participant} {task reply : Bytes} (hp : p.Sound)
    (ht : Emitted task) (h : p.pWorker task = some (reply, p')) : p'.Sound := by
  rcases pWorker_emitted ht h with rfl | ⟨l, -, -, hID, -, hacc, -, rfl⟩
  · exact hp
  · exact hp.push hacc (hID ▸ l.received_ID_lt)

/-- A task answered with the error message changes nothing. -/
theorem pWorker_error {p p' : Participant} {task : Bytes} (ht : Emitted task)
    (h : p.pWorker task = some (getErrorMessage, p')) : p' = p := by
  rcases pWorker_emitted ht h with rfl | ⟨l, -, -, -, -, -, hne, -⟩
  · rfl
  · exact absurd rfl hne

/-! ## Runs of tasks -/

/-- The word vector of an update command. -/
inductive Update where
  | SET (args : List Bytes)
  | DEL (args : List Bytes)

def Update.words : Update → List Bytes
  | .SET args => ascii "SET" :: args
  | .DEL args => ascii "DEL" :: args

/-- A task of the coordinator; the transaction number of a record or of a question for one is
`TXID_START + k`. -/
inductive Task where
  | get (args : List Bytes)
  | recovery
  | ask (k : Nat)
  | pre (k : Nat) (event : Bytes)
  | commit (k : Nat) (update : Update)

/-- The text of a task. -/
def Task.text : Task → Bytes
  | .get args => Log.logToStr ⟨SUPER_TXID, LogState.LOG_COMMIT, getRESPArry (ascii "GET" :: args)⟩
  | .recovery => Log.logToStr ⟨RECOVERY_TXID, LogState.LOG_PRE, []⟩
  | .ask k => Log.logToStr ⟨ASK_DATA_TXID, LogState.LOG_COMMIT, toDec (TXID_START + k)⟩
  | .pre k event => Log.logToStr ⟨TXID_START + k, LogState.LOG_PRE, event⟩
  | .commit k u => Log.logToStr ⟨TXID_START + k, LogState.LOG_COMMIT, getRESPArry u.words⟩

/-- The encoding of the command in the task fits into an `int`. -/
def Task.Fits : Task → Prop
  | .get args => (getRESPArry (ascii "GET" :: args)).length < 2 ^ 31
  | .commit _ u => (getRESPArry u.words).length < 2 ^ 31
  | _ => True

/-- The number and the event of a commit that was answered without the error message. -/
def Task.applied (t : Task) (reply : Bytes) : Option (Nat × Bytes) :=
  match t with
  | .commit k u =>
      if reply = getErrorMessage then none else some (min longMax (TXID_START + k), getRESPArry u.words)
  | _ => none

/-- The participant answers the tasks one after the other. -/
def runTasks (p : Participant) : List Task → Option (List Bytes × Participant)
  | [] => some ([], p)
  | t :: ts =>
      match p.pWorker t.text with
      | none => none
      | some (reply, p') => (runTasks p' ts).map fun r => (reply :: r.1, r.2)

/-- The commits that were applied in a run, with their numbers. -/
def appliedIn (ts : List Task) (replies : List Bytes) : List (Nat × Bytes) :=
  (ts.zip replies).filterMap fun r => r.1.applied r.2

/-- A read request changes no table, whatever the size of its arguments. -/
theorem readOnly_get (args : List Bytes) : ReadOnly (getRESPArry (ascii "GET" :: args)) := by
  intro kv
  cases hc : comds (getRESPArry (ascii "GET" :: args)) with
  | none => simp [applyEvent, eventParser, hc]
  | some cs =>
      obtain ⟨⟨cs', len⟩, hparse, rfl⟩ := Option.map_eq_some_iff.1 hc
      have happly : applyEvent kv (getRESPArry (ascii "GET" :: args)) = (runComds kv cs').2 := by
        simp [applyEvent, eventParser, hc]
      rw [happly]
      rcases parserRESPArry_head (by decide) args [0] hparse with rfl | hhead
      · rfl
      · obtain ⟨cs'', rfl⟩ : ∃ cs'', cs' = ascii "GET" :: cs'' := by
          cases cs' with
          | nil => simp at hhead
          | cons c cs'' => exact ⟨cs'', by rw [Option.some.inj hhead]⟩
        rw [runComds_GET]
        split <;> rfl

theorem Task.emitted (t : Task) : Emitted t.text := by
  cases t with
  | get args => exact .read _ (readOnly_get args)
  | recovery => exact .recovery _ _
  | ask k => exact .ask _ _
  | pre k event => exact .update _ (Nat.le_add_right _ _)
  | commit k u => exact .update _ (Nat.le_add_right _ _)

/-- What a task does, by whether it was applied. -/
theorem Task.pWorker_applied (t : Task) {p p' : Participant} {reply : Bytes}
    (h : p.pWorker t.text = some (reply, p')) :
    match t.applied reply with
    | none => p' = p
    | some r => r.1 = p.TXID ∧ p' = p.push r.2 := by
  rcases pWorker_emitted t.emitted h with rfl | ⟨l, htext, hl, hID, hstate, hacc, hne, rfl⟩
  · -- nothing changed: a commit was refused, by its number or by its command
    cases t with
    | commit k u =>
        by_cases hrc : reply = getErrorMessage
        · simp [Task.applied, hrc]
        · exfalso
          by_cases hID : (Log.received ⟨TXID_START + k, LogState.LOG_COMMIT, getRESPArry u.words⟩).ID =
              p'.TXID
          · rw [Task.text, pWorker_commit p' (Nat.le_add_right _ _) hID rfl] at h
            obtain ⟨⟨rc, kv'⟩, hr, heq⟩ := Option.map_eq_some_iff.1 h
            by_cases hrc' : rc = getErrorMessage
            · simp only [hrc', ne_eq, not_true_eq_false, if_false, Prod.mk.injEq] at heq
              exact hrc heq.1.symm
            · simp only [ne_eq, hrc', not_false_eq_true, if_true, Prod.mk.injEq] at heq
              have := congrArg Participant.TXID heq.2
              simp at this
          · rw [Task.text, pWorker_logToStr_update p' (Nat.le_add_right _ _)] at h
            simp only [hID, false_and, if_false, Option.some.injEq, Prod.mk.injEq] at h
            exact hrc h.1.symm
    | get args => simp [Task.applied]
    | recovery => simp [Task.applied]
    | ask k => simp [Task.applied]
    | pre k event => simp [Task.applied]
  · -- an accepted commit for the next number
    cases t with
    | commit k u =>
        obtain rfl := logToStr_injective htext
        simp only [Task.applied, hne, if_false]
        exact ⟨hID, trivial⟩
    | get args =>
        obtain rfl := logToStr_injective htext
        exact absurd (show TXID_START ≤ SUPER_TXID from hl) (by decide)
    | recovery =>
        obtain rfl := logToStr_injective htext
        exact absurd (show TXID_START ≤ RECOVERY_TXID from hl) (by decide)
    | ask k =>
        obtain rfl := logToStr_injective htext
        exact absurd (show TXID_START ≤ ASK_DATA_TXID from hl) (by decide)
    | pre k event =>
        obtain rfl := logToStr_injective htext
        exact absurd (show LogState.LOG_PRE = LogState.LOG_COMMIT from hstate) (by decide)

/-- A task whose command fits into an `int` is answered. -/
theorem Task.pWorker_isSome {p : Participant} (hp : p.Sound) {t : Task} (ht : t.Fits) :
    ∃ r, p.pWorker t.text = some r := by
  cases t with
  | get args =>
      rw [Task.text, pWorker_logToStr_super p rfl, eventParser_getRESPArry _ ht]
      exact ⟨_, rfl⟩
  | recovery => exact ⟨_, pWorker_logToStr_recovery p rfl⟩
  | ask k =>
      have htid : toUInt64 (strtol (toDec (TXID_START + k))) = min longMax (TXID_START + k) := by
        simpa using toUInt64_strtol_toDec (TXID_START + k) [] endsDigits_nil
      rw [Task.text, pWorker_logToStr_ask p rfl, htid]
      split
      · exact ⟨_, rfl⟩
      · obtain ⟨e, he, -⟩ := hp.lookup (t := min longMax (TXID_START + k))
          (by simp only [TXID_START, longMax]; omega) (by omega)
        rw [he]
        exact ⟨_, rfl⟩
  | pre k event => exact ⟨_, pWorker_pre p (Nat.le_add_right _ _) rfl⟩
  | commit k u =>
      rw [Task.text, pWorker_logToStr_update p (Nat.le_add_right _ _)]
      split
      · exact ⟨_, rfl⟩
      split
      · rw [eventParser_getRESPArry _ ht]
        exact ⟨_, rfl⟩
      · exact ⟨_, rfl⟩

/-- A run of tasks pushes the applied events, numbered without gaps from the participant's counter
on. -/
theorem runTasks_spec (ts : List Task) :
    ∀ {p₀ p : Participant} {replies : List Bytes}, p₀.Sound →
      runTasks p₀ ts = some (replies, p) →
      p.Sound ∧ p.TXID = p₀.TXID + (appliedIn ts replies).length ∧
        (appliedIn ts replies).map Prod.fst = List.range' p₀.TXID (appliedIn ts replies).length ∧
        p.events = p₀.events ++ (appliedIn ts replies).map Prod.snd := by
  induction ts with
  | nil =>
      intro p₀ p replies hp h
      simp only [runTasks, Option.some.injEq, Prod.mk.injEq] at h
      obtain ⟨rfl, rfl⟩ := h
      simp [appliedIn, hp]
  | cons t ts ih =>
      intro p₀ p replies hp h
      rw [runTasks] at h
      cases hw : p₀.pWorker t.text with
      | none => rw [hw] at h; simp at h
      | some r =>
          obtain ⟨reply, p₁⟩ := r
          rw [hw] at h
          obtain ⟨⟨replies', p'⟩, hrun, heq⟩ := Option.map_eq_some_iff.1 h
          simp only [Prod.mk.injEq] at heq
          obtain ⟨rfl, rfl⟩ := heq
          obtain ⟨hs, htx, hnum, hev⟩ := ih (hp.pWorker t.emitted hw) hrun
          have happ := t.pWorker_applied hw
          -- an event that the first task applies comes before those of the rest
          cases ha : t.applied reply with
          | none =>
              rw [ha] at happ
              subst happ
              have hcons : appliedIn (t :: ts) (reply :: replies') = appliedIn ts replies' := by
                simp [appliedIn, ha]
              rw [hcons]
              exact ⟨hs, htx, hnum, hev⟩
          | some r =>
              rw [ha] at happ
              obtain ⟨hr, rfl⟩ := happ
              have hcons : appliedIn (t :: ts) (reply :: replies') = r :: appliedIn ts replies' := by
                simp [appliedIn, ha]
              have htx₁ : (p₀.push r.2).TXID = p₀.TXID + 1 := rfl
              rw [htx₁] at htx hnum
              rw [Participant.events_push hp.start_le] at hev
              rw [hcons]
              refine ⟨hs, ?_, ?_, ?_⟩
              · rw [htx, List.length_cons]
                omega
              · rw [List.map_cons, List.length_cons, List.range'_succ, hnum, hr]
              · rw [hev, List.map_cons, List.append_assoc]
                rfl

/-- Every run of tasks whose commands fit into an `int` is answered to its end. -/
theorem runTasks_isSome (ts : List Task) :
    ∀ {p : Participant}, p.Sound → (∀ t ∈ ts, t.Fits) → ∃ r, runTasks p ts = some r := by
  induction ts with
  | nil => exact fun _ _ => ⟨_, rfl⟩
  | cons t ts ih =>
      intro p hp hts
      obtain ⟨⟨reply, p₁⟩, hw⟩ := Task.pWorker_isSome hp (hts t (by simp))
      obtain ⟨r, hr⟩ := ih (hp.pWorker t.emitted hw) fun t' ht' => hts t' (by simp [ht'])
      exact ⟨(reply :: r.1, r.2), by rw [runTasks, hw]; simp [hr]⟩

/-- **Log and table never drift apart.** After any sequence of tasks from a fresh participant, the
log holds exactly the committed records of `TXID_START .. TXID - 1` and the table is their replay;
the applied commits carry these numbers, each once and in order, and theirs are the logged events;
a task answered with the error message changes nothing, and a question for a number below the
counter is answered with the record of the event applied under it. A sequence whose commands fit
into an `int` is answered to its end. -/
theorem runTasks_log_matches_table (ts : List Task) :
    (∀ replies p, runTasks Participant.Init ts = some (replies, p) →
      p.Sound ∧
        (appliedIn ts replies).map Prod.fst = List.range' TXID_START (p.TXID - TXID_START) ∧
        p.events = (appliedIn ts replies).map Prod.snd ∧
        ∀ (t : Task) reply p', p.pWorker t.text = some (reply, p') →
          (reply = getErrorMessage → p' = p) ∧
            ∀ k, t = .ask k → TXID_START + k < p.TXID →
              ∃ e, (TXID_START + k, e) ∈ appliedIn ts replies ∧
                reply = Log.logToStr ⟨TXID_START + k, LogState.LOG_COMMIT, e⟩) ∧
      ((∀ t ∈ ts, t.Fits) → ∃ r, runTasks Participant.Init ts = some r) := by
  refine ⟨?_, runTasks_isSome ts Participant.sound_init⟩
  intro replies p h
  -- the log holds the applied events from `TXID_START` on, so a number determines one of them
  obtain ⟨hs, htx, hnum, hev⟩ := runTasks_spec ts Participant.sound_init h
  have hinit : Participant.Init.TXID = TXID_START := rfl
  have hnil : Participant.Init.events = [] := by simp [Participant.events, Participant.Init]
  rw [hinit] at htx hnum
  rw [hnil, List.nil_append] at hev
  have hlen : p.TXID - TXID_START = (appliedIn ts replies).length := by omega
  refine ⟨hs, by rw [hlen]; exact hnum, hev, ?_⟩
  intro t reply p' hw
  refine ⟨?_, ?_⟩
  · rintro rfl
    exact pWorker_error t.emitted hw
  · rintro k rfl hk
    have hklen : k < (appliedIn ts replies).length := by omega
    obtain ⟨r, hr⟩ : ∃ r, (appliedIn ts replies)[k]? = some r :=
      ⟨_, List.getElem?_eq_getElem hklen⟩
    have hfst : r.1 = TXID_START + k := by
      have h₁ := congrArg (fun xs : List Nat => xs[k]?) hnum
      simp only [List.getElem?_map, hr, Option.map_some, List.getElem?_range' hklen] at h₁
      simpa using h₁
    have hsnd : p.events[k]? = some r.2 := by
      rw [hev, List.getElem?_map, hr]
      rfl
    have hbound := hs.txid_le
    have htid : toUInt64 (strtol (toDec (TXID_START + k))) = TXID_START + k := by
      have hread := toUInt64_strtol_toDec (TXID_START + k) [] endsDigits_nil
      rw [List.append_nil] at hread
      rw [hread, longMax]
      omega
    refine ⟨r.2, ?_, ?_⟩
    · rw [← hfst]
      exact List.mem_of_getElem? hr
    · rw [Task.text, pWorker_logToStr_ask p rfl, htid, if_neg (by omega), hs.lg_of_getElem? hsnd,
        Option.map_some, Option.some.injEq, Prod.mk.injEq] at hw
      exact hw.1.symm

end CloudLabs.KvStore
