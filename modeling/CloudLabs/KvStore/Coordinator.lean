import CloudLabs.Foundation.Program
import CloudLabs.KvStore.Participant

/-!
# The coordinator

`Coordinator` is the memory of the coordinator process. Its issuing threads are programs over the
atomic operations `Op`: the semaphore operations of a `cpLock`, the accesses to the buffers of a
worker thread, and reads and updates of the rest of the memory. `UpdateDB` and `Request` run in the
working thread, `Recovery` in the recovery thread.

The worker threads, which read a task buffer, talk to a participant and write the reply buffers, are
defined with the system.
-/

set_option autoImplicit false

namespace CloudLabs.KvStore

open CloudLabs.Foundation

/-- `CState`. -/
inductive CState where
  | C_INVALID
  | C_WORKING
  | C_RECOVERY
  deriving DecidableEq

/-- `P_State`. -/
inductive PState where
  | P_INVALID
  | P_WORKING
  | P_RECOVERY
  | P_WAITING
  | P_TEMP
  deriving DecidableEq

/-- The worker thread a task is for: `pWorking` or `pRecovery`. -/
inductive Chan where
  | working
  | recovery
  deriving DecidableEq

/-- The buffers of one worker thread: `_ptask`, `_pworkingRet` and `_pworkingDataRet`, or `_pRtask`,
`_precoveryRet` and `_preoveryDataRet`. -/
structure Buffers where
  task : Bytes
  ret : Int
  dataRet : Bytes

/-- What the coordinator holds about one participant; `maxTxid` is its entry of `maxTxidTB`. -/
structure Entry where
  pstate : PState
  maxTxid : Option Nat
  buf : Chan → Buffers

/-- The memory of the coordinator. -/
structure Coordinator where
  TXID : Nat
  cstate : CState
  lg : Logger
  tmpNum : Nat
  p : Nat → Entry

/-- The return code of a worker that leaves its task alone. -/
def RET_SKIP : Int := 1

/-- The participant ids, in the order of the loops. -/
def pids (pnum : Nat) : List Nat := List.range' 1 pnum

theorem nodup_pids (pnum : Nat) : (pids pnum).Nodup := List.nodup_range' 1

theorem length_pids (pnum : Nat) : (pids pnum).length = pnum := List.length_range'

theorem zero_notMem_pids (pnum : Nat) : 0 ∉ pids pnum := by
  simp [pids, List.mem_range'_1]

def Entry.Init (st : PState) : Entry := ⟨st, none, fun _ => ⟨[], KV_OK, []⟩⟩

/-- `Coordinator::Init`. -/
def Coordinator.Init (pnum : Nat) : Coordinator where
  TXID := TXID_START
  cstate := .C_RECOVERY
  lg := Logger.empty
  tmpNum := 0
  p := fun id => Entry.Init (if id ∈ pids pnum then .P_WAITING else .P_INVALID)

/-! ## Operations -/

/-- The two `cpLock`s of a worker thread: `_ptaskSem` and `_pRetSem`, or `_pRtaskSem` and
`_pRRetSem`. -/
inductive Side where
  | task
  | ret
  deriving DecidableEq

structure Lock where
  ch : Chan
  side : Side
  id : Nat
  deriving DecidableEq

/-- The three semaphores of a `cpLock`. -/
inductive Part where
  | empty
  | full
  | mutex
  deriving DecidableEq

/-- The atomic operations of an issuing thread. -/
inductive Op where
  | wait (l : Lock) (sem : Part)
  | post (l : Lock) (sem : Part)
  | setTask (ch : Chan) (id : Nat) (task : Bytes)
  | readRet (ch : Chan) (id : Nat)
  | readData (ch : Chan) (id : Nat)
  | readMem
  | updateMem (f : Coordinator → Coordinator)

/-- What an operation gives. -/
abbrev Op.Res : Op → Type
  | .readRet _ _ => Int
  | .readData _ _ => Bytes
  | .readMem => Coordinator
  | _ => Unit

/-- A program of an issuing thread. -/
abbrev Proc := Prog Op Op.Res

def wait (l : Lock) (sem : Part) : Proc Unit := Prog.perform (Op.wait l sem)
def post (l : Lock) (sem : Part) : Proc Unit := Prog.perform (Op.post l sem)
def setTask (ch : Chan) (id : Nat) (task : Bytes) : Proc Unit := Prog.perform (Op.setTask ch id task)
def readRet (ch : Chan) (id : Nat) : Proc Int := Prog.perform (Op.readRet ch id)
def readData (ch : Chan) (id : Nat) : Proc Bytes := Prog.perform (Op.readData ch id)
def readMem : Proc Coordinator := Prog.perform Op.readMem
def updateMem (f : Coordinator → Coordinator) : Proc Unit := Prog.perform (Op.updateMem f)

/-- `cpLock::cGet`. -/
def cGet (l : Lock) : Proc Unit := do
  wait l .full
  wait l .mutex

/-- `cpLock::cRelease`. -/
def cRelease (l : Lock) : Proc Unit := do
  post l .mutex
  post l .empty

/-- `cpLock::pGet`. -/
def pGet (l : Lock) : Proc Unit := do
  wait l .empty
  wait l .mutex

/-- `cpLock::pRelease`. -/
def pRelease (l : Lock) : Proc Unit := do
  post l .mutex
  post l .full

/-- Hand a task to a worker thread. -/
def postTask (ch : Chan) (id : Nat) (task : Bytes) : Proc Unit := do
  pGet ⟨ch, .task, id⟩
  setTask ch id task
  pRelease ⟨ch, .task, id⟩

/-- Read the code of a worker thread and, where that is `KV_OK`, its data; the data counts if it
satisfies the condition. The reply lock stays held. -/
def readReply (ch : Chan) (id : Nat) (cond : Bytes → Bool) : Proc (Option Bytes) := do
  let ret ← readRet ch id
  if ret = KV_OK then
    let rc ← readData ch id
    pure (if cond rc then some rc else none)
  else
    pure none

/-- Wait for the reply of a worker thread and read it. -/
def takeReply (ch : Chan) (id : Nat) (cond : Bytes → Bool) : Proc (Option Bytes) := do
  cGet ⟨ch, .ret, id⟩
  let rc ← readReply ch id cond
  cRelease ⟨ch, .ret, id⟩
  pure rc

/-- Wait for the reply of a worker thread and leave it unread. -/
def skipReply (ch : Chan) (id : Nat) : Proc Unit := do
  cGet ⟨ch, .ret, id⟩
  cRelease ⟨ch, .ret, id⟩

/-- Hand one task to the worker threads of all participants. -/
def postTasks (ch : Chan) (task : Bytes) : List Nat → Proc Unit
  | [] => pure ()
  | id :: ids => do
      postTask ch id task
      postTasks ch task ids

/-! ## The working thread -/

/-- The vote loop of `UpdateDB`. -/
def collectVotes : List Nat → Bool → Proc Bool
  | [], vote => pure vote
  | id :: ids, vote => do
      let rc ← takeReply .working id (· == ascii "PRE")
      collectVotes ids (if rc.isSome then true else vote)

/-- The commit loop of `UpdateDB`: whether some participant committed, and the last such reply. -/
def collectCommits : List Nat → Bool → Bytes → Proc (Bool × Bytes)
  | [], commit, rc => pure (commit, rc)
  | id :: ids, commit, rc => do
      match ← takeReply .working id (· != getErrorMessage) with
      | some rc' => collectCommits ids true rc'
      | none => collectCommits ids commit rc

/-- `Coordinator::UpdateDB`. -/
def UpdateDB (pnum : Nat) (resp : Bytes) : Proc Bytes := do
  -- phase one: the votes
  updateMem fun c => { c with lg := c.lg.writeLog ⟨c.TXID, LogState.LOG_PRE, resp⟩ }
  let c ← readMem
  postTasks .working (Log.logToStr ⟨c.TXID, LogState.LOG_PRE, []⟩) (pids pnum)
  let vote ← collectVotes (pids pnum) false
  if vote then
    let c ← readMem
    -- phase two; one vote is enough
    postTasks .working (Log.logToStr ⟨c.TXID, LogState.LOG_COMMIT, resp⟩) (pids pnum)
    let r ← collectCommits (pids pnum) false getErrorMessage
    if r.1 then
      let c ← readMem
      let lg ← Prog.ofOption (c.lg.chageLogState c.TXID LogState.LOG_COMMIT)
      updateMem fun c => { c with lg := lg, TXID := c.TXID + 1 }
      pure r.2
    else
      pure getErrorMessage
  else
    pure getErrorMessage

/-- The loop of `Coordinator::Request`. -/
def requestLoop (getReq : Bytes) : List Nat → Proc Bytes
  | [] => pure getErrorMessage
  | id :: ids => do
      postTask .working id getReq
      match ← takeReply .working id (· != []) with
      | some rc => pure rc
      | none => requestLoop getReq ids

/-- `Coordinator::Request`. -/
def Request (pnum : Nat) (resp : Bytes) : Proc Bytes :=
  requestLoop (Log.logToStr ⟨SUPER_TXID, LogState.LOG_COMMIT, resp⟩) (pids pnum)

/-- The part of `Coordinator::Working` under `_workingMutex`: the call for the command's first
word. -/
def Working (pnum : Nat) (task : List Bytes) : Proc Bytes :=
  let resp := getRESPArry task
  if task.headD [] = ascii "SET" ∨ task.headD [] = ascii "DEL" then UpdateDB pnum resp
  else if task.headD [] = ascii "GET" then Request pnum resp
  else pure getErrorMessage

/-! ## The recovery thread -/

def Entry.setState (e : Entry) (st : PState) : Entry := { e with pstate := st }

/-- The participants that are connected go into recovery mode. -/
def putRecovery (c : Coordinator) : Coordinator :=
  { c with p := fun id =>
      if (c.p id).pstate = .P_TEMP ∨ (c.p id).pstate = .P_WORKING then (c.p id).setState .P_RECOVERY
      else c.p id }

/-- `maxTxidTB[id] = m`. -/
def setMaxTxid (id m : Nat) (c : Coordinator) : Coordinator :=
  { c with p := Function.update c.p id { c.p id with maxTxid := some m } }

/-- The loop of `Recovery` that reads the largest number of each participant; the result is
`consistance`. -/
def collectTxids : List Nat → Bool → Proc Bool
  | [], consistance => pure consistance
  | id :: ids, consistance => do
      cGet ⟨.recovery, .ret, id⟩
      match ← readReply .recovery id (· != []) with
      | some rc => do
          updateMem (setMaxTxid id (toUInt64 (strtol rc)))
          let c ← readMem
          cRelease ⟨.recovery, .ret, id⟩
          collectTxids ids (if (c.p id).maxTxid ≠ some (c.TXID - 1) then false else consistance)
      | none => do
          cRelease ⟨.recovery, .ret, id⟩
          collectTxids ids consistance

/-- The loop of `Recovery` for the least number in `maxTxidTB`. -/
def minTxid (c : Coordinator) (ids : List Nat) (minID : Nat) : Nat :=
  ids.foldl (fun minID id =>
    match (c.p id).maxTxid with
    | some m => if m < minID then m else minID
    | none => minID) minID

/-- `Coordinator::getRecoveryLeader`: the participant with the largest number above the
coordinator's, `0` if there is none, and that number. -/
def getRecoveryLeader (c : Coordinator) (ids : List Nat) : Nat × Nat :=
  ids.foldl (fun r id =>
    match (c.p id).maxTxid with
    | some m => if r.2 < m then (id, m) else r
    | none => r) (0, c.TXID - 1)

/-- Hand one record to all recovery workers, each after the one before has answered. -/
def relay (rc : Bytes) : List Nat → Proc Unit
  | [] => pure ()
  | id :: ids => do
      postTask .recovery id rc
      skipReply .recovery id
      relay rc ids

/-- The inner loop of `recoveryFromC`: the record `tid` of the coordinator for all participants. -/
def pushLog (tid : Nat) : List Nat → Proc Unit
  | [] => pure ()
  | id :: ids => do
      let c ← readMem
      let l ← Prog.ofOption (c.lg.getLogByTXID tid)
      postTask .recovery id l.logToStr
      skipReply .recovery id
      pushLog tid ids

/-- The outer loop of `recoveryFromC`, over the numbers it pushes. -/
def pushLogs (pnum : Nat) : List Nat → Proc Unit
  | [] => pure ()
  | tid :: tids => do
      pushLog tid (pids pnum)
      pushLogs pnum tids

/-- `Coordinator::recoveryFromC`; its argument is not used. -/
def recoveryFromC (pnum : Nat) : Proc Unit := do
  let c ← readMem
  pushLogs pnum (List.range' TXID_START (c.TXID - TXID_START))

/-- The part of `recoveryFromP` that stores a record of the leader. -/
def storeLog (l : Log) (c : Coordinator) : Coordinator :=
  if l.ID = c.TXID then { c with lg := c.lg.writeLog l, TXID := c.TXID + 1 } else c

/-- The inner loop of `recoveryFromP`: the next `count` records of the leader from `minID` on. The
result is `minID` where the loop ends, or where it is left by `goto next`. -/
def pull (pnum leader : Nat) : Nat → Nat → Proc Nat
  | 0, minID => pure minID
  | count + 1, minID => do
      postTask .working leader (Log.logToStr ⟨ASK_DATA_TXID, LogState.LOG_COMMIT, toDec minID⟩)
      match ← takeReply .working leader (· != []) with
      | none => pure minID
      | some rc => do
          let tempLog ← Prog.ofOption (strToLog rc)
          updateMem (storeLog tempLog)
          relay rc (pids pnum)
          pull pnum leader count (minID + 1)

/-- The leader goes into the working state and leaves `maxTxidTB`. -/
def promoteLeader (leader : Nat) (c : Coordinator) : Coordinator :=
  { c with p := Function.update c.p leader { c.p leader with pstate := .P_WORKING, maxTxid := none } }

/-- The loop of `Coordinator::recoveryFromP` at `next`, with a bound on its number of rounds. -/
def recoveryFromP (pnum : Nat) : Nat → Nat → Proc Unit
  | 0, _ => Prog.abort
  | rounds + 1, minID => do
      let c ← readMem
      let r := getRecoveryLeader c (pids pnum)
      if r.1 = 0 then
        recoveryFromC pnum
      else
        updateMem (promoteLeader r.1)
        let minID ← pull pnum r.1 (r.2 + 1 - minID) minID
        recoveryFromP pnum rounds minID

/-- The participants that hold exactly the coordinator's log go to work. -/
def promote (c : Coordinator) : Coordinator :=
  { c with p := fun id =>
      if (c.p id).maxTxid = some (c.TXID - 1) then (c.p id).setState .P_WORKING else c.p id }

/-- The part of `Coordinator::Recovery` under its two mutexes; `minID` and `maxTxidTB` were set when
the function was entered. -/
def Recovery (pnum minID : Nat) : Proc Unit := do
  updateMem putRecovery
  postTasks .recovery (Log.logToStr ⟨RECOVERY_TXID, LogState.LOG_PRE, []⟩) (pids pnum)
  let consistance ← collectTxids (pids pnum) true
  if consistance = false then
    let c ← readMem
    recoveryFromP pnum (pnum + 1) (minTxid c (pids pnum) minID + 1)
  updateMem promote
  updateMem fun c => { c with tmpNum := 0 }

/-! ## The leader -/

section Leader

variable {c : Coordinator}

/-- The fold of `getRecoveryLeader`. -/
theorem leader_fold (ids : List Nat) : ∀ r₀ : Nat × Nat,
    let r := ids.foldl (fun r id =>
      match (c.p id).maxTxid with
      | some m => if r.2 < m then (id, m) else r
      | none => r) r₀
    (r = r₀ ∨ (r.1 ∈ ids ∧ (c.p r.1).maxTxid = some r.2 ∧ r₀.2 < r.2)) ∧ r₀.2 ≤ r.2 ∧
      ∀ id ∈ ids, ∀ m, (c.p id).maxTxid = some m → m ≤ r.2 := by
  induction ids with
  | nil => exact fun r₀ => ⟨Or.inl rfl, le_rfl, by simp⟩
  | cons id ids ih =>
      intro r₀
      rw [List.foldl_cons]
      cases hm : (c.p id).maxTxid with
      | none =>
          obtain ⟨h₁, h₂, h₃⟩ := ih r₀
          refine ⟨h₁.imp_right fun ⟨hid, h⟩ => ⟨by simp [hid], h⟩, h₂,
            List.forall_mem_cons.2 ⟨fun m hm' => ?_, h₃⟩⟩
          rw [hm] at hm'
          exact nomatch hm'
      | some m =>
          by_cases hlt : r₀.2 < m
          · simp only [hlt, if_true]
            obtain ⟨h₁, h₂, h₃⟩ := ih (id, m)
            refine ⟨Or.inr ?_, hlt.le.trans h₂, List.forall_mem_cons.2 ⟨fun m' hm' => ?_, h₃⟩⟩
            · rcases h₁ with h₁ | ⟨hid, h, hlt'⟩
              · rw [h₁]
                exact ⟨by simp, hm, hlt⟩
              · exact ⟨by simp [hid], h, hlt.trans hlt'⟩
            · rw [hm, Option.some.injEq] at hm'
              exact hm' ▸ h₂
          · simp only [hlt, if_false]
            obtain ⟨h₁, h₂, h₃⟩ := ih r₀
            refine ⟨h₁.imp_right fun ⟨hid, h⟩ => ⟨by simp [hid], h⟩, h₂,
              List.forall_mem_cons.2 ⟨fun m' hm' => ?_, h₃⟩⟩
            rw [hm, Option.some.injEq] at hm'
            omega

/-- The leader has the largest number of the table, which is above the coordinator's; without a
leader no number is above the coordinator's. -/
theorem getRecoveryLeader_spec {ids : List Nat} (h0 : 0 ∉ ids) :
    let r := getRecoveryLeader c ids
    (r.1 = 0 ∧ ∀ id ∈ ids, ∀ m, (c.p id).maxTxid = some m → m ≤ c.TXID - 1) ∨
      (r.1 ≠ 0 ∧ r.1 ∈ ids ∧ (c.p r.1).maxTxid = some r.2 ∧ c.TXID - 1 < r.2 ∧
        ∀ id ∈ ids, ∀ m, (c.p id).maxTxid = some m → m ≤ r.2) := by
  intro r
  obtain ⟨h₁, -, h₃⟩ := leader_fold (c := c) ids (0, c.TXID - 1)
  rcases h₁ with h₁ | ⟨hid, hm, hlt⟩
  · left
    have hr : r = (0, c.TXID - 1) := h₁
    refine ⟨by rw [hr], fun id hid m hm => ?_⟩
    have := h₃ id hid m hm
    rwa [h₁] at this
  · exact Or.inr ⟨fun h => h0 (h ▸ hid), hid, hm, hlt, h₃⟩

end Leader

end CloudLabs.KvStore
