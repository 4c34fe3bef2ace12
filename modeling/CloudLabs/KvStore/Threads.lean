import CloudLabs.Foundation.CpLock
import CloudLabs.Foundation.Pool
import CloudLabs.KvStore.System

/-!
# The threads of the coordinator

The threads that `Launch` starts, with one atomic operation for each access to what they share: the
working thread and the recovery thread, and for each participant the threads `keepAlive`, `pWorking`
and `pRecovery`. `Act.Step` says what an operation does to the counters of the semaphores, the two
mutexes, the coordinator's memory and the connections. A thread that fails an assertion or throws
stops at `crash`.

What a connection does is a parameter, `Link`; the thread `outside` stands for the participants and
the network. `Book` and `Reading` record what a worker thread was asked, what it has written and
what was read of that. No thread reads them.
-/

set_option autoImplicit false

namespace CloudLabs.KvStore.Threads

open CloudLabs.Foundation
open Function (update)

/-! ## Operations -/

inductive Mutex where
  | recoveryMutex
  | workingMutex
  deriving DecidableEq

/-- `_workThread` and `_recoveryThread`, and for each participant `_talive`, `_tworking` and
`_trecovery`. -/
inductive Thread where
  | work
  | recovery
  | keepAlive (id : Nat)
  | worker (ch : Chan) (id : Nat)
  | outside
  deriving DecidableEq

/-- The atomic operations: those of the issuing threads, and the ones of `exclusiveLock`, of
`Network` and of the worker threads. `awaitTmp` is the loop that waits for `_tmpNum`. -/
inductive Act where
  | mem (o : Op)
  | lock (m : Mutex)
  | unlock (m : Mutex)
  | awaitTmp
  | recvCommand
  | sendResult (rc : Bytes)
  | reconnect (id : Nat)
  | send (ch : Chan) (id : Nat) (smsg : Bytes)
  | recv (ch : Chan) (id : Nat)
  | close (ch : Chan) (id : Nat)
  | setRet (ch : Chan) (id : Nat) (rc : Int)
  | setData (ch : Chan) (id : Nat) (rmsg : Bytes)
  | move
  | crash

/-- What an operation gives. -/
abbrev Act.Res : Act → Type
  | .mem o => o.Res
  | .recvCommand => List Bytes
  | .send _ _ _ => Int
  | .recv _ _ => Int × Bytes
  | .crash => Empty
  | _ => Unit

/-- A program of a thread. -/
abbrev Routine := Prog Act Act.Res

/-- A program of an issuing thread, as part of one of its rounds. -/
def call {α : Type} : Proc α → Routine α
  | .ret a => .ret a
  | .op o k => .op (.mem o) fun r => call (k r)
  | .abort => .op .crash Empty.elim

def act (a : Act) : Routine a.Res := Prog.perform a

/-- The value of an expression that may throw. -/
def orCrash {α : Type} : Option α → Routine α
  | some a => pure a
  | none => .op .crash Empty.elim

/-! ## Updates of the memory -/

/-- `_pstate[id] = st`. -/
def setPState (id : Nat) (st : PState) (c : Coordinator) : Coordinator :=
  { c with p := update c.p id ((c.p id).setState st) }

/-- `maxTxidTB[id]`, which makes an entry `0` where there is none. -/
def touchMaxTxid (id : Nat) (c : Coordinator) : Coordinator :=
  { c with p := update c.p id { c.p id with maxTxid := some ((c.p id).maxTxid.getD 0) } }

/-- `maxTxidTB[id] += 1`. -/
def incMaxTxid (id : Nat) (c : Coordinator) : Coordinator :=
  { c with p := update c.p id { c.p id with maxTxid := some ((c.p id).maxTxid.getD 0 + 1) } }

/-- `maxTxidTB.erase(id)`. -/
def eraseMaxTxid (id : Nat) (c : Coordinator) : Coordinator :=
  { c with p := update c.p id { c.p id with maxTxid := none } }

def setCState (st : CState) (c : Coordinator) : Coordinator := { c with cstate := st }

def setTmpNum (n : Nat) (c : Coordinator) : Coordinator := { c with tmpNum := n }

def incTmpNum (c : Coordinator) : Coordinator := { c with tmpNum := c.tmpNum + 1 }

/-! ## The threads of a participant -/

/-- One round of `Coordinator::keepAlive`. -/
def keepAlive (id : Nat) : Routine Unit := do
  let c ← call readMem
  if (c.p id).pstate ≠ .P_WAITING then
    pure ()
  else
    act (.reconnect id)
    act (.lock .recoveryMutex)
    call (updateMem (setPState id .P_TEMP))
    call (updateMem incTmpNum)
    act (.unlock .recoveryMutex)

/-- `Network::sendAndRecv`, with what is in `rmsg` when it returns. -/
def sendAndRecv (ch : Chan) (id : Nat) (smsg : Bytes) : Routine (Int × Bytes) := do
  let rc ← act (.send ch id smsg)
  if rc ≠ KV_OK then pure (rc, []) else act (.recv ch id)

/-- The part of `pWorking` between its two locks. -/
def serveWorking (id : Nat) : Routine Unit := do
  let c ← call readMem
  if (c.p id).pstate ≠ .P_WORKING then
    act (.setRet .working id RET_SKIP)
  else
    let c ← call readMem
    let r ← sendAndRecv .working id ((c.p id).buf .working).task
    act (.setRet .working id r.1)
    act (.setData .working id r.2)
    if r.1 ≠ KV_OK then
      act (.close .working id)
      call (updateMem (setPState id .P_WAITING))

/-- One round of `Coordinator::pWorking`. -/
def pWorking (id : Nat) : Routine Unit := do
  call (cGet ⟨.working, .task, id⟩)
  call (pGet ⟨.working, .ret, id⟩)
  serveWorking id
  call (cRelease ⟨.working, .task, id⟩)
  call (pRelease ⟨.working, .ret, id⟩)

/-- The part of `pRecovery` behind its checks. -/
def exchange (id : Nat) : Routine Unit := do
  let c ← call readMem
  let r ← sendAndRecv .recovery id ((c.p id).buf .recovery).task
  act (.setRet .recovery id r.1)
  act (.setData .recovery id r.2)
  if r.1 ≠ KV_OK then
    act (.close .recovery id)
    call (updateMem (setPState id .P_WAITING))
    call (updateMem (eraseMaxTxid id))
  else if r.2 ≠ getErrorMessage then
    call (updateMem (incMaxTxid id))

/-- The part of `pRecovery` between its two locks. -/
def serveRecovery (id : Nat) : Routine Unit := do
  let c ← call readMem
  if (c.p id).pstate ≠ .P_RECOVERY then
    act (.setRet .recovery id RET_SKIP)
  else
    let c ← call readMem
    let l ← orCrash (strToLog ((c.p id).buf .recovery).task)
    if TXID_START ≤ l.ID then
      call (updateMem (touchMaxTxid id))
      let c ← call readMem
      if l.ID ≠ (c.p id).maxTxid.getD 0 + 1 then
        act (.setRet .recovery id RET_SKIP)
      else
        exchange id
    else
      exchange id

/-- One round of `Coordinator::pRecovery`. -/
def pRecovery (id : Nat) : Routine Unit := do
  call (cGet ⟨.recovery, .task, id⟩)
  call (pGet ⟨.recovery, .ret, id⟩)
  serveRecovery id
  call (pRelease ⟨.recovery, .ret, id⟩)
  call (cRelease ⟨.recovery, .task, id⟩)

/-! ## The issuing threads -/

/-- One round of the working thread, `Coordinator::Working`. -/
def Working (pnum : Nat) : Routine Unit := do
  let task ← act .recvCommand
  if task = [] then
    act (.sendResult getErrorMessage)
  else
    let c ← call readMem
    if c.cstate ≠ .C_WORKING then
      act (.sendResult getErrorMessage)
    else
      act (.lock .workingMutex)
      let rc ← call (KvStore.Working pnum task)
      act (.unlock .workingMutex)
      act (.sendResult rc)

/-- The loop of `Recovery` over `_pstate`. -/
def putRecovery : List Nat → Routine Unit
  | [] => pure ()
  | id :: ids => do
      let c ← call readMem
      if (c.p id).pstate = .P_TEMP then
        call (updateMem (setPState id .P_RECOVERY))
      else
        let c ← call readMem
        if (c.p id).pstate = .P_WORKING then
          call (updateMem (setPState id .P_RECOVERY))
      putRecovery ids

/-- The loop of `Coordinator::recoveryFromP` at `next`, with a bound on its number of rounds. -/
def recoveryFromP (pnum : Nat) : Nat → Nat → Routine Unit
  | 0, _ => Prog.abort
  | rounds + 1, minID => do
      let c ← call readMem
      let r := getRecoveryLeader c (pids pnum)
      if r.1 = 0 then
        call (recoveryFromC pnum)
      else
        call (updateMem (setPState r.1 .P_WORKING))
        call (updateMem (eraseMaxTxid r.1))
        let minID ← call (pull pnum r.1 (r.2 + 1 - minID) minID)
        recoveryFromP pnum rounds minID

/-- The last loop of `Recovery`, over `maxTxidTB`. -/
def promote : List Nat → Routine Unit
  | [] => pure ()
  | id :: ids => do
      let c ← call readMem
      if (c.p id).maxTxid = some (c.TXID - 1) then
        call (updateMem (setPState id .P_WORKING))
      promote ids

/-- The part of `Recovery` under its two mutexes. -/
def recover (pnum minID : Nat) : Routine Unit := do
  putRecovery (pids pnum)
  call (postTasks .recovery (Log.logToStr ⟨RECOVERY_TXID, LogState.LOG_PRE, []⟩) (pids pnum))
  let consistance ← call (collectTxids (pids pnum) true)
  if consistance = false then
    let c ← call readMem
    recoveryFromP pnum (pnum + 1) (minTxid c (pids pnum) minID + 1)
  promote (pids pnum)
  call (updateMem (setTmpNum 0))

/-- One round of the recovery thread, `Coordinator::Recovery`. -/
def Recovery (pnum : Nat) : Routine Unit := do
  let c ← call readMem
  call (updateMem clearMaxTxid)
  act .awaitTmp
  call (updateMem (setCState .C_RECOVERY))
  act (.lock .recoveryMutex)
  act (.lock .workingMutex)
  recover pnum (c.TXID - 1)
  act (.unlock .workingMutex)
  act (.unlock .recoveryMutex)
  call (updateMem (setCState .C_WORKING))

/-- The threads of `Coordinator::Launch`. -/
def Launch (pnum : Nat) : Thread → Routine Unit
  | .work => Working pnum
  | .recovery => Recovery pnum
  | .keepAlive id => if id ∈ pids pnum then keepAlive id else pure ()
  | .worker .working id => if id ∈ pids pnum then pWorking id else pure ()
  | .worker .recovery id => if id ∈ pids pnum then pRecovery id else pure ()
  | .outside => act .move

/-! ## What they share -/

/-- A participant with its connection: what `Network` does at the coordinator's end, with the return
code and the text of a call, and what happens by itself. -/
structure Link (ν : Type) where
  reconnect : ν → ν → Prop
  send : Bytes → ν → Int → ν → Prop
  recv : ν → Int → Bytes → ν → Prop
  close : ν → ν → Prop
  move : ν → ν → Prop

/-- What a worker thread has written in one round: the code and the data. -/
structure Answer where
  code : Option Int
  data : Option Bytes

/-- A task, the thread that has handed it over, and the connection at that time. -/
structure Posting (ν : Type) where
  poster : Thread
  task : Bytes
  net : ν

/-- The history of a worker thread: the tasks it was asked, whether an issuing thread waits for its
reply, whether it is in a round, what it has written in that round, whether it uses the connection,
and what it has written in the rounds before. -/
structure Book (ν : Type) where
  asked : List (Posting ν)
  waiting : Bool
  inRound : Bool
  draft : Answer
  busy : Bool
  answers : List Answer

def Book.blank {ν : Type} : Book ν := ⟨[], false, false, ⟨none, none⟩, false, []⟩

/-- A code or a text that an issuing thread has read, with the number of the task it belongs to. -/
structure Reading where
  reader : Thread
  ch : Chan
  id : Nat
  request : Nat
  value : Int ⊕ Bytes

/-- The counter of a `cpLock` that an operation uses. -/
def semOf : Part → Sem
  | .empty => .empty
  | .full => .full
  | .mutex => .mutex

/-- The state of all threads. -/
structure Shared (ν : Type) where
  c : Coordinator
  lock : Lock → CpLock
  owner : Mutex → Option Thread
  net : Nat → ν
  book : Chan → Nat → Book ν
  readings : List Reading

namespace Book

variable {ν : Type}

/-- A worker that gets a task begins a round; an issuing thread that gets a reply waits no more. -/
def waited (b : Book ν) : Side → Part → Book ν
  | .task, .full => { b with inRound := true, draft := ⟨none, none⟩ }
  | .ret, .full => { b with waiting := false }
  | _, _ => b

/-- An issuing thread that has posted a task waits for the reply; a worker that has posted its reply
is at the end of its round. -/
def posted (b : Book ν) (r : Posting ν) : Side → Part → Book ν
  | .task, .full => { b with asked := b.asked ++ [r], waiting := true }
  | .ret, .full => { b with inRound := false, answers := b.answers ++ [b.draft] }
  | _, _ => b

def setRet (b : Book ν) (rc : Int) : Book ν := { b with draft := { b.draft with code := some rc } }

def setData (b : Book ν) (rmsg : Bytes) : Book ν :=
  { b with draft := { b.draft with data := some rmsg } }

def setBusy (b : Book ν) (busy : Bool) : Book ν := { b with busy := busy }

end Book

namespace Shared

variable {ν : Type}

/-- The history of one worker thread goes on. -/
def note (s : Shared ν) (ch : Chan) (id : Nat) (b : Book ν) : Shared ν :=
  { s with book := update s.book ch (update (s.book ch) id b) }

def setNet (s : Shared ν) (id : Nat) (n : ν) : Shared ν := { s with net := update s.net id n }

def setEntry (s : Shared ν) (id : Nat) (e : Entry) : Shared ν :=
  { s with c := { s.c with p := update s.c.p id e } }

/-- `sem_wait`, for a counter that is not zero. -/
def wait (s : Shared ν) (l : Lock) (sem : Part) : Shared ν :=
  { s.note l.ch l.id ((s.book l.ch l.id).waited l.side sem) with
    lock := update s.lock l ((s.lock l).wait (semOf sem)) }

/-- `sem_post` by the thread `t`. -/
def post (s : Shared ν) (t : Thread) (l : Lock) (sem : Part) : Shared ν :=
  let r : Posting ν := ⟨t, ((s.c.p l.id).buf l.ch).task, s.net l.id⟩
  { s.note l.ch l.id ((s.book l.ch l.id).posted r l.side sem) with
    lock := update s.lock l ((s.lock l).post (semOf sem)) }

/-- A reply that was read belongs to the last task. -/
def read (s : Shared ν) (t : Thread) (ch : Chan) (id : Nat) (value : Int ⊕ Bytes) : Shared ν :=
  { s with readings := s.readings ++ [⟨t, ch, id, (s.book ch id).asked.length, value⟩] }

/-- The state in which the threads are started. -/
def Init (pnum : Nat) (net : Nat → ν) : Shared ν where
  c := Coordinator.Init pnum
  lock := fun _ => CpLock.init 1
  owner := fun _ => none
  net := net
  book := fun _ _ => Book.blank
  readings := []

end Shared

section Steps

variable {ν : Type} (N : Link ν)

/-- An operation on the locks and the memory by the thread `t`. -/
def memStep (t : Thread) : (o : Op) → Shared ν → o.Res → Shared ν → Prop
  | .wait l sem, s, _, s' => 0 < (s.lock l).count (semOf sem) ∧ s' = s.wait l sem
  | .post l sem, s, _, s' => s' = s.post t l sem
  | .setTask ch id task, s, _, s' => s' = s.setEntry id ((s.c.p id).setTask ch task)
  | .readRet ch id, s, r, s' => r = ((s.c.p id).buf ch).ret ∧ s' = s.read t ch id (.inl r)
  | .readData ch id, s, r, s' => r = ((s.c.p id).buf ch).dataRet ∧ s' = s.read t ch id (.inr r)
  | .readMem, s, r, s' => r = s.c ∧ s' = s
  | .updateMem f, s, _, s' => s' = { s with c := f s.c }

/-- An operation of the thread `t`. -/
def Act.Step (t : Thread) : (a : Act) → Shared ν → a.Res → Shared ν → Prop
  | .mem o, s, r, s' => memStep t o s r s'
  | .lock m, s, _, s' => s.owner m = none ∧ s' = { s with owner := update s.owner m (some t) }
  | .unlock m, s, _, s' => s' = { s with owner := update s.owner m none }
  | .awaitTmp, s, _, s' => s.c.tmpNum ≠ 0 ∧ s' = s
  | .recvCommand, s, _, s' => s' = s
  | .sendResult _, s, _, s' => s' = s
  | .reconnect id, s, _, s' => ∃ n, N.reconnect (s.net id) n ∧ s' = s.setNet id n
  | .send ch id smsg, s, rc, s' => ∃ n, N.send smsg (s.net id) rc n ∧
      s' = (s.setNet id n).note ch id ((s.book ch id).setBusy true)
  | .recv ch id, s, r, s' => ∃ n, N.recv (s.net id) r.1 r.2 n ∧
      s' = (s.setNet id n).note ch id ((s.book ch id).setBusy (r.1 ≠ KV_OK))
  | .close ch id, s, _, s' => ∃ n, N.close (s.net id) n ∧
      s' = (s.setNet id n).note ch id ((s.book ch id).setBusy false)
  | .setRet ch id rc, s, _, s' =>
      s' = (s.setEntry id ((s.c.p id).setRet ch rc)).note ch id ((s.book ch id).setRet rc)
  | .setData ch id rmsg, s, _, s' =>
      s' = (s.setEntry id ((s.c.p id).setReply ch ((s.c.p id).buf ch).ret rmsg)).note ch id
        ((s.book ch id).setData rmsg)
  | .move, s, _, s' => ∃ id n, N.move (s.net id) n ∧ s' = s.setNet id n
  | .crash, _, r, _ => r.elim

/-- The states of all interleavings of the threads. -/
def Reached (pnum : Nat) (net : Nat → ν) : Pool Thread Act Act.Res (Shared ν) → Prop :=
  Pool.Reached (Launch pnum) (Act.Step N) (Shared.Init pnum net)

end Steps

end CloudLabs.KvStore.Threads
