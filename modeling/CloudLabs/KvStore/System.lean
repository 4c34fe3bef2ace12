import CloudLabs.KvStore.Coordinator
import CloudLabs.KvStore.ParticipantLog

/-!
# The system

The coordinator, its participants and one connection to each of them. `sendAndRecv` is one request
over a connection; a `Choice` says how far the request and its reply come. `pWorking` and
`pRecovery` are one round of the worker threads. A worker shares nothing with the other
participants' workers, and the thread that posted its task touches nothing the worker uses before
it waits for the reply, so the round is one step, taken when the task is posted.

`Env` holds the steps that are taken at any time: a connection breaks, a participant restarts or
finishes a task it had read, `keepAlive` connects, and the recovery thread prepares its next run.
`Config.Step` is a step of the whole system.

`Sys.hist` records the requests that were sent during the current call. No step reads it.
-/

set_option autoImplicit false

namespace CloudLabs.KvStore

open CloudLabs.Foundation

/-- A return code of `sendAndRecv` that is no success. -/
abbrev NetError := { code : Int // code ≠ KV_OK }

def NetError.network : NetError := ⟨KV_NETWORK, by decide⟩

/-- What becomes of one request on a connection that is up: it is answered; the connection fails
before the participant reads it; the participant carries it out and the reply is not read; or the
participant has read it and carries it out later. The text is what `rmsg` holds after a failure. -/
inductive Choice where
  | answer
  | lost (code : NetError) (rmsg : Bytes)
  | unanswered (code : NetError) (rmsg : Bytes)
  | late (code : NetError) (rmsg : Bytes)

/-- One participant process and its connection: its memory, the task it has read and not carried out
on a connection that is gone, whether the connection is up, and whether the process has kept its
memory since it connected. -/
structure Node where
  part : Participant
  pending : Option Bytes
  alive : Bool
  kept : Bool

/-- The result of one request: the code and `rmsg`, whether the participant has read the task, and
the participant's side afterwards. -/
structure Outcome where
  ret : Int
  rmsg : Bytes
  delivered : Bool
  node : Node

/-- `Network::sendAndRecv` against `Participant::Working`. A participant that fails in `pWorker`
keeps the task for ever. -/
def sendAndRecv (x : Choice) (n : Node) (task : Bytes) : Outcome :=
  if n.alive then
    match x with
    | .answer =>
        match n.part.pWorker task with
        -- `none`: an assertion of the participant has failed
        | some (rmsg, part) => ⟨KV_OK, rmsg, true, { n with part := part }⟩
        | none => ⟨KV_NETWORK, [], true, { n with pending := some task }⟩
    | .lost code rmsg => ⟨code, rmsg, false, n⟩
    | .unanswered code rmsg =>
        match n.part.pWorker task with
        | some (_, part) => ⟨code, rmsg, true, { n with part := part }⟩
        | none => ⟨code, rmsg, true, { n with pending := some task }⟩
    | .late code rmsg => ⟨code, rmsg, true, { n with pending := some task }⟩
  else
    -- the connection is broken, so that nothing is sent
    match x with
    | .answer => ⟨KV_NETWORK, [], false, n⟩
    | .lost code rmsg => ⟨code, rmsg, false, n⟩
    | .unanswered code rmsg => ⟨code, rmsg, false, n⟩
    | .late code rmsg => ⟨code, rmsg, false, n⟩

/-- A request that was sent. -/
structure Exch where
  ch : Chan
  id : Nat
  task : Bytes
  out : Outcome
  before : Participant

/-- The result of a worker's round: the coordinator's and the participant's side, what was sent, and
whether an assertion failed. -/
structure Round where
  entry : Entry
  node : Node
  sent : List Exch
  failed : Bool

/-- `_pworkingRet[id] = ret`, or `_precoveryRet[id] = ret`. -/
def Entry.setRet (e : Entry) (ch : Chan) (ret : Int) : Entry :=
  { e with buf := Function.update e.buf ch { e.buf ch with ret := ret } }

/-- The code and the data of a reply. -/
def Entry.setReply (e : Entry) (ch : Chan) (ret : Int) (data : Bytes) : Entry :=
  { e with buf := Function.update e.buf ch { e.buf ch with ret := ret, dataRet := data } }

/-- `_ptask[id] = task`, or `_pRtask[id] = task`. -/
def Entry.setTask (e : Entry) (ch : Chan) (task : Bytes) : Entry :=
  { e with buf := Function.update e.buf ch { e.buf ch with task := task } }

/-- `Network::close` of a connection. -/
def Node.close (n : Node) : Node := { n with alive := false }

/-- One round of `Coordinator::pWorking`. -/
def pWorking (x : Choice) (id : Nat) (e : Entry) (n : Node) : Round :=
  if e.pstate ≠ .P_WORKING then ⟨e.setRet .working RET_SKIP, n, [], false⟩
  else
    let task := (e.buf .working).task
    let o := sendAndRecv x n task
    let sent : List Exch := [⟨.working, id, task, o, n.part⟩]
    let e := e.setReply .working o.ret o.rmsg
    -- the connection is given up; `keepAlive` makes a new one
    if o.ret ≠ KV_OK then ⟨e.setState .P_WAITING, o.node.close, sent, false⟩
    else ⟨e, o.node, sent, false⟩

/-- One round of `Coordinator::pRecovery`; reading `maxTxidTB[id]` makes an entry `0` where there is
none. -/
def pRecovery (x : Choice) (id : Nat) (e : Entry) (n : Node) : Round :=
  if e.pstate ≠ .P_RECOVERY then ⟨e.setRet .recovery RET_SKIP, n, [], false⟩
  else
    let task := (e.buf .recovery).task
    match strToLog task with
    | none => ⟨e, n, [], true⟩
    | some l =>
        -- a record is for this participant only if it is the next one for it
        let e := if TXID_START ≤ l.ID then { e with maxTxid := some (e.maxTxid.getD 0) } else e
        if TXID_START ≤ l.ID ∧ l.ID ≠ e.maxTxid.getD 0 + 1 then
          ⟨e.setRet .recovery RET_SKIP, n, [], false⟩
        else
          let o := sendAndRecv x n task
          let sent : List Exch := [⟨.recovery, id, task, o, n.part⟩]
          let e := e.setReply .recovery o.ret o.rmsg
          if o.ret ≠ KV_OK then
            ⟨{ e with pstate := .P_WAITING, maxTxid := none }, o.node.close, sent, false⟩
          -- counted up after every task that was not refused, whatever it asked for
          else if o.rmsg ≠ getErrorMessage then
            ⟨{ e with maxTxid := some (e.maxTxid.getD 0 + 1) }, o.node, sent, false⟩
          else ⟨e, o.node, sent, false⟩

/-- One round of a worker thread. -/
def workerRound : Chan → Choice → Nat → Entry → Node → Round
  | .working => pWorking
  | .recovery => pRecovery

/-- Where the recovery thread is: outside `Recovery`, waiting there for a connection with `minID`
computed, waiting for the mutexes with the coordinator in the recovery state, holding them, or past
them. -/
inductive RecoveryPc where
  | idle
  | entered (minID : Nat)
  | begun (minID : Nat)
  | running
  | released

/-- A state of the system. -/
structure Sys where
  c : Coordinator
  node : Nat → Node
  hist : List Exch
  aborted : Bool
  rpc : RecoveryPc

/-- The round of a worker for participant `id` in the state of the system. -/
def Sys.work (s : Sys) (id : Nat) (r : Round) : Sys :=
  { s with
    c := { s.c with p := Function.update s.c.p id r.entry }
    node := Function.update s.node id r.node
    hist := s.hist ++ r.sent
    aborted := s.aborted || r.failed }

/-- What may go wrong: the outcomes of the requests to a participant, whether its connection may
break between requests, and the memories it may restart with. -/
structure Faults where
  choice : Nat → Choice → Prop
  drop : Nat → Prop
  fresh : Nat → Participant → Prop

section Steps

variable (F : Faults)

/-- One atomic operation of an issuing thread. -/
def Sys.Step : (o : Op) → Sys → o.Res → Sys → Prop
  | .wait _ _, s, _, s' => s' = s
  | .post ⟨ch, .task, id⟩ .full, s, _, s' =>
      ∃ x, F.choice id x ∧ s' = s.work id (workerRound ch x id (s.c.p id) (s.node id))
  | .post _ _, s, _, s' => s' = s
  | .setTask ch id task, s, _, s' =>
      s' = { s with c := { s.c with p := Function.update s.c.p id ((s.c.p id).setTask ch task) } }
  | .readRet ch id, s, r, s' => r = ((s.c.p id).buf ch).ret ∧ s' = s
  | .readData ch id, s, r, s' => r = ((s.c.p id).buf ch).dataRet ∧ s' = s
  | .readMem, s, r, s' => r = s.c ∧ s' = s
  | .updateMem f, s, _, s' => s' = { s with c := f s.c }

/-- A step of one participant, or of its connection. -/
inductive NodeStep (id : Nat) : Node → Node → Prop
  | drop {n : Node} : F.drop id → NodeStep id n { n with alive := false }
  | restart {n : Node} {q : Participant} : F.fresh id q →
      NodeStep id n ⟨q, none, false, false⟩
  | finish {n : Node} {task : Bytes} {r : Bytes × Participant} : n.pending = some task →
      n.part.pWorker task = some r → NodeStep id n { n with part := r.2, pending := none }

/-- `keepAlive` has connected: the participant waits for the next recovery run. -/
def Sys.connect (s : Sys) (id : Nat) : Sys :=
  { s with
    c := { s.c with
      p := Function.update s.c.p id ((s.c.p id).setState .P_TEMP), tmpNum := s.c.tmpNum + 1 }
    node := Function.update s.node id { s.node id with alive := true, kept := true } }

/-- `maxTxidTB.clear()`. -/
def clearMaxTxid (c : Coordinator) : Coordinator :=
  { c with p := fun id => { c.p id with maxTxid := none } }

/-- A step of the surroundings of a call. -/
inductive Env : Sys → Sys → Prop
  | node {s : Sys} {id : Nat} {n : Node} : NodeStep F id (s.node id) n →
      Env s { s with node := Function.update s.node id n }
  | connect {s : Sys} {id : Nat} : s.rpc ≠ .running → (s.c.p id).pstate = .P_WAITING →
      (s.node id).pending = none → Env s (s.connect id)
  | enter {s : Sys} : s.rpc = .idle →
      Env s { s with c := clearMaxTxid s.c, rpc := .entered (s.c.TXID - 1) }
  | begin {s : Sys} {m : Nat} : s.rpc = .entered m → s.c.tmpNum ≠ 0 →
      Env s { s with c := { s.c with cstate := .C_RECOVERY }, rpc := .begun m }
  | done {s : Sys} : s.rpc = .released →
      Env s { s with c := { s.c with cstate := .C_WORKING }, rpc := .idle }

end Steps

/-! ## Calls -/

/-- The call that holds `_workingMutex`: none, a client's command with the transaction number it
started at, or a recovery run. -/
inductive Call where
  | idle
  | work (task : List Bytes) (txid : Nat) (prog : Proc Bytes)
  | recover (prog : Proc Unit)

/-- The system with the command the working thread has accepted and the call in progress. -/
structure Config where
  sys : Sys
  admitted : Option (List Bytes)
  call : Call

/-- The steps of the system that a client or a reader of its history tells apart. -/
inductive Label where
  | internal
  | accept (task : List Bytes)
  | refuse (task : List Bytes)
  | start (task : List Bytes)
  | reply (task : List Bytes) (txid : Nat) (rc : Bytes)
  | recover
  | recovered
  | restart
  deriving DecidableEq

/-- The working thread is in a call. -/
def Call.isWork : Call → Prop
  | .work _ _ _ => True
  | _ => False

/-- A state before the first call: the participants' memories are given, and nobody is connected. -/
def Sys.Init (pnum : Nat) (part : Nat → Participant) : Sys where
  c := Coordinator.Init pnum
  node := fun id => ⟨part id, none, false, true⟩
  hist := []
  aborted := false
  rpc := .idle

def Config.Init (pnum : Nat) (part : Nat → Participant) : Config :=
  ⟨Sys.Init pnum part, none, .idle⟩

/-- A new coordinator process over the same participants. -/
def Sys.restart (s : Sys) (pnum : Nat) : Sys where
  c := Coordinator.Init pnum
  node := fun id => (s.node id).close
  hist := []
  aborted := false
  rpc := .idle

/-- A step of the system. A command is refused at once if it is empty or if the coordinator is not
in the working state; one that is accepted waits for `_workingMutex`. -/
inductive Config.Step (F : Faults) (pnum : Nat) : Config → Label → Config → Prop
  | env {s s' : Sys} {a : Option (List Bytes)} {k : Call} :
      Env F s s' → Config.Step F pnum ⟨s, a, k⟩ .internal ⟨s', a, k⟩
  | accept {s : Sys} {k : Call} {task : List Bytes} : ¬ k.isWork → task ≠ [] →
      s.c.cstate = .C_WORKING → Config.Step F pnum ⟨s, none, k⟩ (.accept task) ⟨s, some task, k⟩
  | refuse {s : Sys} {k : Call} {task : List Bytes} : ¬ k.isWork →
      (task = [] ∨ s.c.cstate ≠ .C_WORKING) →
      Config.Step F pnum ⟨s, none, k⟩ (.refuse task) ⟨s, none, k⟩
  | start {s : Sys} {task : List Bytes} :
      Config.Step F pnum ⟨s, some task, .idle⟩ (.start task)
        ⟨{ s with hist := [] }, none, .work task s.c.TXID (Working pnum task)⟩
  | work {s s' : Sys} {a : Option (List Bytes)} {task : List Bytes} {txid : Nat} {o : Op}
      {k : o.Res → Proc Bytes} {r : o.Res} : Sys.Step F o s r s' →
      Config.Step F pnum ⟨s, a, .work task txid (.op o k)⟩ .internal ⟨s', a, .work task txid (k r)⟩
  | reply {s : Sys} {a : Option (List Bytes)} {task : List Bytes} {txid : Nat} {rc : Bytes} :
      Config.Step F pnum ⟨s, a, .work task txid (.ret rc)⟩ (.reply task txid rc) ⟨s, a, .idle⟩
  | recover {s : Sys} {a : Option (List Bytes)} {m : Nat} : s.rpc = .begun m →
      Config.Step F pnum ⟨s, a, .idle⟩ .recover
        ⟨{ s with hist := [], rpc := .running }, a, .recover (Recovery pnum m)⟩
  | recovery {s s' : Sys} {a : Option (List Bytes)} {o : Op} {k : o.Res → Proc Unit} {r : o.Res} :
      Sys.Step F o s r s' →
      Config.Step F pnum ⟨s, a, .recover (.op o k)⟩ .internal ⟨s', a, .recover (k r)⟩
  | recovered {s : Sys} {a : Option (List Bytes)} :
      Config.Step F pnum ⟨s, a, .recover (.ret ())⟩ .recovered ⟨{ s with rpc := .released }, a, .idle⟩

/-- A call of the working thread was in progress before the step, or the step has begun it. -/
theorem Config.Step.working {F : Faults} {pnum : Nat} {c c' : Config} {l : Label}
    (hs : Config.Step F pnum c l c') {task : List Bytes} {txid : Nat} {prog : Proc Bytes}
    (hcall : c'.call = .work task txid prog) :
    (∃ prog', c.call = .work task txid prog') ∨
      (l = .start task ∧ c.admitted = some task ∧ c.sys.c.TXID = txid) := by
  cases hs with
  | env _ => exact .inl ⟨prog, hcall⟩
  | accept _ _ _ => exact .inl ⟨prog, hcall⟩
  | refuse _ _ => exact .inl ⟨prog, hcall⟩
  | work _ =>
      cases hcall
      exact .inl ⟨_, rfl⟩
  | start =>
      cases hcall
      exact .inr ⟨rfl, rfl, rfl⟩
  | reply => cases hcall
  | recover _ => cases hcall
  | recovery _ => cases hcall
  | recovered => cases hcall

/-- The coordinator process is restarted. -/
def Config.restart (pnum : Nat) (c : Config) : Config := ⟨c.sys.restart pnum, none, .idle⟩

end CloudLabs.KvStore
