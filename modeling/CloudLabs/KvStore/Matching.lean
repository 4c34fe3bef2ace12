import CloudLabs.KvStore.Reconnect
import CloudLabs.KvStore.Wire

/-!
# Replies and their requests

`Net` is a participant with its connection, which is one stream of bytes in each direction. A close
discards both streams and a reconnect begins with fresh ones; besides, the participant carries out
what it has read, replies, or loses the connection. `Net.contract` is what the coordinator relies
on: on a connection without a request under way, a request that was sent is followed by its own
reply or by none, so that a call of `sendAndRecv` that succeeds returns what `pWorker` gave for its
own task.

The contract holds as long as `send` cuts off no packet (`intactLink`). With it `replies_matched`
says of all interleavings of the threads that each reply is read for the task it was written for,
and `not_replies_matched_long` is a run in which a task was cut off.
-/

set_option autoImplicit false

namespace CloudLabs.KvStore.Threads

open CloudLabs.Foundation
open Function (update)
open Relation (ReflTransGen)

/-! ## A participant and its connection -/

/-- Whether the two ends of the connection are open, the bytes on the way to the participant and to
the coordinator, the reply that the participant is about to send, and its memory. `runs` records the
calls of `pWorker` with the memory before each; no step reads it. -/
structure Net where
  isConnected : Bool
  accepted : Bool
  toP : Bytes
  toC : Bytes
  reply : Option Bytes
  part : Participant
  runs : List (Participant × Bytes)

namespace Net

/-- A participant that was never connected. -/
def start (part : Participant) : Net := ⟨false, false, [], [], none, part, []⟩

/-- What was on the way is gone. -/
def discard (n : Net) : Net := { n with toP := [], toC := [], reply := none }

/-- `Network::reconnect`, when the participant has accepted. -/
def reconnect (n : Net) : Net := { n.discard with isConnected := true, accepted := true }

/-- `Network::close` at the coordinator's end. -/
def close (n : Net) : Net := { n.discard with isConnected := false, accepted := false }

/-- The half of `sendAndRecv` that sends the request; a call that fails may have sent a part. -/
inductive Send (smsg : Bytes) (n : Net) : Int → Net → Prop
  | sent : n.isConnected = true → Send smsg n KV_OK { n with toP := n.toP ++ wire smsg }
  | failed {rc : Int} {part : Bytes} : rc ≠ KV_OK → part <+: packet smsg →
      (n.isConnected = false → part = []) → Send smsg n rc { n with toP := n.toP ++ part }

/-- The half of `sendAndRecv` that reads the reply. The events `t` are what the reads meet of the
stream; the bytes of `rest` come too late. -/
inductive Recv (n : Net) : Int → Bytes → Net → Prop
  | read {t t' : Incoming} {rest : Bytes} {rc : Int} {rmsg : Bytes} : n.toC = received t ++ rest →
      recvReply [] t = some (rc, rmsg, t') → Recv n rc rmsg { n with toC := received t' ++ rest }

/-- What happens without the coordinator. In `Participant::Working` a task is read and carried out,
and the reply is sent, whole or in part. At any time the participant may lose the connection; what
it does without one, a restart included, only leaves it with another memory. -/
inductive Move (n : Net) : Net → Prop
  | work {heap : Nat → UInt8} {t t' : Incoming} {rest task data : Bytes} {part : Participant} :
      n.accepted = true → n.reply = none → n.toP = received t ++ rest →
      Network.recv heap t = some (KV_OK, task, t') → n.part.pWorker task = some (data, part) →
      Move n { n with
        toP := received t' ++ rest
        reply := some data
        part := part
        runs := n.runs ++ [(n.part, task)] }
  | send {data part : Bytes} : n.reply = some data → part <+: wire data →
      Move n { n with toC := n.toC ++ part, reply := none }
  | lose {part : Participant} :
      Move n { n with accepted := false, toP := [], reply := none, part := part }

/-- A connection of two byte streams on which only messages with the property are sent. -/
def linkOf (P : Bytes → Prop) : Link Net where
  reconnect := fun n n' => n' = n.reconnect
  send := fun smsg n rc n' => P smsg ∧ Send smsg n rc n'
  recv := fun n rc rmsg n' => Recv n rc rmsg n'
  close := fun n n' => n' = n.close
  move := fun n n' => (∀ data, n.reply = some data → P data) ∧ Move n n'

def link : Link Net := linkOf fun _ => True

/-- No call of `send` cuts off a packet. -/
def intactLink : Link Net := linkOf Intact

/-! ## What the coordinator relies on -/

/-- No request is under way. -/
structure Clean (n : Net) : Prop where
  toP : n.toP = []
  toC : n.toC = []
  reply : n.reply = none

/-- Since the state `n₀` the participant has called `pWorker` on the task, and it gave the data. -/
def Ran (n₀ : Net) (task data : Bytes) (n : Net) : Prop :=
  ∃ p p', (p, task) ∈ n.runs.drop n₀.runs.length ∧ Participant.pWorker p task = some (data, p')

/-- A request that was sent since the state `n₀`: the participant has not read it, the connection
has lost it, the participant has carried it out, or it has replied. -/
inductive Sent (n₀ : Net) (task : Bytes) (n : Net) : Prop
  | posted : Intact task → n₀.runs.length ≤ n.runs.length → n.toP = wire task →
      n.toC = [] → n.reply = none → Sent n₀ task n
  | lost : n.toP = [] → n.toC = [] → n.reply = none → Sent n₀ task n
  | done {data : Bytes} : Ran n₀ task data n → n.toP = [] → n.toC = [] → n.reply = some data →
      Sent n₀ task n
  | replied {data : Bytes} : Ran n₀ task data n → Intact data → n.toP = [] →
      n.toC <+: wire data → n.reply = none → Sent n₀ task n

variable {n₀ n n' : Net} {task data : Bytes} {part : Participant}

/-! ## What the steps keep -/

/-- Calls of `pWorker` are only added. -/
theorem runs_grow (h : intactLink.Changes n n') : n.runs <+: n'.runs := by
  rcases h with rfl | ⟨smsg, rc, -, hsend⟩ | ⟨rc, rmsg, hrecv⟩ | rfl | ⟨-, hmove⟩
  · exact List.prefix_rfl
  · cases hsend with
    | sent => exact List.prefix_rfl
    | failed => exact List.prefix_rfl
  · cases hrecv with
    | read => exact List.prefix_rfl
  · exact List.prefix_rfl
  · cases hmove with
    | work => exact List.prefix_append _ _
    | send => exact List.prefix_rfl
    | lose => exact List.prefix_rfl

theorem length_runs_of_since (h : intactLink.Since n₀ n) : n₀.runs.length ≤ n.runs.length := by
  induction h with
  | refl => exact Nat.le_refl _
  | tail _ hchanges ih => exact ih.trans (runs_grow hchanges).length_le

theorem Ran.mono (h : Ran n₀ task data n) (hruns : n.runs <+: n'.runs) : Ran n₀ task data n' := by
  obtain ⟨p, p', hmem, hrun⟩ := h
  exact ⟨p, p', (hruns.drop _).subset hmem, hrun⟩

/-- The last call is one since `n₀`. -/
theorem ran_last {runs : List (Participant × Bytes)} {p : Participant}
    (hlen : n₀.runs.length ≤ runs.length) (hruns : n.runs = runs ++ [(p, task)])
    (hrun : p.pWorker task = some (data, part)) : Ran n₀ task data n := by
  refine ⟨p, part, ?_, hrun⟩
  rw [hruns, List.drop_append_of_le_length hlen]
  exact List.mem_append_right _ List.mem_cons_self

/-- The participant has nothing to read on an empty stream. -/
theorem recv_empty {heap : Nat → UInt8} {t t' : Incoming} {rest : Bytes}
    (hsplit : [] = received t ++ rest) : Network.recv heap t ≠ some (KV_OK, data, t') := by
  intro hrecv
  exact packet_ne_nil data (Network.recv_sound heap framed_nil hsplit.symm hrecv).1.symm

theorem clean_move (h : Move n n') (hn : Clean n) : Clean n' := by
  cases h with
  | work _ _ hsplit hrecv =>
    rw [hn.toP] at hsplit
    exact absurd hrecv (recv_empty hsplit)
  | send hreply =>
    rw [hn.reply] at hreply
    cases hreply
  | lose => exact ⟨rfl, hn.toC, rfl⟩

theorem sent_send (hintact : Intact task) (h : Send task n KV_OK n') (hn : Clean n)
    (hlen : n₀.runs.length ≤ n.runs.length) : Sent n₀ task n' := by
  cases h with
  | sent =>
    refine .posted hintact hlen ?_ hn.toC hn.reply
    rw [hn.toP]
    rfl
  | failed hrc => exact absurd rfl hrc

/-- Whatever happens, only the reply to the request that was sent can come. -/
theorem sent_move (hintact : ∀ data, n.reply = some data → Intact data) (h : Move n n')
    (hn : Sent n₀ task n) : Sent n₀ task n' := by
  cases h with
  | work _ hreply hsplit hrecv hrun =>
    cases hn with
    | posted hshort hlen htoP htoC =>
      rw [htoP] at hsplit
      obtain ⟨hwire, ht', hrest⟩ := Network.recv_sound _ (framed_wire hshort) hsplit.symm hrecv
      -- the stream holds the request and nothing else
      obtain rfl := eq_of_wire_eq hshort hwire
      refine .done (ran_last hlen rfl hrun) ?_ htoC rfl
      rw [ht', hrest]
      rfl
    | lost htoP =>
      rw [htoP] at hsplit
      exact absurd hrecv (recv_empty hsplit)
    | done _ _ _ hdone =>
      rw [hreply] at hdone
      cases hdone
    | replied _ _ htoP =>
      rw [htoP] at hsplit
      exact absurd hrecv (recv_empty hsplit)
  | send hreply hpart =>
    cases hn with
    | posted _ _ _ _ hnone =>
      rw [hnone] at hreply
      cases hreply
    | lost _ _ hnone =>
      rw [hnone] at hreply
      cases hreply
    | done hran htoP htoC hdone =>
      obtain rfl := Option.some.inj (hdone.symm.trans hreply)
      refine .replied (hran.mono List.prefix_rfl) (hintact _ hdone) htoP ?_ rfl
      rw [htoC]
      exact hpart
    | replied _ _ _ _ hnone =>
      rw [hnone] at hreply
      cases hreply
  -- whatever was on the way is gone, and nobody has anything to send
  | lose =>
    cases hn with
    | posted _ _ _ htoC => exact .lost rfl htoC rfl
    | lost _ htoC => exact .lost rfl htoC rfl
    | done _ _ htoC => exact .lost rfl htoC rfl
    | replied hran hshort _ htoC => exact .replied (hran.mono List.prefix_rfl) hshort rfl htoC rfl

/-- A reply that is read is the one to the request, and the connection is clean behind it. -/
theorem sent_recv (h : Recv n KV_OK data n') (hn : Sent n₀ task n) :
    Clean n' ∧ Ran n₀ task data n' := by
  cases h with
  | @read t t' rest _ _ hsplit hrecv =>
    have hempty : n.toC ≠ [] := by
      intro hnil
      rw [hnil] at hsplit
      exact packet_ne_nil data (recvReply_sound framed_nil hsplit.symm hrecv).1.symm
    cases hn with
    | posted _ _ _ htoC => exact absurd htoC hempty
    | lost _ htoC => exact absurd htoC hempty
    | done _ _ htoC => exact absurd htoC hempty
    | @replied reply hran hshort htoP htoC hreply =>
      -- what the participant has not sent comes behind what is late
      obtain ⟨unsent, hunsent⟩ := htoC
      rw [hsplit, List.append_assoc] at hunsent
      obtain ⟨hwire, ht', hrest⟩ := recvReply_sound (framed_wire hshort) hunsent hrecv
      obtain rfl := eq_of_wire_eq hshort hwire
      refine ⟨⟨htoP, ?_, hreply⟩, hran.mono List.prefix_rfl⟩
      rw [ht', (List.append_eq_nil_iff.mp hrest).1]
      rfl

/-- A connection of two byte streams keeps replies and requests together. -/
def contract : Contract intactLink where
  Clean := Clean
  Sent := Sent
  Output := Ran
  reconnect := by
    rintro n n' rfl -
    exact ⟨rfl, rfl, rfl⟩
  close := by
    rintro n n' rfl
    exact ⟨rfl, rfl, rfl⟩
  send := fun hsend hn hsince => sent_send hsend.1 hsend.2 hn (length_runs_of_since hsince)
  recv := sent_recv
  moveClean := fun hmove hn => clean_move hmove.2 hn
  moveSent := fun hmove hn => sent_move hmove.1 hmove.2 hn
  output := fun hchanges hran => hran.mono (runs_grow hchanges)

end Net

/-! ## All interleavings -/

section Readings

variable {ν : Type} {N : Link ν} {pnum : Nat} {s s' : Config ν}

/-- What is read stands for the last task of the worker. -/
theorem readings_of_step {t : Thread} {a : Act} {x x' : Shared ν} {r : a.Res}
    (h : Act.Step N t a x r x') : x'.readings = x.readings ∨ ∃ ch id value,
      x'.readings = x.readings ++ [⟨t, ch, id, (x.book ch id).asked.length, value⟩] := by
  cases a with
  | mem o =>
    cases o with
    | wait l sem =>
      obtain ⟨-, rfl⟩ := h
      exact .inl rfl
    | post l sem =>
      obtain rfl := h
      exact .inl rfl
    | setTask ch id task =>
      obtain rfl := h
      exact .inl rfl
    | readRet ch id =>
      obtain ⟨-, rfl⟩ := h
      exact .inr ⟨ch, id, _, rfl⟩
    | readData ch id =>
      obtain ⟨-, rfl⟩ := h
      exact .inr ⟨ch, id, _, rfl⟩
    | readMem =>
      obtain ⟨-, rfl⟩ := h
      exact .inl rfl
    | updateMem f =>
      obtain rfl := h
      exact .inl rfl
  | lock m =>
    obtain ⟨-, rfl⟩ := h
    exact .inl rfl
  | unlock m =>
    obtain rfl := h
    exact .inl rfl
  | awaitTmp =>
    obtain ⟨-, rfl⟩ := h
    exact .inl rfl
  | recvCommand =>
    obtain rfl := h
    exact .inl rfl
  | sendResult rc =>
    obtain rfl := h
    exact .inl rfl
  | reconnect id =>
    obtain ⟨n, -, rfl⟩ := h
    exact .inl rfl
  | send ch id smsg =>
    obtain ⟨n, -, rfl⟩ := h
    exact .inl rfl
  | recv ch id =>
    obtain ⟨n, -, rfl⟩ := h
    exact .inl rfl
  | close ch id =>
    obtain ⟨n, -, rfl⟩ := h
    exact .inl rfl
  | setRet ch id rc =>
    obtain rfl := h
    exact .inl rfl
  | setData ch id rmsg =>
    obtain rfl := h
    exact .inl rfl
  | move =>
    obtain ⟨id, n, -, rfl⟩ := h
    exact .inl rfl
  | crash => exact r.elim

theorem Next.readings (h : Next N pnum s s') : s'.shared.readings = s.shared.readings ∨
    ∃ r, s'.shared.readings = s.shared.readings ++ [r] ∧
      r.request = (s.shared.book r.ch r.id).asked.length := by
  cases h with
  | op _ hstep =>
    rcases readings_of_step hstep with hsame | ⟨ch, id, value, hnew⟩
    · exact .inl hsame
    · exact .inr ⟨_, hnew, rfl⟩
  | again => exact .inl rfl

end Readings

/-- Each reply is matched to its own request. Whatever an issuing thread has read of a worker is
what the worker has written in its round for the task that this thread had posted, which was the
last one when it was read. A worker in a round is in the one for the last task, and has it in its
buffer. With the code `KV_OK` come the data that `pWorker` has given for the task since it was
posted. The two workers of a participant never use its connection at the same time. -/
theorem replies_matched (pnum : Nat) (parts : Nat → Participant) (s : Config Net)
    (h : Reached Net.intactLink pnum (fun id => Net.start (parts id)) s) :
    (∀ r ∈ s.shared.readings, ∃ q a,
      (s.shared.book r.ch r.id).asked[r.request - 1]? = some q ∧ q.poster = r.reader ∧
      (s.shared.book r.ch r.id).answers[r.request - 1]? = some a ∧ a.Has r.value ∧
      (a.code = some KV_OK → ∃ data, a.data = some data ∧
        Net.Ran q.net q.task data (s.shared.net r.id))) ∧
    (∀ s', Next Net.link pnum s s' → s'.shared.readings = s.shared.readings ∨
      ∃ r, s'.shared.readings = s.shared.readings ++ [r] ∧
        r.request = (s.shared.book r.ch r.id).asked.length) ∧
    (∀ ch id, (s.shared.book ch id).inRound = true →
      (s.shared.book ch id).answers.length + 1 = (s.shared.book ch id).asked.length ∧
      ∃ q, (s.shared.book ch id).asked.getLast? = some q ∧
        q.task = ((s.shared.c.p id).buf ch).task) ∧
    (∀ id, ¬ ((s.shared.book .working id).busy = true ∧
      (s.shared.book .recovery id).busy = true)) := by
  have hclean : ∀ id, Net.contract.Clean (Net.start (parts id)) := fun id => ⟨rfl, rfl, rfl⟩
  have hinv : Inv Net.contract pnum s.shared.view := h.inv hclean
  refine ⟨?_, fun s' hnext => hnext.readings, ?_, ?_⟩
  · intro r hr
    obtain ⟨-, ⟨q, hq, hposter⟩, a, ha, hvalue⟩ := hinv.readings r hr
    exact ⟨q, a, hq, hposter, ha, hvalue, (hinv.fits r.ch r.id).output _ a q ha hq⟩
  · intro ch id hin
    have hin : (s.shared.view.slot ch id).book.inRound = true := hin
    have hok := (hinv.fits ch id).ok
    have hrounds := hok.rounds
    obtain ⟨t, n, hlast⟩ := hok.asked (hok.waiting_of_inRound hin)
    rw [hin, Bool.toNat_true, (hok.task_eq_zero hin).1] at hrounds
    exact ⟨hrounds, _, hlast, rfl⟩
  · rintro id ⟨hworking, hrecovery⟩
    have hst := ((hinv.fits .working id).busy hworking).2
    rw [((hinv.fits .recovery id).busy hrecovery).2] at hst
    cases hst

section Run

variable {ν : Type} {N : Link ν} {pnum : Nat} {net : Nat → ν} {prog : Thread → Routine Unit}
  {x x' : Shared ν} {t : Thread}

/-- The next operation of the thread that was the last. -/
theorem Reached.next {o : Act} {k : o.Res → Routine Unit}
    (h : Reached N pnum net ⟨update prog t (.op o k), x⟩) (r : o.Res)
    (hstep : Act.Step N t o x r x') : Reached N pnum net ⟨update prog t (k r), x'⟩ := by
  have hnext := h.op r x' (Function.update_self ..) hstep
  rwa [Function.update_idem] at hnext

theorem Reached.again (h : Reached N pnum net ⟨update prog t (.ret ()), x⟩) :
    Reached N pnum net ⟨update prog t (Launch pnum t), x⟩ := by
  have hagain : Reached N pnum net ⟨update (update prog t (.ret ())) t (Launch pnum t), x⟩ :=
    ReflTransGen.tail h (.again (Function.update_self ..))
  rwa [Function.update_idem] at hagain

end Run

/-- The question for the last number, and the participant's answer to it. -/
theorem recovery_exchange : let task := Log.logToStr ⟨RECOVERY_TXID, LogState.LOG_PRE, []⟩
    ([] ++ wire task = received ((packet task).map Event.byte) ++ [] ∧
      Network.recv (fun _ => 0) ((packet task).map Event.byte) = some (KV_OK, task, []) ∧
      Participant.Init.pWorker task = some (ascii "4", Participant.Init)) ∧
    [] ++ wire (ascii "4") = received ((packet (ascii "4")).map Event.byte) ++ [] ∧
    recvReply [] ((packet (ascii "4")).map Event.byte) = some (KV_OK, ascii "4", []) := by
  refine ⟨⟨?_, ?_, rfl⟩, ?_, ?_⟩ <;> decide +kernel

/-- The task of a command that reads a key. -/
def readTask (key : Bytes) : Bytes :=
  Log.logToStr ⟨SUPER_TXID, LogState.LOG_COMMIT, getRESPArry [ascii "GET", key]⟩

/-- The reply for a key that is not there. -/
def nilReply : Bytes := getRESPArryOne (ascii "nil")

theorem nil_exchange : [] ++ wire nilReply = received ((packet nilReply).map Event.byte) ++ [] ∧
    recvReply [] ((packet nilReply).map Event.byte) = some (KV_OK, nilReply, []) := by
  constructor <;> decide +kernel

/-- A participant that has connected and gone through the recovery gets the task of a client's
command. It reads what was sent of it, and the working thread gets the reply to that. -/
theorem reached_get {P : Bytes → Prop} (hshort : ∀ msg, (packet msg).length < 2 ^ 32 → P msg)
    {key read : Bytes} {sent : Incoming} (htask : P (readTask key))
    (hsent : [] ++ wire (readTask key) = received sent ++ [])
    (hread : Network.recv (fun _ => 0) sent = some (KV_OK, read, []))
    (hwork : Participant.Init.pWorker read = some (nilReply, Participant.Init)) :
    ∃ s : Config Net, Reached (Net.linkOf P) 1 (fun _ => Net.start Participant.Init) s ∧
      ⟨.work, .working, 1, 1, .inl KV_OK⟩ ∈ s.shared.readings ∧
      (∃ n : Net, n.runs.length = 1 ∧
        (s.shared.book .working 1).asked = [⟨.work, readTask key, n⟩]) ∧
      (s.shared.book .working 1).answers = [⟨some KV_OK, some nilReply⟩] ∧
      ∃ first, (s.shared.net 1).runs = [first, (Participant.Init, read)] := by
  obtain ⟨⟨hquestion, hask, hanswer⟩, hfour, hreturn⟩ := recovery_exchange
  obtain ⟨hnil, hget⟩ := nil_exchange
  have hone : 0 < 1 := Nat.zero_lt_one
  have hsend₁ : ∀ data, some (ascii "4") = some data → P data := by
    rintro data ⟨⟩
    exact hshort _ (by decide)
  have hsend₂ : ∀ data, some nilReply = some data → P data := by
    rintro data ⟨⟩
    exact hshort _ (by decide)
  have h : Reached (Net.linkOf P) 1 (fun _ => Net.start Participant.Init)
      ⟨Launch 1, Shared.Init 1 fun _ => Net.start Participant.Init⟩ := .refl
  -- `keepAlive` connects
  replace h := h.op (t := .keepAlive 1) (o := .mem .readMem) _ _ rfl ⟨rfl, rfl⟩
  replace h := h.next () ⟨_, rfl, rfl⟩
  replace h := h.next () ⟨rfl, rfl⟩
  replace h := h.next () rfl
  replace h := h.next () rfl
  replace h := h.next () rfl
  -- the recovery thread takes the two mutexes and posts its question
  replace h := h.op (t := .recovery) (o := .mem .readMem) _ _ rfl ⟨rfl, rfl⟩
  replace h := h.next () rfl
  replace h := h.next () ⟨by decide, rfl⟩
  replace h := h.next () rfl
  replace h := h.next () ⟨rfl, rfl⟩
  replace h := h.next () ⟨rfl, rfl⟩
  replace h := h.next _ ⟨rfl, rfl⟩
  replace h := h.next () rfl
  replace h := h.next () ⟨hone, rfl⟩
  replace h := h.next () ⟨hone, rfl⟩
  replace h := h.next () rfl
  replace h := h.next () rfl
  replace h := h.next () rfl
  -- `pRecovery` sends it
  replace h := h.op (t := .worker .recovery 1) (o := .mem (.wait ⟨.recovery, .task, 1⟩ .full)) ()
    _ rfl ⟨hone, rfl⟩
  replace h := h.next () ⟨hone, rfl⟩
  replace h := h.next () ⟨hone, rfl⟩
  replace h := h.next () ⟨hone, rfl⟩
  replace h := h.next _ ⟨rfl, rfl⟩
  replace h := h.next _ ⟨rfl, rfl⟩
  replace h := h.next _ ⟨rfl, rfl⟩
  replace h := h.next KV_OK ⟨_, ⟨hshort _ (by decide), .sent rfl⟩, rfl⟩
  -- the participant carries it out and replies
  replace h := h.op (t := .outside) (o := .move) () _ rfl
    ⟨1, _, ⟨nofun, .work rfl rfl hquestion hask hanswer⟩, rfl⟩
  replace h := h.again.next () ⟨1, _, ⟨hsend₁, .send rfl List.prefix_rfl⟩, rfl⟩
  replace h := h.again
  -- `pRecovery` reads the reply and hands it over
  replace h := h.op (t := .worker .recovery 1) (o := .recv .recovery 1) (KV_OK, ascii "4") _ rfl
    ⟨_, .read hfour hreturn, rfl⟩
  replace h := h.next () rfl
  replace h := h.next () rfl
  replace h := h.next () rfl
  replace h := h.next () rfl
  replace h := h.next () rfl
  -- the recovery thread takes it, and the participant goes to work
  replace h := h.op (t := .recovery) (o := .mem (.wait ⟨.recovery, .ret, 1⟩ .full)) () _ rfl
    ⟨hone, rfl⟩
  replace h := h.next () ⟨hone, rfl⟩
  replace h := h.next KV_OK ⟨rfl, rfl⟩
  replace h := h.next (ascii "4") ⟨rfl, rfl⟩
  replace h := h.next () rfl
  replace h := h.next _ ⟨rfl, rfl⟩
  replace h := h.next () rfl
  replace h := h.next () rfl
  replace h := h.next _ ⟨rfl, rfl⟩
  replace h := h.next () rfl
  replace h := h.next () rfl
  replace h := h.next () rfl
  replace h := h.next () rfl
  replace h := h.next () rfl
  -- the working thread gets a command and posts the task
  replace h := h.op (t := .work) (o := .recvCommand) [ascii "GET", key] _ rfl rfl
  replace h := h.next _ ⟨rfl, rfl⟩
  replace h := h.next () ⟨rfl, rfl⟩
  replace h := h.next () ⟨hone, rfl⟩
  replace h := h.next () ⟨hone, rfl⟩
  replace h := h.next () rfl
  replace h := h.next () rfl
  replace h := h.next () rfl
  -- `pWorking` sends it
  replace h := h.op (t := .worker .working 1) (o := .mem (.wait ⟨.working, .task, 1⟩ .full)) ()
    _ rfl ⟨hone, rfl⟩
  replace h := h.next () ⟨hone, rfl⟩
  replace h := h.next () ⟨hone, rfl⟩
  replace h := h.next () ⟨hone, rfl⟩
  replace h := h.next _ ⟨rfl, rfl⟩
  replace h := h.next _ ⟨rfl, rfl⟩
  replace h := h.next KV_OK ⟨_, ⟨htask, .sent rfl⟩, rfl⟩
  -- the participant carries out what it has read
  replace h := h.op (t := .outside) (o := .move) () _ rfl
    ⟨1, _, ⟨nofun, .work rfl rfl hsent hread hwork⟩, rfl⟩
  replace h := h.again.next () ⟨1, _, ⟨hsend₂, .send rfl List.prefix_rfl⟩, rfl⟩
  -- `pWorking` reads the reply and hands it over
  replace h := h.op (t := .worker .working 1) (o := .recv .working 1) (KV_OK, nilReply) _ rfl
    ⟨_, .read hnil hget, rfl⟩
  replace h := h.next () rfl
  replace h := h.next () rfl
  replace h := h.next () rfl
  replace h := h.next () rfl
  replace h := h.next () rfl
  replace h := h.next () rfl
  -- the working thread takes it
  replace h := h.op (t := .work) (o := .mem (.wait ⟨.working, .ret, 1⟩ .full)) () _ rfl
    ⟨hone, rfl⟩
  replace h := h.next () ⟨hone, rfl⟩
  replace h := h.next KV_OK ⟨rfl, rfl⟩
  refine ⟨_, h, List.mem_of_getElem? (i := 2) rfl, ⟨_, rfl, rfl⟩, rfl, _, rfl⟩

/-- A client asks for a key that is not there. -/
theorem replies_matched_one : ∃ s : Config Net,
    Reached Net.intactLink 1 (fun _ => Net.start Participant.Init) s ∧ ∃ q a,
      (s.shared.book .working 1).asked[0]? = some q ∧ q.poster = .work ∧
      (s.shared.book .working 1).answers[0]? = some a ∧ a.Has (.inl KV_OK) ∧
      (a.code = some KV_OK → ∃ data, a.data = some data ∧
        Net.Ran q.net q.task data (s.shared.net 1)) := by
  have htask : Intact (readTask (ascii "k")) := by
    decide +kernel
  have hsent : [] ++ wire (readTask (ascii "k")) =
      received ((packet (readTask (ascii "k"))).map Event.byte) ++ [] := by
    decide +kernel
  have hread : Network.recv (fun _ => 0) ((packet (readTask (ascii "k"))).map Event.byte) =
      some (KV_OK, readTask (ascii "k"), []) := by
    decide +kernel
  obtain ⟨s, h, hreading, -⟩ := reached_get (fun _ => intact_of_lt) htask hsent hread rfl
  exact ⟨s, h, (replies_matched 1 (fun _ => Participant.Init) s h).1
    ⟨.work, .working, 1, 1, .inl KV_OK⟩ hreading⟩

/-! ## A task that is cut off -/

/-- The first bytes of the task of a command that reads a key. -/
def readText : Bytes := ascii "TXID: 0\r\nS: 2\r\n\r\n*2\r\n$3\r\nGET\r\n$"

theorem length_readText : readText.length = 31 := by decide

theorem readText_eq : readText = ascii "TXID: " ++ toDec SUPER_TXID ++ crlf ++ (ascii "S: " ++
    toDec LogState.LOG_COMMIT.code.toNat ++ (crlf ++ crlf ++ ascii "*2\r\n$3\r\nGET\r\n$")) := by
  decide

/-- With this length of the key, the task has `2 ^ 32` bytes behind its first ones. -/
theorem readTask_of_length {key : Bytes} (hkey : key.length = 2 ^ 32 - 6) :
    readTask key = readText ++ (ascii "-6\r\n" ++ (key ++ crlf)) := by
  have hint : intToDec (toInt32 key.length) = ascii "-6" := by
    rw [hkey]
    decide
  have hcount : intToDec (toInt32 ([ascii "GET", key].length : Nat)) = ascii "2" := by
    show intToDec (toInt32 ((2 : Nat) : Int)) = ascii "2"
    decide
  have hwords : ascii "*2\r\n$3\r\nGET\r\n$" = 42 :: (ascii "2" ++ crlf ++
      (getStringMessage (ascii "GET") ++ [36])) := by
    decide
  have hminus : ascii "-6\r\n" = ascii "-6" ++ crlf := by
    decide
  rw [readTask, Log.logToStr, getRESPArry, List.flatMap_cons, List.flatMap_singleton, hcount,
    getStringMessage.eq_def key, hint, readText_eq, hwords, hminus]
  simp only [List.append_assoc, List.cons_append, List.nil_append]

theorem length_readTask {key : Bytes} (hkey : key.length = 2 ^ 32 - 6) :
    (readTask key).length = 2 ^ 32 + 31 := by
  have hnumber : (ascii "-6\r\n").length = 4 := by decide
  have hend : crlf.length = 2 := by decide
  have hfirst := length_readText
  rw [readTask_of_length hkey, List.length_append, List.length_append, List.length_append]
  omega

/-- The header of its packet. -/
def longHeader : Bytes := [126, 31, 0, 0, 0, 1, 0, 0, 0]

/-- Of the packet 40 bytes are sent. -/
theorem wire_readTask {key : Bytes} (hkey : key.length = 2 ^ 32 - 6) :
    wire (readTask key) = longHeader ++ readText := by
  have hlen := length_packet (readTask key)
  rw [length_readTask hkey] at hlen
  have hcut : (toInt32 (packet (readTask key)).length).toNat = 40 := by
    rw [hlen]
    decide
  have hheader : longHeader = 126 :: numtob ((2 ^ 32 + 31) % 2 ^ 64) := by decide
  have hsent : (longHeader ++ readText).length = 40 := by decide
  rw [wire, hcut, packet, length_readTask hkey, ← List.cons_append, ← hheader,
    readTask_of_length hkey, ← List.append_assoc, ← hsent, List.take_left]

/-- What the participant takes for a task of `n` bytes, with zeros in its buffer. -/
def cutTask (n : Nat) : Bytes := bufString (fun _ => 0) readText n

theorem cutTask_eq (n : Nat) : cutTask (n + 31) = readText ++ List.replicate n 0 := by
  rw [cutTask, bufString, length_readText, Nat.add_sub_cancel, List.map_const', List.length_range']

/-- The length of the read is cut off like that of the packet, so that it ends with what was sent. -/
theorem readContent_cutTask {n : Nat} (hn : 31 ≤ n) (hcut : toInt32 n = 31) :
    readContent (fun _ => 0) n (readText.map Event.byte) = some (.ok (cutTask n), []) := by
  have hread : Foundation.recv 31 (readText.map Event.byte) = .got readText [] := by decide
  have hlen : (cutTask n).length = n := by
    obtain ⟨m, rfl⟩ := Nat.exists_eq_add_of_le' hn
    rw [cutTask_eq, List.length_append, List.length_replicate, length_readText, Nat.add_comm]
  have hfull := readContentLoop_full (fun _ => 0) (cutTask n) 31 []
  rw [hlen] at hfull
  have hfuel : (readText.map Event.byte).length + 2 = 32 + 1 := by decide
  have hmore : ([] : Bytes).length ≠ n := by
    rw [List.length_nil]
    omega
  rw [readContent, hfuel, readContentLoop, if_neg hmore]
  simp only [List.length_nil, Nat.sub_zero, hcut, hread, List.nil_append]
  exact hfull

theorem recv_cutTask : Network.recv (fun _ => 0) ((longHeader ++ readText).map Event.byte) =
    some (KV_OK, cutTask (2 ^ 32 + 31), []) := by
  have hheader : frameHeaderLoop (((longHeader ++ readText).map Event.byte).length + 2) []
      ((longHeader ++ readText).map Event.byte) =
      some (.ok longHeader, readText.map Event.byte) := rfl
  have hannounced : btonum longHeader 1 = 2 ^ 32 + 31 := by decide
  refine recv_of_header hheader ?_
  rw [hannounced]
  exact readContent_cutTask (by decide) (by decide)

section Words

variable (rest : Bytes)

theorem comds_get : comds (ascii "*2\r\n$3\r\nGET\r\n$" ++ rest) =
    (parserRESPArryLoop (42 :: 50 :: 13 :: 10 :: (ascii "$3\r\nGET\r\n" ++ 36 :: (rest ++ [0]))) 1 13
      [ascii "GET"]).map Prod.fst := by
  have hnumber : ∀ text, atoi (50 :: 13 :: 10 :: text) = 2 := fun _ => rfl
  have hdigits : (intToDec 2).length = 1 := by decide
  have hget : parseStringMessage (ascii "$3\r\nGET\r\n" ++ 36 :: (rest ++ [0])) =
      some (ascii "GET", 9) := by
    have hword : getStringMessage (ascii "GET") = ascii "$3\r\nGET\r\n" := by decide
    rw [← hword]
    exact parseStringMessage_getStringMessage _ (by decide)
  have htext : ascii "*2\r\n$3\r\nGET\r\n$" =
      42 :: 50 :: 13 :: 10 :: (ascii "$3\r\nGET\r\n" ++ [36]) := by
    decide
  rw [comds, htext]
  simp only [List.cons_append, List.append_assoc, List.nil_append, parserRESPArry, hnumber, hdigits]
  show (parserRESPArryLoop _ (1 + 1) 4 []).map Prod.fst = _
  rw [parserRESPArryLoop]
  simp only [List.drop_succ_cons, List.drop_zero, hget]
  rfl

theorem drop_get (text : Bytes) :
    (42 :: 50 :: 13 :: 10 :: (ascii "$3\r\nGET\r\n" ++ text)).drop 13 = text := rfl

/-- Zeros are the length of an empty string. -/
theorem comds_zeros :
    comds (ascii "*2\r\n$3\r\nGET\r\n$" ++ 0 :: 0 :: 0 :: rest) = some [ascii "GET", []] := by
  have hzero : ∀ text, atoi (0 :: text) = 0 := fun _ => rfl
  have hdigit : (intToDec 0).length = 1 := rfl
  have hempty : parseStringMessage (36 :: 0 :: 0 :: 0 :: (rest ++ [0])) = some ([], 6) := by
    simp only [parseStringMessage, hzero, hdigit]
    simp
  rw [comds_get]
  show (parserRESPArryLoop _ (0 + 1) 13 [ascii "GET"]).map Prod.fst = _
  rw [parserRESPArryLoop, drop_get]
  simp only [List.cons_append, hempty]
  rfl

/-- There is no string of a negative length. -/
theorem comds_minus : comds (ascii "*2\r\n$3\r\nGET\r\n$" ++ (ascii "-6\r\n" ++ rest)) = none := by
  have hminus : atoi (ascii "-6\r\n" ++ (rest ++ [0])) = -6 := rfl
  have hnone : parseStringMessage (36 :: (ascii "-6\r\n" ++ (rest ++ [0]))) = none := by
    simp only [parseStringMessage, hminus]
    rfl
  rw [comds_get]
  show (parserRESPArryLoop _ (0 + 1) 13 [ascii "GET"]).map Prod.fst = _
  rw [parserRESPArryLoop, drop_get]
  simp only [List.append_assoc, hnone]
  rfl

/-- A participant carries out such a text, if it can, like the command in it. -/
theorem pWorker_readText (p : Participant) : p.pWorker (readText ++ rest) =
    (eventParser p.kvdb (ascii "*2\r\n$3\r\nGET\r\n$" ++ rest)).map fun r =>
      (r.1, { p with kvdb := r.2 }) := by
  have hevent : readText ++ rest = Log.logToStr ⟨SUPER_TXID, LogState.LOG_COMMIT,
      ascii "*2\r\n$3\r\nGET\r\n$" ++ rest⟩ := by
    rw [readText_eq, Log.logToStr]
    simp only [List.append_assoc]
  have hID : min longMax SUPER_TXID = SUPER_TXID := by decide
  rw [hevent, Participant.pWorker, strToLog_logToStr]
  simp only [hID, if_true]

end Words

/-- The participant answers what it takes for the task. -/
theorem pWorker_cutTask {n : Nat} (hn : 34 ≤ n) :
    Participant.Init.pWorker (cutTask n) = some (nilReply, Participant.Init) := by
  obtain ⟨m, rfl⟩ := Nat.exists_eq_add_of_le' hn
  rw [show m + 34 = m + 3 + 31 from rfl, cutTask_eq, pWorker_readText, eventParser]
  simp only [List.replicate_succ, comds_zeros, Option.map_some]
  rfl

/-- No participant can carry out the task itself. -/
theorem pWorker_readTask (p : Participant) {key : Bytes} (hkey : key.length = 2 ^ 32 - 6) :
    p.pWorker (readTask key) = none := by
  rw [readTask_of_length hkey, pWorker_readText, eventParser, comds_minus]
  rfl

/-- A client asks for a key of `2 ^ 32 - 6` bytes. The participant reads the first 31 bytes of the
task, takes zeros for the others, and answers that; the working thread gets this answer with the code
`KV_OK`, while no participant can carry out the task. -/
theorem not_replies_matched_long : ∃ s : Config Net,
    Reached Net.link 1 (fun _ => Net.start Participant.Init) s ∧ ∃ r ∈ s.shared.readings,
      (¬ ∃ q a, (s.shared.book r.ch r.id).asked[r.request - 1]? = some q ∧ q.poster = r.reader ∧
        (s.shared.book r.ch r.id).answers[r.request - 1]? = some a ∧ a.Has r.value ∧
        (a.code = some KV_OK → ∃ data, a.data = some data ∧
          Net.Ran q.net q.task data (s.shared.net r.id))) ∧
      ∃ q a, (s.shared.book r.ch r.id).asked[r.request - 1]? = some q ∧
        (s.shared.book r.ch r.id).answers[r.request - 1]? = some a ∧
        a = ⟨some KV_OK, some nilReply⟩ ∧ ∀ p : Participant, p.pWorker q.task = none := by
  obtain ⟨key, hkey⟩ : ∃ key : Bytes, key.length = 2 ^ 32 - 6 :=
    ⟨List.replicate _ 65, List.length_replicate ..⟩
  have hsent : [] ++ wire (readTask key) =
      received ((longHeader ++ readText).map Event.byte) ++ [] := by
    rw [wire_readTask hkey]
    rfl
  obtain ⟨s, h, hreading, ⟨n, -, hasked⟩, hanswers, -⟩ := reached_get (fun _ _ => trivial) trivial
    hsent recv_cutTask (pWorker_cutTask (by decide))
  refine ⟨s, h, _, hreading, ?_, ⟨.work, readTask key, n⟩, ⟨some KV_OK, some nilReply⟩, ?_, ?_, rfl,
    fun p => pWorker_readTask p hkey⟩
  · rintro ⟨q, a, hq, -, ha, -, hran⟩
    dsimp only at hq ha
    rw [hasked] at hq
    rw [hanswers] at ha
    obtain rfl := Option.some.inj hq
    obtain rfl := Option.some.inj ha
    obtain ⟨data, -, p, p', -, hrun⟩ := hran rfl
    rw [pWorker_readTask p hkey] at hrun
    cases hrun
  · dsimp only
    rw [hasked]
    rfl
  · dsimp only
    rw [hanswers]
    rfl

end CloudLabs.KvStore.Threads
