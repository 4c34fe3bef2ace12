import CloudLabs.Foundation.Simulation
import CloudLabs.KvStore.Schedule
import CloudLabs.KvStore.Wire

/-!
# A request in bytes

`Peer` is a participant with its connection as one stream of bytes in each direction. A request is
sent, read, carried out and replied to in steps of its own, and the connection may break, the
participant restart, or the coordinator give up or come to its end between any two of them.

The system takes a request as one step, the round of a worker, whose `Choice` says in advance what
will become of it. `peer_refines_node`: what the workers see of the streams, whatever is lost or late
on them, they also see of such steps, and the participant ends in the same state.
-/

set_option autoImplicit false

namespace CloudLabs.KvStore

open CloudLabs.Foundation
open Relation (ReflTransGen)

/-! ## Requests as one step -/

/-- What a worker sees of its participant: the result of a request, behind which a connection that
failed is closed; a connection; and the end of the coordinator between two requests or during one. -/
inductive Seen where
  | round (task : Bytes) (rc : Int) (rmsg : Bytes)
  | connected
  | closed
  | abandoned (task : Bytes)

/-- `sendAndRecv`, and the close if it fails. -/
def Node.exchange (n : Node) (x : Choice) (task : Bytes) : Node :=
  if (sendAndRecv x n task).ret ≠ KV_OK then (sendAndRecv x n task).node.close
  else (sendAndRecv x n task).node

/-- The steps of the system at one participant that a worker sees. -/
inductive Node.Shows (F : Faults) (id : Nat) : Node → Seen → Node → Prop
  | round {n : Node} {task : Bytes} {x : Choice} : F.choice id x →
      Node.Shows F id n (.round task (sendAndRecv x n task).ret (sendAndRecv x n task).rmsg)
        (n.exchange x task)
  | connected {n : Node} : n.pending = none →
      Node.Shows F id n .connected { n with alive := true, kept := true }
  | closed {n : Node} : Node.Shows F id n .closed n.close
  | abandoned {n : Node} {task : Bytes} {x : Choice} : F.choice id x →
      Node.Shows F id n (.abandoned task) (sendAndRecv x n task).node.close

def Node.system (F : Faults) (id : Nat) : Observed Node Seen := ⟨NodeStep F id, Node.Shows F id⟩

/-! ## Requests in bytes -/

/-- A participant and its connection. `doing` is the task that `Participant::Working` has read and
`reply` what it is about to send. `opened` is the coordinator's end, and `accepted` says that the
participant's end belongs to the same connection. A worker in `sendAndRecv` has `asked` for a task,
recorded with the participant as it was then, and has `failed` if it is about to close. -/
structure Peer where
  part : Participant
  doing : Option Bytes
  reply : Option Bytes
  kept : Bool
  opened : Bool
  accepted : Bool
  toP : Bytes
  toC : Bytes
  asked : Option (Bytes × Node)
  failed : Option (NetError × Bytes)

namespace Peer

/-- A participant that was never connected. -/
def start (part : Participant) (kept : Bool) : Peer :=
  ⟨part, none, none, kept, false, false, [], [], none, none⟩

/-- The participant's side. -/
def node (l : Peer) : Node := ⟨l.part, l.doing, l.opened && l.accepted, l.kept⟩

/-- The participant as the last step that a worker has seen left it, and what came behind. During a
request that is the participant when the request was sent. -/
def side (l : Peer) : Node :=
  match l.asked with
  | some (_, n) => n
  | none => l.node

/-- Requests to the participant may fail. -/
def Fails (F : Faults) (id : Nat) : Prop := ∀ x, x ≠ .answer → F.choice id x

/-- The stream to the participant, with what is sent to it. Without a participant there is none. -/
def post (l : Peer) (bytes : Bytes) : Bytes := if l.accepted then l.toP ++ bytes else l.toP

/-- The coordinator's end is closed. -/
def hangUp (l : Peer) : Peer :=
  { l with opened := false, toC := [], asked := none, failed := none }

/-- What happens between the steps that a worker sees. The participant reads a task, carries it out
and sends the reply, whole or in part. Its connection may break, and it may restart. A worker sends
a request, the sending may fail with a part of it sent, and the reading of the reply may fail. -/
inductive Quiet (F : Faults) (id : Nat) : Peer → Peer → Prop
  | read {l : Peer} {heap : Nat → UInt8} {t t' : Incoming} {rest task : Bytes} :
      l.accepted = true → l.doing = none → l.reply = none → l.toP = received t ++ rest →
      Network.recv heap t = some (KV_OK, task, t') →
      Quiet F id l { l with toP := received t' ++ rest, doing := some task }
  | work {l : Peer} {task data : Bytes} {part : Participant} : l.doing = some task →
      l.part.pWorker task = some (data, part) →
      Quiet F id l { l with part := part, doing := none, reply := some data }
  | send {l : Peer} {data out : Bytes} : l.reply = some data → out <+: wire data →
      (l.accepted = false → out = []) →
      Quiet F id l { l with reply := none, toC := l.toC ++ out }
  -- with the coordinator's end closed, the participant finds the end of the stream
  | lose {l : Peer} : (l.opened = true → F.drop id) →
      Quiet F id l { l with accepted := false, toP := [] }
  | restart {l : Peer} {q : Participant} : F.fresh id q →
      Quiet F id l { l with
        part := q, doing := none, reply := none, kept := false, accepted := false, toP := [] }
  | ask {l : Peer} {task : Bytes} : l.opened = true → l.asked = none →
      Quiet F id l { l with toP := l.post (wire task), asked := some (task, l.node) }
  | refused {l : Peer} {task sent rmsg : Bytes} {rc : NetError} : l.opened = true →
      l.asked = none → sent <+: wire task → Fails F id →
      Quiet F id l { l with
        toP := l.post sent, asked := some (task, l.node), failed := some (rc, rmsg) }
  | unread {l : Peer} {t t' : Incoming} {rest rmsg : Bytes} {rc : NetError} {a : Bytes × Node} :
      l.asked = some a → l.failed = none → l.toC = received t ++ rest →
      recvReply [] t = some (rc.1, rmsg, t') → Fails F id →
      Quiet F id l { l with toC := received t' ++ rest, failed := some (rc, rmsg) }

/-- What a worker sees: a reply that is read, a request that failed, one that is not sent because the
connection is closed, a connection that the participant has accepted, and the end of the
coordinator. -/
inductive Shows (F : Faults) (id : Nat) : Peer → Seen → Peer → Prop
  | answered {l : Peer} {t t' : Incoming} {rest task rmsg : Bytes} {n : Node} :
      l.asked = some (task, n) → l.failed = none → l.toC = received t ++ rest →
      recvReply [] t = some (KV_OK, rmsg, t') →
      Shows F id l (.round task KV_OK rmsg) { l with toC := received t' ++ rest, asked := none }
  | gaveUp {l : Peer} {task rmsg : Bytes} {n : Node} {rc : NetError} : l.asked = some (task, n) →
      l.failed = some (rc, rmsg) → Shows F id l (.round task rc.1 rmsg) l.hangUp
  | offline {l : Peer} {task : Bytes} : l.opened = false →
      Shows F id l (.round task KV_NETWORK []) l
  | connected {l : Peer} : l.opened = false → l.accepted = false → l.doing = none →
      l.reply = none →
      Shows F id l .connected { l with
        opened := true, accepted := true, toP := [], toC := [], kept := true }
  | closed {l : Peer} : l.asked = none → Shows F id l .closed l.hangUp
  | abandoned {l : Peer} {task : Bytes} {n : Node} : l.asked = some (task, n) → Fails F id →
      Shows F id l (.abandoned task) l.hangUp

def system (F : Faults) (id : Nat) : Observed Peer Seen := ⟨Quiet F id, Shows F id⟩

/-- The request under way and the reply that is about to be sent are not cut off by the length of a
call of `send`. -/
structure Intact (l : Peer) : Prop where
  asked : ∀ a, l.asked = some a → KvStore.Intact a.1
  reply : ∀ data, l.reply = some data → KvStore.Intact data

/-- The steps in which nothing is cut off. -/
def intactSystem (F : Faults) (id : Nat) : Observed Peer Seen :=
  ⟨fun l l' => (system F id).quiet l l' ∧ l.Intact ∧ l'.Intact, (system F id).shows⟩

/-! ## Where a request can be -/

variable {F : Faults} {id : Nat} {l l' : Peer} {n n' m : Node} {task : Bytes}

/-- Nothing is under way. -/
structure Clean (l : Peer) : Prop where
  toP : l.toP = []
  toC : l.toC = []
  doing : l.doing = none
  reply : l.reply = none

/-- What has become of a request that was sent with the participant in the state `n`: it is not read;
it is read; or it is carried out. As long as the connection stands nothing else has happened. -/
inductive Under (F : Faults) (id : Nat) (l : Peer) (task : Bytes) (n : Node) : Prop
  | unread : ReflTransGen (NodeStep F id) n l.node → l.doing = none → l.reply = none →
      (l.failed = none → l.toC = []) → (l.accepted = true → l.toP <+: wire task ∧ l.node = n) →
      (l.accepted = false → l.toP = []) → Under F id l task n
  | read : n.alive = true →
      ReflTransGen (NodeStep F id) { n with pending := some task } l.node → l.toP = [] →
      (l.failed = none → l.toC = []) →
      (l.accepted = true → l.node = { n with pending := some task } ∧ l.reply = none) →
      Under F id l task n
  | done {data : Bytes} {part : Participant} : n.alive = true →
      n.part.pWorker task = some (data, part) →
      ReflTransGen (NodeStep F id) { n with part := part } l.node → l.toP = [] → l.doing = none →
      (l.reply = none ∨ l.reply = some data ∧ (l.failed = none → l.toC = [])) →
      (l.failed = none → l.toC = [] ∨ KvStore.Intact data ∧ l.toC <+: wire data) →
      Under F id l task n

/-- The connection is up and no request is under way; it is down, and a request that failed may not
have been read; or a worker waits for the reply to a request. -/
inductive Ok (F : Faults) (id : Nat) (l : Peer) : Prop
  | up : l.asked = none → l.failed = none → l.opened = true → Clean l → Ok F id l
  | down : l.asked = none → l.failed = none → l.opened = false →
      (l.toP = [] ∨ l.accepted = true ∧ l.doing = none ∧ l.reply = none ∧
        ∃ task, KvStore.Intact task ∧ l.toP <+: wire task) → Ok F id l
  | asked {task : Bytes} {n : Node} : l.asked = some (task, n) → (l.failed ≠ none → Fails F id) →
      l.opened = true → KvStore.Intact task → n.pending = none → Under F id l task n →
      Ok F id l

/-- The states that the participant can be in when requests are one step. A request that failed and
was not read is lost, or it will be read. -/
inductive Rel (l : Peer) : Node → Prop
  | side : Rel l l.side
  | late {task : Bytes} : l.asked = none → l.opened = false → l.accepted = true → l.doing = none →
      l.toP = packet task → Rel l { l.node with pending := some task }

theorem node_lose (l : Peer) (toP : Bytes) :
    ({ l with accepted := false, toP := toP } : Peer).node = { l.node with alive := false } := by
  simp only [node, Bool.and_false]

theorem node_restart (l : Peer) (q : Participant) :
    ({ l with
      part := q, doing := none, reply := none, kept := false, accepted := false,
      toP := [] } : Peer).node = ⟨q, none, false, false⟩ := by
  simp only [node, Bool.and_false]

theorem node_hangUp (l : Peer) : l.hangUp.node = l.node.close := rfl

/-- Nothing is read of a stream that is empty. -/
theorem toP_ne_nil {heap : Nat → UInt8} {t t' : Incoming} {rest : Bytes}
    (hsplit : l.toP = received t ++ rest) (hrecv : Network.recv heap t = some (KV_OK, task, t')) :
    l.toP ≠ [] := by
  intro hnil
  rw [hnil] at hsplit
  exact packet_ne_nil task (Network.recv_sound heap framed_nil hsplit.symm hrecv).1.symm

/-- What is read of a request, or of a part of it, is the whole request. -/
theorem read_of_part {heap : Nat → UInt8} {t t' : Incoming} {rest data : Bytes}
    (hintact : KvStore.Intact task) (hpart : l.toP <+: wire task)
    (hsplit : l.toP = received t ++ rest) (hrecv : Network.recv heap t = some (KV_OK, data, t')) :
    data = task ∧ l.toP = packet task ∧ received t' ++ rest = [] := by
  obtain ⟨missing, hmissing⟩ := hpart
  have hwhole : received t ++ (rest ++ missing) = wire task := by
    rw [← hmissing, hsplit, List.append_assoc]
  obtain ⟨hwire, ht', hrest⟩ := Network.recv_sound heap (framed_wire hintact) hwhole hrecv
  obtain ⟨hrest, hnone⟩ := List.append_eq_nil_iff.mp hrest
  have hdata := eq_of_wire_eq hintact hwire
  refine ⟨hdata.symm, ?_, ?_⟩
  · rw [hnone, List.append_nil] at hmissing
    rw [hmissing, hwire, hdata]
  · rw [ht', hrest]
    rfl

/-- A reply that is read is the one that was sent, and nothing is left of it. -/
theorem reply_of_part {t t' : Incoming} {rest data rmsg : Bytes}
    (hintact : KvStore.Intact data) (hpart : l.toC <+: wire data)
    (hsplit : l.toC = received t ++ rest) (hrecv : recvReply [] t = some (KV_OK, rmsg, t')) :
    rmsg = data ∧ received t' ++ rest = [] := by
  obtain ⟨missing, hmissing⟩ := hpart
  have hwhole : received t ++ (rest ++ missing) = wire data := by
    rw [← hmissing, hsplit, List.append_assoc]
  obtain ⟨hwire, ht', hrest⟩ := recvReply_sound (framed_wire hintact) hwhole hrecv
  refine ⟨(eq_of_wire_eq hintact hwire).symm, ?_⟩
  rw [ht', (List.append_eq_nil_iff.mp hrest).1]
  rfl

theorem toC_ne_nil {t t' : Incoming} {rest rmsg : Bytes} (hsplit : l.toC = received t ++ rest)
    (hrecv : recvReply [] t = some (KV_OK, rmsg, t')) : l.toC ≠ [] := by
  intro hnil
  rw [hnil] at hsplit
  exact packet_ne_nil rmsg (recvReply_sound framed_nil hsplit.symm hrecv).1.symm

theorem packet_of_part {late : Bytes} (hintact : KvStore.Intact task)
    (hpart : packet late <+: wire task) : late = task := by
  rcases wire_cases hintact with hless | ⟨hlt, hwire⟩
  · have hle := hpart.length_le
    rw [length_packet] at hle
    exact absurd hless (Nat.not_lt.mpr ((Nat.le_add_left _ _).trans hle))
  · rw [hwire] at hpart
    have hle := hpart.length_le
    rw [length_packet, length_packet] at hle
    obtain ⟨missing, hmissing⟩ := hpart
    have hlate : late.length < 2 ^ 31 := by omega
    have hH : (126 :: numtob late.length).length = NETWORK_HEADER_LEN := by
      rw [List.length_cons, length_numtob]
      rfl
    rw [packet_of_lt hlate, List.append_assoc] at hmissing
    -- the header has the length of both messages
    obtain ⟨heq, -, hnum⟩ := Framed.header (.inl ⟨task, hlt, rfl⟩) hH hmissing
    rw [btonum_numtob (by omega), List.length_append] at hnum
    have hnone : missing = [] := List.length_eq_zero_iff.mp (by omega)
    rw [hnone, List.append_nil] at heq
    exact (packet_injective heq).symm

/-! ## What the quiet steps keep -/

/-- A request stays where it is or goes on, whatever happens to the participant. -/
theorem Under.quiet (hask : l.asked = some (task, n)) (hopened : l.opened = true)
    (hintact : KvStore.Intact task) (hpending : n.pending = none) (hreplies : l.Intact)
    (h : Under F id l task n) (hstep : Quiet F id l l') : Under F id l' task n := by
  cases hstep with
  | read haccepted hdoing hreply hsplit hrecv =>
    cases h with
    | unread hsteps _ _ htoC hup _ =>
      obtain ⟨hpart, hnode⟩ := hup haccepted
      obtain ⟨hdata, -, hleft⟩ := read_of_part hintact hpart hsplit hrecv
      rw [hdata]
      have halive : n.alive = true := by
        rw [← hnode, node, hopened, haccepted]
        rfl
      have hread : ∀ toP, ({ l with toP := toP, doing := some task } : Peer).node =
          { n with pending := some task } := by
        intro toP
        rw [← hnode]
        rfl
      refine .read halive ?_ hleft htoC fun _ => ⟨hread _, hreply⟩
      rw [hread]
    | read _ _ htoP => exact absurd htoP (toP_ne_nil hsplit hrecv)
    | done _ _ _ htoP => exact absurd htoP (toP_ne_nil hsplit hrecv)
  | @work task' data part hdoing hrun =>
    cases h with
    | unread _ hnone =>
      rw [hnone] at hdoing
      cases hdoing
    | read halive hsteps htoP htoC hup =>
      by_cases haccepted : l.accepted = true
      · obtain ⟨hnode, -⟩ := hup haccepted
        have hpart : l.part = n.part := congrArg Node.part hnode
        have htask : l.doing = some task := congrArg Node.pending hnode
        rw [Option.some.inj (hdoing.symm.trans htask), hpart] at hrun
        have hdone : ({ l with part := part, doing := none, reply := some data } : Peer).node =
            { n with part := part } := by
          rw [show n = { l.node with pending := none } by rw [hnode, ← hpending]]
          rfl
        refine .done halive hrun ?_ htoP rfl (.inr ⟨rfl, htoC⟩) (fun hf => .inl (htoC hf))
        rw [hdone]
      · exact .read halive (hsteps.tail (.finish (n := l.node) hdoing hrun)) htoP htoC
          fun hstands => absurd hstands haccepted
    | done _ _ _ _ hnone =>
      rw [hnone] at hdoing
      cases hdoing
  | send hreply hpart hgone =>
    cases h with
    | unread _ _ hnone =>
      rw [hnone] at hreply
      cases hreply
    | read halive hsteps htoP htoC hup =>
      have haccepted : l.accepted = false := by
        by_contra hstands
        rw [(hup (Bool.eq_true_of_not_eq_false hstands)).2] at hreply
        cases hreply
      refine .read halive hsteps htoP ?_ ?_
      · intro hf
        simp only [htoC hf, hgone haccepted, List.append_nil]
      · exact fun hno => absurd (haccepted.symm.trans hno) Bool.false_ne_true
    | done halive hrun hsteps htoP hdoing hsent htoC =>
      refine .done halive hrun hsteps htoP hdoing (.inl rfl) ?_
      intro hf
      rcases hsent with hnone | ⟨hdata, hnone⟩
      · rw [hnone] at hreply
        cases hreply
      · obtain rfl := Option.some.inj (hdata.symm.trans hreply)
        refine .inr ⟨hreplies.reply _ hreply, ?_⟩
        simpa only [hnone hf, List.nil_append] using hpart
  | lose hdrop =>
    have hcut := NodeStep.drop (n := l.node) (hdrop hopened)
    rw [← node_lose l []] at hcut
    cases h with
    | unread hsteps hdoing hreply htoC =>
      exact .unread (hsteps.tail hcut) hdoing hreply htoC nofun fun _ => rfl
    | read halive hsteps htoP htoC =>
      exact .read halive (hsteps.tail hcut) rfl htoC nofun
    | done halive hrun hsteps htoP hdoing hsent htoC =>
      exact .done halive hrun (hsteps.tail hcut) rfl hdoing hsent htoC
  | @restart q hfresh =>
    have hnew := NodeStep.restart (n := l.node) hfresh
    rw [← node_restart l q] at hnew
    cases h with
    | unread hsteps _ _ htoC =>
      exact .unread (hsteps.tail hnew) rfl rfl htoC nofun fun _ => rfl
    | read halive hsteps _ htoC => exact .read halive (hsteps.tail hnew) rfl htoC nofun
    | done halive hrun hsteps _ _ _ htoC =>
      exact .done halive hrun (hsteps.tail hnew) rfl rfl (.inl rfl) htoC
  | ask _ hnone =>
    rw [hnone] at hask
    cases hask
  | refused _ hnone =>
    rw [hnone] at hask
    cases hask
  | unread =>
    -- behind a failure nothing is read any more
    cases h with
    | unread hsteps hdoing hreply _ hup hgone =>
      exact .unread hsteps hdoing hreply nofun hup hgone
    | read halive hsteps htoP _ hup => exact .read halive hsteps htoP nofun hup
    | done halive hrun hsteps htoP hdoing hsent _ =>
      exact .done halive hrun hsteps htoP hdoing (hsent.imp_right fun h => ⟨h.1, nofun⟩) nofun

/-- During a request the workers' side of the connection stays as it is, but for a failure. -/
theorem Quiet.asked {a : Bytes × Node} (hask : l.asked = some a) (hstep : Quiet F id l l') :
    l'.asked = some a ∧ l'.opened = l.opened ∧ (l'.failed ≠ none → l.failed = none → Fails F id) := by
  cases hstep with
  | read => exact ⟨hask, rfl, fun hf hn => absurd hn hf⟩
  | work => exact ⟨hask, rfl, fun hf hn => absurd hn hf⟩
  | send => exact ⟨hask, rfl, fun hf hn => absurd hn hf⟩
  | lose => exact ⟨hask, rfl, fun hf hn => absurd hn hf⟩
  | restart => exact ⟨hask, rfl, fun hf hn => absurd hn hf⟩
  | ask _ hnone =>
    rw [hnone] at hask
    cases hask
  | refused _ hnone =>
    rw [hnone] at hask
    cases hask
  | unread _ _ _ _ hfails => exact ⟨hask, rfl, fun _ _ => hfails⟩

theorem Quiet.opened (hstep : Quiet F id l l') : l'.opened = l.opened := by
  cases hstep with
  | read => rfl
  | work => rfl
  | send => rfl
  | lose => rfl
  | restart => rfl
  | ask => rfl
  | refused => rfl
  | unread => rfl

/-- A request that was sent on a clean connection, whole or in part. -/
theorem Under.sent (hclean : Clean l) {sent : Bytes} (hpart : sent <+: wire task)
    (failed : Option (NetError × Bytes)) :
    Under F id { l with toP := l.post sent, asked := some (task, l.node), failed := failed } task
      l.node := by
  refine .unread .refl hclean.doing hclean.reply (fun _ => hclean.toC) ?_ ?_
  · intro haccepted
    have haccepted : l.accepted = true := haccepted
    simp only [post, if_pos haccepted, hclean.toP, List.nil_append]
    exact ⟨hpart, rfl⟩
  · intro haccepted
    have haccepted : l.accepted = false := haccepted
    simp only [post, haccepted, Bool.false_eq_true, if_false, hclean.toP]

theorem Ok.quiet (h : Ok F id l) (hl : l.Intact) (hl' : l'.Intact) (hstep : Quiet F id l l') :
    Ok F id l' := by
  cases h with
  | up hask hfailed hopened hclean =>
    cases hstep with
    | read _ _ _ hsplit hrecv => exact absurd hclean.toP (toP_ne_nil hsplit hrecv)
    | work hdoing =>
      rw [hclean.doing] at hdoing
      cases hdoing
    | send hreply =>
      rw [hclean.reply] at hreply
      cases hreply
    | lose => exact .up hask hfailed hopened ⟨rfl, hclean.toC, hclean.doing, hclean.reply⟩
    | restart => exact .up hask hfailed hopened ⟨rfl, hclean.toC, rfl, rfl⟩
    | @ask task =>
      have hintact : KvStore.Intact task := hl'.asked (task, l.node) rfl
      refine .asked rfl (fun hno => absurd hfailed hno) hopened hintact hclean.doing ?_
      exact .sent hclean List.prefix_rfl l.failed
    | @refused task sent rmsg rc _ _ hpart hfails =>
      have hintact : KvStore.Intact task := hl'.asked (task, l.node) rfl
      exact .asked rfl (fun _ => hfails) hopened hintact hclean.doing (.sent hclean hpart _)
    | unread hsome =>
      rw [hask] at hsome
      cases hsome
  | down hask hfailed hopened hleft =>
    cases hstep with
    | read _ _ _ hsplit hrecv =>
      rcases hleft with hnil | ⟨-, -, -, task, hintact, hpart⟩
      · exact absurd hnil (toP_ne_nil hsplit hrecv)
      · exact .down hask hfailed hopened (.inl (read_of_part hintact hpart hsplit hrecv).2.2)
    | work hdoing =>
      rcases hleft with hnil | ⟨-, hnone, -⟩
      · exact .down hask hfailed hopened (.inl hnil)
      · rw [hnone] at hdoing
        cases hdoing
    | send hreply =>
      rcases hleft with hnil | ⟨-, -, hnone, -⟩
      · exact .down hask hfailed hopened (.inl hnil)
      · rw [hnone] at hreply
        cases hreply
    | lose => exact .down hask hfailed hopened (.inl rfl)
    | restart => exact .down hask hfailed hopened (.inl rfl)
    | ask hup =>
      rw [hopened] at hup
      cases hup
    | refused hup =>
      rw [hopened] at hup
      cases hup
    | unread hsome =>
      rw [hask] at hsome
      cases hsome
  | asked hask hfailed hopened hintact hpending hunder =>
    obtain ⟨hask', hopened', hfails⟩ := hstep.asked hask
    refine .asked hask' ?_ (hopened'.trans hopened) hintact hpending
      (hunder.quiet hask hopened hintact hpending hl hstep)
    intro hno
    by_cases hnone : l.failed = none
    · exact hfails hno hnone
    · exact hfailed hnone

theorem side_of_none (hask : l.asked = none) : l.side = l.node := by
  rw [side, hask]

theorem side_of_some (hask : l.asked = some (task, n)) : l.side = n := by
  rw [side, hask]

/-- Behind the last step that was seen, the participant's own steps are steps of its side. -/
theorem Rel.quiet (hok : Ok F id l) (hstep : Quiet F id l l') (h : Rel l' n') :
    ∃ n, Rel l n ∧ ReflTransGen (NodeStep F id) n n' := by
  cases hok with
  | up hask hfailed hopened hclean =>
    have hside : Rel l l.node := side_of_none hask ▸ .side
    cases h with
    | side =>
      cases hstep with
      | read _ _ _ hsplit hrecv => exact absurd hclean.toP (toP_ne_nil hsplit hrecv)
      | work hdoing =>
        rw [hclean.doing] at hdoing
        cases hdoing
      | send hreply =>
        rw [hclean.reply] at hreply
        cases hreply
      | lose hdrop =>
        refine ⟨_, hside, ?_⟩
        rw [side_of_none (by exact hask), node_lose]
        exact .single (.drop (hdrop hopened))
      | restart hfresh =>
        refine ⟨_, hside, ?_⟩
        rw [side_of_none (by exact hask), node_restart]
        exact .single (.restart hfresh)
      | ask => exact ⟨_, hside, .refl⟩
      | refused => exact ⟨_, hside, .refl⟩
      | unread hsome =>
        rw [hask] at hsome
        cases hsome
    | late _ hdown =>
      rw [hstep.opened, hopened] at hdown
      cases hdown
  | down hask hfailed hopened hleft =>
    have hside : Rel l l.node := side_of_none hask ▸ .side
    cases h with
    | side =>
      cases hstep with
      | read haccepted hdoing _ hsplit hrecv =>
        rcases hleft with hnil | ⟨-, -, -, task, hintact, hpart⟩
        · exact absurd hnil (toP_ne_nil hsplit hrecv)
        · obtain ⟨hdata, htoP, -⟩ := read_of_part hintact hpart hsplit hrecv
          rw [side_of_none (by exact hask), hdata]
          exact ⟨_, .late hask hopened haccepted hdoing htoP, .refl⟩
      | work hdoing hrun =>
        rw [side_of_none (by exact hask)]
        exact ⟨_, hside, .single (.finish (n := l.node) hdoing hrun)⟩
      | send =>
        rw [side_of_none (by exact hask)]
        exact ⟨_, hside, .refl⟩
      | lose =>
        rw [side_of_none (by exact hask), node_lose]
        refine ⟨_, hside, ?_⟩
        -- nothing was left of the connection
        simp only [node, hopened, Bool.false_and]
        exact .refl
      | restart hfresh =>
        rw [side_of_none (by exact hask), node_restart]
        exact ⟨_, hside, .single (.restart hfresh)⟩
      | ask hup =>
        rw [hopened] at hup
        cases hup
      | refused hup =>
        rw [hopened] at hup
        cases hup
      | unread hsome =>
        rw [hask] at hsome
        cases hsome
    | late _ _ haccepted hdoing htoP =>
      cases hstep with
      | read => cases hdoing
      | work hbusy =>
        rcases hleft with hnil | ⟨-, hnone, -⟩
        · exact absurd (htoP.symm.trans hnil) (packet_ne_nil _)
        · rw [hnone] at hbusy
          cases hbusy
      | send hreply =>
        rcases hleft with hnil | ⟨-, -, hnone, -⟩
        · exact absurd (htoP.symm.trans hnil) (packet_ne_nil _)
        · rw [hnone] at hreply
          cases hreply
      | lose => cases haccepted
      | restart => cases haccepted
      | ask hup =>
        rw [hopened] at hup
        cases hup
      | refused hup =>
        rw [hopened] at hup
        cases hup
      | unread hsome =>
        rw [hask] at hsome
        cases hsome
  | asked hask hfailed hopened hintact hpending hunder =>
    obtain ⟨hask', -⟩ := hstep.asked hask
    cases h with
    | side =>
      rw [side_of_some hask', ← side_of_some hask]
      exact ⟨_, .side, .refl⟩
    | late hnone =>
      rw [hask'] at hnone
      cases hnone

/-! ## What a worker sees -/

/-- A participant goes on behind a closed connection as it does behind one that stands. -/
theorem closes (h : ReflTransGen (NodeStep F id) n m) :
    ReflTransGen (NodeStep F id) n.close m.close := by
  induction h with
  | refl => exact .refl
  | tail _ hstep ih =>
    cases hstep with
    | drop => exact ih
    | restart hfresh => exact ih.tail (.restart hfresh)
    | finish hpending hrun => exact ih.tail (.finish (n := Node.close _) hpending hrun)

theorem close_of_down (h : n.alive = false) : n.close = n := by
  cases n
  cases h
  rfl

/-- A request that is not answered, taken as one step. What becomes of it was decided when it was
sent: it is lost, the participant has carried it out, or it will. -/
theorem Under.failed (hopened : l.opened = true) (hintact : KvStore.Intact task)
    (h : Under F id l task n) (hrel : Rel l.hangUp n') (rc : NetError) (rmsg : Bytes) :
    ∃ x, x ≠ .answer ∧ (sendAndRecv x n task).ret = rc ∧ (sendAndRecv x n task).rmsg = rmsg ∧
      ReflTransGen (NodeStep F id) (sendAndRecv x n task).node.close n' := by
  cases hrel with
  | side =>
    rw [side_of_none rfl, node_hangUp]
    cases h with
    | unread hsteps =>
      have hlost : sendAndRecv (.lost rc rmsg) n task = ⟨rc, rmsg, false, n⟩ := by
        rw [sendAndRecv]
        exact ite_self _
      refine ⟨.lost rc rmsg, nofun, ?_⟩
      rw [hlost]
      exact ⟨rfl, rfl, closes hsteps⟩
    | read halive hsteps =>
      have hlate : sendAndRecv (.late rc rmsg) n task =
          ⟨rc, rmsg, true, { n with pending := some task }⟩ := by
        rw [sendAndRecv, if_pos halive]
      refine ⟨.late rc rmsg, nofun, ?_⟩
      rw [hlate]
      exact ⟨rfl, rfl, closes hsteps⟩
    | @done data part halive hrun hsteps =>
      have hunanswered : sendAndRecv (.unanswered rc rmsg) n task =
          ⟨rc, rmsg, true, { n with part := part }⟩ := by
        rw [sendAndRecv, if_pos halive]
        simp only [hrun]
      refine ⟨.unanswered rc rmsg, nofun, ?_⟩
      rw [hunanswered]
      exact ⟨rfl, rfl, closes hsteps⟩
  | @late late _ _ haccepted _ htoP =>
    have htoP : l.toP = packet late := htoP
    cases h with
    | unread _ _ _ _ hup =>
      obtain ⟨hpart, hnode⟩ := hup haccepted
      rw [htoP] at hpart
      obtain rfl := packet_of_part hintact hpart
      have haccepted : l.accepted = true := haccepted
      have halive : n.alive = true := by
        rw [← hnode, node, hopened, haccepted]
        rfl
      have hlate : sendAndRecv (.late rc rmsg) n late =
          ⟨rc, rmsg, true, { n with pending := some late }⟩ := by
        rw [sendAndRecv, if_pos halive]
      refine ⟨.late rc rmsg, nofun, ?_⟩
      rw [hlate, node_hangUp, hnode]
      exact ⟨rfl, rfl, .refl⟩
    | read _ _ hnil => exact absurd (htoP.symm.trans hnil) (packet_ne_nil late)
    | done _ _ _ hnil => exact absurd (htoP.symm.trans hnil) (packet_ne_nil late)

/-- A reply that is read is the answer to the request, and leaves a clean connection. -/
theorem Under.answered {t t' : Incoming} {rest rmsg : Bytes} (h : Under F id l task n)
    (hfailed : l.failed = none) (hsplit : l.toC = received t ++ rest)
    (hrecv : recvReply [] t = some (KV_OK, rmsg, t')) :
    (l.toP = [] ∧ received t' ++ rest = [] ∧ l.doing = none ∧ l.reply = none) ∧
      ∃ part, sendAndRecv .answer n task = ⟨KV_OK, rmsg, true, { n with part := part }⟩ ∧
        ReflTransGen (NodeStep F id) { n with part := part } l.node := by
  have hsome := toC_ne_nil hsplit hrecv
  cases h with
  | unread _ _ _ htoC => exact absurd (htoC hfailed) hsome
  | read _ _ _ htoC => exact absurd (htoC hfailed) hsome
  | @done data part halive hrun hsteps htoP hdoing hsent htoC =>
    have hreply : l.reply = none := hsent.resolve_right fun h => hsome (h.2 hfailed)
    obtain ⟨hintact, hpart⟩ := (htoC hfailed).resolve_left hsome
    obtain ⟨rfl, hleft⟩ := reply_of_part hintact hpart hsplit hrecv
    refine ⟨⟨htoP, hleft, hdoing, hreply⟩, part, ?_, hsteps⟩
    rw [sendAndRecv, if_pos halive]
    simp only [hrun]

theorem Under.hangUp (hintact : KvStore.Intact task) (h : Under F id l task n) :
    Ok F id l.hangUp := by
  refine .down rfl rfl rfl ?_
  cases h with
  | unread _ hdoing hreply _ hup hgone =>
    by_cases haccepted : l.accepted = true
    · exact .inr ⟨haccepted, hdoing, hreply, task, hintact, (hup haccepted).1⟩
    · exact .inl (hgone (Bool.eq_false_of_not_eq_true haccepted))
  | read _ _ htoP => exact .inl htoP
  | done _ _ _ htoP => exact .inl htoP

theorem Ok.shows {e : Seen} (h : Ok F id l) (hstep : Shows F id l e l') : Ok F id l' := by
  cases h with
  | up hask hfailed hopened hclean =>
    cases hstep with
    | answered hsome =>
      rw [hask] at hsome
      cases hsome
    | gaveUp hsome =>
      rw [hask] at hsome
      cases hsome
    | offline => exact .up hask hfailed hopened hclean
    | connected => exact .up hask hfailed rfl ⟨rfl, rfl, hclean.doing, hclean.reply⟩
    | closed => exact .down rfl rfl rfl (.inl hclean.toP)
    | abandoned hsome =>
      rw [hask] at hsome
      cases hsome
  | down hask hfailed hopened hleft =>
    cases hstep with
    | answered hsome =>
      rw [hask] at hsome
      cases hsome
    | gaveUp hsome =>
      rw [hask] at hsome
      cases hsome
    | offline => exact .down hask hfailed hopened hleft
    | connected _ _ hdoing hreply => exact .up hask hfailed rfl ⟨rfl, rfl, hdoing, hreply⟩
    | closed => exact .down rfl rfl rfl hleft
    | abandoned hsome =>
      rw [hask] at hsome
      cases hsome
  | asked hask hfailed hopened hintact hpending hunder =>
    cases hstep with
    | answered hsome hnone hsplit hrecv =>
      obtain ⟨htoP, hleft, hdoing, hreply⟩ := (hunder.answered hnone hsplit hrecv).1
      exact .up rfl hnone hopened ⟨htoP, hleft, hdoing, hreply⟩
    | gaveUp => exact hunder.hangUp hintact
    | offline hdown =>
      rw [hopened] at hdown
      cases hdown
    | connected hdown =>
      rw [hopened] at hdown
      cases hdown
    | closed hnone =>
      rw [hask] at hnone
      cases hnone
    | abandoned => exact hunder.hangUp hintact

theorem exchange_of_ok {x : Choice} (h : (sendAndRecv x n task).ret = KV_OK) :
    n.exchange x task = (sendAndRecv x n task).node :=
  if_neg fun hne => hne h

theorem exchange_of_error {x : Choice} {rc : NetError} (h : (sendAndRecv x n task).ret = rc) :
    n.exchange x task = (sendAndRecv x n task).node.close :=
  if_pos fun hok => rc.2 (h.symm.trans hok)

/-- Without a connection the participant's side does not take part. -/
theorem Rel.down (hask : l.asked = none) (hopened : l.opened = false) (h : Rel l n) :
    n.alive = false := by
  cases h with
  | side =>
    rw [side_of_none hask, node, hopened]
    rfl
  | late =>
    simp only [node, hopened, Bool.false_and]

theorem rel_of_some (hask : l.asked = some (task, n)) : Rel l n := side_of_some hask ▸ .side

/-- What is seen of the streams is seen of requests that are one step. -/
theorem Rel.shows {e : Seen} (hanswer : F.choice id .answer) (hok : Ok F id l)
    (hstep : Shows F id l e l') (h : Rel l' n') :
    ∃ n, Rel l n ∧ (Node.system F id).Runs n [e] n' := by
  cases hstep with
  | @answered t t' rest task rmsg n hask hfailed hsplit hrecv =>
    cases hok with
    | up hnone =>
      rw [hnone] at hask
      cases hask
    | down hnone =>
      rw [hnone] at hask
      cases hask
    | asked hask' _ hopened _ _ hunder =>
      obtain ⟨rfl, rfl⟩ := Prod.mk.inj (Option.some.inj (hask.symm.trans hask'))
      obtain ⟨-, part, hout, hsteps⟩ := hunder.answered hfailed hsplit hrecv
      have hround := @Node.Shows.round F id n task .answer hanswer
      rw [exchange_of_ok (by rw [hout]), hout] at hround
      cases h with
      | side => exact ⟨n, rel_of_some hask, .of_shows hround hsteps⟩
      | late _ hdown =>
        have hdown : l.opened = false := hdown
        rw [hopened] at hdown
        cases hdown
  | @gaveUp task rmsg n rc hask hfailed =>
    cases hok with
    | up hnone =>
      rw [hnone] at hask
      cases hask
    | down hnone =>
      rw [hnone] at hask
      cases hask
    | asked hask' hfails hopened hintact _ hunder =>
      obtain ⟨rfl, rfl⟩ := Prod.mk.inj (Option.some.inj (hask.symm.trans hask'))
      obtain ⟨x, hx, hret, hrmsg, hsteps⟩ := hunder.failed hopened hintact h rc rmsg
      have hsome : l.failed ≠ none := by
        rw [hfailed]
        exact Option.some_ne_none _
      have hround := @Node.Shows.round F id n task x (hfails hsome x hx)
      rw [exchange_of_error hret, hret, hrmsg] at hround
      exact ⟨n, rel_of_some hask, .of_shows hround hsteps⟩
  | @offline task hdown =>
    cases hok with
    | up _ _ hopened =>
      rw [hopened] at hdown
      cases hdown
    | down hask =>
      have halive := h.down hask hdown
      have hout : sendAndRecv .answer n' task = ⟨KV_NETWORK, [], false, n'⟩ := by
        rw [sendAndRecv, halive]
        rfl
      have hround := @Node.Shows.round F id n' task .answer hanswer
      have hret : (sendAndRecv .answer n' task).ret = NetError.network := by
        rw [hout]
        rfl
      rw [exchange_of_error hret, hout] at hround
      rw [close_of_down halive] at hround
      exact ⟨n', h, .of_shows hround .refl⟩
    | asked _ _ hopened =>
      rw [hopened] at hdown
      cases hdown
  | connected hopened haccepted hdoing hreply =>
    cases hok with
    | up _ _ hup =>
      rw [hopened] at hup
      cases hup
    | down hask =>
      cases h with
      | side =>
        have hconnected := @Node.Shows.connected F id l.node hdoing
        refine ⟨l.node, side_of_none hask ▸ .side, .of_shows ?_ .refl⟩
        rw [side_of_none (by exact hask)]
        exact hconnected
      | late _ hdown => cases hdown
    | asked _ _ hup =>
      rw [hopened] at hup
      cases hup
  | closed hask =>
    cases hok with
    | up _ _ _ hclean =>
      cases h with
      | side => exact ⟨l.node, side_of_none hask ▸ .side, .of_shows .closed .refl⟩
      | late _ _ _ _ htoP => exact absurd (htoP.symm.trans hclean.toP) (packet_ne_nil _)
    | down _ _ hopened =>
      have hnode : l.hangUp.node = l.node := close_of_down (n := l.node) (by rw [node, hopened]; rfl)
      have hback : Rel l n' := by
        cases h with
        | side =>
          rw [side_of_none rfl, hnode, ← side_of_none hask]
          exact .side
        | late _ _ haccepted hdoing htoP =>
          rw [hnode]
          exact .late hask hopened haccepted hdoing htoP
      refine ⟨n', hback, .of_shows ?_ .refl⟩
      have hclosed := @Node.Shows.closed F id n'
      rwa [close_of_down (hback.down hask hopened)] at hclosed
    | asked hsome =>
      rw [hask] at hsome
      cases hsome
  | @abandoned task n hask hfails =>
    cases hok with
    | up hnone =>
      rw [hnone] at hask
      cases hask
    | down hnone =>
      rw [hnone] at hask
      cases hask
    | asked hask' _ hopened hintact _ hunder =>
      obtain ⟨rfl, rfl⟩ := Prod.mk.inj (Option.some.inj (hask.symm.trans hask'))
      obtain ⟨x, hx, -, -, hsteps⟩ := hunder.failed hopened hintact h .network []
      exact ⟨n, rel_of_some hask, .of_shows (.abandoned (hfails x hx)) hsteps⟩

theorem backward (hanswer : F.choice id .answer) :
    Observed.Backward (intactSystem F id) (Node.system F id) (Ok F id) Rel where
  keeps_quiet := fun hok hstep => hok.quiet hstep.2.1 hstep.2.2 hstep.1
  keeps_shows := Ok.shows
  quiet := fun hok hstep h => h.quiet hok hstep.1
  shows := Rel.shows hanswer

end Peer

/-- A connection in bytes on which no packet is cut off shows nothing that requests in one step do
not show, whatever is lost or late on it: each trace of it is one of the system's steps at the
participant, which end in the state that the participant has, or had when the request under way was
sent. No packet of fewer than `2 ^ 32` bytes is cut off. -/
theorem peer_refines_node {F : Faults} {id : Nat} (hanswer : F.choice id .answer)
    {part : Participant} {kept : Bool} {tr : List Seen} {l : Peer}
    (h : (Peer.intactSystem F id).Runs (Peer.start part kept) tr l) :
    (Node.system F id).Runs ⟨part, none, false, kept⟩ tr l.side := by
  have hok : Peer.Ok F id (Peer.start part kept) := .down rfl rfl rfl (.inl rfl)
  refine (Peer.backward hanswer).runs hok ?_ h .side
  intro n hn
  cases hn with
  | side => rfl
  | late _ _ haccepted => cases haccepted

/-- The record of a command that sets a key. -/
def lateTask : Bytes :=
  Log.logToStr ⟨TXID_START, LogState.LOG_COMMIT, getRESPArry [ascii "SET", ascii "k", ascii "v"]⟩

/-- The worker gives the request up, and the participant reads it and carries it out behind that. -/
theorem peer_refines_node_late : ∃ part, part.TXID = TXID_START + 1 ∧
    (Node.system (Faults.any fun _ => false) 1).Runs ⟨Participant.Init, none, false, true⟩
      [.connected, .round lateTask KV_TIMEOUT []] ⟨part, none, false, true⟩ := by
  have htxid : (Participant.Init.pWorker lateTask).map (fun r => (r.1, r.2.TXID)) =
      some (getSuccessMessage, TXID_START + 1) := by
    decide +kernel
  obtain ⟨⟨data, part⟩, hrun, heq⟩ := Option.map_eq_some_iff.mp htxid
  obtain ⟨rfl, htxid⟩ := Prod.mk.inj heq
  have hread : Network.recv (fun _ => 0) ((packet lateTask).map Event.byte) =
      some (KV_OK, lateTask, []) := by
    decide +kernel
  have hwire : wire lateTask = received ((packet lateTask).map Event.byte) ++ [] := by
    decide +kernel
  have hlate : recvReply [] [.fail .timeout] = some (KV_TIMEOUT, [], []) := rfl
  have hask : Intact lateTask := by
    decide +kernel
  have hreply : Intact getSuccessMessage := by
    decide +kernel
  have hasked : ∀ (n : Node) (a : Bytes × Node), some (lateTask, n) = some a → Intact a.1 := by
    rintro n a ⟨⟩
    exact hask
  have hreplied : ∀ data, some getSuccessMessage = some data → Intact data := by
    rintro data ⟨⟩
    exact hreply
  have hstart : (Peer.intactSystem (Faults.any fun _ => false) 1).Runs
      (Peer.start Participant.Init true) [] (Peer.start Participant.Init true) := .refl
  have h := hstart.shows (.connected rfl rfl rfl rfl)
  replace h := h.quiet ⟨.ask rfl rfl, ⟨nofun, nofun⟩, ⟨hasked _, nofun⟩⟩
  replace h := h.quiet ⟨@Peer.Quiet.unread _ _ _ _ _ [] _ ⟨KV_TIMEOUT, by decide⟩ _ rfl rfl rfl hlate
    fun _ _ => trivial, ⟨hasked _, nofun⟩, ⟨hasked _, nofun⟩⟩
  replace h := h.shows (.gaveUp rfl rfl)
  replace h := h.quiet ⟨.read rfl rfl rfl hwire hread, ⟨nofun, nofun⟩, ⟨nofun, nofun⟩⟩
  replace h := h.quiet ⟨.work rfl hrun, ⟨nofun, nofun⟩, ⟨nofun, hreplied⟩⟩
  exact ⟨part, htxid, peer_refines_node trivial h⟩

end CloudLabs.KvStore
