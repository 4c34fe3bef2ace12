import CloudLabs.KvStore.ParticipantLog
import CloudLabs.KvStore.Wire
import Mathlib.Data.List.ReduceOption

/-!
# The participant's process

`Participant::Launch` serves one connection after the other. On each it reads a task, carries it out
and replies until a read meets the end of the connection, and then waits for the next one. The
return code of `Network::send` is not looked at.

A connection may end at any byte. `Launch_runs_whole_packets`: whatever part of the coordinator's
packets arrives on each connection, and however it is cut into pieces, the participant carries out
the tasks whose packets arrived whole, each once and in order, and no other.
-/

set_option autoImplicit false

namespace CloudLabs.KvStore

open CloudLabs.Foundation

/-! ## The process -/

/-- `Participant::Working`: the return code, the bytes that go to the coordinator, the participant
after the task, and what is left to read. -/
def Participant.Working (heap : Nat → UInt8) (p : Participant) (t : Incoming) :
    Option (Int × Bytes × Participant × Incoming) :=
  match Network.recv heap t with
  | none => none
  | some (rc, content, t) =>
      if rc ≠ KV_OK then some (rc, [], p, t)
      else (p.pWorker content).map fun r => (rc, wire r.1, r.2, t)

/-- The loop of `Participant::Launch` on one connection: the bytes sent, and the participant after
it. The connection ends the loop after fewer tasks than it has bytes. -/
def Participant.serveLoop (heap : Nat → Nat → UInt8) :
    Nat → Participant → Incoming → Option (Bytes × Participant)
  | 0, _, _ => none
  | fuel + 1, p, t =>
      match p.Working (heap fuel) t with
      | none => none
      | some (rc, out, p, t) =>
          if rc ≠ KV_OK then some ([], p)
          else (Participant.serveLoop heap fuel p t).map fun r => (out ++ r.1, r.2)

def Participant.serve (heap : Nat → Nat → UInt8) (p : Participant) (t : Incoming) :
    Option (Bytes × Participant) :=
  p.serveLoop heap ((received t).length + 1) t

/-- `Participant::Launch`, up to the last of the given calls of `reaccept`: what was sent on each
connection, and the participant. A call that gives no connection (`none`) is repeated by
`keepAlive`. -/
def Participant.Launch (heap : Nat → Nat → Nat → UInt8) :
    Participant → List (Option Incoming) → Option (List Bytes × Participant)
  | p, [] => some ([], p)
  | p, none :: accepts => Participant.Launch heap p accepts
  | p, some t :: accepts =>
      match p.serve (heap accepts.length) t with
      | none => none
      | some (out, p) => (Participant.Launch heap p accepts).map fun r => (out :: r.1, r.2)

/-- The replies to a row of tasks, and the participant after them. -/
def Participant.answer (p : Participant) : List Bytes → Option (List Bytes × Participant)
  | [] => some ([], p)
  | task :: tasks =>
      match p.pWorker task with
      | none => none
      | some (reply, p) => (p.answer tasks).map fun r => (reply :: r.1, r.2)

/-- How many packets of a row the first `n` bytes hold whole. -/
def wholePackets : Nat → List Bytes → Nat
  | _, [] => 0
  | n, msg :: msgs =>
      if (packet msg).length ≤ n then wholePackets (n - (packet msg).length) msgs + 1 else 0

/-! ## A packet that breaks off -/

theorem length_headerRead (header bs : Bytes) :
    (headerRead header bs).length ≤ header.length + bs.length := by
  rw [headerRead]
  split
  · split
    · exact Nat.zero_le _
    · rw [List.length_drop]
      omega
  · rw [List.length_append]

/-- A header that is not there ends with the connection. -/
theorem frameHeaderLoop_short : ∀ (fuel : Nat) (header : Bytes) (t : Incoming), t.length < fuel →
    header.length + (received t).length < NETWORK_HEADER_LEN →
    frameHeaderLoop fuel header t = some (.error KV_NETWORK_CLOSE, []) := by
  intro fuel
  induction fuel with
  | zero => intro header t hfuel; omega
  | succ fuel ih =>
    intro header t hfuel hshort
    rw [frameHeaderLoop, if_neg (by omega)]
    have hspec := recvNF_spec (NETWORK_HEADER_LEN - header.length) t
    cases hread : recvNF (NETWORK_HEADER_LEN - header.length) t with
    | closed => rfl
    | failed f t' =>
      rw [hread] at hspec
      obtain ⟨used, rfl, hused, -⟩ := hspec
      rw [List.length_append, List.length_cons] at hfuel
      rw [received_append, hused, List.nil_append, received_fail] at hshort
      exact ih header t' (by omega) hshort
    | got bs t' =>
      rw [hread] at hspec
      obtain ⟨used, rfl, hused, -, hne, -⟩ := hspec
      rw [received_append, hused, List.length_append] at hshort
      have hpos := used_length_pos hused hne
      have hle := length_headerRead header bs
      rw [List.length_append] at hfuel
      exact ih _ t' (by omega) (by omega)

/-- A content that is not all there ends with the connection. -/
theorem readContentLoop_short (heap : Nat → UInt8) {n : Nat} (hn : n < 2 ^ 31) :
    ∀ (fuel : Nat) (t : Incoming), t.length < fuel → (received t).length < n →
    readContentLoop heap n fuel [] t = some (.error KV_NETWORK_CLOSE, []) := by
  intro fuel
  induction fuel with
  | zero => intro t hfuel; omega
  | succ fuel ih =>
    intro t hfuel hshort
    rw [readContentLoop, if_neg (by rw [List.length_nil]; omega)]
    simp only [List.length_nil, Nat.sub_zero, toInt32_natCast hn]
    have hspec := recv_spec n t
    cases hread : Foundation.recv (n : Int) t with
    | closed => rfl
    | failed f t' =>
      rw [hread] at hspec
      obtain ⟨used, rfl, hused⟩ := hspec
      rw [List.length_append, List.length_cons] at hfuel
      rw [received_append, hused, List.nil_append, received_fail] at hshort
      exact ih t' (by omega) hshort
    | got bs t' =>
      -- a full read would have taken more than there is
      rw [hread] at hspec
      obtain ⟨used, rfl, rfl, hlen⟩ := hspec
      rw [received_append, List.length_append] at hshort
      omega

/-- A packet that breaks off is never delivered. -/
theorem recv_broken (heap : Nat → UInt8) {msg : Bytes} {t : Incoming} (hmsg : msg.length < 2 ^ 31)
    (hpre : received t <+: packet msg) (hlt : (received t).length < (packet msg).length) :
    Network.recv heap t = some (KV_NETWORK_CLOSE, [], []) := by
  by_cases hheader : (received t).length < NETWORK_HEADER_LEN
  · rw [Network.recv, frameHeaderLoop_short _ [] t (by omega) (by simpa using hheader)]
  · -- the header is whole, so that some of the content is missing
    have hH : (126 :: numtob msg.length).length = NETWORK_HEADER_LEN := by
      rw [List.length_cons, length_numtob]
      rfl
    rw [length_packet] at hlt
    rw [packet_of_lt hmsg] at hpre
    obtain ⟨s, hs⟩ : 126 :: numtob msg.length <+: received t :=
      List.prefix_of_prefix_length_le (List.prefix_append _ _) hpre (by omega)
    have hslen : s.length < msg.length := by
      have := congrArg List.length hs
      rw [List.length_append, hH] at this
      simp only [NETWORK_HEADER_LEN] at this
      omega
    obtain ⟨t', hread, ht'⟩ := frameHeaderLoop_of_received hH rfl (t.length + 2) (by omega)
      List.not_mem_nil (show received t = [] ++ (126 :: numtob msg.length ++ s) from hs.symm)
    rw [Network.recv, hread]
    simp only [btonum_numtob (show msg.length < 2 ^ 64 by omega), readContent]
    rw [readContentLoop_short heap hmsg _ t' (by omega) (by rw [ht']; exact hslen)]

/-! ## A connection -/

section Connection

variable {p : Participant} {t : Incoming}

theorem Working_packet (heap : Nat → UInt8) {task rest : Bytes} (htask : task.length < 2 ^ 31)
    (ht : received t = packet task ++ rest) : ∃ t', received t' = rest ∧
      p.Working heap t = (p.pWorker task).map fun r => (KV_OK, wire r.1, r.2, t') := by
  obtain ⟨t', hrecv, ht'⟩ := recv_packet heap htask List.not_mem_nil
    (show received t = [] ++ packet task ++ rest from ht)
  refine ⟨t', ht', ?_⟩
  rw [Participant.Working, hrecv]
  rfl

theorem Working_broken (heap : Nat → UInt8) {task : Bytes} (htask : task.length < 2 ^ 31)
    (hpre : received t <+: packet task) (hlt : (received t).length < (packet task).length) :
    p.Working heap t = some (KV_NETWORK_CLOSE, [], p, []) := by
  rw [Participant.Working, recv_broken heap htask hpre hlt]
  rfl

/-- On a connection the whole packets are carried out, and what follows them is not. -/
theorem serveLoop_whole (heap : Nat → Nat → UInt8) (tasks : List Bytes) :
    ∀ {fuel : Nat} {p : Participant} {t : Incoming}, (received t).length < fuel →
      (∀ task ∈ tasks, task.length < 2 ^ 31) → received t <+: tasks.flatMap packet →
      p.serveLoop heap fuel t =
        (p.answer (tasks.take (wholePackets (received t).length tasks))).map
          fun r => (r.1.flatMap wire, r.2) := by
  induction tasks with
  | nil =>
    intro fuel p t hfuel _ hpre
    obtain ⟨fuel, rfl⟩ : ∃ f, fuel = f + 1 := ⟨fuel - 1, by omega⟩
    have hnil : received t = [] := List.prefix_nil.mp hpre
    have hclosed : p.Working (heap fuel) t = some (KV_NETWORK_CLOSE, [], p, []) := by
      apply Working_broken (heap fuel) (show ([] : Bytes).length < 2 ^ 31 by decide)
      · rw [hnil]
        exact List.nil_prefix
      · rw [hnil]
        decide
    rw [Participant.serveLoop, hclosed]
    rfl
  | cons task tasks ih =>
    intro fuel p t hfuel htasks hpre
    obtain ⟨fuel, rfl⟩ : ∃ f, fuel = f + 1 := ⟨fuel - 1, by omega⟩
    have htask := htasks task List.mem_cons_self
    rw [List.flatMap_cons] at hpre
    rw [Participant.serveLoop, wholePackets]
    by_cases hwhole : (packet task).length ≤ (received t).length
    · -- the packet is whole, and the rest of the stream is a part of the others
      obtain ⟨rest, hrest⟩ := List.prefix_of_prefix_length_le (List.prefix_append _ _) hpre hwhole
      obtain ⟨t', ht', hwork⟩ := Working_packet (p := p) (heap fuel) htask hrest.symm
      have hlen : (received t).length = (packet task).length + (received t').length := by
        rw [← hrest, List.length_append, ht']
      have hpos : 0 < (packet task).length := List.length_pos_iff.mpr (packet_ne_nil task)
      rw [← hrest, List.prefix_append_right_inj, ← ht'] at hpre
      rw [hwork, if_pos hwhole, hlen, Nat.add_sub_cancel_left, List.take_succ_cons,
        Participant.answer]
      cases hrun : p.pWorker task with
      | none => rfl
      | some r =>
        have hrec := @ih fuel r.2 t' (by omega)
          (fun m hm => htasks m (List.mem_cons_of_mem _ hm)) hpre
        simp only [Option.map_some, ne_eq, not_true_eq_false, if_false, hrec, Option.map_map]
        rfl
    · -- the packet breaks off
      have hbroken : p.Working (heap fuel) t = some (KV_NETWORK_CLOSE, [], p, []) := by
        refine Working_broken (heap fuel) htask ?_ (by omega)
        exact List.prefix_of_prefix_length_le hpre (List.prefix_append _ _) (by omega)
      rw [hbroken, if_neg hwhole]
      rfl

end Connection

/-! ## All connections -/

section Tasks

/-- What arrives on a connection is a part of the packets of the tasks that were sent there. -/
structure Arrives (t : Incoming) (ts : List Task) : Prop where
  short : ∀ task ∈ ts, task.text.length < 2 ^ 31
  part : received t <+: (ts.map Task.text).flatMap packet

/-- The tasks whose packets have arrived whole. -/
def arrived (c : Incoming × List Task) : List Task :=
  c.2.take (wholePackets (received c.1).length (c.2.map Task.text))

theorem answer_text (ts : List Task) : ∀ p : Participant,
    p.answer (ts.map Task.text) = runTasks p ts := by
  induction ts with
  | nil => exact fun p => rfl
  | cons task ts ih =>
    intro p
    rw [List.map_cons, Participant.answer, runTasks]
    cases p.pWorker task.text with
    | none => rfl
    | some r => simp only [ih]

theorem serve_arrives (heap : Nat → Nat → UInt8) (p : Participant) {t : Incoming} {ts : List Task}
    (h : Arrives t ts) :
    p.serve heap t = (runTasks p (arrived (t, ts))).map fun r => (r.1.flatMap wire, r.2) := by
  have hshort : ∀ task ∈ ts.map Task.text, task.length < 2 ^ 31 := by
    intro task htask
    obtain ⟨task, hmem, rfl⟩ := List.mem_map.mp htask
    exact h.short task hmem
  rw [Participant.serve, serveLoop_whole heap _ (Nat.lt_succ_self _) hshort h.part, ← List.map_take,
    answer_text]
  rfl

theorem length_of_runTasks {ts : List Task} : ∀ {p p' : Participant} {replies : List Bytes},
    runTasks p ts = some (replies, p') → replies.length = ts.length := by
  induction ts with
  | nil =>
    intro p p' replies h
    obtain ⟨rfl, rfl⟩ := Prod.mk.inj (Option.some.inj h)
    rfl
  | cons task ts ih =>
    intro p p' replies h
    rw [runTasks] at h
    cases hw : p.pWorker task.text with
    | none =>
      rw [hw] at h
      cases h
    | some r =>
      rw [hw] at h
      obtain ⟨⟨replies', p''⟩, hrun, heq⟩ := Option.map_eq_some_iff.mp h
      obtain ⟨rfl, rfl⟩ := Prod.mk.inj heq
      rw [List.length_cons, List.length_cons, ih hrun]

/-- One row of tasks after another. -/
theorem runTasks_append {ts ts' : List Task} : ∀ {p p₁ p₂ : Participant}
    {replies replies' : List Bytes}, runTasks p ts = some (replies, p₁) →
    runTasks p₁ ts' = some (replies', p₂) →
    runTasks p (ts ++ ts') = some (replies ++ replies', p₂) := by
  induction ts with
  | nil =>
    intro p p₁ p₂ replies replies' h h'
    obtain ⟨rfl, rfl⟩ := Prod.mk.inj (Option.some.inj h)
    exact h'
  | cons task ts ih =>
    intro p p₁ p₂ replies replies' h h'
    rw [List.cons_append, runTasks]
    rw [runTasks] at h
    cases hw : p.pWorker task.text with
    | none =>
      rw [hw] at h
      cases h
    | some r =>
      rw [hw] at h
      obtain ⟨⟨more, p''⟩, hrun, heq⟩ := Option.map_eq_some_iff.mp h
      obtain ⟨rfl, rfl⟩ := Prod.mk.inj heq
      simp only [ih hrun h', Option.map_some, List.cons_append]

/-- The participant's process on any connections: what it sends is the packets of the replies. -/
theorem Launch_arrives (heap : Nat → Nat → Nat → UInt8) :
    ∀ (accepts : List (Option (Incoming × List Task))) {p : Participant}, p.Sound →
      (∀ c ∈ accepts.reduceOption, Arrives c.1 c.2) →
      (∀ c ∈ accepts.reduceOption, ∀ task ∈ c.2, task.Fits) →
      ∃ (replies : List (List Bytes)) (p' : Participant),
        p.Launch heap (accepts.map (Option.map Prod.fst)) =
          some (replies.map fun rs => rs.flatMap wire, p') ∧
        replies.map List.length = accepts.reduceOption.map (fun c => (arrived c).length) ∧
        runTasks p (accepts.reduceOption.flatMap arrived) = some (replies.flatten, p') := by
  intro accepts
  induction accepts with
  | nil => exact fun _ _ _ => ⟨[], _, rfl, rfl, rfl⟩
  | cons a accepts ih =>
    intro p hp harr hfits
    cases a with
    | none =>
      -- `keepAlive` calls `reaccept` again
      simpa only [List.map_cons, Option.map_none, Participant.Launch, List.reduceOption_cons_of_none]
        using ih hp harr hfits
    | some c =>
      rw [List.reduceOption_cons_of_some] at harr hfits ⊢
      obtain ⟨⟨replies, p₁⟩, hrun⟩ := runTasks_isSome (arrived c) hp fun task htask =>
        hfits c List.mem_cons_self task (List.mem_of_mem_take htask)
      obtain ⟨more, p', hlaunch, hlen, hmore⟩ := ih (runTasks_spec _ hp hrun).1
        (fun c' hc' => harr c' (List.mem_cons_of_mem _ hc'))
        (fun c' hc' => hfits c' (List.mem_cons_of_mem _ hc'))
      refine ⟨replies :: more, p', ?_, ?_, ?_⟩
      · have hserve := serve_arrives (heap (accepts.map (Option.map Prod.fst)).length) p
          (harr c List.mem_cons_self)
        rw [hrun] at hserve
        rw [List.map_cons, Option.map_some, Participant.Launch, hserve]
        simp only [Option.map_some, hlaunch, List.map_cons]
      · rw [List.map_cons, List.map_cons, hlen, length_of_runTasks hrun]
      · rw [List.flatMap_cons, List.flatten_cons]
        exact runTasks_append hrun hmore

end Tasks

/-- **The participant carries out what has arrived whole.** A participant process is started and
serves any number of connections; on each arrives any part of the packets that the coordinator sent
there, in any pieces and between any failed reads. It carries out, in order and once each, the tasks
whose packets have arrived whole, and no other; on each connection it sends the packets of their
replies. Its log and table then hold the commits that were applied. -/
theorem Launch_runs_whole_packets (heap : Nat → Nat → Nat → UInt8)
    (accepts : List (Option (Incoming × List Task)))
    (harr : ∀ c ∈ accepts.reduceOption, Arrives c.1 c.2)
    (hfits : ∀ c ∈ accepts.reduceOption, ∀ task ∈ c.2, task.Fits) :
    ∃ (replies : List (List Bytes)) (p : Participant),
      Participant.Init.Launch heap (accepts.map (Option.map Prod.fst)) =
        some (replies.map fun rs => rs.flatMap wire, p) ∧
      replies.map List.length = accepts.reduceOption.map (fun c => (arrived c).length) ∧
      runTasks Participant.Init (accepts.reduceOption.flatMap arrived) =
        some (replies.flatten, p) ∧
      p.Sound ∧
      p.events = (appliedIn (accepts.reduceOption.flatMap arrived) replies.flatten).map Prod.snd := by
  obtain ⟨replies, p, hlaunch, hlen, hrun⟩ :=
    Launch_arrives heap accepts Participant.sound_init harr hfits
  obtain ⟨hsound, -, -, hevents⟩ := runTasks_spec _ Participant.sound_init hrun
  exact ⟨replies, p, hlaunch, hlen, hrun, hsound, hevents⟩

/-- A commit whose packet breaks off is not carried out, and the same one on the next connection
is. -/
theorem Launch_runs_whole_packets_two_connections :
    let task : Task := .commit 0 (.SET [ascii "k", ascii "v"])
    let accepts : List (Option (Incoming × List Task)) :=
      [none, some ((packet task.text).map Event.byte |>.take 30, [task]),
        some ((packet task.text).map Event.byte, [task])]
    ∃ (replies : List (List Bytes)) (p : Participant),
      Participant.Init.Launch (fun _ _ _ => 0) (accepts.map (Option.map Prod.fst)) =
        some (replies.map fun rs => rs.flatMap wire, p) ∧
      replies.map List.length = [0, 1] := by
  intro task accepts
  have hsome : ∀ c ∈ accepts.reduceOption, c.2 = [task] ∧
      received c.1 <+: [task.text].flatMap packet := by
    intro c hc
    simp only [accepts, List.reduceOption_cons_of_none, List.reduceOption_cons_of_some,
      List.reduceOption_nil, List.mem_cons, List.not_mem_nil, or_false] at hc
    rcases hc with rfl | rfl
    · exact ⟨rfl, by decide +kernel⟩
    · exact ⟨rfl, by decide +kernel⟩
  have hfit : task.text.length < 2 ^ 31 ∧
      (getRESPArry (Update.SET [ascii "k", ascii "v"]).words).length < 2 ^ 31 := by decide +kernel
  have harr : ∀ c ∈ accepts.reduceOption, Arrives c.1 c.2 := by
    intro c hc
    obtain ⟨htasks, hpart⟩ := hsome c hc
    rw [htasks]
    exact ⟨by simpa using hfit.1, hpart⟩
  have hfits : ∀ c ∈ accepts.reduceOption, ∀ task ∈ c.2, task.Fits := by
    intro c hc t ht
    rw [(hsome c hc).1, List.mem_singleton] at ht
    rw [ht]
    exact hfit.2
  obtain ⟨replies, p, hlaunch, hlen, -⟩ :=
    Launch_runs_whole_packets (fun _ _ _ => 0) accepts harr hfits
  refine ⟨replies, p, hlaunch, ?_⟩
  rw [hlen]
  decide +kernel

end CloudLabs.KvStore
