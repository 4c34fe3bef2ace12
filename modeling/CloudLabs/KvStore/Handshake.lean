import CloudLabs.KvStore.Threads

/-!
# The handshake between issuing threads and worker threads

An issuing thread posts a task to a worker and later takes the worker's reply; the counters `full`
of the two locks are the tokens that pass between them. `Slot` is what one such pair shares. By
`Slot.Ok` there is one token in all while the issuing thread waits, and the worker has been through
as many rounds as it was asked, so that what it has written last belongs to the last task.

`Inv` is the invariant of all threads, and `Guar t` is what the thread `t` may do to the shared
state in one step. What a connection does is given by a `Contract`.
-/

set_option autoImplicit false

namespace CloudLabs.KvStore.Threads

open CloudLabs.Foundation
open Function (update)

/-- An element of a list with one more at its end. -/
theorem getElem?_concat_cases {α : Type} {l : List α} {a b : α} {k : Nat}
    (h : (l ++ [a])[k]? = some b) : l[k]? = some b ∨ (k = l.length ∧ a = b) := by
  by_cases hk : k < l.length
  · left
    rwa [List.getElem?_append_left hk] at h
  · right
    rw [List.getElem?_append_right (by omega), List.getElem?_singleton] at h
    split at h
    · exact ⟨by omega, Option.some.inj h⟩
    · cases h

/-! ## One worker thread and its locks -/

/-- What an issuing thread and a worker thread share: the counters `full` of the locks for the task
and for the reply, the history of the worker, and the buffers. -/
structure Slot (ν : Type) where
  task : Nat
  reply : Nat
  book : Book ν
  buf : Buffers

/-- The part of the state that belongs to one worker thread. -/
def Shared.slot {ν : Type} (s : Shared ν) (ch : Chan) (id : Nat) : Slot ν :=
  ⟨(s.lock ⟨ch, .task, id⟩).full, (s.lock ⟨ch, .ret, id⟩).full, s.book ch id, (s.c.p id).buf ch⟩

namespace Slot

variable {ν : Type}

/-- While an issuing thread waits there is one token: the task is posted, or the worker is in its
round, or the reply is posted. What the worker wrote in its last round is still in the buffers. -/
structure Ok (x : Slot ν) : Prop where
  tokens : x.task + x.book.inRound.toNat + x.reply = x.book.waiting.toNat
  rounds : x.book.answers.length + x.task + x.book.inRound.toNat = x.book.asked.length
  asked : x.book.waiting = true → ∃ t n, x.book.asked.getLast? = some ⟨t, x.buf.task, n⟩
  answered : x.book.inRound = false → ∀ a ∈ x.book.answers.getLast?,
    a.code = some x.buf.ret ∧ (x.buf.ret = KV_OK → a.data = some x.buf.dataRet)

/-- The worker has written its code, and data if that is `KV_OK`. -/
def Written (x : Slot ν) : Prop :=
  x.book.draft.code = some x.buf.ret ∧
    (x.buf.ret = KV_OK → x.book.draft.data = some x.buf.dataRet)

/-- `sem_wait` on `full` by the worker. -/
def begin (x : Slot ν) : Slot ν := { x with task := x.task - 1, book := x.book.waited .task .full }

/-- `sem_post` on `full` by the worker. -/
def finish (x : Slot ν) : Slot ν :=
  { x with
    reply := x.reply + 1
    book := { x.book with inRound := false, answers := x.book.answers ++ [x.book.draft] } }

/-- `sem_post` on `full` by the issuing thread `t`. -/
def ask (x : Slot ν) (t : Thread) (n : ν) : Slot ν :=
  { x with task := x.task + 1, book := x.book.posted ⟨t, x.buf.task, n⟩ .task .full }

/-- `sem_wait` on `full` by an issuing thread. -/
def take (x : Slot ν) : Slot ν := { x with reply := x.reply - 1, book := x.book.waited .ret .full }

/-- Writing the task buffer, the code and the data. -/
def setTask (x : Slot ν) (task : Bytes) : Slot ν := { x with buf := { x.buf with task := task } }

def setRet (x : Slot ν) (rc : Int) : Slot ν :=
  { x with book := x.book.setRet rc, buf := { x.buf with ret := rc } }

def setData (x : Slot ν) (rmsg : Bytes) : Slot ν :=
  { x with book := x.book.setData rmsg, buf := { x.buf with dataRet := rmsg } }

def setBusy (x : Slot ν) (busy : Bool) : Slot ν := { x with book := x.book.setBusy busy }

variable {x : Slot ν}

theorem Ok.begin (h : x.Ok) (htask : 0 < x.task) (hin : x.book.inRound = false) : x.begin.Ok := by
  have htokens := h.tokens
  have hrounds := h.rounds
  rw [hin, Bool.toNat_false] at htokens hrounds
  constructor
  · -- the token of the task becomes the round
    show x.task - 1 + 1 + x.reply = x.book.waiting.toNat
    omega
  · show x.book.answers.length + (x.task - 1) + 1 = x.book.asked.length
    omega
  · exact h.asked
  · intro hno
    cases hno

theorem Ok.finish (h : x.Ok) (hin : x.book.inRound = true) (hw : x.Written) : x.finish.Ok := by
  have htokens := h.tokens
  have hrounds := h.rounds
  rw [hin, Bool.toNat_true] at htokens hrounds
  constructor
  · -- the round becomes the token of the reply
    show x.task + 0 + (x.reply + 1) = x.book.waiting.toNat
    omega
  · show (x.book.answers ++ [x.book.draft]).length + x.task + 0 = x.book.asked.length
    rw [List.length_append, List.length_singleton]
    omega
  · exact h.asked
  · intro _ a ha
    have hlast : (x.book.answers ++ [x.book.draft]).getLast? = some x.book.draft :=
      List.getLast?_concat
    obtain rfl : x.book.draft = a := Option.some.inj (hlast.symm.trans ha)
    exact hw

theorem Ok.ask (h : x.Ok) (hwait : x.book.waiting = false) (t : Thread) (n : ν) :
    (x.ask t n).Ok := by
  have htokens := h.tokens
  have hrounds := h.rounds
  rw [hwait, Bool.toNat_false] at htokens
  constructor
  · show x.task + 1 + x.book.inRound.toNat + x.reply = 1
    omega
  · show x.book.answers.length + (x.task + 1) + x.book.inRound.toNat = (x.book.asked ++ [_]).length
    rw [List.length_append, List.length_singleton]
    omega
  · intro _
    exact ⟨t, n, List.getLast?_concat⟩
  · exact h.answered

theorem Ok.take (h : x.Ok) (hreply : 0 < x.reply) : x.take.Ok := by
  have htokens := h.tokens
  have hle := Bool.toNat_le x.book.waiting
  constructor
  · show x.task + x.book.inRound.toNat + (x.reply - 1) = 0
    omega
  · exact h.rounds
  · intro hno
    cases hno
  · exact h.answered

theorem Ok.setTask (h : x.Ok) (hwait : x.book.waiting = false) (task : Bytes) :
    (x.setTask task).Ok where
  tokens := h.tokens
  rounds := h.rounds
  asked := by
    intro hno
    rw [show (x.setTask task).book.waiting = x.book.waiting from rfl, hwait] at hno
    cases hno
  answered := h.answered

theorem Ok.setRet (h : x.Ok) (hin : x.book.inRound = true) (rc : Int) : (x.setRet rc).Ok where
  tokens := h.tokens
  rounds := h.rounds
  asked := h.asked
  answered := by
    intro hno
    rw [show (x.setRet rc).book.inRound = x.book.inRound from rfl, hin] at hno
    cases hno

theorem Ok.setData (h : x.Ok) (hin : x.book.inRound = true) (rmsg : Bytes) :
    (x.setData rmsg).Ok where
  tokens := h.tokens
  rounds := h.rounds
  asked := h.asked
  answered := by
    intro hno
    rw [show (x.setData rmsg).book.inRound = x.book.inRound from rfl, hin] at hno
    cases hno

/-- Between a reply and the next task the worker is not in a round. -/
theorem Ok.rest (h : x.Ok) (hwait : x.book.waiting = false) :
    x.task = 0 ∧ x.book.inRound = false ∧ x.reply = 0 := by
  have htokens := h.tokens
  rw [hwait, Bool.toNat_false] at htokens
  refine ⟨by omega, ?_, by omega⟩
  cases hin : x.book.inRound with
  | false => rfl
  | true =>
    rw [hin, Bool.toNat_true] at htokens
    omega

theorem Ok.waiting_of_inRound (h : x.Ok) (hin : x.book.inRound = true) :
    x.book.waiting = true := by
  cases hwait : x.book.waiting with
  | true => rfl
  | false =>
    rw [(h.rest hwait).2.1] at hin
    cases hin

/-- The tokens are in one place. -/
theorem Ok.task_eq_zero (h : x.Ok) (hin : x.book.inRound = true) : x.task = 0 ∧ x.reply = 0 := by
  have htokens := h.tokens
  have hle := Bool.toNat_le x.book.waiting
  rw [hin, Bool.toNat_true] at htokens
  omega

/-- What an issuing thread reads behind a reply was written for the last task. -/
theorem Ok.last (h : x.Ok) (hwait : x.book.waiting = false) (hasked : x.book.asked ≠ []) :
    ∃ a, x.book.answers[x.book.asked.length - 1]? = some a ∧ a.code = some x.buf.ret ∧
      (x.buf.ret = KV_OK → a.data = some x.buf.dataRet) := by
  obtain ⟨htask, hin, -⟩ := h.rest hwait
  have hrounds := h.rounds
  rw [hin, htask, Bool.toNat_false, Nat.add_zero] at hrounds
  have hne : x.book.answers ≠ [] := by
    intro hnil
    rw [hnil, List.length_nil] at hrounds
    exact hasked (List.length_eq_zero_iff.mp hrounds.symm)
  have hlast := List.getLast?_eq_some_getLast hne
  refine ⟨x.book.answers.getLast hne, ?_, h.answered hin _ hlast⟩
  rw [← hrounds, ← List.getLast?_eq_getElem?, hlast]

end Slot

/-- What an issuing thread does. -/
def Slot.Issued {ν : Type} (x x' : Slot ν) : Prop :=
  (0 < x.reply ∧ x' = x.take) ∨
    (x.book.waiting = false ∧ ((∃ t n, x' = x.ask t n) ∨ ∃ task, x' = x.setTask task))

/-- What the worker does: it begins a round, or in its round it leaves alone what belongs to the
issuing thread. -/
def Slot.Worked {ν : Type} (x x' : Slot ν) : Prop :=
  (0 < x.task ∧ x.book.inRound = false ∧ x' = x.begin) ∨
    (x.book.inRound = true ∧ x'.task = x.task ∧ x'.book.waiting = x.book.waiting ∧
      x'.book.asked = x.book.asked ∧ x'.buf.task = x.buf.task)

/-! ## The state as the protocol sees it -/

/-- What the locks, the states of the participants and their connections amount to. -/
structure View (ν : Type) where
  slot : Chan → Nat → Slot ν
  pstate : Nat → PState
  maxTxid : Nat → Option Nat
  tmpNum : Nat
  owner : Mutex → Option Thread
  net : Nat → ν
  readings : List Reading

def Shared.view {ν : Type} (s : Shared ν) : View ν where
  slot := s.slot
  pstate := fun id => (s.c.p id).pstate
  maxTxid := fun id => (s.c.p id).maxTxid
  tmpNum := s.c.tmpNum
  owner := s.owner
  net := s.net
  readings := s.readings

namespace View

variable {ν : Type}

def setSlot (v : View ν) (ch : Chan) (id : Nat) (x : Slot ν) : View ν :=
  { v with slot := update v.slot ch (update (v.slot ch) id x) }

def setPState (v : View ν) (id : Nat) (st : PState) : View ν :=
  { v with pstate := update v.pstate id st }

def setMaxTxid (v : View ν) (id : Nat) (m : Option Nat) : View ν :=
  { v with maxTxid := update v.maxTxid id m }

def setNet (v : View ν) (id : Nat) (n : ν) : View ν := { v with net := update v.net id n }

def setOwner (v : View ν) (m : Mutex) (t : Option Thread) : View ν :=
  { v with owner := update v.owner m t }

def setTmpNum (v : View ν) (n : Nat) : View ν := { v with tmpNum := n }

/-- Something was read of a worker's reply. -/
def read (v : View ν) (r : Reading) : View ν := { v with readings := v.readings ++ [r] }

@[simp] theorem setOwner_self (v : View ν) (m : Mutex) (o : Option Thread) :
    (v.setOwner m o).owner m = o := by
  show update v.owner m o m = o
  rw [Function.update_self]

theorem setOwner_of_ne (v : View ν) {m m' : Mutex} (o : Option Thread) (h : m' ≠ m) :
    (v.setOwner m o).owner m' = v.owner m' := by
  show update v.owner m o m' = v.owner m'
  rw [Function.update_of_ne h]

@[simp] theorem setSlot_self (v : View ν) (ch : Chan) (id : Nat) (x : Slot ν) :
    (v.setSlot ch id x).slot ch id = x := by
  show update v.slot ch (update (v.slot ch) id x) ch id = x
  rw [Function.update_self, Function.update_self]

theorem setSlot_of_ne (v : View ν) {ch ch' : Chan} {id id' : Nat} (x : Slot ν)
    (h : ¬ (ch' = ch ∧ id' = id)) : (v.setSlot ch id x).slot ch' id' = v.slot ch' id' := by
  show update v.slot ch (update (v.slot ch) id x) ch' id' = _
  by_cases hch : ch' = ch
  · subst hch
    rw [Function.update_self, Function.update_of_ne fun hid => h ⟨rfl, hid⟩]
  · rw [Function.update_of_ne hch]

end View

/-- The participants that are in the state `P_TEMP`. -/
def temps {ν : Type} (pnum : Nat) (v : View ν) : Nat :=
  (pids pnum).countP fun id => v.pstate id = .P_TEMP

/-- A participant with an entry in `maxTxidTB` is in recovery. -/
def Listed {ν : Type} (v : View ν) (id : Nat) : Prop :=
  v.maxTxid id ≠ none → v.pstate id = .P_RECOVERY

/-- The state in which a worker uses the connection. -/
def stateFor : Chan → PState
  | .working => .P_WORKING
  | .recovery => .P_RECOVERY

/-- An answer has the code or the text that was read of it. -/
def Answer.Has (a : Answer) : Int ⊕ Bytes → Prop
  | .inl code => a.code = some code
  | .inr data => a.code = some KV_OK ∧ a.data = some data

/-- A reading is of the answer to a task, which the thread that reads has posted itself. -/
def Reading.Valid {ν : Type} (r : Reading) (b : Book ν) : Prop :=
  0 < r.request ∧ (∃ q, b.asked[r.request - 1]? = some q ∧ q.poster = r.reader) ∧
    ∃ a : Answer, b.answers[r.request - 1]? = some a ∧ a.Has r.value

/-- Histories only grow. -/
theorem Reading.Valid.mono {ν : Type} {r : Reading} {b b' : Book ν} (h : r.Valid b)
    (hasked : ∀ (k : Nat) (q : Posting ν), b.asked[k]? = some q → b'.asked[k]? = some q)
    (hanswers : ∀ (k : Nat) (a : Answer), b.answers[k]? = some a → b'.answers[k]? = some a) :
    r.Valid b' := by
  obtain ⟨hpos, ⟨q, hq, hposter⟩, a, ha, hvalue⟩ := h
  exact ⟨hpos, ⟨q, hasked _ _ hq, hposter⟩, a, hanswers _ _ ha, hvalue⟩

/-! ## Connections -/

section Link

variable {ν : Type}

/-- Anything that happens to a connection. -/
def Link.Changes (N : Link ν) (n n' : ν) : Prop :=
  N.reconnect n n' ∨ (∃ smsg rc, N.send smsg n rc n') ∨ (∃ rc rmsg, N.recv n rc rmsg n') ∨
    N.close n n' ∨ N.move n n'

/-- The connection has gone from one state to another. -/
abbrev Link.Since (N : Link ν) : ν → ν → Prop := Relation.ReflTransGen N.Changes

/-- What a connection promises: `Clean` holds of one without a request under way, `Sent n₀ task`
after the request `task` that was sent since `n₀`, and `Output n₀ task data` says that since `n₀`
the participant has answered `task` with `data`. -/
structure Contract (N : Link ν) where
  Clean : ν → Prop
  Sent : ν → Bytes → ν → Prop
  Output : ν → Bytes → Bytes → ν → Prop
  reconnect : ∀ {n n'}, N.reconnect n n' → Clean n → Clean n'
  close : ∀ {n n'}, N.close n n' → Clean n'
  send : ∀ {n₀ n n' task}, N.send task n KV_OK n' → Clean n → N.Since n₀ n → Sent n₀ task n'
  recv : ∀ {n₀ n n' task data}, N.recv n KV_OK data n' → Sent n₀ task n →
    Clean n' ∧ Output n₀ task data n'
  moveClean : ∀ {n n'}, N.move n n' → Clean n → Clean n'
  moveSent : ∀ {n₀ n n' task}, N.move n n' → Sent n₀ task n → Sent n₀ task n'
  output : ∀ {n₀ n n' task data}, N.Changes n n' → Output n₀ task data n → Output n₀ task data n'

/-- Every connection keeps the contract that promises nothing. -/
def Contract.trivial (N : Link ν) : Contract N where
  Clean := fun _ => True
  Sent := fun _ _ _ => True
  Output := fun _ _ _ _ => True
  reconnect := fun _ _ => True.intro
  close := fun _ => True.intro
  send := fun _ _ _ => True.intro
  recv := fun _ _ => ⟨True.intro, True.intro⟩
  moveClean := fun _ _ => True.intro
  moveSent := fun _ _ => True.intro
  output := fun _ _ => True.intro

end Link

/-! ## The invariant -/

/-- A thread that may wait for a worker of the given kind. -/
def Issuer (t : Thread) (ch : Chan) : Prop := t = .recovery ∨ (t = .work ∧ ch = .working)

section Protocol

variable {ν : Type} {N : Link ν} (K : Contract N) (pnum : Nat)

/-- What holds of a worker thread of a participant when the rest of the state is `v`. -/
structure Fits (v : View ν) (ch : Chan) (id : Nat) (x : Slot ν) : Prop where
  ok : x.Ok
  issuer : x.book.waiting = true → ∃ t, v.owner .workingMutex = some t ∧ Issuer t ch ∧
    ∀ q ∈ x.book.asked.getLast?, q.poster = t
  listed : ch = .recovery → 0 < x.task → Listed v id
  told : ch = .recovery → 0 < x.reply → x.buf.ret = KV_OK → v.pstate id = .P_RECOVERY
  busy : x.book.busy = true → x.book.inRound = true ∧ v.pstate id = stateFor ch
  since : ∀ r ∈ x.book.asked, N.Since r.net (v.net id)
  output : ∀ (k : Nat) (a : Answer) (r : Posting ν), x.book.answers[k]? = some a →
    x.book.asked[k]? = some r → a.code = some KV_OK →
    ∃ data, a.data = some data ∧ K.Output r.net r.task data (v.net id)

structure Inv (v : View ν) : Prop where
  fits : ∀ ch id, Fits K v ch id (v.slot ch id)
  counted : v.owner .recoveryMutex = none → v.tmpNum = temps pnum v
  clean : ∀ id, (∀ ch, (v.slot ch id).book.busy = false) → K.Clean (v.net id)
  readings : ∀ r ∈ v.readings, r.Valid (v.slot r.ch r.id).book

/-! ## What each thread may do -/

/-- No thread waits for a worker of the participant. -/
def Quiet (v : View ν) (id : Nat) : Prop := ∀ ch, (v.slot ch id).book.waiting = false

/-- The changes of a participant's state, with the thread that makes them. -/
inductive Change (t : Thread) (v : View ν) (id : Nat) (st st' : PState) : Prop
  | connected : t = .keepAlive id → v.owner .recoveryMutex = some t → st = .P_WAITING →
      st' = .P_TEMP → Change t v id st st'
  | lost {ch : Chan} : t = .worker ch id → (v.slot ch id).book.inRound = true → st = stateFor ch →
      st' = .P_WAITING → Change t v id st st'
  | taken : t = .recovery → v.owner .recoveryMutex = some t → v.owner .workingMutex = some t →
      Quiet v id → st = .P_TEMP ∨ st = .P_WORKING → st' = .P_RECOVERY → Change t v id st st'
  | recovered : t = .recovery → v.owner .recoveryMutex = some t →
      v.owner .workingMutex = some t → Quiet v id → st = .P_RECOVERY → st' = .P_WORKING →
      Change t v id st st'

variable (N)

structure Guar (t : Thread) (v v' : View ν) : Prop where
  owner : ∀ m, v'.owner m = v.owner m ∨ (v.owner m = none ∧ v'.owner m = some t) ∨
    (v.owner m = some t ∧ v'.owner m = none)
  state : ∀ id, v'.pstate id = v.pstate id ∨ Change t v id (v.pstate id) (v'.pstate id)
  count : v'.tmpNum = v.tmpNum ∨ (v.owner .recoveryMutex = some t ∧
    (v'.tmpNum = v.tmpNum + 1 ∨ ∀ id ∈ pids pnum, v.pstate id ≠ .P_TEMP))
  release : t = .recovery → v.owner .recoveryMutex = some t → v'.owner .recoveryMutex = none →
    ∀ id ∈ pids pnum, v.pstate id ≠ .P_TEMP
  table : ∀ id, v'.maxTxid id = v.maxTxid id ∨
    (t = .worker .recovery id ∧ (v.slot .recovery id).book.inRound = true) ∨
    (t = .recovery ∧ (v.slot .recovery id).book.waiting = false)
  slot : ∀ ch id, v'.slot ch id = v.slot ch id ∨
    (v.owner .workingMutex = some t ∧ (v.slot ch id).Issued (v'.slot ch id)) ∨
    (t = .worker ch id ∧ (v.slot ch id).Worked (v'.slot ch id))
  finished : ∀ id, (v.slot .recovery id).book.inRound = true →
    (v'.slot .recovery id).book.inRound = false → Listed v' id
  net : ∀ id, v'.net id = v.net id ∨ (N.Changes (v.net id) (v'.net id) ∧
    (N.move (v.net id) (v'.net id) ∨ (t = .keepAlive id ∧ v.pstate id = .P_WAITING) ∨
      ∃ ch, t = .worker ch id ∧ (v.slot ch id).book.inRound = true ∧ v.pstate id = stateFor ch))

end Protocol

theorem stateFor_injective {ch ch' : Chan} (h : stateFor ch = stateFor ch') : ch = ch' := by
  cases ch <;> cases ch' <;> first | rfl | cases h

section Stable

variable {ν : Type} {N : Link ν} {K : Contract N} {pnum : Nat} {t t' : Thread} {v v' : View ν}
  {ch : Chan} {id : Nat}

/-! ## What the other threads leave alone -/

theorem Guar.owned (h : Guar N pnum t' v v') (hne : t' ≠ t) {m : Mutex} (hown : v.owner m = some t) :
    v'.owner m = some t := by
  rcases h.owner m with heq | ⟨hnone, -⟩ | ⟨hsome, -⟩
  · rw [heq, hown]
  · rw [hnone] at hown
    cases hown
  · rw [hsome] at hown
    exact absurd (Option.some.inj hown) hne

theorem Guar.notOwned (h : Guar N pnum t' v v') (hne : t' ≠ t) {m : Mutex}
    (hown : v.owner m ≠ some t) : v'.owner m ≠ some t := by
  rcases h.owner m with heq | ⟨-, hsome⟩ | ⟨-, hnone⟩
  · rw [heq]
    exact hown
  · rw [hsome]
    exact fun heq => hne (Option.some.inj heq)
  · rw [hnone]
    exact fun heq => by cases heq

/-- Only one thread holds a mutex. -/
theorem owner_ne (hne : t' ≠ t) {m : Mutex} (hown : v.owner m = some t) : v.owner m ≠ some t' := by
  rw [hown]
  exact fun heq => hne (Option.some.inj heq).symm

/-- During a round of a worker nobody else touches its slot. -/
theorem Guar.slot_of_inRound (h : Guar N pnum t' v v') (hv : Inv K pnum v)
    (hne : t' ≠ .worker ch id) (hin : (v.slot ch id).book.inRound = true) :
    v'.slot ch id = v.slot ch id := by
  have hok := (hv.fits ch id).ok
  rcases h.slot ch id with heq | ⟨-, hissued⟩ | ⟨heq, -⟩
  · exact heq
  · -- in a round there is no reply to take, and the issuing thread waits already
    rcases hissued with ⟨hreply, -⟩ | ⟨hwait, -⟩
    · rw [(hok.task_eq_zero hin).2] at hreply
      cases hreply
    · rw [hok.waiting_of_inRound hin] at hwait
      cases hwait
  · exact absurd heq hne

/-- While the issuing thread does not wait, nobody else touches the slot. -/
theorem Guar.slot_of_rest (h : Guar N pnum t' v v') (hv : Inv K pnum v) (hne : t' ≠ t)
    (hown : v.owner .workingMutex = some t) (hwait : (v.slot ch id).book.waiting = false) :
    v'.slot ch id = v.slot ch id := by
  obtain ⟨htask, hin, -⟩ := (hv.fits ch id).ok.rest hwait
  rcases h.slot ch id with heq | ⟨hother, -⟩ | ⟨-, hworked⟩
  · exact heq
  · exact absurd hother (owner_ne hne hown)
  · -- a worker without a task can neither begin a round nor go on in one
    rcases hworked with ⟨hpos, -⟩ | ⟨hround, -⟩
    · rw [htask] at hpos
      cases hpos
    · rw [hin] at hround
      cases hround

theorem Guar.waiting (h : Guar N pnum t' v v') (hne : t' ≠ t)
    (hown : v.owner .workingMutex = some t) :
    (v'.slot ch id).book.waiting = (v.slot ch id).book.waiting := by
  rcases h.slot ch id with heq | ⟨hother, -⟩ | ⟨-, hworked⟩
  · rw [heq]
  · exact absurd hother (owner_ne hne hown)
  · rcases hworked with ⟨-, -, heq⟩ | ⟨-, -, hwait, -⟩
    · rw [heq]
      rfl
    · exact hwait

/-- Outside of its rounds a worker's own part of the slot does not change. -/
theorem Guar.idle (h : Guar N pnum t' v v') (hne : t' ≠ .worker ch id) :
    (v'.slot ch id).book.inRound = (v.slot ch id).book.inRound ∧
      (v'.slot ch id).book.busy = (v.slot ch id).book.busy := by
  rcases h.slot ch id with heq | ⟨-, hissued⟩ | ⟨heq, -⟩
  · rw [heq]
    exact ⟨rfl, rfl⟩
  · rcases hissued with ⟨-, heq⟩ | ⟨-, ⟨t, n, heq⟩ | ⟨task, heq⟩⟩ <;> rw [heq] <;> exact ⟨rfl, rfl⟩
  · exact absurd heq hne

/-- A participant whose worker is in a round stays in the state for it. -/
theorem Guar.pstate_of_inRound (h : Guar N pnum t' v v') (hv : Inv K pnum v)
    (hne : t' ≠ .worker ch id) (hin : (v.slot ch id).book.inRound = true)
    (hst : v.pstate id = stateFor ch) : v'.pstate id = stateFor ch := by
  have hwait := (hv.fits ch id).ok.waiting_of_inRound hin
  rcases h.state id with heq | hchange
  · rw [heq, hst]
  · cases hchange with
    | connected _ _ heq =>
      rw [hst] at heq
      cases ch <;> cases heq
    | lost ht _ heq =>
      rw [hst] at heq
      rw [stateFor_injective heq] at hne
      exact absurd ht hne
    -- the recovery thread leaves a participant alone while a thread waits for its worker
    | taken _ _ _ hquiet =>
      rw [hquiet ch] at hwait
      cases hwait
    | recovered _ _ _ hquiet =>
      rw [hquiet ch] at hwait
      cases hwait

/-- While a thread holds `_recoveryMutex`, no other thread changes who is in the state `P_TEMP`. -/
theorem Guar.temp_iff (h : Guar N pnum t' v v') (hne : t' ≠ t)
    (hown : v.owner .recoveryMutex = some t) (id : Nat) :
    v'.pstate id = .P_TEMP ↔ v.pstate id = .P_TEMP := by
  have hother := owner_ne hne hown
  rcases h.state id with heq | hchange
  · rw [heq]
  · cases hchange with
    | connected _ howner => exact absurd howner hother
    -- a worker leaves the state it works in for `P_WAITING`
    | @lost ch _ _ hst hst' =>
      rw [hst, hst']
      cases ch <;> decide
    | taken _ howner => exact absurd howner hother
    | recovered _ howner => exact absurd howner hother

theorem Guar.temps (h : Guar N pnum t' v v') (hne : t' ≠ t)
    (hown : v.owner .recoveryMutex = some t) : temps pnum v' = temps pnum v := by
  apply List.countP_congr
  intro id _
  simpa using h.temp_iff hne hown id

theorem Guar.tmpNum (h : Guar N pnum t' v v') (hne : t' ≠ t)
    (hown : v.owner .recoveryMutex = some t) : v'.tmpNum = v.tmpNum := by
  rcases h.count with heq | ⟨howner, -⟩
  · exact heq
  · exact absurd howner (owner_ne hne hown)

/-- Only its own thread `keepAlive` takes a participant out of the state `P_WAITING`. -/
theorem Guar.stays_waiting (h : Guar N pnum t' v v') (hne : t' ≠ .keepAlive id)
    (hst : v.pstate id = .P_WAITING) : v'.pstate id = .P_WAITING := by
  rcases h.state id with heq | hchange
  · rw [heq, hst]
  · cases hchange with
    | connected ht => exact absurd ht hne
    | lost _ _ _ hst' => exact hst'
    | taken _ _ _ _ hfrom =>
      rw [hst] at hfrom
      rcases hfrom with heq | heq <;> cases heq
    | recovered _ _ _ _ hfrom =>
      rw [hst] at hfrom
      cases hfrom

/-- During a round of `pRecovery` nobody else touches the participant's entry of `maxTxidTB`. -/
theorem Guar.maxTxid_of_inRound (h : Guar N pnum t' v v') (hv : Inv K pnum v)
    (hne : t' ≠ .worker .recovery id) (hin : (v.slot .recovery id).book.inRound = true) :
    v'.maxTxid id = v.maxTxid id := by
  rcases h.table id with heq | ⟨ht, -⟩ | ⟨-, hwait⟩
  · exact heq
  · exact absurd ht hne
  · rw [(hv.fits .recovery id).ok.waiting_of_inRound hin] at hwait
    cases hwait

/-- While the recovery thread does not wait for `pRecovery`, only it changes the entry. -/
theorem Guar.maxTxid_of_rest (h : Guar N pnum t' v v') (hv : Inv K pnum v) (hne : t' ≠ .recovery)
    (hwait : (v.slot .recovery id).book.waiting = false) : v'.maxTxid id = v.maxTxid id := by
  rcases h.table id with heq | ⟨-, hin⟩ | ⟨ht, -⟩
  · exact heq
  · rw [((hv.fits .recovery id).ok.rest hwait).2.1] at hin
    cases hin
  · exact absurd ht hne

/-- While a worker is in a round and the participant in the state for it, only the participant and
the network change the connection besides. -/
theorem Guar.net_of_inRound (h : Guar N pnum t' v v') (hne : t' ≠ .worker ch id)
    (hst : v.pstate id = stateFor ch) : v'.net id = v.net id ∨ N.move (v.net id) (v'.net id) := by
  rcases h.net id with heq | ⟨-, hmove | ⟨-, hwait⟩ | ⟨ch', ht, -, hst'⟩⟩
  · exact .inl heq
  · exact .inr hmove
  · -- `keepAlive` connects in the state `P_WAITING`, in which no worker is
    rw [hst] at hwait
    cases ch <;> cases hwait
  · -- the other worker would need the other state
    rw [hst] at hst'
    rw [← stateFor_injective hst'] at ht
    exact absurd ht hne

theorem Guar.output (h : Guar N pnum t' v v') {n₀ : ν} {task data : Bytes}
    (hout : K.Output n₀ task data (v.net id)) : K.Output n₀ task data (v'.net id) := by
  rcases h.net id with heq | ⟨hchanges, -⟩
  · rw [heq]
    exact hout
  · exact K.output hchanges hout

end Stable

section Updates

variable {ν : Type} {N : Link ν} {K : Contract N} {pnum : Nat} {t : Thread} {v v' : View ν}
  {ch : Chan} {id : Nat} {x : Slot ν}

/-! ## The invariant of one worker thread -/

theorem Fits.congr (h : Fits K v ch id x) (howner : v'.owner .workingMutex = v.owner .workingMutex)
    (htable : v'.maxTxid id = v.maxTxid id) (hst : v'.pstate id = v.pstate id)
    (hnet : v'.net id = v.net id) : Fits K v' ch id x where
  ok := h.ok
  issuer := by
    rw [howner]
    exact h.issuer
  listed := by
    rw [Listed, htable, hst]
    exact h.listed
  told := by
    rw [hst]
    exact h.told
  busy := by
    rw [hst]
    exact h.busy
  since := by
    rw [hnet]
    exact h.since
  output := by
    rw [hnet]
    exact h.output

theorem Fits.begin (h : Fits K v ch id x) (htask : 0 < x.task) (hin : x.book.inRound = false) :
    Fits K v ch id x.begin where
  ok := h.ok.begin htask hin
  issuer := h.issuer
  listed := fun hch _ => h.listed hch htask
  told := h.told
  busy := fun hbusy => ⟨rfl, (h.busy hbusy).2⟩
  since := h.since
  output := h.output

/-- The end of a round: the code and the data that were written stand for the last task. -/
theorem Fits.finish (h : Fits K v ch id x) (hin : x.book.inRound = true)
    (hbusy : x.book.busy = false) (hw : x.Written)
    (htold : ch = .recovery → x.buf.ret = KV_OK → v.pstate id = .P_RECOVERY)
    (hout : x.buf.ret = KV_OK → ∀ r ∈ x.book.asked.getLast?,
      K.Output r.net x.buf.task x.buf.dataRet (v.net id)) :
    Fits K v ch id x.finish where
  ok := h.ok.finish hin hw
  issuer := h.issuer
  listed := h.listed
  told := fun hch _ => htold hch
  busy := by
    intro hno
    rw [show x.finish.book.busy = x.book.busy from rfl, hbusy] at hno
    cases hno
  since := h.since
  output := by
    intro k a r ha hr hcode
    rcases getElem?_concat_cases ha with hold | ⟨rfl, rfl⟩
    · exact h.output k a r hold hr hcode
    · -- The answer is the new one, and the task is the last.
      have hrounds := h.ok.rounds
      rw [hin, Bool.toNat_true, (h.ok.task_eq_zero hin).1] at hrounds
      have hret : x.buf.ret = KV_OK := Option.some.inj (hw.1.symm.trans hcode)
      obtain ⟨t, n, hlast⟩ := h.ok.asked (h.ok.waiting_of_inRound hin)
      have hout := hout hret _ hlast
      rw [List.getLast?_eq_getElem?, ← hrounds] at hlast
      obtain rfl : ⟨t, x.buf.task, n⟩ = r := Option.some.inj (hlast.symm.trans hr)
      exact ⟨_, hw.2 hret, hout⟩

theorem Fits.ask (h : Fits K v ch id x) (hwait : x.book.waiting = false)
    (howner : v.owner .workingMutex = some t) (hissuer : Issuer t ch)
    (hlisted : ch = .recovery → Listed v id) : Fits K v ch id (x.ask t (v.net id)) where
  ok := h.ok.ask hwait _ _
  issuer := by
    intro _
    refine ⟨t, howner, hissuer, ?_⟩
    intro q hq
    rw [show (x.ask t (v.net id)).book.asked = x.book.asked ++ [⟨t, x.buf.task, v.net id⟩] from rfl,
      List.getLast?_concat] at hq
    rw [← Option.some.inj hq]
  listed := fun hch _ => hlisted hch
  told := h.told
  busy := h.busy
  since := by
    intro r hr
    rcases List.mem_append.mp hr with hold | hnew
    · exact h.since r hold
    · rw [List.mem_singleton.mp hnew]
  output := by
    intro k a r ha hr hcode
    rcases getElem?_concat_cases hr with hold | ⟨rfl, -⟩
    · exact h.output k a r ha hold hcode
    · -- There is no answer to the new task.
      obtain ⟨hk, -⟩ := List.getElem?_eq_some_iff.mp ha
      have hrounds := h.ok.rounds
      have hlen : (x.ask t (v.net id)).book.answers.length = x.book.answers.length := rfl
      omega

theorem Fits.take (h : Fits K v ch id x) (hreply : 0 < x.reply) : Fits K v ch id x.take where
  ok := h.ok.take hreply
  issuer := fun hno => by cases hno
  listed := h.listed
  told := fun hch _ => h.told hch hreply
  busy := h.busy
  since := h.since
  output := h.output

theorem Fits.setTask (h : Fits K v ch id x) (hwait : x.book.waiting = false) (task : Bytes) :
    Fits K v ch id (x.setTask task) where
  ok := h.ok.setTask hwait task
  issuer := h.issuer
  listed := h.listed
  told := h.told
  busy := h.busy
  since := h.since
  output := h.output

theorem Fits.setRet (h : Fits K v ch id x) (hin : x.book.inRound = true) (rc : Int) :
    Fits K v ch id (x.setRet rc) where
  ok := h.ok.setRet hin rc
  issuer := h.issuer
  listed := h.listed
  told := by
    intro _ hreply
    rw [show (x.setRet rc).reply = x.reply from rfl, (h.ok.task_eq_zero hin).2] at hreply
    cases hreply
  busy := h.busy
  since := h.since
  output := h.output

theorem Fits.setData (h : Fits K v ch id x) (hin : x.book.inRound = true) (rmsg : Bytes) :
    Fits K v ch id (x.setData rmsg) where
  ok := h.ok.setData hin rmsg
  issuer := h.issuer
  listed := h.listed
  told := h.told
  busy := h.busy
  since := h.since
  output := h.output

theorem Fits.setBusy (h : Fits K v ch id x) (busy : Bool)
    (hbusy : busy = true → x.book.inRound = true ∧ v.pstate id = stateFor ch) :
    Fits K v ch id (x.setBusy busy) where
  ok := ⟨h.ok.tokens, h.ok.rounds, h.ok.asked, h.ok.answered⟩
  issuer := h.issuer
  listed := h.listed
  told := h.told
  busy := hbusy
  since := h.since
  output := h.output

/-! ## Steps that change one slot -/

/-- A step that leaves the slots alone ends no round. -/
theorem finished_of_slot (h : v'.slot = v.slot) (id : Nat)
    (hin : (v.slot .recovery id).book.inRound = true)
    (hnot : (v'.slot .recovery id).book.inRound = false) : Listed v' id := by
  rw [h, hin] at hnot
  cases hnot

theorem Guar.refl (t : Thread) (v : View ν) : Guar N pnum t v v where
  owner := fun _ => .inl rfl
  state := fun _ => .inl rfl
  count := .inl rfl
  release := by
    intro _ hown hnone
    rw [hown] at hnone
    cases hnone
  table := fun _ => .inl rfl
  slot := fun _ _ => .inl rfl
  finished := finished_of_slot rfl
  net := fun _ => .inl rfl

theorem Guar.setSlot
    (h : (v.owner .workingMutex = some t ∧ (v.slot ch id).Issued x) ∨
      (t = .worker ch id ∧ (v.slot ch id).Worked x))
    (hfin : ch = .recovery → (v.slot ch id).book.inRound = true → x.book.inRound = false →
      Listed v id) : Guar N pnum t v (v.setSlot ch id x) where
  owner := fun _ => .inl rfl
  state := fun _ => .inl rfl
  count := .inl rfl
  release := (Guar.refl (N := N) t v).release
  table := fun _ => .inl rfl
  slot := by
    intro ch' id'
    by_cases heq : ch' = ch ∧ id' = id
    · obtain ⟨rfl, rfl⟩ := heq
      rw [View.setSlot_self]
      exact .inr h
    · rw [View.setSlot_of_ne v x heq]
      exact .inl rfl
  finished := by
    intro id' hin hnot
    by_cases heq : Chan.recovery = ch ∧ id' = id
    · obtain ⟨rfl, rfl⟩ := heq
      rw [View.setSlot_self] at hnot
      exact hfin rfl hin hnot
    · rw [View.setSlot_of_ne v x heq, hin] at hnot
      cases hnot
  net := fun _ => .inl rfl

theorem Inv.setSlot (hv : Inv K pnum v) (hx : Fits K v ch id x)
    (hbusy : x.book.busy = (v.slot ch id).book.busy)
    (hread : ∀ r : Reading, r.Valid (v.slot ch id).book → r.Valid x.book) :
    Inv K pnum (v.setSlot ch id x) where
  fits := by
    intro ch' id'
    by_cases heq : ch' = ch ∧ id' = id
    · obtain ⟨rfl, rfl⟩ := heq
      rw [View.setSlot_self]
      exact hx.congr rfl rfl rfl rfl
    · rw [View.setSlot_of_ne v x heq]
      exact (hv.fits ch' id').congr rfl rfl rfl rfl
  counted := hv.counted
  clean := by
    intro id' hfree
    apply hv.clean id'
    intro ch'
    have hfree := hfree ch'
    by_cases heq : ch' = ch ∧ id' = id
    · obtain ⟨rfl, rfl⟩ := heq
      rwa [View.setSlot_self, hbusy] at hfree
    · rwa [View.setSlot_of_ne v x heq] at hfree
  readings := by
    intro r hr
    have hold := hv.readings r hr
    by_cases heq : r.ch = ch ∧ r.id = id
    · obtain ⟨rfl, rfl⟩ := heq
      rw [View.setSlot_self]
      exact hread r hold
    · rw [View.setSlot_of_ne v x heq]
      exact hold

/-! ## Steps that change the state of a participant or its entry -/

/-- A worker whose state the participant is not in has no use for that state. -/
theorem Fits.setPState_of_ne (h : Fits K v ch id x) (hne : v.pstate id ≠ stateFor ch) (st : PState) :
    Fits K (v.setPState id st) ch id x where
  ok := h.ok
  issuer := h.issuer
  listed := by
    rintro rfl htask hentry
    exact absurd (h.listed rfl htask hentry) hne
  told := by
    rintro rfl hreply hret
    exact absurd (h.told rfl hreply hret) hne
  busy := fun hbusy => absurd (h.busy hbusy).2 hne
  since := h.since
  output := h.output

/-- Neither has one that has no token and does not use the connection. -/
theorem Fits.setPState_of_idle (h : Fits K v ch id x) (htask : x.task = 0) (hreply : x.reply = 0)
    (hbusy : x.book.busy = false) (st : PState) : Fits K (v.setPState id st) ch id x where
  ok := h.ok
  issuer := h.issuer
  listed := by
    intro _ hpos
    rw [htask] at hpos
    cases hpos
  told := by
    intro _ hpos
    rw [hreply] at hpos
    cases hpos
  busy := by
    intro hno
    rw [hbusy] at hno
    cases hno
  since := h.since
  output := h.output

theorem Fits.setMaxTxid (h : Fits K v ch id x) (htask : ch = .recovery → x.task = 0)
    (m : Option Nat) : Fits K (v.setMaxTxid id m) ch id x where
  ok := h.ok
  issuer := h.issuer
  listed := by
    intro hch hpos
    rw [htask hch] at hpos
    cases hpos
  told := h.told
  busy := h.busy
  since := h.since
  output := h.output

theorem Fits.busy_eq_false (h : Fits K v ch id x) (hin : x.book.inRound = false) :
    x.book.busy = false := by
  cases hbusy : x.book.busy with
  | false => rfl
  | true =>
    rw [(h.busy hbusy).1] at hin
    cases hin

theorem Guar.setPState {st : PState} (h : Change t v id (v.pstate id) st) :
    Guar N pnum t v (v.setPState id st) where
  owner := fun _ => .inl rfl
  state := by
    intro id'
    by_cases heq : id' = id
    · subst heq
      right
      rw [show (v.setPState id' st).pstate id' = st from Function.update_self ..]
      exact h
    · exact .inl (Function.update_of_ne heq ..)
  count := .inl rfl
  release := (Guar.refl (N := N) t v).release
  table := fun _ => .inl rfl
  slot := fun _ _ => .inl rfl
  finished := finished_of_slot rfl
  net := fun _ => .inl rfl

theorem Inv.setPState (hv : Inv K pnum v) {st : PState}
    (hfits : ∀ ch, Fits K (v.setPState id st) ch id (v.slot ch id))
    (htemp : v.owner .recoveryMutex = none → v.pstate id ≠ .P_TEMP ∧ st ≠ .P_TEMP) :
    Inv K pnum (v.setPState id st) where
  fits := by
    intro ch' id'
    by_cases heq : id' = id
    · subst heq
      exact hfits ch'
    · exact (hv.fits ch' id').congr rfl rfl (Function.update_of_ne heq ..) rfl
  counted := by
    intro hnone
    obtain ⟨hold, hnew⟩ := htemp hnone
    -- neither the old state nor the new one is counted
    have htemps : temps pnum (v.setPState id st) = temps pnum v := by
      apply List.countP_congr
      intro id' _
      by_cases heq : id' = id
      · subst heq
        rw [show (v.setPState id' st).pstate id' = st from Function.update_self ..]
        simp [hold, hnew]
      · rw [show (v.setPState id st).pstate id' = v.pstate id' from Function.update_of_ne heq ..]
    rw [htemps]
    exact hv.counted hnone
  clean := hv.clean
  readings := hv.readings

theorem Guar.setMaxTxid {m : Option Nat}
    (h : (t = .worker .recovery id ∧ (v.slot .recovery id).book.inRound = true) ∨
      (t = .recovery ∧ (v.slot .recovery id).book.waiting = false)) :
    Guar N pnum t v (v.setMaxTxid id m) where
  owner := fun _ => .inl rfl
  state := fun _ => .inl rfl
  count := .inl rfl
  release := (Guar.refl (N := N) t v).release
  table := by
    intro id'
    by_cases heq : id' = id
    · subst heq
      exact .inr h
    · exact .inl (Function.update_of_ne heq ..)
  slot := fun _ _ => .inl rfl
  finished := finished_of_slot rfl
  net := fun _ => .inl rfl

theorem Inv.setMaxTxid (hv : Inv K pnum v) (htask : (v.slot .recovery id).task = 0)
    (m : Option Nat) : Inv K pnum (v.setMaxTxid id m) where
  fits := by
    intro ch' id'
    by_cases heq : id' = id
    · subst heq
      apply (hv.fits ch' id').setMaxTxid
      rintro rfl
      exact htask
    · exact (hv.fits ch' id').congr rfl (Function.update_of_ne heq ..) rfl rfl
  counted := hv.counted
  clean := hv.clean
  readings := hv.readings

/-! ## Steps on a connection -/

/-- A worker's call on the connection. -/
theorem Guar.useNet {n : ν} {busy : Bool} (hin : (v.slot ch id).book.inRound = true)
    (hst : v.pstate id = stateFor ch) (hchanges : N.Changes (v.net id) n) :
    Guar N pnum (.worker ch id) v
      ((v.setNet id n).setSlot ch id ((v.slot ch id).setBusy busy)) where
  owner := fun _ => .inl rfl
  state := fun _ => .inl rfl
  count := .inl rfl
  release := fun ht => by cases ht
  table := fun _ => .inl rfl
  slot := by
    intro ch' id'
    by_cases heq : ch' = ch ∧ id' = id
    · obtain ⟨rfl, rfl⟩ := heq
      rw [View.setSlot_self]
      exact .inr (.inr ⟨rfl, .inr ⟨hin, rfl, rfl, rfl, rfl⟩⟩)
    · rw [View.setSlot_of_ne _ _ heq]
      exact .inl rfl
  finished := by
    intro id' hin' hnot
    by_cases heq : Chan.recovery = ch ∧ id' = id
    · obtain ⟨rfl, rfl⟩ := heq
      rw [View.setSlot_self] at hnot
      rw [show ((v.slot .recovery id').setBusy busy).book.inRound =
        (v.slot .recovery id').book.inRound from rfl, hin] at hnot
      cases hnot
    · rw [View.setSlot_of_ne _ _ heq] at hnot
      rw [show (v.setNet id n).slot = v.slot from rfl, hin'] at hnot
      cases hnot
  net := by
    intro id'
    by_cases heq : id' = id
    · subst heq
      right
      rw [show ((v.setNet id' n).setSlot ch id' ((v.slot ch id').setBusy busy)).net id' = n from
        Function.update_self ..]
      exact ⟨hchanges, .inr (.inr ⟨ch, rfl, hin, hst⟩)⟩
    · exact .inl (Function.update_of_ne heq ..)

/-- The histories still agree with the connection. -/
theorem Fits.setNet (h : Fits K v ch id x) {n : ν} (hchanges : N.Changes (v.net id) n) :
    Fits K (v.setNet id n) ch id x where
  ok := h.ok
  issuer := h.issuer
  listed := h.listed
  told := h.told
  busy := h.busy
  since := by
    intro r hr
    rw [show (v.setNet id n).net id = n from Function.update_self ..]
    exact (h.since r hr).tail hchanges
  output := by
    intro k a r ha hr hcode
    obtain ⟨data, hdata, hout⟩ := h.output k a r ha hr hcode
    refine ⟨data, hdata, ?_⟩
    rw [show (v.setNet id n).net id = n from Function.update_self ..]
    exact K.output hchanges hout

theorem Inv.setNet (hv : Inv K pnum v) {n : ν} (hchanges : N.Changes (v.net id) n)
    (hclean : (∀ ch, (v.slot ch id).book.busy = false) → K.Clean n) :
    Inv K pnum (v.setNet id n) where
  fits := by
    intro ch' id'
    by_cases heq : id' = id
    · subst heq
      exact (hv.fits ch' id').setNet hchanges
    · exact (hv.fits ch' id').congr rfl rfl rfl (Function.update_of_ne heq ..)
  counted := hv.counted
  clean := by
    intro id' hfree
    by_cases heq : id' = id
    · subst heq
      rw [show (v.setNet id' n).net id' = n from Function.update_self ..]
      exact hclean hfree
    · rw [show (v.setNet id n).net id' = v.net id' from Function.update_of_ne heq ..]
      exact hv.clean id' hfree
  readings := hv.readings

theorem Inv.useNet (hv : Inv K pnum v) {n : ν} {busy : Bool}
    (hin : (v.slot ch id).book.inRound = true) (hst : v.pstate id = stateFor ch)
    (hchanges : N.Changes (v.net id) n) (hclean : busy = false → K.Clean n) :
    Inv K pnum ((v.setNet id n).setSlot ch id ((v.slot ch id).setBusy busy)) where
  fits := by
    intro ch' id'
    by_cases heq : ch' = ch ∧ id' = id
    · obtain ⟨rfl, rfl⟩ := heq
      rw [View.setSlot_self]
      have hfits := ((hv.fits ch' id').setNet hchanges).setBusy busy fun _ => ⟨hin, hst⟩
      exact hfits.congr rfl rfl rfl rfl
    · rw [View.setSlot_of_ne _ _ heq]
      by_cases hid : id' = id
      · subst hid
        exact ((hv.fits ch' id').setNet hchanges).congr rfl rfl rfl rfl
      · exact (hv.fits ch' id').congr rfl rfl rfl (Function.update_of_ne hid ..)
  counted := hv.counted
  clean := by
    intro id' hfree
    by_cases hid : id' = id
    · subst hid
      rw [show ((v.setNet id' n).setSlot ch id' ((v.slot ch id').setBusy busy)).net id' = n from
        Function.update_self ..]
      -- the connection is free again only if the worker leaves it clean
      have hown := hfree ch
      rw [View.setSlot_self] at hown
      exact hclean hown
    · rw [show ((v.setNet id n).setSlot ch id ((v.slot ch id).setBusy busy)).net id' = v.net id' from
        Function.update_of_ne hid ..]
      apply hv.clean id'
      intro ch'
      have hother := hfree ch'
      rwa [View.setSlot_of_ne _ _ fun heq => hid heq.2] at hother
  readings := by
    intro r hr
    have hold := hv.readings r hr
    by_cases heq : r.ch = ch ∧ r.id = id
    · obtain ⟨rfl, rfl⟩ := heq
      rw [View.setSlot_self]
      exact hold
    · rw [View.setSlot_of_ne _ _ heq]
      exact hold

/-- `keepAlive` connects, or something happens by itself. -/
theorem Guar.setNet {n : ν} (hchanges : N.Changes (v.net id) n)
    (h : N.move (v.net id) n ∨ (t = .keepAlive id ∧ v.pstate id = .P_WAITING)) :
    Guar N pnum t v (v.setNet id n) where
  owner := fun _ => .inl rfl
  state := fun _ => .inl rfl
  count := .inl rfl
  release := (Guar.refl (N := N) t v).release
  table := fun _ => .inl rfl
  slot := fun _ _ => .inl rfl
  finished := finished_of_slot rfl
  net := by
    intro id'
    by_cases heq : id' = id
    · subst heq
      right
      rw [show (v.setNet id' n).net id' = n from Function.update_self ..]
      exact ⟨hchanges, h.imp_right .inl⟩
    · exact .inl (Function.update_of_ne heq ..)

/-! ## Steps on the mutexes and the counter -/

theorem Guar.lock {m : Mutex} (h : v.owner m = none) :
    Guar N pnum t v (v.setOwner m (some t)) where
  owner := by
    intro m'
    by_cases heq : m' = m
    · subst heq
      exact .inr (.inl ⟨h, View.setOwner_self v m' (some t)⟩)
    · exact .inl (View.setOwner_of_ne v (some t) heq)
  state := fun _ => .inl rfl
  count := .inl rfl
  release := by
    intro _ hown hnone
    by_cases heq : Mutex.recoveryMutex = m
    · -- a mutex that is taken now was not held
      rw [heq, h] at hown
      cases hown
    · rw [View.setOwner_of_ne v (some t) heq, hown] at hnone
      cases hnone
  table := fun _ => .inl rfl
  slot := fun _ _ => .inl rfl
  finished := finished_of_slot rfl
  net := fun _ => .inl rfl

theorem Guar.unlock {m : Mutex} (h : v.owner m = some t)
    (hrelease : t = .recovery → m = .recoveryMutex → ∀ id ∈ pids pnum, v.pstate id ≠ .P_TEMP) :
    Guar N pnum t v (v.setOwner m none) where
  owner := by
    intro m'
    by_cases heq : m' = m
    · subst heq
      exact .inr (.inr ⟨h, View.setOwner_self v m' none⟩)
    · exact .inl (View.setOwner_of_ne v none heq)
  state := fun _ => .inl rfl
  count := .inl rfl
  release := by
    intro ht hown hnone
    by_cases heq : Mutex.recoveryMutex = m
    · exact hrelease ht heq.symm
    · rw [View.setOwner_of_ne v none heq, hown] at hnone
      cases hnone
  table := fun _ => .inl rfl
  slot := fun _ _ => .inl rfl
  finished := finished_of_slot rfl
  net := fun _ => .inl rfl

/-- The owner of `_workingMutex` may change while no thread waits. -/
theorem Inv.setOwner (hv : Inv K pnum v) {m : Mutex} {o : Option Thread}
    (hworking : m = .workingMutex → ∀ ch id, (v.slot ch id).book.waiting = false)
    (hrecovery : m = .recoveryMutex → o = none → v.tmpNum = temps pnum v) :
    Inv K pnum (v.setOwner m o) where
  fits := by
    intro ch id
    have hfits := hv.fits ch id
    refine ⟨hfits.ok, ?_, hfits.listed, hfits.told, hfits.busy, hfits.since, hfits.output⟩
    intro hwait
    by_cases heq : Mutex.workingMutex = m
    · rw [show (v.setOwner m o).slot = v.slot from rfl, hworking heq.symm] at hwait
      cases hwait
    · rw [View.setOwner_of_ne v o heq]
      exact hfits.issuer hwait
  counted := by
    intro hnone
    by_cases heq : Mutex.recoveryMutex = m
    · subst heq
      rw [View.setOwner_self] at hnone
      exact hrecovery rfl hnone
    · rw [View.setOwner_of_ne v o heq] at hnone
      exact hv.counted hnone
  clean := hv.clean
  readings := hv.readings

/-- No thread waits for a worker while nobody holds `_workingMutex`. -/
theorem Inv.not_waiting (hv : Inv K pnum v) (h : v.owner .workingMutex = none) (ch : Chan)
    (id : Nat) : (v.slot ch id).book.waiting = false := by
  cases hwait : (v.slot ch id).book.waiting with
  | false => rfl
  | true =>
    obtain ⟨t, howner, -⟩ := (hv.fits ch id).issuer hwait
    rw [h] at howner
    cases howner

theorem Guar.setTmpNum {n : Nat} (hown : v.owner .recoveryMutex = some t)
    (h : n = v.tmpNum + 1 ∨ ∀ id ∈ pids pnum, v.pstate id ≠ .P_TEMP) :
    Guar N pnum t v (v.setTmpNum n) where
  owner := fun _ => .inl rfl
  state := fun _ => .inl rfl
  count := .inr ⟨hown, h⟩
  release := (Guar.refl (N := N) t v).release
  table := fun _ => .inl rfl
  slot := fun _ _ => .inl rfl
  finished := finished_of_slot rfl
  net := fun _ => .inl rfl

theorem Inv.setTmpNum (hv : Inv K pnum v) (hown : v.owner .recoveryMutex = some t) (n : Nat) :
    Inv K pnum (v.setTmpNum n) where
  fits := fun ch id => (hv.fits ch id).congr rfl rfl rfl rfl
  counted := by
    intro hnone
    rw [show (v.setTmpNum n).owner .recoveryMutex = v.owner .recoveryMutex from rfl, hown] at hnone
    cases hnone
  clean := hv.clean
  readings := hv.readings

/-! ## Reading a reply -/

theorem Guar.read (r : Reading) : Guar N pnum t v (v.read r) where
  owner := fun _ => .inl rfl
  state := fun _ => .inl rfl
  count := .inl rfl
  release := (Guar.refl (N := N) t v).release
  table := fun _ => .inl rfl
  slot := fun _ _ => .inl rfl
  finished := finished_of_slot rfl
  net := fun _ => .inl rfl

theorem Inv.read (hv : Inv K pnum v) {r : Reading} (hr : r.Valid (v.slot r.ch r.id).book) :
    Inv K pnum (v.read r) where
  fits := fun ch id => (hv.fits ch id).congr rfl rfl rfl rfl
  counted := hv.counted
  clean := hv.clean
  readings := by
    intro r' hr'
    rcases List.mem_append.mp hr' with hold | hnew
    · exact hv.readings r' hold
    · rw [List.mem_singleton.mp hnew]
      exact hr

end Updates

end CloudLabs.KvStore.Threads
