import CloudLabs.Foundation.CpLock
import Mathlib.Logic.Relation

/-!
# The threads of the server

`thread_scheduling` accepts connections and puts each socket into a free slot of `socketFlag`; each
`socket_worker` polls its own slot, serves the connection it finds there, and clears the slot again.
A `CpLock` for as many places as there are workers counts the slots. A worker looks at its slot
without the lock, and uses the lock for the clearing only, when it has served the connection.

`Server n` is the state of the scheduler and `n + 1` workers, with one constructor of `Work` for
each access to shared memory and each semaphore operation. The fields from `accepted` on are not in
the program: they number the accepted connections and record which worker took which, and no step
reads them.

`connections_served_once`: from the counts of the lock (`Inv.account`) it follows that a search for
a free slot finds one, that no slot is overwritten or cleared before its connection has been served,
and that every connection is taken exactly once.
-/

set_option autoImplicit false

namespace CloudLabs.Http

open CloudLabs.Foundation

/-- An accepted connection: its number and its socket. -/
structure Conn where
  id : Nat
  sock : Int
  deriving DecidableEq

/-- Where `thread_scheduling` is. -/
inductive SPhase where
  | accept
  | waitEmpty (c : Conn)
  | waitMutex (c : Conn)
  | search (c : Conn)
  | store (c : Conn)
  | postMutex
  | postFull
  deriving DecidableEq

/-- Where a `socket_worker` is. -/
inductive WPhase where
  | poll
  | take
  | serve (c : Conn)
  | waitFull (c : Conn)
  | waitMutex (c : Conn)
  | reset (c : Conn)
  | postMutex
  | postEmpty
  deriving DecidableEq

structure Server (n : Nat) where
  cplock : CpLock
  socketFlag : Fin (n + 1) → Int
  lastFitPos : Fin (n + 1)
  sched : SPhase
  worker : Fin (n + 1) → WPhase
  /-- The sockets accepted so far. -/
  accepted : List Int
  /-- The number of the connection last put into each slot. -/
  slotId : Fin (n + 1) → Nat
  /-- The connections that were taken, with the workers that took them. -/
  takes : List (Nat × Fin (n + 1))
  /-- How many slots the current search has passed over. -/
  tries : Nat

namespace Server

variable {n : Nat}

/-- The state in which `main` starts the threads. -/
def init (n : Nat) : Server n where
  cplock := CpLock.init (n + 1)
  socketFlag := fun _ => 0
  lastFitPos := 0
  sched := .accept
  worker := fun _ => .poll
  accepted := []
  slotId := fun _ => 0
  takes := []
  tries := 0

/-- Worker `i` goes on to another phase. -/
def setWorker (s : Server n) (i : Fin (n + 1)) (w : WPhase) : Server n :=
  { s with worker := Function.update s.worker i w }

/-- The steps of the threads on the connections that were accepted. A poll of an empty slot changes
nothing and is left out. -/
inductive Work : Server n → Server n → Prop
  -- `thread_scheduling`, from the wait for `empty` to the post of `full`
  | schedWaitEmpty (s : Server n) (c : Conn) (h : s.sched = .waitEmpty c)
      (hsem : 0 < s.cplock.empty) :
      Work s { s with cplock := s.cplock.wait .empty, sched := .waitMutex c }
  | schedWaitMutex (s : Server n) (c : Conn) (h : s.sched = .waitMutex c)
      (hsem : 0 < s.cplock.mutex) :
      Work s { s with cplock := s.cplock.wait .mutex, sched := .search c, tries := 0 }
  | schedNext (s : Server n) (c : Conn) (h : s.sched = .search c)
      (hflag : s.socketFlag s.lastFitPos ≠ 0) :
      Work s { s with lastFitPos := s.lastFitPos + 1, tries := s.tries + 1 }
  | schedFound (s : Server n) (c : Conn) (h : s.sched = .search c)
      (hflag : s.socketFlag s.lastFitPos = 0) :
      Work s { s with sched := .store c }
  | schedStore (s : Server n) (c : Conn) (h : s.sched = .store c) :
      Work s { s with
        socketFlag := Function.update s.socketFlag s.lastFitPos c.sock
        slotId := Function.update s.slotId s.lastFitPos c.id
        sched := .postMutex }
  | schedPostMutex (s : Server n) (h : s.sched = .postMutex) :
      Work s { s with cplock := s.cplock.post .mutex, sched := .postFull }
  | schedPostFull (s : Server n) (h : s.sched = .postFull) :
      Work s { s with cplock := s.cplock.post .full, sched := .accept }
  -- `socket_worker`, from the poll of its slot to the post of `empty`
  | poll (s : Server n) (i : Fin (n + 1)) (h : s.worker i = .poll) (hflag : s.socketFlag i ≠ 0) :
      Work s (s.setWorker i .take)
  | take (s : Server n) (i : Fin (n + 1)) (h : s.worker i = .take) :
      Work s { s.setWorker i (.serve ⟨s.slotId i, s.socketFlag i⟩) with
        takes := s.takes ++ [(s.slotId i, i)] }
  | serve (s : Server n) (i : Fin (n + 1)) (c : Conn) (h : s.worker i = .serve c) :
      Work s (s.setWorker i (.waitFull c))
  | waitFull (s : Server n) (i : Fin (n + 1)) (c : Conn) (h : s.worker i = .waitFull c)
      (hsem : 0 < s.cplock.full) :
      Work s { s.setWorker i (.waitMutex c) with cplock := s.cplock.wait .full }
  | waitMutex (s : Server n) (i : Fin (n + 1)) (c : Conn) (h : s.worker i = .waitMutex c)
      (hsem : 0 < s.cplock.mutex) :
      Work s { s.setWorker i (.reset c) with cplock := s.cplock.wait .mutex }
  | reset (s : Server n) (i : Fin (n + 1)) (c : Conn) (h : s.worker i = .reset c) :
      Work s { s.setWorker i .postMutex with socketFlag := Function.update s.socketFlag i 0 }
  | postMutex (s : Server n) (i : Fin (n + 1)) (h : s.worker i = .postMutex) :
      Work s { s.setWorker i .postEmpty with cplock := s.cplock.post .mutex }
  | postEmpty (s : Server n) (i : Fin (n + 1)) (h : s.worker i = .postEmpty) :
      Work s { s.setWorker i .poll with cplock := s.cplock.post .empty }

/-- A step of the server: one on the connections it has, or the next connection. -/
inductive Step : Server n → Server n → Prop
  | work {s s' : Server n} (h : Work s s') : Step s s'
  | accept (s : Server n) (sock : Int) (h : s.sched = .accept) (hsock : sock ≠ 0) :
      Step s { s with
        sched := .waitEmpty ⟨s.accepted.length, sock⟩
        accepted := s.accepted ++ [sock] }

def Reachable (s : Server n) : Prop := Relation.ReflTransGen Step (init n) s

end Server

/-! ## The use of the lock -/

def SPhase.use : SPhase → Use
  | .accept => .out
  | .waitEmpty _ => .out
  | .waitMutex _ => .token
  | .search _ => .hold
  | .store _ => .hold
  | .postMutex => .changed
  | .postFull => .late

def WPhase.use : WPhase → Use
  | .poll => .out
  | .take => .out
  | .serve _ => .out
  | .waitFull _ => .out
  | .waitMutex _ => .token
  | .reset _ => .hold
  | .postMutex => .changed
  | .postEmpty => .late

/-- The connection the scheduler is about to store. -/
def SPhase.conn : SPhase → Option Conn
  | .waitEmpty c => some c
  | .waitMutex c => some c
  | .search c => some c
  | .store c => some c
  | _ => none

/-- The connection a worker has taken and not yet cleared. -/
def WPhase.conn : WPhase → Option Conn
  | .serve c => some c
  | .waitFull c => some c
  | .waitMutex c => some c
  | .reset c => some c
  | _ => none

/-- A slot that holds a connection. -/
def busy (flag : Int) : Nat := if flag = 0 then 0 else 1

@[simp] theorem busy_zero : busy 0 = 0 := rfl

theorem busy_of_ne {flag : Int} (h : flag ≠ 0) : busy flag = 1 := if_neg h

theorem busy_le_one (flag : Int) : busy flag ≤ 1 := by
  unfold busy
  split <;> omega

/-- A slot with connection `k`, which its worker has not taken yet. -/
def waits (k : Nat) (w : WPhase) (flag : Int) (id : Nat) : Nat :=
  if flag ≠ 0 ∧ id = k ∧ w.conn = none then 1 else 0

/-- The scheduler has connection `k` in hand. -/
def SPhase.has (k : Nat) (p : SPhase) : Nat := if (p.conn.map Conn.id) = some k then 1 else 0

namespace Server

variable {n : Nat}

/-- How often connection `k` was taken. -/
def taken (s : Server n) (k : Nat) : Nat := (s.takes.filter fun e => e.1 = k).length

/-- The counters of the lock fit the slots and the threads. -/
def Counts (s : Server n) : Prop :=
  s.cplock.Account (n + 1) (∑ i, busy (s.socketFlag i))
    (s.sched.use.holds + ∑ i, (s.worker i).use.holds) s.sched.use.claims s.sched.use.owes
    (∑ i, (s.worker i).use.claims) (∑ i, (s.worker i).use.owes)

/-- How many slots wait with connection `k`. -/
def waiting (s : Server n) (k : Nat) : Nat :=
  ∑ i, waits k (s.worker i) (s.socketFlag i) (s.slotId i)

/-- What holds in every reachable state. -/
structure Inv (s : Server n) : Prop where
  counts : s.Counts
  /-- A search has a free slot ahead, and has not come around to where it began. -/
  search : ∀ c, s.sched = .search c →
    ∃ d : Nat, s.tries + d ≤ n ∧ s.socketFlag (s.lastFitPos + Fin.ofNat (n + 1) d) = 0
  /-- The slot that was found is still free. -/
  store : ∀ c, s.sched = .store c → s.socketFlag s.lastFitPos = 0
  /-- The scheduler's connection is the one accepted last. -/
  inHand : ∀ c, s.sched.conn = some c → c.sock ≠ 0 ∧ s.accepted[c.id]? = some c.sock
  /-- A slot holds the socket of its connection. -/
  slot : ∀ i, s.socketFlag i ≠ 0 → s.accepted[s.slotId i]? = some (s.socketFlag i)
  /-- A worker is about to take what is in its slot. -/
  taking : ∀ i, s.worker i = .take → s.socketFlag i ≠ 0
  /-- The connection of a worker is the one in its slot, and the worker took it. -/
  serving : ∀ i c, (s.worker i).conn = some c →
    s.socketFlag i = c.sock ∧ c.sock ≠ 0 ∧ s.slotId i = c.id ∧ (c.id, i) ∈ s.takes
  /-- Every accepted connection is in the scheduler's hand, waits in one slot, or was taken once. -/
  placed : ∀ k, s.sched.has k + s.waiting k + s.taken k = if k < s.accepted.length then 1 else 0

theorem Inv.init (n : Nat) : (init n).Inv where
  counts := by
    have h := CpLock.Account.init (n + 1)
    simpa [Counts, Server.init, SPhase.use, WPhase.use, Use.holds, Use.claims, Use.owes] using h
  search := by
    intro c h
    cases h
  store := by
    intro c h
    cases h
  inHand := by
    intro c h
    cases h
  slot := by
    intro i h
    exact absurd rfl h
  taking := by
    intro i h
    cases h
  serving := by
    intro i c h
    cases h
  placed := by
    intro k
    simp [Server.init, SPhase.has, SPhase.conn, waiting, waits, taken]

/-! ## The counters -/

section Steps

variable {s s' : Server n}

/-- The scheduler goes on, and the lock changes with it. -/
theorem Counts.sched (h : s.Counts) (p : SPhase) (l : CpLock)
    (hmutex : l.mutex + p.use.holds = s.cplock.mutex + s.sched.use.holds)
    (hfull : l.full + p.use.owes = s.cplock.full + s.sched.use.owes)
    (hempty : l.empty + p.use.claims = s.cplock.empty + s.sched.use.claims) :
    ({ s with cplock := l, sched := p } : Server n).Counts := by
  obtain ⟨hm, hf, he⟩ := h
  constructor
  · dsimp only
    omega
  · dsimp only
    omega
  · dsimp only
    omega

/-- A worker goes on, and the lock changes with it. -/
theorem Counts.worker (h : s.Counts) (i : Fin (n + 1)) (w : WPhase) (l : CpLock)
    (hmutex : l.mutex + w.use.holds = s.cplock.mutex + (s.worker i).use.holds)
    (hfull : l.full + w.use.claims = s.cplock.full + (s.worker i).use.claims)
    (hempty : l.empty + w.use.owes = s.cplock.empty + (s.worker i).use.owes) :
    ({ s.setWorker i w with cplock := l } : Server n).Counts := by
  have hholds := sum_update (fun w => w.use.holds) s.worker i w
  have hclaims := sum_update (fun w => w.use.claims) s.worker i w
  have howes := sum_update (fun w => w.use.owes) s.worker i w
  obtain ⟨hm, hf, he⟩ := h
  constructor
  · dsimp only [setWorker] at hholds ⊢
    omega
  · dsimp only [setWorker] at hclaims ⊢
    omega
  · dsimp only [setWorker] at howes ⊢
    omega

/-- The scheduler fills a free slot. -/
theorem Counts.stored (h : s.Counts) (c : Conn) (hs : s.sched = .store c) (hsock : c.sock ≠ 0)
    (hfree : s.socketFlag s.lastFitPos = 0) :
    ({ s with
      socketFlag := Function.update s.socketFlag s.lastFitPos c.sock
      slotId := Function.update s.slotId s.lastFitPos c.id
      sched := .postMutex } : Server n).Counts := by
  have hbusy := sum_update busy s.socketFlag s.lastFitPos c.sock
  rw [hfree, busy_zero, busy_of_ne hsock] at hbusy
  have hbefore : s.sched.use = .hold := by rw [hs]; rfl
  have hafter : SPhase.postMutex.use = .changed := rfl
  obtain ⟨hm, hf, he⟩ := h
  rw [hbefore] at hm hf he
  constructor
  · dsimp only
    rw [hafter]
    exact hm
  · dsimp only
    rw [hafter]
    simp only [Use.owes_hold, Use.owes_changed] at hf ⊢
    omega
  · dsimp only
    rw [hafter]
    simp only [Use.claims_hold, Use.claims_changed] at he ⊢
    omega

/-- A worker clears its slot. -/
theorem Counts.cleared (h : s.Counts) (i : Fin (n + 1)) (c : Conn) (hw : s.worker i = .reset c)
    (hflag : s.socketFlag i ≠ 0) :
    ({ s.setWorker i .postMutex with
      socketFlag := Function.update s.socketFlag i 0 } : Server n).Counts := by
  have hbusy := sum_update busy s.socketFlag i 0
  have hholds := sum_update (fun w => w.use.holds) s.worker i .postMutex
  have hclaims := sum_update (fun w => w.use.claims) s.worker i .postMutex
  have howes := sum_update (fun w => w.use.owes) s.worker i .postMutex
  rw [busy_zero, busy_of_ne hflag] at hbusy
  have hbefore : (s.worker i).use = .hold := by rw [hw]; rfl
  have hafter : WPhase.postMutex.use = .changed := rfl
  rw [hbefore, hafter] at hholds hclaims howes
  obtain ⟨hm, hf, he⟩ := h
  constructor
  · dsimp only [setWorker] at hholds ⊢
    simp only [Use.holds_hold, Use.holds_changed] at hholds
    omega
  · dsimp only [setWorker] at hclaims hbusy ⊢
    simp only [Use.claims_hold, Use.claims_changed] at hclaims
    omega
  · dsimp only [setWorker] at howes hbusy ⊢
    simp only [Use.owes_hold, Use.owes_changed] at howes
    omega

/-! ## The slots -/

/-- Fewer connections than slots leave a slot free. -/
theorem exists_free (flag : Fin (n + 1) → Int) (h : ∑ i, busy (flag i) < n + 1) :
    ∃ i, flag i = 0 := by
  by_contra hall
  push Not at hall
  have hones : ∑ i, busy (flag i) = ∑ _i : Fin (n + 1), 1 :=
    Finset.sum_congr rfl fun i _ => busy_of_ne (hall i)
  simp only [Finset.sum_const, Finset.card_univ, Fintype.card_fin, smul_eq_mul, mul_one] at hones
  omega

/-- The way from one slot around to another. -/
theorem around (a b : Fin (n + 1)) : ∃ d : Nat, d ≤ n ∧ a + Fin.ofNat (n + 1) d = b := by
  refine ⟨(b - a).val, by omega, ?_⟩
  have hd : Fin.ofNat (n + 1) (b - a).val = b - a := Fin.ofNat_val_eq_self (b - a)
  rw [hd, add_sub_cancel]

theorem around_succ (a : Fin (n + 1)) (d : Nat) :
    a + 1 + Fin.ofNat (n + 1) d = a + Fin.ofNat (n + 1) (d + 1) := by
  have hd : Fin.ofNat (n + 1) (d + 1) = 1 + Fin.ofNat (n + 1) d := by
    apply Fin.ext
    simp [Fin.val_add, Fin.ofNat, Nat.add_comm]
  rw [hd, add_assoc]

/-- What the slots wait for depends on the connections of the workers only. -/
theorem waiting_congr (hflag : s'.socketFlag = s.socketFlag) (hid : s'.slotId = s.slotId)
    (hconn : ∀ i, (s'.worker i).conn = (s.worker i).conn) (k : Nat) :
    s'.waiting k = s.waiting k := by
  apply Finset.sum_congr rfl
  intro i _
  unfold waits
  rw [hflag, hid, hconn i]

theorem setWorker_conn {i : Fin (n + 1)} {w : WPhase} (hw : w.conn = (s.worker i).conn)
    (j : Fin (n + 1)) : ((s.setWorker i w).worker j).conn = (s.worker j).conn := by
  by_cases hj : j = i
  · subst hj
    simpa [setWorker] using hw
  · simp [setWorker, Function.update_of_ne hj]

/-! ## One step -/

/-- A step of the scheduler that leaves the slots alone. -/
theorem Inv.sched (h : s.Inv) (p : SPhase) (l : CpLock) (pos : Fin (n + 1)) (tries : Nat)
    (hcounts : ({ s with cplock := l, sched := p } : Server n).Counts)
    (hconn : p.conn = s.sched.conn)
    (hsearch : ∀ c, p = .search c →
      ∃ d : Nat, tries + d ≤ n ∧ s.socketFlag (pos + Fin.ofNat (n + 1) d) = 0)
    (hstore : ∀ c, p = .store c → s.socketFlag pos = 0) :
    ({ s with cplock := l, sched := p, lastFitPos := pos, tries := tries } : Server n).Inv where
  counts := hcounts
  search := hsearch
  store := hstore
  inHand := by
    intro c hc
    rw [hconn] at hc
    exact h.inHand c hc
  slot := h.slot
  taking := h.taking
  serving := h.serving
  placed := by
    intro k
    have hhas : p.has k = s.sched.has k := by
      unfold SPhase.has
      rw [hconn]
    show p.has k + s.waiting k + s.taken k = _
    rw [hhas]
    exact h.placed k

/-- A step of a worker that leaves the slots alone. -/
theorem Inv.worker (h : s.Inv) (i : Fin (n + 1)) (w : WPhase) (l : CpLock)
    (hcounts : ({ s.setWorker i w with cplock := l } : Server n).Counts)
    (hconn : w.conn = (s.worker i).conn) (htake : w = .take → s.socketFlag i ≠ 0) :
    ({ s.setWorker i w with cplock := l } : Server n).Inv where
  counts := hcounts
  search := h.search
  store := h.store
  inHand := h.inHand
  slot := h.slot
  taking := by
    intro j hj
    by_cases hji : j = i
    · subst hji
      exact htake (by simpa [setWorker] using hj)
    · exact h.taking j (by simpa [setWorker, Function.update_of_ne hji] using hj)
  serving := by
    intro j c hc
    have hsame := setWorker_conn hconn j
    exact h.serving j c (hsame ▸ hc)
  placed := by
    intro k
    have hw : ({ s.setWorker i w with cplock := l } : Server n).waiting k = s.waiting k := by
      apply waiting_congr
      · rfl
      · rfl
      · exact setWorker_conn hconn
    show s.sched.has k + _ + s.taken k = _
    rw [hw]
    exact h.placed k

/-- The scheduler puts its connection into the free slot. -/
theorem Inv.stored (h : s.Inv) (c : Conn) (hs : s.sched = .store c) :
    ({ s with
      socketFlag := Function.update s.socketFlag s.lastFitPos c.sock
      slotId := Function.update s.slotId s.lastFitPos c.id
      sched := .postMutex } : Server n).Inv := by
  have hfree := h.store c hs
  have hhand : s.sched.conn = some c := by rw [hs]; rfl
  obtain ⟨hsock, hid⟩ := h.inHand c hhand
  -- The slot was free, so its worker is not serving anything.
  have hidle : (s.worker s.lastFitPos).conn = none := by
    cases hw : (s.worker s.lastFitPos).conn with
    | none => rfl
    | some c' =>
      obtain ⟨hflag, hne, -⟩ := h.serving _ c' hw
      exact absurd (hflag.symm.trans hfree) hne
  constructor
  · exact h.counts.stored c hs hsock hfree
  · intro c' hc
    cases hc
  · intro c' hc
    cases hc
  · intro c' hc
    cases hc
  · -- what the slots hold
    intro j hj
    by_cases hjp : j = s.lastFitPos
    · subst hjp
      simpa using hid
    · simp only [Function.update_of_ne hjp] at hj ⊢
      exact h.slot j hj
  · -- a worker about to take finds its slot full
    intro j hj
    by_cases hjp : j = s.lastFitPos
    · subst hjp
      simpa using hsock
    · simp only [Function.update_of_ne hjp]
      exact h.taking j hj
  · -- nobody else serves from the slot that was filled
    intro j c' hc
    by_cases hjp : j = s.lastFitPos
    · subst hjp
      rw [hidle] at hc
      cases hc
    · simp only [Function.update_of_ne hjp]
      exact h.serving j c' hc
  · -- the connection goes from the scheduler's hand to the slot
    intro k
    have hchange : ∀ j, j ≠ s.lastFitPos →
        waits k (s.worker j) (Function.update s.socketFlag s.lastFitPos c.sock j)
          (Function.update s.slotId s.lastFitPos c.id j) =
        waits k (s.worker j) (s.socketFlag j) (s.slotId j) := by
      intro j hj
      rw [Function.update_of_ne hj, Function.update_of_ne hj]
    have hsum := sum_change s.lastFitPos hchange
    have hbefore : waits k (s.worker s.lastFitPos) (s.socketFlag s.lastFitPos)
        (s.slotId s.lastFitPos) = 0 := by
      simp [waits, hfree]
    have hafter : waits k (s.worker s.lastFitPos) c.sock c.id = s.sched.has k := by
      simp [waits, SPhase.has, hhand, hsock, hidle]
    rw [Function.update_self, Function.update_self, hbefore, hafter] at hsum
    have hplaced := h.placed k
    show 0 + ∑ j, waits k (s.worker j) (Function.update s.socketFlag s.lastFitPos c.sock j)
      (Function.update s.slotId s.lastFitPos c.id j) + s.taken k =
        if k < s.accepted.length then 1 else 0
    rw [waiting] at hplaced
    omega

/-- A worker takes the connection in its slot. -/
theorem Inv.taken (h : s.Inv) (i : Fin (n + 1)) (hw : s.worker i = .take) :
    ({ s.setWorker i (.serve ⟨s.slotId i, s.socketFlag i⟩) with
      takes := s.takes ++ [(s.slotId i, i)] } : Server n).Inv := by
  have hflag := h.taking i hw
  have hnone : (s.worker i).conn = none := by rw [hw]; rfl
  constructor
  · refine h.counts.worker i _ s.cplock ?_ ?_ ?_ <;> rw [hw] <;> rfl
  · exact h.search
  · exact h.store
  · exact h.inHand
  · exact h.slot
  · intro j hj
    by_cases hji : j = i
    · subst hji
      exact hflag
    · exact h.taking j (by simpa [setWorker, Function.update_of_ne hji] using hj)
  · -- the worker serves what it has just taken
    intro j c hc
    by_cases hji : j = i
    · subst hji
      simp only [setWorker, Function.update_self, WPhase.conn, Option.some.injEq] at hc
      subst hc
      simp [setWorker, hflag]
    · have hold : (s.worker j).conn = some c := by
        simpa [setWorker, Function.update_of_ne hji] using hc
      obtain ⟨hf, hne, hid, hmem⟩ := h.serving j c hold
      exact ⟨hf, hne, hid, List.mem_append_left _ hmem⟩
  · -- the connection goes from the slot to the ones taken
    intro k
    have hchange : ∀ j, j ≠ i →
        waits k ((s.setWorker i (.serve ⟨s.slotId i, s.socketFlag i⟩)).worker j) (s.socketFlag j)
          (s.slotId j) = waits k (s.worker j) (s.socketFlag j) (s.slotId j) := by
      intro j hj
      simp [setWorker, Function.update_of_ne hj]
    have hsum := sum_change i hchange
    have hbefore : waits k (s.worker i) (s.socketFlag i) (s.slotId i) =
        if s.slotId i = k then 1 else 0 := by
      simp [waits, hflag, hnone]
    have hafter : waits k ((s.setWorker i (.serve ⟨s.slotId i, s.socketFlag i⟩)).worker i)
        (s.socketFlag i) (s.slotId i) = 0 := by
      simp [waits, setWorker, WPhase.conn]
    have htaken : ({ s.setWorker i (.serve ⟨s.slotId i, s.socketFlag i⟩) with
        takes := s.takes ++ [(s.slotId i, i)] } : Server n).taken k =
        s.taken k + if s.slotId i = k then 1 else 0 := by
      simp only [Server.taken, List.filter_append, List.length_append]
      by_cases hk : s.slotId i = k <;> simp [hk]
    have hplaced := h.placed k
    rw [htaken]
    rw [hbefore, hafter] at hsum
    rw [waiting] at hplaced
    show s.sched.has k +
      ∑ j, waits k ((s.setWorker i (.serve ⟨s.slotId i, s.socketFlag i⟩)).worker j)
        (s.socketFlag j) (s.slotId j) + (s.taken k + if s.slotId i = k then 1 else 0) =
        if k < s.accepted.length then 1 else 0
    omega

/-- A worker clears its slot, and so the slot of the connection it has served. -/
theorem Inv.cleared (h : s.Inv) (i : Fin (n + 1)) (c : Conn) (hw : s.worker i = .reset c) :
    ({ s.setWorker i .postMutex with
      socketFlag := Function.update s.socketFlag i 0 } : Server n).Inv := by
  have hconn : (s.worker i).conn = some c := by rw [hw]; rfl
  obtain ⟨hflag, hne, -⟩ := h.serving i c hconn
  rw [← hflag] at hne
  -- A slot that was free is free still.
  have hkeeps : ∀ j, s.socketFlag j = 0 → Function.update s.socketFlag i 0 j = 0 := by
    intro j hj
    by_cases hji : j = i
    · subst hji
      exact Function.update_self ..
    · rw [Function.update_of_ne hji, hj]
  constructor
  · exact h.counts.cleared i c hw hne
  · -- a search still has its free slot ahead
    intro c' hc
    obtain ⟨d, hd, hfree⟩ := h.search c' hc
    exact ⟨d, hd, hkeeps _ hfree⟩
  · intro c' hc
    exact hkeeps _ (h.store c' hc)
  · exact h.inHand
  · intro j hj
    by_cases hji : j = i
    · subst hji
      simp at hj
    · simp only [Function.update_of_ne hji] at hj ⊢
      exact h.slot j hj
  · intro j hj
    by_cases hji : j = i
    · subst hji
      simp [setWorker] at hj
    · simp only [Function.update_of_ne hji]
      exact h.taking j (by simpa [setWorker, Function.update_of_ne hji] using hj)
  · -- the worker has let go of its connection
    intro j c' hc
    by_cases hji : j = i
    · subst hji
      simp [setWorker, WPhase.conn] at hc
    · simp only [Function.update_of_ne hji]
      exact h.serving j c' (by simpa [setWorker, Function.update_of_ne hji] using hc)
  · -- the connection in the slot was taken before, so none waits less
    intro k
    have hsame : ({ s.setWorker i .postMutex with
        socketFlag := Function.update s.socketFlag i 0 } : Server n).waiting k = s.waiting k := by
      apply Finset.sum_congr rfl
      intro j _
      by_cases hji : j = i
      · subst hji
        simp [waits, hconn]
      · simp [waits, setWorker, Function.update_of_ne hji]
    show s.sched.has k + _ + s.taken k = _
    rw [hsame]
    exact h.placed k

/-- The scheduler accepts a connection. -/
theorem Inv.accepted (h : s.Inv) (sock : Int) (hs : s.sched = .accept) (hsock : sock ≠ 0) :
    ({ s with
      sched := .waitEmpty ⟨s.accepted.length, sock⟩
      accepted := s.accepted ++ [sock] } : Server n).Inv := by
  have hmore : ∀ (k : Nat) (x : Int), s.accepted[k]? = some x →
      (s.accepted ++ [sock])[k]? = some x := by
    intro k x hx
    obtain ⟨hk, -⟩ := List.getElem?_eq_some_iff.mp hx
    rw [List.getElem?_append_left hk, hx]
  constructor
  · refine h.counts.sched _ s.cplock ?_ ?_ ?_ <;> rw [hs] <;> rfl
  · intro c hc
    cases hc
  · intro c hc
    cases hc
  · intro c hc
    cases hc
    exact ⟨hsock, by simp⟩
  · intro j hj
    exact hmore _ _ (h.slot j hj)
  · exact h.taking
  · exact h.serving
  · -- the new connection has the next number
    intro k
    have hplaced := h.placed k
    simp only [hs, SPhase.has, SPhase.conn, Option.map_none, reduceCtorEq, if_false] at hplaced
    simp only [SPhase.has, SPhase.conn, Option.map_some, Option.some.injEq, List.length_append,
      List.length_singleton]
    show _ + s.waiting k + s.taken k = _
    split_ifs at hplaced ⊢ <;> omega

theorem Inv.work (h : s.Inv) (hstep : Work s s') : s'.Inv := by
  cases hstep with
  | schedWaitEmpty c hs hsem =>
    apply h.sched (.waitMutex c) (s.cplock.wait .empty) s.lastFitPos s.tries
    · apply h.counts.sched
      all_goals simp only [hs, SPhase.use, CpLock.wait, Use.holds, Use.claims, Use.owes]
      all_goals omega
    · rw [hs]; rfl
    · intro c' hc
      cases hc
    · intro c' hc
      cases hc
  | schedWaitMutex c hs hsem =>
    apply h.sched (.search c) (s.cplock.wait .mutex) s.lastFitPos 0
    · apply h.counts.sched
      all_goals simp only [hs, SPhase.use, CpLock.wait, Use.holds, Use.claims, Use.owes]
      all_goals omega
    · rw [hs]; rfl
    · intro c' _
      -- The token from `empty` is a place that no connection has taken.
      have hcap := h.counts.empty
      rw [hs] at hcap
      simp only [SPhase.use, Use.claims] at hcap
      obtain ⟨i, hi⟩ := exists_free s.socketFlag (by omega)
      obtain ⟨d, hd, rfl⟩ := around s.lastFitPos i
      exact ⟨d, by omega, hi⟩
    · intro c' hc
      cases hc
  | schedNext c hs hflag =>
    apply h.sched s.sched s.cplock (s.lastFitPos + 1) (s.tries + 1) h.counts rfl
    · intro c' hc
      obtain ⟨d, hd, hfree⟩ := h.search c' hc
      cases d with
      | zero => exact absurd (by simpa using hfree) hflag
      | succ d => exact ⟨d, by omega, by rwa [around_succ]⟩
    · intro c' hc
      rw [hs] at hc
      cases hc
  | schedFound c hs hflag =>
    apply h.sched (.store c) s.cplock s.lastFitPos s.tries
    · apply h.counts.sched <;> rw [hs] <;> rfl
    · rw [hs]; rfl
    · intro c' hc
      cases hc
    · intro c' _
      exact hflag
  | schedStore c hs => exact h.stored c hs
  | schedPostMutex hs =>
    apply h.sched .postFull (s.cplock.post .mutex) s.lastFitPos s.tries
    · apply h.counts.sched <;> rw [hs] <;> rfl
    · rw [hs]; rfl
    · intro c' hc
      cases hc
    · intro c' hc
      cases hc
  | schedPostFull hs =>
    apply h.sched .accept (s.cplock.post .full) s.lastFitPos s.tries
    · apply h.counts.sched <;> rw [hs] <;> rfl
    · rw [hs]; rfl
    · intro c' hc
      cases hc
    · intro c' hc
      cases hc
  | poll i hw hflag =>
    apply h.worker i .take s.cplock
    · apply h.counts.worker <;> rw [hw] <;> rfl
    · rw [hw]; rfl
    · intro _
      exact hflag
  | take i hw => exact h.taken i hw
  | serve i c hw =>
    apply h.worker i (.waitFull c) s.cplock
    · apply h.counts.worker <;> rw [hw] <;> rfl
    · rw [hw]; rfl
    · intro hc
      cases hc
  | waitFull i c hw hsem =>
    apply h.worker i (.waitMutex c) (s.cplock.wait .full)
    · apply h.counts.worker
      all_goals simp only [hw, WPhase.use, CpLock.wait, Use.holds, Use.claims, Use.owes]
      all_goals omega
    · rw [hw]; rfl
    · intro hc
      cases hc
  | waitMutex i c hw hsem =>
    apply h.worker i (.reset c) (s.cplock.wait .mutex)
    · apply h.counts.worker
      all_goals simp only [hw, WPhase.use, CpLock.wait, Use.holds, Use.claims, Use.owes]
      all_goals omega
    · rw [hw]; rfl
    · intro hc
      cases hc
  | reset i c hw => exact h.cleared i c hw
  | postMutex i hw =>
    apply h.worker i .postEmpty (s.cplock.post .mutex)
    · apply h.counts.worker <;> rw [hw] <;> rfl
    · rw [hw]; rfl
    · intro hc
      cases hc
  | postEmpty i hw =>
    apply h.worker i .poll (s.cplock.post .empty)
    · apply h.counts.worker <;> rw [hw] <;> rfl
    · rw [hw]; rfl
    · intro hc
      cases hc

theorem Inv.step (h : s.Inv) (hstep : Step s s') : s'.Inv := by
  cases hstep with
  | work hwork => exact h.work hwork
  | accept sock hs hsock => exact h.accepted sock hs hsock

theorem Reachable.inv (h : Reachable s) : s.Inv := by
  induction h with
  | refl => exact Inv.init n
  | tail _ hstep ih => exact ih.step hstep

/-! ## Progress -/

/-- Nobody who is out of the critical sections holds the mutex. -/
theorem Inv.mutex_free (h : s.Inv) (hsched : s.sched.use.holds = 0)
    (hworker : ∀ i, (s.worker i).use.holds = 0) : 0 < s.cplock.mutex := by
  have hm := h.counts.mutex
  rw [hsched, Finset.sum_congr rfl fun i _ => hworker i, Finset.sum_const_zero] at hm
  omega

/-- When no thread has work left, the scheduler accepts, and every worker polls an empty slot. -/
theorem Inv.quiet (h : s.Inv) (hstuck : ∀ s', ¬ Work s s') :
    s.sched = .accept ∧ ∀ i, s.worker i = .poll ∧ s.socketFlag i = 0 := by
  -- The phases that wait for nothing are excluded at once.
  have hsched : s.sched = .accept ∨ (∃ c, s.sched = .waitEmpty c) ∨
      ∃ c, s.sched = .waitMutex c := by
    cases hs : s.sched with
    | accept => exact .inl rfl
    | waitEmpty c => exact .inr (.inl ⟨c, rfl⟩)
    | waitMutex c => exact .inr (.inr ⟨c, rfl⟩)
    | search c =>
      by_cases hflag : s.socketFlag s.lastFitPos = 0
      · exact absurd (.schedFound s c hs hflag) (hstuck _)
      · exact absurd (.schedNext s c hs hflag) (hstuck _)
    | store c => exact absurd (.schedStore s c hs) (hstuck _)
    | postMutex => exact absurd (.schedPostMutex s hs) (hstuck _)
    | postFull => exact absurd (.schedPostFull s hs) (hstuck _)
  have hworker : ∀ i, s.worker i = .poll ∨ (∃ c, s.worker i = .waitFull c) ∨
      ∃ c, s.worker i = .waitMutex c := by
    intro i
    cases hw : s.worker i with
    | poll => exact .inl rfl
    | take => exact absurd (.take s i hw) (hstuck _)
    | serve c => exact absurd (.serve s i c hw) (hstuck _)
    | waitFull c => exact .inr (.inl ⟨c, rfl⟩)
    | waitMutex c => exact .inr (.inr ⟨c, rfl⟩)
    | reset c => exact absurd (.reset s i c hw) (hstuck _)
    | postMutex => exact absurd (.postMutex s i hw) (hstuck _)
    | postEmpty => exact absurd (.postEmpty s i hw) (hstuck _)
  -- So nobody holds the mutex, and nobody waits for it either.
  have hmutex : 0 < s.cplock.mutex := by
    apply h.mutex_free
    · obtain hs | ⟨c, hs⟩ | ⟨c, hs⟩ := hsched <;> rw [hs] <;> rfl
    · intro i
      obtain hw | ⟨c, hw⟩ | ⟨c, hw⟩ := hworker i <;> rw [hw] <;> rfl
  have hsched' : s.sched = .accept ∨ ∃ c, s.sched = .waitEmpty c := by
    obtain hs | hs | ⟨c, hs⟩ := hsched
    · exact .inl hs
    · exact .inr hs
    · exact absurd (.schedWaitMutex s c hs hmutex) (hstuck _)
  have hworker' : ∀ i, s.worker i = .poll ∨ ∃ c, s.worker i = .waitFull c := by
    intro i
    obtain hw | hw | ⟨c, hw⟩ := hworker i
    · exact .inl hw
    · exact .inr hw
    · exact absurd (.waitMutex s i c hw hmutex) (hstuck _)
  have hclaims : ∀ i, (s.worker i).use.claims = 0 ∧ (s.worker i).use.owes = 0 := by
    intro i
    obtain hw | ⟨c, hw⟩ := hworker' i <;> rw [hw] <;> exact ⟨rfl, rfl⟩
  have hsuse : s.sched.use = .out := by
    obtain hs | ⟨c, hs⟩ := hsched' <;> rw [hs] <;> rfl
  have hfull := h.counts.full
  have hempty := h.counts.empty
  rw [hsuse, Finset.sum_congr rfl fun i _ => (hclaims i).1, Finset.sum_const_zero] at hfull
  rw [hsuse, Finset.sum_congr rfl fun i _ => (hclaims i).2, Finset.sum_const_zero] at hempty
  -- A worker that waits for `full` has a connection in its slot, which `full` counts.
  have hpoll : ∀ i, s.worker i = .poll := by
    intro i
    obtain hw | ⟨c, hw⟩ := hworker' i
    · exact hw
    · have hconn : (s.worker i).conn = some c := by rw [hw]; rfl
      obtain ⟨hflag, hne, -⟩ := h.serving i c hconn
      have hone := le_sum (fun i => busy (s.socketFlag i)) i
      rw [← hflag] at hne
      simp only [busy_of_ne hne] at hone
      simp only [Use.owes] at hfull
      exact absurd (.waitFull s i c hw (by omega)) (hstuck _)
  have hzero : ∀ i, s.socketFlag i = 0 := by
    intro i
    by_contra hflag
    exact hstuck _ (.poll s i (hpoll i) hflag)
  refine ⟨?_, fun i => ⟨hpoll i, hzero i⟩⟩
  -- All places are free, so `empty` would let the scheduler pass.
  obtain hs | ⟨c, hs⟩ := hsched'
  · exact hs
  · rw [Finset.sum_congr rfl fun i _ => congrArg busy (hzero i)] at hempty
    simp only [busy_zero, Finset.sum_const_zero, Use.claims] at hempty
    exact absurd (.schedWaitEmpty s c hs (by omega)) (hstuck _)

end Steps

end Server

/-! ## Every run of the threads ends -/

/-- The steps the scheduler has still to make in a search among `n + 1` slots, and those that a
stored connection gives its worker. -/
def SPhase.remaining (n tries : Nat) : SPhase → Nat
  | .accept => 0
  | .waitEmpty _ => n + 15
  | .waitMutex _ => n + 14
  | .search _ => n + 13 - tries
  | .store _ => 11
  | .postMutex => 2
  | .postFull => 1

/-- The steps a worker has still to make; a connection in its slot is worth eight. -/
def WPhase.remaining (flag : Int) : WPhase → Nat
  | .poll => 8 * busy flag
  | .take => 7
  | .serve _ => 6
  | .waitFull _ => 5
  | .waitMutex _ => 4
  | .reset _ => 3
  | .postMutex => 2 + 8 * busy flag
  | .postEmpty => 1 + 8 * busy flag

namespace Server

section Ends

variable {n : Nat} {s s' : Server n}

def remaining (s : Server n) : Nat :=
  s.sched.remaining n s.tries + ∑ i, (s.worker i).remaining (s.socketFlag i)

/-- A worker that goes on has less to do, and the others have as much as before. -/
theorem remaining_worker {i : Fin (n + 1)} {w : WPhase} {flag : Fin (n + 1) → Int} {l : CpLock}
    {takes : List (Nat × Fin (n + 1))} (hflag : ∀ j, j ≠ i → flag j = s.socketFlag j)
    (hless : w.remaining (flag i) < (s.worker i).remaining (s.socketFlag i)) :
    ({ s.setWorker i w with socketFlag := flag, cplock := l, takes := takes } : Server n).remaining <
      s.remaining := by
  have hchange : ∀ j, j ≠ i → (Function.update s.worker i w j).remaining (flag j) =
      (s.worker j).remaining (s.socketFlag j) := by
    intro j hj
    rw [Function.update_of_ne hj, hflag j hj]
  have hsum := sum_change i hchange
  rw [Function.update_self] at hsum
  show s.sched.remaining n s.tries + ∑ j, (Function.update s.worker i w j).remaining (flag j) < _
  unfold remaining
  omega

/-- Every step of work is one less to make. -/
theorem Inv.remaining_lt (h : s.Inv) (hstep : Work s s') : s'.remaining < s.remaining := by
  cases hstep with
  | schedWaitEmpty c hs hsem =>
    simp only [remaining, hs, SPhase.remaining]
    omega
  | schedWaitMutex c hs hsem =>
    simp only [remaining, hs, SPhase.remaining]
    omega
  | schedNext c hs hflag =>
    -- The search has a slot ahead still.
    obtain ⟨d, hd, -⟩ := h.search c hs
    simp only [remaining, hs, SPhase.remaining]
    omega
  | schedFound c hs hflag =>
    obtain ⟨d, hd, -⟩ := h.search c hs
    simp only [remaining, hs, SPhase.remaining]
    omega
  | schedStore c hs =>
    -- a stored connection brings its worker eight steps
    have hfree := h.store c hs
    have hchange : ∀ j, j ≠ s.lastFitPos →
        (s.worker j).remaining (Function.update s.socketFlag s.lastFitPos c.sock j) =
          (s.worker j).remaining (s.socketFlag j) := by
      intro j hj
      rw [Function.update_of_ne hj]
    have hsum := sum_change s.lastFitPos hchange
    have hnew : (s.worker s.lastFitPos).remaining c.sock ≤
        (s.worker s.lastFitPos).remaining (s.socketFlag s.lastFitPos) + 8 := by
      have hone := busy_le_one c.sock
      cases s.worker s.lastFitPos <;> simp only [WPhase.remaining] <;> omega
    rw [Function.update_self] at hsum
    simp only [remaining, hs, SPhase.remaining]
    omega
  | schedPostMutex hs =>
    simp only [remaining, hs, SPhase.remaining]
    omega
  | schedPostFull hs =>
    simp only [remaining, hs, SPhase.remaining]
    omega
  | poll i hw hflag =>
    apply remaining_worker fun _ _ => rfl
    simp [hw, WPhase.remaining, busy_of_ne hflag]
  | take i hw =>
    apply remaining_worker fun _ _ => rfl
    simp [hw, WPhase.remaining]
  | serve i c hw =>
    apply remaining_worker fun _ _ => rfl
    simp [hw, WPhase.remaining]
  | waitFull i c hw hsem =>
    apply remaining_worker fun _ _ => rfl
    simp [hw, WPhase.remaining]
  | waitMutex i c hw hsem =>
    apply remaining_worker fun _ _ => rfl
    simp [hw, WPhase.remaining]
  | reset i c hw =>
    -- the slot that is cleared was worth nothing any more
    apply remaining_worker fun j hj => Function.update_of_ne hj ..
    simp [hw, WPhase.remaining]
  | postMutex i hw =>
    apply remaining_worker fun _ _ => rfl
    simp [hw, WPhase.remaining]
  | postEmpty i hw =>
    apply remaining_worker fun _ _ => rfl
    simp [hw, WPhase.remaining]

/-- No run of the threads goes on for ever without a new connection. -/
theorem Inv.ends (h : s.Inv) : Acc (fun t' t : Server n => Work t t') s := by
  generalize hm : s.remaining = m
  induction m using Nat.strong_induction_on generalizing s with
  | _ m ih =>
    constructor
    intro s' hstep
    have hless := h.remaining_lt hstep
    exact ih s'.remaining (hm ▸ hless) (h.work hstep) rfl

/-! ## Every connection is served once -/

/-- A slot changes only when its worker clears it, and then the connection in it is the one that the
worker took. -/
theorem Inv.slot_change (h : s.Inv) (hstep : Step s s') (i : Fin (n + 1))
    (hflag : s.socketFlag i ≠ 0)
    (hchange : s'.socketFlag i ≠ s.socketFlag i ∨ s'.slotId i ≠ s.slotId i) :
    s.worker i = .reset ⟨s.slotId i, s.socketFlag i⟩ ∧ s'.socketFlag i = 0 ∧
      (s.slotId i, i) ∈ s.takes := by
  have hsame : ¬ (s.socketFlag i ≠ s.socketFlag i ∨ s.slotId i ≠ s.slotId i) := by simp
  cases hstep with
  | accept sock hs hsock => exact absurd hchange hsame
  | work hwork =>
    cases hwork with
    | schedStore c hs =>
      -- The slot that the scheduler fills was free.
      have hother : i ≠ s.lastFitPos := by
        rintro rfl
        exact hflag (h.store c hs)
      simp only [Function.update_of_ne hother] at hchange
      exact absurd hchange hsame
    | reset j c hw =>
      by_cases hij : i = j
      · subst hij
        have hconn : (s.worker i).conn = some c := by rw [hw]; rfl
        obtain ⟨hsock, -, hid, hmem⟩ := h.serving i c hconn
        rw [hsock, hid]
        exact ⟨hw, Function.update_self .., hmem⟩
      · simp only [setWorker, Function.update_of_ne hij] at hchange
        exact absurd hchange hsame
    | schedWaitEmpty => exact absurd hchange hsame
    | schedWaitMutex => exact absurd hchange hsame
    | schedNext => exact absurd hchange hsame
    | schedFound => exact absurd hchange hsame
    | schedPostMutex => exact absurd hchange hsame
    | schedPostFull => exact absurd hchange hsame
    | poll => exact absurd hchange hsame
    | take => exact absurd hchange hsame
    | serve => exact absurd hchange hsame
    | waitFull => exact absurd hchange hsame
    | waitMutex => exact absurd hchange hsame
    | postMutex => exact absurd hchange hsame
    | postEmpty => exact absurd hchange hsame

/-- In every state that the threads can reach: a search for a free slot has one, and has passed over
`n` of the `n + 1` slots at most; a slot that holds a connection changes only when its worker clears
it, and this worker took that very connection; a worker serves what was accepted; no connection is
taken twice; and when the work on the accepted connections ends, which it does, every one of them
has been taken. -/
theorem connections_served_once (h : Reachable s) :
    (∀ c, s.sched = .search c → (∃ i, s.socketFlag i = 0) ∧ s.tries ≤ n) ∧
    (∀ c, s.sched = .store c → s.socketFlag s.lastFitPos = 0) ∧
    (∀ s', Step s s' → ∀ i, s.socketFlag i ≠ 0 →
      s'.socketFlag i ≠ s.socketFlag i ∨ s'.slotId i ≠ s.slotId i →
      s.worker i = .reset ⟨s.slotId i, s.socketFlag i⟩ ∧ s'.socketFlag i = 0 ∧
        (s.slotId i, i) ∈ s.takes) ∧
    (∀ i c, (s.worker i).conn = some c →
      s.accepted[c.id]? = some c.sock ∧ (c.id, i) ∈ s.takes) ∧
    (∀ k, s.taken k ≤ if k < s.accepted.length then 1 else 0) ∧
    Acc (fun t' t : Server n => Work t t') s ∧
    ((∀ s', ¬ Work s s') → ∀ k, k < s.accepted.length → s.taken k = 1) := by
  have hinv := h.inv
  refine ⟨?_, hinv.store, ?_, ?_, ?_, hinv.ends, ?_⟩
  · intro c hc
    obtain ⟨d, hd, hfree⟩ := hinv.search c hc
    exact ⟨⟨_, hfree⟩, by omega⟩
  · intro s' hstep i hflag hchange
    exact hinv.slot_change hstep i hflag hchange
  · intro i c hc
    obtain ⟨hflag, hne, hid, hmem⟩ := hinv.serving i c hc
    rw [← hflag] at hne
    have hslot := hinv.slot i hne
    rw [hid, hflag] at hslot
    exact ⟨hslot, hmem⟩
  · intro k
    have hplaced := hinv.placed k
    omega
  · intro hstuck k hk
    obtain ⟨hs, hworkers⟩ := hinv.quiet hstuck
    have hplaced := hinv.placed k
    have hhas : s.sched.has k = 0 := by rw [hs]; rfl
    have hnone : s.waiting k = 0 := by
      apply Finset.sum_eq_zero
      intro i _
      simp [waits, (hworkers i).2]
    rw [hhas, hnone, if_pos hk] at hplaced
    omega

/-- Two workers, after the first connection was put into slot 0. -/
def stored : Server 1 :=
  { init 1 with
    cplock := ⟨1, 0, 0⟩
    socketFlag := Function.update (fun _ => 0) 0 7
    slotId := Function.update (fun _ => 0) 0 0
    sched := .postMutex
    accepted := [7] }

theorem stored_reachable : Reachable stored := by
  have haccept := Relation.ReflTransGen.single (Step.accept (init 1) 7 rfl (by decide))
  have hempty := haccept.tail (.work (.schedWaitEmpty _ ⟨0, 7⟩ rfl (by decide)))
  have hmutex := hempty.tail (.work (.schedWaitMutex _ ⟨0, 7⟩ rfl (by decide)))
  have hfound := hmutex.tail (.work (.schedFound _ ⟨0, 7⟩ rfl rfl))
  exact hfound.tail (.work (.schedStore _ ⟨0, 7⟩ rfl))

theorem connections_served_once_stored :
    stored.taken 0 ≤ 1 ∧ Acc (fun t' t : Server 1 => Work t t') stored := by
  obtain ⟨-, -, -, -, htaken, hends, -⟩ := connections_served_once stored_reachable
  exact ⟨htaken 0, hends⟩

end Ends

end Server

end CloudLabs.Http
