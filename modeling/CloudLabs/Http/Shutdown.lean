import CloudLabs.Foundation.Fairness
import CloudLabs.Http.Workers

/-!
# The end of the server

`main` sets `serverOn` to false when it reads `quit`, and joins the scheduler and then the workers.
Each of them looks at `serverOn` at the top of its loop only: the scheduler before it waits for a
connection, a worker before it looks at its slot. A thread that finds the server off leaves its loop
and flows off the end of a function that has to return a `void *` and has no `return`. From there on
the program is undefined, so that no thread is ever joined.

`quit_never_returns`: whatever the threads do after `quit`, one of them gets there, unless the
service of a connection faults before or goes on for ever. By then every slot can hold a connection
that no worker has taken.
-/

set_option autoImplicit false

namespace CloudLabs.Http

open CloudLabs.Foundation

/-- A thread at the top of its loop: it has still to look at `serverOn`, or has found it true. -/
inductive Turn where
  | check
  | on
  deriving DecidableEq

/-- A thread that comes back to the top of its loop has to look again. -/
def Turn.after {α : Type} [DecidableEq α] (top before next : α) (turn : Turn) : Turn :=
  if before ≠ top ∧ next = top then .check else turn

/-- What leaves the program without a defined next step: the scheduler or a worker that flows off
the end of its function, or a fault in the service of a connection. -/
inductive Crash (n : Nat) where
  | scheduler
  | worker (i : Fin (n + 1))
  | service (i : Fin (n + 1))
  deriving DecidableEq

/-- The threads of the server, `serverOn`, and how far each of them is at the top of its loop. -/
structure WebServer (n : Nat) where
  threads : Server n
  serverOn : Bool
  schedTurn : Turn
  turn : Fin (n + 1) → Turn
  crash : Option (Crash n)

namespace WebServer

open Server

variable {n : Nat}

/-- The state in which `main` starts the threads. -/
def init (n : Nat) : WebServer n where
  threads := Server.init n
  serverOn := true
  schedTurn := .check
  turn := fun _ => .check
  crash := none

/-- The server after a step of its threads on the connections. -/
def next (s : WebServer n) (t : Server n) : WebServer n where
  threads := t
  serverOn := s.serverOn
  schedTurn := s.schedTurn.after .accept s.threads.sched t.sched
  turn := fun i => (s.turn i).after .poll (s.threads.worker i) (t.worker i)
  crash := s.crash

/-- What `main` or a thread can do. -/
inductive Move : WebServer n → WebServer n → Prop
  -- `main` reads `quit`
  | quit (s : WebServer n) (hon : s.serverOn = true) : Move s { s with serverOn := false }
  -- `thread_scheduling` at the top of its loop, up to a call of `Accept` that fails or succeeds
  | schedOn (s : WebServer n) (h : s.threads.sched = .accept) (hturn : s.schedTurn = .check)
      (hon : s.serverOn = true) : Move s { s with schedTurn := .on }
  | schedLeave (s : WebServer n) (h : s.threads.sched = .accept) (hturn : s.schedTurn = .check)
      (hoff : s.serverOn = false) : Move s { s with crash := some .scheduler }
  | schedTimeout (s : WebServer n) (h : s.threads.sched = .accept) (hturn : s.schedTurn = .on) :
      Move s { s with schedTurn := .check }
  | accept (s : WebServer n) (sock : Int) (h : s.threads.sched = .accept)
      (hturn : s.schedTurn = .on) (hsock : sock ≠ 0) :
      Move s { s with threads := { s.threads with
        sched := .waitEmpty ⟨s.threads.accepted.length, sock⟩
        accepted := s.threads.accepted ++ [sock] } }
  -- `socket_worker` at the top of its loop, up to a slot that is empty
  | workerOn (s : WebServer n) (i : Fin (n + 1)) (h : s.threads.worker i = .poll)
      (hturn : s.turn i = .check) (hon : s.serverOn = true) :
      Move s { s with turn := Function.update s.turn i .on }
  | workerLeave (s : WebServer n) (i : Fin (n + 1)) (h : s.threads.worker i = .poll)
      (hturn : s.turn i = .check) (hoff : s.serverOn = false) :
      Move s { s with crash := some (.worker i) }
  | pass (s : WebServer n) (i : Fin (n + 1)) (h : s.threads.worker i = .poll)
      (hturn : s.turn i = .on) (hflag : s.threads.socketFlag i = 0) :
      Move s { s with turn := Function.update s.turn i .check }
  -- the service of a connection goes on, or faults
  | serving (s : WebServer n) (i : Fin (n + 1)) (c : Conn) (h : s.threads.worker i = .serve c) :
      Move s s
  | fault (s : WebServer n) (i : Fin (n + 1)) (c : Conn) (h : s.threads.worker i = .serve c) :
      Move s { s with crash := some (.service i) }
  -- a worker that has found the server on goes on with a full slot; all other steps as before
  | work (s : WebServer n) {t : Server n} (h : Work s.threads t)
      (hpoll : ∀ i, s.threads.worker i = .poll → t.worker i ≠ .poll → s.turn i = .on) :
      Move s (s.next t)

/-- A step of a program that is still defined. -/
def Step (s t : WebServer n) : Prop := s.crash = none ∧ Move s t

def Reachable (s : WebServer n) : Prop := Relation.ReflTransGen Step (init n) s

/-- No thread can go on. -/
def Stuck (s : WebServer n) : Prop := ∀ t, ¬ Step s t

/-- A worker is in the service of a connection. -/
def Serving (s : WebServer n) : Prop := ∃ i c, s.threads.worker i = .serve c

variable {s t : WebServer n}

/-- The threads work on their connections as they do without an end. -/
theorem Reachable.threads (h : Reachable s) : Server.Reachable s.threads := by
  induction h with
  | refl => exact Relation.ReflTransGen.refl
  | tail _ hstep ih =>
      cases hstep.2 with
      | quit hon => exact ih
      | schedOn h hturn hon => exact ih
      | schedLeave h hturn hoff => exact ih
      | schedTimeout h hturn => exact ih
      | accept sock h hturn hsock => exact ih.tail (.accept _ sock h hsock)
      | workerOn i h hturn hon => exact ih
      | workerLeave i h hturn hoff => exact ih
      | pass i h hturn hflag => exact ih
      | serving i c h => exact ih
      | fault i c h => exact ih
      | work h hpoll => exact ih.tail (.work h)

/-- As long as the server is on, no thread leaves its loop. -/
theorem Reachable.crash_of_on (h : Reachable s) (hon : s.serverOn = true) {a : Crash n}
    (ha : s.crash = some a) : ∃ i, a = .service i := by
  cases h with
  | refl => cases ha
  | tail _ hstep =>
      obtain ⟨hnone, hmove⟩ := hstep
      have hsame : s.crash = none → ∃ i, a = .service i := by
        intro hs
        rw [hs] at ha
        cases ha
      cases hmove with
      | quit hbefore => cases hon
      | schedOn h hturn hbefore => exact hsame hnone
      | schedLeave h hturn hoff => exact absurd (hoff.symm.trans hon) Bool.false_ne_true
      | schedTimeout h hturn => exact hsame hnone
      | accept sock h hturn hsock => exact hsame hnone
      | workerOn i h hturn hbefore => exact hsame hnone
      | workerLeave i h hturn hoff => exact absurd (hoff.symm.trans hon) Bool.false_ne_true
      | pass i h hturn hflag => exact hsame hnone
      | serving i c h => exact hsame hnone
      | fault i c h => exact ⟨i, (Option.some.inj ha).symm⟩
      | work h hpoll => exact hsame hnone

/-! ## What a run can do after `quit` -/

/-- The steps for the connection that the scheduler may still accept, and the call of `Accept`. -/
def schedRest (n : Nat) : SPhase → Turn → Nat
  | .accept, .on => n + 16
  | _, _ => 0

/-- The look of a worker at its slot. -/
def workerRest : WPhase → Turn → Nat
  | .poll, .on => 1
  | _, _ => 0

/-- The steps that are left once the server is off, apart from services that go on. -/
def rest (s : WebServer n) : Nat :=
  s.threads.remaining + schedRest n s.threads.sched s.schedTurn +
    ∑ i, workerRest (s.threads.worker i) (s.turn i)

theorem schedRest_of_ne {p : SPhase} (h : p ≠ .accept) (turn : Turn) : schedRest n p turn = 0 := by
  cases p with
  | accept => exact absurd rfl h
  | _ => rfl

theorem workerRest_of_ne {w : WPhase} (h : w ≠ .poll) (turn : Turn) : workerRest w turn = 0 := by
  cases w with
  | poll => exact absurd rfl h
  | _ => rfl

/-- A scheduler that goes on with its connection has no other to accept. -/
theorem schedRest_work {t : Server n} (h : Work s.threads t) :
    schedRest n t.sched (s.schedTurn.after .accept s.threads.sched t.sched) ≤
      schedRest n s.threads.sched s.schedTurn := by
  have hfrom : t.sched = s.threads.sched ∨ s.threads.sched ≠ .accept := by
    cases h with
    | schedWaitEmpty c hs hsem => exact .inr (by rw [hs]; exact SPhase.noConfusion)
    | schedWaitMutex c hs hsem => exact .inr (by rw [hs]; exact SPhase.noConfusion)
    | schedNext c hs hflag => exact .inl rfl
    | schedFound c hs hflag => exact .inr (by rw [hs]; exact SPhase.noConfusion)
    | schedStore c hs => exact .inr (by rw [hs]; exact SPhase.noConfusion)
    | schedPostMutex hs => exact .inr (by rw [hs]; exact SPhase.noConfusion)
    | schedPostFull hs => exact .inr (by rw [hs]; exact SPhase.noConfusion)
    | _ => exact .inl rfl
  rcases hfrom with hsame | hne
  · rw [Turn.after, hsame, if_neg fun hback => hback.1 hback.2]
  · by_cases hback : t.sched = .accept
    · rw [Turn.after, if_pos ⟨hne, hback⟩, hback]
      exact Nat.zero_le _
    · rw [schedRest_of_ne hback]
      exact Nat.zero_le _

/-- A worker comes back to the top of its loop with the look at its slot still to come. -/
theorem workerRest_work (t : Server n) (i : Fin (n + 1)) :
    workerRest (t.worker i) ((s.turn i).after .poll (s.threads.worker i) (t.worker i)) ≤
      workerRest (s.threads.worker i) (s.turn i) := by
  by_cases hw' : t.worker i = .poll
  · by_cases hw : s.threads.worker i = .poll
    · rw [Turn.after, if_neg fun hback => hback.1 hw, hw, hw']
    · rw [Turn.after, if_pos ⟨hw, hw'⟩, hw']
      exact Nat.zero_le _
  · rw [workerRest_of_ne hw']
    exact Nat.zero_le _

/-- With the server off, a step after which the program is still defined is one less to make, or a
service that goes on. -/
theorem Move.rest (hmove : Move s t) (hinv : s.threads.Inv) (hoff : s.serverOn = false)
    (ht : t.crash = none) : t.rest < s.rest ∨ (t.rest = s.rest ∧ t = s ∧ s.Serving) := by
  have hon : s.serverOn ≠ true := by
    rw [hoff]
    exact Bool.false_ne_true
  cases hmove with
  | quit hbefore => exact absurd hbefore hon
  | schedOn h hturn hbefore => exact absurd hbefore hon
  | schedLeave h hturn hafter => cases ht
  | schedTimeout h hturn =>
      left
      simp only [WebServer.rest, h, hturn, schedRest]
      omega
  | accept sock h hturn hsock =>
      -- the connection that is accepted was counted
      left
      simp only [WebServer.rest, Server.remaining, h, hturn, schedRest, SPhase.remaining]
      omega
  | workerOn i h hturn hbefore => exact absurd hbefore hon
  | workerLeave i h hturn hafter => cases ht
  | pass i h hturn hflag =>
      left
      have hother : ∀ j, j ≠ i → workerRest (s.threads.worker j)
          (Function.update s.turn i .check j) = workerRest (s.threads.worker j) (s.turn j) := by
        intro j hj
        rw [Function.update_of_ne hj]
      have hsum := sum_change i hother
      have hless : workerRest .poll .check < workerRest .poll .on := Nat.zero_lt_one
      rw [Function.update_self, h, hturn] at hsum
      simp only [WebServer.rest]
      omega
  | serving i c h => exact .inr ⟨rfl, rfl, i, c, h⟩
  | fault i c h => cases ht
  | @work t h hpoll =>
      left
      have hless := hinv.remaining_lt h
      have hsched := schedRest_work h
      have hworkers : ∑ i, workerRest (t.worker i) ((s.turn i).after .poll (s.threads.worker i)
          (t.worker i)) ≤ ∑ i, workerRest (s.threads.worker i) (s.turn i) :=
        Finset.sum_le_sum fun i _ => workerRest_work t i
      show t.remaining + schedRest n t.sched (s.schedTurn.after .accept s.threads.sched t.sched) +
        ∑ i, workerRest (t.worker i) ((s.turn i).after .poll (s.threads.worker i) (t.worker i)) < _
      unfold WebServer.rest
      omega

theorem Step.off (hstep : Step s t) (hoff : s.serverOn = false) : t.serverOn = false := by
  cases hstep.2 with
  | quit hon => rfl
  | _ => exact hoff

/-- A run that goes on for ever once the server is off ends up in services that go on. -/
theorem Reachable.eventually_serving (h : Reachable s) (hoff : s.serverOn = false)
    {run : Nat → WebServer n} (hstart : run 0 = s) (hrun : ∀ k, Step (run k) (run (k + 1))) :
    ∃ m, ∀ k, m ≤ k → run (k + 1) = run k ∧ (run k).Serving := by
  have hall : ∀ k, Reachable (run k) ∧ (run k).serverOn = false := by
    intro k
    induction k with
    | zero => exact hstart ▸ ⟨h, hoff⟩
    | succ k ih => exact ⟨ih.1.tail (hrun k), (hrun k).off ih.2⟩
  have hrank : ∀ k, rest (run (k + 1)) < rest (run k) ∨ (rest (run (k + 1)) = rest (run k) ∧
      (run (k + 1) = run k ∧ (run k).Serving)) := fun k =>
    (hrun k).2.rest (hall k).1.threads.inv (hall k).2 (hrun (k + 1)).1
  exact @eventually_idle _ _ _ _ rest (fun s t => t = s ∧ s.Serving) run hrank

/-- Some thread can always go on: a worker at the top of its loop, or else the threads with their
connections. -/
theorem exists_move (h : s.threads.Inv) : ∃ t, Move s t := by
  by_contra hnone
  push Not at hnone
  have hpoll : ∀ i, s.threads.worker i ≠ .poll := by
    intro i hi
    cases hturn : s.turn i with
    | check =>
        cases hon : s.serverOn with
        | true => exact hnone _ (.workerOn s i hi hturn hon)
        | false => exact hnone _ (.workerLeave s i hi hturn hon)
    | on =>
        by_cases hflag : s.threads.socketFlag i = 0
        · exact hnone _ (.pass s i hi hturn hflag)
        · refine hnone _ (.work s (.poll s.threads i hi hflag) fun j hj hne => ?_)
          by_cases hji : j = i
          · exact hji ▸ hturn
          · exact absurd (by simp only [setWorker, Function.update_of_ne hji]; exact hj) hne
  obtain ⟨-, hquiet⟩ := h.quiet fun t ht => hnone _ (.work s ht fun i hi => absurd hi (hpoll i))
  exact hpoll 0 (hquiet 0).1

theorem Reachable.crash_of_stuck (h : Reachable s) (hstuck : Stuck s) : ∃ a, s.crash = some a := by
  obtain ⟨t, hmove⟩ := exists_move h.threads.inv
  cases hcrash : s.crash with
  | none => exact absurd ⟨hcrash, hmove⟩ (hstuck t)
  | some a => exact ⟨a, rfl⟩

/-! ## Connections that nobody takes -/

/-- A reachable state with `j` full slots, in which the scheduler is in phase `p`, and no worker has
looked at anything or taken a connection yet. -/
structure Untaken (s : WebServer n) (j : Nat) (p : SPhase) (turn : Turn) : Prop where
  reachable : Reachable s
  on : s.serverOn = true
  crash : s.crash = none
  sched : s.threads.sched = p
  schedTurn : s.schedTurn = turn
  worker : ∀ i, s.threads.worker i = .poll
  turn : ∀ i, s.turn i = .check
  slots : ∑ i, busy (s.threads.socketFlag i) = j
  accepted : s.threads.accepted.length = j + p.conn.toList.length
  takes : s.threads.takes = []

section Untaken

variable {j : Nat} {p : SPhase} {c : Conn}

/-- The counters of the lock, with no worker that uses it. -/
theorem Untaken.account (h : Untaken s j p .on) :
    s.threads.cplock.Account (n + 1) j p.use.holds p.use.claims p.use.owes 0 0 := by
  have hcounts := h.reachable.threads.inv.counts
  have hout : ∀ i, (s.threads.worker i).use = .out := by
    intro i
    rw [h.worker i]
    rfl
  unfold Server.Counts at hcounts
  simpa [hout, h.slots, h.sched, Use.holds, Use.claims, Use.owes] using hcounts

/-- The scheduler goes on by itself. -/
theorem Untaken.work (h : Untaken s j p .on) {t : Server n} (hwork : Work s.threads t)
    (hworker : t.worker = s.threads.worker) (haccepted : t.accepted = s.threads.accepted)
    (htakes : t.takes = s.threads.takes) {p' : SPhase} (hsched : t.sched = p') {j' : Nat}
    (hslots : ∑ i, busy (t.socketFlag i) = j')
    (hconn : j' + p'.conn.toList.length = j + p.conn.toList.length) :
    Untaken (s.next t) j' p' (Turn.on.after .accept p p') where
  reachable := h.reachable.tail ⟨h.crash, .work s hwork fun i hi hne => by
    rw [hworker] at hne
    exact absurd hi hne⟩
  on := h.on
  crash := h.crash
  sched := hsched
  schedTurn := by
    show s.schedTurn.after .accept s.threads.sched t.sched = _
    rw [h.schedTurn, h.sched, hsched]
  worker := by
    intro i
    show t.worker i = .poll
    rw [hworker, h.worker i]
  turn := by
    intro i
    show (s.turn i).after .poll (s.threads.worker i) (t.worker i) = .check
    rw [Turn.after, if_neg fun hback => hback.1 (h.worker i), h.turn i]
  slots := hslots
  accepted := by
    show t.accepted.length = _
    rw [haccepted, h.accepted, hconn]
  takes := htakes.trans h.takes

/-- A search that has a free slot ahead finds it: by induction on its distance. -/
theorem Untaken.search (h : Untaken s j (.search c) .on) {d : Nat}
    (hfree : s.threads.socketFlag (s.threads.lastFitPos + Fin.ofNat (n + 1) d) = 0) :
    ∃ t : WebServer n, Untaken t j (.store c) .on := by
  induction d generalizing s with
  | zero =>
      have hflag : s.threads.socketFlag s.threads.lastFitPos = 0 := by simpa using hfree
      exact ⟨_, h.work (.schedFound s.threads c h.sched hflag) rfl rfl rfl rfl h.slots rfl⟩
  | succ d ih =>
      by_cases hflag : s.threads.socketFlag s.threads.lastFitPos = 0
      · exact ⟨_, h.work (.schedFound s.threads c h.sched hflag) rfl rfl rfl rfl h.slots rfl⟩
      · have hnext := h.work (.schedNext s.threads c h.sched hflag) rfl rfl rfl h.sched h.slots rfl
        exact ih hnext (by rw [← around_succ] at hfree; exact hfree)

/-- The scheduler accepts a connection. -/
theorem Untaken.accept (h : Untaken s j .accept .check) :
    ∃ t : WebServer n, ∃ c, c.sock ≠ 0 ∧ Untaken t j (.waitEmpty c) .on := by
  have hcheck := h.reachable.tail ⟨h.crash, .schedOn s h.sched h.schedTurn h.on⟩
  have hsock : (7 : Int) ≠ 0 := by decide
  have haccept := hcheck.tail ⟨h.crash, .accept _ 7 h.sched rfl hsock⟩
  exact ⟨_, ⟨s.threads.accepted.length, 7⟩, hsock, haccept, h.on, h.crash, rfl, rfl, h.worker, h.turn,
    h.slots, by simpa [SPhase.conn] using h.accepted, h.takes⟩

/-- One more connection in a slot. -/
theorem Untaken.fill (h : Untaken s j .accept .check) (hj : j < n + 1) :
    ∃ t : WebServer n, Untaken t (j + 1) .accept .check := by
  obtain ⟨s₁, c, hsock, h₁⟩ := h.accept
  have hempty := h₁.account.empty
  simp only [SPhase.use, Use.claims] at hempty
  have h₂ := h₁.work (.schedWaitEmpty s₁.threads c h₁.sched (by omega)) rfl rfl rfl rfl h₁.slots rfl
  have hmutex := h₂.account.mutex
  simp only [SPhase.use, Use.holds] at hmutex
  have h₃ := h₂.work (.schedWaitMutex _ c h₂.sched (by omega)) rfl rfl rfl rfl h₂.slots rfl
  obtain ⟨d, -, hfree⟩ := h₃.reachable.threads.inv.search c h₃.sched
  obtain ⟨s₄, h₄⟩ := h₃.search hfree
  have hslot := h₄.reachable.threads.inv.store c h₄.sched
  -- the slot that was free is full
  have hslots := sum_update busy s₄.threads.socketFlag s₄.threads.lastFitPos c.sock
  rw [hslot, busy_of_ne hsock, h₄.slots, busy_zero] at hslots
  have hmore : ∑ i, busy (Function.update s₄.threads.socketFlag s₄.threads.lastFitPos c.sock i) =
      j + 1 := by omega
  have h₅ := h₄.work (.schedStore s₄.threads c h₄.sched) rfl rfl rfl rfl hmore rfl
  have h₆ := h₅.work (.schedPostMutex _ h₅.sched) rfl rfl rfl rfl h₅.slots rfl
  exact ⟨_, h₆.work (.schedPostFull _ h₆.sched) rfl rfl rfl rfl h₆.slots rfl⟩

/-- All slots full, and the scheduler with one connection more. -/
theorem untaken_full (n : Nat) : ∃ s : WebServer n, ∃ c, Untaken s (n + 1) (.waitEmpty c) .on := by
  have hfill : ∀ j ≤ n + 1, ∃ s : WebServer n, Untaken s j .accept .check := by
    intro j hj
    induction j with
    | zero =>
        refine ⟨init n, Relation.ReflTransGen.refl, rfl, rfl, rfl, rfl, fun _ => rfl, fun _ => rfl,
          ?_, rfl, rfl⟩
        simp [init, Server.init]
    | succ j ih =>
        obtain ⟨s, hs⟩ := ih (by omega)
        exact hs.fill (by omega)
  obtain ⟨s, hs⟩ := hfill (n + 1) le_rfl
  obtain ⟨t, c, -, ht⟩ := hs.accept
  exact ⟨t, c, ht⟩

end Untaken

/-- The program never returns from `main` in a defined way. As long as the server is on, only the
service of a connection can crash it. After `quit` was read, a run that ends has crashed, and one
that goes on for ever ends up in the service of connections. Until then every accepted connection
is in the hand of the scheduler, waits in one slot, or was taken by one worker. With any number of
workers, the first of them can flow off the end of its function while all slots hold connections
that were not taken, and the scheduler one more. -/
theorem quit_never_returns (n : Nat) :
    (∀ s : WebServer n, Reachable s →
      (s.serverOn = true → ∀ a, s.crash = some a → ∃ i, a = .service i) ∧
      (s.serverOn = false →
        (Stuck s → ∃ a, s.crash = some a) ∧
        ∀ run : Nat → WebServer n, run 0 = s → (∀ k, Step (run k) (run (k + 1))) →
          ∃ m, ∀ k, m ≤ k → run (k + 1) = run k ∧ (run k).Serving) ∧
      ∀ k < s.threads.accepted.length,
        s.threads.sched.has k + s.threads.waiting k + s.threads.taken k = 1) ∧
    ∃ s : WebServer n, Reachable s ∧ s.serverOn = false ∧ s.crash = some (.worker 0) ∧
      s.threads.accepted.length = n + 2 ∧ ∀ k, s.threads.taken k = 0 := by
  constructor
  · intro s h
    refine ⟨fun hon a ha => h.crash_of_on hon ha, fun hoff => ⟨h.crash_of_stuck, ?_⟩, ?_⟩
    · intro run hstart hrun
      exact h.eventually_serving hoff hstart hrun
    · intro k hk
      rw [h.threads.inv.placed k, if_pos hk]
  · obtain ⟨s, c, hs⟩ := untaken_full n
    have hoff := hs.reachable.tail ⟨hs.crash, .quit s hs.on⟩
    have hleave := hoff.tail ⟨hs.crash, .workerLeave _ 0 (hs.worker 0) (hs.turn 0) rfl⟩
    refine ⟨_, hleave, rfl, rfl, hs.accepted, fun k => ?_⟩
    show (s.threads.takes.filter fun e => e.1 = k).length = 0
    rw [hs.takes]
    rfl

end WebServer

end CloudLabs.Http
