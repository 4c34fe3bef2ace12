import CloudLabs.Foundation.CpLock

/-!
# A queue behind a lock of three semaphores

A queue of bounded size with one producer and one consumer, each of which goes through its use of
the `CpLock` one semaphore operation at a time. `Put` and `Take` are the phases of the two.

Two facts carry the proofs about such queues: `Fits`, which balances the counters against the length
of the queue, and the flow laws `Put.Step.flow` and `Take.Step.flow`, by which an element is at
every moment with the producer, in the queue, or with the consumer.
-/

set_option autoImplicit false

namespace CloudLabs.Foundation

variable {β : Type}

/-- A queue with its lock. -/
structure Queue (β : Type) where
  lock : CpLock
  items : List β

/-- The phases of a producer that adds one element. -/
inductive Put where
  | waitEmpty
  | waitMutex
  | push
  | postMutex
  | postFull
  | done
  deriving DecidableEq

/-- The phases of a consumer that removes one element. -/
inductive Take (β : Type) where
  | waitFull
  | waitMutex
  | pop
  | postMutex (x : β)
  | postEmpty (x : β)
  | done (x : β)

def Put.use : Put → Use
  | .waitEmpty => .out
  | .waitMutex => .token
  | .push => .hold
  | .postMutex => .changed
  | .postFull => .late
  | .done => .out

def Take.use : Take β → Use
  | .waitFull => .out
  | .waitMutex => .token
  | .pop => .hold
  | .postMutex _ => .changed
  | .postEmpty _ => .late
  | .done _ => .out

/-- What the producer has still to add. -/
def Put.pending (x : β) : Put → List β
  | .waitEmpty => [x]
  | .waitMutex => [x]
  | .push => [x]
  | _ => []

/-- What the consumer has removed. -/
def Take.took : Take β → List β
  | .postMutex x => [x]
  | .postEmpty x => [x]
  | .done x => [x]
  | _ => []

/-- One step of a producer of `x`: `pGet`, `push` and `pRelease`. -/
inductive Put.Step (x : β) : Queue β → Put → Queue β → Put → Prop
  | waitEmpty (q : Queue β) (h : 0 < q.lock.empty) :
      Step x q .waitEmpty { q with lock := q.lock.wait .empty } .waitMutex
  | waitMutex (q : Queue β) (h : 0 < q.lock.mutex) :
      Step x q .waitMutex { q with lock := q.lock.wait .mutex } .push
  | push (q : Queue β) :
      Step x q .push { q with items := q.items ++ [x] } .postMutex
  | postMutex (q : Queue β) :
      Step x q .postMutex { q with lock := q.lock.post .mutex } .postFull
  | postFull (q : Queue β) :
      Step x q .postFull { q with lock := q.lock.post .full } .done

/-- One step of a consumer: `cGet`, `front` with `pop`, and `cRelease`. -/
inductive Take.Step : Queue β → Take β → Queue β → Take β → Prop
  | waitFull (q : Queue β) (h : 0 < q.lock.full) :
      Step q .waitFull { q with lock := q.lock.wait .full } .waitMutex
  | waitMutex (q : Queue β) (h : 0 < q.lock.mutex) :
      Step q .waitMutex { q with lock := q.lock.wait .mutex } .pop
  | pop (q : Queue β) (x : β) (rest : List β) (h : q.items = x :: rest) :
      Step q .pop { q with items := rest } (.postMutex x)
  | postMutex (q : Queue β) (x : β) :
      Step q (.postMutex x) { q with lock := q.lock.post .mutex } (.postEmpty x)
  | postEmpty (q : Queue β) (x : β) :
      Step q (.postEmpty x) { q with lock := q.lock.post .empty } (.done x)

variable {x : β} {q q' : Queue β} {p p' : Put} {t t' : Take β} {c : Use} {cap : Nat}

/-- The elements are with the producer or in the queue. -/
theorem Put.Step.flow (h : Put.Step x q p q' p') :
    q'.items ++ p'.pending x = q.items ++ p.pending x := by
  cases h with
  | push => simp [Put.pending]
  | waitEmpty => rfl
  | waitMutex => rfl
  | postMutex => rfl
  | postFull => rfl

/-- The elements are in the queue or with the consumer. -/
theorem Take.Step.flow (h : Take.Step q t q' t') : t'.took ++ q'.items = t.took ++ q.items := by
  cases h with
  | pop x rest hitems => simp [Take.took, hitems]
  | waitFull => rfl
  | waitMutex => rfl
  | postMutex => rfl
  | postEmpty => rfl

namespace Queue

/-- An empty queue for `cap` elements. -/
def new (cap : Nat) : Queue β := ⟨CpLock.init cap, []⟩

/-- The counters fit the length of the queue, its producer and its consumer. -/
def Fits (q : Queue β) (cap : Nat) (p c : Use) : Prop :=
  q.lock.Account cap q.items.length (p.holds + c.holds) p.claims p.owes c.claims c.owes

theorem fits_new (cap : Nat) : (new cap : Queue β).Fits cap .out .out := CpLock.Account.init cap

end Queue

theorem Put.Step.fits (h : Put.Step x q p q' p') (hq : q.Fits cap p.use c) :
    q'.Fits cap p'.use c := by
  obtain ⟨hm, hf, he⟩ := hq
  cases h with
  | waitEmpty hsem =>
    constructor <;> simp only [Put.use, CpLock.wait, Use.holds, Use.claims, Use.owes] at * <;> omega
  | waitMutex hsem =>
    constructor <;> simp only [Put.use, CpLock.wait, Use.holds, Use.claims, Use.owes] at * <;> omega
  | push =>
    constructor <;> simp only [Put.use, Use.holds, Use.claims, Use.owes, List.length_append,
      List.length_singleton] at * <;> omega
  | postMutex =>
    constructor <;> simp only [Put.use, CpLock.post, Use.holds, Use.claims, Use.owes] at * <;> omega
  | postFull =>
    constructor <;> simp only [Put.use, CpLock.post, Use.holds, Use.claims, Use.owes] at * <;> omega

theorem Take.Step.fits (h : Take.Step q t q' t') (hq : q.Fits cap c t.use) :
    q'.Fits cap c t'.use := by
  obtain ⟨hm, hf, he⟩ := hq
  cases h with
  | waitFull hsem =>
    constructor <;> simp only [Take.use, CpLock.wait, Use.holds, Use.claims, Use.owes] at * <;> omega
  | waitMutex hsem =>
    constructor <;> simp only [Take.use, CpLock.wait, Use.holds, Use.claims, Use.owes] at * <;> omega
  | pop x rest hitems =>
    rw [hitems] at hf he
    constructor <;> simp only [Take.use, Use.holds, Use.claims, Use.owes, List.length_cons] at * <;>
      omega
  | postMutex x =>
    constructor <;> simp only [Take.use, CpLock.post, Use.holds, Use.claims, Use.owes] at * <;> omega
  | postEmpty x =>
    constructor <;> simp only [Take.use, CpLock.post, Use.holds, Use.claims, Use.owes] at * <;> omega

/-! ## Who can go on -/

/-- A producer that cannot go on is done, or waits in front of a full queue, or for the mutex. -/
theorem Put.blocked (hq : q.Fits cap p.use c) (hstuck : ∀ q' p', ¬ Put.Step x q p q' p') :
    p.use.holds = 0 ∧ p.use.owes = 0 ∧ (c.holds = 0 → p.use.claims = 0) := by
  cases p with
  | waitEmpty => exact ⟨rfl, rfl, fun _ => rfl⟩
  | waitMutex =>
    refine ⟨rfl, rfl, ?_⟩
    intro hc
    have hm := hq.mutex
    have hout : Put.waitMutex.use.holds = 0 := rfl
    have hfree : 0 < q.lock.mutex := by omega
    exact absurd (Put.Step.waitMutex q hfree) (hstuck _ _)
  | push => exact absurd (Put.Step.push q) (hstuck _ _)
  | postMutex => exact absurd (Put.Step.postMutex q) (hstuck _ _)
  | postFull => exact absurd (Put.Step.postFull q) (hstuck _ _)
  | done => exact ⟨rfl, rfl, fun _ => rfl⟩

/-- A consumer that cannot go on is done, or waits in front of an empty queue, or for the mutex. -/
theorem Take.blocked (hq : q.Fits cap c t.use) (hstuck : ∀ q' t', ¬ Take.Step q t q' t') :
    t.use.holds = 0 ∧ t.use.owes = 0 ∧ (c.holds = 0 → t.use.claims = 0) := by
  cases t with
  | waitFull => exact ⟨rfl, rfl, fun _ => rfl⟩
  | waitMutex =>
    refine ⟨rfl, rfl, ?_⟩
    intro hc
    have hm := hq.mutex
    have hout : (Take.waitMutex : Take β).use.holds = 0 := rfl
    have hfree : 0 < q.lock.mutex := by omega
    exact absurd (Take.Step.waitMutex q hfree) (hstuck _ _)
  | pop =>
    -- The token from `full` stands for an element that is still there.
    have hf := hq.full
    cases hitems : q.items with
    | nil =>
      simp only [hitems, Take.use, Use.claims, List.length_nil] at hf
      omega
    | cons x rest => exact absurd (Take.Step.pop q x rest hitems) (hstuck _ _)
  | postMutex x => exact absurd (Take.Step.postMutex q x) (hstuck _ _)
  | postEmpty x => exact absurd (Take.Step.postEmpty q x) (hstuck _ _)
  | done x => exact ⟨rfl, rfl, fun _ => rfl⟩

/-- With nobody in a critical section, the counters are those of the length. -/
theorem Queue.Fits.quiet {p c : Use} (hq : q.Fits cap p c)
    (hp : p.holds = 0 ∧ p.owes = 0 ∧ (c.holds = 0 → p.claims = 0))
    (hc : c.holds = 0 ∧ c.owes = 0 ∧ (p.holds = 0 → c.claims = 0)) :
    q.lock.full = q.items.length ∧ q.lock.empty + q.items.length = cap := by
  have hpc := hp.2.2 hc.1
  have hcc := hc.2.2 hp.1
  have hf := hq.full
  have he := hq.empty
  omega

/-- A producer without a token that cannot go on is done, or the queue is full. -/
theorem Put.full_of_stuck (hempty : q.lock.empty + q.items.length = cap) (hclaims : p.use.claims = 0)
    (hp : p ≠ .done) (hstuck : ∀ q' p', ¬ Put.Step x q p q' p') : q.items.length = cap := by
  cases p with
  | waitEmpty =>
    by_contra hroom
    have hsem : 0 < q.lock.empty := by omega
    exact hstuck _ _ (.waitEmpty q hsem)
  | waitMutex => cases hclaims
  | push => exact absurd (Put.Step.push q) (hstuck _ _)
  | postMutex => exact absurd (Put.Step.postMutex q) (hstuck _ _)
  | postFull => exact absurd (Put.Step.postFull q) (hstuck _ _)
  | done => exact absurd rfl hp

/-- A consumer without a token that cannot go on is done, or the queue is empty. -/
theorem Take.empty_of_stuck (hfull : q.lock.full = q.items.length) (hclaims : t.use.claims = 0)
    (ht : ∀ x, t ≠ .done x) (hstuck : ∀ q' t', ¬ Take.Step q t q' t') :
    t = .waitFull ∧ q.items = [] := by
  cases t with
  | waitFull =>
    refine ⟨rfl, ?_⟩
    by_contra hitems
    have hlen := List.length_pos_of_ne_nil hitems
    have hsem : 0 < q.lock.full := by omega
    exact hstuck _ _ (.waitFull q hsem)
  | waitMutex => cases hclaims
  | pop => cases hclaims
  | postMutex x => exact absurd (Take.Step.postMutex q x) (hstuck _ _)
  | postEmpty x => exact absurd (Take.Step.postEmpty q x) (hstuck _ _)
  | done x => exact absurd rfl (ht x)

/-! ## The steps that are left -/

/-- The steps of a producer that are left, and one more. -/
def Put.left : Put → Nat
  | .waitEmpty => 6
  | .waitMutex => 5
  | .push => 4
  | .postMutex => 3
  | .postFull => 2
  | .done => 1

/-- The steps of a consumer that are left, and one more. -/
def Take.left : Take β → Nat
  | .waitFull => 6
  | .waitMutex => 5
  | .pop => 4
  | .postMutex _ => 3
  | .postEmpty _ => 2
  | .done _ => 1

theorem Put.Step.left (h : Put.Step x q p q' p') : p'.left + 1 = p.left := by
  cases h with
  | waitEmpty => rfl
  | waitMutex => rfl
  | push => rfl
  | postMutex => rfl
  | postFull => rfl

theorem Take.Step.left (h : Take.Step q t q' t') : t'.left + 1 = t.left := by
  cases h with
  | waitFull => rfl
  | waitMutex => rfl
  | pop => rfl
  | postMutex => rfl
  | postEmpty => rfl

theorem Put.Step.length (h : Put.Step x q p q' p') :
    q'.items.length + (p'.pending x).length = q.items.length + (p.pending x).length := by
  have hflow := congrArg List.length h.flow
  rwa [List.length_append, List.length_append] at hflow

theorem Take.Step.length (h : Take.Step q t q' t') :
    t'.took.length + q'.items.length = t.took.length + q.items.length := by
  have hflow := congrArg List.length h.flow
  rwa [List.length_append, List.length_append] at hflow

end CloudLabs.Foundation
