import Mathlib.Algebra.BigOperators.Group.Finset.Basic
import Mathlib.Data.Fintype.BigOperators
import Mathlib.Tactic

/-!
# A lock of three semaphores

A `CpLock` guards a store of bounded size with the semaphores `empty`, `full` and `mutex`. A
producer waits for `empty` and `mutex`, adds an element, and posts `mutex` and `full`; a consumer
waits for `full` and `mutex`, removes an element, and posts `mutex` and `empty`. `Use` is how far a
thread has come with that.

`Account` balances the three counters against the number of elements and the threads that are in the
middle of a use; it holds for any number of producers and consumers, at every step of each of them.
-/

set_option autoImplicit false

namespace CloudLabs.Foundation

/-- The semaphores of a lock. -/
inductive Sem where
  | empty
  | full
  | mutex
  deriving DecidableEq

/-- The counters of the semaphores. -/
structure CpLock where
  empty : Nat
  full : Nat
  mutex : Nat
  deriving DecidableEq

namespace CpLock

/-- A new lock for a store of the given size. -/
def init (len : Nat) : CpLock := ⟨len, 0, 1⟩

def count (l : CpLock) : Sem → Nat
  | .empty => l.empty
  | .full => l.full
  | .mutex => l.mutex

/-- `sem_wait`, for a counter that is not zero. -/
def wait (l : CpLock) : Sem → CpLock
  | .empty => { l with empty := l.empty - 1 }
  | .full => { l with full := l.full - 1 }
  | .mutex => { l with mutex := l.mutex - 1 }

/-- `sem_post`. -/
def post (l : CpLock) : Sem → CpLock
  | .empty => { l with empty := l.empty + 1 }
  | .full => { l with full := l.full + 1 }
  | .mutex => { l with mutex := l.mutex + 1 }

end CpLock

/-- How far a thread has come with one use of the lock: it has not begun, has its token (`empty` or
`full`), holds the mutex, has changed the store, or has released the mutex and not yet posted the
other token. -/
inductive Use where
  | out
  | token
  | hold
  | changed
  | late
  deriving DecidableEq

namespace Use

/-- The thread holds the mutex. -/
def holds : Use → Nat
  | .hold => 1
  | .changed => 1
  | _ => 0

/-- The thread has a token for a change it has still to make. -/
def claims : Use → Nat
  | .token => 1
  | .hold => 1
  | _ => 0

/-- The thread has made its change and has the other token still to post. -/
def owes : Use → Nat
  | .changed => 1
  | .late => 1
  | _ => 0

@[simp] theorem holds_hold : hold.holds = 1 := rfl

@[simp] theorem holds_changed : changed.holds = 1 := rfl

@[simp] theorem claims_hold : hold.claims = 1 := rfl

@[simp] theorem claims_changed : changed.claims = 0 := rfl

@[simp] theorem owes_hold : hold.owes = 0 := rfl

@[simp] theorem owes_changed : changed.owes = 1 := rfl

end Use

/-- The counters of a lock for `cap` places, of which `n` are taken: the holders of the mutex, the
claims and debts of the producers, and those of the consumers make up for the rest. -/
structure CpLock.Account (l : CpLock) (cap n holds pClaims pOwes cClaims cOwes : Nat) : Prop where
  mutex : l.mutex + holds = 1
  full : l.full + cClaims + pOwes = n
  empty : l.empty + pClaims + cOwes + n = cap

theorem CpLock.Account.init (cap : Nat) : (CpLock.init cap).Account cap 0 0 0 0 0 0 where
  mutex := rfl
  full := rfl
  empty := rfl

/-! ## Sums over the threads -/

section Sums

variable {ι : Type} [Fintype ι]

/-- One thread's part of a sum. -/
theorem le_sum (g : ι → Nat) (i : ι) : g i ≤ ∑ j, g j :=
  Finset.single_le_sum (fun j _ => Nat.zero_le (g j)) (Finset.mem_univ i)

variable [DecidableEq ι]

/-- A sum over all threads, after a change in the part of one of them. -/
theorem sum_change {g g' : ι → Nat} (i : ι) (h : ∀ j, j ≠ i → g' j = g j) :
    ∑ j, g' j + g i = ∑ j, g j + g' i := by
  have hold := Finset.add_sum_erase Finset.univ g (Finset.mem_univ i)
  have hnew := Finset.add_sum_erase Finset.univ g' (Finset.mem_univ i)
  have hrest : ∑ j ∈ Finset.univ.erase i, g' j = ∑ j ∈ Finset.univ.erase i, g j :=
    Finset.sum_congr rfl fun j hj => h j (Finset.ne_of_mem_erase hj)
  omega

/-- A sum over what the threads do, after one of them has gone on. -/
theorem sum_update {α : Type} (g : α → Nat) (f : ι → α) (i : ι) (x : α) :
    ∑ j, g (Function.update f i x j) + g (f i) = ∑ j, g (f j) + g x := by
  have hother : ∀ j, j ≠ i → g (Function.update f i x j) = g (f j) := by
    intro j hj
    rw [Function.update_of_ne hj]
  have h := sum_change i hother
  rwa [Function.update_self] at h

end Sums

end CloudLabs.Foundation
