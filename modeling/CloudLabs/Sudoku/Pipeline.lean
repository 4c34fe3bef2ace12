import CloudLabs.Foundation.BoundedQueue
import CloudLabs.Foundation.RoundRobin
import CloudLabs.Foundation.Bytes
import Mathlib.Logic.Relation

/-!
# The queues between reader, solvers and printer

`problemWriter` deals the problems out to one queue for each solver, `solveManager` takes a problem,
solves it in its buffer and puts the buffer into the solver's result queue, and `answerPrinter`
visits the result queues in the writer's turn. A null pointer (`none`) is the end marker of a
solver.

`Core n` is the state of these threads with `n + 1` solvers; `todo` is what the reading thread has
still to pass to `problemWriter`. `sent`, `received` and `printed` are not in the program: they
record what the writer has begun to write, what each solver has got, and what the printer has
processed, and no step reads them.

Writer and printer count in a `size_t`, modulo `2 ^ 64`, and `BATCH_NUMBER * 82` is a product of two
`int`s, which wraps around. The functions of the threads have no return statement, which C++ leaves
undefined; a thread that comes to the end of its function is taken to have ended.

`Inv`: what the printer processes are the solutions of what was sent, in the order of the writer.
-/

set_option autoImplicit false

namespace CloudLabs.Sudoku

open CloudLabs.Foundation

/-- A buffer with a problem or its solution, or the end marker. -/
abbrev Item := Option Bytes

/-- Where the thread of `problemWriter` is: between two calls, or in a call with `x`. -/
inductive Writer where
  | idle
  | put (p : Put) (x : Item)

/-- Where a `solveManager` is: taking a problem, returning a buffer, or finished. -/
inductive Solver where
  | take (t : Take Item)
  | put (p : Put) (x : Item)
  | stopped

/-- Where `answerPrinter` is: at the head of its loop, taking a result, or finished. -/
inductive Phase where
  | loop
  | take (t : Take Item)
  | done

/-- A `size_t`. -/
def sizeT (n : Nat) : Nat := n % 2 ^ 64

theorem sizeT_of_lt {n : Nat} (h : n < 2 ^ 64) : sizeT n = n := Nat.mod_eq_of_lt h

/-- A counter that is increased goes on counting modulo `2 ^ 64`. -/
theorem sizeT_succ (n : Nat) : sizeT (sizeT n + 1) = sizeT (n + 1) := Nat.mod_add_mod n _ 1

/-- `n - 1` in a `size_t`. -/
theorem sizeT_pred {n : Nat} (hpos : 0 < n) (h : n < 2 ^ 64) : sizeT (n + (2 ^ 64 - 1)) = n - 1 := by
  have hwrap : n + (2 ^ 64 - 1) = n - 1 + 2 ^ 64 := by omega
  rw [sizeT, hwrap, Nat.add_mod_right, Nat.mod_eq_of_lt (by omega)]

/-! ## The output buffer -/

/-- `BATCH_NUMBER * 82`, a product of two `int`s that is then converted to a `size_t`. -/
def bufSize (batch : Nat) : Nat := ((BitVec.ofNat 32 (batch * 82)).signExtend 64).toNat

/-- A product that an `int` holds. -/
theorem bufSize_of_lt {batch : Nat} (h : 82 * batch < 2 ^ 31) : bufSize batch = batch * 82 := by
  have hval : (BitVec.ofNat 32 (batch * 82)).toNat = batch * 82 :=
    Nat.mod_eq_of_lt (by omega : batch * 82 < 2 ^ 32)
  have hmsb : (BitVec.ofNat 32 (batch * 82)).msb = false := by
    rw [BitVec.msb_eq_decide, decide_eq_false_iff_not, hval]
    omega
  rw [bufSize, BitVec.signExtend_eq_setWidth_of_msb_false hmsb, BitVec.toNat_setWidth, hval]
  exact Nat.mod_eq_of_lt (by omega)

/-- `strncpy` of at most `len` bytes: the source up to its NUL, and zeros for the rest. -/
def strncpy (buf : Bytes) (pos : Nat) (src : Bytes) (len : Nat) : Bytes :=
  buf.take pos ++ ((src.takeWhile (· ≠ 0)).take len ++
    List.replicate (len - ((src.takeWhile (· ≠ 0)).take len).length) 0) ++ buf.drop (pos + len)

/-- `printf` of `"%s\n"`. -/
def putLine (buf : Bytes) : Bytes := buf.takeWhile (· ≠ 0) ++ [10]

/-- The local variables of `answerPrinter` and what it has printed; `resultBuf` is the block from
`malloc`. -/
structure Printer where
  resultBuf : Bytes
  pos : Nat
  endNumber : Nat
  out : Bytes
  /-- All lines were copied into the block. The first one that was not makes the program undefined;
  the model then goes on without the bytes behind the block. -/
  inside : Bool

/-- The printer in front of its loop, with the block that `malloc` gave. -/
def Printer.start (garbage : Bytes) : Printer := ⟨garbage, 0, 0, [], true⟩

/-- The branch for a result: the buffer takes its 81 bytes and a newline, and is printed when
full. -/
def Printer.result (pr : Printer) (batch : Nat) (result : Bytes) : Printer :=
  let size := pr.resultBuf.length
  let buf := ((strncpy pr.resultBuf pr.pos result 81).set (pr.pos + 81) 10).take size
  let inside := pr.inside && decide (pr.pos + 82 ≤ size)
  let pos := sizeT (pr.pos + 82)
  if pos ≥ bufSize batch then
    let full := buf.set (sizeT (bufSize batch + (2 ^ 64 - 1))) 0
    { pr with resultBuf := full, out := pr.out ++ putLine full, pos := 0, inside := inside }
  else { pr with resultBuf := buf, pos := pos, inside := inside }

/-- The body of the loop behind `cRelease`, up to the test of `endNumber`. -/
def Printer.process (pr : Printer) (batch : Nat) : Item → Printer
  | some result => pr.result batch result
  | none => { pr with endNumber := pr.endNumber + 1 }

/-- What is printed before the loop is left. -/
def Printer.rest (pr : Printer) : Printer :=
  if pr.pos ≠ 0 then
    { pr with
      resultBuf := pr.resultBuf.set (pr.pos - 1) 0
      out := pr.out ++ putLine (pr.resultBuf.set (pr.pos - 1) 0) }
  else pr

/-! ## The threads -/

structure Core (n : Nat) where
  todo : List Item
  problemNumber : Nat
  writer : Writer
  problemBuffer : Fin (n + 1) → Queue Item
  solver : Fin (n + 1) → Solver
  resultBuffer : Fin (n + 1) → Queue Item
  resultNumber : Nat
  phase : Phase
  printer : Printer
  /-- The items the writer has begun to write. -/
  sent : List Item
  /-- The items each solver has got. -/
  received : Fin (n + 1) → List Item
  /-- The items the printer has processed. -/
  printed : List Item

namespace Core

variable {n : Nat}

/-- The state in which the threads start, with `todo` to write, queues for `cap` elements, and the
block that `malloc` gave for the output buffer. -/
def start (n cap : Nat) (garbage : Bytes) (todo : List Item) : Core n where
  todo := todo
  problemNumber := 0
  writer := .idle
  problemBuffer := fun _ => Queue.new cap
  solver := fun _ => .take .waitFull
  resultBuffer := fun _ => Queue.new cap
  resultNumber := 0
  phase := .loop
  printer := .start garbage
  sent := []
  received := fun _ => []
  printed := []

/-- The queue that the current call of `problemWriter` writes to. -/
def writeId (s : Core n) : Fin (n + 1) := laneOf n s.problemNumber

/-- The queue that the printer is to read from. -/
def readId (s : Core n) : Fin (n + 1) := laneOf n s.resultNumber

/-- The steps of the threads. -/
inductive Step (solve : Bytes → Bytes) (batch : Nat) : Core n → Core n → Prop
  -- the reading thread, in `problemWriter`
  | call (s : Core n) (x : Item) (rest : List Item) (hw : s.writer = .idle) (h : s.todo = x :: rest) :
      Step solve batch s { s with
        todo := rest
        problemNumber := sizeT (s.problemNumber + 1)
        writer := .put .waitEmpty x
        sent := s.sent ++ [x] }
  | write (s : Core n) (p p' : Put) (x : Item) (q : Queue Item) (hw : s.writer = .put p x)
      (h : Put.Step x (s.problemBuffer s.writeId) p q p') :
      Step solve batch s { s with
        problemBuffer := Function.update s.problemBuffer s.writeId q
        writer := .put p' x }
  | written (s : Core n) (x : Item) (hw : s.writer = .put .done x) :
      Step solve batch s { s with writer := .idle }
  -- the solvers, in `solveManager`
  | get (s : Core n) (i : Fin (n + 1)) (t t' : Take Item) (q : Queue Item)
      (hs : s.solver i = .take t) (h : Take.Step (s.problemBuffer i) t q t') :
      Step solve batch s { s with
        problemBuffer := Function.update s.problemBuffer i q
        solver := Function.update s.solver i (.take t') }
  | solve (s : Core n) (i : Fin (n + 1)) (x : Item) (hs : s.solver i = .take (.done x)) :
      Step solve batch s { s with
        solver := Function.update s.solver i (.put .waitEmpty (x.map solve))
        received := Function.update s.received i (s.received i ++ [x]) }
  | put (s : Core n) (i : Fin (n + 1)) (p p' : Put) (x : Item) (q : Queue Item)
      (hs : s.solver i = .put p x) (h : Put.Step x (s.resultBuffer i) p q p') :
      Step solve batch s { s with
        resultBuffer := Function.update s.resultBuffer i q
        solver := Function.update s.solver i (.put p' x) }
  | again (s : Core n) (i : Fin (n + 1)) (y : Bytes) (hs : s.solver i = .put .done (some y)) :
      Step solve batch s { s with solver := Function.update s.solver i (.take .waitFull) }
  | stop (s : Core n) (i : Fin (n + 1)) (hs : s.solver i = .put .done none) :
      Step solve batch s { s with solver := Function.update s.solver i .stopped }
  -- the printer, in `answerPrinter`
  | turn (s : Core n) (hp : s.phase = .loop) :
      Step solve batch s { s with
        resultNumber := sizeT (s.resultNumber + 1)
        phase := .take .waitFull }
  | read (s : Core n) (t t' : Take Item) (q : Queue Item) (hp : s.phase = .take t)
      (h : Take.Step (s.resultBuffer s.readId) t q t') :
      Step solve batch s { s with
        resultBuffer := Function.update s.resultBuffer s.readId q
        phase := .take t' }
  | process (s : Core n) (x : Item) (hp : s.phase = .take (.done x))
      (hmore : (s.printer.process batch x).endNumber ≠ n + 1) :
      Step solve batch s { s with
        printer := s.printer.process batch x
        phase := .loop
        printed := s.printed ++ [x] }
  | finish (s : Core n) (x : Item) (hp : s.phase = .take (.done x))
      (hlast : (s.printer.process batch x).endNumber = n + 1) :
      Step solve batch s { s with
        printer := (s.printer.process batch x).rest
        phase := .done
        printed := s.printed ++ [x] }

/-- The runs of the threads from a given state. -/
def Run (solve : Bytes → Bytes) (batch : Nat) : Core n → Core n → Prop :=
  Relation.ReflTransGen (Step solve batch)

end Core

/-! ## What holds in every state -/

def Writer.use : Writer → Use
  | .idle => .out
  | .put p _ => p.use

/-- What the writer has still to put into its queue. -/
def Writer.pending : Writer → List Item
  | .idle => []
  | .put p x => p.pending x

def Solver.takeUse : Solver → Use
  | .take t => t.use
  | _ => .out

def Solver.putUse : Solver → Use
  | .put p _ => p.use
  | _ => .out

/-- What the solver has removed from its problem queue and not yet looked at. -/
def Solver.took : Solver → List Item
  | .take t => t.took
  | _ => []

/-- What the solver has still to put into its result queue. -/
def Solver.pending : Solver → List Item
  | .put p x => p.pending x
  | _ => []

/-- The end markers that the solver has seen: it takes nothing after the first one. -/
def Solver.markers : Solver → Nat
  | .take _ => 0
  | .put _ x => [x].count none
  | .stopped => 1

theorem Solver.markers_le (w : Solver) : w.markers ≤ 1 := by
  cases w with
  | take t => exact Nat.zero_le 1
  | put p x => exact List.count_le_length
  | stopped => exact le_rfl

def Phase.use : Phase → Use
  | .take t => t.use
  | _ => .out

/-- What the printer has removed from a result queue and not yet processed. -/
def Phase.took : Phase → List Item
  | .take t => t.took
  | _ => []

/-- The printer has counted the result it is about to take. -/
def Phase.turned : Phase → Nat
  | .take _ => 1
  | _ => 0

/-- The queue of item `k`, for the writer and for the printer. -/
def deal (n : Nat) : Nat → Fin (n + 1) := counterLane (2 ^ 64) n

namespace Core

variable {n : Nat}

def writeUse (s : Core n) (q : Fin (n + 1)) : Use := if s.writeId = q then s.writer.use else .out

def writePending (s : Core n) (q : Fin (n + 1)) : List Item :=
  if s.writeId = q then s.writer.pending else []

def readUse (s : Core n) (q : Fin (n + 1)) : Use := if s.readId = q then s.phase.use else .out

def readTook (s : Core n) (q : Fin (n + 1)) : List Item :=
  if s.readId = q then s.phase.took else []

structure Inv (solve : Bytes → Bytes) (cap : Nat) (s : Core n) : Prop where
  problems : ∀ q, (s.problemBuffer q).Fits cap (s.writeUse q) (s.solver q).takeUse
  results : ∀ q, (s.resultBuffer q).Fits cap (s.solver q).putUse (s.readUse q)
  /-- What was sent to a solver has been received, or is on its way in this order. -/
  problemFlow : ∀ q, lane (deal n) q 1 s.sent =
    s.received q ++ ((s.solver q).took ++ ((s.problemBuffer q).items ++ s.writePending q))
  /-- What a solver received has been printed in solved form, or is on its way in this order. -/
  resultFlow : ∀ q, (s.received q).map (Option.map solve) =
    lane (deal n) q 1 s.printed ++ (s.readTook q ++ ((s.resultBuffer q).items ++ (s.solver q).pending))
  problemNumber : s.problemNumber = sizeT s.sent.length
  resultNumber : s.phase ≠ .done → s.resultNumber = sizeT (s.printed.length + s.phase.turned)
  inOrder : s.printed <+: s.sent.map (Option.map solve)
  ended : ∀ q, (s.received q).count none = (s.solver q).markers
  counted : s.printer.endNumber = s.printed.count none
  running : s.phase ≠ .done → s.printer.endNumber ≤ n
  finished : s.phase = .done → s.printer.endNumber = n + 1

theorem Inv.start (solve : Bytes → Bytes) (cap : Nat) (garbage : Bytes) (todo : List Item) :
    (start n cap garbage todo).Inv solve cap where
  problems := by
    intro q
    have huse : (Core.start n cap garbage todo).writeUse q = .out := ite_self ..
    rw [huse]
    exact Queue.fits_new cap
  results := by
    intro q
    have huse : (Core.start n cap garbage todo).readUse q = .out := ite_self ..
    rw [huse]
    exact Queue.fits_new cap
  problemFlow := by
    intro q
    have hnone : (Core.start n cap garbage todo).writePending q = [] := ite_self ..
    rw [hnone]
    rfl
  resultFlow := by
    intro q
    have hnone : (Core.start n cap garbage todo).readTook q = [] := ite_self ..
    rw [hnone]
    rfl
  problemNumber := rfl
  resultNumber := fun _ => rfl
  inOrder := List.nil_prefix
  ended := by
    intro q
    rfl
  counted := rfl
  running := fun _ => Nat.zero_le n
  finished := by
    intro h
    cases h

section Steps

variable {solve : Bytes → Bytes} {cap batch : Nat} {s s' : Core n}

/-- The writer begins a call of `problemWriter`. -/
theorem Inv.call (h : s.Inv solve cap) (x : Item) (rest : List Item) (hw : s.writer = .idle) :
    ({ s with
      todo := rest
      problemNumber := sizeT (s.problemNumber + 1)
      writer := .put .waitEmpty x
      sent := s.sent ++ [x] } : Core n).Inv solve cap where
  problems := by
    intro q
    have hbefore : s.writeUse q = .out := by
      rw [writeUse, hw]
      exact ite_self ..
    have hq := h.problems q
    rw [hbefore] at hq
    show Queue.Fits _ cap (if _ then Use.out else Use.out) _
    rwa [ite_self]
  results := h.results
  problemFlow := by
    intro q
    have hq := h.problemFlow q
    have hbefore : s.writePending q = [] := by
      rw [writePending, hw]
      exact ite_self ..
    rw [hbefore, List.append_nil] at hq
    show lane (deal n) q 1 (s.sent ++ [x]) = s.received q ++ ((s.solver q).took ++
      ((s.problemBuffer q).items ++ if laneOf n (sizeT (s.problemNumber + 1)) = q then [x] else []))
    -- the item goes to the lane whose turn it is, which is where the writer is going
    have hturn : laneOf n (sizeT (s.problemNumber + 1)) = deal n (1 + s.sent.length) := by
      rw [h.problemNumber, sizeT_succ, Nat.add_comm 1]
      rfl
    rw [lane_concat, hturn, hq]
    by_cases hid : deal n (1 + s.sent.length) = q
    · rw [if_pos hid, if_pos hid, List.append_assoc, List.append_assoc]
    · rw [if_neg hid, if_neg hid, List.append_nil]
  resultFlow := h.resultFlow
  problemNumber := by
    show sizeT (s.problemNumber + 1) = sizeT (s.sent ++ [x]).length
    rw [h.problemNumber, sizeT_succ, List.length_append, List.length_singleton]
  resultNumber := h.resultNumber
  inOrder := by
    show s.printed <+: (s.sent ++ [x]).map _
    rw [List.map_append]
    exact h.inOrder.trans (List.prefix_append _ _)
  ended := h.ended
  counted := h.counted
  running := h.running
  finished := h.finished

/-- The writer makes a step at its queue. -/
theorem Inv.write (h : s.Inv solve cap) (p p' : Put) (x : Item) (q : Queue Item)
    (hw : s.writer = .put p x) (hput : Put.Step x (s.problemBuffer s.writeId) p q p') :
    ({ s with
      problemBuffer := Function.update s.problemBuffer s.writeId q
      writer := .put p' x } : Core n).Inv solve cap where
  problems := by
    intro i
    by_cases hi : s.writeId = i
    · subst hi
      have hq := h.problems s.writeId
      rw [writeUse, if_pos rfl, hw] at hq
      show Queue.Fits (Function.update s.problemBuffer s.writeId q _) cap
        (if s.writeId = s.writeId then p'.use else _) _
      rw [if_pos rfl, Function.update_self]
      exact hput.fits hq
    · have hq := h.problems i
      rw [writeUse, if_neg hi] at hq
      show Queue.Fits (Function.update s.problemBuffer s.writeId q _) cap
        (if s.writeId = i then p'.use else _) _
      rwa [if_neg hi, Function.update_of_ne (Ne.symm hi)]
  results := h.results
  problemFlow := by
    intro i
    by_cases hi : s.writeId = i
    · subst hi
      have hq := h.problemFlow s.writeId
      rw [writePending, if_pos rfl, hw, Writer.pending, ← hput.flow] at hq
      show _ = _ ++ (_ ++ ((Function.update s.problemBuffer s.writeId q _).items ++
        if s.writeId = s.writeId then p'.pending x else []))
      rw [if_pos rfl, Function.update_self]
      exact hq
    · have hq := h.problemFlow i
      rw [writePending, if_neg hi] at hq
      show _ = _ ++ (_ ++ ((Function.update s.problemBuffer s.writeId q _).items ++
        if s.writeId = i then p'.pending x else []))
      rwa [if_neg hi, Function.update_of_ne (Ne.symm hi)]
  resultFlow := h.resultFlow
  problemNumber := h.problemNumber
  resultNumber := h.resultNumber
  inOrder := h.inOrder
  ended := h.ended
  counted := h.counted
  running := h.running
  finished := h.finished

/-- A solver goes on. Only its own queues change with it, and what it has received. -/
theorem Inv.solver (h : s.Inv solve cap) (i : Fin (n + 1)) (w : Solver) (p r : Queue Item)
    (got : List Item) (hproblems : p.Fits cap (s.writeUse i) w.takeUse)
    (hresults : r.Fits cap w.putUse (s.readUse i))
    (hproblemFlow : lane (deal n) i 1 s.sent = got ++ (w.took ++ (p.items ++ s.writePending i)))
    (hresultFlow : got.map (Option.map solve) =
      lane (deal n) i 1 s.printed ++ (s.readTook i ++ (r.items ++ w.pending)))
    (hended : got.count none = w.markers) :
    ({ s with
      problemBuffer := Function.update s.problemBuffer i p
      solver := Function.update s.solver i w
      resultBuffer := Function.update s.resultBuffer i r
      received := Function.update s.received i got } : Core n).Inv solve cap where
  problems := by
    intro j
    show Queue.Fits (Function.update s.problemBuffer i p j) cap (s.writeUse j)
      (Function.update s.solver i w j).takeUse
    by_cases hji : j = i
    · subst hji
      rwa [Function.update_self, Function.update_self]
    · rw [Function.update_of_ne hji, Function.update_of_ne hji]
      exact h.problems j
  results := by
    intro j
    show Queue.Fits (Function.update s.resultBuffer i r j) cap
      (Function.update s.solver i w j).putUse (s.readUse j)
    by_cases hji : j = i
    · subst hji
      rwa [Function.update_self, Function.update_self]
    · rw [Function.update_of_ne hji, Function.update_of_ne hji]
      exact h.results j
  problemFlow := by
    intro j
    show _ = Function.update s.received i got j ++ ((Function.update s.solver i w j).took ++
      ((Function.update s.problemBuffer i p j).items ++ s.writePending j))
    by_cases hji : j = i
    · subst hji
      rwa [Function.update_self, Function.update_self, Function.update_self]
    · rw [Function.update_of_ne hji, Function.update_of_ne hji, Function.update_of_ne hji]
      exact h.problemFlow j
  resultFlow := by
    intro j
    show (Function.update s.received i got j).map _ = _ ++ (_ ++
      ((Function.update s.resultBuffer i r j).items ++ (Function.update s.solver i w j).pending))
    by_cases hji : j = i
    · subst hji
      rwa [Function.update_self, Function.update_self, Function.update_self]
    · rw [Function.update_of_ne hji, Function.update_of_ne hji, Function.update_of_ne hji]
      exact h.resultFlow j
  problemNumber := h.problemNumber
  resultNumber := h.resultNumber
  inOrder := h.inOrder
  ended := by
    intro j
    show (Function.update s.received i got j).count none = (Function.update s.solver i w j).markers
    by_cases hji : j = i
    · subst hji
      rwa [Function.update_self, Function.update_self]
    · rw [Function.update_of_ne hji, Function.update_of_ne hji]
      exact h.ended j
  counted := h.counted
  running := h.running
  finished := h.finished

/-- A solver makes a step at its problem queue. -/
theorem Inv.get (h : s.Inv solve cap) (i : Fin (n + 1)) (t t' : Take Item) (q : Queue Item)
    (hs : s.solver i = .take t) (htake : Take.Step (s.problemBuffer i) t q t') :
    ({ s with
      problemBuffer := Function.update s.problemBuffer i q
      solver := Function.update s.solver i (.take t') } : Core n).Inv solve cap := by
  have hproblems := h.problems i
  have hresults := h.results i
  have hproblemFlow := h.problemFlow i
  have hresultFlow := h.resultFlow i
  have hended := h.ended i
  rw [hs] at hproblems hresults hproblemFlow hresultFlow hended
  have hflow : lane (deal n) i 1 s.sent =
      s.received i ++ (t'.took ++ (q.items ++ s.writePending i)) := by
    rw [Solver.took, ← List.append_assoc (Take.took t), ← htake.flow] at hproblemFlow
    rw [hproblemFlow]
    simp only [List.append_assoc]
  have hnext := h.solver i (.take t') q (s.resultBuffer i) (s.received i) (htake.fits hproblems)
    hresults hflow hresultFlow hended
  rwa [Function.update_eq_self i s.resultBuffer, Function.update_eq_self i s.received] at hnext

/-- A solver makes a step at its result queue. -/
theorem Inv.put (h : s.Inv solve cap) (i : Fin (n + 1)) (p p' : Put) (x : Item) (q : Queue Item)
    (hs : s.solver i = .put p x) (hput : Put.Step x (s.resultBuffer i) p q p') :
    ({ s with
      resultBuffer := Function.update s.resultBuffer i q
      solver := Function.update s.solver i (.put p' x) } : Core n).Inv solve cap := by
  have hproblems := h.problems i
  have hresults := h.results i
  have hproblemFlow := h.problemFlow i
  have hresultFlow := h.resultFlow i
  have hended := h.ended i
  rw [hs] at hproblems hresults hproblemFlow hresultFlow hended
  rw [Solver.pending, ← hput.flow] at hresultFlow
  have hnext := h.solver i (.put p' x) (s.problemBuffer i) q (s.received i) hproblems
    (hput.fits hresults) hproblemFlow hresultFlow hended
  rwa [Function.update_eq_self i s.problemBuffer, Function.update_eq_self i s.received] at hnext

/-- A solver looks at what it has taken. -/
theorem Inv.solved (h : s.Inv solve cap) (i : Fin (n + 1)) (x : Item)
    (hs : s.solver i = .take (.done x)) :
    ({ s with
      solver := Function.update s.solver i (.put .waitEmpty (x.map solve))
      received := Function.update s.received i (s.received i ++ [x]) } : Core n).Inv solve cap := by
  have hproblems := h.problems i
  have hresults := h.results i
  have hproblemFlow := h.problemFlow i
  have hresultFlow := h.resultFlow i
  have hended := h.ended i
  rw [hs] at hproblems hresults hproblemFlow hresultFlow hended
  have hreceived : lane (deal n) i 1 s.sent = s.received i ++ [x] ++
      ((Solver.put .waitEmpty (x.map solve)).took ++
        ((s.problemBuffer i).items ++ s.writePending i)) := by
    rw [hproblemFlow, List.append_assoc]
    rfl
  have hpending : (s.received i ++ [x]).map (Option.map solve) = lane (deal n) i 1 s.printed ++
      (s.readTook i ++ ((s.resultBuffer i).items ++
        (Solver.put .waitEmpty (x.map solve)).pending)) := by
    rw [List.map_append, hresultFlow]
    simp only [List.append_assoc]
    rfl
  have hmarker : (s.received i ++ [x]).count none =
      (Solver.put .waitEmpty (x.map solve)).markers := by
    rw [List.count_append, hended]
    cases x <;> rfl
  have hnext := h.solver i (.put .waitEmpty (x.map solve)) (s.problemBuffer i) (s.resultBuffer i)
    (s.received i ++ [x]) hproblems hresults hreceived hpending hmarker
  rwa [Function.update_eq_self i s.problemBuffer, Function.update_eq_self i s.resultBuffer] at hnext

/-- A solver goes on without touching the queues. -/
theorem Inv.turnSolver (h : s.Inv solve cap) (i : Fin (n + 1)) (w : Solver)
    (htake : w.takeUse = (s.solver i).takeUse) (hput : w.putUse = (s.solver i).putUse)
    (htook : w.took = (s.solver i).took) (hpending : w.pending = (s.solver i).pending)
    (hended : w.markers = (s.solver i).markers) :
    ({ s with solver := Function.update s.solver i w } : Core n).Inv solve cap := by
  have hnext := h.solver i w (s.problemBuffer i) (s.resultBuffer i) (s.received i)
    (htake ▸ h.problems i) (hput ▸ h.results i) (htook ▸ h.problemFlow i)
    (hpending ▸ h.resultFlow i) ((h.ended i).trans hended.symm)
  rwa [Function.update_eq_self i s.problemBuffer, Function.update_eq_self i s.resultBuffer,
    Function.update_eq_self i s.received] at hnext

/-- The printer goes to the next queue. -/
theorem Inv.turn (h : s.Inv solve cap) (hp : s.phase = .loop) :
    ({ s with
      resultNumber := sizeT (s.resultNumber + 1)
      phase := .take .waitFull } : Core n).Inv solve cap where
  problems := h.problems
  results := by
    intro q
    have hq := h.results q
    have hbefore : s.readUse q = .out := by
      rw [readUse, hp]
      exact ite_self ..
    rw [hbefore] at hq
    show Queue.Fits _ cap _ (if _ then Use.out else Use.out)
    rwa [ite_self]
  problemFlow := h.problemFlow
  resultFlow := by
    intro q
    have hq := h.resultFlow q
    have hbefore : s.readTook q = [] := by
      rw [readTook, hp]
      exact ite_self ..
    rw [hbefore] at hq
    show _ = _ ++ ((if _ then [] else []) ++ _)
    rwa [ite_self]
  problemNumber := h.problemNumber
  resultNumber := by
    intro _
    have hnum := h.resultNumber (by rw [hp]; intro hc; cases hc)
    rw [hp] at hnum
    show sizeT (s.resultNumber + 1) = sizeT (s.printed.length + 1)
    rw [hnum, sizeT_succ]
    rfl
  inOrder := h.inOrder
  ended := h.ended
  counted := h.counted
  running := by
    intro _
    exact h.running (by rw [hp]; intro hc; cases hc)
  finished := by
    intro hc
    cases hc

/-- The printer makes a step at the queue whose turn it is. -/
theorem Inv.read (h : s.Inv solve cap) (t t' : Take Item) (q : Queue Item)
    (hp : s.phase = .take t) (htake : Take.Step (s.resultBuffer s.readId) t q t') :
    ({ s with
      resultBuffer := Function.update s.resultBuffer s.readId q
      phase := .take t' } : Core n).Inv solve cap where
  problems := h.problems
  results := by
    intro i
    by_cases hi : s.readId = i
    · subst hi
      have hq := h.results s.readId
      rw [readUse, if_pos rfl, hp] at hq
      show Queue.Fits (Function.update s.resultBuffer s.readId q _) cap _
        (if s.readId = s.readId then t'.use else _)
      rw [if_pos rfl, Function.update_self]
      exact htake.fits hq
    · have hq := h.results i
      rw [readUse, if_neg hi] at hq
      show Queue.Fits (Function.update s.resultBuffer s.readId q _) cap _
        (if s.readId = i then t'.use else _)
      rwa [if_neg hi, Function.update_of_ne (Ne.symm hi)]
  problemFlow := h.problemFlow
  resultFlow := by
    intro i
    by_cases hi : s.readId = i
    · subst hi
      have hq := h.resultFlow s.readId
      rw [readTook, if_pos rfl, hp, Phase.took, ← List.append_assoc (Take.took t),
        ← htake.flow] at hq
      show _ = _ ++ ((if s.readId = s.readId then t'.took else []) ++
        ((Function.update s.resultBuffer s.readId q _).items ++ _))
      rw [if_pos rfl, Function.update_self, hq]
      simp only [List.append_assoc]
    · have hq := h.resultFlow i
      rw [readTook, if_neg hi] at hq
      show _ = _ ++ ((if s.readId = i then t'.took else []) ++
        ((Function.update s.resultBuffer s.readId q _).items ++ _))
      rwa [if_neg hi, Function.update_of_ne (Ne.symm hi)]
  problemNumber := h.problemNumber
  resultNumber := by
    intro _
    have hnum := h.resultNumber (by rw [hp]; intro hc; cases hc)
    rwa [hp] at hnum
  inOrder := h.inOrder
  ended := h.ended
  counted := h.counted
  running := by
    intro _
    exact h.running (by rw [hp]; intro hc; cases hc)
  finished := by
    intro hc
    cases hc

/-- The number of the result that the printer is about to take. -/
theorem Inv.resultNumber_eq (h : s.Inv solve cap) {t : Take Item} (hp : s.phase = .take t) :
    s.resultNumber = sizeT (1 + s.printed.length) := by
  have hrunning : s.phase ≠ .done := by
    rw [hp]
    intro hc
    cases hc
  have hnum := h.resultNumber hrunning
  rw [hp] at hnum
  rw [hnum, Nat.add_comm]
  rfl

/-- The queue that the printer reads from is that of the result. -/
theorem Inv.readId_eq (h : s.Inv solve cap) {t : Take Item} (hp : s.phase = .take t) :
    s.readId = deal n (1 + s.printed.length) := by
  rw [readId, h.resultNumber_eq hp]
  rfl

/-- What the printer removes from the queue whose turn it is comes next in the order of the
writer. -/
theorem Inv.next (h : s.Inv solve cap) (x : Item) (hp : s.phase = .take (.done x)) :
    s.printed ++ [x] <+: s.sent.map (Option.map solve) := by
  have hid := h.readId_eq hp
  have hresult := h.resultFlow s.readId
  have hproblem := h.problemFlow s.readId
  rw [readTook, if_pos rfl, hp] at hresult
  -- The lane of what was sent begins with that of what was printed, and then has `x`.
  apply lane_next (deal n) h.inOrder
  rw [← hid, lane_map, hproblem, List.map_append, hresult, List.append_assoc]
  rfl

/-- The printer processes what it has taken. -/
theorem Inv.processed (h : s.Inv solve cap) (x : Item) (phase : Phase) (pr : Printer)
    (hp : s.phase = .take (.done x))
    (hcount : pr.endNumber = s.printer.endNumber + [x].count none)
    (hphase : phase = .loop ∧ pr.endNumber ≠ n + 1 ∨ phase = .done ∧ pr.endNumber = n + 1) :
    ({ s with printer := pr, phase := phase, printed := s.printed ++ [x] } : Core n).Inv
      solve cap := by
  have hrunning : s.phase ≠ .done := by
    rw [hp]
    intro hc
    cases hc
  have hnum := h.resultNumber_eq hp
  have hle := h.running hrunning
  have hone : [x].count none ≤ 1 := List.count_le_length
  constructor
  · exact h.problems
  · intro q
    have hq := h.results q
    have hbefore : s.readUse q = .out := by
      rw [readUse, hp]
      exact ite_self ..
    have hafter : phase.use = .out := by
      rcases hphase with ⟨rfl, -⟩ | ⟨rfl, -⟩ <;> rfl
    rw [hbefore] at hq
    show Queue.Fits _ cap _ (if _ then phase.use else Use.out)
    rwa [hafter, ite_self]
  · exact h.problemFlow
  · intro q
    have hq := h.resultFlow q
    have hafter : phase.took = [] := by
      rcases hphase with ⟨rfl, -⟩ | ⟨rfl, -⟩ <;> rfl
    show _ = lane (deal n) q 1 (s.printed ++ [x]) ++ ((if _ then phase.took else []) ++ _)
    rw [hafter, ite_self, lane_concat]
    -- what was taken is printed, so that its lane has one item more
    rw [readTook, h.readId_eq hp, hp] at hq
    by_cases hid : deal n (1 + s.printed.length) = q
    · rw [if_pos hid]
      rw [if_pos hid] at hq
      rw [hq, List.append_assoc]
      rfl
    · rw [if_neg hid]
      rw [if_neg hid] at hq
      exact hq
  · exact h.problemNumber
  · intro hc
    rcases hphase with ⟨rfl, -⟩ | ⟨rfl, -⟩
    · show s.resultNumber = sizeT ((s.printed ++ [x]).length + 0)
      rw [hnum, List.length_append, List.length_singleton, Nat.add_comm 1, Nat.add_zero]
    · exact absurd rfl hc
  · exact h.next x hp
  · exact h.ended
  · show pr.endNumber = (s.printed ++ [x]).count none
    rw [List.count_append, hcount, h.counted]
  · intro _
    rcases hphase with ⟨-, hne⟩ | ⟨rfl, -⟩
    · show pr.endNumber ≤ n
      omega
    · exact absurd rfl ‹_›
  · intro hc
    rcases hphase with ⟨rfl, -⟩ | ⟨-, heq⟩
    · cases hc
    · exact heq

end Steps

end Core

theorem Printer.result_endNumber (pr : Printer) (batch : Nat) (result : Bytes) :
    (pr.result batch result).endNumber = pr.endNumber := by
  unfold Printer.result
  dsimp only
  split <;> rfl

theorem Printer.process_endNumber (pr : Printer) (batch : Nat) (x : Item) :
    (pr.process batch x).endNumber = pr.endNumber + [x].count none := by
  cases x with
  | none => rfl
  | some result => exact pr.result_endNumber batch result

theorem Printer.rest_endNumber (pr : Printer) : pr.rest.endNumber = pr.endNumber := by
  unfold Printer.rest
  split <;> rfl

namespace Core

section Runs

variable {n : Nat} {solve : Bytes → Bytes} {cap batch : Nat} {s s' : Core n}

theorem Inv.step (h : s.Inv solve cap) (hstep : Step solve batch s s') : s'.Inv solve cap := by
  cases hstep with
  | call x rest hw _ => exact h.call x rest hw
  | write p p' x q hw hput => exact h.write p p' x q hw hput
  | written x hw =>
    -- The call is over, and the writer is nowhere in the use of the lock.
    have huse : s.writer.use = .out := by rw [hw]; rfl
    have hpending : s.writer.pending = [] := by rw [hw]; rfl
    refine ⟨?_, h.results, ?_, h.resultFlow, h.problemNumber, h.resultNumber, h.inOrder, h.ended,
      h.counted, h.running, h.finished⟩
    · intro q
      have hq := h.problems q
      rwa [writeUse, huse] at hq
    · intro q
      have hq := h.problemFlow q
      rwa [writePending, hpending] at hq
  | get i t t' q hs htake => exact h.get i t t' q hs htake
  | solve i x hs => exact h.solved i x hs
  | put i p p' x q hs hput => exact h.put i p p' x q hs hput
  | again i y hs =>
    apply h.turnSolver i (.take .waitFull)
    all_goals rw [hs]
    · rfl
    · rfl
    · rfl
    · rfl
    · rfl
  | stop i hs =>
    apply h.turnSolver i .stopped
    all_goals rw [hs]
    · rfl
    · rfl
    · rfl
    · rfl
    · rfl
  | turn hp => exact h.turn hp
  | read t t' q hp htake => exact h.read t t' q hp htake
  | process x hp hmore =>
    exact h.processed x .loop _ hp (s.printer.process_endNumber batch x) (.inl ⟨rfl, hmore⟩)
  | finish x hp hlast =>
    apply h.processed x .done _ hp
    · rw [Printer.rest_endNumber, Printer.process_endNumber]
    · exact .inr ⟨rfl, by rw [Printer.rest_endNumber, hlast]⟩

theorem Inv.run (h : s.Inv solve cap) (hrun : Run solve batch s s') : s'.Inv solve cap := by
  induction hrun with
  | refl => exact h
  | tail _ hstep ih => exact ih.step hstep

/-- What was sent and what is still to be sent make up the same items all the time. -/
theorem Step.script (hstep : Step solve batch s s') : s'.sent ++ s'.todo = s.sent ++ s.todo := by
  cases hstep with
  | call x rest hw htodo => simp [htodo]
  | write => rfl
  | written => rfl
  | get => rfl
  | solve => rfl
  | put => rfl
  | again => rfl
  | stop => rfl
  | turn => rfl
  | read => rfl
  | process => rfl
  | finish => rfl

theorem Run.script (hrun : Run solve batch s s') : s'.sent ++ s'.todo = s.sent ++ s.todo := by
  induction hrun with
  | refl => rfl
  | tail _ hstep ih => rw [hstep.script, ih]

/-! ## The end of the output -/

/-- Everything that was sent has been printed: then nothing is on its way. -/
theorem Inv.drained (h : s.Inv solve cap) (hall : s.printed = s.sent.map (Option.map solve))
    (q : Fin (n + 1)) :
    s.received q = lane (deal n) q 1 s.sent ∧ (s.problemBuffer q).items = [] ∧
      (s.resultBuffer q).items = [] := by
  have hproblem := h.problemFlow q
  have hresult := h.resultFlow q
  have hlen := congrArg List.length hproblem
  have hlen' := congrArg List.length hresult
  rw [hall, lane_map] at hlen'
  simp only [List.length_append, List.length_map] at hlen hlen'
  have htook : (s.solver q).took = [] := List.eq_nil_of_length_eq_zero (by omega)
  have hitems : (s.problemBuffer q).items = [] := List.eq_nil_of_length_eq_zero (by omega)
  have hpending : s.writePending q = [] := List.eq_nil_of_length_eq_zero (by omega)
  have hitems' : (s.resultBuffer q).items = [] := List.eq_nil_of_length_eq_zero (by omega)
  rw [htook, hitems, hpending] at hproblem
  exact ⟨by simpa using hproblem.symm, hitems, hitems'⟩

/-- A printer that has finished has counted an end marker, which was sent. -/
theorem Inv.marker_sent (h : s.Inv solve cap) (hdone : s.phase = .done) : none ∈ s.sent := by
  have hcount := h.counted
  rw [h.finished hdone] at hcount
  have hprinted : none ∈ s.printed := List.count_pos_iff.mp (by omega)
  obtain ⟨x, hx, hnone⟩ := List.mem_map.mp (h.inOrder.subset hprinted)
  rw [Option.map_eq_none_iff] at hnone
  exact hnone ▸ hx

/-- A prefix of the problems and end markers that has all the markers is the whole. -/
theorem eq_of_all_markers {a : List Item} {ps : List Bytes}
    (hpre : a <+: ps.map some ++ List.replicate (n + 1) none) (hcount : a.count none = n + 1) :
    a = ps.map some ++ List.replicate (n + 1) none := by
  obtain ⟨d, hd⟩ := hpre
  rcases List.eq_nil_or_concat d with rfl | ⟨d', x, rfl⟩
  · rw [← hd, List.append_nil]
  · -- Otherwise the last marker is not in the prefix, which has one marker less.
    rw [List.replicate_succ', ← List.append_assoc, List.concat_eq_append, ← List.append_assoc] at hd
    obtain ⟨hd, -⟩ := List.append_inj' hd rfl
    have hless := congrArg (List.count none) hd
    have hnone : (ps.map some).count (none : Item) = 0 := by
      rw [List.count_eq_zero]
      simp
    rw [List.count_append, List.count_append, hnone, List.count_replicate_self, hcount] at hless
    omega

theorem map_script (ps : List Bytes) :
    (ps.map some ++ List.replicate (n + 1) none).map (Option.map solve) =
      (ps.map solve).map some ++ List.replicate (n + 1) none := by
  simp [List.map_append, List.map_map, Function.comp_def]

/-- The lane of a whole script. -/
theorem lane_script (ps : List Bytes) (q : Fin (n + 1)) :
    lane (deal n) q 1 (ps.map some ++ List.replicate (n + 1) (none : Item)) =
      (lane (deal n) q 1 ps).map some ++
        lane (deal n) q (1 + ps.length) (List.replicate (n + 1) none) := by
  rw [lane_append, lane_map, List.length_map]

/-- When the printer ends, it has printed what was sent, and nothing is left to send. -/
theorem Inv.printed_all (h : s.Inv solve cap) {ps : List Bytes}
    (hscript : s.sent ++ s.todo = ps.map some ++ List.replicate (n + 1) none)
    (hdone : s.phase = .done) :
    s.todo = [] ∧ s.printed = s.sent.map (Option.map solve) := by
  have hcount : s.printed.count none = n + 1 := by rw [← h.counted, h.finished hdone]
  have hsent : s.sent.map (Option.map solve) <+:
      (ps.map solve).map some ++ List.replicate (n + 1) none := by
    rw [← map_script, ← hscript, List.map_append]
    exact List.prefix_append _ _
  have hall := eq_of_all_markers (h.inOrder.trans hsent) hcount
  have hlen := h.inOrder.length_le
  have htotal := congrArg List.length hscript
  rw [← map_script, ← hscript, List.map_append] at hall
  have hlen' := congrArg List.length hall
  simp only [List.length_append, List.length_map] at hlen hlen'
  have htodo : s.todo = [] := List.eq_nil_of_length_eq_zero (by omega)
  refine ⟨htodo, ?_⟩
  rw [hall, htodo, List.map_nil, List.append_nil]

/-- When the printer ends, every solver has got its problems and then one end marker: the printer has
seen as many markers as there are solvers, and a solver returns no more than one. -/
theorem Inv.received_all (h : s.Inv solve cap) {ps : List Bytes}
    (hscript : s.sent ++ s.todo = ps.map some ++ List.replicate (n + 1) none)
    (hdone : s.phase = .done) (q : Fin (n + 1)) :
    s.received q = (lane (deal n) q 1 ps).map some ++ [none] := by
  obtain ⟨htodo, hall⟩ := h.printed_all hscript hdone
  rw [htodo, List.append_nil] at hscript
  have hreceived : ∀ i, s.received i = (lane (deal n) i 1 ps).map some ++
      lane (deal n) i (1 + ps.length) (List.replicate (n + 1) (none : Item)) := by
    intro i
    rw [(h.drained hall i).1, hscript, lane_script]
  rw [hreceived q, lane_round_of_le_one]
  intro i
  have hmarkers := lane_sublist (deal n) i (1 + ps.length)
    (List.replicate (n + 1) (none : Item))
  have hcount := h.ended i
  rw [hreceived i, List.count_append, List.count_eq_length.mpr fun x hx =>
    (List.eq_of_mem_replicate (hmarkers.subset hx)).symm] at hcount
  have hle := (s.solver i).markers_le
  omega

end Runs

end Core

end CloudLabs.Sudoku
