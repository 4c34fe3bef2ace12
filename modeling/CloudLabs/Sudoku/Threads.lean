import CloudLabs.Sudoku.Output

/-!
# The file names and the reading thread

`filenameReadThread` queues the file names of the standard input and clears `readFile` at their end;
`problemReadThread` takes them from the queue under `filenameLock`, writes the problems of each
file, and writes the end markers when the queue is empty and `readFile` is cleared. These functions
have no return statement either; a thread that comes to the end of its function is taken to have ended.

`Pipeline` puts these two threads in front of `Core`. The names are of any type, and `lines` gives
the problems of a file. `consumed` records the files whose problems were handed to the writer.
-/

set_option autoImplicit false

namespace CloudLabs.Sudoku

open CloudLabs.Foundation

variable {ν : Type} {n : Nat}

/-- Where `filenameReadThread` is. -/
inductive NameThread (ν : Type) where
  | read
  | get (f : ν)
  | push (f : ν)
  | release
  | clear
  | done

/-- Where `problemReadThread` is. -/
inductive ReadThread (ν : Type) where
  | get
  | size
  | flag
  | pop
  | release (f : ν)
  | retry
  | write
  | eof
  | leave
  | done

structure Pipeline (n : Nat) (ν : Type) where
  core : Core n
  /-- The names that are still to be read from the standard input. -/
  cin : List ν
  filenameBuffer : List ν
  filenameLock : Bool
  readFile : Bool
  names : NameThread ν
  reader : ReadThread ν
  consumed : List ν

namespace Pipeline

def start (n cap : Nat) (garbage : Bytes) (cin : List ν) : Pipeline n ν where
  core := Core.start n cap garbage []
  cin := cin
  filenameBuffer := []
  filenameLock := false
  readFile := true
  names := .read
  reader := .get
  consumed := []

/-- The steps of all threads. -/
inductive Step (lines : ν → List Bytes) (solve : Bytes → Bytes) (batch : Nat) :
    Pipeline n ν → Pipeline n ν → Prop
  | core (s : Pipeline n ν) (c : Core n) (h : Core.Step solve batch s.core c) :
      Step lines solve batch s { s with core := c }
  -- `filenameReadThread`
  | readName (s : Pipeline n ν) (f : ν) (rest : List ν) (hn : s.names = .read)
      (h : s.cin = f :: rest) :
      Step lines solve batch s { s with cin := rest, names := .get f }
  | endOfNames (s : Pipeline n ν) (hn : s.names = .read) (h : s.cin = []) :
      Step lines solve batch s { s with names := .clear }
  | getName (s : Pipeline n ν) (f : ν) (hn : s.names = .get f) (hlock : s.filenameLock = false) :
      Step lines solve batch s { s with filenameLock := true, names := .push f }
  | pushName (s : Pipeline n ν) (f : ν) (hn : s.names = .push f) :
      Step lines solve batch s { s with
        filenameBuffer := s.filenameBuffer ++ [f]
        names := .release }
  | releaseName (s : Pipeline n ν) (hn : s.names = .release) :
      Step lines solve batch s { s with filenameLock := false, names := .read }
  | clear (s : Pipeline n ν) (hn : s.names = .clear) :
      Step lines solve batch s { s with readFile := false, names := .done }
  -- `problemReadThread`
  | get (s : Pipeline n ν) (hr : s.reader = .get) (hlock : s.filenameLock = false) :
      Step lines solve batch s { s with filenameLock := true, reader := .size }
  | empty (s : Pipeline n ν) (hr : s.reader = .size) (h : s.filenameBuffer = []) :
      Step lines solve batch s { s with reader := .flag }
  | nonempty (s : Pipeline n ν) (hr : s.reader = .size) (h : s.filenameBuffer ≠ []) :
      Step lines solve batch s { s with reader := .pop }
  | again (s : Pipeline n ν) (hr : s.reader = .flag) (h : s.readFile = true) :
      Step lines solve batch s { s with reader := .retry }
  | retry (s : Pipeline n ν) (hr : s.reader = .retry) :
      Step lines solve batch s { s with filenameLock := false, reader := .get }
  | pop (s : Pipeline n ν) (f : ν) (rest : List ν) (hr : s.reader = .pop)
      (h : s.filenameBuffer = f :: rest) :
      Step lines solve batch s { s with filenameBuffer := rest, reader := .release f }
  | release (s : Pipeline n ν) (f : ν) (hr : s.reader = .release f) :
      Step lines solve batch s { s with
        filenameLock := false
        core := { s.core with todo := (lines f).map some }
        reader := .write
        consumed := s.consumed ++ [f] }
  | next (s : Pipeline n ν) (hr : s.reader = .write) (htodo : s.core.todo = [])
      (hw : s.core.writer = .idle) :
      Step lines solve batch s { s with reader := .get }
  | eof (s : Pipeline n ν) (hr : s.reader = .flag) (h : s.readFile = false) :
      Step lines solve batch s { s with
        core := { s.core with todo := List.replicate (n + 1) none }
        reader := .eof }
  | leave (s : Pipeline n ν) (hr : s.reader = .eof) (htodo : s.core.todo = [])
      (hw : s.core.writer = .idle) :
      Step lines solve batch s { s with reader := .leave }
  | last (s : Pipeline n ν) (hr : s.reader = .leave) :
      Step lines solve batch s { s with filenameLock := false, reader := .done }

def Reachable (lines : ν → List Bytes) (solve : Bytes → Bytes) (batch cap : Nat) (garbage : Bytes)
    (cin : List ν) : Pipeline n ν → Prop :=
  Relation.ReflTransGen (Step lines solve batch) (start n cap garbage cin)

end Pipeline

/-! ## What holds in every state -/

/-- The name that the thread has read and not yet queued. -/
def NameThread.hand : NameThread ν → List ν
  | .get f => [f]
  | .push f => [f]
  | _ => []

/-- The thread is in its critical section. -/
def NameThread.Holds : NameThread ν → Prop
  | .push _ => True
  | .release => True
  | _ => False

/-- The thread has seen the end of the names. -/
def NameThread.AtEnd : NameThread ν → Prop
  | .clear => True
  | .done => True
  | _ => False

/-- The name that the reader has taken from the queue and whose file it has not yet begun. -/
def ReadThread.hand : ReadThread ν → List ν
  | .release f => [f]
  | _ => []

/-- The reader is in its critical section. -/
def ReadThread.Holds : ReadThread ν → Prop
  | .get => False
  | .write => False
  | .done => False
  | _ => True

/-- The reader has come to the end markers. -/
def ReadThread.Closing : ReadThread ν → Prop
  | .eof => True
  | .leave => True
  | .done => True
  | _ => False

/-- The reader is passing problems or markers to the writer. -/
def ReadThread.Writes : ReadThread ν → Prop
  | .write => True
  | .eof => True
  | _ => False

/-- The lock of the queue of names is held by one of the two threads, and by no more than one. -/
def Guarded (lock : Bool) (names : NameThread ν) (reader : ReadThread ν) : Prop :=
  (lock = true ↔ names.Holds ∨ reader.Holds) ∧ ¬ (names.Holds ∧ reader.Holds)

section Lock

variable {lock : Bool} {m m' : NameThread ν} {r r' : ReadThread ν}

theorem Guarded.acquireNames (h : Guarded false m r) (hm : m'.Holds) : Guarded true m' r := by
  have hfree : ¬ r.Holds := fun hc => Bool.noConfusion (h.1.mpr (.inr hc))
  exact ⟨⟨fun _ => .inl hm, fun _ => rfl⟩, fun hc => hfree hc.2⟩

theorem Guarded.keepNames (h : Guarded lock m r) (hm : m'.Holds ↔ m.Holds) :
    Guarded lock m' r := by
  rwa [Guarded, hm]

theorem Guarded.releaseNames (h : Guarded lock m r) (hm : m.Holds) (hm' : ¬ m'.Holds) :
    Guarded false m' r := by
  have hfree : ¬ r.Holds := fun hc => h.2 ⟨hm, hc⟩
  exact ⟨⟨fun hc => Bool.noConfusion hc, fun hc => (hc.elim hm' hfree).elim⟩,
    fun hc => hfree hc.2⟩

theorem Guarded.acquireReader (h : Guarded false m r) (hr : r'.Holds) : Guarded true m r' := by
  have hfree : ¬ m.Holds := fun hc => Bool.noConfusion (h.1.mpr (.inl hc))
  exact ⟨⟨fun _ => .inr hr, fun _ => rfl⟩, fun hc => hfree hc.1⟩

theorem Guarded.keepReader (h : Guarded lock m r) (hr : r'.Holds ↔ r.Holds) :
    Guarded lock m r' := by
  rwa [Guarded, hr]

theorem Guarded.releaseReader (h : Guarded lock m r) (hr : r.Holds) (hr' : ¬ r'.Holds) :
    Guarded false m r' := by
  have hfree : ¬ m.Holds := fun hc => h.2 ⟨hc, hr⟩
  exact ⟨⟨fun hc => Bool.noConfusion hc, fun hc => (hc.elim hfree hr').elim⟩,
    fun hc => hfree hc.1⟩

end Lock

instance (r : ReadThread ν) : Decidable r.Closing := by
  cases r <;> unfold ReadThread.Closing <;> infer_instance

namespace Core

variable {solve : Bytes → Bytes} {batch cap : Nat} {s s' : Core n}

/-- What is left to write does not matter to the threads behind the writer. -/
theorem Inv.feed (h : s.Inv solve cap) (todo : List Item) :
    ({ s with todo := todo } : Core n).Inv solve cap :=
  ⟨h.problems, h.results, h.problemFlow, h.resultFlow, h.problemNumber, h.resultNumber, h.inOrder,
    h.ended, h.counted, h.running, h.finished⟩

/-- A writer without work stays so until the reader has more. -/
theorem Step.idle (hstep : Step solve batch s s') (h : s.todo = [] ∧ s.writer = .idle) :
    s'.todo = [] ∧ s'.writer = .idle := by
  cases hstep with
  | call x rest hw htodo =>
    rw [h.1] at htodo
    cases htodo
  | write p p' x q hw hput =>
    rw [h.2] at hw
    cases hw
  | written x hw => exact ⟨h.1, rfl⟩
  | get => exact h
  | solve => exact h
  | put => exact h
  | again => exact h
  | stop => exact h
  | turn => exact h
  | read => exact h
  | process => exact h
  | finish => exact h

end Core

namespace Pipeline

/-- The problems of the files that were consumed, and the end markers when the reader has come to
them. -/
def script (lines : ν → List Bytes) (s : Pipeline n ν) : List Item :=
  (s.consumed.flatMap lines).map some ++
    if s.reader.Closing then List.replicate (n + 1) none else []

structure Inv (lines : ν → List Bytes) (solve : Bytes → Bytes) (cap : Nat) (cin : List ν)
    (s : Pipeline n ν) : Prop where
  core : s.core.Inv solve cap
  /-- The names are in the order of the input all the way to the reader. -/
  order : s.consumed ++ (s.reader.hand ++ (s.filenameBuffer ++ (s.names.hand ++ s.cin))) = cin
  /-- The lock is held by one of the threads. -/
  lock : s.filenameLock = true ↔ s.names.Holds ∨ s.reader.Holds
  exclusive : ¬ (s.names.Holds ∧ s.reader.Holds)
  atEnd : s.names.AtEnd → s.cin = []
  cleared : s.readFile = false → s.names = .done
  /-- The queue that the reader has found empty stays empty as long as it holds the lock. -/
  flag : s.reader = .flag → s.filenameBuffer = []
  closing : s.reader.Closing → s.consumed = cin
  idle : ¬ s.reader.Writes → s.core.todo = [] ∧ s.core.writer = .idle
  script : s.core.sent ++ s.core.todo = s.script lines

theorem Inv.start (lines : ν → List Bytes) (solve : Bytes → Bytes) (cap : Nat) (garbage : Bytes)
    (cin : List ν) :
    (start n cap garbage cin).Inv lines solve cap cin where
  core := Core.Inv.start solve cap garbage []
  order := rfl
  lock := by simp [Pipeline.start, NameThread.Holds, ReadThread.Holds]
  exclusive := by simp [Pipeline.start, NameThread.Holds]
  atEnd := fun hc => hc.elim
  cleared := by
    intro hc
    cases hc
  flag := by
    intro hc
    cases hc
  closing := fun hc => hc.elim
  idle := fun _ => ⟨rfl, rfl⟩
  script := rfl

section Steps

variable {lines : ν → List Bytes} {solve : Bytes → Bytes} {batch cap : Nat} {garbage : Bytes}
  {cin : List ν} {s s' : Pipeline n ν}

theorem Inv.guarded (h : s.Inv lines solve cap cin) :
    Guarded s.filenameLock s.names s.reader :=
  ⟨h.lock, h.exclusive⟩

/-- The solutions that are printed are those of problems in the files. -/
theorem Inv.printable (h : s.Inv lines solve cap cin)
    (hsolve : ∀ f ∈ cin, ∀ p ∈ lines f, Printable (solve p)) {r : Bytes}
    (hr : some r ∈ s.core.printed) : Printable r := by
  have hmem := h.core.inOrder.subset hr
  obtain ⟨x, hx, hxr⟩ := List.mem_map.mp hmem
  obtain ⟨p, rfl, rfl⟩ := Option.map_eq_some_iff.mp hxr
  have hall : some p ∈ s.script lines := by
    rw [← h.script]
    exact List.mem_append_left _ hx
  unfold Pipeline.script at hall
  rcases List.mem_append.mp hall with hin | hmarker
  · obtain ⟨p', hp', heq⟩ := List.mem_map.mp hin
    cases heq
    obtain ⟨f, hf, hpf⟩ := List.mem_flatMap.mp hp'
    apply hsolve f _ p hpf
    rw [← h.order]
    exact List.mem_append_left _ hf
  · by_cases hc : s.reader.Closing
    · rw [if_pos hc] at hmarker
      cases List.eq_of_mem_replicate hmarker
    · rw [if_neg hc] at hmarker
      cases hmarker

/-- A step behind the reader. -/
theorem Inv.coreStep (h : s.Inv lines solve cap cin) {c : Core n}
    (hstep : Core.Step solve batch s.core c) :
    ({ s with core := c } : Pipeline n ν).Inv lines solve cap cin where
  core := h.core.step hstep
  order := h.order
  lock := h.lock
  exclusive := h.exclusive
  atEnd := h.atEnd
  cleared := h.cleared
  flag := h.flag
  closing := h.closing
  idle := by
    intro hw
    exact hstep.idle (h.idle hw)
  script := hstep.script.trans h.script

/-- A step of `filenameReadThread`. -/
theorem Inv.moveNames (h : s.Inv lines solve cap cin) {rest buffer : List ν}
    {lock flag : Bool} {old names : NameThread ν} (hn : s.names = old)
    (horder : buffer ++ (names.hand ++ rest) = s.filenameBuffer ++ (old.hand ++ s.cin))
    (hlock : Guarded lock names s.reader) (hend : names.AtEnd → rest = [])
    (hcleared : flag = false → names = .done) (hflag : s.reader = .flag → buffer = []) :
    ({ s with
        cin := rest
        filenameBuffer := buffer
        filenameLock := lock
        readFile := flag
        names := names } : Pipeline n ν).Inv lines solve cap cin where
  core := h.core
  order := by
    rw [← h.order, hn, ← horder]
  lock := hlock.1
  exclusive := hlock.2
  atEnd := hend
  cleared := hcleared
  flag := hflag
  closing := h.closing
  idle := h.idle
  script := h.script

/-- A step of `problemReadThread` that begins no file and does not come to the end markers. -/
theorem Inv.moveReader (h : s.Inv lines solve cap cin) {buffer : List ν} {lock : Bool}
    {old reader : ReadThread ν} (hr : s.reader = old)
    (horder : reader.hand ++ buffer = old.hand ++ s.filenameBuffer)
    (hlock : Guarded lock s.names reader) (hflag : reader = .flag → buffer = [])
    (hclosing : reader.Closing ↔ old.Closing)
    (hidle : s.core.todo = [] ∧ s.core.writer = .idle) :
    ({ s with
        filenameBuffer := buffer
        filenameLock := lock
        reader := reader } : Pipeline n ν).Inv lines solve cap cin where
  core := h.core
  order := by
    rw [← h.order, hr, ← List.append_assoc reader.hand, horder, List.append_assoc]
  lock := hlock.1
  exclusive := hlock.2
  atEnd := h.atEnd
  cleared := h.cleared
  flag := hflag
  closing := by
    intro hc
    apply h.closing
    rw [hr]
    exact hclosing.mp hc
  idle := fun _ => hidle
  script := by
    rw [h.script, Pipeline.script, Pipeline.script, hr]
    simp only [hclosing]

/-- The problems of a file follow those of the files before it. -/
theorem Inv.beginFile (h : s.Inv lines solve cap cin) {f : ν} (hr : s.reader = .release f) :
    ({ s with
        filenameLock := false
        core := { s.core with todo := (lines f).map some }
        reader := .write
        consumed := s.consumed ++ [f] } : Pipeline n ν).Inv lines solve cap cin := by
  have horder := h.order
  have hlock := h.guarded
  have hidle := h.idle
  have hscript := h.script
  rw [Pipeline.script, hr] at hscript
  rw [hr] at horder hlock hidle
  have hfree : Guarded false s.names .write := hlock.releaseReader trivial id
  rw [(hidle id).1] at hscript
  simp only [ReadThread.Closing, List.append_nil] at hscript
  exact {
    core := h.core.feed _
    order := by
      rw [← horder, List.append_assoc]
      rfl
    lock := hfree.1, exclusive := hfree.2
    atEnd := h.atEnd, cleared := h.cleared
    flag := fun hc => by cases hc
    closing := fun hc => hc.elim
    idle := fun hc => absurd trivial hc
    script := by simp [Pipeline.script, ReadThread.Closing, hscript] }

/-- The end markers follow when the flag was cleared, which is after the last name had been queued,
and the queue is empty. -/
theorem Inv.beginMarkers (h : s.Inv lines solve cap cin) (hr : s.reader = .flag)
    (hflag : s.readFile = false) :
    ({ s with
        core := { s.core with todo := List.replicate (n + 1) none }
        reader := .eof } : Pipeline n ν).Inv lines solve cap cin := by
  have horder := h.order
  have hlock := h.guarded
  have hidle := h.idle
  have hscript := h.script
  rw [Pipeline.script, hr] at hscript
  rw [hr] at horder hlock hidle
  have hheld : Guarded s.filenameLock s.names .eof := hlock.keepReader Iff.rfl
  rw [(hidle id).1] at hscript
  simp only [ReadThread.Closing, List.append_nil] at hscript
  have hdone := h.cleared hflag
  have hend := h.atEnd
  have hall := horder
  rw [hdone] at hall hend
  rw [h.flag hr, hend trivial] at hall
  exact {
    core := h.core.feed _
    order := horder
    lock := hheld.1, exclusive := hheld.2
    atEnd := h.atEnd, cleared := h.cleared
    flag := fun hc => by cases hc
    closing := fun _ => by simpa [ReadThread.hand, NameThread.hand] using hall
    idle := fun hc => absurd trivial hc
    script := by simp [Pipeline.script, ReadThread.Closing, hscript] }

/-- What a step of `filenameReadThread` finds. -/
theorem Inv.at_names (h : s.Inv lines solve cap cin) {names : NameThread ν}
    (hn : s.names = names) :
    Guarded s.filenameLock names s.reader ∧ (names.AtEnd → s.cin = []) ∧
      (s.readFile = false → names = .done) := by
  rw [← hn]
  exact ⟨h.guarded, h.atEnd, h.cleared⟩

/-- What a step of `problemReadThread` finds. -/
theorem Inv.at_reader (h : s.Inv lines solve cap cin) {reader : ReadThread ν}
    (hr : s.reader = reader) :
    Guarded s.filenameLock s.names reader ∧
      (¬ reader.Writes → s.core.todo = [] ∧ s.core.writer = .idle) := by
  rw [← hr]
  exact ⟨h.guarded, h.idle⟩

theorem Inv.step (h : s.Inv lines solve cap cin) (hstep : Step lines solve batch s s') :
    s'.Inv lines solve cap cin := by
  cases hstep with
  | core c hc => exact h.coreStep hc
  | readName f rest hn hcin =>
    obtain ⟨hlock, -, hcleared⟩ := h.at_names hn
    refine h.moveNames hn ?_ (hlock.keepNames Iff.rfl) (fun hc => hc.elim)
      (fun hc => by cases hcleared hc) h.flag
    rw [hcin]
    rfl
  | endOfNames hn hcin =>
    obtain ⟨hlock, -, hcleared⟩ := h.at_names hn
    exact h.moveNames hn rfl (hlock.keepNames Iff.rfl) (fun _ => hcin)
      (fun hc => by cases hcleared hc) h.flag
  | getName f hn hfree =>
    obtain ⟨hlock, -, hcleared⟩ := h.at_names hn
    rw [hfree] at hlock
    exact h.moveNames hn rfl (hlock.acquireNames trivial) (fun hc => hc.elim)
      (fun hc => by cases hcleared hc) h.flag
  | pushName f hn =>
    obtain ⟨hlock, -, hcleared⟩ := h.at_names hn
    refine h.moveNames hn ?_ (hlock.keepNames Iff.rfl) (fun hc => hc.elim)
      (fun hc => by cases hcleared hc) fun hr => ?_
    · rw [List.append_assoc]
      rfl
    · -- The reader cannot have found the queue empty: this thread holds the lock.
      rw [hr] at hlock
      exact (hlock.2 ⟨trivial, trivial⟩).elim
  | releaseName hn =>
    obtain ⟨hlock, -, hcleared⟩ := h.at_names hn
    exact h.moveNames hn rfl (hlock.releaseNames trivial id) (fun hc => hc.elim)
      (fun hc => by cases hcleared hc) h.flag
  | clear hn =>
    obtain ⟨hlock, hend, -⟩ := h.at_names hn
    exact h.moveNames hn rfl (hlock.keepNames Iff.rfl) (fun _ => hend trivial) (fun _ => rfl) h.flag
  | get hr hfree =>
    obtain ⟨hlock, hidle⟩ := h.at_reader hr
    rw [hfree] at hlock
    exact h.moveReader hr rfl (hlock.acquireReader trivial) (fun hc => by cases hc) Iff.rfl
      (hidle id)
  | empty hr hbuffer =>
    obtain ⟨hlock, hidle⟩ := h.at_reader hr
    exact h.moveReader hr rfl (hlock.keepReader Iff.rfl) (fun _ => hbuffer) Iff.rfl (hidle id)
  | nonempty hr hbuffer =>
    obtain ⟨hlock, hidle⟩ := h.at_reader hr
    exact h.moveReader hr rfl (hlock.keepReader Iff.rfl) (fun hc => by cases hc) Iff.rfl (hidle id)
  | again hr hflag =>
    obtain ⟨hlock, hidle⟩ := h.at_reader hr
    exact h.moveReader hr rfl (hlock.keepReader Iff.rfl) (fun hc => by cases hc) Iff.rfl (hidle id)
  | retry hr =>
    obtain ⟨hlock, hidle⟩ := h.at_reader hr
    exact h.moveReader hr rfl (hlock.releaseReader trivial id) (fun hc => by cases hc) Iff.rfl
      (hidle id)
  | pop f rest hr hbuffer =>
    obtain ⟨hlock, hidle⟩ := h.at_reader hr
    refine h.moveReader hr ?_ (hlock.keepReader Iff.rfl) (fun hc => by cases hc) Iff.rfl (hidle id)
    rw [hbuffer]
    rfl
  | release f hr => exact h.beginFile hr
  | next hr htodo hw =>
    obtain ⟨hlock, -⟩ := h.at_reader hr
    exact h.moveReader hr rfl (hlock.keepReader Iff.rfl) (fun hc => by cases hc) Iff.rfl
      ⟨htodo, hw⟩
  | eof hr hflag => exact h.beginMarkers hr hflag
  | leave hr htodo hw =>
    obtain ⟨hlock, -⟩ := h.at_reader hr
    exact h.moveReader hr rfl (hlock.keepReader Iff.rfl) (fun hc => by cases hc) Iff.rfl
      ⟨htodo, hw⟩
  | last hr =>
    obtain ⟨hlock, hidle⟩ := h.at_reader hr
    exact h.moveReader hr rfl (hlock.releaseReader trivial id) (fun hc => by cases hc) Iff.rfl
      (hidle id)

theorem Reachable.inv (h : Reachable lines solve batch cap garbage cin s) :
    s.Inv lines solve cap cin := by
  induction h with
  | refl => exact Inv.start lines solve cap garbage cin
  | tail _ hstep ih => exact ih.step hstep

theorem Reachable.replays (h : Reachable lines solve batch cap garbage cin s) :
    s.core.Replays batch garbage := by
  induction h with
  | refl => exact .start batch cap garbage []
  | tail _ hstep ih =>
    cases hstep with
    | core c hc => exact ih.step hc
    | release f hr => exact ⟨ih.running, ih.finished⟩
    | eof hr hflag => exact ⟨ih.running, ih.finished⟩
    | _ => exact ih

/-- The end markers come after all files. -/
theorem Inv.all_consumed (h : s.Inv lines solve cap cin)
    (hmarker : none ∈ s.core.sent ++ s.core.todo) : s.reader.Closing ∧ s.consumed = cin := by
  rw [h.script, Pipeline.script] at hmarker
  by_cases hc : s.reader.Closing
  · exact ⟨hc, h.closing hc⟩
  · rw [if_neg hc, List.append_nil] at hmarker
    simp at hmarker

theorem text_solutions (ps : List Bytes) :
    text ((ps.map some ++ List.replicate (n + 1) none).map (Option.map solve)) =
      ps.flatMap fun p => solve p ++ [10] := by
  have hmarkers : text (List.replicate (n + 1) none) = [] := by
    rw [text, List.flatMap_eq_nil_iff]
    intro x hx
    rw [List.eq_of_mem_replicate hx]
  have hproblems : text ((ps.map solve).map some) = ps.flatMap fun p => solve p ++ [10] := by
    rw [text, List.flatMap_map, List.flatMap_map]
  rw [Core.map_script, text, List.flatMap_append]
  rw [text] at hmarkers hproblems
  rw [hmarkers, hproblems, List.append_nil]

/-- When the printer has ended, all names were consumed, and the script is complete. -/
theorem Inv.closed (h : s.Inv lines solve cap cin) (hdone : s.core.phase = .done) :
    s.consumed = cin ∧ s.core.sent ++ s.core.todo =
      (cin.flatMap lines).map some ++ List.replicate (n + 1) none := by
  obtain ⟨hclosing, hall⟩ := h.all_consumed (List.mem_append_left _ (h.core.marker_sent hdone))
  have hscript := h.script
  rw [Pipeline.script, if_pos hclosing, hall] at hscript
  exact ⟨hall, hscript⟩

/-- When the printer has ended, each solver has got its problems and then one end marker, and the
queues are empty. -/
theorem Inv.result (h : s.Inv lines solve cap cin) (hdone : s.core.phase = .done) :
    s.filenameBuffer = [] ∧
    ∀ q, s.core.received q = (lane (deal n) q 1 (cin.flatMap lines)).map some ++ [none] ∧
      (s.core.problemBuffer q).items = [] ∧ (s.core.resultBuffer q).items = [] := by
  obtain ⟨hall, hscript⟩ := h.closed hdone
  obtain ⟨-, hprinted⟩ := h.core.printed_all hscript hdone
  constructor
  · have horder := h.order
    rw [hall, List.append_right_eq_self] at horder
    exact (List.append_eq_nil_iff.mp (List.append_eq_nil_iff.mp horder).2).1
  · intro q
    exact ⟨h.core.received_all hscript hdone q, (h.core.drained hprinted q).2⟩

/-- The printer has then processed the solutions of all problems, in the order of the input. -/
theorem Inv.printed_eq (h : s.Inv lines solve cap cin) (hdone : s.core.phase = .done) :
    s.core.printed =
      ((cin.flatMap lines).map some ++ List.replicate (n + 1) none).map (Option.map solve) := by
  obtain ⟨-, hscript⟩ := h.closed hdone
  obtain ⟨htodo, hprinted⟩ := h.core.printed_all hscript hdone
  rw [htodo, List.append_nil] at hscript
  rw [hprinted, hscript]

/-- The output has the solutions of all problems in the order of the input, and all of it was written
inside the buffer, where an `int` holds the size of the buffer. -/
theorem Reachable.output (h : Reachable lines solve batch cap garbage cin s) (hbatch : 1 ≤ batch)
    (hint : 82 * batch < 2 ^ 31) (hsize : garbage.length = bufSize batch)
    (hsolve : ∀ f ∈ cin, ∀ p ∈ lines f, Printable (solve p)) :
    s.core.printer.inside = true ∧ (s.core.phase = .done →
      s.core.printer.out = (cin.flatMap lines).flatMap fun p => solve p ++ [10]) := by
  obtain ⟨hinside, hout⟩ := h.replays.output hbatch hint hsize fun r hr =>
    h.inv.printable hsolve hr
  refine ⟨hinside, fun hdone => ?_⟩
  rw [hout hdone, h.inv.printed_eq hdone, text_solutions]

end Steps

end Pipeline

end CloudLabs.Sudoku
