import CloudLabs.Foundation.Fairness
import CloudLabs.Sudoku.Deadlock
import CloudLabs.Sudoku.Threads

/-!
# The threads come to their ends

Behind the reader every step is progress: `Core.work` counts what is left to do, an item with more
of its way before it having more weight, and each step lowers it. In front of it only one loop is
none, that of the reading thread while it finds no file name and the flag is not yet cleared. It
takes and returns the lock of the names all the time, so that a scheduler can keep
`filenameReadThread` waiting for ever; it is the only thread a scheduler has to be fair to
(`ends_if_fair`). From every state there is a run to the end (`Reachable.can_finish`).
-/

set_option autoImplicit false

namespace CloudLabs.Sudoku

open CloudLabs.Foundation

namespace Pipeline

variable {ν : Type} {n : Nat} {lines : ν → List Bytes} {solve : Bytes → Bytes}
  {batch cap : Nat} {garbage : Bytes} {cin : List ν} {s s' : Pipeline n ν}

/-- A file costs its problems, and a round of the reader. -/
def fileWork (lines : ν → List Bytes) (f : ν) : Nat := 26 * (lines f).length + 4

def namesWork (lines : ν → List Bytes) : NameThread ν → Nat
  | .read => 2
  | .get f => fileWork lines f + 5
  | .push f => fileWork lines f + 4
  | .release => 3
  | .clear => 1
  | .done => 0

/-- The end markers are still to come until the reader has come to them. -/
def readerWork (n : Nat) (lines : ν → List Bytes) : ReadThread ν → Nat
  | .get => 26 * (n + 1) + 4
  | .size => 26 * (n + 1) + 4
  | .flag => 26 * (n + 1) + 4
  | .retry => 26 * (n + 1) + 4
  | .pop => 26 * (n + 1) + 3
  | .release f => 26 * (n + 1) + 2 + fileWork lines f
  | .write => 26 * (n + 1) + 5
  | .eof => 2
  | .leave => 1
  | .done => 0

/-- The work that is left. -/
def work (lines : ν → List Bytes) (s : Pipeline n ν) : Nat :=
  s.core.work + (s.cin.map fun f => fileWork lines f + 4).sum +
    (s.filenameBuffer.map (fileWork lines)).sum + namesWork lines s.names +
    readerWork n lines s.reader

/-- Where the reader goes when it looks for a file name and finds none. -/
def lookFrom : ReadThread ν → Option (ReadThread ν)
  | .get => some .size
  | .size => some .flag
  | .flag => some .retry
  | .retry => some .get
  | _ => none

/-- A step that is no progress. -/
structure Idle (s s' : Pipeline n ν) : Prop where
  reader : lookFrom s.reader = some s'.reader
  names : s'.names = s.names
  lock : s.reader = .get → s.filenameLock = false
  flag : s.reader = .flag → s.readFile = true

/-- What holds of the two threads besides `Inv`. -/
structure Ready (s : Pipeline n ν) : Prop where
  cleared : s.names = .done → s.readFile = false
  /-- The queue that the reader has found not empty stays so as long as it holds the lock. -/
  pop : s.reader = .pop → s.filenameBuffer ≠ []

theorem Ready.step (h : s.Ready) (hstep : Step lines solve batch s s') : s'.Ready := by
  cases hstep with
  | core c hc => exact ⟨h.cleared, h.pop⟩
  | readName f rest hn hcin => exact ⟨(fun hc => by cases hc), h.pop⟩
  | endOfNames hn hcin => exact ⟨(fun hc => by cases hc), h.pop⟩
  | getName f hn hfree => exact ⟨(fun hc => by cases hc), h.pop⟩
  | pushName f hn => exact ⟨(fun hc => by cases hc), fun _ => by simp⟩
  | releaseName hn => exact ⟨(fun hc => by cases hc), h.pop⟩
  | clear hn => exact ⟨fun _ => rfl, h.pop⟩
  | get hr hfree => exact ⟨h.cleared, fun hc => by cases hc⟩
  | empty hr hbuffer => exact ⟨h.cleared, fun hc => by cases hc⟩
  | nonempty hr hbuffer => exact ⟨h.cleared, fun _ => hbuffer⟩
  | again hr hflag => exact ⟨h.cleared, fun hc => by cases hc⟩
  | retry hr => exact ⟨h.cleared, fun hc => by cases hc⟩
  | pop f rest hr hbuffer => exact ⟨h.cleared, fun hc => by cases hc⟩
  | release f hr => exact ⟨h.cleared, fun hc => by cases hc⟩
  | next hr htodo hw => exact ⟨h.cleared, fun hc => by cases hc⟩
  | eof hr hflag => exact ⟨h.cleared, fun hc => by cases hc⟩
  | leave hr htodo hw => exact ⟨h.cleared, fun hc => by cases hc⟩
  | last hr => exact ⟨h.cleared, fun hc => by cases hc⟩

/-- Every step is progress or a look for a file name. -/
theorem Step.work_lt (hinv : s.Inv lines solve cap cin) (hstep : Step lines solve batch s s') :
    s'.work lines < s.work lines ∨ (s'.work lines = s.work lines ∧ Idle s s') := by
  cases hstep with
  | core c hc =>
    left
    have hless := hc.work_lt
    simp only [work]
    omega
  | readName f rest hn hcin =>
    left
    simp only [work, hn, hcin, namesWork, List.map_cons, List.sum_cons]
    omega
  | endOfNames hn hcin =>
    left
    simp only [work, hn, namesWork]
    omega
  | getName f hn hfree =>
    left
    simp only [work, hn, namesWork]
    omega
  | pushName f hn =>
    left
    simp only [work, hn, namesWork, List.map_append, List.sum_append, List.map_cons, List.map_nil,
      List.sum_cons, List.sum_nil]
    omega
  | releaseName hn =>
    left
    simp only [work, hn, namesWork]
    omega
  | clear hn =>
    left
    simp only [work, hn, namesWork]
    omega
  | get hr hfree =>
    exact .inr ⟨by simp only [work, hr, readerWork], (by rw [hr]; rfl), rfl, fun _ => hfree,
      fun hc => by rw [hr] at hc; cases hc⟩
  | empty hr hbuffer =>
    exact .inr ⟨by simp only [work, hr, readerWork], (by rw [hr]; rfl), rfl,
      (fun hc => by rw [hr] at hc; cases hc),
      (fun hc => by rw [hr] at hc; cases hc)⟩
  | again hr hflag =>
    exact .inr ⟨by simp only [work, hr, readerWork], (by rw [hr]; rfl), rfl,
      (fun hc => by rw [hr] at hc; cases hc), fun _ => hflag⟩
  | retry hr =>
    exact .inr ⟨by simp only [work, hr, readerWork], (by rw [hr]; rfl), rfl,
      (fun hc => by rw [hr] at hc; cases hc),
      (fun hc => by rw [hr] at hc; cases hc)⟩
  | nonempty hr hbuffer =>
    left
    simp only [work, hr, readerWork]
    omega
  | pop f rest hr hbuffer =>
    left
    simp only [work, hr, hbuffer, readerWork, List.map_cons, List.sum_cons]
    omega
  | release f hr =>
    left
    have htodo : s.core.todo = [] := (hinv.idle (by rw [hr]; exact id)).1
    simp only [work, Core.work, Core.front, Core.laneWork, Core.back, hr, htodo, readerWork,
      fileWork, List.length_map, List.length_nil]
    omega
  | next hr htodo hw =>
    left
    simp only [work, hr, readerWork]
    omega
  | eof hr hflag =>
    left
    have htodo : s.core.todo = [] := (hinv.idle (by rw [hr]; exact id)).1
    simp only [work, Core.work, Core.front, Core.laneWork, Core.back, hr, htodo, readerWork,
      List.length_replicate, List.length_nil]
    omega
  | leave hr htodo hw =>
    left
    simp only [work, hr, readerWork]
    omega
  | last hr =>
    left
    simp only [work, hr, readerWork]
    omega

/-! ## No deadlock -/

/-- All threads have come to their ends. -/
structure Finished (s : Pipeline n ν) : Prop where
  printer : s.core.phase = .done
  solvers : ∀ i, s.core.solver i = .stopped
  names : s.names = .done
  reader : s.reader = .done

/-- A step of `filenameReadThread`. -/
def NameStep (lines : ν → List Bytes) (solve : Bytes → Bytes) (batch : Nat)
    (s s' : Pipeline n ν) : Prop := Step lines solve batch s s' ∧ s'.names ≠ s.names

/-- The thread of the names can go on unless the reader has the lock. -/
theorem names_enabled (lines : ν → List Bytes) (solve : Bytes → Bytes) (batch : Nat)
    (hnames : s.names ≠ .done) (hlock : s.filenameLock = true → s.names.Holds) :
    Enabled (NameStep lines solve batch) s := by
  cases hn : s.names with
  | read =>
    cases hcin : s.cin with
    | nil => exact ⟨_, .endOfNames s hn hcin, by rw [hn]; exact fun hc => by cases hc⟩
    | cons f rest => exact ⟨_, .readName s f rest hn hcin, by rw [hn]; exact fun hc => by cases hc⟩
  | get f =>
    cases hfree : s.filenameLock with
    | false => exact ⟨_, .getName s f hn hfree, by rw [hn]; exact fun hc => by cases hc⟩
    | true =>
      have hholds := hlock hfree
      rw [hn] at hholds
      exact hholds.elim
  | push f => exact ⟨_, .pushName s f hn, by rw [hn]; exact fun hc => by cases hc⟩
  | release => exact ⟨_, .releaseName s hn, by rw [hn]; exact fun hc => by cases hc⟩
  | clear => exact ⟨_, .clear s hn, by rw [hn]; exact fun hc => by cases hc⟩
  | done => exact absurd hn hnames

/-- Threads behind the reader that cannot go on have done all the work they have got. -/
theorem Inv.core_ends (h : s.Inv lines solve cap cin) (hcap : 1 ≤ cap)
    (hdealt : Dealt n (cin.flatMap lines).length)
    (hstuck : ∀ c, ¬ Core.Step solve batch s.core c) :
    s.core.todo = [] ∧ s.core.writer = .idle ∧
      (s.reader.Closing → s.core.phase = .done ∧ ∀ i, s.core.solver i = .stopped) := by
  have hscript := h.script
  rw [Pipeline.script] at hscript
  by_cases hc : s.reader.Closing
  · rw [if_pos hc, h.closing hc] at hscript
    obtain ⟨hdone, hstopped, htodo, hidle⟩ := h.core.ended_of_stuck hcap hdealt hscript hstuck
    exact ⟨htodo, hidle, fun _ => ⟨hdone, hstopped⟩⟩
  · rw [if_neg hc, List.append_nil] at hscript
    obtain ⟨htodo, hidle⟩ := h.core.written_of_stuck hcap hscript hstuck
    exact ⟨htodo, hidle, fun hc' => absurd hc' hc⟩

/-- How far the reader is from the place where it lets the other thread have the lock. -/
def lockRank : ReadThread ν → Nat
  | .size => 3
  | .flag => 2
  | .retry => 1
  | _ => 0

/-- How far it is from the flag, when the other thread has come to its end. -/
def flagRank : ReadThread ν → Nat
  | .retry => 4
  | .get => 3
  | .size => 2
  | .flag => 1
  | _ => 0

def lookRank (s : Pipeline n ν) : Nat :=
  match s.names with
  | .done => flagRank s.reader
  | _ => lockRank s.reader

theorem lookRank_done (h : s.names = .done) : s.lookRank = flagRank s.reader := by
  rw [lookRank, h]

theorem lookRank_running (h : s.names ≠ .done) : s.lookRank = lockRank s.reader := by
  unfold lookRank
  cases hn : s.names with
  | done => exact absurd hn h
  | _ => rfl

theorem lookRank_le (s : Pipeline n ν) : s.lookRank ≤ 4 := by
  by_cases hn : s.names = .done
  · rw [lookRank_done hn]
    unfold flagRank
    split <;> omega
  · rw [lookRank_running hn]
    unfold lockRank
    split <;> omega

/-- What a step that is well chosen lowers. -/
def toEnd (lines : ν → List Bytes) (s : Pipeline n ν) : Nat := 5 * s.work lines + s.lookRank

theorem Step.toEnd_lt (hinv : s.Inv lines solve cap cin) (hstep : Step lines solve batch s s')
    (hidle : Idle s s' → s'.lookRank < s.lookRank) : s'.toEnd lines < s.toEnd lines := by
  have hle := s'.lookRank_le
  unfold toEnd
  rcases hstep.work_lt hinv with hless | ⟨hsame, hlook⟩
  · omega
  · have hrank := hidle hlook
    omega

/-- A step of the reader on its way to the lock or to the flag. -/
theorem look_lt {r : ReadThread ν} (hr : s.reader = r) (hnames : s'.names = s.names)
    (hlock : s.names ≠ .done → lockRank s'.reader < lockRank r)
    (hflag : s.names = .done → flagRank s'.reader < flagRank r) : s'.lookRank < s.lookRank := by
  by_cases hn : s.names = .done
  · rw [lookRank_done hn, lookRank_done (hnames.trans hn), hr]
    exact hflag hn
  · rw [lookRank_running hn, lookRank_running (hnames ▸ hn), hr]
    exact hlock hn

/-- All threads have finished, or one of them can make a step towards the end. -/
theorem Inv.advance (h : s.Inv lines solve cap cin) (hready : s.Ready) (hcap : 1 ≤ cap)
    (hdealt : Dealt n (cin.flatMap lines).length) :
    s.Finished ∨ ∃ s', Step lines solve batch s s' ∧ s'.toEnd lines < s.toEnd lines := by
  -- a step of the reader that is no look, and a step of the other thread
  have hreader : ∀ {s'}, Step lines solve batch s s' → lookFrom s.reader ≠ some s'.reader →
      ∃ s', Step lines solve batch s s' ∧ s'.toEnd lines < s.toEnd lines :=
    fun hstep hne => ⟨_, hstep, hstep.toEnd_lt h fun hidle => absurd hidle.reader hne⟩
  have hother : Enabled (NameStep lines solve batch) s →
      ∃ s', Step lines solve batch s s' ∧ s'.toEnd lines < s.toEnd lines :=
    fun ⟨_, hstep, hne⟩ => ⟨_, hstep, hstep.toEnd_lt h fun hidle => absurd hidle.names hne⟩
  by_cases hcore : ∃ c, Core.Step solve batch s.core c
  · obtain ⟨c, hc⟩ := hcore
    refine .inr (hreader (.core s c hc) ?_)
    dsimp only
    cases s.reader <;> simp [lookFrom]
  have hstuck : ∀ c, ¬ Core.Step solve batch s.core c := fun c hc => hcore ⟨c, hc⟩
  obtain ⟨htodo, hidle, hclosing⟩ := h.core_ends hcap hdealt hstuck
  have hguarded := h.guarded
  -- The reader can go on wherever it is, except for a lock that the other thread has.
  cases hr : s.reader with
  | get =>
    rw [hr] at hguarded
    right
    by_cases hn : s.names = .done
    · cases hlock : s.filenameLock with
      | false =>
        have hstep : Step lines solve batch s _ := .get s hr hlock
        exact ⟨_, hstep, hstep.toEnd_lt h fun _ =>
          look_lt hr rfl (fun hne => absurd hn hne) fun _ => by simp [flagRank]⟩
      | true =>
        have hholds : s.names.Holds := (hguarded.1.mp hlock).resolve_right id
        rw [hn] at hholds
        exact hholds.elim
    · exact hother (names_enabled lines solve batch hn fun hlock =>
        (hguarded.1.mp hlock).resolve_right id)
  | size =>
    right
    by_cases hbuffer : s.filenameBuffer = []
    · have hstep : Step lines solve batch s _ := .empty s hr hbuffer
      exact ⟨_, hstep, hstep.toEnd_lt h fun _ =>
        look_lt hr rfl (fun _ => by simp [lockRank]) fun _ => by simp [flagRank]⟩
    · exact hreader (.nonempty s hr hbuffer) (by simp [hr, lookFrom])
  | flag =>
    right
    cases hflag : s.readFile with
    | true =>
      have hn : s.names ≠ .done := by
        intro hn
        rw [hready.cleared hn] at hflag
        cases hflag
      have hstep : Step lines solve batch s _ := .again s hr hflag
      exact ⟨_, hstep, hstep.toEnd_lt h fun _ =>
        look_lt hr rfl (fun _ => by simp [lockRank]) fun hdone => absurd hdone hn⟩
    | false => exact hreader (.eof s hr hflag) (by simp [hr, lookFrom])
  | pop =>
    right
    cases hbuffer : s.filenameBuffer with
    | nil => exact absurd hbuffer (hready.pop hr)
    | cons f rest => exact hreader (.pop s f rest hr hbuffer) (by simp [hr, lookFrom])
  | release f => exact .inr (hreader (.release s f hr) (by simp [hr, lookFrom]))
  | retry =>
    right
    have hstep : Step lines solve batch s _ := .retry s hr
    exact ⟨_, hstep, hstep.toEnd_lt h fun _ =>
      look_lt hr rfl (fun _ => by simp [lockRank]) fun _ => by simp [flagRank]⟩
  | write => exact .inr (hreader (.next s hr htodo hidle) (by simp [hr, lookFrom]))
  | eof => exact .inr (hreader (.leave s hr htodo hidle) (by simp [hr, lookFrom]))
  | leave => exact .inr (hreader (.last s hr) (by simp [hr, lookFrom]))
  | done =>
    rw [hr] at hguarded hclosing
    by_cases hnames : s.names = .done
    · obtain ⟨hdone, hstopped⟩ := hclosing trivial
      exact .inl ⟨hdone, hstopped, hnames, hr⟩
    · exact .inr (hother (names_enabled lines solve batch hnames fun hlock =>
        (hguarded.1.mp hlock).resolve_right id))

theorem Reachable.ready (h : Reachable lines solve batch cap garbage cin s) : s.Ready := by
  induction h with
  | refl => exact ⟨(fun hc => by cases hc), fun hc => by cases hc⟩
  | tail _ hstep ih => exact ih.step hstep

/-- From every state there is a run to the end. -/
theorem Reachable.can_finish (h : Reachable lines solve batch cap garbage cin s) (hcap : 1 ≤ cap)
    (hdealt : Dealt n (cin.flatMap lines).length) :
    ∃ t : Pipeline n ν, Reachable lines solve batch cap garbage cin t ∧ t.Finished := by
  generalize hm : s.toEnd lines = m
  induction m using Nat.strong_induction_on generalizing s with
  | _ m ih =>
    rcases h.inv.advance h.ready hcap hdealt with hfinished | ⟨s', hstep, hless⟩
    · exact ⟨s, h, hfinished⟩
    · exact ih _ (hm ▸ hless) (h.tail hstep) rfl

/-! ## Fair runs -/

section Looking

variable {run : Nat → Pipeline n ν} {K : Nat}

theorem Idle.next (h : Idle s s') {r r' : ReadThread ν} (hr : s.reader = r)
    (hlook : lookFrom r = some r') : s'.reader = r' := by
  have heq := h.reader
  rw [hr, hlook] at heq
  exact (Option.some.inj heq).symm

/-- A reader that only looks for names comes back to the lock again and again. -/
theorem looks_again (hidle : ∀ k, K ≤ k → Idle (run k) (run (k + 1))) {m : Nat} (hm : K ≤ m) :
    ∃ k, m ≤ k ∧ (run k).reader = .get := by
  have hnext := fun j => hidle (m + j) (by omega)
  cases hr : (run m).reader with
  | get => exact ⟨m, le_rfl, hr⟩
  | size =>
    have h₁ := (hnext 0).next hr rfl
    have h₂ := (hnext 1).next h₁ rfl
    exact ⟨m + 3, by omega, (hnext 2).next h₂ rfl⟩
  | flag =>
    have h₁ := (hnext 0).next hr rfl
    exact ⟨m + 2, by omega, (hnext 1).next h₁ rfl⟩
  | retry => exact ⟨m + 1, by omega, (hnext 0).next hr rfl⟩
  | _ =>
    have heq := (hnext 0).reader
    simp only [Nat.add_zero, hr, lookFrom, reduceCtorEq] at heq

/-- Meanwhile `filenameReadThread` could go on again and again. -/
theorem starved (hready : ∀ k, (run k).Ready)
    (hidle : ∀ k, K ≤ k → Idle (run k) (run (k + 1))) (m : Nat) :
    ∃ k, m ≤ k ∧ Enabled (NameStep lines solve batch) (run k) := by
  obtain ⟨k, hk, hget⟩ := looks_again hidle (Nat.le_max_left K m)
  have hKk : K ≤ k := (Nat.le_max_left K m).trans hk
  refine ⟨k, (Nat.le_max_right K m).trans hk, names_enabled lines solve batch ?_ ?_⟩
  · -- two steps later the flag is not cleared, so the thread has not come to its end
    have hsize := (hidle k hKk).next hget rfl
    have hflag := (hidle (k + 1) (by omega)).next hsize rfl
    intro hdone
    have hstill : (run (k + 2)).names = .done := by
      rw [(hidle (k + 1) (by omega)).names, (hidle k hKk).names, hdone]
    have htrue := (hidle (k + 2) (by omega)).flag hflag
    rw [(hready (k + 2)).cleared hstill] at htrue
    cases htrue
  · intro hlock
    rw [(hidle k hKk).lock hget] at hlock
    cases hlock

end Looking

theorem exists_finished (lines : ν → List Bytes) (solve : Bytes → Bytes) (batch cap : Nat)
    (garbage : Bytes) (cin : List ν) (hcap : 1 ≤ cap)
    (hdealt : Dealt n (cin.flatMap lines).length) :
    ∃ t : Pipeline n ν, Reachable lines solve batch cap garbage cin t ∧ t.Finished :=
  Reachable.can_finish (s := start n cap garbage cin) .refl hcap hdealt

/-- Every reachable state can go on or is the end, and no run that is fair to `filenameReadThread`
goes on for ever. -/
theorem ends_if_fair (hcap : 1 ≤ cap) (hdealt : Dealt n (cin.flatMap lines).length) :
    (∀ s : Pipeline n ν, Reachable lines solve batch cap garbage cin s →
      s.Finished ∨ ∃ s', Step lines solve batch s s') ∧
    ∀ run : Nat → Pipeline n ν, run 0 = start n cap garbage cin →
      (∀ k, Step lines solve batch (run k) (run (k + 1))) →
      ¬ StronglyFair (NameStep lines solve batch) run := by
  constructor
  · intro s h
    rcases h.inv.advance h.ready hcap hdealt with hfinished | ⟨s', hstep, -⟩
    · exact .inl hfinished
    · exact .inr ⟨s', hstep⟩
  · intro run hstart hrun
    have hreach : ∀ k, Reachable lines solve batch cap garbage cin (run k) := by
      intro k
      induction k with
      | zero =>
        rw [hstart]
        exact .refl
      | succ k ih => exact .tail ih (hrun k)
    apply not_stronglyFair (work lines) Idle
    · exact fun k => (hrun k).work_lt (hreach k).inv
    · exact fun s s' hidle hact => hact.2 hidle.names
    · exact fun K hidle m => starved (fun k => (hreach k).ready) hidle m

end Pipeline

end CloudLabs.Sudoku
