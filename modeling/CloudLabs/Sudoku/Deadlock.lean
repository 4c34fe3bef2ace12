import CloudLabs.Sudoku.Pipeline

/-!
# When the queues cannot deadlock

The writer waits at a full queue while the printer waits at an empty one, and both insist on their
turn. `Inv.progress` goes by the queue whose turn it is for the printer: if the printer waits there,
nothing that was sent to this queue's solver is left unprinted, so by the turn nothing at all is
(`lane_exhausted`), every queue is empty, and the writer cannot be waiting.

This takes end markers that go to one queue each (`Dealt`). They do so unless the counter of the
writer goes back to 0 among them; then a solver may be left out, and the threads wait for each other
at the end (`exists_deadlock`), which they always come to: every step behind the reader is progress
(`Step.work_lt`).
-/

set_option autoImplicit false

namespace CloudLabs.Sudoku

open CloudLabs.Foundation

/-- End markers behind `count` items go to one queue each. -/
def Dealt (n count : Nat) : Prop := Function.Injective fun j : Fin (n + 1) => deal n (1 + count + j)

theorem dealt_iff {n count : Nat} :
    Dealt n count ↔ (1 + count) % 2 ^ 64 + n < 2 ^ 64 ∨ (n + 1) ∣ 2 ^ 64 :=
  injective_counterLane_iff (Nat.two_pow_pos 64)

theorem Dealt.of_lt {n count : Nat} (h : count + (n + 1) < 2 ^ 64) : Dealt n count :=
  dealt_iff.mpr (.inl (by rw [Nat.mod_eq_of_lt] <;> omega))

namespace Core

section Stuck

variable {n : Nat} {solve : Bytes → Bytes} {cap batch : Nat} {s : Core n}

/-- A thread that is not in the use of a lock. -/
theorem out_quiet (c : Use) :
    Use.out.holds = 0 ∧ Use.out.owes = 0 ∧ (c.holds = 0 → Use.out.claims = 0) :=
  ⟨rfl, rfl, fun _ => rfl⟩

theorem Inv.writer_blocked (h : s.Inv solve cap) (hstuck : ∀ s', ¬ Step solve batch s s')
    (q : Fin (n + 1)) :
    (s.writeUse q).holds = 0 ∧ (s.writeUse q).owes = 0 ∧
      ((s.solver q).takeUse.holds = 0 → (s.writeUse q).claims = 0) := by
  have hq := h.problems q
  unfold writeUse at hq ⊢
  by_cases hid : s.writeId = q
  · subst hid
    rw [if_pos rfl] at hq ⊢
    cases hw : s.writer with
    | idle => exact out_quiet _
    | put p x =>
      rw [hw] at hq
      apply Put.blocked hq
      intro q' p' hput
      exact hstuck _ (.write s p p' x q' hw hput)
  · rw [if_neg hid]
    exact out_quiet _

theorem Inv.taker_blocked (h : s.Inv solve cap) (hstuck : ∀ s', ¬ Step solve batch s s')
    (q : Fin (n + 1)) :
    (s.solver q).takeUse.holds = 0 ∧ (s.solver q).takeUse.owes = 0 ∧
      ((s.writeUse q).holds = 0 → (s.solver q).takeUse.claims = 0) := by
  have hq := h.problems q
  cases hs : s.solver q with
  | take t =>
    rw [hs] at hq
    apply Take.blocked hq
    intro q' t' htake
    exact hstuck _ (.get s q t t' q' hs htake)
  | put p x => exact out_quiet _
  | stopped => exact out_quiet _

theorem Inv.putter_blocked (h : s.Inv solve cap) (hstuck : ∀ s', ¬ Step solve batch s s')
    (q : Fin (n + 1)) :
    (s.solver q).putUse.holds = 0 ∧ (s.solver q).putUse.owes = 0 ∧
      ((s.readUse q).holds = 0 → (s.solver q).putUse.claims = 0) := by
  have hq := h.results q
  cases hs : s.solver q with
  | take t => exact out_quiet _
  | put p x =>
    rw [hs] at hq
    apply Put.blocked hq
    intro q' p' hput
    exact hstuck _ (.put s q p p' x q' hs hput)
  | stopped => exact out_quiet _

theorem Inv.reader_blocked (h : s.Inv solve cap) (hstuck : ∀ s', ¬ Step solve batch s s')
    (q : Fin (n + 1)) :
    (s.readUse q).holds = 0 ∧ (s.readUse q).owes = 0 ∧
      ((s.solver q).putUse.holds = 0 → (s.readUse q).claims = 0) := by
  have hq := h.results q
  unfold readUse at hq ⊢
  by_cases hid : s.readId = q
  · subst hid
    rw [if_pos rfl] at hq ⊢
    cases hp : s.phase with
    | loop => exact out_quiet _
    | take t =>
      rw [hp] at hq
      apply Take.blocked hq
      intro q' t' htake
      exact hstuck _ (.read s t t' q' hp htake)
    | done => exact out_quiet _
  · rw [if_neg hid]
    exact out_quiet _

/-- A writer that cannot go on has nothing to write, or its queue is full. -/
theorem Inv.writer_waits (h : s.Inv solve cap) (hstuck : ∀ s', ¬ Step solve batch s s') :
    s.writer = .idle ∧ s.todo = [] ∨ (s.problemBuffer s.writeId).items.length = cap := by
  have hw := h.writer_blocked hstuck s.writeId
  have ht := h.taker_blocked hstuck s.writeId
  have hclaims := hw.2.2 ht.1
  have hcount := (h.problems s.writeId).quiet hw ht
  rw [writeUse, if_pos rfl] at hclaims
  cases hwriter : s.writer with
  | idle =>
    cases htodo : s.todo with
    | nil => exact .inl ⟨rfl, rfl⟩
    | cons x rest => exact absurd (.call s x rest hwriter htodo) (hstuck _)
  | put p x =>
    rw [hwriter] at hclaims
    right
    apply Put.full_of_stuck hcount.2 hclaims
    · rintro rfl
      exact hstuck _ (.written s x hwriter)
    · intro q' p' hput
      exact hstuck _ (.write s p p' x q' hwriter hput)

/-- A solver that cannot go on has finished, or has no problem, or its result queue is full. -/
theorem Inv.solver_waits (h : s.Inv solve cap) (hstuck : ∀ s', ¬ Step solve batch s s')
    (i : Fin (n + 1)) :
    s.solver i = .stopped ∨
    s.solver i = .take .waitFull ∧ (s.problemBuffer i).items = [] ∨
    (s.resultBuffer i).items.length = cap := by
  cases hs : s.solver i with
  | stopped => exact .inl rfl
  | take t =>
    have hw := h.writer_blocked hstuck i
    have ht := h.taker_blocked hstuck i
    have hclaims := ht.2.2 hw.1
    have hcount := (h.problems i).quiet hw ht
    rw [hs] at hclaims
    have hempty : t = .waitFull ∧ (s.problemBuffer i).items = [] := by
      apply Take.empty_of_stuck hcount.1 hclaims
      · rintro x rfl
        exact hstuck _ (.solve s i x hs)
      · intro q' t' htake
        exact hstuck _ (.get s i t t' q' hs htake)
    rw [hempty.1]
    exact .inr (.inl ⟨rfl, hempty.2⟩)
  | put p x =>
    have hp := h.putter_blocked hstuck i
    have hr := h.reader_blocked hstuck i
    have hclaims := hp.2.2 hr.1
    have hcount := (h.results i).quiet hp hr
    rw [hs] at hclaims
    right
    right
    apply Put.full_of_stuck hcount.2 hclaims
    · rintro rfl
      cases x with
      | none => exact hstuck _ (.stop s i hs)
      | some y => exact hstuck _ (.again s i y hs)
    · intro q' p' hput
      exact hstuck _ (.put s i p p' x q' hs hput)

/-- A printer that cannot go on has finished, or the queue whose turn it is is empty. -/
theorem Inv.printer_waits (h : s.Inv solve cap) (hstuck : ∀ s', ¬ Step solve batch s s') :
    s.phase = .done ∨
    s.phase = .take .waitFull ∧ (s.resultBuffer s.readId).items = [] := by
  cases hphase : s.phase with
  | loop => exact absurd (.turn s hphase) (hstuck _)
  | done => exact .inl rfl
  | take t =>
    have hp := h.putter_blocked hstuck s.readId
    have hr := h.reader_blocked hstuck s.readId
    have hclaims := hr.2.2 hp.1
    have hcount := (h.results s.readId).quiet hp hr
    rw [readUse, if_pos rfl, hphase] at hclaims
    have hempty : t = .waitFull ∧ (s.resultBuffer s.readId).items = [] := by
      apply Take.empty_of_stuck hcount.1 hclaims
      · rintro x rfl
        by_cases hend : (s.printer.process batch x).endNumber = n + 1
        · exact hstuck _ (.finish s x hphase hend)
        · exact hstuck _ (.process s x hphase hend)
      · intro q' t' htake
        exact hstuck _ (.read s t t' q' hphase htake)
    rw [hempty.1]
    exact .inr ⟨rfl, hempty.2⟩

/-- Nothing is sent to a solver after its end marker. -/
theorem Inv.nothing_behind_marker (h : s.Inv solve cap) {ps : List Bytes}
    (hdealt : Dealt n ps.length)
    (hscript : s.sent ++ s.todo = ps.map some ++ List.replicate (n + 1) none) {q : Fin (n + 1)}
    (hmarker : none ∈ s.received q) : s.received q = lane (deal n) q 1 s.sent := by
  have hflow := h.problemFlow q
  have hlane := congrArg (lane (deal n) q 1) hscript
  rw [lane_script, lane_round hdealt, lane_append, hflow, List.append_assoc] at hlane
  generalize (s.solver q).took ++ ((s.problemBuffer q).items ++ s.writePending q) = way
    at hflow hlane
  generalize lane (deal n) q (1 + s.sent.length) s.todo = later at hlane
  -- The lane ends with its only marker, so a marker received is the last element of the lane.
  have hnone : way ++ later = [] := by
    rcases List.eq_nil_or_concat (way ++ later) with hnil | ⟨d, x, hd⟩
    · exact hnil
    · rw [hd, List.concat_eq_append, ← List.append_assoc] at hlane
      obtain ⟨hbefore, -⟩ := List.append_inj' hlane rfl
      have hmem : (none : Item) ∈ (lane (deal n) q 1 ps).map some := by
        rw [← hbefore]
        exact List.mem_append_left _ hmarker
      simp at hmem
  obtain ⟨hway, -⟩ := List.append_eq_nil_iff.mp hnone
  rw [hflow, hway, List.append_nil]

/-- A printer that waits has printed everything that was sent, when nothing is sent to a solver after
its end marker. -/
theorem Inv.printed_of_waiting (h : s.Inv solve cap) (hcap : 1 ≤ cap)
    (hlast : ∀ q, none ∈ s.received q → s.received q = lane (deal n) q 1 s.sent)
    (hstuck : ∀ s', ¬ Step solve batch s s') (hp : s.phase = .take .waitFull)
    (hempty : (s.resultBuffer s.readId).items = []) :
    s.printed = s.sent.map (Option.map solve) := by
  have hid := h.readId_eq hp
  have hresult := h.resultFlow s.readId
  have htook : s.readTook s.readId = [] := by
    rw [readTook, if_pos rfl, hp]
    rfl
  rw [htook, hempty, List.nil_append, List.nil_append] at hresult
  -- The solver of this queue has got all that was sent to it, and returned it.
  have hsolver : s.received s.readId = lane (deal n) s.readId 1 s.sent ∧
      (s.solver s.readId).pending = [] := by
    rcases h.solver_waits hstuck s.readId with hs | ⟨hs, hitems⟩ | hfull
    · have hmarker : none ∈ s.received s.readId := by
        rw [← List.count_pos_iff, h.ended, hs]
        exact Nat.one_pos
      exact ⟨hlast s.readId hmarker, by rw [hs]; rfl⟩
    · have hpending : s.writePending s.readId = [] := by
        unfold writePending
        by_cases hw : s.writeId = s.readId
        · rw [if_pos hw]
          rcases h.writer_waits hstuck with ⟨hidle, -⟩ | hfull
          · rw [hidle]
            rfl
          · rw [hw, hitems] at hfull
            simp only [List.length_nil] at hfull
            omega
        · exact if_neg hw
      have hproblem := h.problemFlow s.readId
      rw [hs, hitems, hpending] at hproblem
      exact ⟨by simpa [Solver.took, Take.took] using hproblem.symm, by rw [hs]; rfl⟩
    · rw [hempty] at hfull
      simp only [List.length_nil] at hfull
      omega
  rw [hsolver.1, hsolver.2, List.append_nil, ← lane_map] at hresult
  rw [hid] at hresult
  exact lane_exhausted (deal n) h.inOrder hresult

/-- When everything that was sent has been printed, all queues are empty, and a writer that cannot go on
has come to the end. -/
theorem Inv.written_of_printed (h : s.Inv solve cap) (hcap : 1 ≤ cap)
    (hstuck : ∀ s', ¬ Step solve batch s s') (hall : s.printed = s.sent.map (Option.map solve)) :
    s.todo = [] ∧ s.writer = .idle := by
  rcases h.writer_waits hstuck with ⟨hidle, htodo⟩ | hfull
  · exact ⟨htodo, hidle⟩
  · rw [(h.drained hall s.writeId).2.1] at hfull
    simp only [List.length_nil] at hfull
    omega

/-- When everything that was sent has been printed, a solver that cannot go on has no problem left
but its end marker. -/
theorem Inv.stopped_of_printed (h : s.Inv solve cap) (hcap : 1 ≤ cap) {ps : List Bytes}
    (hdealt : Dealt n ps.length)
    (hscript : s.sent ++ s.todo = ps.map some ++ List.replicate (n + 1) none)
    (hstuck : ∀ s', ¬ Step solve batch s s') (htodo : s.todo = [])
    (hall : s.printed = s.sent.map (Option.map solve)) (i : Fin (n + 1)) :
    s.solver i = .stopped := by
  obtain ⟨hreceived, -, hitems⟩ := h.drained hall i
  rcases h.solver_waits hstuck i with hs | ⟨hs, -⟩ | hfull
  · exact hs
  · have hmarker : none ∈ s.received i := by
      rw [htodo, List.append_nil] at hscript
      rw [hreceived, hscript, lane_script, lane_round hdealt]
      simp
    rw [← List.count_pos_iff, h.ended, hs] at hmarker
    exact absurd hmarker (Nat.lt_irrefl 0)
  · rw [hitems] at hfull
    simp only [List.length_nil] at hfull
    omega

/-- Threads that cannot go on, and whose script has no end marker yet, have written all of it. -/
theorem Inv.written_of_stuck (h : s.Inv solve cap) (hcap : 1 ≤ cap) {ps : List Bytes}
    (hscript : s.sent ++ s.todo = ps.map some) (hstuck : ∀ s', ¬ Step solve batch s s') :
    s.todo = [] ∧ s.writer = .idle := by
  have hsent : none ∉ s.sent := by
    intro hmarker
    have hmem : (none : Item) ∈ ps.map some := by
      rw [← hscript]
      exact List.mem_append_left _ hmarker
    simp at hmem
  have hreceived : ∀ q, none ∉ s.received q := by
    intro q hmarker
    have hmem : none ∈ lane (deal n) q 1 s.sent := by
      rw [h.problemFlow q]
      exact List.mem_append_left _ hmarker
    exact hsent ((lane_sublist _ _ _ _).subset hmem)
  rcases h.printer_waits hstuck with hdone | ⟨hp, hempty⟩
  · exact absurd (h.marker_sent hdone) hsent
  · have hall := h.printed_of_waiting hcap (fun q hmarker => absurd hmarker (hreceived q)) hstuck hp
      hempty
    exact h.written_of_printed hcap hstuck hall

/-- Where no thread can go on, the printer and all solvers have finished. -/
theorem Inv.progress (h : s.Inv solve cap) (hcap : 1 ≤ cap) {ps : List Bytes}
    (hdealt : Dealt n ps.length)
    (hscript : s.sent ++ s.todo = ps.map some ++ List.replicate (n + 1) none)
    (hstuck : ∀ s', ¬ Step solve batch s s') :
    s.phase = .done ∧ ∀ i, s.solver i = .stopped := by
  have hdone : s.phase = .done := by
    rcases h.printer_waits hstuck with hdone | ⟨hp, hempty⟩
    · exact hdone
    · have hall := h.printed_of_waiting hcap
        (fun q => h.nothing_behind_marker hdealt hscript) hstuck hp hempty
      -- the writer has come to the end, so that the markers were printed
      have htodo := (h.written_of_printed hcap hstuck hall).1
      have hcount := h.counted
      rw [htodo, List.append_nil] at hscript
      rw [hall, hscript, map_script, List.count_append, List.count_replicate_self] at hcount
      by_contra hrunning
      have hle := h.running hrunning
      omega
  obtain ⟨htodo, hall⟩ := h.printed_all hscript hdone
  exact ⟨hdone, h.stopped_of_printed hcap hdealt hscript hstuck htodo hall⟩

/-- The writer has then come to the end of the whole script. -/
theorem Inv.ended_of_stuck (h : s.Inv solve cap) (hcap : 1 ≤ cap) {ps : List Bytes}
    (hdealt : Dealt n ps.length)
    (hscript : s.sent ++ s.todo = ps.map some ++ List.replicate (n + 1) none)
    (hstuck : ∀ s', ¬ Step solve batch s s') :
    s.phase = .done ∧ (∀ i, s.solver i = .stopped) ∧ s.todo = [] ∧ s.writer = .idle := by
  obtain ⟨hdone, hstopped⟩ := h.progress hcap hdealt hscript hstuck
  have hall := (h.printed_all hscript hdone).2
  exact ⟨hdone, hstopped, h.written_of_printed hcap hstuck hall⟩

end Stuck

end Core

/-! ## The work that is left -/

def Writer.left : Writer → Nat
  | .idle => 0
  | .put p _ => p.left

/-- A solver has a round of taking and putting before it, and after a problem another one. -/
def Solver.left : Solver → Nat
  | .take t => t.left + 6
  | .put p _ => p.left + 12
  | .stopped => 0

def Phase.left : Phase → Nat
  | .loop => 7
  | .take t => t.left
  | .done => 0

namespace Core

variable {n : Nat} {solve : Bytes → Bytes} {batch cap : Nat} {s s' : Core n}

/-- The work that is left in one lane. -/
def laneWork (s : Core n) (i : Fin (n + 1)) : Nat :=
  19 * (s.problemBuffer i).items.length + 7 * (s.resultBuffer i).items.length +
    (s.solver i).left + 19 * (s.solver i).took.length + 7 * (s.solver i).pending.length

/-- The work of the writer, and of the printer. -/
def front (s : Core n) : Nat :=
  26 * s.todo.length + s.writer.left + 19 * s.writer.pending.length

def back (s : Core n) : Nat := s.phase.left + 7 * s.phase.took.length

/-- The work that is left. The weights make up for the rounds that an item still costs. -/
def work (s : Core n) : Nat := s.front + ∑ i, s.laneWork i + s.back

/-- A step changes one lane at the most. -/
theorem work_lt_of_lane (i : Fin (n + 1)) (hsame : ∀ j, j ≠ i → s'.laneWork j = s.laneWork j)
    (hless : s'.front + s'.laneWork i + s'.back < s.front + s.laneWork i + s.back) :
    s'.work < s.work := by
  have hrest : ∑ j ∈ Finset.univ.erase i, s'.laneWork j = ∑ j ∈ Finset.univ.erase i, s.laneWork j :=
    Finset.sum_congr rfl fun j hj => hsame j (Finset.ne_of_mem_erase hj)
  have hnew := Finset.add_sum_erase Finset.univ s'.laneWork (Finset.mem_univ i)
  have hold := Finset.add_sum_erase Finset.univ s.laneWork (Finset.mem_univ i)
  rw [work, work]
  omega

/-- Every step behind the reader is progress. -/
theorem Step.work_lt (hstep : Step solve batch s s') : s'.work < s.work := by
  cases hstep with
  | call x rest hw htodo =>
    refine work_lt_of_lane 0 (fun j _ => rfl) ?_
    simp only [front, back, laneWork, hw, htodo, Writer.left, Writer.pending, Put.left, Put.pending,
      List.length_cons, List.length_nil]
    omega
  | write p p' x q hw hput =>
    have hleft := hput.left
    have hlen := hput.length
    refine work_lt_of_lane s.writeId (fun j hj => ?_) ?_
    · simp only [laneWork, Function.update_of_ne hj]
    · simp only [front, back, laneWork, hw, Writer.left, Writer.pending, Function.update_self]
      omega
  | written x hw =>
    refine work_lt_of_lane 0 (fun j _ => rfl) ?_
    simp only [front, back, laneWork, hw, Writer.left, Writer.pending, Put.left, Put.pending,
      List.length_nil]
    omega
  | get i t t' q hs htake =>
    have hleft := htake.left
    have hlen := htake.length
    refine work_lt_of_lane i (fun j hj => ?_) ?_
    · simp only [laneWork, Function.update_of_ne hj]
    · simp only [front, back, laneWork, hs, Solver.left, Solver.took, Solver.pending,
        Function.update_self]
      omega
  | solve i x hs =>
    refine work_lt_of_lane i (fun j hj => ?_) ?_
    · simp only [laneWork, Function.update_of_ne hj]
    · simp only [front, back, laneWork, hs, Solver.left, Solver.took, Solver.pending, Take.left,
        Take.took, Put.left, Put.pending, Function.update_self, List.length_cons, List.length_nil]
      omega
  | put i p p' x q hs hput =>
    have hleft := hput.left
    have hlen := hput.length
    refine work_lt_of_lane i (fun j hj => ?_) ?_
    · simp only [laneWork, Function.update_of_ne hj]
    · simp only [front, back, laneWork, hs, Solver.left, Solver.took, Solver.pending,
        Function.update_self]
      omega
  | again i y hs =>
    refine work_lt_of_lane i (fun j hj => ?_) ?_
    · simp only [laneWork, Function.update_of_ne hj]
    · simp only [front, back, laneWork, hs, Solver.left, Solver.took, Solver.pending, Take.left,
        Take.took, Put.left, Put.pending, Function.update_self, List.length_nil]
      omega
  | stop i hs =>
    refine work_lt_of_lane i (fun j hj => ?_) ?_
    · simp only [laneWork, Function.update_of_ne hj]
    · simp only [front, back, laneWork, hs, Solver.left, Solver.took, Solver.pending, Put.left,
        Put.pending, Function.update_self, List.length_nil]
      omega
  | turn hp =>
    refine work_lt_of_lane 0 (fun j _ => rfl) ?_
    simp only [front, back, laneWork, hp, Phase.left, Phase.took, Take.left, Take.took,
      List.length_nil]
    omega
  | read t t' q hp htake =>
    have hleft := htake.left
    have hlen := htake.length
    refine work_lt_of_lane s.readId (fun j hj => ?_) ?_
    · simp only [laneWork, Function.update_of_ne hj]
    · simp only [front, back, laneWork, hp, Phase.left, Phase.took, Function.update_self]
      omega
  | process x hp hmore =>
    refine work_lt_of_lane 0 (fun j _ => rfl) ?_
    simp only [front, back, laneWork, hp, Phase.left, Phase.took, Take.left, Take.took,
      List.length_cons, List.length_nil]
    omega
  | finish x hp hlast =>
    refine work_lt_of_lane 0 (fun j _ => rfl) ?_
    simp only [front, back, laneWork, hp, Phase.left, Phase.took, Take.left, Take.took,
      List.length_cons, List.length_nil]
    omega

/-- The threads come to a state in which none of them can go on. -/
theorem exists_stuck (solve : Bytes → Bytes) (batch : Nat) (s : Core n) :
    ∃ t, Run solve batch s t ∧ ∀ t', ¬ Step solve batch t t' := by
  generalize hm : s.work = m
  induction m using Nat.strong_induction_on generalizing s with
  | _ m ih =>
    by_cases hstep : ∃ s', Step solve batch s s'
    · obtain ⟨s', hs'⟩ := hstep
      obtain ⟨t, hrun, hstuck⟩ := ih s'.work (hm ▸ hs'.work_lt) s' rfl
      exact ⟨t, .head hs' hrun, hstuck⟩
    · exact ⟨s, .refl, fun s' hs' => hstep ⟨s', hs'⟩⟩

/-! ## Deadlock -/

/-- A solver that gets no end marker does not end. -/
theorem Inv.left_out (h : s.Inv solve cap) {ps : List Bytes} {q : Fin (n + 1)}
    (hscript : s.sent ++ s.todo = ps.map some ++ List.replicate (n + 1) none)
    (hq : lane (deal n) q (1 + ps.length) (List.replicate (n + 1) (none : Item)) = []) :
    s.solver q ≠ .stopped := by
  intro hstopped
  have hmarker : none ∈ s.received q := by
    rw [← List.count_pos_iff, h.ended, hstopped]
    exact Nat.one_pos
  have hlane := congrArg (lane (deal n) q 1) hscript
  rw [lane_script, hq, List.append_nil, lane_append, h.problemFlow, List.append_assoc] at hlane
  have hmem : (none : Item) ∈ (lane (deal n) q 1 ps).map some := by
    rw [← hlane]
    exact List.mem_append_left _ hmarker
  simp at hmem

/-- With end markers of which two go to one queue, the threads come to a deadlock. -/
theorem exists_deadlock (solve : Bytes → Bytes) (batch cap : Nat) (garbage : Bytes)
    {ps : List Bytes} (hdealt : ¬ Dealt n ps.length) :
    ∃ s : Core n,
      Run solve batch (start n cap garbage (ps.map some ++ List.replicate (n + 1) none)) s ∧
      (∃ i, s.solver i ≠ .stopped) ∧ ∀ s', ¬ Step solve batch s s' := by
  obtain ⟨q, hq⟩ := exists_lane_nil hdealt (none : Item)
  obtain ⟨s, hrun, hstuck⟩ := exists_stuck solve batch
    (start n cap garbage (ps.map some ++ List.replicate (n + 1) none))
  have hinv := (Inv.start solve cap garbage _).run hrun
  exact ⟨s, hrun, ⟨q, hinv.left_out hrun.script hq⟩, hstuck⟩

/-- For every number of solvers, every capacity of the queues and every list of problems followed by
the end markers: that in every state of every run the printer and all solvers have finished, or some
thread can make a step, is the case exactly if the counter of the writer does not go back to 0 among
the end markers, or the solvers divide `2 ^ 64`. -/
theorem cannot_deadlock_iff (n : Nat) (solve : Bytes → Bytes) (batch cap : Nat) (hcap : 1 ≤ cap)
    (garbage : Bytes) (ps : List Bytes) :
    (∀ s : Core n,
      Run solve batch (start n cap garbage (ps.map some ++ List.replicate (n + 1) none)) s →
        (s.phase = .done ∧ ∀ i, s.solver i = .stopped) ∨ ∃ s', Step solve batch s s') ↔
      (1 + ps.length) % 2 ^ 64 + n < 2 ^ 64 ∨ (n + 1) ∣ 2 ^ 64 := by
  rw [← dealt_iff]
  constructor
  · intro h
    by_contra hdealt
    obtain ⟨s, hrun, ⟨i, hi⟩, hstuck⟩ := exists_deadlock solve batch cap garbage hdealt
    rcases h s hrun with ⟨-, hstopped⟩ | ⟨s', hstep⟩
    · exact hi (hstopped i)
    · exact hstuck s' hstep
  · intro hdealt s hrun
    by_cases hstep : ∃ s', Step solve batch s s'
    · exact .inr hstep
    · have hstuck : ∀ s', ¬ Step solve batch s s' := fun s' hs' => hstep ⟨s', hs'⟩
      have hinv := (Inv.start solve cap garbage _).run hrun
      exact .inl (hinv.progress hcap hdealt hrun.script hstuck)

/-- The writer delivers an item to a queue that has room and is not in use. -/
theorem run_deliver {n : Nat} {solve : Bytes → Bytes} {batch : Nat} {s : Core n} {x : Item}
    {rest items : List Item} {e f : Nat} {q : Fin (n + 1)} (hw : s.writer = .idle)
    (htodo : s.todo = x :: rest) (hq : laneOf n (sizeT (s.problemNumber + 1)) = q)
    (hbuffer : s.problemBuffer q = ⟨⟨e + 1, f, 1⟩, items⟩) :
    Run solve batch s { s with
      todo := rest
      problemNumber := sizeT (s.problemNumber + 1)
      writer := .idle
      problemBuffer := Function.update s.problemBuffer q ⟨⟨e, f + 1, 1⟩, items ++ [x]⟩
      sent := s.sent ++ [x] } := by
  -- the state in the call, with the queue as it is at the moment
  let during : Put → Queue Item → Core n := fun p a => { s with
    todo := rest
    problemNumber := sizeT (s.problemNumber + 1)
    writer := .put p x
    problemBuffer := Function.update s.problemBuffer q a
    sent := s.sent ++ [x] }
  have hput : ∀ {p p' : Put} {a b : Queue Item}, Put.Step x a p b p' →
      Step solve batch (during p a) (during p' b) := by
    intro p p' a b hstep
    have hid : (during p a).writeId = q := hq
    have hsame : (during p a).problemBuffer q = a := Function.update_self ..
    have hwrite : Step solve batch _ _ := .write (during p a) p p' x b rfl (by rwa [hid, hsame])
    rw [hid] at hwrite
    have hnext : Function.update (during p a).problemBuffer q b = Function.update s.problemBuffer q b :=
      Function.update_idem ..
    rwa [hnext] at hwrite
  have hcall : Step solve batch s (during .waitEmpty ⟨⟨e + 1, f, 1⟩, items⟩) := by
    have hcall : Step solve batch s _ := .call s x rest hw htodo
    rwa [← Function.update_eq_self q s.problemBuffer, hbuffer] at hcall
  have h₁ := (Relation.ReflTransGen.single hcall).tail (hput (.waitEmpty _ (Nat.succ_pos e)))
  have h₂ := (h₁.tail (hput (.waitMutex _ Nat.one_pos))).tail (hput (.push _))
  have h₃ := (h₂.tail (hput (.postMutex _))).tail (hput (.postFull _))
  exact h₃.tail (.written _ x rfl)

/-- Three solvers with queues for one element. The writer has sent four problems, and waits with the
last of them at a full queue. -/
theorem cannot_deadlock_iff_full :
    let p : Bytes := List.replicate 81 48
    ∃ s : Core 2,
      Run id 1 (start 2 1 [] ((List.replicate 4 p).map some ++ List.replicate 3 none)) s ∧
        s.sent = List.replicate 4 (some p) ∧ (∀ q, (s.problemBuffer q).items = [some p]) ∧
        ∃ s', Step id 1 s s' := by
  intro p
  let s₀ : Core 2 := start 2 1 [] ((List.replicate 4 p).map some ++ List.replicate 3 none)
  have h₁ : Run id 1 s₀ _ := run_deliver (q := 1) rfl rfl (by decide) rfl
  have h₂ := h₁.trans (run_deliver (q := 2) rfl rfl (by decide) rfl)
  have h₃ := h₂.trans (run_deliver (q := 0) rfl rfl (by decide) rfl)
  have h₄ := h₃.tail (.call _ (some p) (List.replicate 3 none) rfl rfl)
  refine ⟨_, h₄, rfl, fun q => ?_, ?_⟩
  · fin_cases q <;> rfl
  · rcases (cannot_deadlock_iff 2 id 1 1 le_rfl [] (List.replicate 4 p)).mpr (.inl (by decide)) _ h₄
      with ⟨hdone, -⟩ | hstep
    · cases hdone
    · exact hstep

/-- With three solvers and `2 ^ 64 - 2` problems, the counter goes back to 0 behind the first end
marker, and the markers go to the queues 0, 0 and 1: the solver 2 does not end. -/
theorem deadlock_of_three : ¬ ∀ s : Core 2,
    Run id 1000 (start 2 1000 (List.replicate (bufSize 1000) 0)
      ((List.replicate (2 ^ 64 - 2) (List.replicate 81 48)).map some ++ List.replicate 3 none)) s →
    (s.phase = .done ∧ ∀ i, s.solver i = .stopped) ∨ ∃ s', Step id 1000 s s' := by
  intro h
  have hdealt : ¬ Dealt 2 (List.replicate (2 ^ 64 - 2) (List.replicate 81 (48 : UInt8))).length := by
    rw [List.length_replicate, dealt_iff]
    decide
  obtain ⟨s, hrun, ⟨i, hi⟩, hstuck⟩ := exists_deadlock id 1000 1000 (List.replicate (bufSize 1000) 0) hdealt
  rcases h s hrun with ⟨-, hstopped⟩ | ⟨s', hstep⟩
  · exact hi (hstopped i)
  · exact hstuck s' hstep

end Core

end CloudLabs.Sudoku
