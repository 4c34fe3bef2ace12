import CloudLabs.Sudoku.FileReader
import CloudLabs.Sudoku.Solver
import CloudLabs.Sudoku.Termination

/-!
# The answers of the pipeline

The threads with `solver` in `solveManager`: the solutions come out in the order of the files and
lines, as long as an `int` holds the size of the output buffer (`answers_in_order`). From
`BATCH_NUMBER` 26188825 on it does not. The product that wraps around is the size of a block in which
a batch has no room, and the output is cut off (`not_in_order_wrapped`).

`program_prints_answers` puts the reader of the files in front.
-/

set_option autoImplicit false

namespace CloudLabs.Sudoku

open CloudLabs.Foundation

variable {ν : Type} {n : Nat}

/-- The buffer of a problem after `solver`. -/
def solved (fuel : Nat) (problem : Bytes) : Bytes := (solver fuel problem).getD problem

theorem Digits.printable {problem : Bytes} (h : Digits problem) : Printable problem where
  length := h.length
  noNul := by
    intro hmem
    have hdigit := h.digit 0 hmem
    simp at hdigit

/-- The solver answers a problem of 81 digits with 81 digits. -/
theorem Digits.solved {fuel : Nat} (hfuel : kMaxNodes ≤ fuel) {problem : Bytes}
    (h : Digits problem) :
    solver fuel problem = some (solved fuel problem) ∧ Digits (solved fuel problem) := by
  obtain ⟨answer, hrun, hdigits, -⟩ := solver_complete fuel hfuel problem h
  rw [Sudoku.solved, hrun, Option.getD_some]
  exact ⟨rfl, hdigits⟩

/-- What is expected of a state: every problem is answered; the end markers come after the last file;
and when the printer has ended, the output has the answers in the order of the files and lines, every
solver has got its problems and then one end marker, and all queues are empty. -/
structure InOrder (fuel : Nat) (lines : ν → List Bytes) (cin : List ν) (s : Pipeline n ν) : Prop where
  answered : ∀ f ∈ cin, ∀ p ∈ lines f, solver fuel p = some (solved fuel p)
  markers : none ∈ s.core.sent → s.consumed = cin
  output : s.core.phase = .done →
    s.core.printer.out = (cin.flatMap lines).flatMap fun p => solved fuel p ++ [10]
  received : s.core.phase = .done →
    ∀ q, s.core.received q = (lane (deal n) q 1 (cin.flatMap lines)).map some ++ [none]
  queues : s.core.phase = .done → s.filenameBuffer = [] ∧
    ∀ q, (s.core.problemBuffer q).items = [] ∧ (s.core.resultBuffer q).items = []

/-- With a batch whose buffer has a size that an `int` holds, every state of every run is as expected,
and the printer writes inside its buffer. -/
theorem answers_in_order {fuel batch cap : Nat} (hfuel : kMaxNodes ≤ fuel) (hbatch : 1 ≤ batch)
    (hint : 82 * batch < 2 ^ 31) {garbage : Bytes} (hsize : garbage.length = bufSize batch)
    {lines : ν → List Bytes} {cin : List ν} (hlines : ∀ f ∈ cin, ∀ p ∈ lines f, Digits p)
    {s : Pipeline n ν} (h : Pipeline.Reachable lines (solved fuel) batch cap garbage cin s) :
    InOrder fuel lines cin s ∧ s.core.printer.inside = true := by
  have hinv := h.inv
  obtain ⟨hinside, hout⟩ := h.output hbatch hint hsize fun f hf p hp =>
    ((hlines f hf p hp).solved hfuel).2.printable
  refine ⟨?_, hinside⟩
  constructor
  · exact fun f hf p hp => ((hlines f hf p hp).solved hfuel).1
  · exact fun hmarker => (hinv.all_consumed (List.mem_append_left _ hmarker)).2
  · exact hout
  · exact fun hdone q => ((hinv.result hdone).2 q).1
  · exact fun hdone => ⟨(hinv.result hdone).1, fun q => ((hinv.result hdone).2 q).2⟩

theorem digits_replicate {b : UInt8} (h : 48 ≤ b.toNat ∧ b.toNat ≤ 57) :
    Digits (List.replicate 81 b) where
  length := List.length_replicate
  digit := by
    intro c hc
    rwa [List.eq_of_mem_replicate hc]

/-- Two solvers, and two files of two problems and of one with batches of two: a run to the end, at
which the last answer was still in the buffer. -/
theorem answers_in_order_two :
    let lines : Bool → List Bytes := fun f => if f then [List.replicate 81 49, List.replicate 81 48]
      else [List.replicate 81 50]
    ∃ s : Pipeline 1 Bool,
      Pipeline.Reachable lines (solved kMaxNodes) 2 1000 (List.replicate 164 0) [true, false] s ∧
      s.core.phase = .done ∧
      s.core.printer.out = solved kMaxNodes (List.replicate 81 49) ++ [10] ++
        (solved kMaxNodes (List.replicate 81 48) ++ [10] ++
          (solved kMaxNodes (List.replicate 81 50) ++ [10])) ∧
      s.core.received 0 = [some (List.replicate 81 48), none] ∧
      s.core.received 1 = [some (List.replicate 81 49), some (List.replicate 81 50), none] := by
  intro lines
  obtain ⟨s, hs, hfinished⟩ := Pipeline.exists_finished (n := 1) lines (solved kMaxNodes) 2 1000
    (List.replicate 164 0) [true, false] (by decide) (Dealt.of_lt (by decide))
  have hlines : ∀ f ∈ [true, false], ∀ p ∈ lines f, Digits p := by
    intro f _ p hp
    cases f with
    | true =>
      rcases List.mem_pair.mp hp with rfl | rfl
      · exact digits_replicate (by decide)
      · exact digits_replicate (by decide)
    | false =>
      rw [List.mem_singleton.mp hp]
      exact digits_replicate (by decide)
  obtain ⟨horder, -⟩ := answers_in_order le_rfl (by decide) (by decide) List.length_replicate hlines hs
  refine ⟨s, hs, hfinished.printer, ?_, ?_, ?_⟩
  · rw [horder.output hfinished.printer]
    simp [lines]
  · exact horder.received hfinished.printer 0
  · exact horder.received hfinished.printer 1

theorem length_putLine_le (buf : Bytes) : (putLine buf).length ≤ buf.length + 1 := by
  rw [putLine, List.length_append, List.length_singleton]
  exact Nat.succ_le_succ (List.takeWhile_sublist _).length_le

/-- A result behind which there is room in the buffer is not printed yet. -/
theorem Printer.result_room {pr : Printer} {batch : Nat} (h : sizeT (pr.pos + 82) < bufSize batch)
    (r : Bytes) : (pr.result batch r).pos = sizeT (pr.pos + 82) ∧
      (pr.result batch r).out = pr.out ∧
      (pr.result batch r).resultBuf.length ≤ pr.resultBuf.length := by
  unfold Printer.result
  dsimp only
  rw [if_neg (Nat.not_le.mpr h)]
  exact ⟨rfl, rfl, List.length_take_le ..⟩

/-- With a result that fills it, the buffer is printed, and nothing else. -/
theorem Printer.result_full {pr : Printer} {batch : Nat} (h : bufSize batch ≤ sizeT (pr.pos + 82))
    (r : Bytes) : (pr.result batch r).pos = 0 ∧
      (pr.result batch r).out.length ≤ pr.out.length + (pr.resultBuf.length + 1) := by
  have hbuf := List.length_take_le pr.resultBuf.length
    ((strncpy pr.resultBuf pr.pos r 81).set (pr.pos + 81) 10)
  have hline := length_putLine_le
    ((((strncpy pr.resultBuf pr.pos r 81).set (pr.pos + 81) 10).take pr.resultBuf.length).set
      (sizeT (bufSize batch + (2 ^ 64 - 1))) 0)
  unfold Printer.result
  dsimp only
  rw [if_pos h]
  refine ⟨rfl, ?_⟩
  simp only [List.length_append, List.length_set] at hline ⊢
  omega

/-- Of two answers, the second of which has no room in the buffer, no more than the buffer is
printed. -/
theorem Printer.length_run_le {batch : Nat} (hroom : 82 < bufSize batch)
    (hfull : bufSize batch ≤ 164) (garbage a b : Bytes) :
    (Printer.run batch garbage [some a, some b, none]).rest.out.length ≤ garbage.length + 1 := by
  have hone : sizeT ((Printer.start garbage).pos + 82) = 82 := rfl
  obtain ⟨hpos, hout, hbuf⟩ := Printer.result_room (hone.symm ▸ hroom) a
  rw [hone] at hpos
  have htwo : sizeT (((Printer.start garbage).result batch a).pos + 82) = 164 := by
    rw [hpos]
    rfl
  obtain ⟨hzero, hlen⟩ := Printer.result_full (htwo.symm ▸ hfull) b
  have hrun : (Printer.run batch garbage [some a, some b, none]).rest.out =
      (((Printer.start garbage).result batch a).result batch b).out := by
    have hpos : (Printer.run batch garbage [some a, some b, none]).pos = 0 := hzero
    rw [Printer.rest, if_neg (Decidable.not_not.mpr hpos)]
    rfl
  have hnone : (Printer.start garbage).out.length = 0 := rfl
  have hblock : (Printer.start garbage).resultBuf.length = garbage.length := rfl
  rw [hout, hnone] at hlen
  rw [hrun]
  omega

/-- The length of the answers to two files of the same problem. -/
theorem length_answers_two {solve : Bytes → Bytes} {p : Bytes} (h : (solve p).length = 81) :
    (([(), ()].flatMap fun _ => [p]).flatMap fun p => solve p ++ [10]).length = 164 := by
  simp [h]

/-- Two files of one problem, with batches of 52377651 lines: the product is 86 as an `int`, and only
the first answer fits into the buffer. -/
theorem not_in_order_wrapped :
    ¬ ∀ s : Pipeline 0 Unit,
      Pipeline.Reachable (fun _ => [List.replicate 81 49]) (solved kMaxNodes) 52377651 1000
        (List.replicate (bufSize 52377651) 0) [(), ()] s →
      InOrder kMaxNodes (fun _ => [List.replicate 81 49]) [(), ()] s := by
  intro h
  obtain ⟨s, hs, hfinished⟩ := Pipeline.exists_finished (n := 0)
    (fun _ : Unit => [List.replicate 81 49]) (solved kMaxNodes) 52377651 1000
    (List.replicate (bufSize 52377651) 0) [(), ()] (by decide) (Dealt.of_lt (by decide))
  have hanswer := ((digits_replicate (b := 49) (by decide)).solved (le_refl kMaxNodes)).2.length
  have hitems : s.core.printed = [some (solved kMaxNodes (List.replicate 81 49)),
      some (solved kMaxNodes (List.replicate 81 49)), none] :=
    hs.inv.printed_eq hfinished.printer
  have hbuf : bufSize 52377651 = 86 := by decide
  have hroom : 82 < bufSize 52377651 ∧ bufSize 52377651 ≤ 164 := by
    rw [hbuf]
    decide
  have hshort := Printer.length_run_le hroom.1 hroom.2 (List.replicate (bufSize 52377651) 0)
    (solved kMaxNodes (List.replicate 81 49)) (solved kMaxNodes (List.replicate 81 49))
  -- at most 87 bytes are printed, where there should be 164
  rw [← hitems, ← hs.replays.finished hfinished.printer, (h s hs).output hfinished.printer,
    length_answers_two hanswer, List.length_replicate, hbuf] at hshort
  exact absurd hshort (by decide)

/-! ## Files in, answers out -/

/-- The answer to a puzzle: a completion, or the puzzle itself if it has none. -/
structure Answers (problem answer : Bytes) : Prop where
  digits : Digits answer
  solves : (∃ full, Completes (boardOf problem) full) →
    Completes (boardOf problem) (boardOf answer)
  keeps : (¬ ∃ full, Completes (boardOf problem) full) → answer = problem

theorem PuzzleLine.digit {line : Bytes} (h : PuzzleLine line) : Digits line where
  length := h.length
  digit := by
    intro b hb
    have hdigit := h.digits b hb
    rw [isDigit, Bool.and_eq_true, decide_eq_true_eq, decide_eq_true_eq] at hdigit
    exact hdigit

theorem answers_solved {fuel : Nat} (hfuel : kMaxNodes ≤ fuel) {problem : Bytes}
    (hproblem : Digits problem) : Answers problem (solved fuel problem) := by
  obtain ⟨inout, hrun, hyes, hno⟩ := solver_board hfuel hproblem
  have hle : ∀ i < 81, inout i ≤ 9 := by
    intro i hi
    by_cases hex : ∃ full, Completes (boardOf problem) full
    · exact ((hyes hex).digit i hi).2
    · rw [hno hex]
      exact hproblem.boardOf_le i hi
  rw [solved, hrun, Option.getD_some]
  refine ⟨digitsOf_digits hle, ?_, ?_⟩
  · intro hex
    exact (hyes hex).congr fun i hi => boardOf_digitsOf hle hi
  · intro hex
    rw [hno hex]
    exact digitsOf_boardOf hproblem

/-- A file of puzzles. Its last newline may be missing where its last line is not alone in a
batch. -/
structure PuzzleFile (batch : Nat) (file : FileBytes) (puzzles : List Bytes) : Prop where
  nonempty : puzzles ≠ []
  line : ∀ p ∈ puzzles, PuzzleLine p
  text : file.bytes = fileText puzzles true ∨
    (file.bytes = fileText puzzles false ∧ ¬ batch ∣ puzzles.length - 1)

/-- The reader gets the puzzles of a file, whatever its buffers hold before. -/
theorem PuzzleFile.read {batch : Nat} {file : FileBytes} {puzzles : List Bytes}
    (h : PuzzleFile batch file puzzles) (hbatch : 1 ≤ batch) (hint : 82 * batch < 2 ^ 31)
    (heap lineBuf : Bytes) :
    ∃ fuel r, problemRead (some file) batch heap fuel lineBuf = .ok r ∧ r.problems = puzzles := by
  obtain ⟨ended, htext, hwhole⟩ : ∃ ended, file.bytes = fileText puzzles ended ∧
      (ended = true ∨ ¬ batch ∣ puzzles.length - 1) := by
    rcases h.text with htext | ⟨htext, hbatch⟩
    · exact ⟨true, htext, .inl rfl⟩
    · exact ⟨false, htext, .inr hbatch⟩
  have hcount := (linesRead_fileText hbatch h.nonempty h.line).mpr hwhole
  have hpos : 0 < file.bytes.length := by
    have hlines := List.length_pos_of_ne_nil h.nonempty
    rw [htext, length_fileText h.line]
    split <;> omega
  rcases problemRead_spec heap hbatch hint hpos (file.bytes.length / (82 * batch) + 1) lineBuf with
    ⟨-, hfuel⟩ | ⟨r, hok, hr⟩
  · omega
  · rw [htext, hcount] at hr
    exact ⟨_, r, hok, passed_lines h.line htext hr⟩

/-- **The program prints the answers.** The standard input names files of puzzles, none of them empty;
an `int` holds the size of a batch, and a `size_t` the number of all puzzles and solvers. Then the
reader gets the puzzles of each file; whatever the number of solvers, the capacity of the queues and the
order of the threads' steps, some thread can go on until all have come to the ends of their functions; a
run that is fair to `filenameReadThread` comes there; and then the output has, line by line and in the
order of the files, a completion of each puzzle, or the puzzle itself if it has none. -/
theorem program_prints_answers {ν : Type} {n fuel batch cap : Nat} (hfuel : kMaxNodes ≤ fuel)
    (hbatch : 1 ≤ batch) (hint : 82 * batch < 2 ^ 31) (hcap : 1 ≤ cap) {garbage : Bytes}
    (hsize : garbage.length = bufSize batch) {files : ν → FileBytes} {puzzles : ν → List Bytes}
    {cin : List ν} (hfiles : ∀ f ∈ cin, PuzzleFile batch (files f) (puzzles f))
    (hcount : (cin.flatMap puzzles).length + (n + 1) < 2 ^ 64) :
    (∀ f ∈ cin, ∀ heap lineBuf, ∃ fuel r,
      problemRead (some (files f)) batch heap fuel lineBuf = .ok r ∧ r.problems = puzzles f) ∧
    (∀ s : Pipeline n ν, Pipeline.Reachable puzzles (solved fuel) batch cap garbage cin s →
      (s.Finished ∨ ∃ s', Pipeline.Step puzzles (solved fuel) batch s s') ∧
      (s.Finished → ∃ answers, List.Forall₂ Answers (cin.flatMap puzzles) answers ∧
        s.core.printer.out = answers.flatMap (· ++ [10]))) ∧
    ∀ run : Nat → Pipeline n ν, run 0 = Pipeline.start n cap garbage cin →
      (∀ k, Pipeline.Step puzzles (solved fuel) batch (run k) (run (k + 1))) →
      ¬ StronglyFair (Pipeline.NameStep puzzles (solved fuel) batch) run := by
  have hanswers : ∀ f ∈ cin, ∀ p ∈ puzzles f, Answers p (solved fuel p) := fun f hf p hp =>
    answers_solved hfuel ((hfiles f hf).line p hp).digit
  have hsolve : ∀ f ∈ cin, ∀ p ∈ puzzles f, Printable (solved fuel p) := fun f hf p hp =>
    (hanswers f hf p hp).digits.printable
  obtain ⟨hprogress, hfair⟩ := Pipeline.ends_if_fair hcap (Dealt.of_lt hcount)
  refine ⟨fun f hf heap lineBuf => (hfiles f hf).read hbatch hint heap lineBuf, ?_, hfair⟩
  intro s hs
  refine ⟨hprogress s hs, fun hfinished => ?_⟩
  refine ⟨(cin.flatMap puzzles).map (solved fuel), ?_, ?_⟩
  · rw [List.forall₂_map_right_iff, List.forall₂_same]
    intro p hp
    obtain ⟨f, hf, hpf⟩ := List.mem_flatMap.mp hp
    exact hanswers f hf p hpf
  · rw [(hs.output hbatch hint hsize hsolve).2 hfinished.printer, List.flatMap_map]

/-- Three solvers and batches of two, with a file of one puzzle and one of two puzzles that has no
newline at its end. -/
theorem program_prints_answers_two :
    let ones : Bytes := List.replicate 81 49
    let puzzles : Bool → List Bytes := fun f => if f then [ones] else [ones, ones]
    (∃ file : FileBytes, file.bytes = fileText [ones, ones] false ∧ ∀ lineBuf, ∃ fuel r,
      problemRead (some file) 2 [] fuel lineBuf = .ok r ∧ r.problems = [ones, ones]) ∧
    ∃ s : Pipeline 2 Bool, Pipeline.Reachable puzzles (solved kMaxNodes) 2 1000
        (List.replicate 164 0) [true, false] s ∧
      ∃ answers, List.Forall₂ Answers [ones, ones, ones] answers ∧
        s.core.printer.out = answers.flatMap (· ++ [10]) := by
  intro ones puzzles
  have hpuzzles : ∀ f, ∀ p ∈ puzzles f, PuzzleLine p := by
    intro f p hp
    have hones : p = ones := by
      cases f with
      | true => exact List.mem_singleton.mp hp
      | false => exact (List.mem_pair.mp hp).elim id id
    rw [hones]
    exact puzzleLine_ones
  have hsmall : ∀ f, (fileText (puzzles f) f).length < 2 ^ 63 := by
    intro f
    rw [length_fileText (hpuzzles f)]
    cases f <;> decide
  let files : Bool → FileBytes := fun f => ⟨fileText (puzzles f) f, hsmall f⟩
  have hfiles : ∀ f ∈ [true, false], PuzzleFile 2 (files f) (puzzles f) := by
    intro f _
    cases f with
    | true => exact ⟨List.cons_ne_nil _ _, hpuzzles true, .inl rfl⟩
    | false => exact ⟨List.cons_ne_nil _ _, hpuzzles false, .inr ⟨rfl, by decide⟩⟩
  obtain ⟨hread, hstate, -⟩ := program_prints_answers (n := 2) (le_refl kMaxNodes) (by decide)
    (by decide) (by decide : 1 ≤ 1000) (List.length_replicate (n := 164) (a := 0)) hfiles
    (by decide)
  obtain ⟨s, hs, hfinished⟩ := Pipeline.exists_finished (n := 2) puzzles (solved kMaxNodes) 2 1000
    (List.replicate 164 0) [true, false] (by decide) (Dealt.of_lt (by decide))
  exact ⟨⟨files false, rfl, hread false (by decide) []⟩, s, hs, (hstate s hs).2 hfinished⟩

end CloudLabs.Sudoku
