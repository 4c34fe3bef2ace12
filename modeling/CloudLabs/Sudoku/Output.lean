import CloudLabs.Sudoku.Pipeline

/-!
# What the printer prints

`answerPrinter` collects the solutions in a buffer of `BATCH_NUMBER` lines, overwrites the last
newline with a NUL, and prints the buffer when it is full and once more at the end. `Printer.Shows`
says that what was printed and what the buffer holds make up a given text; every result adds its
line to the text, wherever the buffer ends. It needs the buffer to have the size of its lines, which
an `int` must hold (`82 * batch < 2 ^ 31`).
-/

set_option autoImplicit false

namespace CloudLabs.Sudoku

open CloudLabs.Foundation

/-- A solution as the printer gets it: 81 bytes without a NUL. -/
structure Printable (r : Bytes) : Prop where
  length : r.length = 81
  noNul : 0 ∉ r

theorem putLine_append {a : Bytes} (h : 0 ∉ a) (b : Bytes) : putLine (a ++ 0 :: b) = a ++ [10] := by
  rw [putLine, takeWhile_noNul h]

/-- A solution copied into the buffer, with its newline. -/
theorem line_copied {buf r : Bytes} {pos : Nat} (hr : Printable r) (hroom : pos + 82 ≤ buf.length) :
    (strncpy buf pos r 81).set (pos + 81) 10 = buf.take pos ++ (r ++ [10]) ++ buf.drop (pos + 82) := by
  have hcopy : strncpy buf pos r 81 = buf.take pos ++ r ++ buf.drop (pos + 81) := by
    have hall : r.take 81 = r := List.take_of_length_le (by rw [hr.length])
    rw [strncpy, takeWhile_eq_self hr.noNul, hall, hr.length]
    simp
  have hlen : (buf.take pos ++ r).length = pos + 81 := by
    rw [List.length_append, List.length_take, hr.length]
    omega
  obtain ⟨c, hdrop⟩ : ∃ c, buf.drop (pos + 81) = c :: buf.drop (pos + 82) :=
    ⟨_, List.drop_eq_getElem_cons (by omega)⟩
  rw [hcopy, hdrop, List.set_append_right _ _ hlen.le, hlen, Nat.sub_self, List.set_cons_zero]
  simp

/-- What was printed and the lines in the buffer make up `text`. -/
structure Printer.Shows (pr : Printer) (batch : Nat) (text : Bytes) : Prop where
  size : pr.resultBuf.length = batch * 82
  inside : pr.inside = true
  lines : 82 ∣ pr.pos
  room : pr.pos < batch * 82
  noNul : 0 ∉ pr.resultBuf.take pr.pos
  newline : pr.pos ≠ 0 → ∃ front, pr.resultBuf.take pr.pos = front ++ [10]
  text : pr.out ++ pr.resultBuf.take pr.pos = text

theorem Printer.Shows.start {batch : Nat} (hbatch : 1 ≤ batch) (hint : 82 * batch < 2 ^ 31)
    {garbage : Bytes} (hsize : garbage.length = bufSize batch) :
    (Printer.start garbage).Shows batch [] where
  size := hsize.trans (bufSize_of_lt hint)
  inside := rfl
  lines := dvd_zero 82
  room := by
    show 0 < batch * 82
    omega
  noNul := List.not_mem_nil
  newline := fun h => absurd rfl h
  text := rfl

section Lines

variable {pr : Printer} {batch : Nat} {text r : Bytes}

/-- The branch for a result, where an `int` holds the size of the buffer. -/
theorem Printer.Shows.result_eq (h : pr.Shows batch text) (hint : 82 * batch < 2 ^ 31)
    (hr : Printable r) : pr.result batch r =
      let buf := pr.resultBuf.take pr.pos ++ (r ++ [10]) ++ pr.resultBuf.drop (pr.pos + 82)
      if pr.pos + 82 ≥ batch * 82 then
        let full := buf.set (batch * 82 - 1) 0
        { pr with resultBuf := full, out := pr.out ++ putLine full, pos := 0 }
      else { pr with resultBuf := buf, pos := pr.pos + 82 } := by
  obtain ⟨k, hk⟩ := h.lines
  have hroom := h.room
  have hfits : pr.pos + 82 ≤ pr.resultBuf.length := by
    rw [h.size]
    omega
  have hall : (strncpy pr.resultBuf pr.pos r 81).set (pr.pos + 81) 10 =
      ((strncpy pr.resultBuf pr.pos r 81).set (pr.pos + 81) 10).take pr.resultBuf.length := by
    apply (List.take_of_length_le _).symm
    rw [line_copied hr hfits]
    simp only [List.length_append, List.length_take, List.length_drop, hr.length,
      List.length_singleton]
    omega
  have hinside : (pr.inside && decide (pr.pos + 82 ≤ pr.resultBuf.length)) = pr.inside := by
    rw [decide_eq_true hfits, Bool.and_true]
  have hpos : sizeT (pr.pos + 82) = pr.pos + 82 := sizeT_of_lt (by omega)
  have hpred : sizeT (batch * 82 + (2 ^ 64 - 1)) = batch * 82 - 1 := sizeT_pred (by omega) (by omega)
  rw [Printer.result, bufSize_of_lt hint, ← hall, hinside, hpos, hpred, line_copied hr hfits]

theorem Printer.Shows.result (h : pr.Shows batch text) (hint : 82 * batch < 2 ^ 31)
    (hr : Printable r) : (pr.result batch r).Shows batch (text ++ (r ++ [10])) := by
  obtain ⟨k, hk⟩ := h.lines
  have hroom := h.room
  have hpos : (pr.resultBuf.take pr.pos).length = pr.pos := by
    rw [List.length_take, h.size]
    omega
  rw [h.result_eq hint hr]
  by_cases hfull : pr.pos + 82 ≥ batch * 82
  · -- The line fills the buffer; its newline gives way to the NUL that `printf` stops at.
    have hend : batch * 82 - 1 = (pr.resultBuf.take pr.pos ++ r).length := by
      rw [List.length_append, hpos, hr.length]
      omega
    have hrest : pr.resultBuf.drop (pr.pos + 82) = [] :=
      List.drop_eq_nil_of_le (by rw [h.size]; omega)
    have hset : (pr.resultBuf.take pr.pos ++ (r ++ [10])).set (batch * 82 - 1) 0 =
        (pr.resultBuf.take pr.pos ++ r) ++ 0 :: [] := by
      rw [← List.append_assoc, hend, List.set_append_right _ _ (Nat.le_refl _), Nat.sub_self]
      rfl
    have hnoNul : 0 ∉ pr.resultBuf.take pr.pos ++ r := by
      rw [List.mem_append, not_or]
      exact ⟨h.noNul, hr.noNul⟩
    dsimp only
    rw [if_pos hfull, hrest, List.append_nil, hset, putLine_append hnoNul]
    constructor
    · show ((pr.resultBuf.take pr.pos ++ r) ++ 0 :: []).length = batch * 82
      rw [List.length_append, ← hend, List.length_singleton]
      omega
    · exact h.inside
    · exact dvd_zero 82
    · show 0 < batch * 82
      omega
    · simp
    · intro hc
      exact absurd rfl hc
    · rw [← h.text]
      simp
  · -- the buffer keeps the line, and has room for another one
    have htake : (pr.resultBuf.take pr.pos ++ (r ++ [10]) ++ pr.resultBuf.drop (pr.pos + 82)).take
        (pr.pos + 82) = pr.resultBuf.take pr.pos ++ (r ++ [10]) := by
      apply List.take_left'
      rw [List.length_append, hpos, List.length_append, hr.length]
      rfl
    dsimp only
    rw [if_neg hfull]
    constructor
    · show (pr.resultBuf.take pr.pos ++ (r ++ [10]) ++ pr.resultBuf.drop (pr.pos + 82)).length = _
      rw [List.length_append, List.length_append, hpos, List.length_append, hr.length,
        List.length_drop, h.size, List.length_singleton]
      omega
    · exact h.inside
    · exact (Nat.dvd_add_right h.lines).mpr (dvd_refl 82)
    · show pr.pos + 82 < batch * 82
      omega
    · dsimp only
      rw [htake]
      simp only [List.mem_append, not_or]
      exact ⟨h.noNul, hr.noNul, by decide⟩
    · intro _
      dsimp only
      rw [htake, ← List.append_assoc]
      exact ⟨_, rfl⟩
    · dsimp only
      rw [htake, ← h.text, List.append_assoc]

theorem Printer.rest_inside (pr : Printer) : pr.rest.inside = pr.inside := by
  unfold Printer.rest
  split <;> rfl

/-- The last lines of the buffer are printed at the end. -/
theorem Printer.Shows.rest (h : pr.Shows batch text) : pr.rest.out = text := by
  unfold Printer.rest
  by_cases hpos : pr.pos ≠ 0
  · obtain ⟨front, hfront⟩ := h.newline hpos
    have hroom := h.room
    have hlen : front.length = pr.pos - 1 := by
      have hlen := congrArg List.length hfront
      rw [List.length_take, h.size, List.length_append, List.length_singleton] at hlen
      omega
    have hnoNul : 0 ∉ front := by
      have hall := h.noNul
      rw [hfront, List.mem_append, not_or] at hall
      exact hall.1
    -- the last newline gives way to the NUL that ends the text for `printf`
    have hset : pr.resultBuf.set (pr.pos - 1) 0 = front ++ 0 :: pr.resultBuf.drop pr.pos := by
      conv_lhs => rw [← List.take_append_drop pr.pos pr.resultBuf, hfront]
      rw [← hlen, List.append_assoc, List.set_append_right _ _ (Nat.le_refl _), Nat.sub_self]
      rfl
    rw [if_pos hpos]
    dsimp only
    rw [hset, putLine_append hnoNul, ← hfront]
    exact h.text
  · rw [if_neg hpos]
    have hzero : pr.pos = 0 := by simpa using hpos
    have htext := h.text
    rw [hzero, List.take_zero, List.append_nil] at htext
    exact htext

end Lines

/-! ## The output of a run -/

/-- The text for a list of results. -/
def text (items : List Item) : Bytes :=
  items.flatMap fun x => match x with
    | some r => r ++ [10]
    | none => []

/-- The printer when it has processed the given items. -/
def Printer.run (batch : Nat) (garbage : Bytes) (items : List Item) : Printer :=
  items.foldl (fun pr x => pr.process batch x) (.start garbage)

theorem Printer.run_concat (batch : Nat) (garbage : Bytes) (items : List Item) (x : Item) :
    Printer.run batch garbage (items ++ [x]) = (Printer.run batch garbage items).process batch x :=
  List.foldl_concat ..

/-- The printer shows the text of what it has processed, where an `int` holds the size of its
buffer. -/
theorem Printer.run_shows {batch : Nat} (hbatch : 1 ≤ batch) (hint : 82 * batch < 2 ^ 31)
    {garbage : Bytes} (hsize : garbage.length = bufSize batch) {items : List Item}
    (hitems : ∀ r, some r ∈ items → Printable r) :
    (Printer.run batch garbage items).Shows batch (text items) := by
  induction items using List.reverseRecOn with
  | nil => exact .start hbatch hint hsize
  | append_singleton items x ih =>
    have hshows := ih fun r hr => hitems r (List.mem_append_left _ hr)
    rw [Printer.run_concat, text, List.flatMap_append, List.flatMap_singleton]
    cases x with
    | none =>
      rw [List.append_nil]
      exact ⟨hshows.size, hshows.inside, hshows.lines, hshows.room, hshows.noNul, hshows.newline,
        hshows.text⟩
    | some r => exact hshows.result hint (hitems r (by simp))

namespace Core

variable {n : Nat} {solve : Bytes → Bytes} {batch cap : Nat} {garbage : Bytes} {s s' : Core n}

/-- The printer is where the items that it has processed bring it. -/
structure Replays (batch : Nat) (garbage : Bytes) (s : Core n) : Prop where
  running : s.phase ≠ .done → s.printer = Printer.run batch garbage s.printed
  finished : s.phase = .done → s.printer = (Printer.run batch garbage s.printed).rest

theorem Replays.start (batch cap : Nat) (garbage : Bytes) (todo : List Item) :
    (start n cap garbage todo).Replays batch garbage :=
  ⟨fun _ => rfl, fun hc => by cases hc⟩

theorem Replays.step (h : s.Replays batch garbage) (hstep : Step solve batch s s') :
    s'.Replays batch garbage := by
  cases hstep with
  | call => exact ⟨h.running, h.finished⟩
  | write => exact ⟨h.running, h.finished⟩
  | written => exact ⟨h.running, h.finished⟩
  | get => exact ⟨h.running, h.finished⟩
  | solve => exact ⟨h.running, h.finished⟩
  | put => exact ⟨h.running, h.finished⟩
  | again => exact ⟨h.running, h.finished⟩
  | stop => exact ⟨h.running, h.finished⟩
  -- from here on it is the printer that moves
  | turn hp =>
    have hprinter := h.running (by rw [hp]; intro hc; cases hc)
    exact ⟨fun _ => hprinter, fun hc => by cases hc⟩
  | read t t' q hp =>
    have hprinter := h.running (by rw [hp]; intro hc; cases hc)
    exact ⟨fun _ => hprinter, fun hc => by cases hc⟩
  | process x hp =>
    have hprinter := h.running (by rw [hp]; intro hc; cases hc)
    refine ⟨fun _ => ?_, fun hc => by cases hc⟩
    rw [Printer.run_concat, ← hprinter]
  | finish x hp =>
    have hprinter := h.running (by rw [hp]; intro hc; cases hc)
    refine ⟨fun hc => absurd rfl hc, fun _ => ?_⟩
    rw [Printer.run_concat, ← hprinter]

/-- What was printed, and that all of it was written inside the buffer. -/
theorem Replays.output (h : s.Replays batch garbage) (hbatch : 1 ≤ batch)
    (hint : 82 * batch < 2 ^ 31) (hsize : garbage.length = bufSize batch)
    (hprintable : ∀ r, some r ∈ s.printed → Printable r) :
    s.printer.inside = true ∧ (s.phase = .done → s.printer.out = text s.printed) := by
  have hshows := Printer.run_shows hbatch hint hsize hprintable
  constructor
  · by_cases hdone : s.phase = .done
    · rw [h.finished hdone, Printer.rest_inside, hshows.inside]
    · rw [h.running hdone, hshows.inside]
  · intro hdone
    rw [h.finished hdone, hshows.rest]

end Core

end CloudLabs.Sudoku
