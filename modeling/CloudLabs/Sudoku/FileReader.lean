import Mathlib.Data.List.TakeWhile
import CloudLabs.Foundation.Decimal
import CloudLabs.Sudoku.Output

/-!
# Reading a file

The part of `problemReadThread` for one file: a loop that reads batches of `BATCH_NUMBER` lines of
82 bytes into `lineBuf`, and a last read for the rest. `size_t` arithmetic is modulo `2 ^ 64`, and
`82 * BATCH_NUMBER` is an `int`.

`problemRead_spec` says which lines of the file are passed to `problemWriter`. It holds for every
file that is not empty; on an empty one, and on one that could not be opened, the bound of the loop
wraps around (`problemRead_empty`).
-/

set_option autoImplicit false

namespace CloudLabs.Sudoku

open CloudLabs.Foundation

/-- What a file holds; its size is a `file_offset`. -/
structure FileBytes where
  bytes : Bytes
  length_lt : bytes.length < 2 ^ 63

/-- Why the reader of a file does not get to its end. -/
inductive ReadFault where
  /-- `82 * BATCH_NUMBER` is no value of an `int`. -/
  | overflow
  /-- `readAt` follows a null pointer. -/
  | null
  /-- The loop has reached the bound on its number of rounds. -/
  | bound
  deriving DecidableEq

/-- `fileOp::getSize` of a file that was opened, or was not. -/
def getSize (file : Option FileBytes) : Nat := file.elim 0 fun f => f.bytes.length

/-- `fileOp::readAt`: the buffer with the bytes that are present, and their number; `none` if the
file is not open. -/
def readAt (file : Option FileBytes) (offset size : Nat) (buffer : Bytes) : Option (Bytes × Nat) :=
  file.map fun f =>
    let data := (f.bytes.drop offset).take size
    (data ++ buffer.drop data.length, data.length)

/-- The string in the array `singleLine`, which `malloc` gives with the content `heap`. -/
def singleLine (heap lineBuf : Bytes) (i : Nat) : Bytes :=
  ((strncpy heap 0 (lineBuf.drop (i * 82)) 81).set 81 0).takeWhile (· ≠ 0)

/-- The strings that a loop over the first lines of `lineBuf` passes to `problemWriter`. -/
def copyLines (heap lineBuf : Bytes) (count : Nat) : List Bytes :=
  (List.range count).map (singleLine heap lineBuf)

/-- The local variables of `problemReadThread`, with the strings it has passed to `problemWriter`
and the offsets and sizes of its reads. -/
structure Reading where
  pos : Nat
  lineBuf : Bytes
  problems : List Bytes
  reads : List (Nat × Nat)

section Program

variable (file : Option FileBytes) (BATCH_NUMBER : Nat) (heap : Bytes)

/-- The loop over the batches. -/
def batchLoop (lastSize : Nat) : Nat → Reading → Except ReadFault Reading
  | 0, _ => .error .bound
  | fuel + 1, r =>
      -- `pos + readBlockSize - 1`, in a `size_t`
      if sizeT (r.pos + 82 * BATCH_NUMBER + (2 ^ 64 - 1)) ≤ lastSize then
        match readAt file r.pos (82 * BATCH_NUMBER - 1) r.lineBuf with
        | none => .error .null
        | some (lineBuf, _) =>
            batchLoop lastSize fuel
              { pos := sizeT (r.pos + 82 * BATCH_NUMBER)
                lineBuf := lineBuf
                problems := r.problems ++ copyLines heap lineBuf BATCH_NUMBER
                reads := r.reads ++ [(r.pos, 82 * BATCH_NUMBER - 1)] }
      else .ok r

/-- The part behind the loop; `readSize` stays `0` if nothing can be read. -/
def problemReadTail (lastSize : Nat) (r : Reading) : Reading :=
  let rest := sizeT (lastSize - r.pos + 1)
  let len := if r.pos ≤ lastSize then rest / 82 * 82 else 0
  if len ≠ 0 then
    let data := (readAt file r.pos rest r.lineBuf).getD (r.lineBuf, 0)
    let readSize := (data.2 + 1) / 82
    { r with
      lineBuf := data.1
      problems := r.problems ++ copyLines heap data.1 readSize
      reads := r.reads ++ [(r.pos, rest)] }
  else r

/-- The part of `problemReadThread` for one file. -/
def problemRead (fuel : Nat) (lineBuf : Bytes) : Except ReadFault Reading :=
  if 2 ^ 31 ≤ 82 * BATCH_NUMBER then .error .overflow
  else do
    let lastSize := sizeT (getSize file + (2 ^ 64 - 1))
    let r ← batchLoop file BATCH_NUMBER heap lastSize fuel ⟨0, lineBuf, [], []⟩
    pure (problemReadTail file heap lastSize r)

end Program

/-! ## The lines of a file -/

/-- Line `j` of a text whose lines have 82 bytes, as a C string. -/
def lineAt (text : Bytes) (j : Nat) : Bytes := ((text.drop (82 * j)).take 81).takeWhile (· ≠ 0)

theorem singleLine_eq (heap lineBuf : Bytes) (i : Nat) :
    singleLine heap lineBuf i = ((lineBuf.drop (i * 82)).take 81).takeWhile (· ≠ 0) := by
  have hcopy : ((lineBuf.drop (i * 82)).takeWhile (· ≠ 0)).take 81
      = ((lineBuf.drop (i * 82)).take 81).takeWhile (· ≠ 0) := take_takeWhile _ _ _
  rw [singleLine, strncpy, hcopy]
  generalize hline : ((lineBuf.drop (i * 82)).take 81).takeWhile (· ≠ 0) = line
  have hnul : 0 ∉ line := by
    intro hmem
    rw [← hline] at hmem
    simpa using List.mem_takeWhile_imp hmem
  have hlen : line.length ≤ 81 := by
    rw [← hline]
    exact ((List.takeWhile_sublist _).length_le).trans (List.length_take_le _ _)
  have hpad : (line ++ List.replicate (81 - line.length) 0).length = 81 := by simp; omega
  rw [List.take_zero, List.nil_append, Nat.zero_add, List.set_append_right _ _ hpad.le, hpad,
    Nat.sub_self, List.append_assoc]
  -- what follows the copied bytes is empty or begins with a NUL
  cases hrest : List.replicate (81 - line.length) 0 ++ (heap.drop 81).set 0 (0 : UInt8) with
  | nil => rw [List.append_nil, takeWhile_eq_self hnul]
  | cons c rest =>
    have hc : c = 0 := by
      cases hfill : List.replicate (81 - line.length) (0 : UInt8) with
      | nil =>
        cases hheap : heap.drop 81 with
        | nil => simp [hfill, hheap] at hrest
        | cons d tail =>
          rw [hfill, hheap] at hrest
          exact (List.cons.inj hrest).1.symm
      | cons d fill =>
        have hd : d ∈ List.replicate (81 - line.length) (0 : UInt8) := by simp [hfill]
        rw [hfill] at hrest
        rw [← (List.cons.inj hrest).1]
        exact List.eq_of_mem_replicate hd
    rw [hc, takeWhile_noNul hnul]

/-- A line in a part of the file that was read into the buffer as a whole. -/
theorem singleLine_readAt {text rest : Bytes} {offset size i : Nat} (heap : Bytes)
    (hoffset : 82 ∣ offset) (hi : i * 82 + 81 ≤ ((text.drop offset).take size).length) :
    singleLine heap ((text.drop offset).take size ++ rest) i = lineAt text (offset / 82 + i) := by
  have hsize : i * 82 + 81 ≤ size := hi.trans (List.length_take_le _ _)
  have hstart : offset + i * 82 = 82 * (offset / 82 + i) := by omega
  rw [singleLine_eq, lineAt, List.drop_append_of_le_length (by omega),
    List.take_append_of_le_length (by rw [List.length_drop]; omega), List.drop_take,
    List.take_take, List.drop_drop, hstart, Nat.min_eq_left (by omega)]

/-! ## The reader on a file that is not empty -/

/-- The reader has passed on the first lines of the file, and its reads began inside the file and
had room in the buffer. -/
structure Reading.Passed (r : Reading) (file : FileBytes) (B count : Nat) : Prop where
  problems : r.problems = (List.range count).map (lineAt file.bytes)
  offsets : ∀ x ∈ r.reads, x.1 < file.bytes.length
  sizes : ∀ x ∈ r.reads, x.2 ≤ 82 * B

/-- A read of whole lines adds them to what was passed on. -/
theorem Reading.Passed.read {r : Reading} {file : FileBytes} {B count pos size lines : Nat}
    (h : r.Passed file B count) (heap rest : Bytes) (hcount : 82 * count = pos)
    (hpos : pos < file.bytes.length) (hsize : size ≤ 82 * B)
    (hlines : lines * 82 ≤ ((file.bytes.drop pos).take size).length + 1) {pos' : Nat}
    {lineBuf' : Bytes} :
    Reading.Passed
      { pos := pos'
        lineBuf := lineBuf'
        problems := r.problems ++ copyLines heap ((file.bytes.drop pos).take size ++ rest) lines
        reads := r.reads ++ [(pos, size)] } file B (count + lines) where
  problems := by
    have hcopied : copyLines heap ((file.bytes.drop pos).take size ++ rest) lines
        = (List.range lines).map fun i => lineAt file.bytes (count + i) := by
      refine List.map_congr_left fun i hi => ?_
      have hi' := List.mem_range.mp hi
      rw [singleLine_readAt heap ⟨count, hcount.symm⟩ (by omega), ← hcount,
        Nat.mul_div_cancel_left count (by norm_num)]
    show r.problems ++ copyLines heap ((file.bytes.drop pos).take size ++ rest) lines = _
    rw [h.problems, hcopied, List.range_add, List.map_append, List.map_map]
    rfl
  offsets := by
    intro x hx
    rcases List.mem_append.mp hx with hx | hx
    · exact h.offsets x hx
    · rw [List.mem_singleton.mp hx]
      exact hpos
  sizes := by
    intro x hx
    rcases List.mem_append.mp hx with hx | hx
    · exact h.sizes x hx
    · rw [List.mem_singleton.mp hx]
      exact hsize

section Nonempty

variable {file : FileBytes} {B : Nat} (heap : Bytes)

/-- The loop ends in front of the last batch that is not full, or the fuel did not do: by induction
on the fuel, with the number of full batches read so far. -/
theorem batchLoop_spec (hB : 1 ≤ B) (hint : 82 * B < 2 ^ 31) (hfile : 0 < file.bytes.length) :
    ∀ (fuel k : Nat) (r : Reading), r.pos = 82 * B * k → r.pos ≤ file.bytes.length →
      r.Passed file B (B * k) →
      (batchLoop (some file) B heap (file.bytes.length - 1) fuel r = .error .bound
          ∧ fuel + k ≤ file.bytes.length / (82 * B))
        ∨ ∃ r', batchLoop (some file) B heap (file.bytes.length - 1) fuel r = .ok r'
          ∧ r'.pos = 82 * B * (file.bytes.length / (82 * B))
          ∧ r'.Passed file B (B * (file.bytes.length / (82 * B))) := by
  have hlt := file.length_lt
  intro fuel
  induction fuel with
  | zero =>
    intro k r hk hle _
    refine Or.inl ⟨rfl, ?_⟩
    rw [Nat.zero_add, Nat.le_div_iff_mul_le (by omega), Nat.mul_comm]
    omega
  | succ fuel ih =>
    intro k r hk hle hr
    have hbound : sizeT (r.pos + 82 * B + (2 ^ 64 - 1)) = r.pos + 82 * B - 1 :=
      sizeT_pred (by omega) (by omega)
    rw [batchLoop, hbound]
    by_cases hfull : r.pos + 82 * B - 1 ≤ file.bytes.length - 1
    · rw [if_pos hfull]
      -- a whole batch is still there, without the newline of its last line
      have hdata : ((file.bytes.drop r.pos).take (82 * B - 1)).length = 82 * B - 1 := by
        rw [List.length_take, List.length_drop]
        omega
      have hnext : sizeT (r.pos + 82 * B) = 82 * B * (k + 1) := by
        rw [sizeT_of_lt (by omega), hk]
        ring
      have hstep : Reading.Passed
          { pos := sizeT (r.pos + 82 * B)
            lineBuf := (file.bytes.drop r.pos).take (82 * B - 1) ++ r.lineBuf.drop (82 * B - 1)
            problems := r.problems ++ copyLines heap
              ((file.bytes.drop r.pos).take (82 * B - 1) ++ r.lineBuf.drop (82 * B - 1)) B
            reads := r.reads ++ [(r.pos, 82 * B - 1)] } file B (B * (k + 1)) := by
        rw [Nat.mul_succ]
        exact hr.read heap _ (by rw [hk]; ring) (by omega) (by omega) (by omega)
      simp only [readAt, Option.map_some, hdata]
      rcases ih (k + 1) _ hnext (by show sizeT _ ≤ _; rw [sizeT_of_lt (by omega)]; omega) hstep with
        ⟨hstuck, hfuel⟩ | hdone
      · exact Or.inl ⟨hstuck, by omega⟩
      · exact Or.inr hdone
    · rw [if_neg hfull]
      -- the rest is less than a batch, and `k` of them were read
      have hk' : file.bytes.length / (82 * B) = k := by
        refine Nat.div_eq_of_lt_le ?_ ?_
        · rw [Nat.mul_comm, ← hk]
          exact hle
        · rw [Nat.succ_mul, Nat.mul_comm k, ← hk]
          omega
      exact Or.inr ⟨r, rfl, by rw [hk', hk], by rw [hk']; exact hr⟩

/-- The number of lines that the part behind the loop passes on, with `rest` bytes left. -/
def tailLines (rest : Nat) : Nat := if rest < 82 then 0 else (rest + 1) / 82

/-- The part behind the loop reads the rest of the file, if a whole line is left. -/
theorem problemReadTail_spec (hint : 82 * B < 2 ^ 31) (hfile : 0 < file.bytes.length)
    {r : Reading} {count : Nat} (hpos : r.pos = 82 * count) (hle : r.pos ≤ file.bytes.length)
    (hrest : file.bytes.length - r.pos < 82 * B) (hr : r.Passed file B count) :
    (problemReadTail (some file) heap (file.bytes.length - 1) r).Passed file B
      (count + tailLines (file.bytes.length - r.pos)) := by
  have hlt := file.length_lt
  unfold problemReadTail tailLines
  by_cases hmore : r.pos ≤ file.bytes.length - 1
  · have hsize : sizeT (file.bytes.length - 1 - r.pos + 1) = file.bytes.length - r.pos := by
      rw [sizeT_of_lt (by omega)]
      omega
    simp only [hsize, if_pos hmore]
    by_cases hline : file.bytes.length - r.pos < 82
    · rw [if_neg (by omega), if_pos hline]
      exact hr
    · have hdata : ((file.bytes.drop r.pos).take (file.bytes.length - r.pos)).length
          = file.bytes.length - r.pos := by
        rw [List.length_take, List.length_drop, Nat.min_self]
      rw [if_pos (by omega), if_neg hline]
      simp only [readAt, Option.map_some, Option.getD_some, hdata]
      exact hr.read heap _ hpos.symm (by omega) hrest.le (by omega)
  · simp only [if_neg hmore]
    rw [if_neg (by simp), if_pos (by omega)]
    exact hr

/-- The number of lines that the reader passes on from a file of `size` bytes. -/
def linesRead (size B : Nat) : Nat := B * (size / (82 * B)) + tailLines (size % (82 * B))

/-- The reader on a file that is not empty: with a round for every full batch it ends, and it passes
on the first lines of the file. -/
theorem problemRead_spec (hB : 1 ≤ B) (hint : 82 * B < 2 ^ 31) (hfile : 0 < file.bytes.length)
    (fuel : Nat) (lineBuf : Bytes) :
    (problemRead (some file) B heap fuel lineBuf = .error .bound
        ∧ fuel ≤ file.bytes.length / (82 * B))
      ∨ ∃ r, problemRead (some file) B heap fuel lineBuf = .ok r
        ∧ r.Passed file B (linesRead file.bytes.length B) := by
  have hlt := file.length_lt
  have hlast : sizeT (getSize (some file) + (2 ^ 64 - 1)) = file.bytes.length - 1 :=
    sizeT_pred hfile (lt_trans hlt (by norm_num))
  unfold problemRead
  rw [if_neg (by omega)]
  simp only [hlast]
  rcases batchLoop_spec heap hB hint hfile fuel 0 ⟨0, lineBuf, [], []⟩ rfl (Nat.zero_le _)
    ⟨rfl, by simp, by simp⟩ with ⟨hstuck, hfuel⟩ | ⟨r, hloop, hpos, hr⟩
  · exact Or.inl ⟨by rw [hstuck]; rfl, hfuel⟩
  · have hsplit := Nat.div_add_mod file.bytes.length (82 * B)
    have hrest : file.bytes.length - r.pos = file.bytes.length % (82 * B) := by omega
    have htail := problemReadTail_spec heap hint hfile (by rw [hpos]; ring) (by omega)
      (by rw [hrest]; exact Nat.mod_lt _ (by omega)) hr
    rw [hrest] at htail
    exact Or.inr ⟨_, by rw [hloop]; rfl, htail⟩

end Nonempty

/-! ## Files that are empty or were not opened -/

/-- With the bound wrapped around, the condition of the loop always holds. -/
theorem batchLoop_wrapped {file : Option FileBytes} {B : Nat} {heap : Bytes} :
    ∀ (fuel : Nat) (r r' : Reading), batchLoop file B heap (2 ^ 64 - 1) fuel r ≠ .ok r' := by
  intro fuel
  induction fuel with
  | zero => intro r r' h; cases h
  | succ fuel ih =>
    intro r r' h
    have hbound : sizeT (r.pos + 82 * B + (2 ^ 64 - 1)) ≤ 2 ^ 64 - 1 :=
      Nat.le_sub_one_of_lt (Nat.mod_lt _ (by norm_num))
    rw [batchLoop, if_pos hbound] at h
    cases hread : readAt file r.pos (82 * B - 1) r.lineBuf with
    | none => rw [hread] at h; cases h
    | some data =>
      rw [hread] at h
      exact ih _ _ h

theorem problemRead_empty {file : Option FileBytes} {B : Nat} {heap lineBuf : Bytes} {fuel : Nat}
    {r : Reading} (hfile : getSize file = 0) : problemRead file B heap fuel lineBuf ≠ .ok r := by
  intro h
  unfold problemRead at h
  by_cases hint : 2 ^ 31 ≤ 82 * B
  · rw [if_pos hint] at h
    cases h
  · have hlast : sizeT (getSize file + (2 ^ 64 - 1)) = 2 ^ 64 - 1 := by
      rw [hfile, Nat.zero_add, sizeT_of_lt (by norm_num)]
    rw [if_neg hint] at h
    simp only [hlast] at h
    cases hloop : batchLoop file B heap (2 ^ 64 - 1) fuel ⟨0, lineBuf, [], []⟩ with
    | error e => rw [hloop] at h; cases h
    | ok r' => exact batchLoop_wrapped fuel _ r' hloop

theorem problemRead_overflow {file : Option FileBytes} {B : Nat} {heap lineBuf : Bytes} {fuel : Nat}
    {r : Reading} (hint : ¬ 82 * B < 2 ^ 31) : problemRead file B heap fuel lineBuf ≠ .ok r := by
  intro h
  rw [problemRead, if_pos (by omega)] at h
  cases h

/-! ## Every file is read to its end -/

/-- The reader comes to the end of the file. Its reads begin inside the file, and it passes on no
more lines than the file has room for. -/
def ReadsToEnd (file : Option FileBytes) (B : Nat) (heap lineBuf : Bytes) : Prop :=
  ∃ fuel r, problemRead file B heap fuel lineBuf = .ok r
    ∧ (∀ x ∈ r.reads, x.1 < getSize file)
    ∧ r.problems.length ≤ (getSize file + 1) / 82

theorem tailLines_le (rest : Nat) : tailLines rest ≤ (rest + 1) / 82 := by
  unfold tailLines
  split <;> omega

theorem linesRead_le (size B : Nat) : linesRead size B ≤ (size + 1) / 82 := by
  have htail := tailLines_le (size % (82 * B))
  have hsplit := Nat.div_add_mod size (82 * B)
  have hfull : 82 * B * (size / (82 * B)) = 82 * (B * (size / (82 * B))) := by ring
  unfold linesRead
  omega

/-- The reader comes to the end of a file exactly if it is not empty and its batch fits an `int`. -/
theorem readsToEnd_iff (file : Option FileBytes) {B : Nat} (hB : 1 ≤ B) (heap lineBuf : Bytes) :
    ReadsToEnd file B heap lineBuf ↔ getSize file ≠ 0 ∧ 82 * B < 2 ^ 31 := by
  constructor
  · rintro ⟨fuel, r, h, _, _⟩
    constructor
    · intro hsize
      exact problemRead_empty hsize h
    · by_contra hint
      exact problemRead_overflow hint h
  · rintro ⟨hsize, hint⟩
    cases file with
    | none => exact absurd rfl hsize
    | some f =>
      have hpos : 0 < f.bytes.length := Nat.pos_of_ne_zero hsize
      rcases problemRead_spec heap hB hint hpos (f.bytes.length / (82 * B) + 1) lineBuf with
        ⟨_, hfuel⟩ | ⟨r, h, hr⟩
      · omega
      · refine ⟨_, r, h, hr.offsets, ?_⟩
        rw [hr.problems, List.length_map, List.length_range]
        exact linesRead_le _ B

theorem readsToEnd_iff_one : ReadsToEnd (some ⟨[49, 10], by decide⟩) 1 [] []
    ↔ getSize (some ⟨[49, 10], by decide⟩) ≠ 0 ∧ 82 * 1 < 2 ^ 31 :=
  readsToEnd_iff _ (by decide) [] []

/-- An empty file, with the batch size of the program: the loop does not end. -/
theorem not_readsToEnd_empty : ¬ ReadsToEnd (some ⟨[], by decide⟩) 1000 [] [] := by
  rintro ⟨fuel, r, h, _⟩
  exact problemRead_empty rfl h

/-! ## No line is lost or added -/

/-- A line of a puzzle file: 81 digits. -/
structure PuzzleLine (line : Bytes) : Prop where
  length : line.length = 81
  digits : ∀ b ∈ line, isDigit b = true

/-- The lines of a file, each with its newline; that of the last one may be missing. -/
def fileText (lines : List Bytes) (ended : Bool) : Bytes :=
  if ended then lines.flatMap (· ++ [10]) else (lines.flatMap (· ++ [10])).dropLast

/-- The reader passes on exactly the lines, in order, and every read has room in the buffer. -/
def PassesLines (file : FileBytes) (lines : List Bytes) (B : Nat) (heap lineBuf : Bytes) : Prop :=
  ∃ fuel r, problemRead (some file) B heap fuel lineBuf = .ok r ∧ r.problems = lines
    ∧ ∀ x ∈ r.reads, x.2 ≤ 82 * B

theorem length_flatMap_line {lines : List Bytes} (h : ∀ line ∈ lines, PuzzleLine line) :
    (lines.flatMap (· ++ [10])).length = 82 * lines.length := by
  induction lines with
  | nil => rfl
  | cons line lines ih =>
    have hhead := (h line List.mem_cons_self).length
    have htail := ih fun l hl => h l (List.mem_cons_of_mem line hl)
    simp only [List.flatMap_cons, List.length_append, List.length_cons, List.length_nil, hhead, htail]
    omega

/-- Line `j` begins at byte `82 * j`. -/
theorem drop_flatMap_line {lines : List Bytes} (h : ∀ line ∈ lines, PuzzleLine line) {j : Nat}
    (hj : j < lines.length) :
    ∃ rest, (lines.flatMap (· ++ [10])).drop (82 * j) = lines[j] ++ 10 :: rest := by
  induction lines generalizing j with
  | nil => simp at hj
  | cons line lines ih =>
    cases j with
    | zero => exact ⟨lines.flatMap (· ++ [10]), by simp⟩
    | succ j =>
      obtain ⟨rest, hrest⟩ := ih (fun l hl => h l (List.mem_cons_of_mem line hl)) (j := j)
        (by simpa using hj)
      have hlen : (line ++ [10]).length = 82 := by simp [(h line List.mem_cons_self).length]
      have hdrop : 82 * (j + 1) = (line ++ [10]).length + 82 * j := by rw [hlen]; ring
      refine ⟨rest, ?_⟩
      rw [List.flatMap_cons, hdrop, ← List.drop_drop, List.drop_left, hrest, List.getElem_cons_succ]

section Lines

variable {lines : List Bytes} {ended : Bool}

theorem length_fileText (h : ∀ line ∈ lines, PuzzleLine line) :
    (fileText lines ended).length = if ended then 82 * lines.length else 82 * lines.length - 1 := by
  cases ended with
  | true => exact length_flatMap_line h
  | false => exact (List.length_dropLast).trans (by rw [length_flatMap_line h]; rfl)

/-- Each line comes back as it stands in the file. -/
theorem lineAt_fileText (h : ∀ line ∈ lines, PuzzleLine line) {j : Nat} (hj : j < lines.length) :
    lineAt (fileText lines ended) j = lines[j] := by
  obtain ⟨rest, hrest⟩ := drop_flatMap_line h hj
  have hline := h lines[j] (List.getElem_mem hj)
  have hnul : 0 ∉ lines[j] := fun hmem => absurd (hline.digits 0 hmem) (by decide)
  have hcut : ((fileText lines ended).drop (82 * j)).take 81 = lines[j] := by
    cases ended with
    | true =>
      show ((lines.flatMap (· ++ [10])).drop (82 * j)).take 81 = lines[j]
      rw [hrest, List.take_append_of_le_length hline.length.ge,
        List.take_of_length_le hline.length.le]
    | false =>
      show ((lines.flatMap (· ++ [10])).dropLast.drop (82 * j)).take 81 = lines[j]
      rw [List.dropLast_eq_take, length_flatMap_line h, List.drop_take, List.take_take,
        Nat.min_eq_left (by omega), hrest, List.take_append_of_le_length hline.length.ge,
        List.take_of_length_le hline.length.le]
  rw [lineAt, hcut, takeWhile_eq_self hnul]

/-- How many lines the reader passes on: the last one is lost if its newline is missing and it comes
right behind a full batch. -/
theorem linesRead_fileText {B : Nat} (hB : 1 ≤ B) (hne : lines ≠ [])
    (h : ∀ line ∈ lines, PuzzleLine line) :
    linesRead (fileText lines ended).length B = lines.length
      ↔ ended = true ∨ ¬ B ∣ lines.length - 1 := by
  have hpos : 0 < lines.length := List.length_pos_of_ne_nil hne
  rw [length_fileText h]
  cases ended with
  | true =>
    have hsplit := Nat.div_add_mod lines.length B
    have hquot : 82 * lines.length / (82 * B) = lines.length / B :=
      Nat.mul_div_mul_left _ _ (by norm_num)
    have hmod : 82 * lines.length % (82 * B) = 82 * (lines.length % B) := Nat.mul_mod_mul_left _ _ _
    have htail : tailLines (82 * (lines.length % B)) = lines.length % B := by
      unfold tailLines
      split <;> omega
    simp only [if_true, linesRead, hquot, hmod, htail, hsplit, true_or]
  | false =>
    obtain ⟨m, hm⟩ : ∃ m, lines.length = m + 1 := ⟨lines.length - 1, by omega⟩
    have hsplit := Nat.div_add_mod m B
    have hlt : m % B < B := Nat.mod_lt m hB
    have hsize : 82 * lines.length - 1 = 82 * B * (m / B) + (82 * (m % B) + 81) := by
      have hring : 82 * B * (m / B) = 82 * (B * (m / B)) := by ring
      omega
    have hrest : 82 * (m % B) + 81 < 82 * B := by omega
    have hquot : (82 * lines.length - 1) / (82 * B) = m / B := by
      rw [hsize, Nat.mul_add_div (by omega), Nat.div_eq_of_lt hrest, Nat.add_zero]
    have hmod : (82 * lines.length - 1) % (82 * B) = 82 * (m % B) + 81 := by
      rw [hsize, Nat.mul_add_mod, Nat.mod_eq_of_lt hrest]
    have htail : tailLines (82 * (m % B) + 81) = if m % B = 0 then 0 else m % B + 1 := by
      unfold tailLines
      split <;> split <;> omega
    have hdvd : B ∣ lines.length - 1 ↔ m % B = 0 := by
      rw [hm, Nat.add_sub_cancel, Nat.dvd_iff_mod_eq_zero]
    simp only [Bool.false_eq_true, if_false, false_or, linesRead, hquot, hmod, htail, hdvd]
    by_cases hfirst : m % B = 0
    · rw [if_pos hfirst]
      omega
    · rw [if_neg hfirst]
      omega

theorem passed_lines {file : FileBytes} {r : Reading} {B : Nat}
    (h : ∀ line ∈ lines, PuzzleLine line) (hfile : file.bytes = fileText lines ended)
    (hr : r.Passed file B lines.length) : r.problems = lines := by
  rw [hr.problems, hfile]
  refine List.ext_getElem (by simp) fun j hj _ => ?_
  rw [List.length_map, List.length_range] at hj
  rw [List.getElem_map, List.getElem_range, lineAt_fileText h hj]

/-- A reader that passes on the lines has a batch that fits an `int`, and it counts all of them. -/
theorem linesRead_of_passesLines {file : FileBytes} {B : Nat} {heap lineBuf : Bytes} (hB : 1 ≤ B)
    (hpos : 0 < file.bytes.length) (hpasses : PassesLines file lines B heap lineBuf) :
    82 * B < 2 ^ 31 ∧ linesRead file.bytes.length B = lines.length := by
  obtain ⟨fuel, r, hrun, hproblems, _⟩ := hpasses
  have hint : 82 * B < 2 ^ 31 := by
    by_contra hint
    exact problemRead_overflow hint hrun
  rcases problemRead_spec heap hB hint hpos fuel lineBuf with ⟨hstuck, _⟩ | ⟨r', hok, hr'⟩
  · rw [hrun] at hstuck
    cases hstuck
  · rw [hrun] at hok
    cases hok
    refine ⟨hint, ?_⟩
    rw [← hproblems, hr'.problems, List.length_map, List.length_range]

/-- The reader passes on the lines of a file exactly if its batch fits an `int`, and the last
newline is there or the last line does not come right behind a full batch. -/
theorem passesLines_iff {file : FileBytes} {B : Nat} (hB : 1 ≤ B) (hne : lines ≠ [])
    (h : ∀ line ∈ lines, PuzzleLine line) (hfile : file.bytes = fileText lines ended)
    (heap lineBuf : Bytes) :
    PassesLines file lines B heap lineBuf
      ↔ 82 * B < 2 ^ 31 ∧ (ended = true ∨ ¬ B ∣ lines.length - 1) := by
  have hpos : 0 < file.bytes.length := by
    have hlines : 0 < lines.length := List.length_pos_of_ne_nil hne
    rw [hfile, length_fileText h]
    split <;> omega
  rw [← linesRead_fileText hB hne h, ← hfile]
  constructor
  · exact linesRead_of_passesLines hB hpos
  · rintro ⟨hint, hcount⟩
    rcases problemRead_spec heap hB hint hpos (file.bytes.length / (82 * B) + 1) lineBuf with
      ⟨_, hfuel⟩ | ⟨r, hok, hr⟩
    · omega
    · rw [hcount] at hr
      exact ⟨_, r, hok, passed_lines h hfile hr, hr.sizes⟩

end Lines

theorem puzzleLine_ones : PuzzleLine (List.replicate 81 49) where
  length := List.length_replicate
  digits := by
    intro b hb
    rw [List.eq_of_mem_replicate hb]
    decide

theorem passesLines_iff_one :
    PassesLines ⟨fileText [List.replicate 81 49] true, by decide⟩ [List.replicate 81 49] 1 [] []
      ↔ 82 * 1 < 2 ^ 31 ∧ (true = true ∨ ¬ 1 ∣ [List.replicate 81 (49 : UInt8)].length - 1) :=
  passesLines_iff (by decide) (by decide)
    (fun line hl => by rw [List.mem_singleton.mp hl]; exact puzzleLine_ones) rfl [] []

/-- One line without its newline, with the batch size of the program: the line is lost. -/
theorem not_passesLines_one :
    ¬ PassesLines ⟨fileText [List.replicate 81 49] false, by decide⟩ [List.replicate 81 49] 1000
      [] [] := by
  intro h
  have hcount := (linesRead_of_passesLines (by decide) (by decide) h).2
  exact absurd hcount (by decide)

end CloudLabs.Sudoku
