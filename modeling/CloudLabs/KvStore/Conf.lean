import CloudLabs.Foundation.Decimal
import CloudLabs.Foundation.Split

/-!
# The configuration file

`readConf` reads the file line by line and finds out what a line is by searching it for keywords:
first `mode`, then `coordinator_info`, then `participant_info`. It searches the whole line, the host
name included, so that a host name with a keyword in it makes another line of it.

`ConfFile` are the files that the format describes: one line for the mode, one for the coordinator
and one for each participant, with comments and blank lines anywhere. `readConf_eq_iff`: such a file
is read back as it was written exactly when its host names are `Plain`.
-/

set_option autoImplicit false

namespace CloudLabs.KvStore

open CloudLabs.Foundation

inductive Mode where
  | invalid
  | c
  | p
  deriving DecidableEq

/-- `NodeInfo`; the port is an `unsigned int`. -/
structure NodeInfo where
  add : Bytes
  port : Nat
  deriving DecidableEq

/-- The arguments `p`, `c` and `m` of `readConf`, which it fills in. -/
structure Conf where
  p : List NodeInfo
  c : NodeInfo
  m : Mode
  deriving DecidableEq

/-! ## Reading -/

/-- `getline`: the line, and what is left of the stream unless its end was met. -/
def getline : Bytes → Bytes × Option Bytes
  | [] => ([], none)
  | b :: s => if b = 10 then ([], some s) else (b :: (getline s).1, (getline s).2)

/-- What follows the keyword of an address: all spaces are erased, and the rest is cut at the first
colon. Without one, `readConf` returns false. -/
def readInfo (buf : Bytes) : Option NodeInfo :=
  let buf := buf.filter (· ≠ 32)
  match find (ascii ":") buf with
  | none => none
  | some pos => some ⟨buf.take pos, toUInt32 (strtol (buf.drop (pos + 1)))⟩

/-- One round of the loop; `none` where it returns false. -/
def readLine (buf : Bytes) (s : Conf) : Option Conf :=
  -- a comment begins with `!`; the keywords are searched in the whole line
  if buf.head? = some 33 then some s
  else if (find (ascii "mode") buf).isSome then
    if (find (ascii "coordinator") buf).isSome then some { s with m := .c }
    else if (find (ascii "participant") buf).isSome then some { s with m := .p }
    else some { s with m := .invalid }
  else
    match find (ascii "coordinator_info") buf with
    | some pos => (readInfo (buf.drop (pos + 16))).map fun node => { s with c := node }
    | none =>
      match find (ascii "participant_info") buf with
      -- both keywords have 16 letters
      | some pos => (readInfo (buf.drop (pos + 16))).map fun node => { s with p := s.p ++ [node] }
      | none => some s

/-- The loop: it ends when `getline` has met the end of the file, or with a line that is wrong. -/
def readLines : Nat → Bytes → Conf → Option (Bool × Conf)
  | 0, _, _ => none
  | fuel + 1, conf_file, s =>
    match readLine (getline conf_file).1 s with
    | none => some (false, s)
    | some s =>
      match (getline conf_file).2 with
      | none => some (true, s)
      | some rest => readLines fuel rest s

/-- `readConf`, on the content of the file if it can be opened. -/
def readConf (conf : Option Bytes) (s : Conf) : Option (Bool × Conf) :=
  match conf with
  | none => some (false, s)
  | some conf_file => readLines (conf_file.length + 1) conf_file s

/-- The rounds for a list of lines. -/
def runLines : List Bytes → Conf → Bool × Conf
  | [], s => (true, s)
  | buf :: bufs, s =>
    match readLine buf s with
    | none => (false, s)
    | some s => runLines bufs s

/-! ## The lines of a file -/

/-- What a line begins with is the piece up to its end. -/
theorem splitOn_getline (conf_file : Bytes) :
    (∀ rest, (getline conf_file).2 = some rest →
      conf_file.splitOn 10 = (getline conf_file).1 :: rest.splitOn 10 ∧
        rest.length < conf_file.length) ∧
    ((getline conf_file).2 = none → conf_file.splitOn 10 = [(getline conf_file).1]) := by
  induction conf_file with
  | nil =>
    refine ⟨?_, fun _ => rfl⟩
    intro rest h
    cases h
  | cons b s ih =>
    rw [List.splitOn_cons_eq_if_modifyHead]
    by_cases hb : b = 10
    · rw [getline, if_pos hb, if_pos (beq_iff_eq.mpr hb)]
      refine ⟨?_, fun h => by cases h⟩
      intro rest h
      obtain rfl := Option.some.inj h
      exact ⟨rfl, Nat.lt_succ_self _⟩
    · rw [getline, if_neg hb, if_neg (fun h => hb (beq_iff_eq.mp h))]
      obtain ⟨hsome, hnone⟩ := ih
      constructor
      · intro rest h
        obtain ⟨hsplit, hlen⟩ := hsome rest h
        exact ⟨by rw [hsplit]; rfl, Nat.lt_succ_of_lt hlen⟩
      · intro h
        rw [hnone h]
        rfl

/-- The loop runs over the lines, the part behind the last line end included. -/
theorem readLines_eq : ∀ (fuel : Nat) (conf_file : Bytes) (s : Conf), conf_file.length < fuel →
    readLines fuel conf_file s = some (runLines (conf_file.splitOn 10) s) := by
  intro fuel
  induction fuel with
  | zero => intro conf_file s h; exact absurd h (Nat.not_lt_zero _)
  | succ fuel ih =>
    intro conf_file s hfuel
    obtain ⟨hsome, hnone⟩ := splitOn_getline conf_file
    rw [readLines]
    cases hrest : (getline conf_file).2 with
    | none =>
      rw [hnone hrest, runLines]
      cases readLine (getline conf_file).1 s <;> rfl
    | some rest =>
      obtain ⟨hsplit, hlen⟩ := hsome rest hrest
      rw [hsplit, runLines]
      cases readLine (getline conf_file).1 s with
      | none => rfl
      | some s' => exact ih rest s' (by omega)

/-- `readConf` returns on every file. -/
theorem readConf_some (conf_file : Bytes) (s : Conf) :
    readConf (some conf_file) s = some (runLines (conf_file.splitOn 10) s) :=
  readLines_eq _ _ _ (Nat.lt_succ_self _)

/-! ## The format -/

/-- An address as it may stand in the file. -/
structure Address where
  host : Bytes
  port : Nat
  host_ne : host ≠ []
  clean : ∀ b ∈ host, isSpace b = false ∧ b ≠ 58 ∧ b ≠ 33
  port_lt : port < 65536

def Address.node (a : Address) : NodeInfo := ⟨a.host, a.port⟩

def Address.text (a : Address) : Bytes := a.host ++ 58 :: toDec a.port

/-- The modes that a file can ask for. -/
inductive Role where
  | coordinator
  | participant

def Role.text : Role → Bytes
  | coordinator => ascii "coordinator"
  | participant => ascii "participant"

def Role.mode : Role → Mode
  | coordinator => .c
  | participant => .p

/-- A line of the file. The words are `gap + 1` spaces apart, and `trail` spaces end the line. -/
inductive ConfLine where
  | mode (role : Role) (gap trail : Nat)
  | coordinator (a : Address) (gap trail : Nat)
  | participant (a : Address) (gap trail : Nat)
  | comment (text : Bytes) (h : 10 ∉ text)
  | blank (text : Bytes) (h : ∀ b ∈ text, isSpace b = true ∧ b ≠ 10)

/-- Two words of a line. -/
def twoWords (key word : Bytes) (gap trail : Nat) : Bytes :=
  key ++ 32 :: (List.replicate gap 32 ++ word ++ List.replicate trail 32)

namespace ConfLine

def text : ConfLine → Bytes
  | mode role gap trail => twoWords (ascii "mode") role.text gap trail
  | coordinator a gap trail => twoWords (ascii "coordinator_info") a.text gap trail
  | participant a gap trail => twoWords (ascii "participant_info") a.text gap trail
  | comment text _ => 33 :: text
  | blank text _ => text

def role? : ConfLine → Option Role
  | mode role _ _ => some role
  | _ => none

def coordinator? : ConfLine → Option Address
  | coordinator a _ _ => some a
  | _ => none

def participant? : ConfLine → Option Address
  | participant a _ _ => some a
  | _ => none

/-- What the line is meant to do. -/
def apply (s : Conf) : ConfLine → Conf
  | mode role _ _ => { s with m := role.mode }
  | coordinator a _ _ => { s with c := a.node }
  | participant a _ _ => { s with p := s.p ++ [a.node] }
  | _ => s

end ConfLine

/-- A file with one line for the mode, one for the coordinator and one for each participant. -/
structure ConfFile (role : Role) (coordinator : Address) (participants : List Address) where
  lines : List ConfLine
  mode_line : lines.filterMap ConfLine.role? = [role]
  coordinator_line : lines.filterMap ConfLine.coordinator? = [coordinator]
  participant_lines : lines.filterMap ConfLine.participant? = participants

/-- The bytes of the file. A blank line at the end stands for a last line end. -/
def ConfFile.text {role : Role} {coordinator : Address} {participants : List Address}
    (file : ConfFile role coordinator participants) : Bytes :=
  [10].intercalate (file.lines.map ConfLine.text)

/-- No host name has a keyword in it that is looked for before the keyword of its line. -/
def Plain (coordinator : Address) (participants : List Address) : Prop :=
  ¬ ascii "mode" <:+: coordinator.host ∧
    ∀ a ∈ participants, ¬ ascii "mode" <:+: a.host ∧ ¬ ascii "coordinator_info" <:+: a.host

/-! ## Keywords in a line -/

/-- A keyword has no byte that a space, a colon or a port number has. -/
def Keyword (pat : Bytes) : Prop := pat ≠ [] ∧ ∀ b ∈ pat, b ≠ 32 ∧ b ≠ 58 ∧ isDigit b = false

instance (pat : Bytes) : Decidable (Keyword pat) := inferInstanceAs (Decidable (_ ∧ _))

section Keywords

variable {pat key word : Bytes} {gap trail : Nat} {a : Address} {s s' : Conf}

/-- A keyword is in one of the words. -/
theorem infix_twoWords (hpat : Keyword pat) :
    pat <:+: twoWords key word gap trail ↔ pat <:+: key ∨ pat <:+: word := by
  have hspace : (32 : UInt8) ∉ pat := fun hin => (hpat.2 32 hin).1 rfl
  have hspaces : ∀ n, ∀ c ∈ List.replicate n (32 : UInt8), c ∉ pat := by
    intro n c hc
    rw [List.eq_of_mem_replicate hc]
    exact hspace
  rw [twoWords, infix_append_cons_iff hspace, List.append_assoc, infix_append_of_disjoint (hspaces gap)]
  apply or_congr_right
  cases trail with
  | zero => rw [List.replicate_zero, List.append_nil]
  | succ trail =>
    rw [List.replicate_succ, infix_append_cons_iff hspace]
    apply or_iff_left
    intro h
    have hnone := (infix_append_of_disjoint (b := []) (hspaces trail)).mp (by rwa [List.append_nil])
    exact hpat.1 (List.infix_nil.mp hnone)

/-- A keyword is not in the port of an address. -/
theorem infix_address (hpat : Keyword pat) : pat <:+: a.text ↔ pat <:+: a.host := by
  have hcolon : (58 : UInt8) ∉ pat := fun hin => (hpat.2 58 hin).2.1 rfl
  rw [Address.text, infix_append_cons_iff hcolon]
  apply or_iff_left
  intro h
  have hdigits : ∀ c ∈ toDec a.port, c ∉ pat := by
    intro c hc hin
    have hdigit := isDigit_of_mem_toDec hc
    rw [(hpat.2 c hin).2.2] at hdigit
    cases hdigit
  have hnone := (infix_append_of_disjoint (b := []) hdigits).mp (by rwa [List.append_nil])
  exact hpat.1 (List.infix_nil.mp hnone)

/-! ## What a line does -/

theorem drop_key (key : Bytes) (hkey : key.length = 16) {pos : Nat}
    (hpos : find key (twoWords key word gap trail) = some pos) :
    (twoWords key word gap trail).drop (pos + 16) =
      32 :: (List.replicate gap 32 ++ word ++ List.replicate trail 32) := by
  have hfind : find key (twoWords key word gap trail) = some 0 := find_self key _
  obtain rfl := Option.some.inj (hfind.symm.trans hpos)
  rw [Nat.zero_add, ← hkey, twoWords, List.drop_left]

/-- The spaces around an address do not matter. -/
theorem readInfo_address :
    readInfo (32 :: (List.replicate gap 32 ++ a.text ++ List.replicate trail 32)) = some a.node := by
  have hspaces : ∀ n, (List.replicate n (32 : UInt8)).filter (· ≠ 32) = [] := by
    intro n
    rw [List.filter_eq_nil_iff]
    intro c hc
    rw [List.eq_of_mem_replicate hc]
    decide
  have hword : a.text.filter (· ≠ 32) = a.text := by
    rw [List.filter_eq_self]
    intro c hc
    rw [Address.text, List.mem_append, List.mem_cons] at hc
    apply decide_eq_true
    rintro rfl
    rcases hc with hc | hc | hc
    · exact absurd (a.clean 32 hc).1 (by decide)
    · cases hc
    · exact absurd (isDigit_of_mem_toDec hc) (by decide)
  have herased : (32 :: (List.replicate gap 32 ++ a.text ++ List.replicate trail 32)).filter (· ≠ 32) =
      a.text := by
    rw [List.filter_cons_of_neg (by decide), List.filter_append, List.filter_append, hspaces, hspaces,
      hword, List.nil_append, List.append_nil]
  have hcolon : find (ascii ":") a.text = some a.host.length := by
    have hfind := find_append_of_notMem 58 [] a.host (toDec a.port) fun hin => (a.clean 58 hin).2.1 rfl
    rwa [List.append_assoc] at hfind
  have hport : toUInt32 (strtol (toDec a.port)) = a.port := by
    have hlt := a.port_lt
    have hread := strtol_toDec (n := a.port) (by omega) [] endsDigits_nil
    rw [List.append_nil] at hread
    rw [hread, toUInt32]
    omega
  rw [readInfo, herased]
  simp only [hcolon]
  rw [Address.text, List.take_left, List.drop_length_add_append, List.drop_one, List.tail_cons, hport]
  rfl

/-- A line with a keyword is no comment. -/
theorem head_twoWords (hkey : key.head?.any (· ≠ 33) = true) :
    (twoWords key word gap trail).head? ≠ some 33 := by
  cases key with
  | nil => cases hkey
  | cons b key =>
    intro h
    exact of_decide_eq_true hkey (Option.some.inj h)

/-- A line with the first keyword sets the mode, and nothing else. -/
theorem readLine_mode {buf : Bytes} (hbuf : buf.head? ≠ some 33) (hmode : ascii "mode" <:+: buf) :
    ∃ m, readLine buf s = some { s with m := m } := by
  rw [readLine, if_neg hbuf, if_pos ((find_isSome_iff _ _).mpr hmode)]
  by_cases hc : (find (ascii "coordinator") buf).isSome = true
  · exact ⟨.c, by rw [if_pos hc]⟩
  · by_cases hp : (find (ascii "participant") buf).isSome = true
    · exact ⟨.p, by rw [if_neg hc, if_pos hp]⟩
    · exact ⟨.invalid, by rw [if_neg hc, if_neg hp]⟩

/-- A line with the second one sets the coordinator. -/
theorem readLine_coordinator {buf : Bytes} (hbuf : buf.head? ≠ some 33)
    (hmode : ¬ ascii "mode" <:+: buf) (hinfo : ascii "coordinator_info" <:+: buf) :
    ∃ pos, find (ascii "coordinator_info") buf = some pos ∧
      readLine buf s = (readInfo (buf.drop (pos + 16))).map fun node => { s with c := node } := by
  obtain ⟨pos, hpos⟩ := Option.isSome_iff_exists.mp ((find_isSome_iff _ _).mpr hinfo)
  refine ⟨pos, hpos, ?_⟩
  rw [readLine, if_neg hbuf, if_neg fun h => hmode ((find_isSome_iff _ _).mp h)]
  simp only [hpos]

theorem readLine_participant {buf : Bytes} (hbuf : buf.head? ≠ some 33)
    (hmode : ¬ ascii "mode" <:+: buf) (hinfo : ¬ ascii "coordinator_info" <:+: buf)
    (hinfo' : ascii "participant_info" <:+: buf) :
    ∃ pos, find (ascii "participant_info") buf = some pos ∧
      readLine buf s =
        (readInfo (buf.drop (pos + 16))).map fun node => { s with p := s.p ++ [node] } := by
  obtain ⟨pos, hpos⟩ := Option.isSome_iff_exists.mp ((find_isSome_iff _ _).mpr hinfo')
  refine ⟨pos, hpos, ?_⟩
  rw [readLine, if_neg hbuf, if_neg fun h => hmode ((find_isSome_iff _ _).mp h),
    (find_eq_none_iff _ _).mpr hinfo]
  simp only [hpos]

/-- A line without a keyword. -/
theorem readLine_other {buf : Bytes} (hmode : ¬ ascii "mode" <:+: buf)
    (hinfo : ¬ ascii "coordinator_info" <:+: buf) (hinfo' : ¬ ascii "participant_info" <:+: buf) :
    readLine buf s = some s := by
  by_cases hbuf : buf.head? = some 33
  · rw [readLine, if_pos hbuf]
  · rw [readLine, if_neg hbuf, if_neg fun h => hmode ((find_isSome_iff _ _).mp h),
      (find_eq_none_iff _ _).mpr hinfo, (find_eq_none_iff _ _).mpr hinfo']

/-- The host name of the line has no keyword that is looked for before the one of the line. -/
def ConfLine.Clear : ConfLine → Prop
  | coordinator a _ _ => ¬ ascii "mode" <:+: a.host
  | participant a _ _ => ¬ ascii "mode" <:+: a.host ∧ ¬ ascii "coordinator_info" <:+: a.host
  | _ => True

/-- A keyword of the word "mode" or of an address, in the line of an address. -/
theorem infix_line (hpat : Keyword pat) :
    pat <:+: twoWords key a.text gap trail ↔ pat <:+: key ∨ pat <:+: a.host := by
  rw [infix_twoWords hpat, infix_address hpat]

/-- White space has no keyword. -/
theorem not_infix_blank {text : Bytes} (h : ∀ b ∈ text, isSpace b = true ∧ b ≠ 10)
    (hpat : pat ≠ [] ∧ ∀ b ∈ pat, isSpace b = false) : ¬ pat <:+: text := by
  intro hin
  obtain ⟨b, hb⟩ := List.exists_mem_of_ne_nil pat hpat.1
  have hspace := (h b (hin.subset hb)).1
  rw [hpat.2 b hb] at hspace
  cases hspace

/-- A clear line does what it is meant to do. -/
theorem readLine_clear (line : ConfLine) (hline : line.Clear) :
    readLine line.text s = some (line.apply s) := by
  cases line with
  -- what distinguishes the two roles is searched in the whole line
  | mode role gap trail =>
    have hmode : ascii "mode" <:+: twoWords (ascii "mode") role.text gap trail :=
      (infix_twoWords (by decide +kernel)).mpr (.inl List.infix_rfl)
    have hcoordinator : ascii "coordinator" <:+: twoWords (ascii "mode") role.text gap trail ↔
        ascii "coordinator" <:+: role.text := by
      rw [infix_twoWords (by decide +kernel)]
      exact or_iff_right (by decide +kernel)
    have hparticipant : ascii "participant" <:+: twoWords (ascii "mode") role.text gap trail ↔
        ascii "participant" <:+: role.text := by
      rw [infix_twoWords (by decide +kernel)]
      exact or_iff_right (by decide +kernel)
    show readLine (twoWords (ascii "mode") role.text gap trail) s = some { s with m := role.mode }
    rw [readLine, if_neg (head_twoWords rfl),
      if_pos ((find_isSome_iff _ _).mpr hmode)]
    simp only [find_isSome_iff, hcoordinator, hparticipant]
    cases role with
    | coordinator => rw [if_pos (by decide +kernel), Role.mode]
    | participant => rw [if_neg (by decide +kernel), if_pos (by decide +kernel), Role.mode]
  | coordinator a gap trail =>
    have hmode : ¬ ascii "mode" <:+: twoWords (ascii "coordinator_info") a.text gap trail := by
      rw [infix_line (by decide +kernel), not_or]
      exact ⟨by decide +kernel, hline⟩
    have hinfo : ascii "coordinator_info" <:+: twoWords (ascii "coordinator_info") a.text gap trail :=
      (infix_line (by decide +kernel)).mpr (.inl List.infix_rfl)
    obtain ⟨pos, hpos, hrun⟩ := readLine_coordinator (s := s)
      (head_twoWords rfl) hmode hinfo
    show readLine (twoWords (ascii "coordinator_info") a.text gap trail) s = _
    rw [hrun, drop_key _ rfl hpos, readInfo_address]
    rfl
  | participant a gap trail =>
    have hmode : ¬ ascii "mode" <:+: twoWords (ascii "participant_info") a.text gap trail := by
      rw [infix_line (by decide +kernel), not_or]
      exact ⟨by decide +kernel, hline.1⟩
    have hinfo : ¬ ascii "coordinator_info" <:+: twoWords (ascii "participant_info") a.text gap trail
        := by
      rw [infix_line (by decide +kernel), not_or]
      exact ⟨by decide +kernel, hline.2⟩
    have hinfo' : ascii "participant_info" <:+:
        twoWords (ascii "participant_info") a.text gap trail :=
      (infix_line (by decide +kernel)).mpr (.inl List.infix_rfl)
    obtain ⟨pos, hpos, hrun⟩ := readLine_participant (s := s)
      (head_twoWords rfl) hmode hinfo hinfo'
    show readLine (twoWords (ascii "participant_info") a.text gap trail) s = _
    rw [hrun, drop_key _ rfl hpos, readInfo_address]
    rfl
  | comment text h => exact if_pos rfl
  | blank text h =>
    exact readLine_other (not_infix_blank h (by decide +kernel))
      (not_infix_blank h (by decide +kernel)) (not_infix_blank h (by decide +kernel))

theorem readLine_mode_keeps {buf : Bytes} (hbuf : buf.head? ≠ some 33) (hmode : ascii "mode" <:+: buf)
    (hrun : readLine buf s = some s') : s'.p = s.p ∧ s'.c = s.c := by
  obtain ⟨m, hm⟩ := readLine_mode (s := s) hbuf hmode
  rw [hm] at hrun
  obtain rfl := Option.some.inj hrun
  exact ⟨rfl, rfl⟩

/-- Any other line loses its address: a participant is not added, and the coordinator is not set. -/
theorem readLine_unclear (line : ConfLine) (hline : ¬ line.Clear)
    (hrun : readLine line.text s = some s') :
    s'.p = s.p ∧ (line.participant? = none → s'.c = s.c) := by
  cases line with
  | mode role gap trail => exact absurd trivial hline
  | comment text h => exact absurd trivial hline
  | blank text h => exact absurd trivial hline
  | coordinator a gap trail =>
    have hmode : ascii "mode" <:+: a.host := not_not.mp hline
    obtain ⟨hp, hc⟩ := readLine_mode_keeps (head_twoWords rfl)
      ((infix_line (by decide +kernel)).mpr (.inr hmode)) hrun
    exact ⟨hp, fun _ => hc⟩
  | participant a gap trail =>
    refine ⟨?_, fun h => by cases h⟩
    by_cases hmode : ascii "mode" <:+: a.host
    · exact (readLine_mode_keeps (head_twoWords rfl)
        ((infix_line (by decide +kernel)).mpr (.inr hmode)) hrun).1
    · -- The host name makes it the line of a coordinator.
      have hinfo : ascii "coordinator_info" <:+: a.host := by
        by_contra hinfo
        exact hline ⟨hmode, hinfo⟩
      have hmode' : ¬ ascii "mode" <:+: twoWords (ascii "participant_info") a.text gap trail := by
        rw [infix_line (by decide +kernel), not_or]
        exact ⟨by decide +kernel, hmode⟩
      obtain ⟨pos, -, hread⟩ := readLine_coordinator (s := s) (head_twoWords rfl)
        hmode' ((infix_line (by decide +kernel)).mpr (.inr hinfo))
      have hrun : readLine (twoWords (ascii "participant_info") a.text gap trail) s = some s' := hrun
      rw [hread] at hrun
      obtain ⟨node, -, rfl⟩ := Option.map_eq_some_iff.mp hrun
      rfl

end Keywords

/-! ## The file -/

section File

variable {role : Role} {coordinator : Address} {participants : List Address} {lines : List ConfLine}
  {s s' : Conf}

/-- Clear lines are read as they are meant. -/
theorem runLines_clear (hlines : ∀ line ∈ lines, line.Clear) :
    runLines (lines.map ConfLine.text) s = (true, lines.foldl ConfLine.apply s) := by
  induction lines generalizing s with
  | nil => rfl
  | cons line lines ih =>
    rw [List.map_cons, runLines, readLine_clear line (hlines line List.mem_cons_self)]
    exact ih fun l hl => hlines l (List.mem_cons_of_mem _ hl)

/-- What the lines of a file are meant to do, all together. -/
theorem foldl_apply (lines : List ConfLine) (s : Conf) :
    lines.foldl ConfLine.apply s =
      ⟨s.p ++ (lines.filterMap ConfLine.participant?).map Address.node,
        ((lines.filterMap ConfLine.coordinator?).map Address.node).getLastD s.c,
        ((lines.filterMap ConfLine.role?).map Role.mode).getLastD s.m⟩ := by
  induction lines generalizing s with
  | nil =>
    show s = ⟨s.p ++ [], s.c, s.m⟩
    rw [List.append_nil]
  | cons line lines ih =>
    rw [List.foldl_cons, ih]
    cases line with
    | participant a gap trail =>
      show Conf.mk (s.p ++ [a.node] ++ _) _ _ = Conf.mk (s.p ++ a.node :: _) _ _
      rw [List.append_assoc]
      rfl
    | coordinator a gap trail =>
      show Conf.mk _ _ _ = Conf.mk _ (List.getLastD (a.node :: _) s.c) _
      rw [List.getLastD_cons]
      rfl
    | mode role gap trail =>
      show Conf.mk _ _ _ = Conf.mk _ _ (List.getLastD (role.mode :: _) s.m)
      rw [List.getLastD_cons]
      rfl
    | comment text h => rfl
    | blank text h => rfl

/-- A line adds at most its participant, and an unclear one does not even do that. -/
theorem readLine_length (line : ConfLine) (hrun : readLine line.text s = some s') :
    s'.p.length ≤ s.p.length + line.participant?.toList.length ∧
      (line.participant?.isSome = true → ¬ line.Clear → s'.p.length = s.p.length) := by
  by_cases hline : line.Clear
  · rw [readLine_clear line hline] at hrun
    obtain rfl := Option.some.inj hrun
    refine ⟨?_, fun _ h => absurd hline h⟩
    cases line with
    | participant a gap trail => exact Nat.le_of_eq (by rw [ConfLine.apply, List.length_append]; rfl)
    | coordinator a gap trail => exact Nat.le_add_right _ _
    | mode role gap trail => exact Nat.le_add_right _ _
    | comment text h => exact Nat.le_add_right _ _
    | blank text h => exact Nat.le_add_right _ _
  · have hp := (readLine_unclear line hline hrun).1
    rw [hp]
    exact ⟨Nat.le_add_right _ _, fun _ _ => rfl⟩

/-- When as many participants are read as the file has, their lines were clear. -/
theorem runLines_length (hrun : runLines (lines.map ConfLine.text) s = (true, s')) :
    s'.p.length ≤ s.p.length + (lines.filterMap ConfLine.participant?).length ∧
      (s'.p.length = s.p.length + (lines.filterMap ConfLine.participant?).length →
        ∀ line ∈ lines, line.participant?.isSome = true → line.Clear) := by
  induction lines generalizing s with
  | nil =>
    obtain rfl := (Prod.mk.inj hrun).2
    refine ⟨Nat.le_add_right _ _, ?_⟩
    intro _ line hline
    cases hline
  | cons line lines ih =>
    rw [List.map_cons, runLines] at hrun
    cases hread : readLine line.text s with
    | none =>
      rw [hread] at hrun
      cases (Prod.mk.inj hrun).1
    | some s₁ =>
      rw [hread] at hrun
      obtain ⟨hle, hsame⟩ := readLine_length line hread
      obtain ⟨hrest, hclear⟩ := ih hrun
      have hcount : ((line :: lines).filterMap ConfLine.participant?).length =
          line.participant?.toList.length + (lines.filterMap ConfLine.participant?).length := by
        rw [List.filterMap_cons]
        cases line.participant? with
        | none => exact (Nat.zero_add _).symm
        | some a => exact Nat.add_comm _ _
      refine ⟨by omega, ?_⟩
      intro hall l hl hsome
      rcases List.mem_cons.mp hl with rfl | hl
      · by_contra hline
        have hlen := hsame hsome hline
        obtain ⟨a, ha⟩ := Option.isSome_iff_exists.mp hsome
        rw [ha] at hcount
        have hone : (some a).toList.length = 1 := rfl
        omega
      · exact hclear (by omega) l hl hsome

/-- Without a clear line for it, the coordinator stays what it was. -/
theorem runLines_c (hparticipants : ∀ line ∈ lines, line.participant?.isSome = true → line.Clear)
    (hcoordinators : ∀ line ∈ lines, line.coordinator?.isSome = true → ¬ line.Clear)
    (hrun : runLines (lines.map ConfLine.text) s = (true, s')) : s'.c = s.c := by
  induction lines generalizing s with
  | nil =>
    obtain rfl := (Prod.mk.inj hrun).2
    rfl
  | cons line lines ih =>
    rw [List.map_cons, runLines] at hrun
    cases hread : readLine line.text s with
    | none =>
      rw [hread] at hrun
      cases (Prod.mk.inj hrun).1
    | some s₁ =>
      rw [hread] at hrun
      rw [ih (fun l hl => hparticipants l (List.mem_cons_of_mem _ hl))
        (fun l hl => hcoordinators l (List.mem_cons_of_mem _ hl)) hrun]
      by_cases hline : line.Clear
      · rw [readLine_clear line hline] at hread
        obtain rfl := Option.some.inj hread
        cases line with
        | coordinator a gap trail => exact absurd hline (hcoordinators _ List.mem_cons_self rfl)
        | participant a gap trail => rfl
        | mode role gap trail => rfl
        | comment text h => rfl
        | blank text h => rfl
      · apply (readLine_unclear line hline hread).2
        rw [← Option.not_isSome_iff_eq_none]
        exact fun h => hline (hparticipants line List.mem_cons_self h)

theorem newline_notMem_twoWords {key word : Bytes} {gap trail : Nat} (hkey : 10 ∉ key)
    (hword : 10 ∉ word) : 10 ∉ twoWords key word gap trail := by
  simp only [twoWords, List.mem_append, List.mem_cons, List.mem_replicate, not_or, not_and]
  exact ⟨hkey, by decide, ⟨fun _ => by decide, hword⟩, fun _ => by decide⟩

theorem newline_notMem_address (a : Address) : 10 ∉ a.text := by
  rw [Address.text, List.mem_append, List.mem_cons, not_or, not_or]
  refine ⟨?_, by decide, notMem_toDec rfl _⟩
  intro hin
  exact absurd (a.clean 10 hin).1 (by decide)

/-- A line does not end before its end. -/
theorem newline_notMem_text (line : ConfLine) : 10 ∉ line.text := by
  cases line with
  | mode role gap trail =>
    apply newline_notMem_twoWords (by decide +kernel)
    cases role <;> decide
  | coordinator a gap trail =>
    exact newline_notMem_twoWords (by decide +kernel) (newline_notMem_address a)
  | participant a gap trail =>
    exact newline_notMem_twoWords (by decide +kernel) (newline_notMem_address a)
  | comment text h =>
    rw [ConfLine.text, List.mem_cons, not_or]
    exact ⟨by decide, h⟩
  | blank text h => exact fun hin => (h 10 hin).2 rfl

theorem ConfFile.readConf_eq (file : ConfFile role coordinator participants) (s : Conf) :
    readConf (some file.text) s = some (runLines (file.lines.map ConfLine.text) s) := by
  have hne : file.lines.map ConfLine.text ≠ [] := by
    intro hnil
    have hmode := file.mode_line
    rw [List.map_eq_nil_iff.mp hnil] at hmode
    cases hmode
  rw [readConf_some, ConfFile.text, List.splitOn_intercalate 10 _ hne]
  intro text htext
  obtain ⟨line, -, rfl⟩ := List.mem_map.mp htext
  exact newline_notMem_text line

theorem ConfFile.coordinator_eq (file : ConfFile role coordinator participants) {line : ConfLine}
    (hline : line ∈ file.lines) {a : Address} (ha : line.coordinator? = some a) : a = coordinator := by
  have hin : a ∈ file.lines.filterMap ConfLine.coordinator? := List.mem_filterMap.mpr ⟨line, hline, ha⟩
  rw [file.coordinator_line] at hin
  exact List.mem_singleton.mp hin

theorem ConfFile.participant_mem (file : ConfFile role coordinator participants) {a : Address} :
    a ∈ participants ↔ ∃ line ∈ file.lines, line.participant? = some a := by
  have hmem : a ∈ file.lines.filterMap ConfLine.participant? ↔ _ := List.mem_filterMap
  rwa [file.participant_lines] at hmem

/-- The lines of a file are clear when its host names are plain. -/
theorem ConfFile.clear (file : ConfFile role coordinator participants)
    (hplain : Plain coordinator participants) : ∀ line ∈ file.lines, line.Clear := by
  intro line hline
  cases line with
  | coordinator a gap trail =>
    obtain rfl := file.coordinator_eq hline rfl
    exact hplain.1
  | participant a gap trail => exact hplain.2 a (file.participant_mem.mpr ⟨_, hline, rfl⟩)
  | mode role gap trail => trivial
  | comment text h => trivial
  | blank text h => trivial

/-- A configuration file is read as it was written exactly when its host names are plain. -/
theorem readConf_eq_iff (role : Role) (coordinator : Address) (participants : List Address)
    (file : ConfFile role coordinator participants) (port : Nat) (m : Mode) :
    readConf (some file.text) ⟨[], ⟨[], port⟩, m⟩ =
        some (true, ⟨participants.map Address.node, coordinator.node, role.mode⟩) ↔
      Plain coordinator participants := by
  rw [file.readConf_eq, Option.some.injEq]
  constructor
  · intro hrun
    -- all participants have been found, so each of their lines was read as one
    obtain ⟨-, hall⟩ := runLines_length hrun
    have hclear := hall (by
      rw [file.participant_lines, List.length_map]
      exact (Nat.zero_add _).symm)
    refine ⟨?_, ?_⟩
    · -- Otherwise the coordinator would have kept its empty address.
      intro hmode
      have hkept := runLines_c hclear (by
        intro line hline hsome
        obtain ⟨a, ha⟩ := Option.isSome_iff_exists.mp hsome
        obtain rfl := file.coordinator_eq hline ha
        cases line with
        | coordinator a' gap trail =>
          obtain rfl := Option.some.inj ha
          exact fun h => h hmode
        | participant a' gap trail => cases ha
        | mode role gap trail => cases ha
        | comment text h => cases ha
        | blank text h => cases ha) hrun
      exact coordinator.host_ne (congrArg NodeInfo.add hkept)
    · intro a ha
      -- the line of each participant was one of those read
      obtain ⟨line, hline, hsome⟩ := file.participant_mem.mp ha
      have hlineClear := hclear line hline (by rw [hsome]; rfl)
      cases line with
      | participant a' gap trail =>
        obtain rfl := Option.some.inj hsome
        exact hlineClear
      | coordinator a' gap trail => cases hsome
      | mode role gap trail => cases hsome
      | comment text h => cases hsome
      | blank text h => cases hsome
  · intro hplain
    rw [runLines_clear (file.clear hplain), foldl_apply, file.participant_lines,
      file.coordinator_line, file.mode_line]
    rfl

/-- A coordinator whose host name is "model": its line is read as one for the mode. -/
theorem readConf_model_host :
    ∃ (coordinator participant : Address) (file : ConfFile .participant coordinator [participant]),
      file.text = ascii
        "mode participant\ncoordinator_info model:8001\nparticipant_info 127.0.0.1:8002" ∧
      readConf (some file.text) ⟨[], ⟨[], 0⟩, .invalid⟩ =
        some (true, ⟨[participant.node], ⟨[], 0⟩, .c⟩) ∧
      readConf (some file.text) ⟨[], ⟨[], 0⟩, .invalid⟩ ≠
        some (true, ⟨[participant.node], coordinator.node, .p⟩) := by
  refine ⟨⟨ascii "model", 8001, by decide +kernel, by decide +kernel, by decide +kernel⟩,
    ⟨ascii "127.0.0.1", 8002, by decide +kernel, by decide +kernel, by decide +kernel⟩,
    ⟨[.mode .participant 0 0, .coordinator _ 0 0, .participant _ 0 0], rfl, rfl, rfl⟩, rfl, ?_, ?_⟩
  · rw [ConfFile.readConf_eq]
    rfl
  · rw [ConfFile.readConf_eq]
    intro h
    cases congrArg (fun r : Option (Bool × Conf) => r.map fun r => r.2.m) h

end File

end CloudLabs.KvStore
