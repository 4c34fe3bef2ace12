import Mathlib.Data.List.Basic
import Mathlib.Tactic

/-!
# Byte strings

Byte strings with the search and slicing operations of `std::string`: the first occurrence of a
pattern (`find`), and the part of a string at an offset (`substr`, which throws when the offset is
past the end). `find_append_of_notMem` locates a marker behind a text that does not contain the
marker's first byte.
-/

set_option autoImplicit false

namespace CloudLabs.Foundation

/-- A byte string. -/
abbrev Bytes := List UInt8

/-- The bytes of a source-level string literal. -/
def ascii (s : String) : Bytes := s.toList.map fun c => UInt8.ofNat c.toNat

/-- `std::string::find`: the offset of the first occurrence of `pat`. -/
def find (pat : Bytes) : Bytes → Option Nat
  | [] => if pat.isEmpty then some 0 else none
  | b :: s => if pat.isPrefixOf (b :: s) then some 0 else (find pat s).map (· + 1)

/-- `std::string::substr`: at most `len` bytes from offset `pos`; an offset past the end throws. -/
def substr (s : Bytes) (pos len : Nat) : Option Bytes :=
  if pos ≤ s.length then some ((s.drop pos).take len) else none

/-- `std::string::substr` with the default length. -/
def substrFrom (s : Bytes) (pos : Nat) : Option Bytes :=
  if pos ≤ s.length then some (s.drop pos) else none

/-! ## Searching -/

/-- A string that starts with the pattern has its first occurrence at offset zero. -/
theorem find_self (pat rest : Bytes) : find pat (pat ++ rest) = some 0 := by
  cases pat with
  | nil => cases rest <;> simp [find]
  | cons c p => simp [find]

/-- A marker is found behind any text without the marker's first byte. -/
theorem find_append_of_notMem (c : UInt8) (p text rest : Bytes) (h : c ∉ text) :
    find (c :: p) (text ++ (c :: p) ++ rest) = some text.length := by
  induction text with
  | nil => simpa using find_self (c :: p) rest
  | cons b text ih =>
      rw [List.mem_cons, not_or] at h
      have hne : (c == b) = false := by simpa using h.1
      rw [List.cons_append, List.cons_append, find]
      simp only [List.isPrefixOf, hne, Bool.false_and, Bool.false_eq_true, if_false]
      rw [ih h.2]
      simp

/-! ## Slicing -/

@[simp] theorem substr_append (a b : Bytes) (len : Nat) :
    substr (a ++ b) a.length len = some (b.take len) := by
  simp [substr]

@[simp] theorem substrFrom_append (a b : Bytes) : substrFrom (a ++ b) a.length = some b := by
  simp [substrFrom]

/-! ## Up to the first NUL -/

theorem takeWhile_noNul {a : Bytes} (h : 0 ∉ a) (b : Bytes) :
    (a ++ 0 :: b).takeWhile (· ≠ 0) = a := by
  induction a with
  | nil => simp
  | cons c a ih =>
    rw [List.mem_cons, not_or] at h
    rw [List.cons_append, List.takeWhile_cons_of_pos (by simpa using Ne.symm h.1), ih h.2]

theorem takeWhile_eq_self {a : Bytes} (h : 0 ∉ a) : a.takeWhile (· ≠ 0) = a := by
  induction a with
  | nil => rfl
  | cons c a ih =>
    rw [List.mem_cons, not_or] at h
    rw [List.takeWhile_cons_of_pos (by simpa using Ne.symm h.1), ih h.2]

theorem take_takeWhile {α : Type} (p : α → Bool) (n : Nat) (l : List α) :
    (l.takeWhile p).take n = (l.take n).takeWhile p := by
  induction l generalizing n with
  | nil => simp
  | cons a l ih =>
    cases n with
    | zero => simp
    | succ n =>
      by_cases ha : p a = true
      · simp [List.takeWhile_cons_of_pos ha, ih]
      · simp [List.takeWhile_cons_of_neg ha]

end CloudLabs.Foundation
