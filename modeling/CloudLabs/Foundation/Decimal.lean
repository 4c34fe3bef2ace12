import CloudLabs.Foundation.Bytes

/-!
# Decimal text and machine integers

`toDec` and `intToDec` are `std::to_string`; `strtol` and `atoi` are the C functions: leading white
space, one optional sign, then digits up to the first other byte. `strtol` saturates at the ends of
a 64-bit `long`, `atoi` keeps the low 32 bits of its result.

Reading a written number back gives the number as long as it fits (`strtol_toDec`,
`atoi_intToDec`); past the end of the range it gives `longMax` (`toUInt64_strtol_toDec`).
-/

set_option autoImplicit false

namespace CloudLabs.Foundation

/-- The largest 64-bit `long`. -/
def longMax : Nat := 2 ^ 63 - 1

/-- Conversion of an integer to a 32-bit `int`. -/
def toInt32 (i : Int) : Int := (BitVec.ofInt 32 i).toInt

/-- Conversion of an integer to a `uint64_t`. -/
def toUInt64 (i : Int) : Nat := (i % 2 ^ 64).toNat

def toUInt32 (i : Int) : Nat := (i % 2 ^ 32).toNat

/-- `std::to_string` of an unsigned number. -/
def toDec (n : Nat) : Bytes := (Nat.toDigits 10 n).map fun c => UInt8.ofNat c.toNat

/-- `std::to_string` of a signed number. -/
def intToDec : Int → Bytes
  | .ofNat n => toDec n
  | .negSucc n => 45 :: toDec (n + 1)

/-- `isdigit`. -/
def isDigit (b : UInt8) : Bool := 48 ≤ b.toNat && b.toNat ≤ 57

/-- `isspace`. -/
def isSpace (b : UInt8) : Bool := (9 ≤ b.toNat && b.toNat ≤ 13) || b.toNat == 32

/-- The value of the digits at the front of a string, continuing from `acc`. -/
def scanDigits (acc : Nat) : Bytes → Nat
  | [] => acc
  | b :: s => if isDigit b then scanDigits (10 * acc + (b.toNat - 48)) s else acc

/-- `strtol` in base ten, without its end pointer. -/
def strtol (s : Bytes) : Int :=
  match s.dropWhile isSpace with
  | [] => 0
  | b :: t =>
      if b = 45 then max (-(2 ^ 63)) (-(scanDigits 0 t : Int))
      else if b = 43 then min (2 ^ 63 - 1) (scanDigits 0 t : Int)
      else min (2 ^ 63 - 1) (scanDigits 0 (b :: t) : Int)

/-- `atoi`. -/
def atoi (s : Bytes) : Int := toInt32 (strtol s)

/-! ## The digits written -/

/-- The byte of a decimal digit character. -/
theorem toNat_ofNat_digit {c : Char} (h : c.isDigit) :
    (UInt8.ofNat c.toNat).toNat = c.toNat ∧ 48 ≤ c.toNat ∧ c.toNat ≤ 57 := by
  have hc : 48 ≤ c.toNat ∧ c.toNat ≤ 57 := by
    simp only [Char.isDigit, Bool.and_eq_true, decide_eq_true_eq] at h
    exact ⟨h.1, h.2⟩
  refine ⟨?_, hc⟩
  rw [UInt8.toNat_ofNat']
  omega

theorem isDigit_of_mem_toDec {n : Nat} {b : UInt8} (h : b ∈ toDec n) : isDigit b = true := by
  obtain ⟨c, hc, rfl⟩ := List.mem_map.1 h
  have hd := toNat_ofNat_digit (Nat.isDigit_of_mem_toDigits (by decide) (by decide) hc)
  simp [isDigit, hd.1, hd.2.1, hd.2.2]

theorem toDec_ne_nil (n : Nat) : toDec n ≠ [] := by
  simp [toDec]

/-- A digit is written as its character. -/
theorem toDec_digit : ∀ n ≤ 9, toDec n = [UInt8.ofNat (n + 48)] := by decide

/-- A byte that is no digit does not occur in a written number. -/
theorem notMem_toDec {b : UInt8} (h : isDigit b = false) (n : Nat) : b ∉ toDec n := by
  intro hb
  rw [isDigit_of_mem_toDec hb] at h
  exact Bool.noConfusion h

/-! ## Reading back -/

/-- The digits end at the end of the string or at a byte that is no digit. -/
def EndsDigits (rest : Bytes) : Prop := ∀ b ∈ rest.head?, isDigit b = false

theorem endsDigits_nil : EndsDigits [] := by
  simp [EndsDigits]

theorem endsDigits_cons {b : UInt8} (h : isDigit b = false) (rest : Bytes) :
    EndsDigits (b :: rest) := by
  simpa [EndsDigits] using h

theorem scanDigits_digits (cs : List Char) (hcs : ∀ c ∈ cs, c.isDigit) (acc : Nat) (rest : Bytes)
    (hrest : EndsDigits rest) :
    scanDigits acc ((cs.map fun c => UInt8.ofNat c.toNat) ++ rest) = Nat.ofDigitChars 10 cs acc := by
  induction cs generalizing acc with
  | nil =>
      cases rest with
      | nil => simp [scanDigits]
      | cons b rest =>
          have hb : isDigit b = false := hrest b (by simp)
          simp [scanDigits, hb]
  | cons c cs ih =>
      obtain ⟨hb, h48, h57⟩ := toNat_ofNat_digit (hcs c (by simp))
      have hd : isDigit (UInt8.ofNat c.toNat) = true := by simp [isDigit, hb, h48, h57]
      rw [List.map_cons, List.cons_append, scanDigits, if_pos hd, hb,
        ih (fun c' hc' => hcs c' (List.mem_cons_of_mem _ hc')), Nat.ofDigitChars_cons]
      rfl

/-- Scanning a written number gives the number. -/
theorem scanDigits_toDec (n : Nat) (rest : Bytes) (hrest : EndsDigits rest) :
    scanDigits 0 (toDec n ++ rest) = n := by
  rw [toDec, scanDigits_digits _ (fun c hc => Nat.isDigit_of_mem_toDigits (by decide) (by decide) hc)
    _ _ hrest]
  exact Nat.ofDigitChars_ten_toDigits

/-- A written number starts with a digit. -/
theorem toDec_eq_cons (n : Nat) : ∃ b t, toDec n = b :: t ∧ isDigit b = true := by
  cases h : toDec n with
  | nil => exact absurd h (toDec_ne_nil n)
  | cons b t => exact ⟨b, t, rfl, isDigit_of_mem_toDec (n := n) (by rw [h]; simp)⟩

theorem isSpace_of_isDigit {b : UInt8} (h : isDigit b = true) : isSpace b = false := by
  simp only [isDigit, Bool.and_eq_true, decide_eq_true_eq] at h
  simp only [isSpace, Bool.or_eq_false_iff, Bool.and_eq_false_iff, decide_eq_false_iff_not,
    beq_eq_false_iff_ne]
  omega

theorem ne_sign_of_isDigit {b : UInt8} (h : isDigit b = true) : b ≠ 45 ∧ b ≠ 43 := by
  constructor <;> rintro rfl <;> exact absurd h (by decide)

/-- `strtol` of a written unsigned number, before it is known to fit. -/
theorem strtol_toDec_append (n : Nat) (rest : Bytes) (hrest : EndsDigits rest) :
    strtol (toDec n ++ rest) = min (2 ^ 63 - 1) (n : Int) := by
  obtain ⟨b, t, hbt, hb⟩ := toDec_eq_cons n
  have hscan := scanDigits_toDec n rest hrest
  rw [hbt, List.cons_append] at hscan ⊢
  obtain ⟨h45, h43⟩ := ne_sign_of_isDigit hb
  rw [strtol, List.dropWhile_cons_of_neg (by simp [isSpace_of_isDigit hb])]
  simp only [h45, h43, if_false, hscan]

/-- Reading back an unsigned number that fits into a `long`. -/
theorem strtol_toDec {n : Nat} (h : n < 2 ^ 63) (rest : Bytes) (hrest : EndsDigits rest) :
    strtol (toDec n ++ rest) = n := by
  rw [strtol_toDec_append n rest hrest]
  omega

/-- Reading back an unsigned number through `uint64_t` never gives more than `longMax`. -/
theorem toUInt64_strtol_toDec (n : Nat) (rest : Bytes) (hrest : EndsDigits rest) :
    toUInt64 (strtol (toDec n ++ rest)) = min longMax n := by
  rw [strtol_toDec_append n rest hrest, toUInt64, longMax]
  omega

/-- Reading back a number that fits into a `long`, through `uint64_t`. -/
theorem toUInt64_strtol_toDec_of_lt {n : Nat} (h : n < 2 ^ 63) :
    toUInt64 (strtol (toDec n)) = n := by
  have hread := toUInt64_strtol_toDec n [] endsDigits_nil
  rw [List.append_nil, longMax] at hread
  omega

theorem toInt32_of_lt {i : Int} (h₁ : -(2 ^ 31) ≤ i) (h₂ : i < 2 ^ 31) : toInt32 i = i := by
  rw [toInt32, BitVec.toInt_ofInt]
  apply Int.bmod_eq_of_le <;> omega

/-- `atoi` of a written non-negative `int`. -/
theorem atoi_toDec {n : Nat} (h : n < 2 ^ 31) (rest : Bytes) (hrest : EndsDigits rest) :
    atoi (toDec n ++ rest) = n := by
  rw [atoi, strtol_toDec (by omega) rest hrest, toInt32_of_lt (by omega) (by omega)]

theorem strtol_neg_toDec {n : Nat} (h : n ≤ 2 ^ 63) (rest : Bytes) (hrest : EndsDigits rest) :
    strtol (45 :: (toDec n ++ rest)) = -n := by
  rw [strtol, List.dropWhile_cons_of_neg (by decide)]
  simp only [if_true, scanDigits_toDec n rest hrest]
  omega

/-- `atoi` of a written `int`. -/
theorem atoi_intToDec {i : Int} (h₁ : -(2 ^ 31) ≤ i) (h₂ : i < 2 ^ 31) (rest : Bytes)
    (hrest : EndsDigits rest) : atoi (intToDec i ++ rest) = i := by
  cases i with
  | ofNat n => exact atoi_toDec (by simp at h₂; omega) rest hrest
  | negSucc n =>
      rw [intToDec, List.cons_append, atoi, strtol_neg_toDec (by omega) rest hrest]
      rw [toInt32_of_lt (by omega) (by omega)]
      omega

end CloudLabs.Foundation
