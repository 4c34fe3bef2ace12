import CloudLabs.Foundation.Decimal
import CloudLabs.Foundation.Split

/-!
# Reading a request

`apart` cuts the text of a request into lines, the first line into words, and takes the header lines
as pairs of words and the last line as the body. `findName` takes the first two fields of a form.
Both index the vectors they have built; an index at or beyond the size is a `Fault`.

`apart_eq` and `findName_eq` say what is computed in terms of the lines, words and fields of the
text (`parts`), and when there is a fault.
-/

set_option autoImplicit false

namespace CloudLabs.Http

open CloudLabs.Foundation

/-- Why there is no response. -/
inductive Fault where
  /-- A vector is indexed at or beyond its size. -/
  | index
  /-- A position or a number of elements is no value of the `int` it is stored in. -/
  | range
  /-- The file of the error page is missing or empty. -/
  | page
  /-- A loop has reached the bound on its number of rounds. -/
  | bound
  deriving DecidableEq

def crlf : Bytes := [13, 10]

/-- `std::vector::operator[]`. -/
def index {α : Type} (table : List α) (i : Int) : Except Fault α :=
  if i < 0 then .error .index
  else
    match table[i.toNat]? with
    | none => .error .index
    | some a => .ok a

/-- The loop that cuts `tmp` at every occurrence of `delim` and drops the empty pieces. The position
is kept in an `int`. -/
def splitLoop (delim : Bytes) : Nat → Bytes → List Bytes → Except Fault (List Bytes)
  | 0, _, _ => .error .bound
  | fuel + 1, tmp, table =>
      match find delim tmp with
      | none => .ok table
      | some loc =>
          if 2 ^ 31 ≤ loc then .error .range
          else
            splitLoop delim fuel (tmp.drop (loc + delim.length))
              (if loc ≠ 0 then table ++ [tmp.take loc] else table)

/-- The vector that the loop builds from a text to which the delimiter is added. -/
def split (delim src : Bytes) : Except Fault (List Bytes) :=
  let tmp := src ++ delim
  splitLoop delim (tmp.length + 1) tmp []

/-- `http_c`. -/
structure HttpC where
  mean : Bytes
  URL : Bytes
  version : Bytes
  kv : Bytes → Option Bytes
  body : Bytes

/-- `ss >> word`: the word at the front of a stream and the rest of the stream. -/
def nextWord (ss : Bytes) : Bytes × Bytes :=
  let s := ss.dropWhile isSpace
  (s.takeWhile fun b => !isSpace b, s.dropWhile fun b => !isSpace b)

/-- One header line into the map. -/
def addHeader (kv : Bytes → Option Bytes) (line : Bytes) : Bytes → Option Bytes :=
  let key := nextWord line
  let val := nextWord key.2
  Function.update kv key.1 (some val.1)

/-- The loop over the header lines, at the given indices of the table. -/
def addHeaders (table : List Bytes) : List Int → (Bytes → Option Bytes) →
    Except Fault (Bytes → Option Bytes)
  | [], kv => .ok kv
  | i :: is, kv => do
      let line ← index table i
      addHeaders table is (addHeader kv line)

/-- `apart`. -/
def apart (src : Bytes) : Except Fault HttpC := do
  let table ← split crlf src
  let first ← index table 0
  let request_line ← split [32] first
  let mean ← index request_line 0
  let URL ← index request_line 1
  let version ← index request_line 2
  -- the loop over the headers ends before line `l`; the body is line `l + 1`
  let l : Int := (table.length : Int) - 2
  if 2 ^ 31 ≤ l + 1 then .error .range
  else do
    let kv ← addHeaders table ((List.range' 1 (l - 1).toNat).map Int.ofNat) fun _ => none
    let body ← index table (l + 1)
    pure ⟨mean, URL, version, kv, body⟩

/-- The loop that cuts a field behind its last `=`. -/
def lastPart : Nat → Bytes → Except Fault Bytes
  | 0, _ => .error .bound
  | fuel + 1, str =>
      match find [61] str with
      | none => .ok str
      | some loc => if 2 ^ 31 ≤ loc then .error .range else lastPart fuel (str.drop (loc + 1))

/-- `find_name`: the name and the number, or `none` where it returns false. -/
def findName (src : Bytes) : Except Fault (Option (Bytes × Bytes)) :=
  if (find (ascii "Name=") src).isNone ∨ (find (ascii "&ID=") src).isNone then .ok none
  else do
    let table ← split [38] src
    let name_str ← index table 0
    let id_str ← index table 1
    let name ← lastPart (name_str.length + 1) name_str
    let ID ← lastPart (id_str.length + 1) id_str
    pure (some (name, ID))

/-! ## What the loops compute -/

/-- The parts of a text that are not empty. -/
def parts (delim src : Bytes) : List Bytes := (fields delim src).filter (· ≠ [])

/-- No part is too long for an `int`. -/
def Short (ps : List Bytes) : Prop := ∀ p ∈ ps, p.length < 2 ^ 31

instance (ps : List Bytes) : Decidable (Short ps) := inferInstanceAs (Decidable (∀ p ∈ ps, _))

theorem short_cons {p : Bytes} {ps : List Bytes} : Short (p :: ps) ↔ p.length < 2 ^ 31 ∧ Short ps := by
  simp [Short]

/-- A piece is kept if it is not empty. -/
theorem push_filter {p : Bytes} {n : Nat} (h : p.length = n) (table ps : List Bytes) :
    (if n ≠ 0 then table ++ [p] else table) ++ ps.filter (· ≠ []) =
      table ++ (p :: ps).filter (· ≠ []) := by
  cases p with
  | nil =>
      subst h
      simp
  | cons b p =>
      have hn : n ≠ 0 := by
        rw [← h, List.length_cons]
        exact Nat.succ_ne_zero _
      rw [if_pos hn]
      simp

/-- The loop collects the parts that are not empty, unless one is too long. -/
theorem splitLoop_eq {delim : Bytes} (hdelim : delim ≠ []) : ∀ (fuel : Nat) (tmp : Bytes)
    (table : List Bytes), tmp.length < fuel → splitLoop delim fuel tmp table =
      if Short (pieces delim tmp).dropLast then
        .ok (table ++ (pieces delim tmp).dropLast.filter (· ≠ []))
      else .error .range := by
  intro fuel
  induction fuel with
  | zero => intro tmp table h; exact absurd h (Nat.not_lt_zero _)
  | succ fuel ih =>
      intro tmp table hfuel
      rw [splitLoop]
      cases hfind : find delim tmp with
      | none =>
          rw [pieces_of_not_found hfind]
          simp [Short]
      | some loc =>
          have hle := find_add_length_le hfind
          have hpos := List.length_pos_iff.2 hdelim
          have hlen : (tmp.take loc).length = loc := by
            rw [List.length_take]
            omega
          have hnext := ih (tmp.drop (loc + delim.length))
            (if loc ≠ 0 then table ++ [tmp.take loc] else table)
            (by rw [List.length_drop]; omega)
          rw [pieces_of_find hdelim hfind, List.dropLast_cons_of_ne_nil (pieces_ne_nil _ _)]
          by_cases hlong : 2 ^ 31 ≤ loc
          · have hnot : ¬ Short
                (tmp.take loc :: (pieces delim (tmp.drop (loc + delim.length))).dropLast) := by
              rw [short_cons, hlen]
              omega
            simp only [if_pos hlong]
            rw [if_neg hnot]
          simp only [if_neg hlong, hnext, push_filter hlen]
          by_cases hshort : Short (pieces delim (tmp.drop (loc + delim.length))).dropLast
          · rw [if_pos hshort, if_pos (short_cons.2 ⟨by omega, hshort⟩)]
          · rw [if_neg hshort, if_neg fun h => hshort (short_cons.1 h).2]

theorem split_eq {delim : Bytes} (hdelim : delim ≠ []) (src : Bytes) :
    split delim src =
      if Short (fields delim src) then .ok (parts delim src) else .error .range := by
  rw [split, splitLoop_eq hdelim _ _ _ (Nat.lt_succ_self _), List.nil_append]
  rfl

/-- The parts of a text that is itself short enough. -/
theorem split_of_lt {delim src : Bytes} (hdelim : delim ≠ []) (h : src.length < 2 ^ 31) :
    split delim src = .ok (parts delim src) := by
  rw [split_eq hdelim, if_pos]
  exact fun p hp => lt_of_le_of_lt (length_le_of_mem_fields hdelim hp) h

theorem length_lt_of_mem_parts {delim src p : Bytes} (hshort : Short (fields delim src))
    (h : p ∈ parts delim src) : p.length < 2 ^ 31 :=
  hshort p (List.mem_of_mem_filter h)

@[simp] theorem index_zero {α : Type} (a : α) (as : List α) : index (a :: as) 0 = .ok a := rfl

@[simp] theorem index_one {α : Type} (a b : α) (as : List α) : index (a :: b :: as) 1 = .ok b := rfl

@[simp] theorem index_two {α : Type} (a b c : α) (as : List α) :
    index (a :: b :: c :: as) 2 = .ok c := rfl

theorem index_natCast {α : Type} {table : List α} {i : Nat} (h : i < table.length) :
    index table i = .ok (table.get ⟨i, h⟩) := by
  rw [index, if_neg (by omega), Int.toNat_natCast, List.getElem?_eq_getElem h]
  rfl

/-- Indices inside the table give no fault. -/
theorem addHeaders_ok (table : List Bytes) : ∀ (is : List Nat) (kv : Bytes → Option Bytes),
    (∀ i ∈ is, i < table.length) → ∃ kv', addHeaders table (is.map Int.ofNat) kv = .ok kv' := by
  intro is
  induction is with
  | nil => intro kv _; exact ⟨kv, rfl⟩
  | cons i is ih =>
      intro kv h
      have hi := index_natCast (h i List.mem_cons_self)
      obtain ⟨kv', hkv'⟩ := ih (addHeader kv (table.get ⟨i, h i List.mem_cons_self⟩))
        fun j hj => h j (List.mem_cons_of_mem _ hj)
      refine ⟨kv', ?_⟩
      rw [List.map_cons, addHeaders, ← hkv']
      exact congrArg (fun r => r >>= fun line => addHeaders table (is.map Int.ofNat)
        (addHeader kv line)) hi

/-- The last line of a request. -/
def bodyLine (first : Bytes) (rest : List Bytes) : Bytes :=
  (first :: rest).getLast (List.cons_ne_nil _ _)

/-- What `apart` reads from a request, or the fault it ends with. -/
theorem apart_eq (src : Bytes) :
    if Short (fields crlf src) then
      match parts crlf src with
      | [] => apart src = .error .index
      | first :: rest =>
          match parts [32] first with
          | mean :: URL :: version :: _ =>
              if rest.length < 2 ^ 31 then
                ∃ kv, apart src = .ok ⟨mean, URL, version, kv, bodyLine first rest⟩
              else apart src = .error .range
          | _ => apart src = .error .index
    else apart src = .error .range := by
  have hsplit := split_eq (show crlf ≠ [] by decide) src
  split
  · next hshort =>
    rw [if_pos hshort] at hsplit
    split
    · -- without a line the first index is beyond the end
      next hnil =>
      rw [hnil] at hsplit
      rw [apart, hsplit]
      rfl
    · next first rest hlines =>
      have hfirst : first.length < 2 ^ 31 :=
        length_lt_of_mem_parts hshort (by rw [hlines]; exact List.mem_cons_self)
      have hwords := split_of_lt (show ([32] : Bytes) ≠ [] by decide) hfirst
      rw [hlines] at hsplit
      -- the first line has three words or fewer
      split
      · next mean URL version more hparts =>
        rw [hparts] at hwords
        -- the index of the body is the last one of the table
        have hl : ((first :: rest).length : Int) - 2 + 1 = (rest.length : Int) := by
          rw [List.length_cons]
          omega
        have hcount : (((first :: rest).length : Int) - 2 - 1).toNat = rest.length - 2 := by
          rw [List.length_cons]
          omega
        obtain ⟨kv, hkv⟩ := addHeaders_ok (first :: rest) (List.range' 1 (rest.length - 2))
          (fun _ => none) fun i hi => by
            rw [List.mem_range'_1] at hi
            rw [List.length_cons]
            omega
        have hbody : index (first :: rest) (rest.length : Int) = .ok (bodyLine first rest) := by
          rw [index_natCast (show rest.length < (first :: rest).length by simp), bodyLine,
            List.getLast_eq_getElem]
          rfl
        split
        · next hlen =>
          refine ⟨kv, ?_⟩
          rw [apart, hsplit]
          simp only [bind, Except.bind, index_zero, hwords, index_one, index_two, hl, hcount, hkv,
            hbody, pure, Except.pure]
          rw [if_neg (by omega)]
        · next hlen =>
          rw [apart, hsplit]
          simp only [bind, Except.bind, index_zero, hwords, index_one, index_two, hl]
          rw [if_pos (by omega)]
      · next hparts =>
        rw [apart, hsplit]
        simp only [bind, Except.bind, index_zero, hwords]
        -- a line of fewer than three words ends with one of the three indices
        cases hp : parts [32] first with
        | nil => rfl
        | cons mean ws =>
            cases ws with
            | nil => rfl
            | cons URL ws =>
                cases ws with
                | nil => rfl
                | cons version more => exact absurd hp (hparts mean URL version more)
  · next hshort =>
    rw [if_neg hshort] at hsplit
    rw [apart, hsplit]
    rfl

/-- A short field is cut without a fault. -/
theorem lastPart_ok : ∀ (fuel : Nat) (str : Bytes), str.length < fuel → str.length < 2 ^ 31 →
    ∃ out, lastPart fuel str = .ok out := by
  intro fuel
  induction fuel with
  | zero => intro str h; exact absurd h (Nat.not_lt_zero _)
  | succ fuel ih =>
      intro str hfuel hlen
      rw [lastPart]
      cases hfind : find [61] str with
      | none => exact ⟨str, rfl⟩
      | some loc =>
          have hle := find_add_length_le hfind
          rw [List.length_singleton] at hle
          simp only
          rw [if_neg (by omega)]
          exact ih _ (by rw [List.length_drop]; omega) (by rw [List.length_drop]; omega)

/-- The form has the two markers `find_name` looks for. -/
def HasMarkers (src : Bytes) : Prop := ascii "Name=" <:+: src ∧ ascii "&ID=" <:+: src

instance (src : Bytes) : Decidable (HasMarkers src) := inferInstanceAs (Decidable (_ ∧ _))

/-- What `find_name` finds in a short form, or the fault it ends with. -/
theorem findName_eq {src : Bytes} (hlen : src.length < 2 ^ 31) :
    if HasMarkers src then
      match parts [38] src with
      | _ :: _ :: _ => ∃ name ID, findName src = .ok (some (name, ID))
      | _ => findName src = .error .index
    else findName src = .ok none := by
  have hguard : ((find (ascii "Name=") src).isNone ∨ (find (ascii "&ID=") src).isNone) ↔
      ¬ HasMarkers src := by
    rw [HasMarkers, Option.isNone_iff_eq_none, Option.isNone_iff_eq_none, find_eq_none_iff,
      find_eq_none_iff,
      not_and_or]
  have hdelim : ([38] : Bytes) ≠ [] := by decide
  have hsplit := split_of_lt hdelim hlen
  split
  · next hboth =>
    have hgo : ¬ ((find (ascii "Name=") src).isNone ∨ (find (ascii "&ID=") src).isNone) := by
      rw [hguard, not_not]
      exact hboth
    rw [findName, if_neg hgo, hsplit]
    split
    · next name_str id_str more hparts =>
      have hshort : ∀ p ∈ parts [38] src, p.length < 2 ^ 31 := by
        intro p hp
        exact lt_of_le_of_lt (length_le_of_mem_fields hdelim (List.mem_of_mem_filter hp)) hlen
      rw [hparts] at hshort ⊢
      obtain ⟨name, hname⟩ := lastPart_ok _ name_str (Nat.lt_succ_self _)
        (hshort _ List.mem_cons_self)
      obtain ⟨ID, hID⟩ := lastPart_ok _ id_str (Nat.lt_succ_self _)
        (hshort _ (List.mem_cons_of_mem _ List.mem_cons_self))
      refine ⟨name, ID, ?_⟩
      simp only [bind, Except.bind, index_zero, index_one, hname, hID, pure, Except.pure]
    · next hparts =>
      cases hp : parts [38] src with
      | nil => rfl
      | cons name_str ps =>
          cases ps with
          | nil => rfl
          | cons id_str more => exact absurd hp (hparts name_str id_str more)
  · next hnot => rw [findName, if_pos (hguard.2 hnot)]

end CloudLabs.Http
