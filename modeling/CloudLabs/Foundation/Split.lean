import CloudLabs.Foundation.Bytes

/-!
# Texts cut at a delimiter

`pieces` cuts a text at every occurrence of a delimiter, found from the left and not overlapping.
`pieces_of_find` relates it to the search for the first occurrence, and `find_eq_none_iff` says when
there is none.
-/

set_option autoImplicit false

namespace CloudLabs.Foundation

/-- The pieces of a text between the occurrences of `delim`, empty ones included. The first argument
counts the bytes of an occurrence that are still to be passed over, the second one holds the piece
so far. -/
def piecesFrom (delim : Bytes) : Nat → Bytes → Bytes → List Bytes
  | _, cur, [] => [cur]
  | skip + 1, cur, _ :: s => piecesFrom delim skip cur s
  | 0, cur, b :: s =>
      if delim.isPrefixOf (b :: s) then cur :: piecesFrom delim (delim.length - 1) [] s
      else piecesFrom delim 0 (cur ++ [b]) s

def pieces (delim s : Bytes) : List Bytes := piecesFrom delim 0 [] s

/-- The pieces of a text that end with a delimiter, once one is added to its end. -/
def fields (delim s : Bytes) : List Bytes := (pieces delim (s ++ delim)).dropLast

theorem piecesFrom_ne_nil (delim : Bytes) (skip : Nat) (cur s : Bytes) :
    piecesFrom delim skip cur s ≠ [] := by
  induction s generalizing skip cur with
  | nil => cases skip <;> exact List.cons_ne_nil _ _
  | cons b s ih =>
      cases skip with
      | zero =>
          rw [piecesFrom]
          split
          · exact List.cons_ne_nil _ _
          · exact ih _ _
      | succ skip => exact ih _ _

theorem piecesFrom_skip (delim : Bytes) (cur : Bytes) : ∀ (skip : Nat) (s : Bytes),
    skip ≤ s.length → piecesFrom delim skip cur s = piecesFrom delim 0 cur (s.drop skip) := by
  intro skip
  induction skip with
  | zero => intro s _; rfl
  | succ skip ih =>
      intro s h
      cases s with
      | nil => exact absurd h (Nat.not_succ_le_zero _)
      | cons b s => exact ih s (Nat.le_of_succ_le_succ h)

/-- The first piece ends where the delimiter is found. -/
theorem piecesFrom_of_find {delim : Bytes} (hdelim : delim ≠ []) : ∀ (s : Bytes) (cur : Bytes)
    {loc : Nat}, find delim s = some loc → piecesFrom delim 0 cur s =
      (cur ++ s.take loc) :: pieces delim (s.drop (loc + delim.length)) := by
  intro s
  induction s with
  | nil =>
      intro cur loc h
      rw [find, if_neg (by simpa using hdelim)] at h
      cases h
  | cons b s ih =>
      intro cur loc h
      rw [find] at h
      have hpos := List.length_pos_iff.2 hdelim
      by_cases hpre : delim.isPrefixOf (b :: s) = true
      · rw [if_pos hpre] at h
        cases h
        have hle : delim.length ≤ (b :: s).length :=
          (List.isPrefixOf_iff_prefix.1 hpre).length_le
        obtain ⟨n, hn⟩ : ∃ n, delim.length = n + 1 := ⟨delim.length - 1, by omega⟩
        rw [piecesFrom, if_pos hpre, hn, Nat.add_sub_cancel, List.take_zero, List.append_nil,
          Nat.zero_add, List.drop_succ_cons, pieces]
        rw [hn, List.length_cons] at hle
        rw [piecesFrom_skip delim [] n s (by omega)]
      · rw [if_neg hpre] at h
        obtain ⟨loc', hloc, rfl⟩ := Option.map_eq_some_iff.1 h
        rw [piecesFrom, if_neg hpre, ih _ hloc, List.take_succ_cons, List.append_assoc,
          List.singleton_append, Nat.add_right_comm, List.drop_succ_cons]

theorem piecesFrom_of_not_found {delim : Bytes} : ∀ (s : Bytes) (cur : Bytes),
    find delim s = none → piecesFrom delim 0 cur s = [cur ++ s] := by
  intro s
  induction s with
  | nil => intro cur _; rw [piecesFrom, List.append_nil]
  | cons b s ih =>
      intro cur h
      rw [find] at h
      by_cases hpre : delim.isPrefixOf (b :: s) = true
      · rw [if_pos hpre] at h
        cases h
      · rw [if_neg hpre, Option.map_eq_none_iff] at h
        rw [piecesFrom, if_neg hpre, ih _ h, List.append_assoc, List.singleton_append]

theorem pieces_of_find {delim s : Bytes} {loc : Nat} (hdelim : delim ≠ [])
    (h : find delim s = some loc) :
    pieces delim s = s.take loc :: pieces delim (s.drop (loc + delim.length)) := by
  rw [pieces, piecesFrom_of_find hdelim s [] h, List.nil_append]

theorem pieces_of_not_found {delim s : Bytes} (h : find delim s = none) : pieces delim s = [s] := by
  rw [pieces, piecesFrom_of_not_found s [] h, List.nil_append]

theorem pieces_ne_nil (delim s : Bytes) : pieces delim s ≠ [] := piecesFrom_ne_nil delim 0 [] s

/-- An occurrence that is found ends inside the text. -/
theorem find_add_length_le {pat : Bytes} : ∀ {s : Bytes} {loc : Nat}, find pat s = some loc →
    loc + pat.length ≤ s.length := by
  intro s
  induction s with
  | nil =>
      intro loc h
      rw [find] at h
      split at h
      · next hpat =>
          cases h
          simpa using hpat
      · cases h
  | cons b s ih =>
      intro loc h
      rw [find] at h
      by_cases hpre : pat.isPrefixOf (b :: s) = true
      · rw [if_pos hpre] at h
        cases h
        rw [Nat.zero_add]
        exact (List.isPrefixOf_iff_prefix.1 hpre).length_le
      · rw [if_neg hpre] at h
        obtain ⟨loc', hloc, rfl⟩ := Option.map_eq_some_iff.1 h
        have := ih hloc
        rw [List.length_cons]
        omega

/-- No piece in front of a delimiter is longer than the text without one. -/
theorem length_le_of_mem_dropLast_pieces {delim : Bytes} (hdelim : delim ≠ []) : ∀ (n : Nat)
    (s : Bytes), s.length ≤ n → ∀ p ∈ (pieces delim s).dropLast, p.length + delim.length ≤ s.length
    := by
  intro n
  induction n with
  | zero =>
      intro s hs p hp
      cases hf : find delim s with
      | none => rw [pieces_of_not_found hf] at hp; cases hp
      | some loc =>
          have := find_add_length_le hf
          have := List.length_pos_iff.2 hdelim
          omega
  | succ n ih =>
      intro s hs p hp
      cases hf : find delim s with
      | none => rw [pieces_of_not_found hf] at hp; cases hp
      | some loc =>
          have hle := find_add_length_le hf
          have hpos := List.length_pos_iff.2 hdelim
          rw [pieces_of_find hdelim hf, List.dropLast_cons_of_ne_nil (pieces_ne_nil _ _)] at hp
          rcases List.mem_cons.1 hp with rfl | hp
          · rw [List.length_take]
            omega
          · have := ih _ (by rw [List.length_drop]; omega) p hp
            rw [List.length_drop] at this
            omega

theorem length_le_of_mem_fields {delim s p : Bytes} (hdelim : delim ≠ []) (h : p ∈ fields delim s) :
    p.length ≤ s.length := by
  have := length_le_of_mem_dropLast_pieces hdelim _ (s ++ delim) (le_refl _) p h
  rw [List.length_append] at this
  omega

/-- A pattern is not found exactly when it does not occur. -/
theorem find_eq_none_iff (pat s : Bytes) : find pat s = none ↔ ¬ pat <:+: s := by
  induction s with
  | nil =>
      rw [find, List.infix_nil]
      cases pat <;> simp
  | cons b s ih =>
      rw [find, List.infix_cons_iff, not_or, ← ih]
      by_cases hpre : pat.isPrefixOf (b :: s) = true
      · rw [if_pos hpre]
        exact iff_of_false (Option.some_ne_none _)
          fun h => h.1 (List.isPrefixOf_iff_prefix.1 hpre)
      · rw [if_neg hpre, Option.map_eq_none_iff]
        exact ⟨fun h => ⟨fun hp => hpre (List.isPrefixOf_iff_prefix.2 hp), h⟩, fun h => h.2⟩

theorem find_isSome_iff (pat s : Bytes) : (find pat s).isSome = true ↔ pat <:+: s := by
  rw [← not_iff_not, ← find_eq_none_iff, Bool.not_eq_true, Option.isSome_eq_false_iff,
    Option.isNone_iff_eq_none]

/-! ## A text put together with the delimiter -/

/-- A pattern that does not begin in the first part of a text is searched for in the second one. -/
theorem find_append {pat : Bytes} (b : Bytes) : ∀ {a : Bytes},
    ¬ pat <:+: a ++ b.take (pat.length - 1) → find pat (a ++ b) = (find pat b).map (· + a.length) := by
  intro a
  induction a with
  | nil => intro _; simp
  | cons c a ih =>
      intro h
      rw [List.cons_append, List.infix_cons_iff, not_or] at h
      have hpre : ¬ pat.isPrefixOf (c :: (a ++ b)) = true := by
        intro hp
        have hp := List.isPrefixOf_iff_prefix.1 hp
        have hfront : c :: (a ++ b.take (pat.length - 1)) <+: c :: (a ++ b) :=
          List.cons_prefix_cons.2 ⟨rfl, (List.prefix_append_right_inj a).2 (List.take_prefix _ _)⟩
        -- the pattern ends in what is kept of the second part, or nothing of it is cut off
        by_cases hlong : pat.length - 1 ≤ b.length
        · refine h.1 (List.prefix_of_prefix_length_le hp hfront ?_)
          rw [List.length_cons, List.length_append, List.length_take, Nat.min_eq_left hlong]
          omega
        · rw [List.take_of_length_le (by omega)] at h
          exact h.1 hp
      rw [List.cons_append, find, if_neg hpre, ih h.2, Option.map_map]
      rfl

/-- What is found in a text is found in any longer one. -/
theorem find_append_left {pat t : Bytes} : ∀ {s : Bytes} {n : Nat}, find pat s = some n →
    find pat (s ++ t) = some n := by
  intro s
  induction s with
  | nil =>
      intro n h
      rw [find] at h
      split at h
      · next hpat =>
          cases h
          rw [List.isEmpty_iff.1 hpat]
          exact find_self [] t
      · cases h
  | cons b s ih =>
      intro n h
      rw [find] at h
      by_cases hpre : pat.isPrefixOf (b :: s) = true
      · rw [if_pos hpre] at h
        have hlong : pat.isPrefixOf (b :: (s ++ t)) = true :=
          List.isPrefixOf_iff_prefix.2 ((List.isPrefixOf_iff_prefix.1 hpre).trans ⟨t, rfl⟩)
        rw [List.cons_append, find, if_pos hlong, h]
      · rw [if_neg hpre, Option.map_eq_some_iff] at h
        obtain ⟨n', hn', rfl⟩ := h
        by_cases hlong : pat.isPrefixOf (b :: (s ++ t)) = true
        · -- an occurrence inside `s` leaves room for one at its front
          have hle := find_add_length_le hn'
          refine absurd (List.isPrefixOf_iff_prefix.2 ?_) hpre
          refine List.prefix_of_prefix_length_le (List.isPrefixOf_iff_prefix.1 hlong)
            ⟨t, List.cons_append⟩ ?_
          rw [List.length_cons]
          omega
        · rw [List.cons_append, find, if_neg hlong, ih hn']
          rfl

/-- The pattern stands where it is found. -/
theorem find_prefix {pat : Bytes} : ∀ {s : Bytes} {n : Nat}, find pat s = some n →
    pat <+: s.drop n := by
  intro s
  induction s with
  | nil =>
      intro n h
      rw [find] at h
      split at h
      · next hpat =>
          cases h
          rw [List.isEmpty_iff.1 hpat]
          exact List.nil_prefix
      · cases h
  | cons b s ih =>
      intro n h
      rw [find] at h
      by_cases hpre : pat.isPrefixOf (b :: s) = true
      · rw [if_pos hpre] at h
        cases h
        exact List.isPrefixOf_iff_prefix.1 hpre
      · rw [if_neg hpre, Option.map_eq_some_iff] at h
        obtain ⟨n', hn', rfl⟩ := h
        exact ih hn'

/-- Where a pattern is found in the first bytes of a text. -/
theorem find_take {pat s : Bytes} {n : Nat} (h : find pat s = some n) (m : Nat) :
    find pat (s.take m) = if n + pat.length ≤ m then some n else none := by
  cases hfind : find pat (s.take m) with
  | none =>
      split
      · next hm =>
        obtain ⟨rest, hrest⟩ := find_prefix h
        have hle := find_add_length_le h
        refine absurd ?_ ((find_eq_none_iff pat (s.take m)).1 hfind)
        refine List.IsInfix.trans ⟨s.take n, [], rfl⟩
          (List.IsPrefix.isInfix ?_ : s.take n ++ pat ++ [] <:+: _)
        rw [List.append_nil]
        refine List.prefix_of_prefix_length_le ⟨rest, ?_⟩ (List.take_prefix m s) ?_
        · rw [List.append_assoc, hrest, List.take_append_drop]
        · rw [List.length_append, List.length_take, List.length_take]
          omega
      · rfl
  | some k =>
      have hsame := find_append_left (t := s.drop m) hfind
      rw [List.take_append_drop, h, Option.some.injEq] at hsame
      have hle := find_add_length_le hfind
      rw [List.length_take] at hle
      rw [if_pos (by omega), hsame]

/-- The first occurrence of a pattern, if none begins in the text in front of it. -/
theorem find_eq_length {pat a : Bytes} (h : ¬ pat <:+: a ++ pat.dropLast)
    (rest : Bytes) : find pat (a ++ pat ++ rest) = some a.length := by
  have htake : (pat ++ rest).take (pat.length - 1) = pat.dropLast := by
    rw [List.take_append_of_le_length (Nat.sub_le _ _), List.dropLast_eq_take]
  rw [List.append_assoc, find_append _ (by rw [htake]; exact h), find_self]
  simp

theorem pieces_append {delim a : Bytes} (hdelim : delim ≠ []) (h : ¬ delim <:+: a ++ delim.dropLast)
    (rest : Bytes) : pieces delim (a ++ delim ++ rest) = a :: pieces delim rest := by
  rw [pieces_of_find hdelim (find_eq_length h rest), List.append_assoc, List.take_left,
    ← List.drop_drop, List.drop_left, List.drop_left]

theorem fields_append {delim a : Bytes} (hdelim : delim ≠ []) (h : ¬ delim <:+: a ++ delim.dropLast)
    (rest : Bytes) : fields delim (a ++ delim ++ rest) = a :: fields delim rest := by
  rw [fields, List.append_assoc, pieces_append hdelim h,
    List.dropLast_cons_of_ne_nil (pieces_ne_nil _ _)]
  rfl

theorem fields_self {delim a : Bytes} (hdelim : delim ≠ [])
    (h : ¬ delim <:+: a ++ delim.dropLast) : fields delim a = [a] := by
  have hnone : find delim [] = none := by rw [find, if_neg (by simpa using hdelim)]
  have hpieces := pieces_append hdelim h []
  rw [List.append_nil, pieces_of_not_found hnone] at hpieces
  rw [fields, hpieces]
  rfl

/-! ## Patterns and separators -/

/-- A pattern without the byte `c` occurs on one side of it. -/
theorem infix_append_cons_iff {pat b : Bytes} {c : UInt8} (hc : c ∉ pat) : ∀ {a : Bytes},
    pat <:+: a ++ c :: b ↔ pat <:+: a ∨ pat <:+: b := by
  have hpre : ∀ (a pat : Bytes), c ∉ pat → pat <+: a ++ c :: b → pat <+: a := by
    intro a
    induction a with
    | nil =>
        intro pat hc h
        cases pat with
        | nil => exact List.nil_prefix
        | cons p pat =>
            rw [List.nil_append, List.cons_prefix_cons] at h
            exact absurd (h.1 ▸ List.mem_cons_self) hc
    | cons d a ih =>
        intro pat hc h
        cases pat with
        | nil => exact List.nil_prefix
        | cons p pat =>
            rw [List.cons_append, List.cons_prefix_cons] at h
            rw [List.cons_prefix_cons]
            exact ⟨h.1, ih pat (fun hm => hc (List.mem_cons_of_mem p hm)) h.2⟩
  intro a
  induction a with
  | nil =>
      rw [List.nil_append, List.infix_cons_iff, List.infix_nil]
      refine or_congr_left ⟨fun h => ?_, fun h => ?_⟩
      · exact List.prefix_nil.1 (hpre [] pat hc h)
      · rw [h]
        exact List.nil_prefix
  | cons d a ih =>
      rw [List.cons_append, List.infix_cons_iff, ih, List.infix_cons_iff, or_assoc]
      refine or_congr_left ⟨fun h => hpre (d :: a) pat hc h, fun h => ?_⟩
      exact h.trans ⟨c :: b, rfl⟩

/-- A text that has no byte in common with the pattern does not matter in front. -/
theorem infix_append_of_disjoint {pat b : Bytes} : ∀ {a : Bytes}, (∀ c ∈ a, c ∉ pat) →
    (pat <:+: a ++ b ↔ pat <:+: b) := by
  intro a
  induction a with
  | nil => intro _; exact Iff.rfl
  | cons c a ih =>
      intro h
      have hsplit := infix_append_cons_iff (a := []) (b := a ++ b) (h c List.mem_cons_self)
      rw [List.nil_append] at hsplit
      rw [List.cons_append, hsplit, ih fun d hd => h d (List.mem_cons_of_mem c hd), List.infix_nil]
      refine or_iff_right_of_imp fun hnil => ?_
      rw [hnil]
      exact List.nil_infix

/-- A pattern that ends with the only `c` of the text ends where that byte stands. -/
theorem infix_concat_iff (pat : Bytes) {a b : Bytes} {c : UInt8} (ha : c ∉ a) (hb : c ∉ b) :
    pat ++ [c] <:+: a ++ c :: b ↔ pat <:+ a := by
  constructor
  · rintro ⟨s, t, h⟩
    rw [← List.append_assoc, List.append_assoc, List.singleton_append,
      List.append_eq_append_iff] at h
    rcases h with ⟨rest, ha', hrest⟩ | ⟨rest, hs, hrest⟩
    · cases rest with
      | nil => exact ⟨s, by rw [ha', List.append_nil]⟩
      | cons d rest =>
          rw [List.cons_append, List.cons.injEq] at hrest
          refine absurd ?_ ha
          rw [ha', ← hrest.1]
          simp
    · cases rest with
      | nil => exact ⟨s, by rw [hs, List.append_nil]⟩
      | cons d rest =>
          rw [List.cons_append, List.cons.injEq] at hrest
          refine absurd ?_ hb
          rw [hrest.2]
          simp
  · rintro ⟨s, rfl⟩
    exact ⟨s, b, by simp⟩

/-- A pattern that ends with `c` and stands in front is the whole text in front of the first one. -/
theorem concat_prefix_iff (pat : Bytes) {b : Bytes} {c : UInt8} : ∀ {a : Bytes}, c ∉ pat → c ∉ a →
    (pat ++ [c] <+: a ++ c :: b ↔ a = pat) := by
  induction pat with
  | nil =>
      intro a _ ha
      cases a with
      | nil => simp
      | cons d a =>
          rw [List.mem_cons, not_or] at ha
          rw [List.nil_append, List.cons_append, List.cons_prefix_cons]
          exact iff_of_false (fun h => ha.1 h.1) (List.cons_ne_nil d a)
  | cons p pat ih =>
      intro a hpat ha
      rw [List.mem_cons, not_or] at hpat
      cases a with
      | nil =>
          rw [List.nil_append, List.cons_append, List.cons_prefix_cons]
          exact iff_of_false (fun h => hpat.1 h.1.symm) (List.cons_ne_nil p pat).symm
      | cons d a =>
          rw [List.mem_cons, not_or] at ha
          rw [List.cons_append, List.cons_append, List.cons_prefix_cons, ih hpat.2 ha.2,
            List.cons.injEq, eq_comm (a := p)]

/-- A pattern that begins with the separator `c` begins at one. -/
theorem cons_infix_append_cons_iff {pat b : Bytes} {c : UInt8} : ∀ {a : Bytes}, c ∉ a →
    (c :: pat <:+: a ++ c :: b ↔ pat <+: b ∨ c :: pat <:+: b) := by
  intro a
  induction a with
  | nil =>
      intro _
      rw [List.nil_append, List.infix_cons_iff, List.cons_prefix_cons, eq_self_iff_true, true_and]
  | cons d a ih =>
      intro ha
      rw [List.mem_cons, not_or] at ha
      rw [List.cons_append, List.infix_cons_iff, ih ha.2, List.cons_prefix_cons]
      exact or_iff_right fun h => ha.1 h.1

end CloudLabs.Foundation
