import CloudLabs.Foundation.Bytes

/-!
# Reading from a connection

`Incoming` is what the reads of one end of a connection meet, in order: the bytes of the stream, the
points where a short read stops, and the failures in between; its end is the end of the connection.
`recvNF` returns what has arrived, up to a bound and at least one byte, and `recv` waits for exactly
the bytes asked for. A failure comes before the first byte of a read and takes nothing from the
stream.

`recvNF_spec` and `recv_spec` say what each outcome of a read leaves of the stream.
-/

set_option autoImplicit false

namespace CloudLabs.Foundation

/-- Why a read fails while the connection is open. -/
inductive Failure where
  | timeout
  | network
  deriving DecidableEq

/-- What a read meets. -/
inductive Event where
  | byte (b : UInt8)
  | cut
  | fail (f : Failure)
  deriving DecidableEq

/-- One direction of a connection, from the next event to the closing. -/
abbrev Incoming := List Event

/-- The byte stream. -/
def received : Incoming → Bytes
  | [] => []
  | .byte b :: t => b :: received t
  | .cut :: t => received t
  | .fail _ :: t => received t

/-- No read fails on these events. -/
def NoFail (t : Incoming) : Prop := ∀ f, Event.fail f ∉ t

/-- The outcome of a read, with what is left of the connection. -/
inductive Read where
  | got (bs : Bytes) (t : Incoming)
  | failed (f : Failure) (t : Incoming)
  | closed
  deriving DecidableEq

/-- The bytes up to the end of the piece, and no more than `n` of them. -/
def piece : Nat → Incoming → Bytes × Incoming
  | n + 1, .byte b :: t => (b :: (piece n t).1, (piece n t).2)
  | _, t => ([], t)

/-- A read of at most `len` bytes that returns as soon as there is one. -/
def recvNF (len : Nat) : Incoming → Read
  | [] => .closed
  | .cut :: t => recvNF len t
  | .fail f :: t => .failed f t
  | .byte b :: t => .got (b :: (piece (len - 1) t).1) (piece (len - 1) t).2

/-- The next `n` bytes, however they arrive; `none` if the connection ends before. -/
def collect : Nat → Incoming → Option (Bytes × Incoming)
  | 0, t => some ([], t)
  | _ + 1, [] => none
  | n + 1, .byte b :: t => (collect n t).map fun r => (b :: r.1, r.2)
  | n + 1, .cut :: t => collect (n + 1) t
  | n + 1, .fail _ :: t => collect (n + 1) t

/-- A read of exactly `n` bytes, once the connection is ready. -/
def recvReady (n : Nat) : Incoming → Read
  | .cut :: t => recvReady n t
  | .fail f :: t => .failed f t
  | t =>
      match collect n t with
      | none => .closed
      | some r => .got r.1 r.2

/-- A read of exactly `len` bytes; a length that is not positive asks for none. -/
def recv (len : Int) (t : Incoming) : Read :=
  if len = 0 then .got [] t else recvReady len.toNat t

/-! ## The stream -/

@[simp] theorem received_nil : received [] = [] := rfl
@[simp] theorem received_byte (b : UInt8) (t : Incoming) :
    received (.byte b :: t) = b :: received t := rfl
@[simp] theorem received_cut (t : Incoming) : received (.cut :: t) = received t := rfl
@[simp] theorem received_fail (f : Failure) (t : Incoming) :
    received (.fail f :: t) = received t := rfl

@[simp] theorem received_append (s t : Incoming) : received (s ++ t) = received s ++ received t := by
  induction s with
  | nil => rfl
  | cons e s ih => cases e <;> simp [ih]

theorem NoFail.nil : NoFail [] := by
  intro f h
  cases h

theorem NoFail.append {s t : Incoming} (hs : NoFail s) (ht : NoFail t) : NoFail (s ++ t) := by
  intro f h
  rcases List.mem_append.1 h with h | h
  · exact hs f h
  · exact ht f h

theorem NoFail.left {s t : Incoming} (h : NoFail (s ++ t)) : NoFail s :=
  fun f hf => h f (List.mem_append_left _ hf)

theorem NoFail.right {s t : Incoming} (h : NoFail (s ++ t)) : NoFail t :=
  fun f hf => h f (List.mem_append_right _ hf)

theorem noFail_byte (b : UInt8) : NoFail [.byte b] := by
  intro f h
  simp at h

theorem noFail_cut : NoFail [.cut] := by
  intro f h
  simp at h

/-- The events before the first byte of a stream. -/
theorem exists_gap : ∀ {t : Incoming} {b : UInt8} {s : Bytes}, received t = b :: s →
    ∃ gap t', t = gap ++ .byte b :: t' ∧ received gap = [] ∧ received t' = s
  | .byte c :: t, b, s, h => by
      rw [received_byte, List.cons.injEq] at h
      obtain ⟨rfl, h⟩ := h
      exact ⟨[], t, rfl, rfl, h⟩
  | .cut :: t, b, s, h => by
      obtain ⟨gap, t', rfl, hgap, ht'⟩ := exists_gap (t := t) h
      exact ⟨.cut :: gap, t', rfl, hgap, ht'⟩
  | .fail f :: t, b, s, h => by
      obtain ⟨gap, t', rfl, hgap, ht'⟩ := exists_gap (t := t) h
      exact ⟨.fail f :: gap, t', rfl, hgap, ht'⟩

/-! ## What a read leaves -/

theorem piece_spec (n : Nat) (t : Incoming) :
    ∃ used, t = used ++ (piece n t).2 ∧ received used = (piece n t).1 ∧ NoFail used ∧
      (piece n t).1.length ≤ n := by
  induction n generalizing t with
  | zero => exact ⟨[], rfl, rfl, NoFail.nil, le_refl _⟩
  | succ n ih =>
      cases t with
      | nil => exact ⟨[], rfl, rfl, NoFail.nil, Nat.zero_le _⟩
      | cons e t =>
          cases e with
          | byte b =>
              obtain ⟨used, ht, hrec, hno, hlen⟩ := ih t
              refine ⟨.byte b :: used, ?_, ?_, (noFail_byte b).append hno, ?_⟩
              · rw [piece, List.cons_append, ← ht]
              · rw [received_byte, hrec, piece]
              · rw [piece, List.length_cons]
                omega
          | cut => exact ⟨[], rfl, rfl, NoFail.nil, Nat.zero_le _⟩
          | fail f => exact ⟨[], rfl, rfl, NoFail.nil, Nat.zero_le _⟩

/-- The outcomes of a short read: some bytes from the front of the stream, a failure that takes
none, or the end of a stream that is empty. -/
theorem recvNF_spec (len : Nat) (t : Incoming) :
    match recvNF len t with
    | .got bs t' => ∃ used, t = used ++ t' ∧ received used = bs ∧ NoFail used ∧ bs ≠ [] ∧
        bs.length ≤ max 1 len
    | .failed f t' => ∃ used, t = used ++ .fail f :: t' ∧ received used = [] ∧ NoFail used
    | .closed => received t = [] ∧ NoFail t := by
  induction t with
  | nil => exact ⟨rfl, NoFail.nil⟩
  | cons e t ih =>
      cases e with
      | byte b =>
          obtain ⟨used, ht, hrec, hno, hlen⟩ := piece_spec (len - 1) t
          refine ⟨.byte b :: used, ?_, ?_, (noFail_byte b).append hno, List.cons_ne_nil _ _, ?_⟩
          · rw [List.cons_append, ← ht]
          · rw [received_byte, hrec]
          · rw [List.length_cons]
            omega
      | cut =>
          rw [recvNF]
          cases h : recvNF len t with
          | got bs t' =>
              rw [h] at ih
              obtain ⟨used, ht, hrec, hno, hne⟩ := ih
              exact ⟨.cut :: used, congrArg (List.cons Event.cut) ht, hrec, noFail_cut.append hno, hne⟩
          | failed f t' =>
              rw [h] at ih
              obtain ⟨used, ht, hrec, hno⟩ := ih
              exact ⟨.cut :: used, congrArg (List.cons Event.cut) ht, hrec, noFail_cut.append hno⟩
          | closed =>
              rw [h] at ih
              exact ⟨ih.1, noFail_cut.append ih.2⟩
      | fail f => exact ⟨[], rfl, rfl, NoFail.nil⟩

theorem collect_spec (n : Nat) (t : Incoming) :
    match collect n t with
    | some (bs, t') => ∃ used, t = used ++ t' ∧ received used = bs ∧ bs.length = n
    | none => (received t).length < n := by
  induction t generalizing n with
  | nil =>
      cases n with
      | zero => exact ⟨[], rfl, rfl, rfl⟩
      | succ n => exact Nat.succ_pos n
  | cons e t ih =>
      cases n with
      | zero => exact ⟨[], rfl, rfl, rfl⟩
      | succ n =>
          cases e with
          | byte b =>
              have ih := ih n
              rw [collect]
              cases h : collect n t with
              | none =>
                  rw [h] at ih
                  exact Nat.succ_lt_succ ih
              | some r =>
                  rw [h] at ih
                  obtain ⟨used, ht, hrec, hlen⟩ := ih
                  exact ⟨.byte b :: used, congrArg (List.cons (Event.byte b)) ht,
                    congrArg (List.cons b) hrec, congrArg Nat.succ hlen⟩
          -- the end of a short read: the read goes on with as much still to come
          | cut =>
              have ih := ih (n + 1)
              rw [collect]
              cases h : collect (n + 1) t with
              | none =>
                  rw [h] at ih
                  exact ih
              | some r =>
                  rw [h] at ih
                  obtain ⟨used, ht, hrec, hlen⟩ := ih
                  exact ⟨.cut :: used, congrArg (List.cons Event.cut) ht, hrec, hlen⟩
          -- a failed call is repeated, and has taken nothing
          | fail f =>
              have ih := ih (n + 1)
              rw [collect]
              cases h : collect (n + 1) t with
              | none =>
                  rw [h] at ih
                  exact ih
              | some r =>
                  rw [h] at ih
                  obtain ⟨used, ht, hrec, hlen⟩ := ih
                  exact ⟨.fail f :: used, congrArg (List.cons (Event.fail f)) ht, hrec, hlen⟩

/-- The outcomes of a full read. -/
theorem recvReady_spec (n : Nat) (t : Incoming) :
    match recvReady n t with
    | .got bs t' => ∃ used, t = used ++ t' ∧ received used = bs ∧ bs.length = n
    | .failed f t' => ∃ used, t = used ++ .fail f :: t' ∧ received used = []
    | .closed => (received t).length < n := by
  have hcollect (t : Incoming) (h : recvReady n t =
      match collect n t with | none => .closed | some r => .got r.1 r.2) :
      match recvReady n t with
      | .got bs t' => ∃ used, t = used ++ t' ∧ received used = bs ∧ bs.length = n
      | .failed f t' => ∃ used, t = used ++ .fail f :: t' ∧ received used = []
      | .closed => (received t).length < n := by
    have hspec := collect_spec n t
    rw [h]
    cases hc : collect n t with
    | none => rwa [hc] at hspec
    | some r => rwa [hc] at hspec
  induction t with
  | nil => exact hcollect [] rfl
  | cons e t ih =>
      cases e with
      | byte b => exact hcollect _ rfl
      | cut =>
          rw [recvReady]
          cases h : recvReady n t with
          | got bs t' =>
              rw [h] at ih
              obtain ⟨used, ht, hrec, hlen⟩ := ih
              exact ⟨.cut :: used, congrArg (List.cons Event.cut) ht, hrec, hlen⟩
          | failed f t' =>
              rw [h] at ih
              obtain ⟨used, ht, hrec⟩ := ih
              exact ⟨.cut :: used, congrArg (List.cons Event.cut) ht, hrec⟩
          | closed =>
              rw [h] at ih
              exact ih
      | fail f => exact ⟨[], rfl, rfl⟩

/-- The outcomes of a read of `n` bytes. -/
theorem recv_spec (n : Nat) (t : Incoming) :
    match recv n t with
    | .got bs t' => ∃ used, t = used ++ t' ∧ received used = bs ∧ bs.length = n
    | .failed f t' => ∃ used, t = used ++ .fail f :: t' ∧ received used = []
    | .closed => (received t).length < n := by
  unfold recv
  by_cases h : (n : Int) = 0
  · rw [if_pos h]
    exact ⟨[], rfl, rfl, by simp at h; exact h.symm⟩
  · rw [if_neg h]
    exact recvReady_spec n t

end CloudLabs.Foundation
