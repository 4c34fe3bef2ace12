import CloudLabs.Foundation.Socket
import CloudLabs.KvStore.Participant

/-!
# Reading messages from a connection

`Network` reads two formats. `recvCommand` reads a client's command, a RESP array, one byte at a
time: `readHeader` is its loop for a header line, `readContent` its loop for the bytes of a string.
`Network.recv` and the second half of `sendAndRecv` read a frame: the byte `~`, the length as eight
bytes, and the payload.

Each loop is bounded by the number of events that are left, which it cannot outrun; `none` stands
for a loop that reaches the bound.
-/

set_option autoImplicit false

namespace CloudLabs.KvStore

open CloudLabs.Foundation

def KV_TIMEOUT : Int := -3
def KV_NETWORK_CLOSE : Int := -7
def KV_BAD_COMMAD : Int := -11

/-- The return code of a read that fails. -/
def codeOf : Failure → Int
  | .timeout => KV_TIMEOUT
  | .network => KV_NETWORK

theorem codeOf_ne_ok (f : Failure) : codeOf f ≠ KV_OK := by
  cases f <;> decide

/-! ## Commands -/

/-- The variable `step` of a header loop. -/
inductive HeaderStep where
  | marker
  | number
  | lineEnd
  deriving DecidableEq

/-- What a header loop does with the byte it has read: it goes on, ends the line, or gives up. -/
inductive HeaderNext where
  | more (step : HeaderStep) (header : Bytes)
  | line (header : Bytes)
  | bad

/-- The body of a header loop, after a read of one byte. -/
def headerByte (marker : UInt8) (step : HeaderStep) (header headerBuf : Bytes) : HeaderNext :=
  match step with
  | .marker => if marker ∈ headerBuf then .more .number header else .more .marker header
  | .number =>
      if 13 ∈ headerBuf then .more .lineEnd header
      else if isDigit (headerBuf.headD 0) then .more .number (header ++ headerBuf)
      else .bad
  | .lineEnd => if 10 ∈ headerBuf then .line header else .bad

/-- The two header loops of `recvCommand`. The loop for the number of strings gives up when a read
fails (`strict`), the loop for a string's length only when the connection is closed. -/
def readHeaderLoop (strict : Bool) (marker : UInt8) :
    Nat → HeaderStep → Bytes → Incoming → Option (Except Int Bytes × Incoming)
  | 0, _, _, _ => none
  | fuel + 1, step, header, t =>
      match recvNF 1 t with
      | .closed => some (.error KV_NETWORK_CLOSE, [])
      | .failed f t =>
          if strict then some (.error (codeOf f), t)
          else readHeaderLoop strict marker fuel step header t
      | .got headerBuf t =>
          match headerByte marker step header headerBuf with
          | .more step header => readHeaderLoop strict marker fuel step header t
          | .line header => some (.ok header, t)
          | .bad => some (.error KV_BAD_COMMAD, t)

def readHeader (strict : Bool) (marker : UInt8) (t : Incoming) :
    Option (Except Int Bytes × Incoming) :=
  readHeaderLoop strict marker (t.length + 1) .marker [] t

/-- The string made of the first `recvLen` bytes of a new buffer after a read into it. Bytes that
the read did not fill are what `heap` holds there. -/
def bufString (heap : Nat → UInt8) (bs : Bytes) (recvLen : Nat) : Bytes :=
  bs ++ (List.range' bs.length (recvLen - bs.length)).map heap

/-- The loop that reads `contentLen` bytes. The length of each read is cut down to an `int`. -/
def readContentLoop (heap : Nat → UInt8) (contentLen : Nat) :
    Nat → Bytes → Incoming → Option (Except Int Bytes × Incoming)
  | 0, _, _ => none
  | fuel + 1, content, t =>
      if content.length = contentLen then some (.ok content, t)
      else
        let recvLen := contentLen - content.length
        match recv (toInt32 recvLen) t with
        | .closed => some (.error KV_NETWORK_CLOSE, [])
        | .failed _ t => readContentLoop heap contentLen fuel content t
        | .got bs t => readContentLoop heap contentLen fuel (content ++ bufString heap bs recvLen) t

def readContent (heap : Nat → UInt8) (contentLen : Nat) (t : Incoming) :
    Option (Except Int Bytes × Incoming) :=
  readContentLoop heap contentLen (t.length + 2) [] t

/-- The loop of `recvCommand` over the announced strings; `str` is the output vector. -/
def readStrings (heap : Nat → UInt8) :
    Nat → List Bytes → Incoming → Option (Int × List Bytes × Incoming)
  | 0, str, t => some (KV_OK, str, t)
  | num + 1, str, t =>
      match readHeader false 36 t with
      | none => none
      | some (.error rc, t) => some (rc, str, t)
      | some (.ok header, t) =>
          match readContent heap (toUInt64 (strtol header)) t with
          | none => none
          | some (.error rc, t) => some (rc, str, t)
          | some (.ok content, t) => readStrings heap num (str ++ [content]) t

/-- `Network::recvCommand`: the return code, the output vector and what is left to read. -/
def recvCommand (heap : Nat → UInt8) (t : Incoming) : Option (Int × List Bytes × Incoming) :=
  match readHeader true 42 t with
  | none => none
  | some (.error rc, t) => some (rc, [], t)
  | some (.ok header, t) => readStrings heap (toUInt64 (strtol header)) [] t

/-! ## Frames -/

/-- `numtob` of a `uint64_t`. -/
def numtob (n : Nat) : Bytes := (List.range 8).map fun i => UInt8.ofNat (n / 256 ^ i)

/-- The number stored in eight bytes. -/
def leNat : Bytes → Nat
  | [] => 0
  | b :: bs => b.toNat + 256 * leNat bs

/-- `btonum` of a `uint64_t`. -/
def btonum (str : Bytes) (offset : Nat) : Nat := leNat ((str.drop offset).take 8)

/-- The packet that `Network::send` and `sendAndRecv` send for a message. -/
def packet (msg : Bytes) : Bytes := 126 :: (numtob (msg.length % 2 ^ 64) ++ msg)

def NETWORK_HEADER_LEN : Nat := 9

/-- The header after another read: up to the first `~` everything is thrown away. -/
def headerRead (header headerBuf : Bytes) : Bytes :=
  if header = [] then
    match find [126] headerBuf with
    | none => []
    | some pos => headerBuf.drop pos
  else header ++ headerBuf

/-- The header loop of `Network::recv`, which ends when the connection is closed. -/
def frameHeaderLoop : Nat → Bytes → Incoming → Option (Except Int Bytes × Incoming)
  | 0, _, _ => none
  | fuel + 1, header, t =>
      if header.length = NETWORK_HEADER_LEN then some (.ok header, t)
      else
        match recvNF (NETWORK_HEADER_LEN - header.length) t with
        | .closed => some (.error KV_NETWORK_CLOSE, [])
        | .failed _ t => frameHeaderLoop fuel header t
        | .got headerBuf t => frameHeaderLoop fuel (headerRead header headerBuf) t

/-- `Network::recv`: the return code, the content and what is left to read. -/
def Network.recv (heap : Nat → UInt8) (t : Incoming) : Option (Int × Bytes × Incoming) :=
  match frameHeaderLoop (t.length + 2) [] t with
  | none => none
  | some (.error rc, t) => some (rc, [], t)
  | some (.ok header, t) =>
      match readContent heap (btonum header 1) t with
      | none => none
      | some (.error rc, t) => some (rc, [], t)
      | some (.ok content, t) => some (KV_OK, content, t)

/-- The header loop of `sendAndRecv`, with full reads; it ends with the first one that fails. -/
def replyHeaderLoop : Nat → Bytes → Incoming → Option (Except Int Bytes × Incoming)
  | 0, _, _ => none
  | fuel + 1, header, t =>
      if header.length = NETWORK_HEADER_LEN then some (.ok header, t)
      else
        match Foundation.recv (NETWORK_HEADER_LEN - header.length : Nat) t with
        | .closed => some (.error KV_NETWORK_CLOSE, [])
        | .failed f t => some (.error (codeOf f), t)
        | .got headerBuf t => replyHeaderLoop fuel (headerRead header headerBuf) t

/-- The content loop of `sendAndRecv`, with short reads. It is defined for contents shorter than
`2 ^ 31`, where the length of a read is an `int`. -/
def replyContentLoop (contentLen : Nat) : Nat → Bytes → Incoming → Option (Int × Bytes × Incoming)
  | 0, _, _ => none
  | fuel + 1, rmsg, t =>
      if rmsg.length = contentLen then some (KV_OK, rmsg, t)
      else if 2 ^ 31 ≤ contentLen - rmsg.length then none
      else
        match recvNF (contentLen - rmsg.length) t with
        | .closed => some (KV_NETWORK_CLOSE, rmsg, [])
        | .failed f t => some (codeOf f, rmsg, t)
        | .got bs t => replyContentLoop contentLen fuel (rmsg ++ bs) t

/-- The half of `sendAndRecv` that reads the reply: the return code, `rmsg` and what is left to
read. -/
def recvReply (rmsg : Bytes) (t : Incoming) : Option (Int × Bytes × Incoming) :=
  match replyHeaderLoop (t.length + 2) [] t with
  | none => none
  | some (.error rc, t) => some (rc, rmsg, t)
  | some (.ok header, t) =>
      if btonum header 1 = 0 then some (KV_OK, rmsg, t)
      else replyContentLoop (btonum header 1) (t.length + 2) [] t

/-! ## Reading a header line -/

section Header

variable {strict : Bool} {marker : UInt8}

theorem readHeaderLoop_cut (fuel : Nat) (step : HeaderStep) (header : Bytes) (t : Incoming) :
    readHeaderLoop strict marker fuel step header (.cut :: t) =
      readHeaderLoop strict marker fuel step header t := by
  cases fuel <;> rfl

/-- The loop passes over the events before the next byte, unless it gives up on a failure there. -/
theorem readHeaderLoop_gap (strict : Bool) (marker : UInt8) (step : HeaderStep) (header : Bytes)
    (b : UInt8) (t : Incoming)
    {gap : Incoming} (hgap : received gap = []) (hno : strict = true → NoFail gap) :
    ∀ {fuel : Nat}, (gap ++ .byte b :: t).length < fuel → ∃ fuel', t.length < fuel' ∧
      readHeaderLoop strict marker fuel step header (gap ++ .byte b :: t) =
        match headerByte marker step header [b] with
        | .more step header => readHeaderLoop strict marker fuel' step header t
        | .line header => some (.ok header, t)
        | .bad => some (.error KV_BAD_COMMAD, t) := by
  induction gap with
  | nil =>
      intro fuel hfuel
      obtain ⟨fuel, rfl⟩ : ∃ f, fuel = f + 1 := ⟨fuel - 1, by omega⟩
      refine ⟨fuel, ?_, rfl⟩
      simpa using hfuel
  | cons e gap ih =>
      intro fuel hfuel
      rw [List.cons_append, List.length_cons] at hfuel
      cases e with
      | byte c => cases hgap
      | cut =>
          rw [List.cons_append, readHeaderLoop_cut]
          exact ih hgap (fun h f hf => hno h f (List.mem_cons_of_mem _ hf)) (by omega)
      | fail f =>
          -- only a loop that does not give up gets here
          have hstrict : strict = false := by
            cases hs : strict with
            | false => rfl
            | true => exact absurd List.mem_cons_self (hno hs f)
          obtain ⟨fuel, rfl⟩ : ∃ f, fuel = f + 1 := ⟨fuel - 1, by omega⟩
          obtain ⟨fuel', hfuel', heq⟩ := ih hgap (by simp [hstrict])
            (show (gap ++ .byte b :: t).length < fuel by omega)
          refine ⟨fuel', hfuel', ?_⟩
          rw [← heq, List.cons_append, readHeaderLoop, recvNF]
          simp only [hstrict, Bool.false_eq_true, if_false]

/-- The same for a stream of which the next byte is known. -/
theorem readHeaderLoop_next (strict : Bool) (marker : UInt8) (step : HeaderStep) (header : Bytes)
    {t : Incoming} {b : UInt8}
    {s : Bytes} (ht : received t = b :: s) (hno : strict = true → NoFail t) {fuel : Nat}
    (hfuel : t.length < fuel) : ∃ t' fuel', t'.length < fuel' ∧ received t' = s ∧
      (strict = true → NoFail t') ∧
      readHeaderLoop strict marker fuel step header t =
        match headerByte marker step header [b] with
        | .more step header => readHeaderLoop strict marker fuel' step header t'
        | .line header => some (.ok header, t')
        | .bad => some (.error KV_BAD_COMMAD, t') := by
  obtain ⟨gap, t', rfl, hgap, ht'⟩ := exists_gap ht
  obtain ⟨fuel', hfuel', heq⟩ := readHeaderLoop_gap strict marker step header b t' hgap
    (fun h => (hno h).left) hfuel
  exact ⟨t', fuel', hfuel', ht', fun h f hf => hno h f (by simp [hf]), heq⟩

theorem readHeaderLoop_lineEnd (header : Bytes) {t : Incoming} {s : Bytes}
    (ht : received t = 10 :: s) (hno : strict = true → NoFail t) {fuel : Nat}
    (hfuel : t.length < fuel) :
    ∃ t', readHeaderLoop strict marker fuel .lineEnd header t = some (.ok header, t') ∧
      received t' = s := by
  obtain ⟨t', fuel', -, ht', -, heq⟩ := readHeaderLoop_next strict marker .lineEnd header ht hno
    hfuel
  exact ⟨t', heq, ht'⟩

theorem ne_cr_of_isDigit {b : UInt8} (h : isDigit b = true) : (13 : UInt8) ∉ [b] := by
  intro hb
  rw [List.mem_singleton] at hb
  subst hb
  exact absurd h (by decide)

/-- The digits of the number are collected up to the end of the line. -/
theorem readHeaderLoop_number (digits : Bytes) (hdigits : ∀ d ∈ digits, isDigit d = true)
    {s : Bytes} : ∀ (header : Bytes) {t : Incoming}, received t = digits ++ (crlf ++ s) →
      (strict = true → NoFail t) → ∀ {fuel : Nat}, t.length < fuel →
      ∃ t', readHeaderLoop strict marker fuel .number header t = some (.ok (header ++ digits), t') ∧
        received t' = s := by
  induction digits with
  | nil =>
      intro header t ht hno fuel hfuel
      obtain ⟨t', fuel', hfuel', ht', hno', heq⟩ :=
        readHeaderLoop_next strict marker .number header ht hno hfuel
      rw [heq, List.append_nil]
      exact readHeaderLoop_lineEnd header ht' hno' hfuel'
  | cons d digits ih =>
      intro header t ht hno fuel hfuel
      have hd := hdigits d List.mem_cons_self
      obtain ⟨t', fuel', hfuel', ht', hno', heq⟩ :=
        readHeaderLoop_next strict marker .number header ht hno hfuel
      have hbyte : headerByte marker .number header [d] = .more .number (header ++ [d]) := by
        simp only [headerByte, if_neg (ne_cr_of_isDigit hd), List.headD_cons, hd, if_true]
      rw [heq, hbyte]
      have hrest := ih (fun d' h => hdigits d' (List.mem_cons_of_mem _ h)) (header ++ [d]) ht' hno'
        hfuel'
      rwa [List.append_assoc] at hrest

/-- A header line behind bytes that are not its marker gives the digits of its number. -/
theorem readHeaderLoop_marker (strict : Bool) (junk : Bytes) (hjunk : marker ∉ junk) {digits : Bytes}
    (hdigits : ∀ d ∈ digits, isDigit d = true) {s : Bytes} : ∀ {t : Incoming},
      received t = junk ++ marker :: (digits ++ (crlf ++ s)) → (strict = true → NoFail t) →
      ∀ {fuel : Nat}, t.length < fuel →
      ∃ t', readHeaderLoop strict marker fuel .marker [] t = some (.ok digits, t') ∧
        received t' = s := by
  induction junk with
  | nil =>
      intro t ht hno fuel hfuel
      obtain ⟨t', fuel', hfuel', ht', hno', heq⟩ :=
        readHeaderLoop_next strict marker .marker [] ht hno hfuel
      have hbyte : headerByte marker .marker [] [marker] = .more .number [] := by
        simp only [headerByte, List.mem_singleton, if_true]
      rw [heq, hbyte]
      exact readHeaderLoop_number digits hdigits [] ht' hno' hfuel'
  | cons c junk ih =>
      intro t ht hno fuel hfuel
      rw [List.mem_cons, not_or] at hjunk
      obtain ⟨t', fuel', hfuel', ht', hno', heq⟩ :=
        readHeaderLoop_next strict marker .marker [] ht hno hfuel
      -- a byte in front of the marker is skipped
      have hbyte : headerByte marker .marker [] [c] = .more .marker [] := by
        simp only [headerByte, List.mem_singleton, if_neg hjunk.1]
      rw [heq, hbyte]
      exact ih hjunk.2 ht' hno' hfuel'

theorem recvNF_one_append (t x : Incoming) :
    recvNF 1 (t ++ x) =
      match recvNF 1 t with
      | .got bs t' => .got bs (t' ++ x)
      | .failed f t' => .failed f (t' ++ x)
      | .closed => recvNF 1 x := by
  induction t with
  | nil => rfl
  | cons e t ih =>
      cases e with
      | byte b => rfl
      | cut => exact ih
      | fail f => rfl

/-- A line that was read to its end is read the same way with more to come behind it. -/
theorem readHeaderLoop_append (x : Incoming) : ∀ (fuel : Nat) (step : HeaderStep) (header : Bytes)
    (t : Incoming) {h : Bytes} {t' : Incoming},
    readHeaderLoop strict marker fuel step header t = some (.ok h, t') →
    readHeaderLoop strict marker fuel step header (t ++ x) = some (.ok h, t' ++ x) := by
  intro fuel
  induction fuel with
  | zero => intro step header t h t' heq; cases heq
  | succ fuel ih =>
      intro step header t h t' heq
      rw [readHeaderLoop] at heq ⊢
      rw [recvNF_one_append]
      cases hread : recvNF 1 t with
      | closed => rw [hread] at heq; cases heq
      | failed f t₁ =>
          rw [hread] at heq
          simp only at heq ⊢
          cases hs : strict with
          | true => rw [if_pos hs] at heq; cases heq
          | false =>
              rw [hs] at heq ih
              exact ih _ _ _ heq
      | got bs t₁ =>
          rw [hread] at heq
          simp only at heq ⊢
          cases hbyte : headerByte marker step header bs with
          | bad => rw [hbyte] at heq; cases heq
          | line h' => rw [hbyte] at heq; cases heq; rfl
          | more step' header' =>
              rw [hbyte] at heq
              exact ih _ _ _ heq

/-- The header line of a string, behind bytes that are not `$`. -/
theorem readHeader_of_received {junk digits s : Bytes} {t : Incoming} (hjunk : marker ∉ junk)
    (hdigits : ∀ d ∈ digits, isDigit d = true)
    (ht : received t = junk ++ marker :: (digits ++ (crlf ++ s))) :
    ∃ t', readHeader false marker t = some (.ok digits, t') ∧ received t' = s :=
  readHeaderLoop_marker false junk hjunk hdigits ht (fun h => by cases h) (Nat.lt_succ_self _)

/-- The header line of a command, behind bytes that are not `*`, if no read of it fails. -/
theorem readHeader_strict {junk digits : Bytes} {line : Incoming} (body : Incoming)
    (hno : NoFail line) (hjunk : marker ∉ junk) (hdigits : ∀ d ∈ digits, isDigit d = true)
    (hline : received line = junk ++ marker :: (digits ++ crlf)) :
    ∃ t', readHeader true marker (line ++ body) = some (.ok digits, t') ∧
      ∃ gap, t' = gap ++ body ∧ received gap = [] := by
  have hfuel : line.length < (line ++ body).length + 1 := by
    rw [List.length_append]
    omega
  obtain ⟨gap, heq, hgap⟩ := readHeaderLoop_marker true junk hjunk hdigits
    (s := []) (by rw [List.append_nil, hline]) (fun _ => hno) hfuel
  exact ⟨gap ++ body, readHeaderLoop_append body _ _ _ _ heq, gap, rfl, hgap⟩

end Header

/-! ## Reading contents and commands -/

/-- A read that fills its buffer leaves no byte to the heap. -/
theorem bufString_of_length (heap : Nat → UInt8) {bs : Bytes} {n : Nat} (h : bs.length = n) :
    bufString heap bs n = bs := by
  simp [bufString, h]

theorem readContentLoop_full (heap : Nat → UInt8) (raw : Bytes) (fuel : Nat) (t : Incoming) :
    readContentLoop heap raw.length (fuel + 1) raw t = some (.ok raw, t) := by
  rw [readContentLoop, if_pos rfl]

/-- A content is read whole, through any failures in between. -/
theorem readContentLoop_of_received (heap : Nat → UInt8) {raw s : Bytes}
    (hraw : raw.length < 2 ^ 31) : ∀ (fuel : Nat) {t : Incoming}, t.length + 1 < fuel →
      received t = raw ++ s →
      ∃ t', readContentLoop heap raw.length fuel [] t = some (.ok raw, t') ∧ received t' = s := by
  intro fuel
  induction fuel with
  | zero => intro t hfuel; omega
  | succ fuel ih =>
      intro t hfuel ht
      by_cases hnil : raw = []
      · subst hnil
        exact ⟨t, readContentLoop_full heap [] fuel t, ht⟩
      have hlen : ([] : Bytes).length ≠ raw.length := by
        intro h
        exact hnil (List.length_eq_zero_iff.1 h.symm)
      have hspec := recv_spec raw.length t
      rw [readContentLoop, if_neg hlen]
      simp only [List.length_nil, Nat.sub_zero, List.nil_append, toInt32_natCast hraw]
      cases hread : recv (raw.length : Int) t with
      | closed =>
          rw [hread, ht, List.length_append] at hspec
          omega
      | failed f t' =>
          rw [hread] at hspec
          obtain ⟨used, rfl, hused⟩ := hspec
          rw [List.length_append, List.length_cons] at hfuel
          rw [received_append, hused, List.nil_append, received_fail] at ht
          exact ih (by omega) ht
      | got bs t' =>
          rw [hread] at hspec
          obtain ⟨used, rfl, hused, hbs⟩ := hspec
          rw [received_append, hused] at ht
          -- `recv` waits for all bytes, so the first read that succeeds is the last
          obtain ⟨rfl, hs⟩ := List.append_inj ht hbs
          obtain ⟨fuel, rfl⟩ : ∃ f, fuel = f + 1 := ⟨fuel - 1, by omega⟩
          refine ⟨t', ?_, hs⟩
          simp only [bufString_of_length heap rfl]
          exact readContentLoop_full heap bs fuel t'

theorem readContent_of_received (heap : Nat → UInt8) {raw s : Bytes} {t : Incoming}
    (hraw : raw.length < 2 ^ 31) (ht : received t = raw ++ s) :
    ∃ t', readContent heap raw.length t = some (.ok raw, t') ∧ received t' = s :=
  readContentLoop_of_received heap hraw _ (Nat.lt_succ_self _) ht

theorem dollar_notMem_crlf : (36 : UInt8) ∉ crlf := by decide

/-- Encoded strings are read one by one; the line end of each is passed over with the search for the
next `$`. -/
theorem readStrings_flatMap (heap : Nat → UInt8) (v : List Bytes)
    (hlen : ∀ s ∈ v, s.length < 2 ^ 31) (rest : Bytes) :
    ∀ (str : List Bytes) {junk : Bytes} {t : Incoming}, (36 : UInt8) ∉ junk →
      received t = junk ++ (v.flatMap getStringMessage ++ rest) →
      ∃ t', readStrings heap v.length str t = some (KV_OK, str ++ v, t') ∧
        received t' = (if v = [] then junk else crlf) ++ rest := by
  induction v with
  | nil =>
      intro str junk t hjunk ht
      exact ⟨t, by rw [List.append_nil]; rfl, ht⟩
  | cons s v ih =>
      intro str junk t hjunk ht
      have hs := hlen s List.mem_cons_self
      have hsplit : received t = junk ++ 36 :: (toDec s.length ++ (crlf ++
          (s ++ (crlf ++ (v.flatMap getStringMessage ++ rest))))) := by
        rw [ht, List.flatMap_cons, getStringMessage_of_lt hs]
        simp
      obtain ⟨t₁, hheader, ht₁⟩ := readHeader_of_received hjunk
        (fun d hd => isDigit_of_mem_toDec hd) hsplit
      obtain ⟨t₂, hcontent, ht₂⟩ := readContent_of_received heap hs ht₁
      -- the line end behind a content is junk in front of the next header
      obtain ⟨t', hrest, ht'⟩ := ih (fun s' h => hlen s' (List.mem_cons_of_mem _ h)) (str ++ [s])
        dollar_notMem_crlf ht₂
      refine ⟨t', ?_, ?_⟩
      · rw [List.length_cons, readStrings, hheader]
        simp only [toUInt64_strtol_toDec_of_lt (lt_trans hs (by decide)), hcontent, hrest,
          List.append_assoc,
          List.singleton_append]
      · rw [ht', ite_self, if_neg (List.cons_ne_nil _ _)]

/-- The streaming decoder recovers every encoded command: behind any bytes without `*`, with
anything behind it, in any pieces, and with failed reads anywhere after the first line, which is
`line`. Of the stream it leaves what follows the command, and the line end of its last string. -/
theorem recvCommand_getRESPArry (heap : Nat → UInt8) (v : List Bytes) (hcount : v.length < 2 ^ 31)
    (hlen : ∀ s ∈ v, s.length < 2 ^ 31) (junk rest : Bytes) (hjunk : (42 : UInt8) ∉ junk)
    (line body : Incoming) (hno : NoFail line)
    (hline : received line = junk ++ 42 :: (intToDec (toInt32 v.length) ++ crlf))
    (ht : received (line ++ body) = junk ++ getRESPArry v ++ rest) :
    ∃ t', recvCommand heap (line ++ body) = some (KV_OK, v, t') ∧
      received t' = (if v = [] then [] else crlf) ++ rest := by
  have hbody : received body = v.flatMap getStringMessage ++ rest := by
    rw [received_append, hline] at ht
    simpa [getRESPArry] using ht
  rw [toInt32_natCast hcount, intToDec_natCast] at hline
  obtain ⟨t₁, hheader, gap, rfl, hgap⟩ := readHeader_strict body hno hjunk
    (fun d hd => isDigit_of_mem_toDec hd) hline
  have ht₁ : received (gap ++ body) = [] ++ (v.flatMap getStringMessage ++ rest) := by
    rw [received_append, hgap, hbody]
  obtain ⟨t', hstrings, ht'⟩ := readStrings_flatMap heap v hlen rest [] (by simp) ht₁
  refine ⟨t', ?_, ht'⟩
  rw [recvCommand, hheader]
  simp only [toUInt64_strtol_toDec_of_lt (lt_trans hcount (by decide)), hstrings, List.nil_append]

/-- Two strings with delimiters among their bytes, one of them empty, behind junk, in short pieces
and with a timeout in the middle of a header. -/
theorem recvCommand_getRESPArry_pieces :
    let line : Incoming := [.byte 36, .byte 42, .cut, .byte 50, .byte 13, .byte 10]
    let body : Incoming := [.byte 36, .fail .timeout, .byte 51, .byte 13, .byte 10, .byte 42, .cut,
      .byte 13, .fail .timeout, .byte 10, .byte 13, .byte 10, .byte 36, .byte 48, .byte 13, .byte 10,
      .byte 13, .byte 10, .byte 42]
    ∃ t', recvCommand (fun _ => 0) (line ++ body) = some (KV_OK, [[42, 13, 10], []], t') ∧
      received t' = (if [[42, 13, 10], []] = ([] : List Bytes) then [] else crlf) ++ [42] := by
  intro line body
  refine recvCommand_getRESPArry (fun _ => 0) [[42, 13, 10], []] (by decide) (by decide) [36] [42]
    (by decide) line body ?_ (by decide) (by decide)
  intro f hf
  cases f <;> exact absurd hf (by decide)

/-! ## Reading a frame -/

theorem leNat_digits (n : Nat) : ∀ k : Nat,
    leNat ((List.range k).map fun i => UInt8.ofNat (n / 256 ^ i)) = n % 256 ^ k := by
  intro k
  induction k generalizing n with
  | zero => simp [leNat, Nat.mod_one]
  | succ k ih =>
      have hshift : (List.range (k + 1)).map (fun i => UInt8.ofNat (n / 256 ^ i)) =
          UInt8.ofNat n :: (List.range k).map fun i => UInt8.ofNat (n / 256 / 256 ^ i) := by
        rw [List.range_succ_eq_map, List.map_cons, List.map_map, pow_zero, Nat.div_one]
        congr 1
        refine List.map_congr_left fun i _ => ?_
        rw [Function.comp_apply, Nat.pow_succ', Nat.div_div_eq_div_mul]
      have hmod : n % 256 ^ (k + 1) = n % 256 + 256 * (n / 256 % 256 ^ k) := by
        rw [Nat.pow_succ', Nat.mod_mul]
      rw [hshift, leNat, ih, UInt8.toNat_ofNat', hmod]

theorem length_numtob (n : Nat) : (numtob n).length = 8 := by simp [numtob]

/-- `btonum` reads what `numtob` has written. -/
theorem btonum_numtob {n : Nat} (h : n < 2 ^ 64) (b : UInt8) : btonum (b :: numtob n) 1 = n := by
  rw [btonum, List.drop_succ_cons, List.drop_zero, ← length_numtob n, List.take_length, numtob,
    leNat_digits, Nat.mod_eq_of_lt (by omega)]

theorem packet_of_lt {msg : Bytes} (h : msg.length < 2 ^ 31) :
    packet msg = (126 :: numtob msg.length) ++ msg := by
  rw [packet, Nat.mod_eq_of_lt (by omega)]
  rfl

theorem find_eq_none {c : UInt8} {bs : Bytes} (h : c ∉ bs) : find [c] bs = none := by
  induction bs with
  | nil => rfl
  | cons b bs ih =>
      rw [List.mem_cons, not_or] at h
      have hne : (c == b) = false := by simpa using h.1
      rw [find]
      simp only [List.isPrefixOf, hne, Bool.false_and, Bool.false_eq_true, if_false, ih h.2]
      rfl

theorem headerRead_junk {junk : Bytes} (h : (126 : UInt8) ∉ junk) : headerRead [] junk = [] := by
  rw [headerRead, if_pos rfl, find_eq_none h]

theorem headerRead_marker {junk : Bytes} (h : (126 : UInt8) ∉ junk) (front : Bytes) :
    headerRead [] (junk ++ 126 :: front) = 126 :: front := by
  have hfind : find [126] (junk ++ 126 :: front) = some junk.length := by
    have := find_append_of_notMem 126 [] junk front h
    rwa [List.append_assoc] at this
  rw [headerRead, if_pos rfl, hfind]
  exact List.drop_left

/-- A string read from the front of two texts is the front of the first one, or goes on into the
second. -/
theorem append_eq_append_cases {bs tail a b : Bytes} (h : a ++ b = bs ++ tail) :
    (∃ a', a = bs ++ a' ∧ tail = a' ++ b) ∨ (∃ b', bs = a ++ b' ∧ b = b' ++ tail ∧ b' ≠ []) := by
  rcases List.append_eq_append_iff.1 h with ⟨c, rfl, rfl⟩ | ⟨c, rfl, rfl⟩
  · cases c with
    | nil => exact Or.inl ⟨[], by simp, rfl⟩
    | cons x c => exact Or.inr ⟨x :: c, rfl, rfl, List.cons_ne_nil _ _⟩
  · exact Or.inl ⟨c, rfl, rfl⟩

/-- A string that is not too long for the first text is its front. -/
theorem append_eq_append_of_le {bs tail a b : Bytes} (h : a ++ b = bs ++ tail)
    (hle : bs.length ≤ a.length) : ∃ a', a = bs ++ a' ∧ tail = a' ++ b := by
  rcases append_eq_append_cases h with h | ⟨b', rfl, -, hb'⟩
  · exact h
  · have hpos := List.length_pos_iff.2 hb'
    rw [List.length_append] at hle
    omega

/-- A read that has got something has used something up. -/
theorem used_length_pos {used : Incoming} {bs : Bytes} (hused : received used = bs) (hbs : bs ≠ []) :
    0 < used.length := by
  apply List.length_pos_iff.2
  rintro rfl
  exact hbs hused.symm

section FrameHeader

variable {H s : Bytes}

/-- Once the marker is found, the rest of the header is collected. -/
theorem frameHeaderLoop_rest (hH : H.length = NETWORK_HEADER_LEN) : ∀ (fuel : Nat)
    {header tail : Bytes} {t : Incoming}, t.length + 1 < fuel → header ≠ [] → H = header ++ tail →
      received t = tail ++ s →
      ∃ t', frameHeaderLoop fuel header t = some (.ok H, t') ∧ received t' = s := by
  intro fuel
  induction fuel with
  | zero => intro header tail t hfuel; omega
  | succ fuel ih =>
      intro header tail t hfuel hne hsplit ht
      have htail : header.length + tail.length = NETWORK_HEADER_LEN := by
        rw [← hH, hsplit, List.length_append]
      by_cases hdone : header.length = NETWORK_HEADER_LEN
      · have hnil : tail = [] := List.length_eq_zero_iff.1 (by omega)
        subst hnil
        refine ⟨t, ?_, ht⟩
        rw [frameHeaderLoop, if_pos hdone, hsplit, List.append_nil]
      rw [frameHeaderLoop, if_neg hdone]
      have hspec := recvNF_spec (NETWORK_HEADER_LEN - header.length) t
      cases hread : recvNF (NETWORK_HEADER_LEN - header.length) t with
      | closed =>
          rw [hread, ht] at hspec
          have := congrArg List.length hspec.1
          rw [List.length_append, List.length_nil] at this
          omega
      | failed f t' =>
          rw [hread] at hspec
          obtain ⟨used, rfl, hused, -⟩ := hspec
          rw [List.length_append, List.length_cons] at hfuel
          rw [received_append, hused, List.nil_append, received_fail] at ht
          exact ih (by omega) hne hsplit ht
      | got bs t' =>
          rw [hread] at hspec
          obtain ⟨used, rfl, hused, -, hbs, hlen⟩ := hspec
          rw [received_append, hused] at ht
          -- the read asked for no more than what is missing
          have hle : bs.length ≤ tail.length := by omega
          obtain ⟨tail', rfl, hs⟩ := append_eq_append_of_le ht.symm hle
          have hpos := used_length_pos hused hbs
          rw [List.length_append] at hfuel
          have hheader : headerRead header bs = header ++ bs := by rw [headerRead, if_neg hne]
          simp only [hheader]
          exact ih (by omega) (by simp [hne]) (by rw [hsplit, List.append_assoc]) hs

/-- The header of a frame is found behind bytes that are not the marker, wherever the reads stop. -/
theorem frameHeaderLoop_of_received (hH : H.length = NETWORK_HEADER_LEN) {num : Bytes}
    (hnum : H = 126 :: num) : ∀ (fuel : Nat) {junk : Bytes} {t : Incoming}, t.length + 1 < fuel →
      (126 : UInt8) ∉ junk → received t = junk ++ (H ++ s) →
      ∃ t', frameHeaderLoop fuel [] t = some (.ok H, t') ∧ received t' = s := by
  intro fuel
  induction fuel with
  | zero => intro junk t hfuel; omega
  | succ fuel ih =>
      intro junk t hfuel hjunk ht
      have hlen0 : ([] : Bytes).length ≠ NETWORK_HEADER_LEN := by decide
      rw [frameHeaderLoop, if_neg hlen0]
      have hspec := recvNF_spec (NETWORK_HEADER_LEN - ([] : Bytes).length) t
      cases hread : recvNF (NETWORK_HEADER_LEN - ([] : Bytes).length) t with
      | closed =>
          rw [hread, ht, hnum] at hspec
          have := congrArg List.length hspec.1
          simp at this
      | failed f t' =>
          rw [hread] at hspec
          obtain ⟨used, rfl, hused, -⟩ := hspec
          rw [List.length_append, List.length_cons] at hfuel
          rw [received_append, hused, List.nil_append, received_fail] at ht
          exact ih (by omega) hjunk ht
      | got bs t' =>
          rw [hread] at hspec
          obtain ⟨used, rfl, hused, -, hbs, hlen⟩ := hspec
          rw [received_append, hused] at ht
          have hpos := used_length_pos hused hbs
          rw [List.length_append] at hfuel
          rcases append_eq_append_cases ht.symm with ⟨junk', rfl, hs⟩ | ⟨front, rfl, hfront, hne⟩
          · -- the read ended in front of the marker
            rw [List.mem_append, not_or] at hjunk
            simp only [headerRead_junk hjunk.1]
            exact ih (by omega) hjunk.2 hs
          · -- the read went past the marker, but not past the header
            have hmax : max 1 (NETWORK_HEADER_LEN - ([] : Bytes).length) = NETWORK_HEADER_LEN := by
              decide
            rw [hmax, List.length_append] at hlen
            obtain ⟨tail, hsplit, hs⟩ := append_eq_append_of_le hfront (by omega)
            cases front with
            | nil => exact absurd rfl hne
            | cons c front =>
                have hc : c = 126 := by
                  rw [hnum, List.cons_append, List.cons.injEq] at hsplit
                  exact hsplit.1.symm
                subst hc
                simp only [headerRead_marker hjunk]
                exact frameHeaderLoop_rest hH fuel (by omega) hne hsplit hs

end FrameHeader

/-- A header and the content that it announces. -/
theorem recv_of_header {heap : Nat → UInt8} {H content : Bytes} {t t₁ t' : Incoming}
    (hheader : frameHeaderLoop (t.length + 2) [] t = some (.ok H, t₁))
    (hcontent : readContent heap (btonum H 1) t₁ = some (.ok content, t')) :
    Network.recv heap t = some (KV_OK, content, t') := by
  rw [Network.recv, hheader]
  simp only [hcontent]

/-- `Network::recv` reads one frame behind bytes without `~`, and nothing more. -/
theorem recv_packet (heap : Nat → UInt8) {msg junk rest : Bytes} {t : Incoming}
    (hmsg : msg.length < 2 ^ 31) (hjunk : (126 : UInt8) ∉ junk)
    (ht : received t = junk ++ packet msg ++ rest) :
    ∃ t', Network.recv heap t = some (KV_OK, msg, t') ∧ received t' = rest := by
  have hH : (126 :: numtob msg.length).length = NETWORK_HEADER_LEN := by
    rw [List.length_cons, length_numtob]
    rfl
  rw [packet_of_lt hmsg, List.append_assoc, List.append_assoc] at ht
  obtain ⟨t₁, hheader, ht₁⟩ := frameHeaderLoop_of_received hH rfl _ (Nat.lt_succ_self _) hjunk ht
  obtain ⟨t', hcontent, ht'⟩ := readContent_of_received heap hmsg ht₁
  rw [← btonum_numtob (show msg.length < 2 ^ 64 by omega) 126] at hcontent
  exact ⟨t', recv_of_header hheader hcontent, ht'⟩

/-- Successive calls of `Network::recv`, until one of them fails. -/
def recvMessages (heap : Nat → UInt8) : Nat → Incoming → Option (List Bytes × Incoming)
  | 0, t => some ([], t)
  | calls + 1, t =>
      match Network.recv heap t with
      | none => none
      | some (rc, content, t) =>
          if rc ≠ KV_OK then none
          else (recvMessages heap calls t).map fun r => (content :: r.1, r.2)

theorem recvMessages_packets (heap : Nat → UInt8) (msgs : List Bytes)
    (hmsgs : ∀ msg ∈ msgs, msg.length < 2 ^ 31) (rest : Bytes) : ∀ {junk : Bytes} {t : Incoming},
      msgs ≠ [] ∨ junk = [] → (126 : UInt8) ∉ junk →
      received t = junk ++ (msgs.flatMap packet ++ rest) →
      ∃ t', recvMessages heap msgs.length t = some (msgs, t') ∧ received t' = rest := by
  induction msgs with
  | nil =>
      intro junk t hne hjunk ht
      have hnil : junk = [] := hne.resolve_left (fun h => h rfl)
      subst hnil
      exact ⟨t, rfl, ht⟩
  | cons msg msgs ih =>
      intro junk t hne hjunk ht
      have hfirst : received t = junk ++ packet msg ++ (msgs.flatMap packet ++ rest) := by
        rw [ht, List.flatMap_cons]
        simp
      obtain ⟨t₁, hrecv, ht₁⟩ := recv_packet heap (hmsgs msg List.mem_cons_self) hjunk hfirst
      have hnil : (126 : UInt8) ∉ ([] : Bytes) := List.not_mem_nil
      obtain ⟨t', hmore, ht'⟩ := ih (fun m h => hmsgs m (List.mem_cons_of_mem _ h)) (Or.inr rfl)
        hnil ht₁
      refine ⟨t', ?_, ht'⟩
      rw [List.length_cons, recvMessages, hrecv]
      simp only [ne_eq, not_true_eq_false, if_false, hmore, Option.map_some]

/-! ## Reading a reply -/

/-- The header of a reply comes in one full read. -/
theorem replyHeaderLoop_of_received {H num s : Bytes} (hH : H.length = NETWORK_HEADER_LEN)
    (hnum : H = 126 :: num) {t : Incoming} (hno : NoFail t) (ht : received t = H ++ s) {fuel : Nat}
    (hfuel : 1 < fuel) :
    ∃ t', replyHeaderLoop fuel [] t = some (.ok H, t') ∧ received t' = s ∧ NoFail t' := by
  obtain ⟨fuel, rfl⟩ : ∃ f, fuel = f + 1 + 1 := ⟨fuel - 2, by omega⟩
  have hlen0 : ([] : Bytes).length ≠ NETWORK_HEADER_LEN := by decide
  have hspec := recv_spec (NETWORK_HEADER_LEN - ([] : Bytes).length) t
  rw [replyHeaderLoop, if_neg hlen0]
  cases hread : Foundation.recv ((NETWORK_HEADER_LEN - ([] : Bytes).length : Nat) : Int) t with
  | closed =>
      rw [hread, ht, List.length_append, hH, List.length_nil] at hspec
      omega
  | failed f t' =>
      rw [hread] at hspec
      obtain ⟨used, rfl, -⟩ := hspec
      exact absurd List.mem_cons_self (hno.right f)
  | got bs t' =>
      rw [hread] at hspec
      obtain ⟨used, rfl, hused, hlen⟩ := hspec
      rw [received_append, hused] at ht
      obtain ⟨rfl, hs⟩ := List.append_inj ht (by rw [hlen, hH, List.length_nil, Nat.sub_zero])
      refine ⟨t', ?_, hs, hno.right⟩
      have hheader : headerRead [] bs = bs := by
        have hnil : (126 : UInt8) ∉ ([] : Bytes) := List.not_mem_nil
        have hread := headerRead_marker hnil num
        rwa [List.nil_append, ← hnum] at hread
      simp only [hheader]
      rw [replyHeaderLoop, if_pos hH]

/-- The content of a reply is collected from short reads. -/
theorem replyContentLoop_of_received {msg s : Bytes} (hmsg : msg.length < 2 ^ 31) :
    ∀ (fuel : Nat) {rmsg tail : Bytes} {t : Incoming}, t.length < fuel → NoFail t →
      msg = rmsg ++ tail → received t = tail ++ s →
      ∃ t', replyContentLoop msg.length fuel rmsg t = some (KV_OK, msg, t') ∧ received t' = s := by
  intro fuel
  induction fuel with
  | zero => intro rmsg tail t hfuel; omega
  | succ fuel ih =>
      intro rmsg tail t hfuel hno hsplit ht
      have hlen : rmsg.length + tail.length = msg.length := by rw [hsplit, List.length_append]
      by_cases hdone : rmsg.length = msg.length
      · have hnil : tail = [] := List.length_eq_zero_iff.1 (by omega)
        subst hnil
        refine ⟨t, ?_, ht⟩
        rw [replyContentLoop, if_pos hdone, hsplit, List.append_nil]
      rw [replyContentLoop, if_neg hdone, if_neg (by omega)]
      have hspec := recvNF_spec (msg.length - rmsg.length) t
      cases hread : recvNF (msg.length - rmsg.length) t with
      | closed =>
          rw [hread, ht] at hspec
          have := congrArg List.length hspec.1
          rw [List.length_append, List.length_nil] at this
          omega
      | failed f t' =>
          rw [hread] at hspec
          obtain ⟨used, rfl, -, -⟩ := hspec
          exact absurd List.mem_cons_self (hno.right f)
      | got bs t' =>
          rw [hread] at hspec
          obtain ⟨used, rfl, hused, -, hbs, hle⟩ := hspec
          rw [received_append, hused] at ht
          -- the read asked for no more than what is missing
          have hle' : bs.length ≤ tail.length := by omega
          obtain ⟨tail', rfl, hs⟩ := append_eq_append_of_le ht.symm hle'
          have hpos := used_length_pos hused hbs
          rw [List.length_append] at hfuel
          exact ih (by omega) hno.right (by rw [hsplit, List.append_assoc]) hs

theorem recvReply_packet {msg rest : Bytes} {t : Incoming} (hmsg : msg.length < 2 ^ 31)
    (hno : NoFail t) (ht : received t = packet msg ++ rest) :
    ∃ t', recvReply [] t = some (KV_OK, msg, t') ∧ received t' = rest := by
  have hH : (126 :: numtob msg.length).length = NETWORK_HEADER_LEN := by
    rw [List.length_cons, length_numtob]
    rfl
  rw [packet_of_lt hmsg, List.append_assoc] at ht
  obtain ⟨t₁, hheader, ht₁, hno₁⟩ := replyHeaderLoop_of_received hH rfl hno ht
    (show 1 < t.length + 2 by omega)
  have hnum := btonum_numtob (show msg.length < 2 ^ 64 by omega) 126
  rw [recvReply, hheader]
  simp only [hnum]
  by_cases hnil : msg = []
  · subst hnil
    exact ⟨t₁, rfl, ht₁⟩
  · have hpos := List.length_pos_iff.2 hnil
    rw [if_neg (by omega)]
    exact replyContentLoop_of_received hmsg _ (by omega) hno₁ rfl ht₁

/-- Frames survive any segmentation. A row of frames behind bytes without `~` is read back message
by message by `Network::recv`, whatever the pieces it comes in, and one frame by the reading half of
`sendAndRecv`; each reads its bytes and no others. -/
theorem frames_read_back (heap : Nat → UInt8) :
    (∀ (msgs : List Bytes) (junk rest : Bytes) (t : Incoming), msgs ≠ [] ∨ junk = [] →
      (∀ msg ∈ msgs, msg.length < 2 ^ 31) → (126 : UInt8) ∉ junk →
      received t = junk ++ (msgs.flatMap packet ++ rest) →
      ∃ t', recvMessages heap msgs.length t = some (msgs, t') ∧ received t' = rest) ∧
    (∀ (msg rest : Bytes) (t : Incoming), msg.length < 2 ^ 31 → NoFail t →
      received t = packet msg ++ rest →
      ∃ t', recvReply [] t = some (KV_OK, msg, t') ∧ received t' = rest) := by
  constructor
  · intro msgs junk rest t hne hmsgs hjunk ht
    exact recvMessages_packets heap msgs hmsgs rest hne hjunk ht
  · intro msg rest t hmsg hno ht
    exact recvReply_packet hmsg hno ht

/-- Two messages behind junk, the marker in a payload and a read that ends in the middle of a
header; and a reply in two pieces. -/
theorem frames_read_back_pieces :
    (let t : Incoming := [.byte 1, .byte 126, .byte 1, .cut] ++
        [0, 0, 0, 0, 0, 0, 0, 126, 126, 0, 0, 0, 0, 0, 0, 0, 0, 7].map Event.byte;
      ∃ t', recvMessages (fun _ => 0) 2 t = some ([[126], []], t') ∧ received t' = [7]) ∧
    (let t : Incoming := [.byte 126, .byte 2, .byte 0, .byte 0, .byte 0, .byte 0, .byte 0, .byte 0,
        .byte 0, .byte 126, .cut, .byte 5];
      ∃ t', recvReply [] t = some (KV_OK, [126, 5], t') ∧ received t' = []) := by
  obtain ⟨hmessages, hreply⟩ := frames_read_back fun _ => 0
  constructor
  · exact hmessages [[126], []] [1] [7] _ (Or.inl (List.cons_ne_nil _ _)) (by decide) (by decide)
      (by decide)
  · refine hreply [126, 5] [] _ (by decide) ?_ (by decide)
    intro f hf
    cases f <;> exact absurd hf (by decide)

end CloudLabs.KvStore
