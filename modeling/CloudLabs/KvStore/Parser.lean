import CloudLabs.Foundation.Decimal

/-!
# RESP messages

`Parser` builds and reads the messages of the key-value store: string messages, status messages,
integer messages and arrays of strings. Lengths are written as 32-bit `int`s and the decoders
recompute the width of each header from the number they read, without looking for a delimiter.

A decoder gives `none` where the program has no result: a failed assertion, a negative string
length, a read past the end of the buffer, or an offset that leaves the range of `int`.

`parserRESPArry_getRESPArry`: decoding an encoded vector gives the vector and the encoding's
length, whatever follows in the buffer, as long as the encoding fits into an `int`.
-/

set_option autoImplicit false

namespace CloudLabs.KvStore

open CloudLabs.Foundation

/-- The end of a line in a message. -/
def crlf : Bytes := [13, 10]

/-- `Parser::getStringMessage`. -/
def getStringMessage (raw : Bytes) : Bytes :=
  36 :: (intToDec (toInt32 raw.length) ++ crlf ++ raw ++ crlf)

/-- `Parser::getSuccessMessage`. -/
def getSuccessMessage : Bytes := ascii "+OK\r\n"

/-- `Parser::getErrorMessage`. -/
def getErrorMessage : Bytes := ascii "-ERROR\r\n"

/-- `Parser::getIntergerMessage`. -/
def getIntergerMessage (raw : Int) : Bytes := 58 :: (intToDec raw ++ crlf)

/-- `Parser::getRESPArry` of a vector. -/
def getRESPArry (raw : List Bytes) : Bytes :=
  42 :: (intToDec (toInt32 raw.length) ++ crlf ++ raw.flatMap getStringMessage)

/-- `Parser::getRESPArry` of a single string. -/
def getRESPArryOne (raw : Bytes) : Bytes := 42 :: (intToDec 1 ++ crlf ++ getStringMessage raw)

/-- `Parser::parseStringMessage` on the buffer that starts at `message`: the string and
`*length`. -/
def parseStringMessage : Bytes → Option (Bytes × Nat)
  | [] => none
  | b :: t =>
      if b ≠ 36 then none
      else
        let strl := atoi t
        let pos := 3 + (intToDec strl).length
        if strl < 0 then none
        else if (b :: t).length < pos + strl.toNat then none
        else if 2 ^ 31 ≤ pos + strl.toNat + 2 then none
        else some (((b :: t).drop pos).take strl.toNat, pos + strl.toNat + 2)

/-- The loop of `Parser::parserRESPArry`: `number` more strings from offset `pos`. -/
def parserRESPArryLoop (message : Bytes) : Nat → Nat → List Bytes → Option (List Bytes × Nat)
  | 0, pos, rc => some (rc, pos)
  | number + 1, pos, rc =>
      match parseStringMessage (message.drop pos) with
      | none => none
      | some (tmp, len) =>
          if 2 ^ 31 ≤ pos + len then none
          else parserRESPArryLoop message number (pos + len) (rc ++ [tmp])

/-- `Parser::parserRESPArry`: the vector `rc` with the decoded strings appended, and `*length`. -/
def parserRESPArry (message : Bytes) (rc : List Bytes) : Option (List Bytes × Nat) :=
  match message with
  | [] => none
  | b :: t =>
      if b ≠ 42 then none
      else
        let number := atoi t
        parserRESPArryLoop message number.toNat ((intToDec number).length + 3) rc

/-- `Parser::parserIntergerMessage`: the number and `*length`. -/
def parserIntergerMessage : Bytes → Option (Int × Nat)
  | [] => none
  | b :: t =>
      if b ≠ 58 then none
      else
        let rc := atoi t
        some (rc, 3 + (intToDec rc).length)

/-- `Parser::parserSuccessMessage`: the status and `*length`, which is fixed for each status. -/
def parserSuccessMessage : Bytes → Option (Bool × Nat)
  | [] => none
  | b :: _ => if b = 43 then some (true, 5) else if b = 45 then some (false, 8) else none

/-! ## Decoding undoes encoding -/

theorem endsDigits_crlf (rest : Bytes) : EndsDigits (crlf ++ rest) :=
  endsDigits_cons (by decide) _

theorem toInt32_natCast {n : Nat} (h : n < 2 ^ 31) : toInt32 n = n :=
  toInt32_of_lt (by omega) (by omega)

theorem intToDec_natCast (n : Nat) : intToDec (n : Int) = toDec n := rfl

theorem getStringMessage_of_lt {raw : Bytes} (h : raw.length < 2 ^ 31) :
    getStringMessage raw = 36 :: (toDec raw.length ++ crlf ++ raw ++ crlf) := by
  rw [getStringMessage, toInt32_natCast h, intToDec_natCast]

/-- The width of an encoded string, header and line ends included. -/
theorem length_getStringMessage {raw : Bytes} (h : raw.length < 2 ^ 31) :
    (getStringMessage raw).length = 3 + (toDec raw.length).length + raw.length + 2 := by
  rw [getStringMessage_of_lt h]
  simp only [crlf, List.length_cons, List.length_append, List.length_nil]
  omega

theorem length_lt_getStringMessage (raw : Bytes) : raw.length < (getStringMessage raw).length := by
  simp only [getStringMessage, List.length_cons, List.length_append]
  omega

/-- Decoding an encoded string gives the string and its encoded width. -/
theorem parseStringMessage_getStringMessage {raw : Bytes} (rest : Bytes)
    (h : (getStringMessage raw).length < 2 ^ 31) :
    parseStringMessage (getStringMessage raw ++ rest) =
      some (raw, (getStringMessage raw).length) := by
  have hraw : raw.length < 2 ^ 31 := lt_trans (length_lt_getStringMessage raw) h
  have hlen := length_getStringMessage hraw
  rw [hlen] at h ⊢
  have hatoi : atoi (toDec raw.length ++ (crlf ++ raw ++ crlf ++ rest)) = raw.length := by
    rw [List.append_assoc, List.append_assoc]
    exact atoi_toDec hraw _ (endsDigits_crlf _)
  have hsplit : getStringMessage raw ++ rest =
      (36 :: toDec raw.length ++ crlf) ++ (raw ++ (crlf ++ rest)) := by
    rw [getStringMessage_of_lt hraw]
    simp
  have hpre : (36 :: toDec raw.length ++ crlf).length = 3 + (toDec raw.length).length := by
    simp only [crlf, List.length_append, List.length_cons, List.length_nil]
    omega
  have hdrop : ((getStringMessage raw ++ rest).drop (3 + (toDec raw.length).length)).take
      raw.length = raw := by
    rw [hsplit, ← hpre, List.drop_left, List.take_left]
  have hmsg : getStringMessage raw ++ rest =
      36 :: (toDec raw.length ++ (crlf ++ raw ++ crlf ++ rest)) := by
    rw [getStringMessage_of_lt hraw]
    simp
  have htotal : (getStringMessage raw ++ rest).length =
      3 + (toDec raw.length).length + raw.length + 2 + rest.length := by
    rw [List.length_append, hlen]
  rw [hmsg] at hdrop htotal ⊢
  simp only [parseStringMessage, hatoi, intToDec_natCast, Int.toNat_natCast, ne_eq,
    not_true_eq_false, if_false]
  rw [if_neg (by omega), if_neg (by omega), if_neg (by omega), hdrop]

/-- The decoding loop on the encodings of `raw`, from any offset of the buffer. -/
theorem parserRESPArryLoop_flatMap (raw : List Bytes) :
    ∀ (pre rest : Bytes) (rc : List Bytes),
      pre.length + (raw.flatMap getStringMessage).length < 2 ^ 31 →
      parserRESPArryLoop (pre ++ raw.flatMap getStringMessage ++ rest) raw.length pre.length rc =
        some (rc ++ raw, pre.length + (raw.flatMap getStringMessage).length) := by
  induction raw with
  | nil => intro pre rest rc _; simp [parserRESPArryLoop]
  | cons w raw ih =>
      intro pre rest rc h
      rw [List.flatMap_cons, List.length_append] at h
      have hbuf : pre ++ (w :: raw).flatMap getStringMessage ++ rest =
          pre ++ (getStringMessage w ++ (raw.flatMap getStringMessage ++ rest)) := by
        simp [List.flatMap_cons]
      have hnext : pre ++ (w :: raw).flatMap getStringMessage ++ rest =
          (pre ++ getStringMessage w) ++ raw.flatMap getStringMessage ++ rest := by
        simp [List.flatMap_cons]
      have hparse : parseStringMessage
          ((pre ++ (w :: raw).flatMap getStringMessage ++ rest).drop pre.length) =
          some (w, (getStringMessage w).length) := by
        rw [hbuf, List.drop_left]
        exact parseStringMessage_getStringMessage _ (by omega)
      have hoff : pre.length + (getStringMessage w).length =
          (pre ++ getStringMessage w).length := by
        rw [List.length_append]
      rw [List.length_cons, parserRESPArryLoop, hparse]
      simp only
      rw [if_neg (by omega), hoff, hnext, ih _ _ _ (by rw [← hoff]; omega), List.flatMap_cons]
      simp [Nat.add_assoc]

theorem length_le_length_flatMap (raw : List Bytes) :
    raw.length ≤ (raw.flatMap getStringMessage).length := by
  induction raw with
  | nil => simp
  | cons w raw ih =>
      rw [List.flatMap_cons, List.length_append, List.length_cons]
      have := length_lt_getStringMessage w
      omega

theorem length_lt_getRESPArry (raw : List Bytes) : raw.length < (getRESPArry raw).length := by
  have := length_le_length_flatMap raw
  simp only [getRESPArry, List.length_cons, List.length_append]
  omega

/-- Decoding an encoded vector appends the vector and gives the encoding's length. -/
theorem parserRESPArry_getRESPArry (raw rc : List Bytes) (rest : Bytes)
    (h : (getRESPArry raw).length < 2 ^ 31) :
    parserRESPArry (getRESPArry raw ++ rest) rc = some (rc ++ raw, (getRESPArry raw).length) := by
  have hcount : raw.length < 2 ^ 31 := lt_trans (length_lt_getRESPArry raw) h
  have henc : getRESPArry raw =
      (42 :: toDec raw.length ++ crlf) ++ raw.flatMap getStringMessage := by
    rw [getRESPArry, toInt32_natCast hcount, intToDec_natCast]
    simp
  have hhead : (42 :: toDec raw.length ++ crlf).length = (toDec raw.length).length + 3 := by
    simp [crlf]
  have hatoi : atoi (toDec raw.length ++ (crlf ++ raw.flatMap getStringMessage ++ rest)) =
      raw.length := by
    rw [List.append_assoc]
    exact atoi_toDec hcount _ (endsDigits_crlf _)
  have hmsg : getRESPArry raw ++ rest =
      42 :: (toDec raw.length ++ (crlf ++ raw.flatMap getStringMessage ++ rest)) := by
    rw [henc]
    simp
  have hloop := parserRESPArryLoop_flatMap raw (42 :: toDec raw.length ++ crlf) rest rc
    (by rw [henc, List.length_append] at h; exact h)
  rw [← henc, ← List.length_append, ← henc, hhead] at hloop
  rw [hmsg, parserRESPArry, ← hmsg]
  simp only [hatoi, intToDec_natCast, Int.toNat_natCast, ne_eq, not_true_eq_false, if_false]
  exact hloop

/-- The decoding loop keeps what was decoded before. -/
theorem parserRESPArryLoop_append (message : Bytes) :
    ∀ (number pos : Nat) (rc cs : List Bytes) (len : Nat),
      parserRESPArryLoop message number pos rc = some (cs, len) → rc <+: cs
  | 0, pos, rc, cs, len, h => by
      simp only [parserRESPArryLoop, Option.some.injEq, Prod.mk.injEq] at h
      exact h.1 ▸ List.prefix_rfl
  | number + 1, pos, rc, cs, len, h => by
      rw [parserRESPArryLoop] at h
      split at h
      · exact absurd h (by simp)
      · split at h
        · exact absurd h (by simp)
        · exact (List.prefix_append _ _).trans
            (parserRESPArryLoop_append message number _ _ cs len h)

theorem toInt32_bounds (i : Int) : -(2 ^ 31) ≤ toInt32 i ∧ toInt32 i < 2 ^ 31 :=
  ⟨BitVec.le_toInt _, BitVec.toInt_lt⟩

/-- Whatever the size of the vector, the first decoded word is the first encoded one if that word
is short. -/
theorem parserRESPArry_head {w : Bytes} (hw : (getStringMessage w).length < 2 ^ 31)
    (raw : List Bytes) (rest : Bytes) {cs : List Bytes} {len : Nat}
    (h : parserRESPArry (getRESPArry (w :: raw) ++ rest) [] = some (cs, len)) :
    cs = [] ∨ cs.head? = some w := by
  obtain ⟨hlo, hhi⟩ := toInt32_bounds (w :: raw).length
  generalize hn : toInt32 (w :: raw).length = n at hlo hhi
  have hmsg : getRESPArry (w :: raw) ++ rest = 42 :: (intToDec n ++
      (crlf ++ (getStringMessage w ++ (raw.flatMap getStringMessage ++ rest)))) := by
    rw [getRESPArry, hn, List.flatMap_cons]
    simp
  have hatoi : atoi (intToDec n ++
      (crlf ++ (getStringMessage w ++ (raw.flatMap getStringMessage ++ rest)))) = n :=
    atoi_intToDec hlo hhi _ (endsDigits_crlf _)
  have hdrop : (42 :: (intToDec n ++
      (crlf ++ (getStringMessage w ++ (raw.flatMap getStringMessage ++ rest))))).drop
        ((intToDec n).length + 3) = getStringMessage w ++ (raw.flatMap getStringMessage ++ rest) := by
    have hhead : (intToDec n).length + 3 = (42 :: (intToDec n ++ crlf)).length := by simp [crlf]
    have hsplit : 42 :: (intToDec n ++
        (crlf ++ (getStringMessage w ++ (raw.flatMap getStringMessage ++ rest)))) =
        (42 :: (intToDec n ++ crlf)) ++
          (getStringMessage w ++ (raw.flatMap getStringMessage ++ rest)) := by simp
    rw [hsplit, hhead, List.drop_left]
  rw [hmsg, parserRESPArry] at h
  simp only [hatoi, ne_eq, not_true_eq_false, if_false] at h
  cases hk : n.toNat with
  | zero =>
      rw [hk, parserRESPArryLoop, Option.some.injEq, Prod.mk.injEq] at h
      exact Or.inl h.1.symm
  | succ k =>
      rw [hk, parserRESPArryLoop, hdrop, parseStringMessage_getStringMessage _ hw] at h
      simp only at h
      split at h
      · exact absurd h (by simp)
      · obtain ⟨t, rfl⟩ := parserRESPArryLoop_append _ _ _ _ _ _ h
        exact Or.inr rfl

/-- The encoding of a single string is the encoding of the one-element vector. -/
theorem getRESPArryOne_eq (raw : Bytes) : getRESPArryOne raw = getRESPArry [raw] := by
  rw [getRESPArryOne, getRESPArry, List.flatMap_cons, List.flatMap_nil, List.append_nil]
  rfl

/-! ## The whole format -/

/-- The four forms of a message. -/
inductive Kind where
  | str
  | int
  | status
  | arr
  deriving DecidableEq

/-- A value that can be sent: a byte string, an `int`, a status, or a vector of byte strings. -/
inductive Message where
  | str (raw : Bytes)
  | int (raw : Int32)
  | status (ok : Bool)
  | arr (raw : List Bytes)
  deriving DecidableEq

def Message.kind : Message → Kind
  | .str _ => .str
  | .int _ => .int
  | .status _ => .status
  | .arr _ => .arr

/-- The encoder for each form. -/
def Message.encode : Message → Bytes
  | .str raw => getStringMessage raw
  | .int raw => getIntergerMessage raw.toInt
  | .status true => getSuccessMessage
  | .status false => getErrorMessage
  | .arr raw => getRESPArry raw

/-- The decoder for each form, with `*length`. -/
def Message.decode : Kind → Bytes → Option (Message × Nat)
  | .str, s => (parseStringMessage s).map fun r => (.str r.1, r.2)
  | .int, s => (parserIntergerMessage s).map fun r => (.int (Int32.ofInt r.1), r.2)
  | .status, s => (parserSuccessMessage s).map fun r => (.status r.1, r.2)
  | .arr, s => (parserRESPArry s []).map fun r => (.arr r.1, r.2)

/-- Read messages of the given forms, each at the end of the one before. -/
def splitMessages : List Kind → Bytes → Option (List Message × Bytes)
  | [], s => some ([], s)
  | k :: ks, s => do
      let m ← Message.decode k s
      let r ← splitMessages ks (s.drop m.2)
      pure (m.1 :: r.1, r.2)

/-- A written `int` is read back, its sign and its extremes included. -/
theorem parserIntergerMessage_getIntergerMessage {i : Int} (h₁ : -(2 ^ 31) ≤ i) (h₂ : i < 2 ^ 31)
    (rest : Bytes) : parserIntergerMessage (getIntergerMessage i ++ rest) =
      some (i, (getIntergerMessage i).length) := by
  have hread : atoi (intToDec i ++ (crlf ++ rest)) = i :=
    atoi_intToDec h₁ h₂ _ (endsDigits_crlf rest)
  have hlen : (getIntergerMessage i).length = 3 + (intToDec i).length := by
    simp only [getIntergerMessage, crlf, List.length_cons, List.length_append, List.length_nil]
    omega
  rw [hlen, getIntergerMessage, List.cons_append, List.append_assoc]
  simp only [parserIntergerMessage, ne_eq, not_true_eq_false, if_false, hread]

/-- Every decoder undoes its encoder and stops at the end of the encoding. -/
theorem Message.decode_encode (m : Message) (rest : Bytes) (h : m.encode.length < 2 ^ 31) :
    Message.decode m.kind (m.encode ++ rest) = some (m, m.encode.length) := by
  cases m with
  | str raw => simp only [kind, encode, decode, parseStringMessage_getStringMessage rest h,
      Option.map_some]
  | int raw =>
      have hlo : -(2 ^ 31) ≤ raw.toInt := raw.le_toInt
      have hhi : raw.toInt < 2 ^ 31 := raw.toInt_lt
      simp only [kind, encode, decode, parserIntergerMessage_getIntergerMessage hlo hhi rest,
        Option.map_some, Int32.ofInt_toInt]
  | status ok => cases ok <;> rfl
  | arr raw => simp only [kind, encode, decode, parserRESPArry_getRESPArry raw [] rest h,
      Option.map_some, List.nil_append]

/-- Encodings written one after the other split back into their parts. -/
theorem splitMessages_encode (ms : List Message) (rest : Bytes)
    (h : ∀ m ∈ ms, m.encode.length < 2 ^ 31) :
    splitMessages (ms.map Message.kind) (ms.flatMap Message.encode ++ rest) = some (ms, rest) := by
  induction ms with
  | nil => rfl
  | cons m ms ih =>
      have hm := m.decode_encode (ms.flatMap Message.encode ++ rest) (h m List.mem_cons_self)
      have htail := ih fun m' hm' => h m' (List.mem_cons_of_mem _ hm')
      rw [List.flatMap_cons, List.append_assoc, List.map_cons, splitMessages, hm]
      simp only [Option.bind_eq_bind, Option.bind_some, List.drop_left, htail]
      rfl

/-- Decoding undoes encoding over the whole format: each decoder gives back the value and the width
of its encoding whatever follows, encodings in a row can be taken apart, the array decoder appends
to the vector it is given, and a single string is encoded as a vector of one. -/
theorem resp_round_trip :
    (∀ (m : Message) (rest : Bytes), m.encode.length < 2 ^ 31 →
      Message.decode m.kind (m.encode ++ rest) = some (m, m.encode.length)) ∧
    (∀ (ms : List Message) (rest : Bytes), (∀ m ∈ ms, m.encode.length < 2 ^ 31) →
      splitMessages (ms.map Message.kind) (ms.flatMap Message.encode ++ rest) = some (ms, rest)) ∧
    (∀ (raw rc : List Bytes) (rest : Bytes), (getRESPArry raw).length < 2 ^ 31 →
      parserRESPArry (getRESPArry raw ++ rest) rc =
        some (rc ++ raw, (getRESPArry raw).length)) ∧
    (∀ (raw rest : Bytes), (getRESPArryOne raw).length < 2 ^ 31 →
      parserRESPArry (getRESPArryOne raw ++ rest) [] =
        some ([raw], (getRESPArryOne raw).length)) := by
  refine ⟨Message.decode_encode, splitMessages_encode, parserRESPArry_getRESPArry, ?_⟩
  intro raw rest h
  rw [getRESPArryOne_eq] at h ⊢
  exact parserRESPArry_getRESPArry [raw] [] rest h

/-- A string that looks like headers, the least `int`, an error status and a vector with an empty
string, in a row; a vector behind another one; and a string of its own. -/
theorem resp_round_trip_in_a_row :
    (let ms : List Message := [.str (ascii "$3\r\n*1"), .int Int32.minValue, .status false,
        .arr [[], [0, 13, 10, 36]]];
      (∀ m ∈ ms, Message.decode m.kind (m.encode ++ [48]) = some (m, m.encode.length)) ∧
        splitMessages (ms.map Message.kind) (ms.flatMap Message.encode ++ [42]) =
          some (ms, [42])) ∧
    parserRESPArry (getRESPArry [ascii "$0"] ++ [13]) [ascii "GET"] =
      some ([ascii "GET", ascii "$0"], 12) ∧
    parserRESPArry (getRESPArryOne [] ++ [13]) [] = some ([[]], 10) := by
  obtain ⟨hdecode, hsplit, happend, hone⟩ := resp_round_trip
  refine ⟨⟨?_, ?_⟩, ?_, ?_⟩
  · intro m hm
    refine hdecode m [48] ?_
    revert m
    decide +kernel
  · exact hsplit _ [42] (by decide +kernel)
  · exact happend [ascii "$0"] [ascii "GET"] [13] (by decide)
  · exact hone [] [13] (by decide)

end CloudLabs.KvStore
