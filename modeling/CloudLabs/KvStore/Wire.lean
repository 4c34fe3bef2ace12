import CloudLabs.KvStore.Network

/-!
# What is read of a message on the way

`ossSocket::send` takes the length of a packet as an `int`, so `wire` is what a message puts on a
connection. As long as this is all of the packet or less than its header (`Intact`), the stream of
one end holds one packet or no header: by `Network.recv_sound` and `recvReply_sound` a read that
succeeds has read the message of this packet, and nothing is left of the stream. How the bytes arrive
and which reads fail before makes no difference.
-/

set_option autoImplicit false

namespace CloudLabs.KvStore

open CloudLabs.Foundation

/-! ## Packets -/

/-- The bytes that `ossSocket::send` sends of the packet of a message. -/
def wire (msg : Bytes) : Bytes := (packet msg).take (toInt32 (packet msg).length).toNat

/-- All of the packet of a message is sent, or less than its header. -/
def Intact (msg : Bytes) : Prop :=
  wire msg = packet msg ∨ (wire msg).length < NETWORK_HEADER_LEN

instance (msg : Bytes) : Decidable (Intact msg) := inferInstanceAs (Decidable (_ ∨ _))

/-- A stream with one packet and nothing else, or with less than the header of one. -/
def Framed (S : Bytes) : Prop :=
  (∃ msg : Bytes, msg.length < 2 ^ 31 ∧ S = packet msg) ∨
    (S.length < NETWORK_HEADER_LEN ∧ ∃ msg, S <+: packet msg)

theorem length_packet (msg : Bytes) : (packet msg).length = msg.length + 9 := by
  rw [packet, List.length_cons, List.length_append, length_numtob]
  omega

theorem packet_ne_nil (msg : Bytes) : packet msg ≠ [] := List.cons_ne_nil _ _

theorem drop_packet (msg : Bytes) : (packet msg).drop 9 = msg := by
  have hlen : (126 :: numtob (msg.length % 2 ^ 64)).length = 9 := by
    rw [List.length_cons, length_numtob]
  rw [packet, ← List.cons_append, ← hlen, List.drop_left]

theorem packet_injective {msg msg' : Bytes} (h : packet msg = packet msg') : msg = msg' := by
  rw [← drop_packet msg, h, drop_packet]

theorem wire_prefix (msg : Bytes) : wire msg <+: packet msg := List.take_prefix _ _

theorem wire_cases {msg : Bytes} (h : Intact msg) :
    (wire msg).length < NETWORK_HEADER_LEN ∨ (msg.length < 2 ^ 31 ∧ wire msg = packet msg) := by
  rcases h with heq | hless
  · -- what is sent is counted by an `int`
    have hle : (packet msg).length ≤ (toInt32 (packet msg).length).toNat :=
      (List.take_eq_self_iff _).mp heq
    have hint : toInt32 (packet msg).length < 2 ^ 31 := BitVec.toInt_lt
    have hlen := length_packet msg
    exact .inr ⟨by omega, heq⟩
  · exact .inl hless

/-- A packet of fewer than `2 ^ 32` bytes is sent whole, or not at all if its length is negative as
an `int`. -/
theorem intact_of_lt {msg : Bytes} (h : (packet msg).length < 2 ^ 32) : Intact msg := by
  by_cases hlt : (packet msg).length < 2 ^ 31
  · left
    rw [wire, toInt32_natCast hlt, Int.toNat_natCast, List.take_length]
  · right
    have hneg : (toInt32 (packet msg).length).toNat = 0 := by
      rw [Int.toNat_eq_zero, toInt32, BitVec.toInt_ofInt, Int.bmod_eq_emod, if_pos (by omega)]
      omega
    rw [wire, hneg, List.take_zero]
    decide

theorem framed_nil : Framed [] := .inr ⟨by decide, [], List.nil_prefix⟩

theorem framed_wire {msg : Bytes} (h : Intact msg) : Framed (wire msg) := by
  rcases wire_cases h with hless | ⟨hlt, heq⟩
  · exact .inr ⟨hless, msg, wire_prefix msg⟩
  · exact .inl ⟨msg, hlt, heq⟩

theorem eq_of_wire_eq {msg data : Bytes} (h : Intact msg) (heq : wire msg = packet data) :
    msg = data := by
  rcases wire_cases h with hless | ⟨-, hwire⟩
  · rw [heq, length_packet] at hless
    exact absurd hless (Nat.not_lt.mpr (Nat.le_add_left _ _))
  · exact packet_injective (hwire.symm.trans heq)

theorem Framed.head {S : Bytes} (h : Framed S) : ∀ b ∈ S.head?, b = 126 := by
  intro b hb
  rcases h with ⟨msg, -, rfl⟩ | ⟨-, msg, hpart⟩
  · exact (Option.some.inj hb).symm
  · cases S with
    | nil => cases hb
    | cons c S =>
      obtain rfl := Option.some.inj hb
      exact (List.cons_prefix_cons.mp hpart).1

/-- A stream that begins with nine bytes is a packet, and the rest of it is the message. -/
theorem Framed.header {S H s : Bytes} (h : Framed S) (hH : H.length = NETWORK_HEADER_LEN)
    (hsplit : H ++ s = S) : S = packet s ∧ s.length < 2 ^ 31 ∧ btonum H 1 = s.length := by
  rcases h with ⟨msg, hlt, rfl⟩ | ⟨hless, -⟩
  · have hlen : (126 :: numtob msg.length).length = NETWORK_HEADER_LEN := by
      rw [List.length_cons, length_numtob]
      rfl
    rw [packet_of_lt hlt] at hsplit
    obtain ⟨rfl, rfl⟩ := List.append_inj hsplit (hH.trans hlen.symm)
    exact ⟨rfl, hlt, btonum_numtob (by omega) 126⟩
  · rw [← hsplit, List.length_append, hH] at hless
    exact absurd hless (Nat.not_lt.mpr (Nat.le_add_right _ _))

/-! ## Headers -/

/-- Nothing is thrown away of a stream that begins with the marker. -/
theorem headerRead_of_head {S header bs s : Bytes} (hS : ∀ b ∈ S.head?, b = 126)
    (hsplit : header ++ (bs ++ s) = S) (hbs : bs ≠ []) :
    headerRead header bs = header ++ bs := by
  cases header with
  | cons b header => rw [headerRead, if_neg (List.cons_ne_nil b header)]
  | nil =>
    cases bs with
    | nil => exact absurd rfl hbs
    | cons b bs =>
      have hb : b = 126 := by
        apply hS
        rw [← hsplit]
        rfl
      subst hb
      exact headerRead_marker List.not_mem_nil bs

/-- The result of a loop, when `rest` is still on the way: a failure, or bytes that are related to
what is left of the stream by `P`. -/
def Gives (P : Bytes → Bytes → Prop) (rest : Bytes) : Except Int Bytes × Incoming → Prop
  | (.error rc, _) => rc ≠ KV_OK
  | (.ok bs, t) => P bs (received t ++ rest)

/-- The header of the stream `S`, and what stands behind it. -/
def IsHeader (S H s : Bytes) : Prop := H.length = NETWORK_HEADER_LEN ∧ H ++ s = S

section Header

variable {S rest : Bytes}

/-- The loop keeps every byte of the stream: `header` and what is still to come make `S`. -/
theorem frameHeaderLoop_gives (hS : ∀ b ∈ S.head?, b = 126) : ∀ (fuel : Nat) (header : Bytes)
    (t : Incoming), header ++ (received t ++ rest) = S →
    ∀ r ∈ frameHeaderLoop fuel header t, Gives (IsHeader S) rest r := by
  intro fuel
  induction fuel with
  | zero =>
    intro header t _ r hr
    cases hr
  | succ fuel ih =>
    intro header t hsplit r hr
    rw [frameHeaderLoop] at hr
    by_cases hlen : header.length = NETWORK_HEADER_LEN
    · rw [if_pos hlen] at hr
      rw [← Option.some.inj hr]
      exact ⟨hlen, hsplit⟩
    · rw [if_neg hlen] at hr
      have hspec := recvNF_spec (NETWORK_HEADER_LEN - header.length) t
      cases hread : recvNF (NETWORK_HEADER_LEN - header.length) t with
      | closed =>
        rw [hread] at hr
        rw [← Option.some.inj hr]
        exact (by decide : KV_NETWORK_CLOSE ≠ KV_OK)
      | failed f t' =>
        -- a read that fails takes no byte
        rw [hread] at hr hspec
        obtain ⟨used, rfl, hused, -⟩ := hspec
        apply ih header t' _ r hr
        rwa [received_append, hused, List.nil_append, received_fail] at hsplit
      | got bs t' =>
        rw [hread] at hr hspec
        obtain ⟨used, rfl, hused, -, hne, -⟩ := hspec
        rw [received_append, hused, List.append_assoc] at hsplit
        apply ih _ t' _ r hr
        rw [headerRead_of_head hS hsplit hne, List.append_assoc]
        exact hsplit

theorem replyHeaderLoop_gives (hS : ∀ b ∈ S.head?, b = 126) : ∀ (fuel : Nat) (header : Bytes)
    (t : Incoming), header.length ≤ NETWORK_HEADER_LEN → header ++ (received t ++ rest) = S →
    ∀ r ∈ replyHeaderLoop fuel header t, Gives (IsHeader S) rest r := by
  intro fuel
  induction fuel with
  | zero =>
    intro header t _ _ r hr
    cases hr
  | succ fuel ih =>
    intro header t hle hsplit r hr
    rw [replyHeaderLoop] at hr
    by_cases hlen : header.length = NETWORK_HEADER_LEN
    · rw [if_pos hlen] at hr
      rw [← Option.some.inj hr]
      exact ⟨hlen, hsplit⟩
    · rw [if_neg hlen] at hr
      have hspec := recv_spec (NETWORK_HEADER_LEN - header.length) t
      cases hread : Foundation.recv ((NETWORK_HEADER_LEN - header.length : Nat) : Int) t with
      | closed =>
        rw [hread] at hr
        rw [← Option.some.inj hr]
        exact (by decide : KV_NETWORK_CLOSE ≠ KV_OK)
      | failed f t' =>
        rw [hread] at hr
        rw [← Option.some.inj hr]
        exact codeOf_ne_ok f
      | got bs t' =>
        rw [hread] at hr hspec
        obtain ⟨used, rfl, hused, hbs⟩ := hspec
        have hne : bs ≠ [] := by
          rintro rfl
          rw [List.length_nil] at hbs
          omega
        rw [received_append, hused, List.append_assoc] at hsplit
        -- what was read goes on with the packet, from its marker or from where the header stands
        have hheader := headerRead_of_head hS hsplit hne
        apply ih _ t' _ _ r hr
        · rw [hheader, List.length_append]
          omega
        · rw [hheader, List.append_assoc]
          exact hsplit

end Header

/-! ## Contents -/

section Content

variable {msg rest : Bytes}

/-- What was collected and what is left of a stream that is whole. -/
theorem eq_of_append_of_length {content s : Bytes} (hsplit : content ++ s = msg)
    (hlen : content.length = msg.length) : content = msg ∧ s = [] := by
  have hs : s = [] := by
    have := congrArg List.length hsplit
    rw [List.length_append] at this
    exact List.length_eq_zero_iff.mp (by omega)
  rw [hs, List.append_nil] at hsplit
  exact ⟨hsplit, hs⟩

/-- The whole message, with nothing behind it. -/
def IsContent (msg data s : Bytes) : Prop := data = msg ∧ s = []

theorem readContentLoop_gives (heap : Nat → UInt8) (hmsg : msg.length < 2 ^ 31) :
    ∀ (fuel : Nat) (content : Bytes) (t : Incoming), content ++ (received t ++ rest) = msg →
    ∀ r ∈ readContentLoop heap msg.length fuel content t, Gives (IsContent msg) rest r := by
  intro fuel
  induction fuel with
  | zero =>
    intro content t _ r hr
    cases hr
  | succ fuel ih =>
    intro content t hsplit r hr
    rw [readContentLoop] at hr
    by_cases hlen : content.length = msg.length
    · rw [if_pos hlen] at hr
      rw [← Option.some.inj hr]
      exact eq_of_append_of_length hsplit hlen
    · rw [if_neg hlen] at hr
      simp only [toInt32_natCast (show msg.length - content.length < 2 ^ 31 by omega)] at hr
      have hspec := recv_spec (msg.length - content.length) t
      cases hread : Foundation.recv ((msg.length - content.length : Nat) : Int) t with
      | closed =>
        rw [hread] at hr
        rw [← Option.some.inj hr]
        exact (by decide : KV_NETWORK_CLOSE ≠ KV_OK)
      | failed f t' =>
        rw [hread] at hr hspec
        obtain ⟨used, rfl, hused⟩ := hspec
        apply ih content t' _ r hr
        rwa [received_append, hused, List.nil_append, received_fail] at hsplit
      | got bs t' =>
        rw [hread] at hr hspec
        obtain ⟨used, rfl, hused, hbs⟩ := hspec
        rw [received_append, hused, List.append_assoc] at hsplit
        -- the read was a full one, so that no byte of the buffer is left as it was
        apply ih _ t' _ r hr
        rw [bufString_of_length heap hbs, List.append_assoc]
        exact hsplit

theorem replyContentLoop_gives (hmsg : msg.length < 2 ^ 31) :
    ∀ (fuel : Nat) (rmsg : Bytes) (t : Incoming), rmsg ++ (received t ++ rest) = msg →
    ∀ r ∈ replyContentLoop msg.length fuel rmsg t,
      r.1 = KV_OK → IsContent msg r.2.1 (received r.2.2 ++ rest) := by
  intro fuel
  induction fuel with
  | zero =>
    intro rmsg t _ r hr
    cases hr
  | succ fuel ih =>
    intro rmsg t hsplit r hr hok
    rw [replyContentLoop] at hr
    by_cases hlen : rmsg.length = msg.length
    · rw [if_pos hlen] at hr
      rw [← Option.some.inj hr]
      exact eq_of_append_of_length hsplit hlen
    · rw [if_neg hlen, if_neg (by omega)] at hr
      have hspec := recvNF_spec (msg.length - rmsg.length) t
      cases hread : recvNF (msg.length - rmsg.length) t with
      | closed =>
        rw [hread] at hr
        rw [← Option.some.inj hr] at hok
        exact absurd hok (by decide : KV_NETWORK_CLOSE ≠ KV_OK)
      | failed f t' =>
        rw [hread] at hr
        rw [← Option.some.inj hr] at hok
        exact absurd hok (codeOf_ne_ok f)
      | got bs t' =>
        rw [hread] at hr hspec
        obtain ⟨used, rfl, hused, -⟩ := hspec
        rw [received_append, hused, List.append_assoc] at hsplit
        apply ih _ t' _ r hr hok
        rw [List.append_assoc]
        exact hsplit

end Content

/-! ## Messages -/

section Messages

variable {S rest data : Bytes} {t t' : Incoming}

/-- `Network::recv` succeeds on a stream with the packet of what it gives, and reads all of it. -/
theorem Network.recv_sound (heap : Nat → UInt8) (hS : Framed S) (hsplit : received t ++ rest = S)
    (h : Network.recv heap t = some (KV_OK, data, t')) :
    S = packet data ∧ received t' = [] ∧ rest = [] := by
  rw [Network.recv] at h
  cases hheader : frameHeaderLoop (t.length + 2) [] t with
  | none =>
    rw [hheader] at h
    cases h
  | some r =>
    have hgives := frameHeaderLoop_gives hS.head _ [] t hsplit r hheader
    obtain ⟨res, t₁⟩ := r
    rw [hheader] at h
    cases res with
    | error rc =>
      exact absurd (Prod.mk.inj (Option.some.inj h)).1 hgives
    | ok H =>
      obtain ⟨heq, hlt, hnum⟩ := hS.header hgives.1 hgives.2
      simp only [hnum] at h
      cases hcontent : readContent heap (received t₁ ++ rest).length t₁ with
      | none =>
        rw [hcontent] at h
        cases h
      | some r =>
        have hgives := readContentLoop_gives heap hlt _ [] t₁ rfl r hcontent
        obtain ⟨res, t₂⟩ := r
        rw [hcontent] at h
        cases res with
        | error rc =>
          exact absurd (Prod.mk.inj (Option.some.inj h)).1 hgives
        | ok content =>
          obtain ⟨-, hpair⟩ := Prod.mk.inj (Option.some.inj h)
          obtain ⟨rfl, rfl⟩ := Prod.mk.inj hpair
          obtain ⟨hmsg, hnil⟩ := hgives
          rw [← hmsg] at heq
          exact ⟨heq, List.append_eq_nil_iff.mp hnil⟩

/-- The same for the half of `sendAndRecv` that reads the reply. -/
theorem recvReply_sound (hS : Framed S) (hsplit : received t ++ rest = S)
    (h : recvReply [] t = some (KV_OK, data, t')) :
    S = packet data ∧ received t' = [] ∧ rest = [] := by
  rw [recvReply] at h
  cases hheader : replyHeaderLoop (t.length + 2) [] t with
  | none =>
    rw [hheader] at h
    cases h
  | some r =>
    have hgives := replyHeaderLoop_gives hS.head _ [] t (Nat.zero_le _) hsplit r hheader
    obtain ⟨res, t₁⟩ := r
    rw [hheader] at h
    cases res with
    | error rc =>
      exact absurd (Prod.mk.inj (Option.some.inj h)).1 hgives
    | ok H =>
      obtain ⟨heq, hlt, hnum⟩ := hS.header hgives.1 hgives.2
      simp only [hnum] at h
      by_cases hzero : (received t₁ ++ rest).length = 0
      · -- an empty reply has no content to read
        rw [if_pos hzero] at h
        obtain ⟨-, hpair⟩ := Prod.mk.inj (Option.some.inj h)
        obtain ⟨rfl, rfl⟩ := Prod.mk.inj hpair
        have hnil := List.length_eq_zero_iff.mp hzero
        rw [hnil] at heq
        exact ⟨heq, List.append_eq_nil_iff.mp hnil⟩
      · rw [if_neg hzero] at h
        obtain ⟨hmsg, hnil⟩ := replyContentLoop_gives hlt _ [] t₁ rfl _ h rfl
        rw [show data = _ from hmsg]
        exact ⟨heq, List.append_eq_nil_iff.mp hnil⟩

end Messages

end CloudLabs.KvStore
