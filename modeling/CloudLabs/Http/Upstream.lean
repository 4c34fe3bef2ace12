import CloudLabs.Http.Response
import CloudLabs.Http.RoundTrip

/-!
# The address of the upstream server

`setUpstream` reads the argument of the option `--proxy` into a buffer of 256 bytes and a port. It
guesses the form of the argument from the number of its parts between colons, and with two parts
from whether the first one contains `http`.

`parsed_iff` says that it goes wrong exactly for a host with a port whose name contains `http`.
-/

set_option autoImplicit false

namespace CloudLabs.Http

open CloudLabs.Foundation

/-- `s.copy(url, len, pos)`, which throws if `pos` is past the end of `s` and has to stay inside the
buffer. -/
def copyTo (url s : Bytes) (len pos : Nat) : Except Fault Bytes :=
  if s.length < pos then .error .index
  else
    let part := (s.drop pos).take len
    if url.length < part.length then .error .index else .ok (part ++ url.drop part.length)

/-- `url[i] = '\0'`. -/
def terminate (url : Bytes) (i : Nat) : Except Fault Bytes :=
  if i < url.length then .ok (url.set i 0) else .error .index

/-- `size - 2` of a `size_t`. -/
def minusTwo (size : Nat) : Nat := (size + (2 ^ 64 - 2)) % 2 ^ 64

/-- `set_upstream`: the buffer and the port behind it. -/
def setUpstream (str url : Bytes) (port : Int) : Except Fault (Bytes × Int) := do
  let table ← split [58] str
  -- only a host
  if table.length = 1 then do
    let host ← index table 0
    let url ← copyTo url host host.length 0
    let url ← terminate url host.length
    pure (url, 80)
  else if table.length = 2 then do
    let first ← index table 0
    let second ← index table 1
    -- a scheme and a host behind its two slashes, or a host and a port
    if (find (ascii "http") first).isSome then do
      let url ← copyTo url second (minusTwo second.length) 2
      let url ← terminate url second.length
      pure (url, 80)
    else do
      let url ← copyTo url first first.length 0
      let url ← terminate url first.length
      pure (url, atoi second)
  else if table.length = 3 then do
    -- a scheme, a host and a port; the buffer is not terminated here
    let second ← index table 1
    let third ← index table 2
    let url ← copyTo url second (minusTwo second.length) 2
    pure (url, atoi third)
  else pure (url, port)

/-- The forms of an address. -/
inductive AddressForm where
  | host
  | hostPort
  | httpHost
  | httpHostPort
  deriving DecidableEq

/-- A host name. -/
structure HostName where
  bytes : Bytes
  ne_nil : bytes ≠ []
  length_le : bytes.length ≤ 200
  noNul : 0 ∉ bytes
  noColon : 58 ∉ bytes
  noSlash : 47 ∉ bytes

/-- A port. -/
structure Port where
  number : Nat
  pos : 1 ≤ number
  le : number ≤ 65535

/-- An address in one of the forms. -/
def AddressForm.text (host : HostName) (port : Port) : AddressForm → Bytes
  | .host => host.bytes
  | .hostPort => host.bytes ++ [58] ++ toDec port.number
  | .httpHost => ascii "http" ++ [58] ++ (ascii "//" ++ host.bytes)
  | .httpHostPort => ascii "http" ++ [58] ++ (ascii "//" ++ host.bytes ++ [58] ++ toDec port.number)

/-- The port that an address names. -/
def AddressForm.port (port : Port) : AddressForm → Nat
  | .host | .httpHost => 80
  | .hostPort | .httpHostPort => port.number

/-- The buffer, all zeros before, holds the host as a C string, and the port is the one that is
named. -/
def Parsed (form : AddressForm) (host : HostName) (port : Port) (before : Int) : Prop :=
  ∃ url, setUpstream (form.text host port) (List.replicate 256 0) before = .ok (url, form.port port) ∧
    cString url = host.bytes

/-! ## The buffer -/

/-- A buffer of zeros with a text at its front. -/
def filled (part : Bytes) : Bytes := part ++ List.replicate (256 - part.length) 0

theorem copyTo_zeros (s : Bytes) (len pos : Nat) (hpos : pos ≤ s.length)
    (hroom : ((s.drop pos).take len).length ≤ 256) :
    copyTo (List.replicate 256 0) s len pos = .ok (filled ((s.drop pos).take len)) := by
  rw [copyTo, if_neg (Nat.not_lt.mpr hpos)]
  simp only [List.length_replicate]
  rw [if_neg (Nat.not_lt.mpr hroom), List.drop_replicate]
  rfl

/-- The terminator is written where there is a zero already. -/
theorem terminate_filled {part : Bytes} {i : Nat} (hpart : part.length ≤ i) (hi : i < 256) :
    terminate (filled part) i = .ok (filled part) := by
  have hlen : (filled part).length = 256 := by
    rw [filled, List.length_append, List.length_replicate]
    omega
  rw [terminate, if_pos (by rw [hlen]; exact hi), filled, List.set_append_right _ _ hpart,
    List.set_replicate_self]

theorem cString_filled {part : Bytes} (hnul : 0 ∉ part) (hlen : part.length < 256) :
    cString (filled part) = part := by
  obtain ⟨n, hn⟩ : ∃ n, 256 - part.length = n + 1 := ⟨255 - part.length, by omega⟩
  rw [filled, hn, List.replicate_succ]
  exact takeWhile_noNul hnul _

theorem minusTwo_add (n : Nat) (h : n + 2 < 2 ^ 64) : minusTwo (n + 2) = n := by
  rw [minusTwo]
  omega

/-! ## The forms -/

section Tables

variable {str url first second third : Bytes} {port : Int}

theorem setUpstream_one (h : split [58] str = .ok [first]) :
    setUpstream str url port = (copyTo url first first.length 0).bind fun url =>
      (terminate url first.length).bind fun url => .ok (url, 80) := by
  rw [setUpstream, h]
  rfl

theorem setUpstream_scheme (h : split [58] str = .ok [first, second])
    (hhttp : ascii "http" <:+: first) :
    setUpstream str url port = (copyTo url second (minusTwo second.length) 2).bind fun url =>
      (terminate url second.length).bind fun url => .ok (url, 80) := by
  have hfound := (find_isSome_iff _ _).mpr hhttp
  rw [setUpstream, h]
  show (if (find (ascii "http") first).isSome then _ else _) = _
  rw [if_pos hfound]
  rfl

theorem setUpstream_two (h : split [58] str = .ok [first, second])
    (hhttp : ¬ ascii "http" <:+: first) :
    setUpstream str url port = (copyTo url first first.length 0).bind fun url =>
      (terminate url first.length).bind fun url => .ok (url, atoi second) := by
  have hfound : ¬ (find (ascii "http") first).isSome = true :=
    fun hsome => hhttp ((find_isSome_iff _ _).mp hsome)
  rw [setUpstream, h]
  show (if (find (ascii "http") first).isSome then _ else _) = _
  rw [if_neg hfound]
  rfl

theorem setUpstream_three (h : split [58] str = .ok [first, second, third]) :
    setUpstream str url port = (copyTo url second (minusTwo second.length) 2).bind fun url =>
      .ok (url, atoi third) := by
  rw [setUpstream, h]
  rfl

end Tables

section Forms

variable (host : HostName) (port : Port) (before : Int)

/-- Parts without a colon, joined by colons, come back when the text is cut. -/
theorem split_colons (ps : List Bytes) (h : ∀ p ∈ ps, p ≠ [] ∧ 58 ∉ p)
    (hlen : (([58] : Bytes).intercalate ps).length < 2 ^ 31) :
    split [58] (([58] : Bytes).intercalate ps) = .ok ps := by
  rw [split_of_lt (List.cons_ne_nil 58 []) hlen, parts_intercalate h]

theorem Port.length_le : (toDec port.number).length ≤ 5 := by
  rw [toDec, List.length_map, Nat.length_toDigits_le_iff (by norm_num) (by norm_num)]
  exact lt_of_le_of_lt port.le (by norm_num)

theorem Port.noColon : 58 ∉ toDec port.number := notMem_toDec rfl _

theorem Port.atoi : atoi (toDec port.number) = port.number := by
  have hread := atoi_toDec (lt_of_le_of_lt port.le (by norm_num)) [] endsDigits_nil
  rwa [List.append_nil] at hread

theorem HostName.slashes_noColon : 58 ∉ ascii "//" ++ host.bytes := by
  rw [List.mem_append, not_or]
  exact ⟨by decide, host.noColon⟩

/-- The whole host is copied into the buffer and terminated. -/
theorem HostName.copied :
    copyTo (List.replicate 256 0) host.bytes host.bytes.length 0 = .ok (filled host.bytes) ∧
      terminate (filled host.bytes) host.bytes.length = .ok (filled host.bytes) ∧
      cString (filled host.bytes) = host.bytes := by
  have hle := host.length_le
  have hcopy := copyTo_zeros host.bytes host.bytes.length 0 (Nat.zero_le _)
    (by rw [List.drop_zero, List.take_length]; omega)
  rw [List.drop_zero, List.take_length] at hcopy
  exact ⟨hcopy, terminate_filled le_rfl (by omega), cString_filled host.noNul (by omega)⟩

/-- The host is copied without the two slashes in front of it. -/
theorem HostName.copied_behind_slashes :
    copyTo (List.replicate 256 0) (ascii "//" ++ host.bytes)
      (minusTwo (ascii "//" ++ host.bytes).length) 2 = .ok (filled host.bytes) ∧
      terminate (filled host.bytes) (ascii "//" ++ host.bytes).length = .ok (filled host.bytes) := by
  have hle := host.length_le
  have hlen : (ascii "//" ++ host.bytes).length = host.bytes.length + 2 := by
    rw [List.length_append, Nat.add_comm]
    rfl
  have hpart : ((ascii "//" ++ host.bytes).drop 2).take (minusTwo (ascii "//" ++ host.bytes).length)
      = host.bytes := by
    rw [hlen, minusTwo_add _ (by omega)]
    exact List.take_length
  have hcopy := copyTo_zeros (ascii "//" ++ host.bytes)
    (minusTwo (ascii "//" ++ host.bytes).length) 2 (by omega) (by rw [hpart]; omega)
  rw [hpart] at hcopy
  exact ⟨hcopy, terminate_filled (by omega) (by omega)⟩

theorem parsed_host : Parsed .host host port before := by
  have hle := host.length_le
  obtain ⟨hcopy, hend, hurl⟩ := host.copied
  have hsplit := split_colons [host.bytes] (by simp [host.ne_nil, host.noColon])
    (by simp [List.intercalate]; omega)
  have htext : ([58] : Bytes).intercalate [host.bytes] = host.bytes := by simp [List.intercalate]
  rw [htext] at hsplit
  refine ⟨filled host.bytes, ?_, hurl⟩
  show setUpstream host.bytes _ _ = _
  rw [setUpstream_one hsplit, hcopy, Except.bind, hend]
  rfl

theorem parsed_httpHost : Parsed .httpHost host port before := by
  have hle := host.length_le
  obtain ⟨hcopy, hend⟩ := host.copied_behind_slashes
  have hsplit := split_colons [ascii "http", ascii "//" ++ host.bytes]
    (by
      intro p hp
      rcases List.mem_pair.mp hp with rfl | rfl
      · exact ⟨by decide, by decide⟩
      · exact ⟨by simp [ascii], host.slashes_noColon⟩)
    (by simp [List.intercalate, ascii]; omega)
  have htext : ([58] : Bytes).intercalate [ascii "http", ascii "//" ++ host.bytes]
      = AddressForm.httpHost.text host port := by simp [List.intercalate, AddressForm.text]
  rw [htext] at hsplit
  refine ⟨filled host.bytes, ?_, host.copied.2.2⟩
  rw [setUpstream_scheme hsplit (List.infix_refl _), hcopy, Except.bind, hend]
  rfl

theorem parsed_httpHostPort : Parsed .httpHostPort host port before := by
  have hle := host.length_le
  have hport := port.length_le
  obtain ⟨hcopy, -⟩ := host.copied_behind_slashes
  have hsplit := split_colons [ascii "http", ascii "//" ++ host.bytes, toDec port.number]
    (by
      intro p hp
      simp only [List.mem_cons, List.not_mem_nil, or_false] at hp
      rcases hp with rfl | rfl | rfl
      · exact ⟨by decide, by decide⟩
      · exact ⟨by simp [ascii], host.slashes_noColon⟩
      · exact ⟨toDec_ne_nil _, port.noColon⟩)
    (by simp [List.intercalate, ascii]; omega)
  have htext : ([58] : Bytes).intercalate [ascii "http", ascii "//" ++ host.bytes, toDec port.number]
      = AddressForm.httpHostPort.text host port := by simp [List.intercalate, AddressForm.text]
  rw [htext] at hsplit
  refine ⟨filled host.bytes, ?_, host.copied.2.2⟩
  rw [setUpstream_three hsplit, hcopy, Except.bind, port.atoi]
  rfl

/-- A name that contains `http` does not come out of the digits of a port. -/
theorem cString_filled_ne {part : Bytes} (hpart : part ⊆ toDec port.number)
    (hhttp : ascii "http" <:+: host.bytes) : cString (filled part) ≠ host.bytes := by
  intro hurl
  have hmem : (104 : UInt8) ∈ host.bytes := hhttp.subset (by decide)
  rw [← hurl] at hmem
  have hfilled := (List.takeWhile_sublist _).subset hmem
  rw [filled, List.mem_append, List.mem_replicate] at hfilled
  rcases hfilled with hdigit | ⟨-, hzero⟩
  · exact notMem_toDec rfl _ (hpart hdigit)
  · exact absurd hzero (by decide)

/-- A host with a port: the port is read as the host if the name of the host contains `http`. -/
theorem parsed_hostPort_iff :
    Parsed .hostPort host port before ↔ ¬ ascii "http" <:+: host.bytes := by
  have hle := host.length_le
  have hport := port.length_le
  have hsplit := split_colons [host.bytes, toDec port.number]
    (by
      intro p hp
      rcases List.mem_pair.mp hp with rfl | rfl
      · exact ⟨host.ne_nil, host.noColon⟩
      · exact ⟨toDec_ne_nil _, port.noColon⟩)
    (by simp [List.intercalate]; omega)
  have htext : ([58] : Bytes).intercalate [host.bytes, toDec port.number]
      = AddressForm.hostPort.text host port := by simp [List.intercalate, AddressForm.text]
  rw [htext] at hsplit
  by_cases hhttp : ascii "http" <:+: host.bytes
  · -- with `http` in the host, the port is taken for the host
    refine iff_of_false ?_ (not_not.mpr hhttp)
    rintro ⟨url, hok, hurl⟩
    rw [setUpstream_scheme hsplit hhttp] at hok
    by_cases hshort : (toDec port.number).length < 2
    · -- a port of one digit: the copy begins past its end
      rw [copyTo, if_pos hshort] at hok
      cases hok
    · obtain ⟨part, hpart⟩ : ∃ part, part
          = ((toDec port.number).drop 2).take (minusTwo (toDec port.number).length) := ⟨_, rfl⟩
      have hlen : part.length ≤ (toDec port.number).length := by
        rw [hpart, List.length_take, List.length_drop]
        omega
      have hcopy := copyTo_zeros (toDec port.number) (minusTwo (toDec port.number).length) 2
        (by omega) (by rw [← hpart]; omega)
      rw [← hpart] at hcopy
      rw [hcopy, Except.bind, terminate_filled hlen (by omega), Except.bind, Except.ok.injEq,
        Prod.mk.injEq] at hok
      rw [← hok.1] at hurl
      refine cString_filled_ne host port ?_ hhttp hurl
      rw [hpart]
      exact fun b hb => List.mem_of_mem_drop (List.mem_of_mem_take hb)
  · -- without it, the parts are taken for what they are
    refine iff_of_true ?_ hhttp
    obtain ⟨hcopy, hend, hurl⟩ := host.copied
    refine ⟨filled host.bytes, ?_, hurl⟩
    rw [setUpstream_two hsplit hhttp, hcopy, Except.bind, hend, port.atoi]
    rfl

end Forms

/-- The address is read as it is meant exactly if it does not have the form of a host with a port
and a host whose name contains `http`. -/
theorem parsed_iff (form : AddressForm) (host : HostName) (port : Port) (before : Int) :
    Parsed form host port before ↔ ¬ (form = .hostPort ∧ ascii "http" <:+: host.bytes) := by
  cases form with
  | host => exact iff_of_true (parsed_host host port before) fun h => AddressForm.noConfusion h.1
  | hostPort =>
      rw [parsed_hostPort_iff]
      exact not_congr (by simp)
  | httpHost => exact iff_of_true (parsed_httpHost host port before) fun h => AddressForm.noConfusion h.1
  | httpHostPort =>
      exact iff_of_true (parsed_httpHostPort host port before) fun h => AddressForm.noConfusion h.1

/-- `httpbin.org:8080` is taken for a scheme and a host. -/
theorem not_parsed_httpbin : ¬ Parsed .hostPort ⟨ascii "httpbin.org", by decide, by decide, by decide,
    by decide, by decide⟩ ⟨8080, by decide, by decide⟩ 0 := by
  rw [parsed_hostPort_iff, not_not]
  exact ⟨[], ascii "bin.org", by decide⟩

end CloudLabs.Http
