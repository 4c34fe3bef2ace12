import Mathlib.Data.List.TakeWhile
import CloudLabs.Http.Framing

/-!
# What a worker receives

The two loops of `socket_worker` that put a text together from what the calls of `Recv` deliver. The
one for the request adds every chunk as a C string. The proxy's one adds it with its size, and ends
when the number behind the first `Content-Length: ` it finds is covered by the bytes behind the
first empty line.

`requestReceived_iff` and `forwarded_iff` say when what they leave behind is what was sent.
-/

set_option autoImplicit false

namespace CloudLabs.Http

open CloudLabs.Foundation

/-- What one successful call of `Recv` with room for 1024 bytes delivers. -/
structure Chunk where
  bytes : Bytes
  pos : 0 < bytes.length
  le : bytes.length ≤ 1024

/-! ## The request -/

/-- `s += tmp` with an array: up to its first NUL, which has to be there. -/
def appendArray (s tmp : Bytes) : Except Fault Bytes :=
  if 0 ∈ tmp then .ok (s ++ cString tmp) else .error .index

/-- The array `tmp`, all zeros before the call. -/
def Chunk.tmp (chunk : Chunk) : Bytes := chunk.bytes ++ List.replicate (1024 - chunk.bytes.length) 0

/-- The receive loop of `socket_worker`. A round has what its call of `Recv` delivers, if it
succeeds, and whether the call with `MSG_PEEK` behind it does. -/
def requestLoop : List (Option Chunk × Bool) → Bytes → Except Fault Bytes
  | [], recv_buf => .ok recv_buf
  | (received, more) :: rounds, recv_buf => do
      let recv_buf ← received.elim (pure recv_buf) fun chunk => appendArray recv_buf chunk.tmp
      if more then requestLoop rounds recv_buf else pure recv_buf

/-- The chunks of some rounds, one behind the other. -/
def received (rounds : List (Option Chunk × Bool)) : Bytes :=
  (rounds.filterMap Prod.fst).flatMap Chunk.bytes

/-- The buffer ends with exactly what was received. -/
def RequestReceived (rounds : List (Option Chunk × Bool)) : Prop :=
  requestLoop rounds [] = .ok (received rounds)

/-- A chunk that is kept as a C string. -/
structure Chunk.Text (chunk : Chunk) : Prop where
  noNul : 0 ∉ chunk.bytes
  short : chunk.bytes.length < 1024

theorem Chunk.Text.appendArray {chunk : Chunk} (h : chunk.Text) (s : Bytes) :
    appendArray s chunk.tmp = .ok (s ++ chunk.bytes) := by
  have hshort := h.short
  obtain ⟨n, hn⟩ : ∃ n, 1024 - chunk.bytes.length = n + 1 := ⟨1023 - chunk.bytes.length, by omega⟩
  have htmp : chunk.tmp = chunk.bytes ++ 0 :: List.replicate n 0 := by
    rw [Chunk.tmp, hn, List.replicate_succ]
  rw [Http.appendArray, if_pos (by rw [htmp]; simp), cString, htmp, takeWhile_noNul h.noNul]

theorem noNul_of_length_cString {a : Bytes} (h : (cString a).length = a.length) : 0 ∉ a := by
  intro hmem
  have hall : cString a = a := (List.takeWhile_prefix _).eq_of_length h
  rw [← hall] at hmem
  simpa using List.mem_takeWhile_imp hmem

/-- What is added for a chunk is not longer than the chunk, and as long only if nothing is cut
off. -/
theorem appendArray_tmp {chunk : Chunk} {s out : Bytes} (h : appendArray s chunk.tmp = .ok out) :
    ∃ piece, out = s ++ piece ∧ piece.length ≤ chunk.bytes.length ∧
      (piece.length = chunk.bytes.length → chunk.Text) := by
  unfold appendArray at h
  by_cases hnul : 0 ∈ chunk.tmp
  · rw [if_pos hnul, Except.ok.injEq] at h
    by_cases hcut : (cString chunk.bytes).length = chunk.bytes.length
    · -- no NUL in the chunk, so there is one behind it
      have hnoNul := noNul_of_length_cString hcut
      rw [Chunk.tmp, List.mem_append, or_iff_right hnoNul, List.mem_replicate] at hnul
      have htext : chunk.Text := ⟨hnoNul, by omega⟩
      have hout := htext.appendArray s
      rw [Http.appendArray, if_pos (by rw [Chunk.tmp]; simp; omega), Except.ok.injEq] at hout
      exact ⟨chunk.bytes, by rw [← h, hout], le_rfl, fun _ => htext⟩
    · have hpiece : cString chunk.tmp = cString chunk.bytes := by
        rw [cString, Chunk.tmp, List.takeWhile_append]
        exact if_neg hcut
      exact ⟨cString chunk.bytes, by rw [← h, hpiece], (List.takeWhile_sublist _).length_le,
        fun hlen => absurd hlen hcut⟩
  · rw [if_neg hnul] at h
    cases h

/-- Rounds that end with the last one: in front of it, the call with `MSG_PEEK` succeeds. -/
def Continues (rounds : List (Option Chunk × Bool)) : Prop := ∀ round ∈ rounds.dropLast, round.2 = true

/-- A round in front of others goes on with them. -/
theorem requestLoop_cons {got : Option Chunk} {more : Bool} {rounds : List (Option Chunk × Bool)}
    (h : Continues ((got, more) :: rounds)) (recv_buf : Bytes) :
    Continues rounds ∧ requestLoop ((got, more) :: rounds) recv_buf
      = (got.elim (pure recv_buf) fun chunk => appendArray recv_buf chunk.tmp)
        >>= requestLoop rounds := by
  cases rounds with
  | nil =>
      refine ⟨fun r hr => absurd hr List.not_mem_nil, ?_⟩
      rw [requestLoop]
      refine congrArg _ (funext fun recv_buf => ?_)
      cases more <;> rfl
  | cons next rounds =>
      rw [Continues, List.dropLast_cons_of_ne_nil (List.cons_ne_nil _ _)] at h
      have hmore : more = true := h (got, more) List.mem_cons_self
      exact ⟨fun r hr => h r (List.mem_cons_of_mem _ hr), by rw [hmore]; rfl⟩

theorem received_cons (got : Option Chunk) (more : Bool) (rounds : List (Option Chunk × Bool)) :
    received ((got, more) :: rounds) = (got.elim [] Chunk.bytes) ++ received rounds := by
  cases got <;> simp [received]

/-- If all chunks are kept, the buffer gets all of them: by induction on the rounds. -/
theorem requestLoop_text {rounds : List (Option Chunk × Bool)} (hgo : Continues rounds)
    (h : ∀ chunk ∈ rounds.filterMap Prod.fst, chunk.Text) (recv_buf : Bytes) :
    requestLoop rounds recv_buf = .ok (recv_buf ++ received rounds) := by
  induction rounds generalizing recv_buf with
  | nil => simp [requestLoop, received]
  | cons round rounds ih =>
      obtain ⟨got, more⟩ := round
      obtain ⟨hrest, hloop⟩ := requestLoop_cons hgo recv_buf
      rw [hloop, received_cons]
      cases got with
      | none => exact ih hrest (by simpa using h) recv_buf
      | some chunk =>
          have hchunk := (h chunk (by simp)).appendArray recv_buf
          have hnext := ih hrest (fun c hc => h c (by simp [hc])) (recv_buf ++ chunk.bytes)
          show (appendArray recv_buf chunk.tmp >>= requestLoop rounds) = _
          rw [hchunk, Option.elim_some, ← List.append_assoc, ← hnext]
          rfl

/-- The loop never adds more than was received, and as much only if all chunks are kept. -/
theorem requestLoop_length {rounds : List (Option Chunk × Bool)} (hgo : Continues rounds)
    {recv_buf out : Bytes} (h : requestLoop rounds recv_buf = .ok out) :
    out.length ≤ recv_buf.length + (received rounds).length ∧
      (out.length = recv_buf.length + (received rounds).length →
        ∀ chunk ∈ rounds.filterMap Prod.fst, chunk.Text) := by
  induction rounds generalizing recv_buf with
  | nil =>
      cases h
      simp [received]
  | cons round rounds ih =>
      obtain ⟨got, more⟩ := round
      obtain ⟨hrest, hloop⟩ := requestLoop_cons hgo recv_buf
      rw [hloop] at h
      rw [received_cons, List.length_append]
      cases got with
      | none => simpa using ih hrest h
      | some chunk =>
          cases happend : appendArray recv_buf chunk.tmp with
          | error fault =>
              rw [Option.elim_some, happend] at h
              cases h
          | ok next =>
              rw [Option.elim_some, happend] at h
              obtain ⟨piece, rfl, hpiece, htext⟩ := appendArray_tmp happend
              obtain ⟨hle, hall⟩ := ih hrest h
              rw [List.length_append] at hle hall
              rw [Option.elim_some]
              -- bytes that are lost with one chunk are not made up for by another
              refine ⟨by omega, fun hlen => ?_⟩
              rw [List.filterMap_cons_some (f := Prod.fst) (a := (some chunk, more)) (b := chunk) rfl,
                List.forall_mem_cons]
              exact ⟨htext (by omega), hall (by omega)⟩

/-- The request is received as it was sent exactly if no chunk holds a NUL or fills the array. -/
theorem requestReceived_iff {rounds : List (Option Chunk × Bool)} (hgo : Continues rounds) :
    RequestReceived rounds ↔
      ∀ chunk ∈ rounds.filterMap Prod.fst, 0 ∉ chunk.bytes ∧ chunk.bytes.length < 1024 := by
  constructor
  · intro h chunk hchunk
    have htext := (requestLoop_length hgo h).2 (by simp) chunk hchunk
    exact ⟨htext.noNul, htext.short⟩
  · intro h
    have hloop := requestLoop_text hgo (fun chunk hchunk => ⟨(h chunk hchunk).1, (h chunk hchunk).2⟩) []
    rwa [List.nil_append] at hloop

theorem requestReceived_iff_two :
    RequestReceived [(some ⟨[71], by decide, by decide⟩, true),
      (some ⟨[69], by decide, by decide⟩, false)]
      ↔ ∀ chunk ∈ [(some (Chunk.mk [71] (by decide) (by decide)), true),
          (some (Chunk.mk [69] (by decide) (by decide)), false)].filterMap Prod.fst,
        0 ∉ chunk.bytes ∧ chunk.bytes.length < 1024 :=
  requestReceived_iff (by
    intro round hround
    rw [List.mem_singleton.mp hround])

/-- A chunk of a byte, a NUL and another byte: only the first byte is kept. -/
theorem not_requestReceived_nul :
    ¬ RequestReceived [(some ⟨[71, 0, 69], by decide, by decide⟩, false)] := by
  intro h
  have hkept : requestLoop [(some ⟨[71, 0, 69], by decide, by decide⟩, false)] [] = .ok [71] := rfl
  rw [RequestReceived, hkept] at h
  cases h

/-! ## The response of the upstream server -/

/-- `std::string::find`, as it is stored in an `int`. -/
def findInt (pat s : Bytes) : Int := (find pat s).elim (-1) fun pos => toInt32 pos

/-- The spellings of the length field, in the order in which they are searched for. -/
def spellings : List Bytes :=
  [ascii "Content-length: ", ascii "Content-Length: ", ascii "content-length: ",
    ascii "content-Length: "]

/-- `length_pos`: the first search that finds something. -/
def lengthPos (send_buf : Bytes) : Int :=
  ((spellings.map fun spelling => findInt spelling send_buf).find? (· ≠ -1)).getD (-1)

/-- `atoi(s.c_str() + pos)`. -/
def atoiAt (s : Bytes) (pos : Int) : Except Fault Int :=
  if pos < 0 ∨ (s.length : Int) < pos then .error .index else .ok (atoi (s.drop pos.toNat))

/-- The number behind the length field that is found. -/
def announced (send_buf : Bytes) : Except Fault Int := atoiAt send_buf (lengthPos send_buf + 16)

/-- The local variables of the proxy's loop. -/
structure Proxy where
  send_buf : Bytes
  length_pos : Int
  content_pos : Int
  content_length : Int

/-- `send_buf.append(tmp, size)`, if the call of `Recv` succeeds. -/
def Proxy.append (s : Proxy) (got : Option Chunk) : Proxy :=
  { s with send_buf := s.send_buf ++ got.elim [] Chunk.bytes }

/-- The search for the end of the header block, as long as it is not found. -/
def Proxy.scan (s : Proxy) : Except Fault Proxy :=
  if s.content_pos = -1 then
    let content_pos := findInt blank s.send_buf
    if content_pos ≠ -1 then do
      let content_length ← announced s.send_buf
      pure { s with
        length_pos := lengthPos s.send_buf
        content_pos := content_pos
        content_length := content_length }
    else pure s
  else pure s

/-- The test behind the search; both sides are a `size_t`. -/
def Proxy.complete (s : Proxy) : Bool :=
  s.content_length ≠ -1 &&
    toUInt64 s.content_length ≤ toUInt64 ((s.send_buf.length : Int) - s.content_pos - 4)

/-- How far the loop gets with some calls of `Recv`: it calls it once more, or it ends with calls
that it does not make. -/
inductive ProxyEnd where
  | waiting
  | left (send_buf : Bytes) (rest : List (Option Chunk))

/-- The proxy's loop of `socket_worker`. -/
def proxyLoop : List (Option Chunk) → Proxy → Except Fault ProxyEnd
  | [], _ => .ok .waiting
  | got :: rest, s => do
      let s ← (s.append got).scan
      if s.complete then pure (.left s.send_buf rest)
      else if got.isSome then proxyLoop rest s
      else pure (.left s.send_buf rest)

/-- A response: the lines up to the length field, the field, the rest of the header block, and a
body of as many bytes as the field says. -/
structure UpstreamResponse where
  before : Bytes
  spelling : Bytes
  digits : Bytes
  after : Bytes
  body : Bytes
  before_line : ∃ lines, before = lines ++ crlf
  spelling_mem : spelling ∈ spellings
  digits_ne_nil : digits ≠ []
  digits_digit : ∀ d ∈ digits, isDigit d = true
  value : scanDigits 0 digits = body.length
  value_lt : body.length < 2 ^ 31
  after_line : after = [] ∨ crlf <+: after
  only : ∀ line ∈ fields crlf before ++ fields crlf after, ∀ sp ∈ spellings, ¬ sp <+: line
  first : find blank (before ++ spelling ++ digits ++ after ++ blank ++ body)
    = some (before ++ spelling ++ digits ++ after).length
  size_lt : (before ++ spelling ++ digits ++ after ++ blank ++ body).length < 2 ^ 63

/-- The header block without the empty line. -/
def UpstreamResponse.head (r : UpstreamResponse) : Bytes :=
  r.before ++ r.spelling ++ r.digits ++ r.after

def UpstreamResponse.text (r : UpstreamResponse) : Bytes := r.head ++ blank ++ r.body

/-- The loop ends with the whole response, and with the call that delivers its last byte. -/
def Forwarded (chunks : List Chunk) (response : Bytes) : Prop :=
  proxyLoop (chunks.map some) ⟨[], -1, -1, -1⟩ = .ok (.left response [])

/-- What has been delivered with the first `k` chunks. -/
def held (chunks : List Chunk) (k : Nat) : Bytes := (chunks.take k).flatMap Chunk.bytes

/-- The `n` bytes of a header block are complete with chunk `k`. -/
def CompleteAt (chunks : List Chunk) (n k : Nat) : Prop :=
  n ≤ (held chunks k).length ∧ ∀ j < k, (held chunks j).length < n

/-- The bytes of the body among the first `n` bytes, with the position of the empty line in an
`int`. -/
def UpstreamResponse.bodySeen (r : UpstreamResponse) (n : Nat) : Int := n - toInt32 r.head.length - 4

/-! ### Steps of the loop -/

theorem toInt32_bounds (i : Int) : -(2 ^ 31) ≤ toInt32 i ∧ toInt32 i < 2 ^ 31 := by
  rw [toInt32]
  exact ⟨BitVec.le_toInt _, BitVec.toInt_lt⟩

theorem toInt32_natCast_le (n : Nat) : toInt32 n ≤ n := by
  rw [toInt32, BitVec.toInt_ofInt, Int.bmod_def]
  split <;> omega

theorem atoiAt_bounds {s : Bytes} {pos c : Int} (h : atoiAt s pos = .ok c) :
    -(2 ^ 31) ≤ c ∧ c < 2 ^ 31 := by
  unfold atoiAt at h
  split at h
  · cases h
  · cases h
    exact toInt32_bounds _

/-- The state in which the end of the header block has not been found. -/
def Proxy.searching (send_buf : Bytes) : Proxy := ⟨send_buf, -1, -1, -1⟩

/-- The search in a buffer: nothing changes, or the number behind the length field is read. -/
theorem scan_searching (send_buf : Bytes) : (Proxy.searching send_buf).scan =
    if findInt blank send_buf = -1 then .ok (.searching send_buf)
    else (announced send_buf).map fun content_length =>
      ⟨send_buf, lengthPos send_buf, findInt blank send_buf, content_length⟩ := by
  rw [Proxy.scan, if_pos (show (Proxy.searching send_buf).content_pos = -1 from rfl)]
  show (if findInt blank send_buf ≠ -1 then _ else _) = _
  by_cases h : findInt blank send_buf = -1
  · rw [if_neg (not_not.mpr h), if_pos h]
    rfl
  · rw [if_pos h, if_neg h]
    show (announced send_buf >>= _) = _
    cases announced send_buf <;> rfl

/-- Chunks that do not complete the header block only add to the buffer. -/
theorem proxyLoop_searching (chunks : List Chunk) (rest : List (Option Chunk)) (send_buf : Bytes)
    (h : ∀ j ≤ chunks.length, findInt blank (send_buf ++ held chunks j) = -1) :
    proxyLoop (chunks.map some ++ rest) (.searching send_buf)
      = proxyLoop rest (.searching (send_buf ++ held chunks chunks.length)) := by
  induction chunks generalizing send_buf with
  | nil => simp [held]
  | cons chunk chunks ih =>
      have hheld : ∀ j, held (chunk :: chunks) (j + 1) = chunk.bytes ++ held chunks j := by
        intro j
        rw [held, List.take_succ_cons, List.flatMap_cons]
        rfl
      have hscan : ((Proxy.searching send_buf).append (some chunk)).scan
          = .ok (.searching (send_buf ++ chunk.bytes)) := by
        have hnot := h 1 (by simp)
        rw [hheld 0] at hnot
        have hnone : findInt blank (send_buf ++ chunk.bytes) = -1 := by simpa [held] using hnot
        exact (scan_searching _).trans (if_pos hnone)
      have hrest := ih (send_buf ++ chunk.bytes) fun j hj => by
        have hj' := h (j + 1) (by simpa using hj)
        rwa [hheld, ← List.append_assoc] at hj'
      rw [List.map_cons, List.cons_append, proxyLoop, hscan, List.length_cons, hheld,
        ← List.append_assoc, ← hrest]
      rfl

/-- A state in which the end of the header block has been found. -/
structure Proxy.Counting (s : Proxy) (content_pos content_length : Int) : Prop where
  pos : s.content_pos = content_pos
  length : s.content_length = content_length
  ne : content_pos ≠ -1

theorem Proxy.Counting.append {s : Proxy} {p c : Int} (h : s.Counting p c) (got : Option Chunk) :
    (s.append got).Counting p c := ⟨h.pos, h.length, h.ne⟩

theorem Proxy.Counting.scan {s : Proxy} {p c : Int} (h : s.Counting p c) : s.scan = .ok s := by
  rw [Proxy.scan, if_neg (by rw [h.pos]; exact h.ne)]
  rfl

/-- The test behind the search, without the wrap-around. -/
theorem Proxy.Counting.complete_iff {s : Proxy} {p c : Int} (h : s.Counting p c)
    (hp : -(2 ^ 31) ≤ p) (hc : -(2 ^ 31) ≤ c ∧ c < 2 ^ 31) (hroom : p + 4 ≤ s.send_buf.length)
    (hsize : s.send_buf.length < 2 ^ 63) :
    s.complete = true ↔ 0 ≤ c ∧ c ≤ s.send_buf.length - p - 4 := by
  rw [Proxy.complete, h.pos, h.length, Bool.and_eq_true, decide_eq_true_eq, decide_eq_true_eq,
    toUInt64, toUInt64]
  omega

theorem held_cons (chunk : Chunk) (chunks : List Chunk) (k : Nat) :
    held (chunk :: chunks) (k + 1) = chunk.bytes ++ held chunks k := by
  rw [held, List.take_succ_cons, List.flatMap_cons]
  rfl

/-- What is left of the loop once a round has added its bytes and searched them. -/
def Proxy.go (s : Proxy) (chunks : List Chunk) : Except Fault ProxyEnd :=
  if s.complete then .ok (.left s.send_buf (chunks.map some)) else proxyLoop (chunks.map some) s

theorem Proxy.go_cons {s : Proxy} {p c : Int} (h : s.Counting p c) (hgo : s.complete = false)
    (chunk : Chunk) (chunks : List Chunk) :
    s.go (chunk :: chunks) = (s.append (some chunk)).go chunks := by
  rw [Proxy.go, hgo, if_neg Bool.false_ne_true, List.map_cons, proxyLoop,
    (h.append (some chunk)).scan, Proxy.go]
  rfl

/-- A loop that counts ends with all chunks exactly if the test succeeds with the last one and not
before: by induction on the chunks. -/
theorem Proxy.Counting.go_iff {s : Proxy} {p c : Int} (h : s.Counting p c) (chunks : List Chunk) :
    s.go chunks = .ok (.left (s.send_buf ++ held chunks chunks.length) []) ↔
      ∀ j ≤ chunks.length,
        (({ s with send_buf := s.send_buf ++ held chunks j } : Proxy).complete = true ↔
          j = chunks.length) := by
  induction chunks generalizing s with
  | nil =>
      have hself : ({ s with send_buf := s.send_buf ++ held [] 0 } : Proxy) = s := by
        simp [held]
      constructor
      · intro hgo j hj
        obtain rfl : j = 0 := Nat.le_zero.mp hj
        rw [hself]
        refine iff_of_true ?_ rfl
        by_contra hnot
        rw [Proxy.go, if_neg hnot] at hgo
        cases hgo
      · intro hall
        have hcomplete := (hall 0 (Nat.zero_le _)).mpr rfl
        rw [hself] at hcomplete
        rw [Proxy.go, if_pos hcomplete]
        simp [held]
  | cons chunk chunks ih =>
      have hzero : ({ s with send_buf := s.send_buf ++ held (chunk :: chunks) 0 } : Proxy) = s := by
        simp [held]
      have hnext := ih (h.append (some chunk))
      have hbuf : (s.append (some chunk)).send_buf = s.send_buf ++ chunk.bytes := rfl
      -- what is held after this chunk and `j` more
      have hsame : ∀ j, ({ s.append (some chunk) with
          send_buf := (s.append (some chunk)).send_buf ++ held chunks j } : Proxy)
          = { s with send_buf := s.send_buf ++ held (chunk :: chunks) (j + 1) } := by
        intro j
        rw [held_cons, ← List.append_assoc]
        rfl
      by_cases hgo : s.complete = true
      · -- the loop ends too early
        refine iff_of_false ?_ fun hall => ?_
        · rw [Proxy.go, if_pos hgo]
          intro heq
          rw [Except.ok.injEq, ProxyEnd.left.injEq] at heq
          exact absurd heq.2 (by simp)
        · have hlast := (hall 0 (Nat.zero_le _)).mp (by rw [hzero]; exact hgo)
          cases hlast
      · -- the loop goes on with the next chunk
        rw [Proxy.go_cons h (by simpa using hgo), List.length_cons, held_cons, ← List.append_assoc,
          ← hbuf, hnext]
        constructor
        · intro hall j hj
          cases j with
          | zero => exact iff_of_false (by rw [hzero]; exact hgo) (Nat.succ_ne_zero _).symm
          | succ j => rw [← hsame, hall j (Nat.le_of_succ_le_succ hj), Nat.succ_inj]
        · intro hall j hj
          rw [hsame, hall (j + 1) (Nat.succ_le_succ hj), Nat.succ_inj]

/-! ### The whole response -/

section Response

variable {r : UpstreamResponse} {chunks : List Chunk}

theorem held_prefix (chunks : List Chunk) (k : Nat) : held chunks k <+: chunks.flatMap Chunk.bytes := by
  refine ⟨(chunks.drop k).flatMap Chunk.bytes, ?_⟩
  rw [held, ← List.flatMap_append, List.take_append_drop]

theorem held_length (chunks : List Chunk) : held chunks chunks.length = chunks.flatMap Chunk.bytes := by
  rw [held, List.take_length]

theorem held_drop (chunks : List Chunk) (k j : Nat) :
    held chunks k ++ held (chunks.drop k) j = held chunks (k + j) := by
  rw [held, held, held, ← List.flatMap_append, List.take_add]

theorem length_held_le (chunks : List Chunk) {j k : Nat} (h : j ≤ k) :
    (held chunks j).length ≤ (held chunks k).length := by
  obtain ⟨d, rfl⟩ := Nat.exists_eq_add_of_le h
  rw [← held_drop, List.length_append]
  exact Nat.le_add_right _ _

/-- The header block ends in the part that has been delivered, or it is not found there. -/
theorem findInt_held (hcut : chunks.flatMap Chunk.bytes = r.text) (k : Nat) :
    findInt blank (held chunks k) =
      if r.head.length + 4 ≤ (held chunks k).length then toInt32 r.head.length else -1 := by
  have hfront := List.prefix_iff_eq_take.mp (hcut ▸ held_prefix chunks k)
  have hfirst : find blank r.text = some r.head.length := r.first
  have htake := find_take hfirst (held chunks k).length
  rw [← hfront] at htake
  rw [findInt, htake]
  show (if r.head.length + 4 ≤ _ then _ else _ : Option Nat).elim _ _ = _
  split <;> rfl

theorem CompleteAt.unique {n k k' : Nat} (h : CompleteAt chunks n k) (h' : CompleteAt chunks n k') :
    k = k' := by
  rcases Nat.lt_trichotomy k k' with hlt | heq | hlt
  · exact absurd (h'.2 k hlt) (Nat.not_lt.mpr h.1)
  · exact heq
  · exact absurd (h.2 k' hlt) (Nat.not_lt.mpr h'.1)

/-- With all chunks the header block is complete. -/
theorem exists_completeAt (hcut : chunks.flatMap Chunk.bytes = r.text) :
    ∃ k, k < chunks.length ∧ CompleteAt chunks (r.head.length + 4) (k + 1) := by
  have hall : r.head.length + 4 ≤ (held chunks chunks.length).length := by
    rw [held_length, hcut, UpstreamResponse.text, List.length_append, List.length_append]
    exact Nat.le_add_right _ _
  have hex : ∃ k, r.head.length + 4 ≤ (held chunks k).length := ⟨_, hall⟩
  have hpos : Nat.find hex ≠ 0 := by
    intro hzero
    have hnil := Nat.find_spec hex
    rw [hzero] at hnil
    exact Nat.not_succ_le_zero _ hnil
  have hle := Nat.find_min' hex hall
  refine ⟨Nat.find hex - 1, by omega, ?_⟩
  rw [Nat.sub_add_cancel (Nat.one_le_iff_ne_zero.mpr hpos)]
  exact ⟨Nat.find_spec hex, fun j hj => Nat.not_le.mp (Nat.find_min hex hj)⟩

/-- The loop up to the chunk that completes the header block. -/
theorem proxyLoop_header (hcut : chunks.flatMap Chunk.bytes = r.text) {k : Nat}
    (hk : k < chunks.length) (hcomplete : CompleteAt chunks (r.head.length + 4) (k + 1))
    (hne : toInt32 r.head.length ≠ -1) :
    proxyLoop (chunks.map some) ⟨[], -1, -1, -1⟩ =
      (announced (held chunks (k + 1))).bind fun c =>
        Proxy.go ⟨held chunks (k + 1), lengthPos (held chunks (k + 1)), toInt32 r.head.length, c⟩
          (chunks.drop (k + 1)) := by
  have hsplit : chunks.map some
      = (chunks.take k).map some ++ some chunks[k] :: (chunks.drop (k + 1)).map some := by
    rw [← List.map_cons, ← List.map_append, ← List.drop_eq_getElem_cons hk, List.take_append_drop]
  have hlen : (chunks.take k).length = k := by rw [List.length_take, Nat.min_eq_left hk.le]
  have htake : ∀ j ≤ k, held (chunks.take k) j = held chunks j := by
    intro j hj
    rw [held, held, List.take_take, Nat.min_eq_left hj]
  -- before the header block is complete the loop finds nothing
  have hearly := proxyLoop_searching (chunks.take k)
    (some chunks[k] :: (chunks.drop (k + 1)).map some) [] fun j hj => by
      rw [hlen] at hj
      rw [List.nil_append, htake j hj, findInt_held hcut, if_neg]
      exact Nat.not_le.mpr (hcomplete.2 j (Nat.lt_succ_of_le hj))
  rw [hlen, htake k le_rfl, List.nil_append] at hearly
  have happend : (Proxy.searching (held chunks k)).append (some chunks[k])
      = .searching (held chunks (k + 1)) := by
    have hone : held (chunks.drop k) 1 = chunks[k].bytes := by
      rw [List.drop_eq_getElem_cons hk, held_cons]
      simp [held]
    rw [← held_drop, hone]
    rfl
  have hfound : findInt blank (held chunks (k + 1)) = toInt32 r.head.length := by
    rw [findInt_held hcut, if_pos hcomplete.1]
  show proxyLoop (chunks.map some) (.searching []) = _
  rw [hsplit, hearly, proxyLoop, happend, scan_searching, hfound, if_neg hne]
  cases announced (held chunks (k + 1)) <;> rfl

/-- What the test sees of the body, without the wrap-around. -/
theorem complete_held_iff (hcut : chunks.flatMap Chunk.bytes = r.text) {k j : Nat} {length_pos c : Int}
    (hcomplete : CompleteAt chunks (r.head.length + 4) k) (hj : k ≤ j)
    (hne : toInt32 r.head.length ≠ -1) (hc : -(2 ^ 31) ≤ c ∧ c < 2 ^ 31) :
    (Proxy.mk (held chunks j) length_pos (toInt32 r.head.length) c).complete = true ↔
      0 ≤ c ∧ c ≤ r.bodySeen (held chunks j).length := by
  have hroom := hcomplete.1.trans (length_held_le chunks hj)
  have hsize : (held chunks j).length < 2 ^ 63 :=
    lt_of_le_of_lt (hcut ▸ held_prefix chunks j).length_le r.size_lt
  have hpos := toInt32_natCast_le r.head.length
  have hcount : (Proxy.mk (held chunks j) length_pos (toInt32 r.head.length) c).Counting
      (toInt32 r.head.length) c := ⟨rfl, rfl, hne⟩
  exact hcount.complete_iff (toInt32_bounds _).1 hc (by show _ ≤ ((held chunks j).length : Int); omega)
    hsize

/-- Whether the response is forwarded, with the chunk that completes the header block given. -/
theorem forwarded_iff_at (hcut : chunks.flatMap Chunk.bytes = r.text) {k : Nat}
    (hk : k < chunks.length) (hcomplete : CompleteAt chunks (r.head.length + 4) (k + 1)) :
    Forwarded chunks r.text ↔ toInt32 r.head.length ≠ -1 ∧ ∃ c,
      announced (held chunks (k + 1)) = .ok c ∧ 0 ≤ c ∧ c ≤ r.bodySeen r.text.length ∧
        ∀ j, k + 1 ≤ j → j < chunks.length → r.bodySeen (held chunks j).length < c := by
  by_cases hne : toInt32 r.head.length = -1
  · -- the end of the header block passes for not found
    refine iff_of_false (fun hforward => ?_) fun h => h.1 hne
    have hloop := proxyLoop_searching chunks [] [] fun j _ => by
      rw [List.nil_append, findInt_held hcut, hne, ite_self]
    rw [List.append_nil] at hloop
    have hwait : proxyLoop (chunks.map some) ⟨[], -1, -1, -1⟩ = .ok .waiting := hloop
    rw [Forwarded, hwait] at hforward
    cases hforward
  rw [Forwarded, proxyLoop_header hcut hk hcomplete hne]
  cases hannounced : announced (held chunks (k + 1)) with
  -- there is no number to be read
  | error fault =>
      refine iff_of_false (fun h => by cases h) ?_
      rintro ⟨-, c, hc, -⟩
      cases hc
  | ok c =>
      have hc := atoiAt_bounds hannounced
      -- from here on the loop only counts
      have hcount : (Proxy.mk (held chunks (k + 1)) (lengthPos (held chunks (k + 1)))
          (toInt32 r.head.length) c).Counting (toInt32 r.head.length) c := ⟨rfl, rfl, hne⟩
      have hdrop : (chunks.drop (k + 1)).length = chunks.length - (k + 1) := List.length_drop
      have htext : held chunks (k + 1) ++ held (chunks.drop (k + 1)) (chunks.drop (k + 1)).length
          = r.text := by
        rw [held_drop, hdrop, Nat.add_sub_cancel' hk, held_length, hcut]
      have hgo := hcount.go_iff (chunks.drop (k + 1))
      simp only [htext] at hgo
      have htest : ∀ j, (Proxy.mk (held chunks (k + 1) ++ held (chunks.drop (k + 1)) j)
          (lengthPos (held chunks (k + 1))) (toInt32 r.head.length) c).complete = true ↔
            0 ≤ c ∧ c ≤ r.bodySeen (held chunks (k + 1 + j)).length := by
        intro j
        rw [held_drop]
        exact complete_held_iff hcut hcomplete (Nat.le_add_right _ _) hne hc
      have hend : held chunks (k + 1 + (chunks.drop (k + 1)).length) = r.text := by
        rw [← held_drop, htext]
      refine hgo.trans ?_
      constructor
      · -- the loop ends with the last chunk and not before
        intro hall
        have hlast := (htest _).mp ((hall _ le_rfl).mpr rfl)
        rw [hend] at hlast
        refine ⟨hne, c, rfl, hlast.1, hlast.2, fun j hj hlt => ?_⟩
        obtain ⟨d, rfl⟩ := Nat.exists_eq_add_of_le hj
        by_contra hseen
        have hd := (hall d (by omega)).mp ((htest d).mpr ⟨hlast.1, Int.not_lt.mp hseen⟩)
        omega
      · rintro ⟨-, c', hc', hnonneg, hle, hbefore⟩
        rw [Except.ok.injEq] at hc'
        subst hc'
        intro j hj
        rw [htest]
        constructor
        · rintro ⟨-, hseen⟩
          by_contra hnot
          exact absurd (hbefore (k + 1 + j) (Nat.le_add_right _ _) (by omega)) (Int.not_lt.mpr hseen)
        · rintro rfl
          rw [hend]
          exact ⟨hnonneg, hle⟩

/-- Digits are scanned up to the first other byte. -/
theorem scanDigits_append {digits rest : Bytes} (hdigits : ∀ d ∈ digits, isDigit d = true)
    (hrest : EndsDigits rest) : ∀ acc, scanDigits acc (digits ++ rest) = scanDigits acc digits := by
  induction digits with
  | nil =>
      intro acc
      cases rest with
      | nil => rfl
      | cons b rest => simp [scanDigits, hrest b rfl]
  | cons d digits ih =>
      intro acc
      have hd := hdigits d List.mem_cons_self
      rw [List.cons_append, scanDigits, scanDigits, if_pos hd, if_pos hd,
        ih fun c hc => hdigits c (List.mem_cons_of_mem d hc)]

/-- `atoi` of the value of a length field. -/
theorem atoi_digits {digits rest : Bytes} (hne : digits ≠ []) (hdigits : ∀ d ∈ digits, isDigit d = true)
    (hrest : EndsDigits rest) (hlt : scanDigits 0 digits < 2 ^ 31) :
    atoi (digits ++ rest) = scanDigits 0 digits := by
  have hscan := scanDigits_append hdigits hrest 0
  cases digits with
  | nil => exact absurd rfl hne
  | cons d digits =>
      have hd := hdigits d List.mem_cons_self
      obtain ⟨h45, h43⟩ := ne_sign_of_isDigit hd
      rw [List.cons_append] at hscan ⊢
      rw [atoi, strtol, List.dropWhile_cons_of_neg (by simp [isSpace_of_isDigit hd])]
      simp only [h45, h43, if_false, hscan]
      rw [toInt32_of_lt (by omega) (by omega)]
      omega

/-- The only text with one of the spellings is where the length field is looked for. -/
theorem lengthPos_of_only {text spelling : Bytes} {n : Nat} (hn : n < 2 ^ 31)
    (hspelling : spelling ∈ spellings)
    (honly : ∀ sp ∈ spellings, find sp text = if sp = spelling then some n else none) :
    lengthPos text = n := by
  have hfound : ∀ sp ∈ spellings, findInt sp text = if sp = spelling then (n : Int) else -1 := by
    intro sp hsp
    rw [findInt, honly sp hsp]
    by_cases heq : sp = spelling
    · rw [if_pos heq, if_pos heq]
      exact toInt32_of_lt (by omega) (by omega)
    · rw [if_neg heq, if_neg heq]
      rfl
  rw [lengthPos]
  -- the first spelling that is found is the only one there is
  cases hfind : (spellings.map fun sp => findInt sp text).find? (· ≠ -1) with
  | none =>
      rw [List.find?_eq_none] at hfind
      refine absurd ?_ (hfind _ (List.mem_map.mpr ⟨spelling, hspelling, rfl⟩))
      rw [hfound _ hspelling, if_pos rfl, decide_eq_true_eq]
      omega
  | some pos =>
      obtain ⟨sp, hsp, rfl⟩ := List.mem_map.mp (List.mem_of_find?_eq_some hfind)
      have hne : findInt sp text ≠ -1 :=
        of_decide_eq_true (List.find?_some (p := fun pos : Int => decide (pos ≠ -1)) hfind)
      rw [hfound sp hsp] at hne ⊢
      by_cases heq : sp = spelling
      · rw [if_pos heq]
        rfl
      · rw [if_neg heq] at hne
        exact absurd rfl hne

/-- Once the header block is complete, the number behind the spelling is too. -/
theorem held_spelling (hcut : chunks.flatMap Chunk.bytes = r.text) {k : Nat}
    (hcomplete : CompleteAt chunks (r.head.length + 4) k) :
    ∃ rest, held chunks k = r.before ++ r.spelling ++ (r.digits ++ rest) ∧ EndsDigits rest := by
  obtain ⟨more, hmore⟩ := hcut ▸ held_prefix chunks k
  have hlen := hcomplete.1
  obtain ⟨tail, htail⟩ : ∃ tail, held chunks k = r.head ++ blank ++ tail := by
    refine (List.prefix_of_prefix_length_le ⟨r.body, rfl⟩ ⟨more, hmore⟩ ?_).imp fun _ h => h.symm
    rw [List.length_append]
    exact hlen
  refine ⟨r.after ++ blank ++ tail, ?_, ?_⟩
  · rw [htail, UpstreamResponse.head]
    simp only [List.append_assoc]
  · -- the line of the field ends, with or without another one behind it
    rcases r.after_line with hnil | ⟨line, hline⟩
    · rw [hnil]
      exact endsDigits_cons (b := 13) rfl _
    · rw [← hline]
      exact endsDigits_cons (b := 13) rfl _

/-- A length field that is the only text with one of the spellings is the one that is read. -/
theorem announced_of_only (hcut : chunks.flatMap Chunk.bytes = r.text) {k : Nat}
    (hcomplete : CompleteAt chunks (r.head.length + 4) k) (hsmall : r.head.length < 2 ^ 31)
    (honly : ∀ sp ∈ spellings, find sp (held chunks k)
      = if sp = r.spelling then some r.before.length else none) :
    announced (held chunks k) = .ok r.body.length := by
  have hbefore : r.before.length ≤ r.head.length := by
    rw [UpstreamResponse.head, List.length_append, List.length_append, List.length_append]
    omega
  have hpos := lengthPos_of_only (Nat.lt_of_le_of_lt hbefore hsmall) r.spelling_mem honly
  have hspelling : r.spelling.length = 16 := by
    have hall : ∀ sp ∈ spellings, sp.length = 16 := by decide
    exact hall _ r.spelling_mem
  obtain ⟨rest, hrest, hends⟩ := held_spelling hcut hcomplete
  -- the number begins behind the 16 bytes of the name
  have hdrop : (held chunks k).drop (r.before.length + 16) = r.digits ++ rest := by
    rw [hrest, ← hspelling, ← List.length_append, List.drop_left]
  have hroom : r.before.length + 16 ≤ (held chunks k).length := by
    rw [hrest, ← hspelling, List.length_append, List.length_append]
    exact Nat.le_add_right _ _
  rw [announced, hpos, atoiAt, if_neg (by omega)]
  rw [show ((r.before.length : Int) + 16).toNat = r.before.length + 16 by omega, hdrop,
    atoi_digits r.digits_ne_nil r.digits_digit hends (by rw [r.value]; exact r.value_lt), r.value]

/-- With no other text that looks like a length field in the part that is searched, the response is
forwarded, however it is cut. -/
theorem forwarded_of_only (hcut : chunks.flatMap Chunk.bytes = r.text) (hsmall : r.head.length < 2 ^ 31)
    (honly : ∀ k, CompleteAt chunks (r.head.length + 4) k → ∀ sp ∈ spellings,
      find sp (held chunks k) = if sp = r.spelling then some r.before.length else none) :
    Forwarded chunks r.text := by
  obtain ⟨k, hk, hcomplete⟩ := exists_completeAt hcut
  have hint : toInt32 r.head.length = r.head.length := toInt32_of_lt (by omega) (by omega)
  have hseen : ∀ n, r.bodySeen n = n - r.head.length - 4 := by
    intro n
    rw [UpstreamResponse.bodySeen, hint]
  have htext : r.text.length = r.head.length + 4 + r.body.length := by
    rw [UpstreamResponse.text, List.length_append, List.length_append]
    rfl
  refine (forwarded_iff_at hcut hk hcomplete).mpr ⟨by omega, r.body.length,
    announced_of_only hcut hcomplete hsmall (honly _ hcomplete), by omega, ?_, fun j _ hj => ?_⟩
  · rw [hseen]
    omega
  · -- at least one byte of the body is in a later chunk
    have hlater : (held chunks j).length < r.text.length := by
      have hnext : held chunks (j + 1) = held chunks j ++ chunks[j].bytes := by
        rw [← held_drop, List.drop_eq_getElem_cons hj, held_cons]
        simp [held]
      have hle := length_held_le chunks (Nat.succ_le_of_lt hj)
      rw [held_length, hcut, hnext, List.length_append] at hle
      have hpos := chunks[j].pos
      omega
    rw [hseen]
    omega

end Response

/-- The proxy forwards a response exactly if the number it finds, with the chunk that completes the
header block, is not negative and not more than the length of the body, and every chunk from that
one to the last but one leaves fewer bytes of the body than the number. -/
theorem forwarded_iff (r : UpstreamResponse) {chunks : List Chunk}
    (hcut : chunks.flatMap Chunk.bytes = r.text) : Forwarded chunks r.text ↔
      toInt32 r.head.length ≠ -1 ∧ ∃ k c, CompleteAt chunks (r.head.length + 4) k ∧
        announced (held chunks k) = .ok c ∧ 0 ≤ c ∧ c ≤ r.bodySeen r.text.length ∧
        ∀ j, k ≤ j → j < chunks.length → r.bodySeen (held chunks j).length < c := by
  obtain ⟨k, hk, hcomplete⟩ := exists_completeAt hcut
  rw [forwarded_iff_at hcut hk hcomplete]
  refine and_congr_right fun _ => ⟨?_, ?_⟩
  · rintro ⟨c, hc⟩
    exact ⟨k + 1, c, hcomplete, hc⟩
  · rintro ⟨k', c, hk', hc⟩
    obtain rfl := hcomplete.unique hk'
    exact ⟨c, hc⟩

/-- A response with nothing unusual in it. -/
def greetingResponse : UpstreamResponse where
  before := ascii "HTTP/1.1 200 OK\r\n"
  spelling := ascii "Content-Length: "
  digits := ascii "5"
  after := ascii "\r\nServer: nginx"
  body := ascii "Hello"
  before_line := ⟨ascii "HTTP/1.1 200 OK", rfl⟩
  spelling_mem := by decide
  digits_ne_nil := by decide
  digits_digit := List.all_eq_true.mp rfl
  value := by decide
  value_lt := by decide
  after_line := Or.inr ⟨ascii "Server: nginx", rfl⟩
  only := by decide
  first := by decide +kernel
  size_lt := by decide

/-- It is cut inside the empty line and inside the body. -/
def greetingChunks : List Chunk :=
  [⟨ascii "HTTP/1.1 200 OK\r\nContent-Length: 5\r\nServer: nginx\r\n", by decide, by decide⟩,
    ⟨ascii "\r\nHel", by decide, by decide⟩, ⟨ascii "lo", by decide, by decide⟩]

/-- The second chunk completes the header block. -/
theorem forwarded_iff_greeting : Forwarded greetingChunks greetingResponse.text ∧
    toInt32 greetingResponse.head.length ≠ -1 ∧
      ∃ k c, CompleteAt greetingChunks (greetingResponse.head.length + 4) k ∧
        announced (held greetingChunks k) = .ok c ∧ 0 ≤ c ∧
        c ≤ greetingResponse.bodySeen greetingResponse.text.length ∧
        ∀ j, k ≤ j → j < greetingChunks.length →
          greetingResponse.bodySeen (held greetingChunks j).length < c := by
  have hcut : greetingChunks.flatMap Chunk.bytes = greetingResponse.text := rfl
  have hsecond : CompleteAt greetingChunks (greetingResponse.head.length + 4) 2 :=
    ⟨by decide, by decide⟩
  have hforward : Forwarded greetingChunks greetingResponse.text := by
    refine forwarded_of_only hcut (by decide) fun k hk sp hsp => ?_
    rw [hk.unique hsecond]
    revert sp
    decide +kernel
  exact ⟨hforward, (forwarded_iff greetingResponse hcut).mp hforward⟩

/-- A response whose body begins with another spelling of the length field. -/
def quotingResponse : UpstreamResponse where
  before := ascii "HTTP/1.1 200 OK\r\n"
  spelling := ascii "Content-Length: "
  digits := ascii "18"
  after := []
  body := ascii "Content-length: 99"
  before_line := ⟨ascii "HTTP/1.1 200 OK", rfl⟩
  spelling_mem := by decide
  digits_ne_nil := by decide
  digits_digit := List.all_eq_true.mp rfl
  value := by decide
  value_lt := by decide
  after_line := Or.inl rfl
  only := by decide
  first := by decide +kernel
  size_lt := by decide

/-- The whole response in one chunk. -/
def quotingChunk : Chunk := ⟨quotingResponse.text, by decide, by decide⟩

/-- The number is taken from the body: the proxy waits for more bytes than there are. -/
theorem not_forwarded_quoting : ¬ Forwarded [quotingChunk] quotingResponse.text := by
  intro h
  have hwait : proxyLoop [some quotingChunk] ⟨[], -1, -1, -1⟩ = .ok .waiting := rfl
  have hloop : proxyLoop [some quotingChunk] ⟨[], -1, -1, -1⟩
      = .ok (.left quotingResponse.text []) := h
  rw [hwait] at hloop
  cases hloop

end CloudLabs.Http
