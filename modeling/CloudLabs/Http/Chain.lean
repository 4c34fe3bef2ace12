import CloudLabs.Http.Receive

/-!
# Proxies in front of the server

A worker in proxy mode sends the request on to the upstream server and what it receives from there
back to its client. It takes the response for complete when the number behind the length field is
covered, or when the upstream server closes the connection.

The upstream server may be a proxy again. `answered_through_proxies`: with any number of them in
front of the server, the client gets a part of the response from its beginning, and all of it but at
most two newlines at the end if no connection breaks.
-/

set_option autoImplicit false

namespace CloudLabs.Http

open CloudLabs.Foundation

/-! ## A connection -/

/-- The response to what was received; nothing for nothing. -/
def response (files : Files) (recv_buf : Bytes) : Except Fault Bytes :=
  if recv_buf ≠ [] then makeRespose files recv_buf else pure []

/-- What a worker sends on a connection that it serves itself. -/
def serveFiles (files : Files) (rounds : List (Option Chunk × Bool)) : Except Fault Bytes := do
  let recv_buf ← requestLoop rounds []
  response files recv_buf

/-- A connection in proxy mode: the request for the upstream server, and what is sent back.
`connected` and `sent` say whether `Connect` and `Send` succeed; if one of them fails, nothing is
sent back. -/
def serveProxy (rounds : List (Option Chunk × Bool)) (connected sent : Bool)
    (replies : List (Option Chunk)) : Except Fault (Bytes × ProxyEnd) := do
  let recv_buf ← requestLoop rounds []
  if connected && sent then do
    let reply ← proxyLoop replies ⟨[], -1, -1, -1⟩
    pure (recv_buf, reply)
  else pure (recv_buf, .left [] replies)

/-- A request that is received as it was sent. -/
structure Delivers (rounds : List (Option Chunk × Bool)) (request : Bytes) : Prop where
  go : Continues rounds
  text : ∀ chunk ∈ rounds.filterMap Prod.fst, chunk.Text
  all : received rounds = request

/-- `Answered files broken n request reply`: the client of the server, or of the last of `n` proxies
in front of it, sends `request` and gets `reply`. A connection between two of them may fail or end
early only if `broken` says so. -/
inductive Answered (files : Files) (broken : Bool) : Nat → Bytes → Bytes → Prop
  | server {rounds : List (Option Chunk × Bool)} {request reply : Bytes}
      (hrequest : Delivers rounds request) (hreply : serveFiles files rounds = .ok reply) :
      Answered files broken 0 request reply
  | proxy {n : Nat} {rounds : List (Option Chunk × Bool)} {request recv_buf upstream reply : Bytes}
      {chunks : List Chunk} {rest : List (Option Chunk)}
      (hrequest : Delivers rounds request) (hup : Answered files broken n recv_buf upstream)
      (hcut : chunks.flatMap Chunk.bytes <+: upstream)
      (hwhole : broken = false → chunks.flatMap Chunk.bytes = upstream)
      (hreply : serveProxy rounds true true (chunks.map some ++ [none])
        = .ok (recv_buf, .left reply rest)) :
      Answered files broken (n + 1) request reply
  | noUpstream {n : Nat} {rounds : List (Option Chunk × Bool)} {request recv_buf reply : Bytes}
      {connected sent : Bool} {replies rest : List (Option Chunk)}
      (hrequest : Delivers rounds request) (hbroken : broken = true)
      (hfail : (connected && sent) = false)
      (hreply : serveProxy rounds connected sent replies = .ok (recv_buf, .left reply rest)) :
      Answered files broken (n + 1) request reply

theorem Delivers.requestLoop {rounds : List (Option Chunk × Bool)} {request : Bytes}
    (h : Delivers rounds request) : requestLoop rounds [] = .ok request := by
  rw [requestLoop_text h.go h.text, h.all, List.nil_append]

/-! ## The loop of a proxy -/

/-- Wherever a part of the text has an empty line, the number behind its length field is `n`. -/
def Reads (total : Bytes) (n : Nat) : Prop :=
  ∀ part, part <+: total → blank <:+: part → announced part = .ok n

/-- A part from the beginning of the text that goes on for `n` bytes behind the first empty line, or
is the whole text. -/
def Covers (total : Bytes) (n : Nat) (part : Bytes) : Prop :=
  part <+: total ∧ (part = total ∨ ∃ pos, find blank total = some pos ∧ pos + 4 + n ≤ part.length)

section Loop

variable {total front : Bytes} {n : Nat}

theorem Reads.of_prefix (h : Reads total n) (hfront : front <+: total) : Reads front n :=
  fun part hpart hblank => h part (hpart.trans hfront) hblank

theorem Covers.refl (total : Bytes) (n : Nat) : Covers total n total := ⟨List.prefix_rfl, .inl rfl⟩

/-- A part from the beginning of two texts ends in the first one or goes on in the second one. -/
theorem prefix_append_cases {a b : Bytes} (h : front <+: a ++ b) :
    front <+: a ∨ ∃ tail, front = a ++ tail ∧ tail <+: b := by
  rcases List.prefix_or_prefix_of_prefix h (List.prefix_append a b) with hshort | ⟨tail, htail⟩
  · exact .inl hshort
  · rw [← htail, List.prefix_append_right_inj] at h
    exact .inr ⟨tail, htail.symm, h⟩

/-- What covers a part that covers the text covers the text. -/
theorem Covers.trans (h : Covers total n front) {sent : Bytes} (hsent : Covers front n sent) :
    Covers total n sent := by
  refine ⟨hsent.1.trans h.1, ?_⟩
  rcases hsent.2 with rfl | ⟨pos, hpos, hle⟩
  · exact h.2
  · right
    -- the empty line of the part is the one of the text
    obtain ⟨more, rfl⟩ := h.1
    exact ⟨pos, find_append_left hpos, hle⟩

/-- The position of the empty line fits into an `int`. -/
theorem findInt_blank (hlen : front.length < 2 ^ 31) {pos : Nat} (hfind : find blank front = some pos) :
    findInt blank front = pos := by
  have hend := find_add_length_le hfind
  rw [findInt, hfind]
  exact toInt32_of_lt (by omega) (by omega)

/-- The proxy has received a part of the text: without an empty line it searches, with one it
counts. -/
def Proxy.Holds (total : Bytes) (n : Nat) (s : Proxy) : Prop :=
  s.send_buf <+: total ∧
    ((find blank s.send_buf = none ∧ s = .searching s.send_buf) ∨
      ∃ pos : Nat, find blank s.send_buf = some pos ∧ s.Counting pos n)

theorem Proxy.Holds.init (total : Bytes) (n : Nat) : Proxy.Holds total n ⟨[], -1, -1, -1⟩ :=
  ⟨List.nil_prefix, .inl ⟨rfl, rfl⟩⟩

/-- One call of `Recv`, and the search behind it. -/
theorem Proxy.Holds.scan {s : Proxy} (h : s.Holds total n) (hreads : Reads total n)
    (hlen : total.length < 2 ^ 31) (got : Option Chunk)
    (hmore : s.send_buf ++ got.elim [] Chunk.bytes <+: total) :
    ∃ s', (s.append got).scan = .ok s' ∧ s'.send_buf = s.send_buf ++ got.elim [] Chunk.bytes ∧
      s'.Holds total n := by
  obtain ⟨-, ⟨-, hself⟩ | ⟨pos, hpos, hcount⟩⟩ := h
  · -- it still searches
    have happend : s.append got = .searching (s.send_buf ++ got.elim [] Chunk.bytes) := by
      rw [hself]
      rfl
    generalize s.send_buf ++ got.elim [] Chunk.bytes = buf at hmore happend ⊢
    rw [happend, scan_searching]
    cases hfind : find blank buf with
    | none =>
        have hint : findInt blank buf = -1 := by rw [findInt, hfind]; rfl
        exact ⟨.searching buf, if_pos hint, rfl, hmore, .inl ⟨hfind, rfl⟩⟩
    | some pos =>
        have hint := findInt_blank (Nat.lt_of_le_of_lt hmore.length_le hlen) hfind
        have hblank : blank <:+: buf := (find_isSome_iff _ _).mp (by rw [hfind]; rfl)
        rw [hint, if_neg (by omega), hreads buf hmore hblank]
        exact ⟨⟨buf, lengthPos buf, pos, n⟩, rfl, rfl, hmore, .inr ⟨pos, hfind, rfl, rfl, by omega⟩⟩
  · -- the number is read already
    exact ⟨s.append got, (hcount.append got).scan, rfl, hmore, .inr
      ⟨pos, find_append_left hpos, hcount.append got⟩⟩

/-- The test of a proxy that counts. -/
theorem Proxy.Holds.covers {s : Proxy} (h : s.Holds total n) (hlen : total.length < 2 ^ 31)
    (hn : n < 2 ^ 31) (hcomplete : s.complete = true) : Covers total n s.send_buf := by
  obtain ⟨hpart, ⟨-, hself⟩ | ⟨pos, hpos, hcount⟩⟩ := h
  · rw [hself] at hcomplete
    cases hcomplete
  · have hend := find_add_length_le hpos
    have hle := hpart.length_le
    have hfour : blank.length = 4 := rfl
    have htest := (hcount.complete_iff (by omega) (by omega) (by omega) (by omega)).mp hcomplete
    refine ⟨hpart, .inr ⟨pos, ?_, by omega⟩⟩
    obtain ⟨more, hmore⟩ := hpart
    rw [← hmore]
    exact find_append_left hpos

/-- The loop ends at the latest with the call that finds the connection closed, by induction on the
chunks, and leaves what covers the text. -/
theorem Proxy.Holds.proxyLoop (hreads : Reads total n) (hlen : total.length < 2 ^ 31)
    (hn : n < 2 ^ 31) (chunks : List Chunk) {s : Proxy} (h : s.Holds total n)
    (hcut : s.send_buf ++ chunks.flatMap Chunk.bytes = total) :
    ∃ sent rest, proxyLoop (chunks.map some ++ [none]) s = .ok (.left sent rest) ∧
      Covers total n sent := by
  induction chunks generalizing s with
  | nil =>
      rw [List.flatMap_nil, List.append_nil] at hcut
      obtain ⟨s', hscan, hbuf, -⟩ := h.scan hreads hlen none (by simp [hcut])
      have hall : s'.send_buf = total := by rw [hbuf, ← hcut]; simp
      refine ⟨total, [], ?_, Covers.refl total n⟩
      rw [List.map_nil, List.nil_append, Http.proxyLoop, hscan]
      show (if s'.complete then _ else if Option.isSome none then _ else _) = _
      rw [hall]
      cases s'.complete <;> rfl
  | cons chunk chunks ih =>
      rw [List.flatMap_cons, ← List.append_assoc] at hcut
      obtain ⟨s', hscan, hbuf, hs'⟩ := h.scan hreads hlen (some chunk) ⟨_, hcut⟩
      rw [List.map_cons, List.cons_append, Http.proxyLoop, hscan]
      by_cases hcomplete : s'.complete = true
      · refine ⟨s'.send_buf, chunks.map some ++ [none], ?_, hs'.covers hlen hn hcomplete⟩
        show (if s'.complete then _ else _) = _
        rw [if_pos hcomplete]
        rfl
      · obtain ⟨sent, rest, hloop, hcovers⟩ := ih hs' (by rw [hbuf]; exact hcut)
        refine ⟨sent, rest, ?_, hcovers⟩
        show (if s'.complete then _ else _) = _
        rw [if_neg hcomplete]
        exact hloop

/-- A proxy leaves what covers the text it gets. -/
theorem proxyLoop_covers (hreads : Reads total n) (hlen : total.length < 2 ^ 31) (hn : n < 2 ^ 31)
    {chunks : List Chunk} (hcut : chunks.flatMap Chunk.bytes = total) :
    ∃ sent rest, proxyLoop (chunks.map some ++ [none]) ⟨[], -1, -1, -1⟩ = .ok (.left sent rest) ∧
      Covers total n sent :=
  Proxy.Holds.proxyLoop hreads hlen hn chunks (.init total n) (by rwa [List.nil_append])

end Loop

/-! ## The responses of the server -/

/-- A response whose length field counts all of it but at most two newlines at the end. -/
def Counted (text : Bytes) : Prop :=
  ∃ n < 2 ^ 31, Reads text n ∧
    ∀ sent, Covers text n sent → ∃ k ≤ 2, text = sent ++ List.replicate k 10

theorem counted_nil : Counted [] := by
  refine ⟨0, by norm_num, fun part hpart hblank => ?_, fun sent hsent => ⟨0, by omega, ?_⟩⟩
  · rw [List.prefix_nil.mp hpart] at hblank
    exact absurd (List.infix_nil.mp hblank) (List.cons_ne_nil _ _)
  · rw [List.prefix_nil.mp hsent.1]
    rfl

/-- The first spelling that is searched for is the one the server uses. -/
theorem lengthPos_lengthName {text : Bytes} {pos : Nat} (hfind : find lengthName text = some pos)
    (hpos : pos < 2 ^ 31) : lengthPos text = pos := by
  have hint : findInt lengthName text = pos := by
    rw [findInt, hfind]
    exact toInt32_of_lt (by omega) (by omega)
  have hspellings : spellings = lengthName :: spellings.tail := rfl
  rw [lengthPos, hspellings, List.map_cons, hint, List.find?_cons_of_pos (by simp)]
  rfl

/-- The length field of a server is read back in every part of the text with an empty line, since
there is none before the end of the number. -/
theorem Front.reads {front rest : Bytes} {n : Nat} (h : Front front) (hrest : EndsDigits rest)
    (hn : n < 2 ^ 31) (hlen : front.length < 2 ^ 31) :
    Reads (front ++ lengthName ++ (toDec n ++ rest)) n := by
  intro part hpart hblank
  have hname : lengthName.length = 16 := rfl
  obtain ⟨tail, rfl, htail⟩ : ∃ tail, part = front ++ lengthName ++ (toDec n ++ tail) ∧
      EndsDigits tail := by
    rw [← List.append_assoc] at hpart
    rcases prefix_append_cases hpart with hshort | ⟨tail, rfl, htail⟩
    · -- the part ends with the number at the latest
      exfalso
      have hinfix := hblank.trans hshort.isInfix
      rw [← List.append_nil (toDec n), blank_infix_iff] at hinfix
      rcases hinfix with hlead | hnil
      · exact h.noBlank hlead
      · exact absurd (List.infix_nil.mp hnil) (List.cons_ne_nil _ _)
    · refine ⟨tail, by rw [List.append_assoc], ?_⟩
      cases tail with
      | nil => exact endsDigits_nil
      | cons b tail =>
          obtain ⟨more, rfl⟩ := htail
          exact fun c hc => hrest c hc
  have hpos := lengthPos_lengthName (find_eq_length h.noName (toDec n ++ tail)) hlen
  have hdrop : (front ++ lengthName ++ (toDec n ++ tail)).drop (front.length + 16)
      = toDec n ++ tail := by
    rw [← hname, ← List.length_append, List.drop_left]
  have hroom : front.length + 16 ≤ (front ++ lengthName ++ (toDec n ++ tail)).length := by
    rw [List.length_append, List.length_append, hname]
    exact Nat.le_add_right _ _
  rw [announced, hpos, atoiAt, if_neg (by omega)]
  rw [show ((front.length : Int) + 16).toNat = front.length + 16 by omega, hdrop,
    atoi_toDec hn tail htail]

/-- What covers a page with newlines behind it leaves out newlines only. -/
theorem Covers.newlines {lead page sent : Bytes} {m : Nat}
    (hfind : find blank (lead ++ blank ++ (page ++ List.replicate m 10)) = some lead.length)
    (h : Covers (lead ++ blank ++ (page ++ List.replicate m 10)) page.length sent) :
    ∃ k ≤ m, lead ++ blank ++ (page ++ List.replicate m 10) = sent ++ List.replicate k 10 := by
  obtain ⟨hpart, rfl | ⟨pos, hpos, hle⟩⟩ := h
  · exact ⟨0, Nat.zero_le m, (List.append_nil _).symm⟩
  · rw [hfind, Option.some.injEq] at hpos
    subst hpos
    -- the part goes on behind the page
    obtain ⟨more, hsent, hmore⟩ : ∃ more, sent = lead ++ blank ++ page ++ more ∧
        more <+: List.replicate m 10 := by
      rw [← List.append_assoc] at hpart
      rcases prefix_append_cases hpart with hshort | hlong
      · have heq := hshort.eq_of_length_le (by
          rw [List.length_append, List.length_append]
          exact hle)
        exact ⟨[], by rw [heq, List.append_nil], List.nil_prefix⟩
      · exact hlong
    rw [List.prefix_replicate_iff] at hmore
    refine ⟨m - more.length, Nat.sub_le _ _, ?_⟩
    have hjoin : List.replicate m (10 : UInt8) = more ++ List.replicate (m - more.length) 10 := by
      rw [hmore.2, List.length_replicate, List.replicate_append_replicate, Nat.add_sub_cancel' hmore.1]
    rw [hsent, hjoin]
    simp only [List.append_assoc]

/-- A text from `createText` counts its page, and then there are only newlines. -/
theorem counted_createText {version state chat page body : Bytes}
    (before after : List (Bytes × Bytes)) {kv : List (Bytes × Bytes)} {m : Nat}
    (hkv : kv = before ++ (ascii "Content-length", toDec page.length) :: after)
    (hbody : body = page ++ List.replicate m 10) (hm : m ≤ 1)
    (hfront : Front (frontText version state chat before))
    (htrail : ¬ blank <:+: trailFields after ++ blank.dropLast)
    (hlen : (createText ⟨version, state, chat, kv, body⟩).length < 2 ^ 31) :
    Counted (createText ⟨version, state, chat, kv, body⟩) := by
  rw [hkv, hbody, createText_eq] at hlen ⊢
  generalize frontText version state chat before = front at hfront hlen ⊢
  have hlong := hlen
  simp only [List.length_append] at hlong
  have hends : EndsDigits (trailFields after ++
      (blank ++ (page ++ List.replicate m 10 ++ [10]))) := by
    cases after with
    | nil => exact endsDigits_cons (b := 13) rfl _
    | cons e after => exact endsDigits_cons (b := 13) rfl _
  refine ⟨page.length, by omega, hfront.reads hends (by omega) (by omega), fun sent hsent => ?_⟩
  have hnoBlank := hfront.noBlank
  generalize front ++ lengthName = lead at hsent hnoBlank ⊢
  -- the first empty line is the one behind the header fields
  have hearlier : ¬ blank <:+: lead ++ (toDec page.length ++ trailFields after) ++ blank.dropLast := by
    rw [List.append_assoc, List.append_assoc, blank_infix_iff, not_or]
    exact ⟨hnoBlank, htrail⟩
  have hfind := find_eq_length hearlier (page ++ List.replicate (m + 1) 10)
  have htext : lead ++ (toDec page.length ++ (trailFields after ++ (blank ++
      (page ++ List.replicate m 10 ++ [10]))))
      = lead ++ (toDec page.length ++ trailFields after) ++ blank
        ++ (page ++ List.replicate (m + 1) 10) := by
    rw [List.replicate_succ']
    simp only [List.append_assoc]
  rw [htext] at hsent ⊢
  obtain ⟨k, hk, heq⟩ := hsent.newlines hfind
  exact ⟨k, by omega, heq⟩

theorem counted_postRespose {name ID : Bytes} (hlen : (postRespose name ID).length < 2 ^ 31) :
    Counted (postRespose name ID) :=
  counted_createText [(ascii "Connection", ascii "close")]
    [(ascii "Content-type", ascii "text/html"), (ascii "Server", ascii "Guo's Web Server")]
    rfl (List.append_nil _).symm (Nat.zero_le 1) (front_text _ List.mem_cons_self) (by decide) hlen

theorem counted_getRespose {files : Files} {hc : HttpC}
    (hlen : (getRespose files hc).length < 2 ^ 31) : Counted (getRespose files hc) := by
  unfold getRespose at hlen ⊢
  cases hfile : files (cString (fileUrl hc.URL)) with
  | none =>
      simp only [hfile] at hlen ⊢
      exact counted_createText [(ascii "Connection", ascii "close")]
        [(ascii "Content-type", ascii "text/html"),
          (ascii "Server", ascii "Guo's Web Server")]
        rfl (List.append_nil _).symm (Nat.zero_le 1)
        (front_text _ (List.mem_cons_of_mem _ List.mem_cons_self)) (by decide) hlen
  | some content =>
      cases htype : contentTypes.find? fun e => (find e.1 hc.URL).isSome with
      | none =>
          simp only [hfile, htype] at hlen ⊢
          exact counted_createText [(ascii "Connection", ascii "close")]
            [(ascii "Server", ascii "Guo's Web Server")]
            rfl (List.append_nil _).symm (Nat.zero_le 1) (front_text _ List.mem_cons_self)
            (by decide) hlen
      | some e =>
          have htrail : ∀ e ∈ contentTypes, ¬ blank <:+: trailFields
              [(ascii "Content-type", e.2), (ascii "Server", ascii "Guo's Web Server")]
                ++ blank.dropLast := by decide
          simp only [hfile, htype] at hlen ⊢
          exact counted_createText [(ascii "Connection", ascii "close")]
            [(ascii "Content-type", e.2), (ascii "Server", ascii "Guo's Web Server")]
            rfl (List.append_nil _).symm (Nat.zero_le 1) (front_text _ List.mem_cons_self)
            (htrail e (List.mem_of_find?_eq_some htype)) hlen

theorem counted_notImplemented {hc : HttpC} (hlen : (notImplemented hc).length < 2 ^ 31) :
    Counted (notImplemented hc) :=
  counted_createText []
    [(ascii "Content-type", ascii "text/html"), (ascii "Server", ascii "Guo's Web Server")]
    rfl rfl le_rfl ⟨by decide, by decide⟩ (by decide) hlen

/-- Without an empty line in front of the page, the number behind the length field is never
covered. -/
theorem Front.counted {front page : Bytes} {n : Nat} (h : Front front) (hpage : page.length ≤ n)
    (hn : n < 2 ^ 31) (hlen : front.length < 2 ^ 31) :
    Counted (front ++ lengthName ++ (toDec n ++ 10 :: 13 :: 10 :: page)) := by
  refine ⟨n, hn, h.reads (endsDigits_cons (b := 10) rfl _) hn hlen,
    fun sent hsent => ⟨0, Nat.zero_le 2, ?_⟩⟩
  have hnoBlank := h.noBlank
  generalize front ++ lengthName = lead at hsent hnoBlank ⊢
  obtain ⟨hpart, rfl | ⟨pos, hpos, hle⟩⟩ := hsent
  · exact (List.append_nil _).symm
  · -- an empty line with so many bytes behind it would end in front of the page
    exfalso
    have htext : lead ++ (toDec n ++ 10 :: 13 :: 10 :: page)
        = lead ++ (toDec n ++ [10, 13, 10]) ++ page := by simp
    have hshort := hpart.length_le
    rw [htext] at hpos hshort
    rw [List.length_append] at hshort
    have hfound : blank <:+: (lead ++ (toDec n ++ [10, 13, 10]) ++ page).take (pos + 4) := by
      rw [← find_isSome_iff, find_take hpos]
      exact congrArg Option.isSome (if_pos le_rfl)
    rw [List.take_append_of_le_length (by omega)] at hfound
    have hinfix := hfound.trans (List.take_prefix _ _).isInfix
    rw [blank_infix_iff] at hinfix
    exact hinfix.elim hnoBlank (by decide)

theorem counted_noFoundRespose {files : Files} {text : Bytes} (h : noFoundRespose files = .ok text)
    (hsmall : ∀ path page, files path = some page → page.length < 2 ^ 31) : Counted text := by
  unfold noFoundRespose at h
  cases hpage : files (ascii "./404.html") with
  | none => rw [hpage] at h; cases h
  | some page =>
      rw [hpage] at h
      by_cases hempty : page = []
      · simp only [if_pos hempty] at h
        cases h
      · simp only [if_neg hempty, Except.ok.injEq] at h
        have hfront : Front (ascii "HTTP/1.1 404 Not Found\r\n" ++ ascii "Server: Lab Web Server\n" ++
            ascii "Content-type: text/html\n") := ⟨by decide +kernel, by decide +kernel⟩
        have hlen : (cString page).length ≤ page.length := (List.takeWhile_sublist _).length_le
        have hcounted := hfront.counted hlen (hsmall _ page hpage) (by decide +kernel)
        have hend : ascii "\n\r\n" = [10, 13, 10] := by decide
        rw [← h, hend, List.append_assoc _ [10, 13, 10], List.append_assoc _ (toDec page.length)]
        exact hcounted

/-- Every response of the server is counted, but for newlines. -/
theorem counted_response {files : Files} {src text : Bytes} (h : response files src = .ok text)
    (hsmall : ∀ path page, files path = some page → page.length < 2 ^ 31)
    (hlen : text.length < 2 ^ 31) : Counted text := by
  unfold response at h
  split at h
  · unfold makeRespose at h
    cases hc : apart src with
    | error fault => rw [hc] at h; cases h
    | ok hc' =>
        rw [hc] at h
        simp only [bind, Except.bind] at h
        split at h
        · cases h
          exact counted_getRespose hlen
        · split at h
          · split at h
            · cases hfind : findName hc'.body with
              | error fault => rw [hfind] at h; cases h
              | ok found =>
                  rw [hfind] at h
                  cases found with
                  | none => exact counted_noFoundRespose h hsmall
                  | some r =>
                      cases h
                      exact counted_postRespose hlen
            · exact counted_noFoundRespose h hsmall
          · cases h
            exact counted_notImplemented hlen
  · cases h
    exact counted_nil

/-! ## Any number of proxies -/

section Chain

variable {files : Files} {broken : Bool} {request text : Bytes}

/-- A proxy sends on the request that it receives. -/
theorem serveProxy_request {rounds : List (Option Chunk × Bool)} (hrequest : Delivers rounds request)
    {connected sent : Bool} {replies : List (Option Chunk)} {recv_buf : Bytes} {reply : ProxyEnd}
    (h : serveProxy rounds connected sent replies = .ok (recv_buf, reply)) : recv_buf = request := by
  rw [serveProxy, hrequest.requestLoop] at h
  simp only [bind, Except.bind] at h
  split at h
  · cases hloop : proxyLoop replies ⟨[], -1, -1, -1⟩ with
    | error fault => rw [hloop] at h; cases h
    | ok reply' =>
        rw [hloop] at h
        cases h
        rfl
  · cases h
    rfl

/-- What a proxy sends back covers what it receives. -/
theorem serveProxy_covers {n : Nat} {upstream : Bytes} (hreads : Reads upstream n)
    (hlen : upstream.length < 2 ^ 31) (hn : n < 2 ^ 31) {rounds : List (Option Chunk × Bool)}
    (hrequest : Delivers rounds request) {chunks : List Chunk}
    (hcut : chunks.flatMap Chunk.bytes = upstream) :
    ∃ sent rest, serveProxy rounds true true (chunks.map some ++ [none])
      = .ok (request, .left sent rest) ∧ Covers upstream n sent := by
  obtain ⟨sent, rest, hloop, hcovers⟩ := proxyLoop_covers hreads hlen hn hcut
  refine ⟨sent, rest, ?_, hcovers⟩
  rw [serveProxy, hrequest.requestLoop]
  show (proxyLoop (chunks.map some ++ [none]) ⟨[], -1, -1, -1⟩ >>= _) = _
  rw [hloop]
  rfl

/-- By induction on the number of proxies: the client gets a part of the response from its
beginning, and one that covers it if no connection breaks. -/
theorem Answered.covers {n k : Nat} {reply : Bytes} (hreads : Reads text n)
    (hlen : text.length < 2 ^ 31) (hn : n < 2 ^ 31) (h : Answered files broken k request reply)
    (htext : response files request = .ok text) :
    reply <+: text ∧ (broken = false → Covers text n reply) := by
  induction h with
  | server hrequest hreply =>
      rw [serveFiles, hrequest.requestLoop] at hreply
      have heq : Except.ok (ε := Fault) text = .ok _ := htext.symm.trans hreply
      cases heq
      exact ⟨List.prefix_rfl, fun _ => Covers.refl text n⟩
  | proxy hrequest hup hcut hwhole hreply ih =>
      obtain ⟨hpart, hcovered⟩ := ih (by rw [serveProxy_request hrequest hreply]; exact htext)
      have hfront := hcut.trans hpart
      obtain ⟨sent, rest, hsent, hcovers⟩ := serveProxy_covers (hreads.of_prefix hfront)
        (Nat.lt_of_le_of_lt hfront.length_le hlen) hn hrequest rfl
      have heq : Except.ok (ε := Fault) (_, ProxyEnd.left _ _) = .ok (_, ProxyEnd.left _ _) :=
        hreply.symm.trans hsent
      cases heq
      refine ⟨hcovers.1.trans hfront, fun hok => ?_⟩
      rw [hwhole hok] at hcovers
      exact (hcovered hok).trans hcovers
  | noUpstream hrequest hbroken hfail hreply =>
      rw [serveProxy, hrequest.requestLoop] at hreply
      simp only [bind, Except.bind, hfail] at hreply
      cases hreply
      exact ⟨List.nil_prefix, fun hok => absurd (hok.symm.trans hbroken) Bool.false_ne_true⟩

/-- With any number of proxies in front of the server, for files and a response below 2 GiB: the
client gets a part of the response from its beginning; it gets all of it but at most two newlines at
the end if no connection breaks; and each proxy comes to an end with the response it gets, however
this is cut and wherever it breaks off. -/
theorem answered_through_proxies (hsmall : ∀ path page, files path = some page → page.length < 2 ^ 31)
    (htext : response files request = .ok text) (hlen : text.length < 2 ^ 31) :
    (∀ k reply, Answered files broken k request reply → reply <+: text) ∧
    (∀ k reply, Answered files false k request reply →
      ∃ m ≤ 2, text = reply ++ List.replicate m 10) ∧
    (∀ k upstream, Answered files broken k request upstream →
      ∀ rounds, Delivers rounds request → ∀ chunks : List Chunk,
        chunks.flatMap Chunk.bytes <+: upstream → ∃ reply rest,
          serveProxy rounds true true (chunks.map some ++ [none])
            = .ok (request, .left reply rest)) := by
  obtain ⟨n, hn, hreads, hnewlines⟩ := counted_response htext hsmall hlen
  refine ⟨?_, ?_, ?_⟩
  · intro k reply h
    exact (h.covers hreads hlen hn htext).1
  · intro k reply h
    exact hnewlines reply ((h.covers hreads hlen hn htext).2 rfl)
  · intro k upstream h rounds hrequest chunks hcut
    have hfront := hcut.trans (h.covers hreads hlen hn htext).1
    obtain ⟨reply, rest, hreply, -⟩ := serveProxy_covers (hreads.of_prefix hfront)
      (Nat.lt_of_le_of_lt hfront.length_le hlen) hn hrequest rfl
    exact ⟨reply, rest, hreply⟩

/-- A page of two bytes under every path, and the response with it. -/
def shortPage : Files := fun _ => some (ascii "hi")

def shortText : Bytes :=
  ascii ("HTTP/1.1 200 OK\r\nConnection: close\r\nContent-length: 2\r\n" ++
    "Server: Guo's Web Server\r\n\r\nhi\n")

def shortRequest : Bytes := ascii "GET / HTTP/1.1\r\n\r\n"

theorem delivers_shortRequest :
    Delivers [(some ⟨shortRequest, by decide, by decide⟩, false)] shortRequest where
  go := by
    intro round hround
    cases hround
  text := by
    intro chunk hchunk
    rw [List.mem_singleton.mp hchunk]
    exact ⟨by decide, by decide⟩
  all := by decide

set_option maxRecDepth 2000 in
/-- Two proxies; the newline at the end comes too late for the first one. -/
theorem answered_shortText : Answered shortPage false 2 shortRequest shortText.dropLast := by
  have hserver : Answered shortPage false 0 shortRequest shortText :=
    .server delivers_shortRequest rfl
  have hfirst : Answered shortPage false 1 shortRequest shortText.dropLast :=
    @Answered.proxy _ _ _ _ _ _ _ _
      [⟨shortText.dropLast, by decide, by decide⟩, ⟨[10], by decide, by decide⟩] _
      delivers_shortRequest hserver ⟨[], by decide +kernel⟩ (fun _ => by decide +kernel) rfl
  exact @Answered.proxy _ _ _ _ _ _ _ _ [⟨shortText.dropLast, by decide, by decide⟩] _
    delivers_shortRequest hfirst ⟨[], by decide +kernel⟩ (fun _ => by decide +kernel) rfl

theorem answered_through_proxies_two :
    ∃ m ≤ 2, shortText = shortText.dropLast ++ List.replicate m 10 := by
  have hsmall : ∀ path page, shortPage path = some page → page.length < 2 ^ 31 := by
    intro path page hpage
    cases hpage
    decide
  have htext : response shortPage shortRequest = .ok shortText := rfl
  exact (@answered_through_proxies _ false _ _ hsmall htext (by decide)).2.1 2
    shortText.dropLast answered_shortText

end Chain

end CloudLabs.Http
