import CloudLabs.Http.Response

/-!
# The length of a response

A client that reads by `Content-length` takes as many bytes behind the first empty line as the
header field says (`Framed`). `createText` adds a newline behind the body that the field does not
count, and the error page has no empty line of its own in front of the page, so that no response is
framed (`not_framedResponse`).
-/

set_option autoImplicit false

namespace CloudLabs.Http

open CloudLabs.Foundation

/-- The end of a header block: a line end and an empty line. -/
def blank : Bytes := [13, 10, 13, 10]

/-- The name of the length field as the server writes it. -/
def lengthName : Bytes := ascii "Content-length: "

/-- The value of the length field of a header block. -/
def contentLength (head : Bytes) : Option Nat :=
  (find lengthName head).map fun pos => scanDigits 0 (head.drop (pos + lengthName.length))

/-- The length field of the header block counts the bytes behind it. -/
def Framed (text : Bytes) : Prop :=
  ∃ pos, find blank text = some pos ∧
    contentLength (text.take pos) = some (text.length - (pos + blank.length))

/-- A request is answered by a framed response. -/
def FramedResponse (files : Files) (src : Bytes) : Prop :=
  ∃ text, makeRespose files src = .ok text ∧ Framed text

/-! ## A text with a length field -/

/-- The front of a header up to its length field: there is none before it, and no empty line. -/
structure Front (front : Bytes) : Prop where
  noName : ¬ lengthName <:+: front ++ lengthName.dropLast
  noBlank : ¬ blank <:+: front ++ lengthName

/-- Digits take no part in an empty line. -/
theorem blank_infix_iff {lead rest : Bytes} (n : Nat) :
    blank <:+: lead ++ (toDec n ++ rest) ↔ blank <:+: lead ∨ blank <:+: rest := by
  have hblank : ∀ c ∈ toDec n, c ∉ blank := by
    intro c hc hmem
    have hnone : ∀ c ∈ blank, (!isDigit c) = true := List.all_eq_true.mp rfl
    exact absurd (isDigit_of_mem_toDec hc) (by simpa using hnone c hmem)
  obtain ⟨d, digits, hdigits, -⟩ := toDec_eq_cons n
  rw [hdigits] at hblank ⊢
  rw [List.cons_append, infix_append_cons_iff (hblank d List.mem_cons_self),
    infix_append_of_disjoint fun c hc => hblank c (List.mem_cons_of_mem d hc)]

/-- The length field is read back. -/
theorem Front.contentLength {front : Bytes} (h : Front front) (n : Nat) {rest : Bytes}
    (hrest : EndsDigits rest) :
    contentLength (front ++ lengthName ++ (toDec n ++ rest)) = some n := by
  have hdrop : (front ++ lengthName ++ (toDec n ++ rest)).drop (front.length + lengthName.length)
      = toDec n ++ rest := by
    rw [← List.length_append, List.drop_left]
  rw [Http.contentLength, find_eq_length h.noName, Option.map_some, hdrop,
    scanDigits_toDec n rest hrest]

/-- With the empty line right behind the header fields, the length field has to count the rest. -/
theorem Front.framed_iff {front trail rest : Bytes} {n : Nat} (h : Front front)
    (hdigits : EndsDigits trail) (htrail : ¬ blank <:+: trail ++ blank.dropLast) :
    Framed (front ++ lengthName ++ (toDec n ++ (trail ++ (blank ++ rest)))) ↔ rest.length = n := by
  have hlength := h.contentLength n hdigits
  have hnoBlank := h.noBlank
  generalize front ++ lengthName = lead at hlength hnoBlank ⊢
  have htext : lead ++ (toDec n ++ (trail ++ (blank ++ rest)))
      = lead ++ (toDec n ++ trail) ++ blank ++ rest := by simp only [List.append_assoc]
  -- the first empty line is the one behind the header fields
  have hfind : find blank (lead ++ (toDec n ++ trail) ++ blank ++ rest)
      = some (lead ++ (toDec n ++ trail)).length := by
    refine find_eq_length ?_ rest
    rw [List.append_assoc, List.append_assoc, blank_infix_iff, not_or]
    exact ⟨hnoBlank, htrail⟩
  have htake : (lead ++ (toDec n ++ trail) ++ blank ++ rest).take
      (lead ++ (toDec n ++ trail)).length = lead ++ (toDec n ++ trail) := by
    rw [List.append_assoc, List.take_left]
  have hrest : (lead ++ (toDec n ++ trail) ++ blank ++ rest).length
      - ((lead ++ (toDec n ++ trail)).length + blank.length) = rest.length := by
    rw [List.length_append, List.length_append, Nat.add_sub_cancel_left]
  rw [htext, Framed, hfind]
  constructor
  · rintro ⟨pos, hpos, hcount⟩
    cases hpos
    rw [htake, hlength, hrest, Option.some.injEq] at hcount
    exact hcount.symm
  · intro hn
    exact ⟨_, rfl, by rw [htake, hlength, hrest, hn]⟩

/-- Without an empty line in front of the page, the first one is not before it, and too few bytes
are left behind it. -/
theorem Front.not_framed {front page : Bytes} {n : Nat} (h : Front front) (hpage : page.length ≤ n) :
    ¬ Framed (front ++ lengthName ++ (toDec n ++ 10 :: 13 :: 10 :: page)) := by
  have hlength := fun rest => h.contentLength n (endsDigits_cons (b := 10) rfl rest)
  have hnoBlank := h.noBlank
  generalize front ++ lengthName = lead at hlength hnoBlank ⊢
  have htext : lead ++ (toDec n ++ 10 :: 13 :: 10 :: page)
      = lead ++ (toDec n ++ [10]) ++ 13 :: 10 :: page := by simp
  have hfind : find blank (lead ++ (toDec n ++ [10]) ++ 13 :: 10 :: page)
      = (find blank (13 :: 10 :: page)).map (· + (lead ++ (toDec n ++ [10])).length) := by
    refine find_append _ ?_
    rw [List.append_assoc, List.append_assoc, blank_infix_iff, not_or]
    refine ⟨hnoBlank, fun hin => ?_⟩
    -- at most four bytes are left, and they do not begin with a carriage return
    have hmem : blank = [10] ++ (13 :: 10 :: page).take 3 := by
      refine hin.eq_of_length_le ?_
      rw [List.length_append, List.length_take]
      exact Nat.add_le_add_left (Nat.min_le_left _ _) 1
    cases hmem
  rintro ⟨pos, hpos, hcount⟩
  rw [htext, hfind, Option.map_eq_some_iff] at hpos
  obtain ⟨start, hstart, rfl⟩ := hpos
  -- an empty line in the page leaves fewer than `n` bytes behind it
  have hend := find_add_length_le hstart
  have htake : (lead ++ (toDec n ++ [10]) ++ 13 :: 10 :: page).take
      (start + (lead ++ (toDec n ++ [10])).length)
      = lead ++ (toDec n ++ 10 :: (13 :: 10 :: page).take start) := by
    rw [Nat.add_comm, List.take_length_add_append]
    simp only [List.append_assoc, List.singleton_append]
  rw [htext, htake, hlength, Option.some.injEq, List.length_append] at hcount
  rw [List.length_cons, List.length_cons] at hend hcount
  have hblank : blank.length = 4 := rfl
  omega

/-! ## The builders -/

/-- The header fields behind the length field, each with the line end in front of it. -/
def trailFields (kv : List (Bytes × Bytes)) : Bytes :=
  kv.flatMap fun e => crlf ++ (e.1 ++ ascii ": " ++ e.2)

theorem crlf_flatMap (kv : List (Bytes × Bytes)) :
    crlf ++ (kv.flatMap fun e => e.1 ++ ascii ": " ++ e.2 ++ crlf) = trailFields kv ++ crlf := by
  induction kv with
  | nil => rfl
  | cons e kv ih =>
      have hfields : trailFields (e :: kv) = crlf ++ (e.1 ++ ascii ": " ++ e.2) ++ trailFields kv := by
        rw [trailFields, List.flatMap_cons]
        rfl
      rw [List.flatMap_cons, hfields, List.append_assoc _ (trailFields kv) crlf, ← ih]
      simp only [List.append_assoc]

theorem endsDigits_trailFields (kv : List (Bytes × Bytes)) : EndsDigits (trailFields kv) := by
  cases kv with
  | nil => exact endsDigits_nil
  | cons e kv => exact endsDigits_cons (b := 13) rfl _

/-- The text of a response up to its length field. -/
def frontText (version state chat : Bytes) (kv : List (Bytes × Bytes)) : Bytes :=
  version ++ ascii " " ++ state ++ ascii " " ++ chat ++ crlf ++
    (kv.flatMap fun e => e.1 ++ ascii ": " ++ e.2 ++ crlf)

theorem createText_eq {version state chat body : Bytes} {before after : List (Bytes × Bytes)}
    {n : Nat} : createText ⟨version, state, chat,
      before ++ (ascii "Content-length", toDec n) :: after, body⟩
        = frontText version state chat before ++ lengthName
          ++ (toDec n ++ (trailFields after ++ (blank ++ (body ++ [10])))) := by
  have hname : ascii "Content-length" ++ ascii ": " = lengthName := rfl
  have hafter : ∀ rest,
      crlf ++ ((after.flatMap fun e => e.1 ++ ascii ": " ++ e.2 ++ crlf) ++ (crlf ++ rest))
      = trailFields after ++ (blank ++ rest) := by
    intro rest
    rw [← List.append_assoc, crlf_flatMap, List.append_assoc, ← List.append_assoc crlf crlf]
    rfl
  simp only [createText, frontText, List.flatMap_append, List.flatMap_cons]
  rw [hname]
  simp only [List.append_assoc] at hafter ⊢
  rw [hafter]
  rfl

/-- A text from `createText` is not framed if its length field counts the body without the newline
that is added to it. -/
theorem not_framed_createText {version state chat body : Bytes} (before after : List (Bytes × Bytes))
    {kv : List (Bytes × Bytes)} {n : Nat}
    (hkv : kv = before ++ (ascii "Content-length", toDec n) :: after)
    (hfront : Front (frontText version state chat before))
    (htrail : ¬ blank <:+: trailFields after ++ blank.dropLast) (hn : n ≤ body.length) :
    ¬ Framed (createText ⟨version, state, chat, kv, body⟩) := by
  rw [hkv, createText_eq, hfront.framed_iff (endsDigits_trailFields after) htrail, List.length_append,
    List.length_singleton]
  omega

/-- The fields that a builder puts in front of the length field. -/
theorem front_text (chat : Bytes × Bytes)
    (hchat : chat ∈ [(ascii "200", ascii "OK"), (ascii "404", ascii "Not Found")]) :
    Front (frontText (ascii "HTTP/1.1") chat.1 chat.2 [(ascii "Connection", ascii "close")]) := by
  rcases List.mem_pair.mp hchat with rfl | rfl
  · exact ⟨by decide, by decide⟩
  · exact ⟨by decide, by decide⟩

theorem not_framed_postRespose (name ID : Bytes) : ¬ Framed (postRespose name ID) :=
  not_framed_createText [(ascii "Connection", ascii "close")]
    [(ascii "Content-type", ascii "text/html"), (ascii "Server", ascii "Guo's Web Server")]
    rfl (front_text _ List.mem_cons_self) (by decide) le_rfl

theorem not_framed_getRespose (files : Files) (hc : HttpC) : ¬ Framed (getRespose files hc) := by
  unfold getRespose
  cases hfile : files (cString (fileUrl hc.URL)) with
  | none =>
      simp only [hfile]
      exact not_framed_createText [(ascii "Connection", ascii "close")]
        [(ascii "Content-type", ascii "text/html"),
          (ascii "Server", ascii "Guo's Web Server")]
        rfl (front_text _ (List.mem_cons_of_mem _ List.mem_cons_self)) (by decide) le_rfl
  | some content =>
      cases htype : contentTypes.find? fun e => (find e.1 hc.URL).isSome with
      | none =>
          simp only [hfile]
          exact not_framed_createText [(ascii "Connection", ascii "close")]
            [(ascii "Server", ascii "Guo's Web Server")]
            rfl (front_text _ List.mem_cons_self) (by decide) le_rfl
      | some e =>
          have htrail : ∀ e ∈ contentTypes, ¬ blank <:+: trailFields
              [(ascii "Content-type", e.2), (ascii "Server", ascii "Guo's Web Server")]
                ++ blank.dropLast := by decide
          simp only [hfile]
          exact not_framed_createText [(ascii "Connection", ascii "close")]
            [(ascii "Content-type", e.2), (ascii "Server", ascii "Guo's Web Server")]
            rfl (front_text _ List.mem_cons_self) (htrail e (List.mem_of_find?_eq_some htype)) le_rfl

theorem not_framed_notImplemented (hc : HttpC) : ¬ Framed (notImplemented hc) :=
  not_framed_createText []
    [(ascii "Content-type", ascii "text/html"), (ascii "Server", ascii "Guo's Web Server")]
    rfl ⟨by decide, by decide⟩ (by decide) (by simp only [List.length_append]; omega)

theorem not_framed_noFoundRespose {files : Files} {text : Bytes}
    (h : noFoundRespose files = .ok text) : ¬ Framed text := by
  unfold noFoundRespose at h
  cases hpage : files (ascii "./404.html") with
  | none => rw [hpage] at h; cases h
  | some page =>
      rw [hpage] at h
      by_cases hempty : page = []
      · simp only [if_pos hempty] at h
        cases h
      · simp only [if_neg hempty, Except.ok.injEq] at h
        have hfront : Front (ascii "HTTP/1.1 404 Not Found\r\n" ++ ascii "Server: Lab Web Server\n" ++
            ascii "Content-type: text/html\n") := ⟨by decide +kernel, by decide +kernel⟩
        have hlen : (cString page).length ≤ page.length := (List.takeWhile_sublist _).length_le
        have hnot := hfront.not_framed hlen
        -- the newline behind the number is part of no empty line
        have hend : ascii "\n\r\n" = [10, 13, 10] := by decide
        rw [← h, hend, List.append_assoc _ [10, 13, 10], List.append_assoc _ (toDec page.length)]
        exact hnot

/-! ## No response is framed -/

/-- Whatever the request and the files, the response is not framed by its length field. -/
theorem not_framedResponse (files : Files) (src : Bytes) : ¬ FramedResponse files src := by
  rintro ⟨text, htext, hframed⟩
  unfold makeRespose at htext
  cases hc : apart src with
  | error fault => rw [hc] at htext; cases htext
  | ok hc' =>
      rw [hc] at htext
      simp only [bind, Except.bind] at htext
      split at htext
      · cases htext
        exact not_framed_getRespose files hc' hframed
      · split at htext
        · split at htext
          · cases hfind : findName hc'.body with
            | error fault => rw [hfind] at htext; cases htext
            | ok found =>
                rw [hfind] at htext
                cases found with
                | none => exact not_framed_noFoundRespose htext hframed
                | some r =>
                    cases htext
                    exact not_framed_postRespose r.1 r.2 hframed
          · exact not_framed_noFoundRespose htext hframed
        · cases htext
          exact not_framed_notImplemented hc' hframed

/-- A page of two bytes is announced with its length, and sent with a newline behind it. -/
theorem not_framedResponse_get : ¬ FramedResponse (fun _ => some (ascii "hi"))
    (ascii "GET / HTTP/1.1\r\n\r\nx") := by
  rintro ⟨text, htext, hframed⟩
  have hget : makeRespose (fun _ => some (ascii "hi")) (ascii "GET / HTTP/1.1\r\n\r\nx")
      = .ok (getRespose (fun _ => some (ascii "hi"))
        ⟨ascii "GET", ascii "/", ascii "HTTP/1.1", fun _ => none, ascii "x"⟩) := rfl
  rw [hget] at htext
  cases htext
  exact not_framed_getRespose _ _ hframed

end CloudLabs.Http
