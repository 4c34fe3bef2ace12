import CloudLabs.Http.Request

/-!
# Answering a request

`makeRespose` answers `GET` with a file, `POST` to `/Post_show` with a page made from the form, and
anything else with an error page. `Files` is what the server can read: the content under a path, if
there is one.

`makeRespose_ok_iff`: a request is answered, without an index beyond the size of a vector, exactly
when it is `Answerable`.
-/

set_option autoImplicit false

namespace CloudLabs.Http

open CloudLabs.Foundation

/-- The files the server can open, by path. -/
abbrev Files := Bytes → Option Bytes

/-- `http_send`; `kv` is sorted by its keys. -/
structure HttpSend where
  version : Bytes
  state : Bytes
  chat : Bytes
  kv : List (Bytes × Bytes)
  body : Bytes

/-- `hs.kv[key] = val` in a `std::map`, which is ordered by the bytes of the keys. -/
def setHeader (key val : Bytes) : List (Bytes × Bytes) → List (Bytes × Bytes)
  | [] => [(key, val)]
  | e :: kv =>
      if key = e.1 then (key, val) :: kv
      else if key.map UInt8.toNat < e.1.map UInt8.toNat then (key, val) :: e :: kv
      else e :: setHeader key val kv

/-- `create_text`. -/
def createText (hs : HttpSend) : Bytes :=
  hs.version ++ ascii " " ++ hs.state ++ ascii " " ++ hs.chat ++ crlf ++
    (hs.kv.flatMap fun e => e.1 ++ ascii ": " ++ e.2 ++ crlf) ++ crlf ++ hs.body ++ ascii "\n"

/-- The bytes of a C string: up to the first NUL. -/
def cString (s : Bytes) : Bytes := s.takeWhile (· ≠ 0)

/-- `no_found_respose`. The page is read into a buffer on the stack and added as a C string; without
the file, or with an empty one, the program leaves the bounds of that buffer or follows a null
pointer. -/
def noFoundRespose (files : Files) : Except Fault Bytes :=
  match files (ascii "./404.html") with
  | none => .error .page
  | some page =>
      if page = [] then .error .page
      else
        .ok (ascii "HTTP/1.1 404 Not Found\r\n" ++ ascii "Server: Lab Web Server\n" ++
          ascii "Content-type: text/html\n" ++ ascii "Content-length: " ++ toDec page.length ++
          ascii "\n\r\n" ++ cString page)

/-- `post_respose`. -/
def postRespose (name ID : Bytes) : Bytes :=
  let text := ascii "<html><title>Post method</title><body bgcolor=ffffff>\n" ++
    (ascii "Your Name: " ++ name ++ ascii "\n") ++ (ascii "ID: " ++ ID ++ ascii "\n") ++
    ascii "<hr><em>Http Web server</em>\n</body></html>\n"
  let kv := setHeader (ascii "Server") (ascii "Guo's Web Server") []
  let kv := setHeader (ascii "Content-type") (ascii "text/html") kv
  let kv := setHeader (ascii "Connection") (ascii "close") kv
  let kv := setHeader (ascii "Content-length") (toDec text.length) kv
  createText ⟨ascii "HTTP/1.1", ascii "200", ascii "OK", kv, text⟩

/-- The path `get_respose` opens for a URL. -/
def fileUrl (URL : Bytes) : Bytes :=
  if URL = ascii "/" then ascii "./index.html"
  else if (find (ascii ".") URL).isNone then ascii "." ++ URL ++ ascii "/index.html"
  else ascii "." ++ URL

/-- The content types `get_respose` knows, in the order of its tests. -/
def contentTypes : List (Bytes × Bytes) :=
  [(ascii ".html", ascii "text/html"), (ascii ".jpg", ascii "image/jpeg"),
    (ascii ".css", ascii "text/css"), (ascii ".js", ascii "application/x-javascript"),
    (ascii ".woff", ascii "application/font-woff")]

/-- `get_respose`. -/
def getRespose (files : Files) (hc : HttpC) : Bytes :=
  let file_url := fileUrl hc.URL
  match files (cString file_url) with
  | some content =>
      let kv := setHeader (ascii "Server") (ascii "Guo's Web Server") []
      let kv := setHeader (ascii "Content-length") (toDec content.length) kv
      let kv := match contentTypes.find? fun e => (find e.1 hc.URL).isSome with
        | some e => setHeader (ascii "Content-type") e.2 kv
        | none => kv
      let kv := setHeader (ascii "Connection") (ascii "close") kv
      createText ⟨ascii "HTTP/1.1", ascii "200", ascii "OK", kv, content⟩
  | none =>
      -- the page names the path that was tried
      let text := ascii "<html><title>404 Not Found</title><body bgcolor=ffffff>\n" ++
        ascii " Not Found\n<p>Couldn't find this file: " ++
        (file_url ++ ascii "\n<hr><em>HTTP Web server</em>\n</body></html>")
      let kv := setHeader (ascii "Server") (ascii "Guo's Web Server") []
      let kv := setHeader (ascii "Content-length") (toDec text.length) kv
      let kv := setHeader (ascii "Connection") (ascii "close") kv
      let kv := setHeader (ascii "Content-type") (ascii "text/html") kv
      createText ⟨ascii "HTTP/1.1", ascii "404", ascii "Not Found", kv, text⟩

/-- `not_implemented`. -/
def notImplemented (hc : HttpC) : Bytes :=
  let text := ascii "<html><title>404 Not Found</title><body bgcolor=ffffff>\n" ++
    ascii " Not Implemented\n<p>Does not implement this method: " ++
    (hc.mean ++ ascii "\n<hr><em>HTTP Web server</em>\n</body></html>")
  let kv := setHeader (ascii "Server") (ascii "Guo's Web Server") []
  let kv := setHeader (ascii "Content-length") (toDec text.length) kv
  let kv := setHeader (ascii "Content-type") (ascii "text/html") kv
  createText ⟨ascii "HTTP/1.1", ascii "501", ascii "Not Implemented", kv, text ++ ascii "\n"⟩

/-- `make_respose`. -/
def makeRespose (files : Files) (src : Bytes) : Except Fault Bytes := do
  let hc ← apart src
  if hc.mean = ascii "GET" then pure (getRespose files hc)
  else if hc.mean = ascii "POST" then
    if hc.URL = ascii "/Post_show" then do
      match ← findName hc.body with
      | some r => pure (postRespose r.1 r.2)
      | none => noFoundRespose files
    else noFoundRespose files
  else pure (notImplemented hc)

/-! ## Which requests are answered -/

/-- The error page can be read. -/
def HasPage (files : Files) : Prop := ∃ page, files (ascii "./404.html") = some page ∧ page ≠ []

theorem noFoundRespose_ok_iff (files : Files) :
    (∃ text, noFoundRespose files = .ok text) ↔ HasPage files := by
  unfold noFoundRespose HasPage
  cases h : files (ascii "./404.html") with
  | none => simp
  | some page =>
      by_cases hpage : page = []
      · simp [hpage]
      · simp [hpage]

/-- What is asked of the form of a `POST`: with the two markers at least two parts that are not
empty, without them the error page. -/
def PostAnswerable (files : Files) (URL body : Bytes) : Prop :=
  (URL = ascii "/Post_show" ∧ HasMarkers body → 2 ≤ (parts [38] body).length) ∧
  (¬ (URL = ascii "/Post_show" ∧ HasMarkers body) → HasPage files)

/-- A request that is answered: its lines are short enough for an `int` and there are not too many
of them; there is one that is not empty, and the first such line has at least three words; and if
the first word is `POST`, the last line is a form that can be answered. -/
def Answerable (files : Files) (src : Bytes) : Prop :=
  Short (fields crlf src) ∧
  ∃ first rest, parts crlf src = first :: rest ∧ rest.length < 2 ^ 31 ∧
  ∃ mean URL version more, parts [32] first = mean :: URL :: version :: more ∧
    (mean = ascii "POST" → PostAnswerable files URL (bodyLine first rest))

/-- A form is answered exactly when it is answerable. -/
theorem post_ok_iff (files : Files) (URL : Bytes) {body : Bytes} (hlen : body.length < 2 ^ 31) :
    (∃ text, (if URL = ascii "/Post_show" then do
        match ← findName body with
        | some r => pure (postRespose r.1 r.2)
        | none => noFoundRespose files
      else noFoundRespose files : Except Fault Bytes) = .ok text) ↔
      PostAnswerable files URL body := by
  have heq := findName_eq hlen
  by_cases hURL : URL = ascii "/Post_show"
  · by_cases hmarkers : HasMarkers body
    · rw [if_pos hmarkers] at heq
      have hpost : PostAnswerable files URL body ↔ 2 ≤ (parts [38] body).length :=
        ⟨fun h => h.1 ⟨hURL, hmarkers⟩, fun h => ⟨fun _ => h, fun hn => absurd ⟨hURL, hmarkers⟩ hn⟩⟩
      rw [if_pos hURL, hpost]
      cases hparts : parts [38] body with
      | nil =>
          simp only [hparts] at heq
          simp [heq, bind, Except.bind]
      | cons p ps =>
          cases ps with
          | nil =>
              simp only [hparts] at heq
              simp [heq, bind, Except.bind]
          | cons q ps =>
              simp only [hparts] at heq
              obtain ⟨name, ID, heq⟩ := heq
              simp [heq, bind, Except.bind, pure, Except.pure]
    · rw [if_neg hmarkers] at heq
      have hpost : PostAnswerable files URL body ↔ HasPage files :=
        ⟨fun h => h.2 fun hn => hmarkers hn.2, fun h => ⟨fun hn => absurd hn.2 hmarkers, fun _ => h⟩⟩
      rw [if_pos hURL, hpost, ← noFoundRespose_ok_iff, heq]
      rfl
  · have hpost : PostAnswerable files URL body ↔ HasPage files :=
      ⟨fun h => h.2 fun hn => hURL hn.1, fun h => ⟨fun hn => absurd hn.1 hURL, fun _ => h⟩⟩
    rw [if_neg hURL, hpost, noFoundRespose_ok_iff]

theorem length_bodyLine_lt {src first : Bytes} {rest : List Bytes} (hshort : Short (fields crlf src))
    (hlines : parts crlf src = first :: rest) : (bodyLine first rest).length < 2 ^ 31 :=
  length_lt_of_mem_parts hshort (by rw [hlines]; exact List.getLast_mem _)

/-- A request gets a response, with every index inside its vector, exactly when it is answerable. -/
theorem makeRespose_ok_iff (files : Files) (src : Bytes) :
    (∃ text, makeRespose files src = .ok text) ↔ Answerable files src := by
  have heq := apart_eq src
  by_cases hshort : Short (fields crlf src)
  · rw [if_pos hshort] at heq
    cases hlines : parts crlf src with
    -- a text without lines is not answered
    | nil =>
        simp only [hlines] at heq
        simp [makeRespose, heq, bind, Except.bind, Answerable, hlines]
    | cons first rest =>
        simp only [hlines] at heq
        have hbody := length_bodyLine_lt hshort hlines
        -- the lines are known, and `Answerable` is about these
        have hanswer : Answerable files src ↔ rest.length < 2 ^ 31 ∧
            ∃ mean URL version more, parts [32] first = mean :: URL :: version :: more ∧
              (mean = ascii "POST" → PostAnswerable files URL (bodyLine first rest)) := by
          constructor
          · rintro ⟨-, first', rest', hlines', hlen, hwords⟩
            rw [hlines, List.cons.injEq] at hlines'
            obtain ⟨rfl, rfl⟩ := hlines'
            exact ⟨hlen, hwords⟩
          · rintro ⟨hlen, hwords⟩
            exact ⟨hshort, first, rest, hlines, hlen, hwords⟩
        rw [hanswer]
        split at heq
        · next mean URL version more hwords =>
          by_cases hlen : rest.length < 2 ^ 31
          · rw [if_pos hlen] at heq
            obtain ⟨kv, heq⟩ := heq
            have hpost := post_ok_iff files URL hbody
            have hcond : (rest.length < 2 ^ 31 ∧ ∃ mean' URL' version' more',
                parts [32] first = mean' :: URL' :: version' :: more' ∧
                  (mean' = ascii "POST" → PostAnswerable files URL' (bodyLine first rest))) ↔
                (mean = ascii "POST" → PostAnswerable files URL (bodyLine first rest)) := by
              constructor
              · rintro ⟨-, mean', URL', version', more', hwords', h⟩
                rw [hwords, List.cons.injEq, List.cons.injEq] at hwords'
                obtain ⟨rfl, rfl, -⟩ := hwords'
                exact h
              · intro h
                exact ⟨hlen, mean, URL, version, more, hwords, h⟩
            rw [hcond, makeRespose, heq]
            simp only [bind, Except.bind] at hpost ⊢
            -- `GET` and an unknown method are always answered, so it depends on `POST`
            by_cases hGET : mean = ascii "GET"
            · have hne : mean ≠ ascii "POST" := by
                rw [hGET]
                decide
              rw [if_pos hGET]
              exact iff_of_true ⟨_, rfl⟩ fun h => absurd h hne
            · rw [if_neg hGET]
              by_cases hPOST : mean = ascii "POST"
              · rw [if_pos hPOST, hpost]
                exact ⟨fun h _ => h, fun h => h hPOST⟩
              · rw [if_neg hPOST]
                exact iff_of_true ⟨_, rfl⟩ fun h => absurd h hPOST
          · -- more header lines than an `int` counts
            rw [if_neg hlen] at heq
            rw [makeRespose, heq]
            refine iff_of_false ?_ fun h => hlen h.1
            rintro ⟨text, h⟩
            cases h
        · -- fewer than three words in the first line
          next hwords =>
          rw [makeRespose, heq]
          refine iff_of_false ?_ ?_
          · rintro ⟨text, h⟩
            cases h
          · rintro ⟨-, mean, URL, version, more, h, -⟩
            exact hwords mean URL version more h
  · -- a line end beyond the range of an `int`
    rw [if_neg hshort] at heq
    rw [makeRespose, heq]
    refine iff_of_false ?_ ?_
    · rintro ⟨text, h⟩
      cases h
    · exact fun h => hshort h.1

/-- A request of one word, one without a line that is not empty, and one with a form of a single
field, whatever file is asked for. -/
theorem index_out_of_range :
    let files : Files := fun _ => some (ascii "page");
    makeRespose files (ascii "GET") = .error .index ∧
      makeRespose files (ascii "\r\n") = .error .index ∧
      makeRespose files (ascii "POST /Post_show HTTP/1.1\r\n\r\n&ID=Name=") = .error .index :=
  ⟨rfl, rfl, rfl⟩

end CloudLabs.Http
