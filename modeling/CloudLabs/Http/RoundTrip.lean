import CloudLabs.Http.Request

/-!
# What the parsers give back

`apart` and `findName` on texts put together from their parts: a request from its line, header
fields and body (`Request.text`), and a form from its fields (`formText`).

`restored_iff` says of which requests `apart` gives back all parts, and `formFound_iff` on which
forms `findName` finds the fields it is asked for.
-/

set_option autoImplicit false

namespace CloudLabs.Http

open CloudLabs.Foundation

/-! ## Parts between single bytes -/

theorem intercalate_cons_cons (c : UInt8) (p q : Bytes) (ps : List Bytes) :
    ([c] : Bytes).intercalate (p :: q :: ps) = p ++ [c] ++ ([c] : Bytes).intercalate (q :: ps) := by
  simp [List.intercalate]

/-- Parts that are not empty come back from a text that is put together from them: by induction on
the parts. -/
theorem parts_intercalate {c : UInt8} {ps : List Bytes} (h : ∀ p ∈ ps, p ≠ [] ∧ c ∉ p) :
    parts [c] (([c] : Bytes).intercalate ps) = ps := by
  have hcut : ∀ {p : Bytes}, c ∉ p → ¬ ([c] : Bytes) <:+: p ++ ([c] : Bytes).dropLast := by
    intro p hp hin
    have hmem := hin.subset (List.mem_singleton_self c)
    rw [List.dropLast_singleton, List.append_nil] at hmem
    exact hp hmem
  have hdelim : ([c] : Bytes) ≠ [] := List.cons_ne_nil c []
  induction ps with
  | nil =>
      have hnone : fields [c] [] = [[]] := fields_self hdelim (hcut List.not_mem_nil)
      rw [show ([c] : Bytes).intercalate [] = [] from rfl, parts, hnone]
      rfl
  | cons p ps ih =>
      obtain ⟨hne, hp⟩ := h p List.mem_cons_self
      have hkept : ∀ rest : List Bytes, (p :: rest).filter (· ≠ []) = p :: rest.filter (· ≠ []) :=
        fun rest => List.filter_cons_of_pos (by simpa using hne)
      cases ps with
      | nil =>
          rw [show ([c] : Bytes).intercalate [p] = p by simp [List.intercalate], parts,
            fields_self hdelim (hcut hp), hkept]
          rfl
      | cons q ps =>
          rw [intercalate_cons_cons, parts, fields_append hdelim (hcut hp), hkept]
          exact congrArg (p :: ·) (ih fun r hr => h r (List.mem_cons_of_mem p hr))

/-! ## Requests -/

/-- The parts of a request. -/
structure Request where
  mean : Bytes
  URL : Bytes
  version : Bytes
  headers : List (Bytes × Bytes)
  body : Bytes

/-- `Key: Value`. -/
def headerLine (h : Bytes × Bytes) : Bytes := h.1 ++ 58 :: 32 :: h.2

/-- The request line. -/
def Request.line (r : Request) : Bytes := r.mean ++ 32 :: (r.URL ++ 32 :: r.version)

/-- The text of a request. -/
def Request.text (r : Request) : Bytes :=
  r.line ++ crlf ++ ((r.headers.flatMap fun h => headerLine h ++ crlf) ++ (crlf ++ r.body))

/-- A text that is not empty and has no white space. -/
structure Word (w : Bytes) : Prop where
  ne_nil : w ≠ []
  noSpace : ∀ b ∈ w, isSpace b = false

theorem word_iff {w : Bytes} : Word w ↔ w ≠ [] ∧ (w.all fun b => !isSpace b) = true := by
  rw [List.all_eq_true]
  constructor
  · exact fun h => ⟨h.ne_nil, fun b hb => by rw [h.noSpace b hb]; rfl⟩
  · exact fun h => ⟨h.1, fun b hb => by simpa using h.2 b hb⟩

instance (w : Bytes) : Decidable (Word w) := decidable_of_iff _ word_iff.symm

/-- The parts can be told from each other in the text. -/
structure Request.WellFormed (r : Request) : Prop where
  words : ∀ w ∈ [r.mean, r.URL, r.version], w ≠ [] ∧ 32 ∉ w ∧ ¬ crlf <:+: w
  headers : ∀ h ∈ r.headers, Word h.1 ∧ Word h.2
  distinct : (r.headers.map Prod.fst).Nodup
  body_ne_nil : r.body ≠ []
  body_noCrlf : ¬ crlf <:+: r.body

/-- The map of the header fields. Its keys are the first words of the lines, with their colons. -/
def headerMap (headers : List (Bytes × Bytes)) : Bytes → Option Bytes :=
  fun key => (headers.find? fun h => h.1 ++ [58] = key).map Prod.snd

/-- `apart` gives back the parts of the request. -/
def Request.Restored (r : Request) : Prop :=
  apart r.text = .ok ⟨r.mean, r.URL, r.version, headerMap r.headers, r.body⟩

/-! ### The words of a header line -/

theorem nextWord_word {w : Bytes} (hw : Word w) (rest : Bytes)
    (hrest : ∀ b ∈ rest.head?, isSpace b = true) :
    nextWord (w ++ rest) = (w, rest) := by
  have hstart : (w ++ rest).dropWhile isSpace = w ++ rest := by
    cases w with
    | nil => exact absurd rfl hw.ne_nil
    | cons b w =>
        have hb := hw.noSpace b List.mem_cons_self
        rw [List.cons_append, List.dropWhile_cons_of_neg (by rw [hb]; exact Bool.false_ne_true)]
  have hall : ∀ b ∈ w, (!isSpace b) = true := fun b hb => by rw [hw.noSpace b hb]; rfl
  rw [nextWord, hstart, List.takeWhile_append_of_pos hall, List.dropWhile_append_of_pos hall]
  cases rest with
  | nil => simp
  | cons b rest => simp [hrest b rfl]

theorem nextWord_space (s : Bytes) : nextWord (32 :: s) = nextWord s := rfl

/-- The key of a header line is its first word, the value is its second one. -/
theorem addHeader_headerLine {h : Bytes × Bytes} (hkey : Word h.1) (hval : Word h.2)
    (kv : Bytes → Option Bytes) :
    addHeader kv (headerLine h) = Function.update kv (h.1 ++ [58]) (some h.2) := by
  have hcolon : Word (h.1 ++ [58]) := by
    refine ⟨by simp, fun b hb => ?_⟩
    rcases List.mem_append.mp hb with hb | hb
    · exact hkey.noSpace b hb
    · rw [List.mem_singleton.mp hb]
      rfl
  have hline : headerLine h = (h.1 ++ [58]) ++ 32 :: h.2 := by simp [headerLine]
  have hfirst : nextWord (headerLine h) = (h.1 ++ [58], 32 :: h.2) := by
    rw [hline]
    exact nextWord_word hcolon _ (by simp [isSpace])
  have hsecond : nextWord (32 :: h.2) = (h.2, []) := by
    rw [nextWord_space]
    simpa using nextWord_word hval [] (by simp)
  rw [addHeader, hfirst, hsecond]

/-- Header lines with distinct keys, put into a map one after the other. -/
theorem foldl_addHeader {headers : List (Bytes × Bytes)}
    (hwords : ∀ h ∈ headers, Word h.1 ∧ Word h.2) (hdistinct : (headers.map Prod.fst).Nodup) :
    (headers.map headerLine).foldl addHeader (fun _ => none) = headerMap headers := by
  have hgen : ∀ kv : Bytes → Option Bytes, (headers.map headerLine).foldl addHeader kv
      = fun key => (headerMap headers key).or (kv key) := by
    induction headers with
    | nil => intro kv; rfl
    | cons h headers ih =>
        intro kv
        obtain ⟨hkey, hval⟩ := hwords h List.mem_cons_self
        rw [List.map_cons, List.nodup_cons] at hdistinct
        rw [List.map_cons, List.foldl_cons, addHeader_headerLine hkey hval,
          ih (fun g hg => hwords g (List.mem_cons_of_mem h hg)) hdistinct.2]
        funext key
        by_cases hk : h.1 ++ [58] = key
        · -- the key does not come again behind its own line
          have hnone : headerMap headers key = none := by
            rw [headerMap, Option.map_eq_none_iff, List.find?_eq_none]
            intro g hg heq
            have hsame : g.1 = h.1 := by
              rw [← hk] at heq
              exact List.append_cancel_right (of_decide_eq_true heq)
            exact hdistinct.1 (List.mem_map.mpr ⟨g, hg, hsame⟩)
          rw [hnone]
          simp [headerMap, hk]
        · have hother : headerMap (h :: headers) key = headerMap headers key := by
            simp [headerMap, hk]
          rw [hother, Function.update_of_ne (Ne.symm hk)]
  rw [hgen]
  funext key
  exact Option.or_none

/-! ### The lines of a request -/

theorem crlf_ne_nil : crlf ≠ [] := by decide

/-- A text without a line end has none if a carriage return is added to it. -/
theorem noCrlf_append {a : Bytes} (h : ¬ crlf <:+: a) : ¬ crlf <:+: a ++ crlf.dropLast := by
  show ¬ crlf <:+: a ++ [13]
  rw [List.infix_concat_iff, not_or]
  refine ⟨?_, h⟩
  rintro ⟨s, hs⟩
  have hlast := congrArg List.getLast? hs
  rw [List.getLast?_append, List.getLast?_append] at hlast
  cases hlast

theorem Word.noCrlf {w : Bytes} (h : Word w) : ¬ crlf <:+: w := by
  intro hw
  have hmem : (13 : UInt8) ∈ w := hw.subset (by decide)
  exact absurd (h.noSpace 13 hmem) (by decide)

theorem noCrlf_headerLine {h : Bytes × Bytes} (hkey : Word h.1) (hval : Word h.2) :
    ¬ crlf <:+: headerLine h := by
  have hvalue : ¬ crlf <:+: [] ++ 32 :: h.2 := by
    rw [infix_append_cons_iff (by decide), not_or]
    exact ⟨by decide, hval.noCrlf⟩
  rw [headerLine, infix_append_cons_iff (by decide), not_or]
  exact ⟨hkey.noCrlf, hvalue⟩

theorem Request.WellFormed.noCrlf_line {r : Request} (h : r.WellFormed) : ¬ crlf <:+: r.line := by
  rw [Request.line, infix_append_cons_iff (by decide), not_or, infix_append_cons_iff (by decide),
    not_or]
  exact ⟨(h.words r.mean (by simp)).2.2, (h.words r.URL (by simp)).2.2,
    (h.words r.version (by simp)).2.2⟩

theorem fields_headers {headers : List (Bytes × Bytes)} (rest : Bytes)
    (hwords : ∀ h ∈ headers, Word h.1 ∧ Word h.2) :
    fields crlf ((headers.flatMap fun h => headerLine h ++ crlf) ++ rest)
      = headers.map headerLine ++ fields crlf rest := by
  induction headers with
  | nil => rfl
  | cons h headers ih =>
      obtain ⟨hkey, hval⟩ := hwords h List.mem_cons_self
      rw [List.flatMap_cons, List.append_assoc,
        fields_append crlf_ne_nil (noCrlf_append (noCrlf_headerLine hkey hval)),
        ih fun g hg => hwords g (List.mem_cons_of_mem h hg)]
      rfl

/-- The lines of a request; the one in front of the body is empty. -/
theorem fields_text {r : Request} (h : r.WellFormed) :
    fields crlf r.text = r.line :: (r.headers.map headerLine ++ [[], r.body]) := by
  have hempty := fields_append (a := []) crlf_ne_nil (by decide) r.body
  rw [List.nil_append] at hempty
  rw [Request.text, fields_append crlf_ne_nil (noCrlf_append h.noCrlf_line),
    fields_headers _ h.headers, hempty, fields_self crlf_ne_nil (noCrlf_append h.body_noCrlf)]

theorem parts_text {r : Request} (h : r.WellFormed) :
    parts crlf r.text = r.line :: (r.headers.map headerLine ++ [r.body]) := by
  have hheaders : (r.headers.map headerLine).filter (· ≠ []) = r.headers.map headerLine := by
    refine List.filter_eq_self.mpr fun line hline => ?_
    obtain ⟨g, -, rfl⟩ := List.mem_map.mp hline
    simp [headerLine]
  rw [parts, fields_text h, List.filter_cons_of_pos (by simp [Request.line]), List.filter_append,
    hheaders]
  simp [h.body_ne_nil]

theorem parts_line {r : Request} (h : r.WellFormed) :
    parts [32] r.line = [r.mean, r.URL, r.version] := by
  have hline : r.line = ([32] : Bytes).intercalate [r.mean, r.URL, r.version] := by
    simp [Request.line, List.intercalate]
  rw [hline]
  exact parts_intercalate fun w hw => ⟨(h.words w hw).1, (h.words w hw).2.1⟩

/-! ### What `apart` gives back -/

/-- The loop over the header lines, in the middle of the table. -/
theorem addHeaders_middle (after : List Bytes) : ∀ (middle before : List Bytes)
    (kv : Bytes → Option Bytes), addHeaders (before ++ (middle ++ after))
      ((List.range' before.length middle.length).map Int.ofNat) kv = .ok (middle.foldl addHeader kv)
    := by
  intro middle
  induction middle with
  | nil => intro before kv; rfl
  | cons line middle ih =>
      intro before kv
      have hline : index (before ++ (line :: middle ++ after)) (before.length : Int) = .ok line := by
        rw [index_natCast (by simp)]
        simp
      have hnext := ih (before ++ [line]) (addHeader kv line)
      rw [List.length_append, List.length_singleton, List.append_assoc, List.singleton_append] at hnext
      rw [List.length_cons, List.range'_succ, List.map_cons, addHeaders, List.foldl_cons, ← hnext]
      exact congrArg (fun r => r >>= fun line => addHeaders _ _ (addHeader kv line)) hline

/-- What `apart` makes of the text: the last header field is missing. -/
theorem apart_text {r : Request} (h : r.WellFormed) (hshort : Short (fields crlf r.text))
    (hcount : r.headers.length + 1 < 2 ^ 31) : apart r.text =
      .ok ⟨r.mean, r.URL, r.version, headerMap r.headers.dropLast, r.body⟩ := by
  have hsplit := split_eq crlf_ne_nil r.text
  rw [if_pos hshort, parts_text h] at hsplit
  have hline : r.line.length < 2 ^ 31 := by
    refine hshort _ ?_
    rw [fields_text h]
    exact List.mem_cons_self
  have hwords := split_of_lt (show ([32] : Bytes) ≠ [] by decide) hline
  rw [parts_line h] at hwords
  -- the lines are the request line, the header fields, and the body
  obtain ⟨table, htable⟩ : ∃ table, table = r.line :: (r.headers.map headerLine ++ [r.body]) :=
    ⟨_, rfl⟩
  have hlength : table.length = r.headers.length + 2 := by
    rw [htable, List.length_cons, List.length_append, List.length_map, List.length_singleton]
  have hl : (table.length : Int) - 2 + 1 = ((r.headers.length + 1 : Nat) : Int) := by omega
  have hindices : ((table.length : Int) - 2 - 1).toNat = (r.headers.dropLast.map headerLine).length := by
    rw [List.length_map, List.length_dropLast]
    omega
  -- the loop over the header fields stops one short
  obtain ⟨after, hafter⟩ : ∃ after, r.headers.map headerLine ++ [r.body]
      = r.headers.dropLast.map headerLine ++ after := by
    by_cases hnone : r.headers = []
    · exact ⟨[r.body], by rw [hnone]; rfl⟩
    · refine ⟨[headerLine (r.headers.getLast hnone), r.body], ?_⟩
      have hheaders := congrArg (List.map headerLine) (List.dropLast_append_getLast hnone)
      rw [List.map_append] at hheaders
      rw [← hheaders, List.append_assoc]
      rfl
  have hdrop : ∀ g ∈ r.headers.dropLast, Word g.1 ∧ Word g.2 :=
    fun g hg => h.headers g (List.dropLast_subset _ hg)
  have hdistinct : (r.headers.dropLast.map Prod.fst).Nodup := by
    rw [List.map_dropLast]
    exact h.distinct.sublist (List.dropLast_sublist _)
  have hkv := addHeaders_middle after (r.headers.dropLast.map headerLine) [r.line] fun _ => none
  rw [foldl_addHeader hdrop hdistinct, ← hafter, List.singleton_append, ← htable, ← hindices] at hkv
  have hbody : index table ((r.headers.length + 1 : Nat) : Int) = .ok r.body := by
    rw [index_natCast (by omega)]
    simp [htable]
  have hfirst : index table 0 = .ok r.line := by rw [htable]; rfl
  rw [← htable] at hsplit
  rw [apart, hsplit]
  simp only [bind, Except.bind, hfirst, hwords, index_zero, index_one, index_two, hl]
  rw [if_neg (by omega)]
  simp only [List.length_singleton] at hkv
  simp only [hkv, hbody, pure, Except.pure]

/-- The map of the header fields has the last one. -/
theorem headerMap_dropLast_ne {headers : List (Bytes × Bytes)} (hne : headers ≠ [])
    (hdistinct : (headers.map Prod.fst).Nodup) : headerMap headers.dropLast ≠ headerMap headers := by
  intro hsame
  have hheaders := List.dropLast_append_getLast hne
  have hlast : headerMap headers.dropLast ((headers.getLast hne).1 ++ [58]) = none := by
    rw [headerMap, Option.map_eq_none_iff, List.find?_eq_none]
    intro g hg heq
    have hkey : g.1 = (headers.getLast hne).1 := List.append_cancel_right (of_decide_eq_true heq)
    rw [← hheaders, List.map_append, List.nodup_append] at hdistinct
    exact hdistinct.2.2 g.1 (List.mem_map_of_mem hg) _ (by simp) hkey
  have hfound : headerMap headers ((headers.getLast hne).1 ++ [58]) ≠ none := by
    rw [headerMap, ne_eq, Option.map_eq_none_iff, List.find?_eq_none]
    intro hall
    exact hall _ (List.getLast_mem hne) (decide_eq_true rfl)
  exact hfound (by rw [← hsame]; exact hlast)

/-- If `apart` gives back anything, the lines of the text are short enough for an `int`. -/
theorem short_of_apart_ok {r : Request} (h : r.WellFormed) {hc : HttpC}
    (hok : apart r.text = .ok hc) :
    Short (fields crlf r.text) ∧ r.headers.length + 1 < 2 ^ 31 := by
  have heq := apart_eq r.text
  by_cases hshort : Short (fields crlf r.text)
  · rw [if_pos hshort] at heq
    simp only [parts_text h, parts_line h] at heq
    by_cases hcount : (r.headers.map headerLine ++ [r.body]).length < 2 ^ 31
    · rw [List.length_append, List.length_map] at hcount
      exact ⟨hshort, hcount⟩
    · rw [if_neg hcount, hok] at heq
      cases heq
  · rw [if_neg hshort, hok] at heq
    cases heq

/-- A request whose parts `apart` gives back has no header fields. -/
theorem headers_of_restored {r : Request} (h : r.WellFormed) (hr : r.Restored) : r.headers = [] := by
  obtain ⟨hshort, hcount⟩ := short_of_apart_ok h hr
  by_contra hne
  have hsame := hr
  rw [Request.Restored, apart_text h hshort hcount, Except.ok.injEq, HttpC.mk.injEq] at hsame
  exact headerMap_dropLast_ne hne h.distinct hsame.2.2.2.1

/-- `apart` gives back the parts of a request exactly if it has no header fields, and its line and
its body are short enough for an `int`. -/
theorem restored_iff {r : Request} (h : r.WellFormed) :
    r.Restored ↔ r.headers = [] ∧ r.line.length < 2 ^ 31 ∧ r.body.length < 2 ^ 31 := by
  constructor
  · intro hr
    obtain ⟨hshort, -⟩ := short_of_apart_ok h hr
    rw [fields_text h] at hshort
    exact ⟨headers_of_restored h hr, hshort _ (by simp), hshort _ (by simp)⟩
  · rintro ⟨hnone, hline, hbody⟩
    have hshort : Short (fields crlf r.text) := by
      rw [fields_text h, hnone]
      intro p hp
      simp only [List.map_nil, List.nil_append, List.mem_cons, List.not_mem_nil, or_false] at hp
      rcases hp with rfl | rfl | rfl
      · exact hline
      · norm_num
      · exact hbody
    have hcount : r.headers.length + 1 < 2 ^ 31 := by
      rw [hnone]
      norm_num
    rw [Request.Restored, apart_text h hshort hcount, hnone]
    rfl

/-- A `GET` for the start page. -/
def getRequest (headers : List (Bytes × Bytes)) : Request :=
  ⟨ascii "GET", ascii "/", ascii "HTTP/1.1", headers, ascii "x"⟩

theorem getRequest_wellFormed {headers : List (Bytes × Bytes)}
    (hwords : ∀ h ∈ headers, Word h.1 ∧ Word h.2) (hdistinct : (headers.map Prod.fst).Nodup) :
    (getRequest headers).WellFormed where
  words := by
    show ∀ w ∈ [ascii "GET", ascii "/", ascii "HTTP/1.1"], w ≠ [] ∧ 32 ∉ w ∧ ¬ crlf <:+: w
    decide
  headers := hwords
  distinct := hdistinct
  body_ne_nil := by
    show ascii "x" ≠ []
    decide
  body_noCrlf := by
    show ¬ crlf <:+: ascii "x"
    decide

theorem restored_iff_get : (getRequest []).Restored ↔ (getRequest []).headers = [] ∧
    (getRequest []).line.length < 2 ^ 31 ∧ (getRequest []).body.length < 2 ^ 31 :=
  restored_iff (getRequest_wellFormed (by simp) (by simp))

/-- The only header field of a request is lost. -/
theorem not_restored_host : ¬ (getRequest [(ascii "Host", ascii "a")]).Restored := by
  intro hr
  have hwords : ∀ h ∈ [(ascii "Host", ascii "a")], Word h.1 ∧ Word h.2 := by
    intro h hmem
    rw [List.mem_singleton.mp hmem]
    exact ⟨by decide, by decide⟩
  exact absurd (headers_of_restored (getRequest_wellFormed hwords (by simp)) hr) (by simp [getRequest])

/-! ## Forms -/

/-- `key=value`. -/
def fieldText (f : Bytes × Bytes) : Bytes := f.1 ++ 61 :: f.2

/-- The fields of a form, joined by `&`. -/
def formText (form : List (Bytes × Bytes)) : Bytes := ([38] : Bytes).intercalate (form.map fieldText)

/-- The separators do not occur in keys and values. -/
def PlainForm (form : List (Bytes × Bytes)) : Prop :=
  ∀ f ∈ form, 38 ∉ f.1 ∧ 61 ∉ f.1 ∧ 38 ∉ f.2 ∧ 61 ∉ f.2

instance (form : List (Bytes × Bytes)) : Decidable (PlainForm form) :=
  inferInstanceAs (Decidable (∀ f ∈ form, _))

/-- `findName` finds the values of `Name` and of `ID` behind it, and nothing if one of them is
missing. -/
def FormFound (form : List (Bytes × Bytes)) : Prop :=
  (∀ front middle back name ID,
    form = front ++ (ascii "Name", name) :: (middle ++ (ascii "ID", ID) :: back) →
      findName (formText form) = .ok (some (name, ID))) ∧
  ((∀ f ∈ form, f.1 ≠ ascii "Name") ∨ (∀ f ∈ form, f.1 ≠ ascii "ID") →
    findName (formText form) = .ok none)

theorem formText_cons_cons (f g : Bytes × Bytes) (form : List (Bytes × Bytes)) :
    formText (f :: g :: form) = fieldText f ++ 38 :: formText (g :: form) := by
  rw [formText, List.map_cons, List.map_cons, intercalate_cons_cons, List.append_assoc]
  rfl

theorem formText_singleton (f : Bytes × Bytes) : formText [f] = fieldText f := by
  simp [formText, List.intercalate]

/-- A form begins with its first key. -/
theorem formText_key (f : Bytes × Bytes) (form : List (Bytes × Bytes)) :
    ∃ rest, formText (f :: form) = f.1 ++ 61 :: rest := by
  cases form with
  | nil => exact ⟨f.2, formText_singleton f⟩
  | cons g form => exact ⟨f.2 ++ 38 :: formText (g :: form), by simp [formText_cons_cons, fieldText]⟩

section Form

variable {form : List (Bytes × Bytes)}

theorem PlainForm.tail {f : Bytes × Bytes} (h : PlainForm (f :: form)) : PlainForm form :=
  fun g hg => h g (List.mem_cons_of_mem f hg)

theorem PlainForm.noAmp {f : Bytes × Bytes} (h : PlainForm form) (hf : f ∈ form) :
    38 ∉ fieldText f := by
  obtain ⟨hkey, -, hval, -⟩ := h f hf
  simp [fieldText, hkey, hval]

/-- The fields of a form come back when it is cut. -/
theorem parts_formText (h : PlainForm form) : parts [38] (formText form) = form.map fieldText := by
  refine parts_intercalate fun p hp => ?_
  obtain ⟨f, hf, rfl⟩ := List.mem_map.mp hp
  exact ⟨by simp [fieldText], h.noAmp hf⟩

theorem short_formText (h : PlainForm form) :
    Short (fields [38] (formText form)) ↔ Short (form.map fieldText) := by
  rw [← parts_formText h]
  constructor
  · exact fun hs p hp => hs p (List.mem_of_mem_filter hp)
  · intro hs p hp
    by_cases hnil : p = []
    · rw [hnil]
      norm_num
    · exact hs p (List.mem_filter.mpr ⟨hp, decide_eq_true hnil⟩)

/-- The first marker stands where some key ends with `Name`. -/
theorem nameMarker_iff (h : PlainForm form) :
    ascii "Name=" <:+: formText form ↔ ∃ f ∈ form, ascii "Name" <:+ f.1 := by
  induction form with
  | nil => simp [formText, ascii]
  | cons f form ih =>
      obtain ⟨-, hkey, -, hval⟩ := h f List.mem_cons_self
      have hfield : ascii "Name=" <:+: fieldText f ↔ ascii "Name" <:+ f.1 :=
        infix_concat_iff (ascii "Name") hkey hval
      cases form with
      | nil => rw [formText_singleton, hfield]; simp
      | cons g form =>
          rw [formText_cons_cons, infix_append_cons_iff (by decide), hfield, ih h.tail,
            List.exists_mem_cons_iff _ f]

/-- The second marker stands where some key other than the first is `ID`. -/
theorem idMarker_iff (h : PlainForm form) :
    ascii "&ID=" <:+: formText form ↔ ∃ f ∈ form.tail, f.1 = ascii "ID" := by
  induction form with
  | nil => simp [formText, ascii]
  | cons f form ih =>
      have hf := h.noAmp List.mem_cons_self
      cases form with
      | nil =>
          rw [formText_singleton]
          refine iff_of_false (fun hin => hf (hin.subset (by decide))) (by simp)
      | cons g form =>
          have hkey := (h g (by simp)).2.1
          obtain ⟨rest, hrest⟩ := formText_key g form
          have hfirst : ascii "ID=" <+: formText (g :: form) ↔ g.1 = ascii "ID" := by
            rw [hrest]
            exact concat_prefix_iff (ascii "ID") (by decide) hkey
          rw [formText_cons_cons]
          show 38 :: ascii "ID=" <:+: _ ↔ _
          rw [cons_infix_append_cons_iff hf, hfirst, List.tail_cons, List.exists_mem_cons_iff]
          exact or_congr_right (ih h.tail)

theorem hasMarkers_formText (h : PlainForm form) : HasMarkers (formText form) ↔
    (∃ f ∈ form, ascii "Name" <:+ f.1) ∧ ∃ f ∈ form.tail, f.1 = ascii "ID" :=
  and_congr (nameMarker_iff h) (idMarker_iff h)

/-- A field is cut behind its `=`. -/
theorem lastPart_fieldText {f : Bytes × Bytes} (hkey : 61 ∉ f.1) (hval : 61 ∉ f.2)
    (hlen : (fieldText f).length < 2 ^ 31) :
    lastPart ((fieldText f).length + 1) (fieldText f) = .ok f.2 := by
  have hnone : find [61] f.2 = none := by
    rw [find_eq_none_iff]
    exact fun hin => hval (hin.subset (List.mem_singleton_self 61))
  have hfind : find [61] (fieldText f) = some f.1.length := by
    have h := find_append_of_notMem 61 [] f.1 f.2 hkey
    rwa [List.append_assoc] at h
  have hdrop : (fieldText f).drop (f.1.length + 1) = f.2 := by
    rw [fieldText, ← List.drop_drop, List.drop_left]
    rfl
  have hfuel : (fieldText f).length = f.1.length + f.2.length + 1 := by
    simp [fieldText, Nat.add_assoc]
  rw [lastPart, hfind]
  simp only
  rw [if_neg (by omega), hdrop, hfuel, lastPart, hnone]

/-- What `findName` does with a form that has both markers: it takes the values of the first two
fields. -/
theorem findName_formText (h : PlainForm form) (hmarkers : HasMarkers (formText form)) :
    ∃ f g rest, form = f :: g :: rest ∧ findName (formText form) =
      if Short (form.map fieldText) then .ok (some (f.2, g.2)) else .error .range := by
  have hgo : ¬ ((find (ascii "Name=") (formText form)).isNone
      ∨ (find (ascii "&ID=") (formText form)).isNone) := by
    rw [Option.isNone_iff_eq_none, Option.isNone_iff_eq_none, find_eq_none_iff, find_eq_none_iff]
    rintro (hn | hn)
    · exact hn hmarkers.1
    · exact hn hmarkers.2
  obtain ⟨-, ⟨e, hID, -⟩⟩ := (hasMarkers_formText h).mp hmarkers
  obtain ⟨f, g, rest, rfl⟩ : ∃ f g rest, form = f :: g :: rest := by
    cases form with
    | nil => exact absurd hID List.not_mem_nil
    | cons f form =>
        cases form with
        | nil => exact absurd hID List.not_mem_nil
        | cons g rest => exact ⟨f, g, rest, rfl⟩
  have hsplit := split_eq (show ([38] : Bytes) ≠ [] by decide) (formText (f :: g :: rest))
  rw [parts_formText h] at hsplit
  refine ⟨f, g, rest, rfl, ?_⟩
  by_cases hshort : Short ((f :: g :: rest).map fieldText)
  · rw [if_pos ((short_formText h).mpr hshort)] at hsplit
    obtain ⟨-, hfkey, -, hfval⟩ := h f (by simp)
    obtain ⟨-, hgkey, -, hgval⟩ := h g (by simp)
    rw [if_pos hshort, findName, if_neg hgo, hsplit]
    simp only [List.map_cons, bind, Except.bind, index_zero, index_one,
      lastPart_fieldText hfkey hfval (hshort _ (by simp)),
      lastPart_fieldText hgkey hgval (hshort _ (by simp)), pure, Except.pure]
  · rw [if_neg fun hs => hshort ((short_formText h).mp hs)] at hsplit
    rw [if_neg hshort, findName, if_neg hgo, hsplit]
    rfl

theorem findName_noMarkers (hmarkers : ¬ HasMarkers (formText form)) :
    findName (formText form) = .ok none := by
  rw [findName, if_pos]
  rw [Option.isNone_iff_eq_none, Option.isNone_iff_eq_none, find_eq_none_iff, find_eq_none_iff]
  exact not_and_or.mp hmarkers

/-- `findName` finds the right fields exactly if the first two fields have the values of `Name` and
`ID` and all fields are short enough, and no other key passes for `Name` in a form without it. -/
theorem formFound_iff (h : PlainForm form) : FormFound form ↔
    (∀ front middle back name ID,
      form = front ++ (ascii "Name", name) :: (middle ++ (ascii "ID", ID) :: back) →
        (form.map Prod.snd).take 2 = [name, ID] ∧ Short (form.map fieldText)) ∧
    ((∀ f ∈ form, f.1 ≠ ascii "Name") →
      ¬ ((∃ f ∈ form, ascii "Name" <:+ f.1) ∧ ∃ f ∈ form.tail, f.1 = ascii "ID")) := by
  have hmarkers := hasMarkers_formText h
  refine and_congr ?_ ⟨fun hlack hname hboth => ?_, fun hlack hnone => ?_⟩
  · refine forall_congr' fun front => forall_congr' fun middle => forall_congr' fun back =>
      forall_congr' fun name => forall_congr' fun ID => forall_congr' fun hform => ?_
    -- the two fields are there, so both markers are
    have hboth : HasMarkers (formText form) := by
      refine hmarkers.mpr ⟨⟨(ascii "Name", name), by rw [hform]; simp, List.suffix_refl _⟩,
        (ascii "ID", ID), ?_, rfl⟩
      rw [hform]
      cases front <;> simp
    obtain ⟨f, g, rest, hfront, hfind⟩ := findName_formText h hboth
    have htake : (form.map Prod.snd).take 2 = [f.2, g.2] := by rw [hfront]; rfl
    rw [hfind, htake]
    by_cases hshort : Short (form.map fieldText)
    · rw [if_pos hshort, Except.ok.injEq, Option.some.injEq, Prod.mk.injEq, List.cons.injEq,
        List.cons.injEq]
      simp [hshort]
    · rw [if_neg hshort]
      simp [hshort]
  · obtain ⟨f, g, rest, -, hfind⟩ := findName_formText h (hmarkers.mpr hboth)
    rw [hlack (Or.inl hname)] at hfind
    split at hfind <;> cases hfind
  · refine findName_noMarkers fun hboth => ?_
    rcases hnone with hname | hID
    · exact hlack hname (hmarkers.mp hboth)
    · obtain ⟨-, f, hf, hfID⟩ := hmarkers.mp hboth
      exact hID f (List.mem_of_mem_tail hf) hfID

end Form

/-- `Name=a&ID=b`. -/
def nameAndID : List (Bytes × Bytes) := [(ascii "Name", ascii "a"), (ascii "ID", ascii "b")]

theorem formFound_iff_nameAndID : FormFound nameAndID ↔
    (∀ front middle back name ID,
      nameAndID = front ++ (ascii "Name", name) :: (middle ++ (ascii "ID", ID) :: back) →
        (nameAndID.map Prod.snd).take 2 = [name, ID] ∧ Short (nameAndID.map fieldText)) ∧
    ((∀ f ∈ nameAndID, f.1 ≠ ascii "Name") →
      ¬ ((∃ f ∈ nameAndID, ascii "Name" <:+ f.1) ∧ ∃ f ∈ nameAndID.tail, f.1 = ascii "ID")) :=
  formFound_iff (by decide)

/-- With another field in front of the two, its value is returned as the name. -/
theorem not_formFound_front : ¬ FormFound ((ascii "X", ascii "1") :: nameAndID) := by
  intro h
  have hname := h.1 [(ascii "X", ascii "1")] [] [] (ascii "a") (ascii "b") rfl
  exact absurd hname (by decide)

end CloudLabs.Http
