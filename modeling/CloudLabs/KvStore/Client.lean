import CloudLabs.KvStore.Coordinator
import CloudLabs.KvStore.Network

/-!
# Commands received from a client

`Coordinator::Working` reads a command with `recvCommand` and calls `UpdateDB` or `Request` by the
first string of the vector it gets. It does not look at the return code. `recvCommand` leaves the
strings it has read before a failure in the vector, so the rest of a command that breaks off is
executed as a command of its own.

`incomplete_command_refused_iff`: a command that is not received completely is refused exactly when
the coordinator is not at work or the stream does not begin with a whole string `SET`, `DEL` or
`GET`. `Begins` is that condition on the stream; `recvCommand_first_iff` relates it to what is read.
-/

set_option autoImplicit false

namespace CloudLabs.KvStore

open CloudLabs.Foundation

/-- What `Coordinator::Working` does with a command: it calls `UpdateDB` or `Request`, or it only
answers the error message. -/
inductive ClientCall where
  | UpdateDB (resp : Bytes)
  | Request (resp : Bytes)
  | refuse
  deriving DecidableEq

/-- `Coordinator::Working` from the return of `recvCommand` on, where `_cstate` is read once. -/
def callOf (cstate : CState) (task : List Bytes) : ClientCall :=
  let resp := getRESPArry task
  match task with
  | [] => .refuse
  | w :: _ =>
      if cstate ≠ .C_WORKING then .refuse
      else if w = ascii "SET" ∨ w = ascii "DEL" then .UpdateDB resp
      else if w = ascii "GET" then .Request resp
      else .refuse

/-- The program a call runs; a refused command runs none. -/
def ClientCall.proc (pnum : Nat) : ClientCall → Proc Bytes
  | .UpdateDB resp => KvStore.UpdateDB pnum resp
  | .Request resp => KvStore.Request pnum resp
  | .refuse => pure getErrorMessage

/-- `Coordinator::Working` on what arrives from a client: the code of `recvCommand`, which nothing
reads, and the call. -/
def serveClient (heap : Nat → UInt8) (cstate : CState) (t : Incoming) : Option (Int × ClientCall) :=
  (recvCommand heap t).map fun r => (r.1, callOf cstate r.2.1)

/-- The words that make `Working` call one of its functions. -/
def callWords : List Bytes := [ascii "SET", ascii "DEL", ascii "GET"]

theorem callOf_eq_refuse_iff (cstate : CState) (task : List Bytes) :
    callOf cstate task = .refuse ↔
      cstate ≠ .C_WORKING ∨ ∀ w ∈ callWords, ∀ ws, task ≠ w :: ws := by
  cases task with
  | nil => simp [callOf]
  | cons w task =>
      by_cases hst : cstate = .C_WORKING
      · simp only [callOf, callWords, hst, ne_eq, not_true_eq_false, if_false, false_or,
          List.mem_cons, List.not_mem_nil, or_false, forall_eq_or_imp, forall_eq, List.cons.injEq,
          not_and]
        by_cases hset : w = ascii "SET" ∨ w = ascii "DEL"
        · rw [if_pos hset]
          constructor
          · intro h
            cases h
          · rintro ⟨h₁, h₂, -⟩
            rcases hset with h | h
            · exact absurd rfl (h₁ task h)
            · exact absurd rfl (h₂ task h)
        rw [if_neg hset]
        rw [not_or] at hset
        by_cases hget : w = ascii "GET"
        · rw [if_pos hget]
          constructor
          · intro h
            cases h
          · rintro ⟨-, -, h₃⟩
            exact absurd rfl (h₃ task hget)
        · rw [if_neg hget]
          exact ⟨fun _ => ⟨fun _ h => absurd h hset.1, fun _ h => absurd h hset.2,
            fun _ h => absurd h hget⟩, fun _ => rfl⟩
      · simp [callOf, hst]

/-! ## What was read -/

/-- The rest of a header line, from one step of its loop on, whose number has the digits `h` once
those of `header` are there. -/
def LineRest (marker : UInt8) (header : Bytes) (bs h : Bytes) : HeaderStep → Prop
  | .marker => ∃ junk digits, bs = junk ++ marker :: (digits ++ crlf) ∧ marker ∉ junk ∧
      (∀ d ∈ digits, isDigit d = true) ∧ h = header ++ digits
  | .number => ∃ digits, bs = digits ++ crlf ∧ (∀ d ∈ digits, isDigit d = true) ∧ h = header ++ digits
  | .lineEnd => bs = [10] ∧ h = header

/-- One more byte in front of the rest of a line. -/
theorem LineRest.cons {marker : UInt8} {step step' : HeaderStep} {header header' bs h : Bytes}
    {b : UInt8} (hbyte : headerByte marker step header [b] = .more step' header')
    (hrest : LineRest marker header' bs h step') : LineRest marker header (b :: bs) h step := by
  cases step with
  | marker =>
      rw [headerByte] at hbyte
      by_cases hb : marker ∈ [b]
      · rw [if_pos hb] at hbyte
        cases hbyte
        obtain ⟨digits, rfl, hdigits, rfl⟩ := hrest
        rw [List.mem_singleton] at hb
        subst hb
        -- the marker itself, with no junk before it
        exact ⟨[], digits, rfl, by simp, hdigits, rfl⟩
      · rw [if_neg hb] at hbyte
        cases hbyte
        obtain ⟨junk, digits, rfl, hjunk, hdigits, rfl⟩ := hrest
        refine ⟨b :: junk, digits, rfl, ?_, hdigits, rfl⟩
        rw [List.mem_cons, not_or]
        exact ⟨fun h => hb (List.mem_singleton.2 h), hjunk⟩
  | number =>
      rw [headerByte] at hbyte
      by_cases hcr : (13 : UInt8) ∈ [b]
      · rw [if_pos hcr] at hbyte
        cases hbyte
        obtain ⟨rfl, rfl⟩ := hrest
        rw [List.mem_singleton] at hcr
        subst hcr
        -- the end of the number
        exact ⟨[], rfl, by simp, by simp⟩
      · rw [if_neg hcr] at hbyte
        by_cases hd : isDigit ([b].headD 0) = true
        · rw [if_pos hd] at hbyte
          cases hbyte
          -- one more digit
          obtain ⟨digits, rfl, hdigits, rfl⟩ := hrest
          refine ⟨b :: digits, rfl, ?_, by simp⟩
          intro d hmem
          rcases List.mem_cons.1 hmem with rfl | hmem
          · exact hd
          · exact hdigits d hmem
        · -- any other byte ends the reading
          rw [if_neg hd] at hbyte
          cases hbyte
  | lineEnd =>
      rw [headerByte] at hbyte
      split at hbyte <;> cases hbyte

/-- A header loop that ends a line has read exactly that line. -/
theorem readHeaderLoop_line {strict : Bool} {marker : UInt8} : ∀ (fuel : Nat) (step : HeaderStep)
    (header : Bytes) (t : Incoming) {h : Bytes} {t' : Incoming},
    readHeaderLoop strict marker fuel step header t = some (.ok h, t') →
    ∃ used, t = used ++ t' ∧ (strict = true → NoFail used) ∧
      LineRest marker header (received used) h step := by
  intro fuel
  induction fuel with
  | zero => intro step header t h t' heq; cases heq
  | succ fuel ih =>
      intro step header t h t' heq
      rw [readHeaderLoop] at heq
      have hspec := recvNF_spec 1 t
      cases hread : recvNF 1 t with
      | closed => rw [hread] at heq; cases heq
      | failed f t₁ =>
          rw [hread] at heq hspec
          obtain ⟨gap, rfl, hgap, -⟩ := hspec
          -- a failed call ends a strict reading, and is repeated in the other one
          cases hs : strict with
          | true => simp only [hs, if_true] at heq; cases heq
          | false =>
              simp only [hs, Bool.false_eq_true, if_false] at heq
              obtain ⟨used, rfl, -, hline⟩ := ih _ _ _ (by rw [hs]; exact heq)
              refine ⟨gap ++ .fail f :: used, by simp, ?_, ?_⟩
              · intro h
                cases h
              · rw [received_append, hgap]
                exact hline
      | got bs t₁ =>
          rw [hread] at heq hspec
          obtain ⟨gap, rfl, hgap, hno, hne, hlen⟩ := hspec
          obtain ⟨b, rfl⟩ : ∃ b, bs = [b] := by
            have := List.length_pos_iff.2 hne
            exact List.length_eq_one_iff.1 (by omega)
          simp only at heq
          cases hbyte : headerByte marker step header [b] with
          | bad => rw [hbyte] at heq; cases heq
          | line h' =>
              rw [hbyte] at heq
              cases heq
              refine ⟨gap, rfl, fun _ => hno, ?_⟩
              rw [hgap]
              -- only the last step ends a line, with the byte LF
              cases step with
              | marker => rw [headerByte] at hbyte; split at hbyte <;> cases hbyte
              | number =>
                  rw [headerByte] at hbyte
                  split at hbyte
                  · cases hbyte
                  · split at hbyte <;> cases hbyte
              | lineEnd =>
                  rw [headerByte] at hbyte
                  by_cases hb : (10 : UInt8) ∈ [b]
                  · rw [if_pos hb] at hbyte
                    cases hbyte
                    exact ⟨by rw [List.mem_singleton.1 hb], rfl⟩
                  · rw [if_neg hb] at hbyte
                    cases hbyte
          -- the byte belongs to the line, which goes on
          | more step' header' =>
              rw [hbyte] at heq
              obtain ⟨used, rfl, hno', hline⟩ := ih _ _ _ heq
              refine ⟨gap ++ used, by simp, fun hs => hno.append (hno' hs), ?_⟩
              rw [received_append, hgap]
              exact LineRest.cons hbyte hline

/-- A content shorter than `2 ^ 31` that was read is the front of the stream. -/
theorem readContentLoop_front {heap : Nat → UInt8} {n : Nat} (hn : n < 2 ^ 31) : ∀ (fuel : Nat)
    (t : Incoming) {content : Bytes} {t' : Incoming},
    readContentLoop heap n fuel [] t = some (.ok content, t') →
    ∃ used, t = used ++ t' ∧ received used = content ∧ content.length = n := by
  intro fuel
  induction fuel with
  | zero => intro t content t' heq; cases heq
  | succ fuel ih =>
      intro t content t' heq
      rw [readContentLoop] at heq
      by_cases hdone : ([] : Bytes).length = n
      · rw [if_pos hdone] at heq
        cases heq
        exact ⟨[], rfl, rfl, hdone⟩
      rw [if_neg hdone] at heq
      simp only [List.length_nil, Nat.sub_zero, List.nil_append, toInt32_natCast hn] at heq
      have hspec := recv_spec n t
      cases hread : recv (n : Int) t with
      | closed => rw [hread] at heq; cases heq
      | failed f t₁ =>
          rw [hread] at heq hspec
          obtain ⟨gap, rfl, hgap⟩ := hspec
          obtain ⟨used, rfl, hused, hlen⟩ := ih _ heq
          refine ⟨gap ++ .fail f :: used, by simp, ?_, hlen⟩
          rw [received_append, hgap, List.nil_append, received_fail, hused]
      | got bs t₁ =>
          rw [hread] at heq hspec
          obtain ⟨used, rfl, hused, hbs⟩ := hspec
          simp only [bufString_of_length heap hbs] at heq
          -- the loop ends with the next test of its condition
          cases fuel with
          | zero => cases heq
          | succ fuel =>
              rw [readContentLoop, if_pos hbs] at heq
              cases heq
              exact ⟨used, rfl, hused, hbs⟩

theorem readContentLoop_length {heap : Nat → UInt8} {n : Nat} : ∀ (fuel : Nat) (content : Bytes)
    (t : Incoming) {content' : Bytes} {t' : Incoming},
    readContentLoop heap n fuel content t = some (.ok content', t') → content'.length = n := by
  intro fuel
  induction fuel with
  | zero => intro content t content' t' heq; cases heq
  | succ fuel ih =>
      intro content t content' t' heq
      rw [readContentLoop] at heq
      by_cases hdone : content.length = n
      · rw [if_pos hdone] at heq
        cases heq
        exact hdone
      · rw [if_neg hdone] at heq
        simp only at heq
        split at heq
        · cases heq
        · exact ih _ _ heq
        · exact ih _ _ heq

/-- The strings read before stay at the front of the vector. -/
theorem readStrings_append {heap : Nat → UInt8} : ∀ (num : Nat) (str : List Bytes) (t : Incoming)
    {rc : Int} {str' : List Bytes} {t' : Incoming},
    readStrings heap num str t = some (rc, str', t') → str <+: str' := by
  intro num
  induction num with
  | zero =>
      intro str t rc str' t' heq
      cases heq
      exact List.prefix_rfl
  | succ num ih =>
      intro str t rc str' t' heq
      rw [readStrings] at heq
      split at heq
      · cases heq
      · cases heq
        exact List.prefix_rfl
      · split at heq
        · cases heq
        · cases heq
          exact List.prefix_rfl
        · exact (List.prefix_append _ _).trans (ih _ _ heq)

/-! ## The first string -/

/-- The stream begins with a command line that announces at least one string, which no failed read
interrupts, and with the whole string `w` as the first. -/
def Begins (w : Bytes) (t : Incoming) : Prop :=
  ∃ line first rest junk count junk' size,
    t = line ++ first ++ rest ∧ NoFail line ∧
    received line = junk ++ 42 :: (count ++ crlf) ∧ (42 : UInt8) ∉ junk ∧
    (∀ d ∈ count, isDigit d = true) ∧ 1 ≤ toUInt64 (strtol count) ∧
    received first = junk' ++ 36 :: (size ++ crlf) ++ w ∧ (36 : UInt8) ∉ junk' ∧
    (∀ d ∈ size, isDigit d = true) ∧ toUInt64 (strtol size) = w.length

/-- A command with a string had its number of strings read first. -/
theorem recvCommand_count {heap : Nat → UInt8} {t t' : Incoming} {rc : Int} {w : Bytes}
    {ws : List Bytes} (h : recvCommand heap t = some (rc, w :: ws, t')) :
    ∃ count t₁ num, readHeader true 42 t = some (.ok count, t₁) ∧
      toUInt64 (strtol count) = num + 1 ∧ readStrings heap (num + 1) [] t₁ = some (rc, w :: ws, t') := by
  rw [recvCommand] at h
  cases hcount : readHeader true 42 t with
  | none => rw [hcount] at h; cases h
  | some r =>
      rw [hcount] at h
      obtain ⟨r, t₁⟩ := r
      cases r with
      | error rc' => cases h
      | ok count =>
          simp only at h
          cases hnum : toUInt64 (strtol count) with
          | zero => rw [hnum] at h; cases h
          | succ num => exact ⟨count, t₁, num, rfl, hnum, hnum ▸ h⟩

/-- The first string was read with its length line and its content. -/
theorem readStrings_first {heap : Nat → UInt8} {num : Nat} {t t' : Incoming} {rc : Int} {w : Bytes}
    {ws : List Bytes} (h : readStrings heap (num + 1) [] t = some (rc, w :: ws, t')) :
    ∃ size t₁ t₂, readHeader false 36 t = some (.ok size, t₁) ∧
      readContent heap (toUInt64 (strtol size)) t₁ = some (.ok w, t₂) := by
  rw [readStrings] at h
  cases hsize : readHeader false 36 t with
  | none => rw [hsize] at h; cases h
  | some r =>
      rw [hsize] at h
      obtain ⟨r, t₁⟩ := r
      cases r with
      | error rc' => cases h
      | ok size =>
          simp only at h
          cases hcontent : readContent heap (toUInt64 (strtol size)) t₁ with
          | none => rw [hcontent] at h; cases h
          | some r =>
              rw [hcontent] at h
              obtain ⟨r, t₂⟩ := r
              cases r with
              | error rc' => cases h
              | ok content =>
                  -- whatever is read behind it, the content stays the first string
                  obtain ⟨more, hmore⟩ := readStrings_append _ _ _ h
                  cases hmore
                  exact ⟨size, t₁, t₂, rfl, hcontent⟩

/-- A short string is the first one read exactly when the stream begins with it. -/
theorem recvCommand_first_iff {heap : Nat → UInt8} {t t' : Incoming} {rc : Int} {task : List Bytes}
    (h : recvCommand heap t = some (rc, task, t')) {w : Bytes} (hw : w.length < 2 ^ 31) :
    (∃ ws, task = w :: ws) ↔ Begins w t := by
  constructor
  · rintro ⟨ws, rfl⟩
    obtain ⟨count, t₁, num, hcount, hnum, hstrings⟩ := recvCommand_count h
    obtain ⟨size, t₂, t₃, hsize, hcontent⟩ := readStrings_first hstrings
    obtain ⟨line, rfl, hno, junk, digits, hline, hjunk, hdigits, hdec⟩ :=
      readHeaderLoop_line _ _ _ _ hcount
    rw [List.nil_append] at hdec
    subst hdec
    obtain ⟨head, rfl, -, junk', digits', hhead, hjunk', hdigits', hdec⟩ :=
      readHeaderLoop_line _ _ _ _ hsize
    rw [List.nil_append] at hdec
    subst hdec
    have hlen := readContentLoop_length _ _ _ hcontent
    rw [← hlen] at hcontent
    obtain ⟨body, rfl, hbody, -⟩ := readContentLoop_front hw _ _ hcontent
    refine ⟨line, head ++ body, t₃, junk, count, junk', size, ?_, hno rfl, hline, hjunk, hdigits,
      by omega, ?_, hjunk', hdigits', hlen.symm⟩
    · simp
    · rw [received_append, hhead, hbody]
  · rintro ⟨line, first, rest, junk, count, junk', size, rfl, hno, hline, hjunk, hcount, hone, hfirst,
      hjunk', hsize, hlen⟩
    obtain ⟨t₁, hheader, gap, rfl, hgap⟩ := readHeader_strict (first ++ rest) hno hjunk hcount hline
    have ht₁ : received (gap ++ (first ++ rest)) =
        junk' ++ 36 :: (size ++ (crlf ++ (w ++ received rest))) := by
      rw [received_append, hgap, received_append, hfirst]
      simp
    obtain ⟨t₂, hhead, ht₂⟩ := readHeader_of_received hjunk' hsize ht₁
    obtain ⟨t₃, hcontent, -⟩ := readContent_of_received heap hw ht₂
    obtain ⟨num, hnum⟩ : ∃ num, toUInt64 (strtol count) = num + 1 :=
      ⟨toUInt64 (strtol count) - 1, by omega⟩
    rw [List.append_assoc, recvCommand, hheader] at h
    simp only [hnum, readStrings, hhead, hlen, hcontent] at h
    obtain ⟨more, rfl⟩ := readStrings_append _ _ _ h
    exact ⟨more, rfl⟩

/-- A command that is not received completely is refused exactly when the coordinator is not at
work, or the stream does not begin with one of the words that are executed. -/
theorem incomplete_command_refused_iff (heap : Nat → UInt8) (cstate : CState) (t : Incoming)
    {rc : Int} {call : ClientCall} (h : serveClient heap cstate t = some (rc, call)) (hrc : rc ≠ KV_OK)
    (pnum : Nat) :
    (call = .refuse ∧ call.proc pnum = pure getErrorMessage) ↔
      cstate ≠ .C_WORKING ∨ ∀ w ∈ callWords, ¬ Begins w t := by
  obtain ⟨⟨rc', task, t'⟩, hrecv, heq⟩ := Option.map_eq_some_iff.1 h
  cases heq
  have hproc : (callOf cstate task = .refuse ∧ (callOf cstate task).proc pnum =
      pure getErrorMessage) ↔ callOf cstate task = .refuse := by
    constructor
    · exact fun h => h.1
    · intro h
      rw [h]
      exact ⟨rfl, rfl⟩
  rw [hproc, callOf_eq_refuse_iff]
  refine or_congr_right (forall₂_congr fun w hw => ?_)
  have hlen : w.length < 2 ^ 31 := by
    revert w
    decide
  rw [← recvCommand_first_iff hrecv hlen]
  exact not_exists.symm

/-- A command cut off in the middle of its first word is refused; its stream begins with no whole
word. -/
theorem incomplete_command_refused_iff_cut_word :
    let t := (ascii "*1\r\n$3\r\nSE").map Event.byte;
    ¬ Begins (ascii "SET") t ∧ ¬ Begins (ascii "DEL") t ∧ ¬ Begins (ascii "GET") t := by
  intro t
  have hserve : serveClient (fun _ => 0) .C_WORKING t =
      some (KV_NETWORK_CLOSE, ClientCall.refuse) := by decide +kernel
  have hiff := incomplete_command_refused_iff (fun _ => 0) .C_WORKING t hserve (by decide) 3
  have hnot := (hiff.1 ⟨rfl, rfl⟩).resolve_left fun h => h rfl
  exact ⟨hnot _ (by simp [callWords]), hnot _ (by simp [callWords]), hnot _ (by simp [callWords])⟩

/-- A command of four strings of which three arrive before the connection is closed: the three are
executed as a `SET`, and a participant that gets the update stores the value. -/
theorem truncated_command_executed :
    let resp := getRESPArry [ascii "SET", ascii "k", ascii "v"];
    serveClient (fun _ => 0) .C_WORKING
        ((ascii "*4\r\n$3\r\nSET\r\n$1\r\nk\r\n$1\r\nv\r\n").map Event.byte) =
      some (KV_NETWORK_CLOSE, .UpdateDB resp) ∧
    KV_NETWORK_CLOSE ≠ KV_OK ∧
    ∃ p, Participant.Init.pWorker (Log.logToStr ⟨TXID_START, LogState.LOG_COMMIT, resp⟩) =
        some (getSuccessMessage, p) ∧
      p.TXID = TXID_START + 1 ∧ p.kvdb (ascii "k") = some (ascii "v") := by
  refine ⟨by decide +kernel, by decide, _, rfl, rfl, ?_⟩
  decide +kernel

end CloudLabs.KvStore
