import CloudLabs.Foundation.Split
import CloudLabs.KvStore.Network
import CloudLabs.KvStore.Sequential

/-!
# From a typed line to the printed reply

`main` without arguments is the client. It splits each line at the spaces, sends the words as one
command over a connection of its own, and prints what its first read that succeeds brings of the
reply, the NUL byte behind it included. `Session` is this client with the system: the lines that were
typed, the command or the reply on its way, in any pieces, and what was printed.

`session_prints`: as long as nothing fails, what is printed for a line is the beginning of the answer
that one map gives to its words behind those of the lines before, and every line can be answered.
-/

set_option autoImplicit false

namespace CloudLabs.KvStore

open CloudLabs.Foundation
open Relation (ReflTransGen)

/-! ## The words of a line -/

/-- `txt.find(ch, initialPos)`. -/
def findFrom (txt : Bytes) (ch : UInt8) (initialPos : Nat) : Option Nat :=
  (find [ch] (txt.drop initialPos)).map (initialPos + ·)

/-- The loop of `split`, and the last part. -/
def splitLoop (txt : Bytes) (ch : UInt8) : Nat → Nat → Option (List Bytes)
  | 0, _ => none
  | fuel + 1, initialPos =>
    match findFrom txt ch initialPos with
    | none => (substr txt initialPos (txt.length - initialPos + 1)).map fun last => [last]
    | some pos =>
      match substr txt initialPos (pos - initialPos), splitLoop txt ch fuel (pos + 1) with
      | some str, some strs => some (str :: strs)
      | _, _ => none

/-- `split`; `none` stands for an exception. The loop finds no more often than there are bytes. -/
def split (txt : Bytes) (ch : UInt8) : Option (List Bytes) := splitLoop txt ch (txt.length + 1) 0

theorem splitLoop_eq (ch : UInt8) : ∀ (fuel : Nat) (before txt : Bytes), txt.length < fuel →
    splitLoop (before ++ txt) ch fuel before.length = some (txt.splitOn ch) := by
  intro fuel
  induction fuel with
  | zero => intro before txt hfuel; omega
  | succ fuel ih =>
    intro before txt hfuel
    rw [splitLoop, findFrom, List.drop_left]
    by_cases hmem : ch ∈ txt
    · obtain ⟨str, rest, rfl, hno⟩ := List.eq_append_cons_of_mem hmem
      have hfind := find_append_of_notMem ch [] str rest hno
      rw [List.append_assoc, List.singleton_append] at hfind
      rw [hfind]
      -- the next word begins behind the byte
      have hnext : before ++ (str ++ ch :: rest) = before ++ (str ++ [ch]) ++ rest := by simp
      have hmore : splitLoop (before ++ (str ++ ch :: rest)) ch fuel (before.length + str.length + 1) =
          some (rest.splitOn ch) := by
        rw [List.length_append, List.length_cons] at hfuel
        have hih := ih (before ++ (str ++ [ch])) rest (by omega)
        rw [List.length_append, List.length_append, List.length_singleton] at hih
        rw [hnext, Nat.add_assoc]
        exact hih
      simp only [Option.map_some, hmore, Nat.add_sub_cancel_left, substr_append, List.take_left]
      rw [List.splitOn_append_cons_self, List.splitOn_eq_singleton hno]
      rfl
    · have hfind : find [ch] txt = none := by
        rw [find_eq_none_iff]
        exact fun h => hmem (h.subset List.mem_cons_self)
      rw [hfind, List.splitOn_eq_singleton hmem]
      have hlast : txt.take ((before ++ txt).length - before.length + 1) = txt := by
        apply List.take_of_length_le
        rw [List.length_append]
        omega
      simp only [Option.map_none, substr_append, Option.map_some, hlast]

/-- The parts between the bytes `ch`, empty ones included; nothing is thrown. -/
theorem split_eq (txt : Bytes) (ch : UInt8) : split txt ch = some (txt.splitOn ch) :=
  splitLoop_eq ch _ [] txt (Nat.lt_succ_self _)

/-- The words of a line. -/
def words (line : Bytes) : List Bytes := line.splitOn 32

theorem words_ne_nil (line : Bytes) : words line ≠ [] := List.splitOn_ne_nil _ _

/-! ## The bytes that are sent and read -/

/-- What `ossSocket::send` sends of a text; it takes the length as an `int`. -/
def sent (msg : Bytes) : Bytes := msg.take (toInt32 msg.length).toNat

theorem sent_eq {msg : Bytes} (h : msg.length < 2 ^ 31) : sent msg = msg := by
  rw [sent, toInt32_natCast h, Int.toNat_natCast, List.take_length]

/-- The text of `Network::sendResult`: the answer with the NUL byte behind it. -/
def resultText (content : Bytes) : Bytes := content ++ [0]

/-- The client's loop over `recvNF`, which a closed connection does not end. -/
def readResultLoop : Nat → Incoming → Option Bytes
  | 0, _ => none
  | fuel + 1, t =>
    match recvNF 1024 t with
    | .closed => none
    | .failed _ t => readResultLoop fuel t
    | .got bs _ => some bs

def readResult (t : Incoming) : Option Bytes := readResultLoop (t.length + 1) t

/-- What is printed of an answer: at least one byte and at most 1024, from its beginning. -/
def Shown (page rc : Bytes) : Prop := page ≠ [] ∧ page.length ≤ 1024 ∧ page <+: resultText rc

theorem readResultLoop_sound : ∀ (fuel : Nat) (t : Incoming) (page : Bytes),
    readResultLoop fuel t = some page → page ≠ [] ∧ page.length ≤ 1024 ∧ page <+: received t := by
  intro fuel
  induction fuel with
  | zero => intro t page h; cases h
  | succ fuel ih =>
    intro t page h
    rw [readResultLoop] at h
    have hspec := recvNF_spec 1024 t
    cases hread : recvNF 1024 t with
    | closed =>
      rw [hread] at h
      cases h
    | failed f t' =>
      rw [hread] at h hspec
      obtain ⟨used, rfl, hused, -⟩ := hspec
      rw [received_append, hused, List.nil_append, received_fail]
      exact ih t' page h
    | got bs t' =>
      rw [hread] at h hspec
      obtain ⟨used, rfl, hused, -, hne, hle⟩ := hspec
      obtain rfl := Option.some.inj h
      refine ⟨hne, hle, ?_⟩
      rw [received_append, hused]
      exact List.prefix_append _ _

theorem readResultLoop_some : ∀ (fuel : Nat) (t : Incoming), t.length < fuel → received t ≠ [] →
    ∃ page, readResultLoop fuel t = some page := by
  intro fuel
  induction fuel with
  | zero => intro t hfuel; omega
  | succ fuel ih =>
    intro t hfuel hne
    rw [readResultLoop]
    have hspec := recvNF_spec 1024 t
    cases hread : recvNF 1024 t with
    | closed =>
      rw [hread] at hspec
      exact absurd hspec.1 hne
    | failed f t' =>
      rw [hread] at hspec
      obtain ⟨used, rfl, hused, -⟩ := hspec
      rw [List.length_append, List.length_cons] at hfuel
      rw [received_append, hused, List.nil_append, received_fail] at hne
      exact ih t' (by omega) hne
    | got bs t' => exact ⟨bs, rfl⟩

/-- A command that comes whole and without a failure is read as it was encoded. -/
theorem recvCommand_of_received (heap : Nat → UInt8) {v : List Bytes} {t : Incoming}
    (hlen : (getRESPArry v).length < 2 ^ 31) (hno : NoFail t) (ht : received t = getRESPArry v) :
    ∃ t', recvCommand heap t = some (KV_OK, v, t') := by
  have hcount : v.length < 2 ^ 31 := lt_trans (length_lt_getRESPArry v) hlen
  have hstrings : ∀ s ∈ v, s.length < 2 ^ 31 := by
    intro s hs
    have hle := (List.sublist_flatten_of_mem
      (List.mem_map_of_mem (f := getStringMessage) hs)).length_le
    have hlt := length_lt_getStringMessage s
    rw [getRESPArry, List.length_cons, List.length_append, List.flatMap_def] at hlen
    omega
  have hline : received t = [] ++ 42 :: (toDec v.length ++ (crlf ++ v.flatMap getStringMessage)) := by
    rw [ht, getRESPArry, toInt32_natCast hcount, intToDec_natCast, List.append_assoc]
    rfl
  obtain ⟨t₁, hheader, ht₁⟩ := readHeaderLoop_marker true [] List.not_mem_nil
    (fun d hd => isDigit_of_mem_toDec hd) hline (fun _ => hno) (Nat.lt_succ_self _)
  have hbody : received t₁ = [] ++ (v.flatMap getStringMessage ++ []) := by
    rw [ht₁, List.nil_append, List.append_nil]
  obtain ⟨t', hread, -⟩ := readStrings_flatMap heap v hstrings [] [] List.not_mem_nil hbody
  refine ⟨t', ?_⟩
  rw [recvCommand, readHeader, hheader]
  simp only [toUInt64_strtol_toDec_of_lt (lt_trans hcount (by decide)), hread, List.nil_append]

/-! ## Answers that fit -/

/-- The text of the answer fits into an `int`. -/
def Short (rc : Bytes) : Prop := (resultText rc).length < 2 ^ 31

theorem short_iff {rc : Bytes} : Short rc ↔ rc.length + 1 < 2 ^ 31 := by
  rw [Short, resultText, List.length_append, List.length_singleton]

/-- The answers with the stored values are short. -/
def ShortValues (m : KV) : Prop := ∀ k v, m k = some v → Short (getRESPArryOne v)

theorem length_getRESPArryOne (v : Bytes) :
    (getRESPArryOne v).length = 4 + (getStringMessage v).length := by
  have hone : (intToDec 1).length = 1 := by decide
  simp only [getRESPArryOne, crlf, List.length_cons, List.length_append, List.length_nil, hone]
  omega

/-- A value that is stored has come in a command that is longer than the answer with it. -/
theorem short_of_set {c k v : Bytes} (hlen : (getRESPArry [c, k, v]).length < 2 ^ 31) :
    Short (getRESPArryOne v) := by
  have hc := length_lt_getStringMessage c
  have hk := length_lt_getStringMessage k
  simp only [getRESPArry, crlf, List.length_cons, List.length_append, List.length_nil,
    List.flatMap_cons, List.flatMap_nil] at hlen
  rw [short_iff, length_getRESPArryOne]
  omega

/-- As many keys as a command can name are counted in ten digits. -/
theorem short_count {n : Nat} (h : n < 2 ^ 31) : Short (getIntergerMessage n) := by
  have hdigits : (toDec n).length ≤ 10 := by
    rw [toDec, List.length_map, Nat.length_toDigits_le_iff (by norm_num) (by norm_num)]
    exact lt_of_lt_of_le h (by norm_num)
  rw [short_iff, getIntergerMessage, intToDec_natCast]
  simp only [crlf, List.length_cons, List.length_append, List.length_nil]
  omega

theorem short_error : Short getErrorMessage := short_iff.mpr (by decide)

theorem short_success : Short getSuccessMessage := short_iff.mpr (by decide)

theorem short_nil : Short (getRESPArryOne (ascii "nil")) := short_iff.mpr (by decide)

/-- A command that fits has a short answer and leaves short values. -/
theorem reference_short {m : KV} {task : List Bytes} (hm : ShortValues m)
    (hlen : (getRESPArry task).length < 2 ^ 31) :
    Short (reference m task).1 ∧ ShortValues (reference m task).2 := by
  have hcount := lt_trans (length_lt_getRESPArry task) hlen
  unfold reference
  split
  · exact ⟨short_error, hm⟩
  next c args =>
    split
    · split
      next k v =>
        refine ⟨short_success, ?_⟩
        intro k' v' hv
        have hv : Function.update m k (some v) k' = some v' := hv
        by_cases hk : k' = k
        · rw [hk, Function.update_self] at hv
          obtain rfl := Option.some.inj hv
          exact short_of_set hlen
        · rw [Function.update_of_ne hk] at hv
          exact hm k' v' hv
      · exact ⟨short_error, hm⟩
    · split
      · constructor
        · -- no key is counted twice
          have hle := (Finset.card_filter_le args.toFinset fun k => (m k).isSome).trans
            (List.toFinset_card_le args)
          rw [List.length_cons] at hcount
          exact short_count (by omega)
        · intro k v hv
          by_cases hk : k ∈ args
          · simp only [if_pos hk] at hv
            cases hv
          · simp only [if_neg hk] at hv
            exact hm k v hv
      · split
        · split
          next k =>
            refine ⟨?_, hm⟩
            cases hv : m k with
            | none => exact short_nil
            | some v => exact hm k v hv
          · exact ⟨short_error, hm⟩
        · exact ⟨short_error, hm⟩

theorem serve_short {tasks : List (List Bytes)} : ∀ {m : KV}, ShortValues m →
    (∀ task ∈ tasks, (getRESPArry task).length < 2 ^ 31) → ∀ rc ∈ serve m tasks, Short rc := by
  induction tasks with
  | nil =>
    intro m _ _ rc hrc
    cases hrc
  | cons task tasks ih =>
    intro m hm hlen rc hrc
    obtain ⟨hanswer, hvalues⟩ := reference_short hm (hlen task List.mem_cons_self)
    rcases List.mem_cons.mp hrc with rfl | hrc
    · exact hanswer
    · exact ih hvalues (fun task ht => hlen task (List.mem_cons_of_mem _ ht)) rc hrc

theorem length_serve (m : KV) (tasks : List (List Bytes)) : (serve m tasks).length = tasks.length := by
  induction tasks generalizing m with
  | nil => rfl
  | cons task tasks ih => exact congrArg (· + 1) (ih _)

/-! ## The client and the system -/

/-- What the client does: it waits for a line, its command is on its way, it waits for the reply, or
the reply is on its way. -/
inductive Desk where
  | typing
  | asked (t : Incoming)
  | waiting
  | replied (t : Incoming)

/-- The client and the system, with the lines that were typed and what was printed. -/
structure Session where
  c : Config
  desk : Desk
  typed : List Bytes
  printed : List Bytes

/-- The steps of the system in which the client takes no part. -/
def Label.Inside : Label → Prop
  | .accept _ => False
  | .refuse _ => False
  | .reply _ _ _ => False
  | _ => True

/-- A step of the client or of the system, in which nothing fails. -/
inductive Session.Step (pnum : Nat) : Session → Session → Prop
  | type {c : Config} {typed printed list : List Bytes} {line : Bytes} {t : Incoming} :
      split line 32 = some list → NoFail t → received t = sent (getRESPArry list) →
      Session.Step pnum ⟨c, .typing, typed, printed⟩ ⟨c, .asked t, typed ++ [line], printed⟩
  | accept {c c' : Config} {typed printed task : List Bytes} {t t' : Incoming} {heap : Nat → UInt8}
      {rc : Int} : recvCommand heap t = some (rc, task, t') →
      Config.Step Faults.none pnum c (.accept task) c' →
      Session.Step pnum ⟨c, .asked t, typed, printed⟩ ⟨c', .waiting, typed, printed⟩
  | refuse {c c' : Config} {typed printed task : List Bytes} {t t' r : Incoming}
      {heap : Nat → UInt8} {rc : Int} : recvCommand heap t = some (rc, task, t') →
      Config.Step Faults.none pnum c (.refuse task) c' →
      received r = sent (resultText getErrorMessage) →
      Session.Step pnum ⟨c, .asked t, typed, printed⟩ ⟨c', .replied r, typed, printed⟩
  | inside {c c' : Config} {desk : Desk} {typed printed : List Bytes} {l : Label} : l.Inside →
      Config.Step Faults.none pnum c l c' →
      Session.Step pnum ⟨c, desk, typed, printed⟩ ⟨c', desk, typed, printed⟩
  | reply {c c' : Config} {typed printed task : List Bytes} {txid : Nat} {rc : Bytes}
      {r : Incoming} : Config.Step Faults.none pnum c (.reply task txid rc) c' →
      received r = sent (resultText rc) →
      Session.Step pnum ⟨c, .waiting, typed, printed⟩ ⟨c', .replied r, typed, printed⟩
  | print {c : Config} {typed printed : List Bytes} {r : Incoming} {page : Bytes} :
      readResult r = some page →
      Session.Step pnum ⟨c, .replied r, typed, printed⟩ ⟨c, .typing, typed, printed ++ [page]⟩

/-- What the history `h` of the system has to do with the client. The commands are those of the lines
that were typed, and what was printed are the beginnings of the answers. -/
inductive Follows (h : History) : Session → Prop
  | typing {c : Config} {typed printed : List Bytes} : h.commands = typed.map words →
      h.answers.length = typed.length → List.Forall₂ Shown printed h.answers →
      Follows h ⟨c, .typing, typed, printed⟩
  | asked {c : Config} {typed printed : List Bytes} {line : Bytes} {t : Incoming} :
      h.commands = typed.map words → h.answers.length = typed.length →
      List.Forall₂ Shown printed h.answers → NoFail t →
      received t = sent (getRESPArry (words line)) →
      Follows h ⟨c, .asked t, typed ++ [line], printed⟩
  | waiting {c : Config} {typed printed : List Bytes} : h.commands = typed.map words →
      h.answers.length + 1 = typed.length → List.Forall₂ Shown printed h.answers →
      Follows h ⟨c, .waiting, typed, printed⟩
  | replied {c : Config} {typed printed answers : List Bytes} {rc : Bytes} {r : Incoming} :
      h.commands = typed.map words → h.answers = answers ++ [rc] →
      h.answers.length = typed.length → List.Forall₂ Shown printed answers →
      received r = sent (resultText rc) → Follows h ⟨c, .replied r, typed, printed⟩

section Session

variable {pnum : Nat} {s s' : Session} {h : History}

theorem Session.Step.typed (hs : Session.Step pnum s s') : s.typed <+: s'.typed := by
  cases hs with
  | type => exact List.prefix_append _ _
  | accept => exact List.prefix_rfl
  | refuse => exact List.prefix_rfl
  | inside => exact List.prefix_rfl
  | reply => exact List.prefix_rfl
  | print => exact List.prefix_rfl

theorem History.record_inside {l : Label} (hl : l.Inside) (h : History) : h.record l = h := by
  cases l with
  | accept => exact hl.elim
  | refuse => exact hl.elim
  | reply => exact hl.elim
  | internal => rfl
  | start => rfl
  | recover => rfl
  | recovered => rfl
  | restart => rfl

/-- The bytes of a command that fits arrive as one command. -/
theorem recvCommand_words {heap : Nat → UInt8} {line : Bytes} {t t' : Incoming} {rc : Int}
    {task : List Bytes} (hlen : (getRESPArry (words line)).length < 2 ^ 31) (hno : NoFail t)
    (ht : received t = sent (getRESPArry (words line)))
    (hrecv : recvCommand heap t = some (rc, task, t')) : task = words line := by
  rw [sent_eq hlen] at ht
  obtain ⟨t'', hread⟩ := recvCommand_of_received heap hlen hno ht
  rw [hread] at hrecv
  cases hrecv
  rfl

/-- Every step of the client and the system is one of the system's history, or none. -/
theorem Follows.step {x : Config × History} (hr : Served pnum x (s.c, h)) (hf : Follows h s)
    (hs : Session.Step pnum s s') (hfits : Fits (s'.typed.map words)) :
    ∃ h', Served pnum x (s'.c, h') ∧ Follows h' s' := by
  cases hs with
  | @type c typed printed list line t hsplit hno ht =>
    cases hf with
    | typing hcmd hlen hshown =>
      rw [split_eq] at hsplit
      obtain rfl := Option.some.inj hsplit
      exact ⟨h, hr, .asked hcmd hlen hshown hno ht⟩
  | accept hrecv hstep =>
    cases hf with
    | @asked _ typed printed line t hcmd hlen hshown hno ht =>
      have hline := hfits.length (words line) (by simp)
      obtain rfl := recvCommand_words hline hno ht hrecv
      refine ⟨_, hr.step hstep, .waiting ?_ ?_ hshown⟩
      · rw [History.record, hcmd, List.map_append]
        rfl
      · rw [History.record, List.length_append]
        exact congrArg (· + 1) hlen
  | refuse hrecv hstep hreply =>
    cases hf with
    | @asked _ typed printed line t hcmd hlen hshown hno ht =>
      have hline := hfits.length (words line) (by simp)
      obtain rfl := recvCommand_words hline hno ht hrecv
      refine ⟨_, hr.step hstep, .replied ?_ rfl ?_ hshown hreply⟩
      · rw [History.record, hcmd, List.map_append]
        rfl
      · rw [History.record, List.length_append, List.length_append]
        exact congrArg (· + 1) hlen
  | inside hl hstep =>
    have hr' := hr.step hstep
    rw [h.record_inside hl] at hr'
    refine ⟨h, hr', ?_⟩
    cases hf with
    | typing hcmd hlen hshown => exact .typing hcmd hlen hshown
    | asked hcmd hlen hshown hno ht => exact .asked hcmd hlen hshown hno ht
    | waiting hcmd hlen hshown => exact .waiting hcmd hlen hshown
    | replied hcmd hans hlen hshown ht => exact .replied hcmd hans hlen hshown ht
  | reply hstep hreply =>
    cases hf with
    | waiting hcmd hlen hshown =>
      refine ⟨_, hr.step hstep, .replied hcmd rfl ?_ hshown hreply⟩
      rw [History.record, List.length_append]
      exact hlen
  | print hpage =>
    cases hf with
    | replied hcmd hans hlen hshown ht =>
      obtain ⟨hne, hle, hpre⟩ := readResultLoop_sound _ _ _ hpage
      rw [ht, sent] at hpre
      refine ⟨h, hr, .typing hcmd hlen ?_⟩
      rw [hans]
      exact List.rel_append hshown (.cons ⟨hne, hle, hpre.trans (List.take_prefix _ _)⟩ .nil)

theorem Follows.run {x : Config × History} {s₀ : Session} {h₀ : History}
    (hr₀ : Served pnum x (s₀.c, h₀)) (hf₀ : Follows h₀ s₀)
    (hrun : ReflTransGen (Session.Step pnum) s₀ s) (hfits : Fits (s.typed.map words)) :
    ∃ h, Served pnum x (s.c, h) ∧ Follows h s := by
  induction hrun with
  | refl => exact ⟨h₀, hr₀, hf₀⟩
  | tail _ hs ih =>
    obtain ⟨h, hr, hf⟩ := ih (hfits.initial (hs.typed.map words))
    exact hf.step hr hs hfits

/-! ## Every line can be answered -/

theorem received_map_byte (bs : Bytes) : received (bs.map Event.byte) = bs := by
  induction bs with
  | nil => rfl
  | cons b bs ih => exact congrArg (b :: ·) ih

/-- While the client waits, the system goes on to the reply or has not replied. -/
theorem Session.waits {x y : Config × History} (hr : Served pnum x y)
    (hcmd : y.2.commands = x.2.commands) (typed printed : List Bytes) :
    (ReflTransGen (Session.Step pnum) ⟨x.1, .waiting, typed, printed⟩
        ⟨y.1, .waiting, typed, printed⟩ ∧ y.2.answers = x.2.answers) ∨
      ∃ c r, ReflTransGen (Session.Step pnum) ⟨x.1, .waiting, typed, printed⟩
        ⟨c, .replied r, typed, printed⟩ := by
  induction hr with
  | refl => exact .inl ⟨.refl, rfl⟩
  | @tail y z hr hs ih =>
    obtain ⟨l, hstep, heq⟩ := hs
    have hgrow : y.2.commands <+: z.2.commands := heq ▸ y.2.commands_grow l
    have hcmd' : y.2.commands = x.2.commands := by
      have hle := hgrow.length_le
      rw [hcmd] at hle
      exact ((Served.commands hr).eq_of_length_le hle).symm
    have hsame : (y.2.record l).commands.length = y.2.commands.length := by
      rw [← heq, hcmd, hcmd']
    rcases ih hcmd' with ⟨hrun, hans⟩ | hreply
    · by_cases hl : l.Inside
      · rw [History.record_inside hl] at heq
        exact .inl ⟨hrun.tail (.inside hl hstep), heq ▸ hans⟩
      · cases l with
        | accept => simp [History.record] at hsame
        | refuse => simp [History.record] at hsame
        | reply task txid rc =>
          refine .inr ⟨z.1, (sent (resultText rc)).map Event.byte, hrun.tail (.reply hstep ?_)⟩
          exact received_map_byte _
        | internal => exact (hl trivial).elim
        | start => exact (hl trivial).elim
        | recover => exact (hl trivial).elim
        | recovered => exact (hl trivial).elim
        | restart => exact (hl trivial).elim
    · exact .inr hreply

/-- What the system's history says about the client's answers. -/
theorem Follows.answers (hn : 1 ≤ pnum)
    (hr : Served pnum (Config.Started pnum, ⟨[], []⟩) (s.c, h)) (hf : Follows h s)
    (hfits : Fits (s.typed.map words)) :
    Fits h.commands ∧ (∃ done L, Serving pnum done L (s.c, h)) ∧
      h.answers <+: serve KV.empty (s.typed.map words) := by
  have hcmd : h.commands <+: s.typed.map words := by
    cases hf with
    | typing hcmd => exact hcmd ▸ List.prefix_rfl
    | asked hcmd =>
      rw [hcmd, List.map_append]
      exact List.prefix_append _ _
    | waiting hcmd => exact hcmd ▸ List.prefix_rfl
    | replied hcmd => exact hcmd ▸ List.prefix_rfl
  have hfits' := hfits.initial hcmd
  obtain ⟨done, L, hx⟩ := (serving_init fun _ => []).run hn hr hfits'
  refine ⟨hfits', ⟨done, L, hx⟩, hx.answers_initial.trans ?_⟩
  obtain ⟨more, hmore⟩ := hcmd
  rw [← hmore, serve_append]
  exact List.prefix_append _ _

/-- A reply that has come is printed. -/
theorem Session.prints (hn : 1 ≤ pnum) {c : Config} {r : Incoming} {typed printed : List Bytes}
    (hr : Served pnum (Config.Started pnum, ⟨[], []⟩) (c, h))
    (hf : Follows h ⟨c, .replied r, typed, printed⟩) (hfits : Fits (typed.map words)) :
    ∃ page, Session.Step pnum ⟨c, .replied r, typed, printed⟩
      ⟨c, .typing, typed, printed ++ [page]⟩ := by
  obtain ⟨-, -, hanswers⟩ := hf.answers hn hr hfits
  cases hf with
  | @replied _ _ _ answers rc _ hcmd hans hlen hshown ht =>
    have hshort : Short rc := by
      refine serve_short (m := KV.empty) ?_ hfits.length rc (hanswers.subset ?_)
      · intro k v hv
        cases hv
      · rw [hans]
        exact List.mem_append_right _ List.mem_cons_self
    have hsome : received r ≠ [] := by
      rw [ht, sent_eq hshort, resultText]
      exact List.append_ne_nil_of_right_ne_nil _ (List.cons_ne_nil _ _)
    obtain ⟨page, hpage⟩ := readResultLoop_some _ r (Nat.lt_succ_self _) hsome
    exact ⟨page, .print hpage⟩

/-- The client gets its reply and prints it. -/
theorem Session.answered (hn : 1 ≤ pnum) {c : Config} {typed printed : List Bytes}
    (hr : Served pnum (Config.Started pnum, ⟨[], []⟩) (c, h))
    (hf : Follows h ⟨c, .waiting, typed, printed⟩) (hfits : Fits (typed.map words)) :
    ∃ s', ReflTransGen (Session.Step pnum) ⟨c, .waiting, typed, printed⟩ s' ∧ s'.desk = .typing ∧
      s'.typed = typed := by
  obtain ⟨hfits', ⟨done, L, hx⟩, -⟩ := hf.answers hn hr hfits
  obtain ⟨⟨c', h'⟩, hr', hcmd', hidle, hnone⟩ := hx.completes hn hfits'
  have hcmd' : h'.commands = h.commands := hcmd'
  rcases Session.waits hr' hcmd' typed printed with ⟨-, hans⟩ | ⟨c', r, hrun⟩
  · -- at the end of the call all commands are answered
    have hans : h'.answers = h.answers := hans
    obtain ⟨done', L', hx'⟩ := hx.run hn hr' (hcmd' ▸ hfits')
    have hall := (hx'.quiet hidle hnone).2.1
    cases hf with
    | waiting hcmd hlen =>
      rw [hans, hcmd', hcmd] at hall
      have hcount := congrArg List.length hall
      rw [length_serve, List.length_map] at hcount
      omega
  · obtain ⟨h₁, hr₁, hf₁⟩ := hf.run hr hrun hfits
    obtain ⟨page, hprint⟩ := Session.prints hn hr₁ hf₁ hfits
    exact ⟨_, hrun.tail hprint, rfl, rfl⟩

/-- A command that is on its way is accepted. -/
theorem Session.accepted (hn : 1 ≤ pnum) {c : Config} {typed printed : List Bytes} {t : Incoming}
    (hr : Served pnum (Config.Started pnum, ⟨[], []⟩) (c, h))
    (hf : Follows h ⟨c, .asked t, typed, printed⟩) (hfits : Fits (typed.map words)) :
    ∃ c', Session.Step pnum ⟨c, .asked t, typed, printed⟩ ⟨c', .waiting, typed, printed⟩ := by
  obtain ⟨-, ⟨done, L, hx⟩, -⟩ := hf.answers hn hr hfits
  cases hf with
  | @asked _ typed _ line _ hcmd hlen hshown hno ht =>
    have hline := hfits.length (words line) (by simp)
    rw [sent_eq hline] at ht
    obtain ⟨t', hrecv⟩ := recvCommand_of_received (fun _ => 0) hline hno ht
    have hans : h.answers = serve KV.empty done := hx.answers
    have hphase := hx.phase
    have hstate := hx.normal.cstate
    have hcount : done.length = h.commands.length := by
      rw [hcmd, List.length_map, ← hlen, hans, length_serve]
    obtain ⟨s, a, k⟩ := c
    -- a call in progress would be a command without an answer
    generalize h.commands = commands at hphase hcount
    cases hphase with
    | idle => exact ⟨_, .accept hrecv (.accept id (words_ne_nil line) hstate)⟩
    | admitted =>
      rw [List.length_append, List.length_singleton] at hcount
      omega
    | work =>
      rw [List.length_append, List.length_singleton] at hcount
      omega

theorem Session.completes (hn : 1 ≤ pnum)
    (hr : Served pnum (Config.Started pnum, ⟨[], []⟩) (s.c, h)) (hf : Follows h s)
    (hfits : Fits (s.typed.map words)) :
    ∃ s', ReflTransGen (Session.Step pnum) s s' ∧ s'.desk = .typing ∧ s'.typed = s.typed := by
  obtain ⟨c, desk, typed, printed⟩ := s
  cases desk with
  | typing => exact ⟨_, .refl, rfl, rfl⟩
  | asked t =>
    obtain ⟨c', hs⟩ := Session.accepted hn hr hf hfits
    obtain ⟨h', hr', hf'⟩ := hf.step hr hs hfits
    obtain ⟨s', hrun, hdesk, htyped⟩ := Session.answered hn hr' hf' hfits
    exact ⟨s', hrun.head hs, hdesk, htyped⟩
  | waiting => exact Session.answered hn hr hf hfits
  | replied r =>
    obtain ⟨page, hs⟩ := Session.prints hn hr hf hfits
    exact ⟨_, .single hs, rfl, rfl⟩

end Session

end CloudLabs.KvStore
