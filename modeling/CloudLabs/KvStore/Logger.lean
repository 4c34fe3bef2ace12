import CloudLabs.KvStore.Parser

/-!
# Log records and the logger

A `Log` holds a transaction number, a state and an event. `logToStr` writes it as three fields;
`strToLog` finds the first two by the first occurrence of their markers and takes the rest of the
text as the event. `strToLog_logToStr`: reading a written record gives the record back, for every
event, with the number cut off at the largest `long`.

`Logger` keeps one record for each transaction number in memory.
-/

set_option autoImplicit false

namespace CloudLabs.KvStore

open CloudLabs.Foundation

/-- `TXID_START`: the first transaction number of an update. -/
def TXID_START : Nat := 5

/-- `SUPER_TXID`: the number of a read request. -/
def SUPER_TXID : Nat := 0

/-- `RECOVERY_TXID`: the number of a request for the participant's largest number. -/
def RECOVERY_TXID : Nat := 1

/-- `ASK_DATA_TXID`: the number of a request for one log record. -/
def ASK_DATA_TXID : Nat := 2

/-- `logState`: an enumeration over `uint8_t`, which may hold any code. -/
structure LogState where
  code : UInt8
  deriving DecidableEq

def LogState.INVALID : LogState := ⟨0⟩
def LogState.LOG_PRE : LogState := ⟨1⟩
def LogState.LOG_COMMIT : LogState := ⟨2⟩
def LogState.LOG_ABORT : LogState := ⟨3⟩

/-- A log record. -/
structure Log where
  ID : Nat
  state : LogState
  event : Bytes
  deriving DecidableEq

/-- `Log::changeState`. -/
def Log.changeState (l : Log) (newState : LogState) : Log := { l with state := newState }

/-- `size_t` subtraction. -/
def subSize (a b : Nat) : Nat := if b ≤ a then a - b else a + 2 ^ 64 - b

/-- `Log::logToStr`. -/
def Log.logToStr (l : Log) : Bytes :=
  ascii "TXID: " ++ toDec l.ID ++ crlf ++ (ascii "S: " ++ toDec l.state.code.toNat ++
    (crlf ++ crlf ++ l.event))

/-- `Log::strToLog`; `none` is a failed assertion or an offset past the end of the text. -/
def strToLog (str : Bytes) : Option Log := do
  let start ← find (ascii "TXID: ") str
  let stop ← find crlf str
  let sID ← substr str (start + 6) (subSize (subSize stop start) 6)
  let str ← substrFrom str (stop + 2)
  let start ← find (ascii "S: ") str
  let stop ← find crlf str
  let sState ← substr str (start + 3) (subSize (subSize stop start) 3)
  let event ← substrFrom str (stop + 4)
  pure ⟨toUInt64 (strtol sID), ⟨UInt8.ofInt (strtol sState)⟩, event⟩

/-! ## Reading a written record -/

theorem find_crlf_append {text : Bytes} (h : (13 : UInt8) ∉ text) (rest : Bytes) :
    find crlf (text ++ crlf ++ rest) = some text.length :=
  find_append_of_notMem 13 [10] text rest h

theorem cr_notMem_field {marker : Bytes} (h : (13 : UInt8) ∉ marker) (n : Nat) :
    (13 : UInt8) ∉ marker ++ toDec n := by
  rw [List.mem_append, not_or]
  exact ⟨h, notMem_toDec (by decide) n⟩

/-- The first line of a text `marker ++ number ++ crlf ++ rest`: where the marker and the line end
are found, and the number cut out between them. -/
theorem field_of_marker {marker : Bytes} (h : (13 : UInt8) ∉ marker) (n : Nat) (rest : Bytes) :
    let str := marker ++ toDec n ++ crlf ++ rest
    find marker str = some 0 ∧ find crlf str = some (marker.length + (toDec n).length) ∧
      substr str marker.length (toDec n).length = some (toDec n) ∧
      substrFrom str (marker.length + (toDec n).length + 2) = some rest := by
  intro str
  have hassoc : str = marker ++ (toDec n ++ (crlf ++ rest)) := by simp [str]
  refine ⟨?_, ?_, ?_, ?_⟩
  · rw [hassoc]; exact find_self _ _
  · rw [← List.length_append]; exact find_crlf_append (cr_notMem_field h n) rest
  · rw [hassoc, substr_append, List.take_left]
  · have hlen : marker.length + (toDec n).length + 2 = (marker ++ toDec n ++ crlf).length := by
      simp [crlf, Nat.add_assoc]
    rw [hlen]
    exact substrFrom_append _ rest

/-- Reading a written record: the number is cut off at the largest `long`, the state and the event
come back unchanged. -/
theorem strToLog_logToStr (l : Log) :
    strToLog l.logToStr = some ⟨min longMax l.ID, l.state, l.event⟩ := by
  have hTXID : (13 : UInt8) ∉ ascii "TXID: " := by decide
  have hS : (13 : UInt8) ∉ ascii "S: " := by decide
  obtain ⟨h1, h2, h3, h4⟩ := field_of_marker hTXID l.ID
    (ascii "S: " ++ toDec l.state.code.toNat ++ (crlf ++ crlf ++ l.event))
  obtain ⟨h5, h6, h7, h8⟩ := field_of_marker hS l.state.code.toNat (crlf ++ l.event)
  have hlen1 : (ascii "TXID: ").length = 6 := by decide
  have hlen2 : (ascii "S: ").length = 3 := by decide
  have hbody : ascii "S: " ++ toDec l.state.code.toNat ++ (crlf ++ crlf ++ l.event) =
      ascii "S: " ++ toDec l.state.code.toNat ++ crlf ++ (crlf ++ l.event) := by simp
  rw [hlen1] at h2 h3 h4
  rw [hlen2] at h6 h7
  have hwidth1 : subSize (subSize (6 + (toDec l.ID).length) 0) 6 = (toDec l.ID).length := by
    simp [subSize]
  have hwidth2 : subSize (subSize (3 + (toDec l.state.code.toNat).length) 0) 3 =
      (toDec l.state.code.toNat).length := by
    simp [subSize]
  have hevent : substrFrom (ascii "S: " ++ toDec l.state.code.toNat ++ crlf ++ (crlf ++ l.event))
      (3 + (toDec l.state.code.toNat).length + 4) = some l.event := by
    have hsplit : ascii "S: " ++ toDec l.state.code.toNat ++ crlf ++ (crlf ++ l.event) =
        (ascii "S: " ++ toDec l.state.code.toNat ++ crlf ++ crlf) ++ l.event := by simp
    have hlen : 3 + (toDec l.state.code.toNat).length + 4 =
        (ascii "S: " ++ toDec l.state.code.toNat ++ crlf ++ crlf).length := by
      simp only [List.length_append, hlen2, crlf, List.length_cons, List.length_nil]
    rw [hsplit, hlen]
    exact substrFrom_append _ _
  have hID : toUInt64 (strtol (toDec l.ID)) = min longMax l.ID := by
    simpa using toUInt64_strtol_toDec l.ID [] endsDigits_nil
  have hstate : UInt8.ofInt (strtol (toDec l.state.code.toNat)) = l.state.code := by
    have hlt := l.state.code.toNat_lt
    have hread := strtol_toDec (n := l.state.code.toNat) (by omega) [] endsDigits_nil
    rw [List.append_nil] at hread
    have hmod : ((l.state.code.toNat : Int) % 2 ^ 8).toNat = l.state.code.toNat := by omega
    rw [hread, UInt8.ofInt, hmod, UInt8.ofNat_toNat]
  rw [strToLog, Log.logToStr]
  simp only [h1, h2, Option.bind_eq_bind, Option.bind_some, Nat.zero_add, hwidth1, h3, h4]
  rw [hbody]
  simp only [h5, h6, Option.bind_some, Nat.zero_add, hwidth2, h7, hevent, hID, hstate]
  rfl

/-- Records with numbers below `2 ^ 63` come back unchanged. -/
theorem strToLog_logToStr_of_lt {l : Log} (h : l.ID < 2 ^ 63) : strToLog l.logToStr = some l := by
  rw [strToLog_logToStr, longMax, Nat.min_eq_right (by omega)]

/-- Different records have different texts, whatever their numbers. -/
theorem logToStr_injective {l l' : Log} (h : l.logToStr = l'.logToStr) : l = l' := by
  have hread := congrArg strToLog h
  rw [strToLog_logToStr, strToLog_logToStr, Option.some.injEq, Log.mk.injEq] at hread
  have hID : l.ID = l'.ID := by
    have hscan (l : Log) : scanDigits 0 (l.logToStr.drop 6) = l.ID := by
      have htext : l.logToStr.drop 6 = toDec l.ID ++ (crlf ++ (ascii "S: " ++
          toDec l.state.code.toNat ++ (crlf ++ crlf ++ l.event))) := by
        simp [Log.logToStr, ascii]
      rw [htext]
      exact scanDigits_toDec _ _ (endsDigits_cons (by decide) _)
    rw [← hscan l, ← hscan l', h]
  cases l
  cases l'
  simp_all

theorem logToStr_ne_nil (l : Log) : l.logToStr ≠ [] := by
  intro h
  have hlen := congrArg List.length h
  simp [Log.logToStr, ascii] at hlen

/-! ## The logger -/

/-- `Logger`: the records by transaction number. -/
abbrev Logger := Nat → Option Log

/-- The logger of a new process. -/
def Logger.empty : Logger := fun _ => none

/-- `Logger::writeLog` of a record. -/
def Logger.writeLog (lg : Logger) (l : Log) : Logger := Function.update lg l.ID (some l)

/-- `Logger::chageLogState`; `none` is its failed assertion. -/
def Logger.chageLogState (lg : Logger) (ID : Nat) (newState : LogState) : Option Logger :=
  match lg ID with
  | none => none
  | some l => some (Function.update lg ID (some (l.changeState newState)))

/-- `Logger::getLogByTXID`; `none` is its failed assertion. -/
def Logger.getLogByTXID (lg : Logger) (ID : Nat) : Option Log := lg ID

@[simp] theorem Logger.writeLog_self (lg : Logger) (l : Log) : lg.writeLog l l.ID = some l := by
  simp [Logger.writeLog]

theorem Logger.writeLog_of_ne (lg : Logger) (l : Log) {t : Nat} (h : t ≠ l.ID) :
    lg.writeLog l t = lg t := by
  simp [Logger.writeLog, h]

end CloudLabs.KvStore
