import CloudLabs.KvStore.Agreement

/-!
# Restarts of the coordinator

`World` adds to a configuration whether a recovery run has returned since the coordinator process
began; until then no command is accepted (`Config.Cold`). An acknowledged update fixes the events up
to its number, and the key it sets, in every log (`Settles`). If the first recovery run of every
later process ends with a participant that holds the update, the coordinator's counter is above its
number before the next update starts, and every answered read of the key gives its value
(`acknowledged_update_survives`).

Without this a participant without memory may connect first: `acknowledged_update_lost`.
-/

set_option autoImplicit false

namespace CloudLabs.KvStore

open CloudLabs.Foundation

/-- A configuration; `first` says that no recovery run has returned since the coordinator process
began. -/
structure World where
  config : Config
  first : Bool

/-- A step of the system, or a restart of the coordinator. -/
inductive World.Step (F : Faults) (pnum : Nat) : World → Label → World → Prop
  | step {c c' : Config} {l : Label} {b : Bool} : Config.Step F pnum c l c' → l ≠ .recovered →
      World.Step F pnum ⟨c, b⟩ l ⟨c', b⟩
  | recovered {c c' : Config} {b : Bool} : Config.Step F pnum c .recovered c' →
      World.Step F pnum ⟨c, b⟩ .recovered ⟨c', false⟩
  | restart {c : Config} {b : Bool} : World.Step F pnum ⟨c, b⟩ .restart ⟨c.restart pnum, true⟩

/-- A run whose steps satisfy the condition. -/
def World.Run (F : Faults) (pnum : Nat) (ok : World → Label → Prop) : World → World → Prop :=
  Relation.ReflTransGen fun w w' => ∃ l, ok w l ∧ World.Step F pnum w l w'

def World.Init (pnum : Nat) : World := ⟨Config.Init pnum fun _ => Participant.Init, true⟩

theorem World.Run.mono {F : Faults} {pnum : Nat} {ok ok' : World → Label → Prop} {w w' : World}
    (h : World.Run F pnum ok w w') (hok : ∀ w l, ok w l → ok' w l) : World.Run F pnum ok' w w' := by
  induction h with
  | refl => exact Relation.ReflTransGen.refl
  | tail _ hs ih =>
      obtain ⟨l, hl, hstep⟩ := hs
      exact ih.tail ⟨l, hok _ l hl, hstep⟩

theorem World.run_of_config {F : Faults} {pnum : Nat} {ok : Config → Label → Prop} {c c' : Config}
    (h : Config.Run F pnum ok c c') (b : Bool) :
    ∃ b', World.Run F pnum (fun w l => ok w.config l) ⟨c, b⟩ ⟨c', b'⟩ := by
  induction h with
  | refl => exact ⟨b, Relation.ReflTransGen.refl⟩
  | tail _ hs ih =>
      obtain ⟨l, hok, hstep⟩ := hs
      obtain ⟨b', ih⟩ := ih
      by_cases hl : l = .recovered
      · subst hl
        exact ⟨false, ih.tail ⟨_, hok, .recovered hstep⟩⟩
      · exact ⟨b', ih.tail ⟨l, hok, .step hstep hl⟩⟩

/-! ## Before the first recovery run -/

/-- No command is accepted. -/
structure Config.Cold (c : Config) : Prop where
  cstate : c.sys.c.cstate = .C_RECOVERY
  admitted : c.admitted = none
  work : ¬ c.call.isWork
  rpc : ∀ pc, c.sys.rpc = pc → pc ≠ .released

section Cold

variable {F : Faults} {S : Setting} {c c' : Config} {l : Label}

theorem Config.Inv.step_cold (h : c.Inv S) (hs : Config.Step S.faults S.pnum c l c')
    (hl : l ≠ .recovered) (hcold : c.Cold) : c'.Cold := by
  obtain ⟨f, -, hcall⟩ := h
  obtain ⟨hst, hadm, hwork, hrpc⟩ := hcold
  cases hs with
  | env henv =>
      cases henv with
      | node _ => exact ⟨hst, hadm, hwork, hrpc⟩
      | connect _ _ _ => exact ⟨hst, hadm, hwork, hrpc⟩
      | enter _ => exact ⟨hst, hadm, hwork, fun _ heq => heq ▸ nofun⟩
      | begin _ _ => exact ⟨rfl, hadm, hwork, fun _ heq => heq ▸ nofun⟩
      | done hr => exact absurd rfl (hrpc _ hr)
  | accept _ _ hw => exact absurd (hst.symm.trans hw) nofun
  | refuse _ _ => exact ⟨hst, hadm, hwork, hrpc⟩
  | start => exact nomatch hadm
  | work _ => exact absurd trivial hwork
  | reply => exact absurd trivial hwork
  | recover _ => exact ⟨hst, hadm, id, fun _ heq => heq ▸ nofun⟩
  | recovery hop =>
      obtain ⟨hguar, -⟩ := Prog.wp_op _ _ _ hcall hop
      exact ⟨hguar.cstate.trans hst, hadm, id, fun pc heq => hrpc pc (hop.rpc.symm.trans heq)⟩
  | recovered => exact absurd rfl hl

theorem Config.cold_restart (pnum : Nat) (c : Config) : (c.restart pnum).Cold :=
  ⟨rfl, rfl, id, fun _ heq => heq ▸ nofun⟩

end Cold

/-! ## Commands on one key -/

/-- The command sets the key to a value, or deletes it. -/
def Sets (k : Bytes) (task : List Bytes) (v : Option Bytes) : Prop :=
  (∃ w, task = [ascii "SET", k, w] ∧ v = some w) ∨
    ∃ ks, task = ascii "DEL" :: ks ∧ k ∈ ks ∧ v = none

theorem applyEvent_of_sets {k : Bytes} {task : List Bytes} {v : Option Bytes} (h : Sets k task v)
    (hfit : (getRESPArry task).length < 2 ^ 31) (kv : KV) :
    applyEvent kv (getRESPArry task) k = v := by
  rw [applyEvent_getRESPArry kv hfit]
  rcases h with ⟨w, rfl, rfl⟩ | ⟨ks, rfl, hk, rfl⟩
  · rw [runComds_SET]
    simp [KV.kvSET]
  · rw [runComds_DEL]
    simp [KV.kvDELArry, KV.kvDELArryLoop_snd, hk]

theorem applyEvent_of_not_sets {k : Bytes} {task : List Bytes} (hup : IsUpdate task)
    (h : ∀ v, ¬ Sets k task v) (hfit : (getRESPArry task).length < 2 ^ 31) (kv : KV) :
    applyEvent kv (getRESPArry task) k = kv k := by
  rw [applyEvent_getRESPArry kv hfit]
  cases task with
  | nil => exact absurd hup (by decide)
  | cons c args =>
      rcases hup with hc | hc
      · obtain rfl : c = ascii "SET" := hc
        rw [runComds_SET]
        split
        · rename_i k' w
          have hne : k ≠ k' := by
            rintro rfl
            exact h (some w) (Or.inl ⟨w, rfl, rfl⟩)
          simp [KV.kvSET, hne]
        · rfl
      · obtain rfl : c = ascii "DEL" := hc
        rw [runComds_DEL]
        have hk : k ∉ args := fun hk => h none (Or.inr ⟨args, rfl, hk, rfl⟩)
        simp [KV.kvDELArry, KV.kvDELArryLoop_snd, hk]

/-- The events up to the number `T` are those of the sequence, and later ones leave the key
alone. -/
def Settles (L : Nat → Bytes) (T : Nat) (k : Bytes) (t : Nat) (e : Bytes) : Prop :=
  (t ≤ T → e = L t) ∧ (T < t → ∀ kv, applyEvent kv e k = kv k)

theorem foldl_applyEvent_of_leaves {k : Bytes} (es : List Bytes) :
    ∀ kv : KV, (∀ e ∈ es, ∀ kv : KV, applyEvent kv e k = kv k) →
      es.foldl applyEvent kv k = kv k := by
  induction es with
  | nil => exact fun _ _ => rfl
  | cons e es ih =>
      intro kv h
      rw [List.foldl_cons, ih _ fun e' he' => h e' (by simp [he']), h e (by simp)]

/-- The value of the key in the table of a participant that has the event. -/
theorem Participant.Within.value {L : Nat → Bytes} {T : Nat} {k : Bytes} {v : Option Bytes}
    {p : Participant} (h : p.Within (Settles L T k)) (hT : TXID_START ≤ T) (hlt : T < p.TXID)
    (hv : ∀ kv, applyEvent kv (L T) k = v) : p.kvdb k = v := by
  have hsplit : List.range' TXID_START (p.TXID - TXID_START) =
      List.range' TXID_START (T - TXID_START) ++ T :: List.range' (T + 1) (p.TXID - (T + 1)) := by
    have h₁ : p.TXID - TXID_START = (T - TXID_START) + (p.TXID - T) := by omega
    have h₂ : p.TXID - T = (p.TXID - (T + 1)) + 1 := by omega
    have h₃ : TXID_START + 1 * (T - TXID_START) = T := by omega
    rw [h₁, ← List.range'_append, h₂, h₃, List.range'_succ]
  have hlater : ∀ e ∈ (List.range' (T + 1) (p.TXID - (T + 1))).map
      (fun t => ((p.lg t).map Log.event).getD []), ∀ kv : KV, applyEvent kv e k = kv k := by
    intro e he
    obtain ⟨t, ht, rfl⟩ := List.mem_map.1 he
    rw [List.mem_range'_1] at ht
    obtain ⟨e₀, he₀, -⟩ := h.sound.lookup (t := t) (by omega) (by omega)
    rw [he₀]
    exact (h.logged t _ he₀).2 (by omega)
  obtain ⟨e₀, he₀, -⟩ := h.sound.lookup hT hlt
  have hevent : ((p.lg T).map Log.event).getD [] = L T := by
    rw [he₀]
    exact (h.logged T _ he₀).1 le_rfl
  rw [← h.sound.replayed, h.sound.events_eq_map, hsplit, List.map_append, List.map_cons, replay,
    List.foldl_append, List.foldl_cons, foldl_applyEvent_of_leaves _ _ hlater, hevent, hv]

/-! ## Runs up to the reply -/

section Before

variable {F : Faults} {pnum : Nat} {w w' : World} {l : Label}

/-- All logs are along one sequence. -/
def World.Along (F : Faults) (pnum : Nat) (w : World) : Prop :=
  (∃ L, w.config.Along F pnum L) ∧ (w.first = true → w.config.Cold)

theorem Config.Along.restart {L : Nat → Bytes} {c : Config} (h : c.Along F pnum L) :
    (c.restart pnum).Along F pnum L := by
  obtain ⟨R, hF, hB, ⟨f, hcore, -⟩, -⟩ := h.inv
  have hF' : F.Within fun t e => e = L t := fun id q hq => (hF id q hq).mono hB
  have hcore' : Core (Setting.run pnum hF' fun _ _ h => h) c.sys :=
    hcore.replace (by rfl) (fun _ hu => False.elim hu) hcore.committed
      fun id => (hcore.nodes id).clean
  exact ⟨⟨_, hF', fun _ _ h => h, Config.inv_restart (fun _ h => h) hcore', nofun⟩, h.away⟩

theorem World.Along.step (hinit : ∀ id q, F.fresh id q → q = Participant.Init)
    (h : w.Along F pnum) (hs : World.Step F pnum w l w') (hok : noneAhead pnum w.config l = true) :
    w'.Along F pnum := by
  obtain ⟨⟨L, hL⟩, hcold⟩ := h
  cases hs with
  | step hs hl =>
      obtain ⟨R, hF, hB, hinv, -⟩ := hL.inv
      exact ⟨hL.step hinit hs hok, fun hb => hinv.step_cold hs hl (hcold hb)⟩
  | recovered hs => exact ⟨hL.step hinit hs hok, nofun⟩
  | restart => exact ⟨⟨L, hL.restart⟩, fun _ => Config.cold_restart _ _⟩

theorem World.Along.run (hinit : ∀ id q, F.fresh id q → q = Participant.Init)
    (hr : World.Run F pnum (fun w l => noneAhead pnum w.config l = true) (World.Init pnum) w) :
    w.Along F pnum := by
  induction hr with
  | refl =>
      exact ⟨⟨fun _ => [], Config.along_init hinit _⟩,
    fun _ => Config.cold_restart pnum (World.Init pnum).config⟩
  | tail _ hs ih =>
      obtain ⟨l, hok, hstep⟩ := hs
      exact ih.step hinit hstep hok

end Before

/-! ## Runs after the reply -/

/-- An update with number `T` was acknowledged: it settles the key, and a process that has finished
a recovery run has counted it. -/
structure World.Acked (F : Faults) (pnum : Nat) (L : Nat → Bytes) (T : Nat) (k : Bytes) (w : World) :
    Prop where
  inv : ∃ hF : F.Within (Settles L T k), w.config.Inv (Setting.run pnum hF fun _ _ h => h)
  cold : w.first = true → w.config.Cold
  counted : w.first = false → T < w.config.sys.c.TXID
  call : ∀ task txid prog, w.config.call = .work task txid prog → T < txid

/-- What may happen after the reply: no update of the key is started, and the first recovery run of
every process ends with a participant that is connected and holds the update. -/
structure Reflects (k : Bytes) (T : Nat) (event : Bytes) (w : World) (l : Label) : Prop where
  start : ∀ task, l = .start task → IsUpdate task →
    (getRESPArry task).length < 2 ^ 31 ∧ ∀ v, ¬ Sets k task v
  recovered : l = .recovered → w.first = true → ∃ id, (w.config.sys.node id).alive = true ∧
    (w.config.sys.node id).part.lg T = some ⟨T, LogState.LOG_COMMIT, event⟩

section After

variable {F : Faults} {pnum : Nat} {L : Nat → Bytes} {T : Nat} {k event : Bytes} {w w' : World}
  {l : Label}

/-- After a recovery run the coordinator's counter is above the numbers that a connected participant
holds. -/
theorem Config.Inv.recovered_above {S : Setting} {c c' : Config} (h : c.Inv S)
    (hs : Config.Step S.faults S.pnum c .recovered c') {id : Nat}
    (ha : (c.sys.node id).alive = true) (hl : ((c.sys.node id).part.lg T).isSome) :
    T < c'.sys.c.TXID := by
  obtain ⟨f, -, hcall⟩ := h
  cases hs with
  | @recovered s a =>
      obtain ⟨T', hs⟩ : Recovered (S.since f) s := hcall
      obtain ⟨hsync, htemp⟩ := hs.peers id
      have hok := hs.core.nodes id
      obtain ⟨hk, hst⟩ := hok.alive ha
      have hwork : (s.c.p id).pstate = .P_WORKING := by
        rcases hst with h | h | h
        · exact absurd h htemp
        · exact h
        · exact absurd h hsync.state
      have htx := hsync.txid hwork hk
      have hT' : s.c.TXID = T' := hs.global
      have hlt := ((hok.within.sound.keys T).1 hl).2
      show T < s.c.TXID
      omega

theorem World.Acked.step (h : w.Acked F pnum L T k) (hs : World.Step F pnum w l w')
    (hok : Reflects k T event w l) : w'.Acked F pnum L T k := by
  obtain ⟨⟨hF, hinv⟩, hcold, hcount, hcall⟩ := h
  cases hs with
  | @restart c b =>
      -- the restarted coordinator begins with an empty memory, the participants keep theirs
      obtain ⟨f, hcore, -⟩ := hinv
      have hcore' : Core (Setting.run pnum hF fun _ _ h => h) c.sys :=
        hcore.replace (by rfl) (fun _ hu => False.elim hu) hcore.committed
          fun id => (hcore.nodes id).clean
      exact ⟨⟨hF, Config.inv_restart (fun _ h => h) hcore'⟩, fun _ => Config.cold_restart _ _, nofun,
        nofun⟩
  | @recovered c c' b hs =>
      -- a participant with the update has brought the coordinator beyond its number
      refine ⟨⟨hF, hinv.step hs (fun _ h => nomatch h) id⟩, nofun, fun _ => ?_, ?_⟩
      · cases b with
        | false => exact (hcount rfl).trans_le (hinv.grows hs).txid_le
        | true =>
            obtain ⟨id, ha, hl⟩ := hok.recovered rfl rfl
            exact hinv.recovered_above hs ha (by rw [hl]; rfl)
      · cases hs with
        | recovered => exact nofun
  | @step c c' l b hs hl =>
      -- an update is started with a number above that of the acknowledged one
      have hadmits : ∀ task, l = .start task →
          Admits (Setting.run pnum hF fun _ _ h => h) c.sys.c.TXID task := by
        rintro task rfl
        refine ⟨fun hup => ?_, fun _ hu => hu.elim⟩
        have hlt : T < c.sys.c.TXID := by
          cases b with
          | false => exact hcount rfl
          | true =>
              cases hs with
              | start => exact nomatch (hcold rfl).admitted
        obtain ⟨hfit, hnot⟩ := hok.start task rfl hup
        exact ⟨fun hle => absurd hle (Nat.not_le.2 hlt),
          fun _ kv => applyEvent_of_not_sets hup hnot hfit kv⟩
      refine ⟨⟨hF, ?_⟩, fun hb => hinv.step_cold hs hl (hcold hb),
        fun hb => (hcount hb).trans_le (hinv.grows hs).txid_le, fun task txid prog heq => ?_⟩
      · by_cases hrep : l.isReply
        · exact hinv.step_reply hs hrep
        · exact hinv.step hs hadmits hrep
      · rcases hs.working heq with ⟨prog', hbefore⟩ | ⟨-, hadmitted, rfl⟩
        · exact hcall task txid prog' hbefore
        · cases b with
          | false => exact hcount rfl
          | true => exact nomatch (hcold rfl).admitted.symm.trans hadmitted

theorem World.Acked.run (h : w.Acked F pnum L T k)
    (hr : World.Run F pnum (Reflects k T event) w w') : w'.Acked F pnum L T k := by
  induction hr with
  | refl => exact h
  | tail _ hs ih =>
      obtain ⟨l, hok, hstep⟩ := hs
      exact ih.step hstep hok

/-- The reply to an update that succeeded. -/
theorem World.Along.acked (hinit : ∀ id q, F.fresh id q → q = Participant.Init)
    (h : w.Along F pnum) {task : List Bytes} {rc : Bytes}
    (hs : World.Step F pnum w (.reply task T rc) w') (hup : IsUpdate task)
    (hrc : rc ≠ getErrorMessage) :
    TXID_START ≤ T ∧ ∃ L, getRESPArry task = L T ∧ w'.Acked F pnum L T k := by
  obtain ⟨⟨L, hL⟩, hcold⟩ := h
  obtain ⟨R, hF, hB, hinv, hlt⟩ := hL.inv
  cases hs with
  | @step c c' l b hs hl =>
      cases hs with
      | @reply s a task txid rc =>
          obtain ⟨f, hcore, hwork⟩ := hinv
          have hR := hlt _ _ _ rfl hup
          have hno : b = true → False := fun hb => (hcold hb).work trivial
          rcases hwork with ⟨-, hb, ⟨-, h⟩ | ⟨h, -⟩⟩ | ⟨hget, -⟩ | ⟨hn, -⟩
          · obtain ⟨htx, hacc, y, hy, hrep⟩ := h.global
            have hT : TXID_START ≤ T := hrep.txid ▸ hrep.within.sound.start_le
            have hF' : F.Within (Settles L T k) := within_of_init hinit _
            have hset : ∀ t e, (Setting.extend _ hb).rel t e → Settles L T k t e := by
              rintro t e (h | ⟨rfl, rfl⟩)
              · exact ⟨fun _ => hB t e h, fun hlt => absurd (hR t e h) (Nat.lt_asymm hlt)⟩
              · exact ⟨fun _ => hb, fun hlt => absurd hlt (Nat.lt_irrefl _)⟩
            have hq : Quiet ((Setting.run pnum hF' fun _ _ h => h).since f) s :=
              Quiet.replace (S := Setting.extend _ hb) ⟨T + 1, h.core, h.mutex, htx, h.peers⟩ rfl rfl
                rfl (h.core.committed.mono hset) fun id => (h.core.nodes id).clean.mono hset
            refine ⟨hT, L, hb, ⟨hF', f, ?_, hq⟩, fun hb => (hno hb).elim, fun _ => ?_, nofun⟩
            · obtain ⟨T', hs'⟩ := hq
              exact hs'.core.loose
            · have htx' : s.c.TXID = T + 1 := htx
              show T < s.c.TXID
              omega
          · exact absurd h hrc
          · rcases hup with h | h <;> exact absurd (hget.symm.trans h) (by decide)
          · exact absurd hup hn

end After

/-- **Acknowledged updates survive restarts of the coordinator.** Let an update of a key be answered
with a success message in a run in which no update was started while a participant was ahead, and
let no later update set the key. If the first recovery run of every later coordinator process ends
with a participant that is connected and holds the update, every read of the key that is answered
without an error gives the value of the update. -/
theorem acknowledged_update_survives {F : Faults}
    (hinit : ∀ id q, F.fresh id q → q = Participant.Init) {pnum : Nat} {w₁ w₂ w₃ w₄ : World}
    {task : List Bytes} {k rc rc' : Bytes} {v : Option Bytes} {txid txid' : Nat}
    (hsets : Sets k task v) (hfit : (getRESPArry task).length < 2 ^ 31)
    (hfit' : (getRESPArry [ascii "GET", k]).length < 2 ^ 31)
    (hr₁ : World.Run F pnum (fun w l => noneAhead pnum w.config l = true) (World.Init pnum) w₁)
    (hs : World.Step F pnum w₁ (.reply task txid rc) w₂) (hrc : rc ≠ getErrorMessage)
    (hr₂ : World.Run F pnum (Reflects k txid (getRESPArry task)) w₂ w₃)
    (hs' : World.Step F pnum w₃ (.reply [ascii "GET", k] txid' rc') w₄)
    (hrc' : rc' ≠ getErrorMessage) :
    rc' = getRESPArryOne (v.getD (ascii "nil")) := by
  have hup : IsUpdate task := by
    rcases hsets with ⟨w, rfl, -⟩ | ⟨ks, rfl, -⟩
    · exact Or.inl rfl
    · exact Or.inr rfl
  obtain ⟨hT, L, hevent, hacked⟩ := (World.Along.run hinit hr₁).acked (k := k) hinit hs hup hrc
  obtain ⟨⟨hF, hinv⟩, -, -, hcall⟩ := hacked.run hr₂
  cases hs' with
  | step hs' _ =>
      cases hs' with
      | reply =>
          obtain ⟨f, hcore, hwork⟩ := hinv
          rcases hwork with ⟨hup', -⟩ | ⟨-, -, ⟨y, hy, hrep⟩ | ⟨h, -⟩⟩ | ⟨-, -, h, -⟩
          · exact absurd hup' (by simp [IsUpdate, ascii])
          · rw [hrep.read (hcore.hist y hy) hfit', runComds_GET]
            dsimp only
            rw [KV.kvGET, hrep.within.value hT (by rw [hrep.txid]; exact hcall _ _ _ rfl)
              (hevent ▸ applyEvent_of_sets hsets hfit)]
          · exact absurd h hrc'
          · exact absurd h hrc'

/-- The updated key is read back by the next process, whose first recovery run asks a participant
that holds the update. -/
def readsBack (c : Config) : Label → Bool
  | .start task => !decide (IsUpdate task)
  | .recovered => (c.sys.node 1).alive &&
      decide ((c.sys.node 1).part.lg 5 = some ⟨5, LogState.LOG_COMMIT, getRESPArry setCmd⟩)
  | _ => true

theorem reflects_of_readsBack {w : World} {l : Label} (h : readsBack w.config l = true) :
    Reflects (ascii "k") 5 (getRESPArry setCmd) w l where
  start task hl hup := by
    subst hl
    simp [readsBack, hup] at h
  recovered hl _ := by
    subst hl
    simp only [readsBack, Bool.and_eq_true, decide_eq_true_eq] at h
    exact ⟨1, h⟩

theorem acknowledged_update_survives_restart :
    ∃ w₁ w₂ w₃ w₄ rc,
      World.Step (Faults.any fun _ => true) 1 w₁ (.reply setCmd 5 getSuccessMessage) w₂ ∧
      World.Run (Faults.any fun _ => true) 1 (Reflects (ascii "k") 5 (getRESPArry setCmd)) w₂ w₃ ∧
      World.Step (Faults.any fun _ => true) 1 w₃ (.reply getCmd 6 rc) w₄ ∧
      rc = getRESPArryOne (ascii "v") := by
  have hrun : ¬ Act.isRun .reply := id
  obtain ⟨c₁, l, c₂, hr₁, hs₁, rfl, hrest⟩ := Config.exec_next (fun _ => true) 1 (noneAhead 1)
    (joinActs 1 ++ [.accept setCmd, .start, .run 100 []]) (Config.Init 1 fun _ => Participant.Init)
    hrun
    (fun _ l c => l = .reply setCmd 5 getSuccessMessage ∧
      ((c.restart 1).exec (fun _ => true) 1 readsBack
        (joinActs 1 ++ [.accept getCmd, .start, .run 100 []])).any (fun c₃ =>
          (c₃.next (fun _ => true) 1 .reply).any fun r =>
            decide (r.1 = .reply getCmd 6 (getRESPArryOne (ascii "v")))) = true)
    (by decide +kernel)
  obtain ⟨c₃, l, c₄, hr₂, hs₂, rfl⟩ := Config.exec_next (fun _ => true) 1 readsBack _ _ hrun
    (fun _ l _ => l = .reply getCmd 6 (getRESPArryOne (ascii "v"))) hrest
  obtain ⟨b₁, hr₁⟩ := World.run_of_config hr₁ true
  obtain ⟨b₂, hr₂⟩ := World.run_of_config hr₂ true
  have hr₁' : World.Run _ 1 (fun w l => noneAhead 1 w.config l = true) (World.Init 1) ⟨c₁, b₁⟩ :=
    hr₁.mono fun w l hl => by
      rcases hl with rfl | hl
      · rfl
      · exact hl
  have hr₂' : World.Run _ 1 (Reflects (ascii "k") 5 (getRESPArry setCmd)) ⟨c₂, b₁⟩ ⟨c₃, b₂⟩ :=
    Relation.ReflTransGen.head ⟨.restart, ⟨nofun, nofun⟩, .restart⟩ <| hr₂.mono fun w l hl => by
      rcases hl with rfl | hl
      · exact ⟨nofun, nofun⟩
      · exact reflects_of_readsBack hl
  have hw₁ : World.Step _ 1 ⟨c₁, b₁⟩ _ ⟨c₂, b₁⟩ := .step hs₁ nofun
  have hw₂ : World.Step _ 1 ⟨c₃, b₂⟩ _ ⟨c₄, b₂⟩ := .step hs₂ nofun
  have hinit : ∀ id q, (Faults.any fun _ => true).fresh id q → q = Participant.Init :=
    fun _ _ hq => hq.2
  have hread := acknowledged_update_survives hinit (Or.inl ⟨ascii "v", rfl, rfl⟩) (by decide) (by decide)
    hr₁' hw₁ getSuccessMessage_ne_error hr₂' hw₂ (by decide)
  exact ⟨_, _, _, _, _, hw₁, hr₂', hw₂, hread⟩

/-- No update is started. -/
def noUpdate (_ : Config) : Label → Bool
  | .start task => !decide (IsUpdate task)
  | _ => true

/-- Both participants apply the update. The second one restarts and is the first to reconnect to the
new coordinator process, and the key is not found, although the first one has never restarted. -/
theorem acknowledged_update_lost :
    ∃ w₁ w₂ w₃ w₄,
      World.Run (Faults.any fun id => decide (id ≠ 1)) 2 (fun _ _ => True) (World.Init 2) w₁ ∧
      World.Step (Faults.any fun id => decide (id ≠ 1)) 2 w₁ (.reply setCmd 5 getSuccessMessage) w₂ ∧
      (w₂.config.sys.node 1).part.kvdb (ascii "k") = some (ascii "v") ∧
      World.Run (Faults.any fun id => decide (id ≠ 1)) 2
        (fun _ l => ∀ task, l = .start task → ¬ IsUpdate task) w₂ w₃ ∧
      World.Step (Faults.any fun id => decide (id ≠ 1)) 2 w₃
        (.reply getCmd 5 (getRESPArryOne (ascii "nil"))) w₄ := by
  have hrun : ¬ Act.isRun .reply := id
  obtain ⟨c₁, l, c₂, hr₁, hs₁, rfl, hkv, hrest⟩ :=
    Config.exec_next (fun id => decide (id ≠ 1)) 2 (fun _ _ => true)
    ([.connect 1] ++ joinActs 2 ++ [.accept setCmd, .start, .run 100 []])
    (Config.Init 2 fun _ => Participant.Init) hrun
    (fun _ l c => l = .reply setCmd 5 getSuccessMessage ∧
      (c.sys.node 1).part.kvdb (ascii "k") = some (ascii "v") ∧
      ((c.restart 2).exec (fun id => decide (id ≠ 1)) 2 noUpdate
        ([.restart 2] ++ joinActs 2 ++ [.accept getCmd, .start, .run 100 []])).any (fun c₃ =>
          (c₃.next (fun id => decide (id ≠ 1)) 2 .reply).any fun r =>
            decide (r.1 = .reply getCmd 5 (getRESPArryOne (ascii "nil")))) = true)
    (by decide +kernel)
  obtain ⟨c₃, l, c₄, hr₂, hs₂, rfl⟩ := Config.exec_next _ 2 noUpdate _ _ hrun
    (fun _ l _ => l = .reply getCmd 5 (getRESPArryOne (ascii "nil"))) hrest
  obtain ⟨b₁, hr₁⟩ := World.run_of_config hr₁ true
  obtain ⟨b₂, hr₂⟩ := World.run_of_config hr₂ true
  have hr₂' : World.Run _ 2 (fun _ l => ∀ task, l = .start task → ¬ IsUpdate task) ⟨c₂, b₁⟩
      ⟨c₃, b₂⟩ :=
    Relation.ReflTransGen.head ⟨.restart, nofun, .restart⟩ <| hr₂.mono fun w l hl task heq hup => by
      subst heq
      simp [noUpdate, hup] at hl
  exact ⟨_, _, _, _, hr₁.mono fun _ _ _ => trivial, .step hs₁ nofun, hkv, hr₂', .step hs₂ nofun⟩

end CloudLabs.KvStore
