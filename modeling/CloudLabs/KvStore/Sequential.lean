import CloudLabs.KvStore.ErrorReply
import Mathlib.Data.Finset.Card

/-!
# Runs in which nothing fails

`reference` is one map that processes commands. Where all participants are connected and nothing
fails, the answers to the clients are those of this map and every participant holds it between two
commands (`answers_of_reference_map`).

Each call's triple says which participant answered (`Worked`); the participant's table is the replay
of the events so far (`Serving`). A participant reads numbers as `long`s, so this ends at `2 ^ 63`:
`reference_map_ends`.
-/

set_option autoImplicit false

namespace CloudLabs.KvStore

open CloudLabs.Foundation

/-! ## The reference map -/

/-- What the map answers to a command, and the map afterwards. -/
def reference (m : KV) : List Bytes → Bytes × KV
  | [] => (getErrorMessage, m)
  | c :: args =>
      if c = ascii "SET" then
        match args with
        | [k, v] => (getSuccessMessage, Function.update m k (some v))
        | _ => (getErrorMessage, m)
      else if c = ascii "DEL" then
        (getIntergerMessage (args.toFinset.filter fun k => (m k).isSome).card,
          fun k => if k ∈ args then none else m k)
      else if c = ascii "GET" then
        match args with
        | [k] => (getRESPArryOne ((m k).getD (ascii "nil")), m)
        | _ => (getErrorMessage, m)
      else (getErrorMessage, m)

/-- The answers to a sequence of commands. -/
def serve : KV → List (List Bytes) → List Bytes
  | _, [] => []
  | m, task :: tasks => (reference m task).1 :: serve (reference m task).2 tasks

/-- The map after a sequence of commands. -/
def after (m : KV) (tasks : List (List Bytes)) : KV :=
  tasks.foldl (fun m task => (reference m task).2) m

theorem serve_append (m : KV) (tasks tasks' : List (List Bytes)) :
    serve m (tasks ++ tasks') = serve m tasks ++ serve (after m tasks) tasks' := by
  induction tasks generalizing m with
  | nil => rfl
  | cons task tasks ih => simp [serve, after, ih]

theorem serve_concat (m : KV) (tasks : List (List Bytes)) (task : List Bytes) :
    serve m (tasks ++ [task]) = serve m tasks ++ [(reference (after m tasks) task).1] :=
  serve_append m tasks [task]

theorem after_concat (m : KV) (tasks : List (List Bytes)) (task : List Bytes) :
    after m (tasks ++ [task]) = (reference (after m tasks) task).2 := by
  simp [after]

/-- Every key that is present is counted once. -/
theorem KV.kvDELArryLoop_fst (ks : List Bytes) : ∀ (kv : KV) (n : Int),
    (kv.kvDELArryLoop ks n).1 = n + (ks.toFinset.filter fun k => (kv k).isSome).card := by
  induction ks with
  | nil => intro kv n; simp [KV.kvDELArryLoop]
  | cons k ks ih =>
      intro kv n
      rw [KV.kvDELArryLoop, ih, List.toFinset_cons, Finset.filter_insert]
      cases hk : kv k with
      | none =>
          have hdel : kv.kvDEL k = (KV_DEL, kv) := by simp [KV.kvDEL, hk]
          simp [hdel, KV_DEL, KV_OK]
      | some v =>
          have hdel : kv.kvDEL k = (KV_OK, Function.update kv k none) := by simp [KV.kvDEL, hk]
          have hrest : (ks.toFinset.filter fun j => (Function.update kv k none j).isSome) =
              (ks.toFinset.filter fun j => (kv j).isSome).erase k := by
            ext j
            by_cases hj : j = k
            · simp [hj]
            · simp [hj]
          have hcard : (insert k (ks.toFinset.filter fun j => (kv j).isSome)).card =
              ((ks.toFinset.filter fun j => (kv j).isSome).erase k).card + 1 := by
            rw [← Finset.card_erase_add_one (Finset.mem_insert_self k _), Finset.erase_insert_eq_erase]
          simp only [hdel, if_true, Option.isSome_some, hrest, hcard]
          push_cast
          ring

/-- A participant answers the commands the coordinator lets through as the map does. -/
theorem runComds_eq_reference (m : KV) {task : List Bytes}
    (h : IsUpdate task ∨ task.headD [] = ascii "GET") : runComds m task = reference m task := by
  cases task with
  | nil => rcases h with (h | h) | h <;> exact absurd h (by decide)
  | cons c args =>
      rcases h with (h | h) | h
      · obtain rfl : c = ascii "SET" := h
        rw [runComds_SET]
        rfl
      · obtain rfl : c = ascii "DEL" := h
        rw [runComds_DEL]
        refine Prod.ext ?_ (funext fun k => ?_)
        · simp [reference, KV.kvDELArry, KV.kvDELArryLoop_fst, ascii]
        · simp [reference, KV.kvDELArry, KV.kvDELArryLoop_snd, ascii]
      · obtain rfl : c = ascii "GET" := h
        rw [runComds_GET]
        rfl

theorem reference_of_other (m : KV) {task : List Bytes} (hup : ¬ IsUpdate task)
    (hget : task.headD [] ≠ ascii "GET") : reference m task = (getErrorMessage, m) := by
  cases task with
  | nil => rfl
  | cons c args =>
      obtain ⟨hset, hdel⟩ := not_or.1 hup
      exact (if_neg hset).trans ((if_neg hdel).trans (if_neg hget))

/-- The command takes a number: a `SET` with three words or a `DEL`. -/
def Effective : List Bytes → Bool
  | [] => false
  | c :: args => decide (c = ascii "SET" ∧ args.length = 2) || decide (c = ascii "DEL")

theorem effective_iff {task : List Bytes} : Effective task = true ↔ IsUpdate task ∧ Runnable task := by
  cases task with
  | nil => simp [Effective, Runnable]
  | cons c args =>
      simp only [Effective, Bool.or_eq_true, decide_eq_true_eq, IsUpdate, List.headD_cons]
      constructor
      · rintro (⟨rfl, hlen⟩ | rfl)
        · exact ⟨Or.inl rfl, Or.inr (Or.inl ⟨rfl, hlen⟩)⟩
        · exact ⟨Or.inr rfl, Or.inl rfl⟩
      · rintro ⟨rfl | rfl, hrun⟩
        · refine Or.inl ⟨rfl, ?_⟩
          rcases hrun with h | ⟨-, h⟩ | ⟨h, -⟩ | h
          · exact absurd h (by decide)
          · exact h
          · exact absurd h (by decide)
          · exact absurd h (by decide)
        · exact Or.inr rfl

theorem accepted_getRESPArry {task : List Bytes} (hfit : (getRESPArry task).length < 2 ^ 31) :
    Accepted (getRESPArry task) ↔ Runnable task := by
  constructor
  · rintro ⟨cs, hcs, hrun⟩
    obtain rfl : task = cs := Option.some.inj ((comds_getRESPArry hfit).symm.trans hcs)
    exact hrun
  · exact fun hrun => ⟨task, comds_getRESPArry hfit, hrun⟩

/-! ## Runs in which nothing fails -/

/-- The setting of a run in which nothing happens to the participants; the events are those of `L`
below the number `T`. -/
def Setting.spared (pnum T : Nat) (L : Nat → Bytes) : Setting where
  faults := Faults.none
  steady id := id ∈ pids pnum
  first _ := 0
  rel t e := t < T ∧ e = L t
  bound _ _ := True
  pnum := pnum
  rel_bound _ _ _ := trivial
  fresh_within _ _ h := h.elim
  steady_choice _ _ _ h := h
  steady_drop _ _ h := h
  steady_fresh _ _ _ h := h

/-- All participants are new, connected and in the working state, under a new coordinator in the
working state. -/
def Config.Started (pnum : Nat) : Config where
  sys :=
    { c := { Coordinator.Init pnum with
        cstate := .C_WORKING
        p := fun id => Entry.Init (if id ∈ pids pnum then .P_WORKING else .P_INVALID) }
      node := fun id => ⟨Participant.Init, none, decide (id ∈ pids pnum), true⟩
      hist := []
      aborted := false
      rpc := .idle }
  admitted := none
  call := .idle

/-- What the clients have sent, and the answers they got. -/
structure History where
  commands : List (List Bytes)
  answers : List Bytes

/-- The history after a step. A command is refused with the error message. -/
def History.record (h : History) : Label → History
  | .accept task => { h with commands := h.commands ++ [task] }
  | .refuse task => ⟨h.commands ++ [task], h.answers ++ [getErrorMessage]⟩
  | .reply _ _ rc => { h with answers := h.answers ++ [rc] }
  | _ => h

/-- A run with its history. -/
def Served (pnum : Nat) : Config × History → Config × History → Prop :=
  Relation.ReflTransGen fun x y =>
    ∃ l, Config.Step Faults.none pnum x.1 l y.1 ∧ y.2 = x.2.record l

theorem History.commands_grow (h : History) (l : Label) :
    h.commands <+: (h.record l).commands := by
  cases l <;> simp [History.record]

/-- The number of the next update after a sequence of commands. -/
def numberAfter (tasks : List (List Bytes)) : Nat := TXID_START + tasks.countP Effective

/-- No recovery run is due. -/
structure Normal (s : Sys) : Prop where
  cstate : s.c.cstate = .C_WORKING
  tmpNum : s.c.tmpNum = 0
  rpc : s.rpc = .idle ∨ ∃ m, s.rpc = .entered m

/-- Where the processing of the last command is; the commands before it are done, and the next
number is `T`. -/
inductive Phase (T : Nat) (done : List (List Bytes)) : Config → List (List Bytes) → Prop
  | idle {s : Sys} : s.c.TXID = T → Phase T done ⟨s, none, .idle⟩ done
  | admitted {s : Sys} {task : List Bytes} : s.c.TXID = T →
      Phase T done ⟨s, some task, .idle⟩ (done ++ [task])
  | work {s : Sys} {task : List Bytes} {p : Proc Bytes} :
      Phase T done ⟨s, none, .work task T p⟩ (done ++ [task])

/-- The answers to the commands that are done are those of the reference map, and the events in the
logs lead to this map. -/
structure Serving (pnum : Nat) (done : List (List Bytes)) (L : Nat → Bytes) (x : Config × History) :
    Prop where
  inv : x.1.Inv (Setting.spared pnum (numberAfter done) L)
  table : replay (upTo L (numberAfter done)) = after KV.empty done
  answers : x.2.answers = serve KV.empty done
  normal : Normal x.1.sys
  phase : Phase (numberAfter done) done x.1 x.2.commands

section Serving

variable {pnum T : Nat} {L : Nat → Bytes} {S : Setting} {c c' : Config} {l : Label}

/-- A recovery run does not begin. -/
theorem Config.Inv.normal (h : c.Inv S) (hall : ∀ id ∈ pids S.pnum, S.steady id)
    (hs : Config.Step S.faults S.pnum c l c') (hcall : ∀ p, c.call ≠ .recover p)
    (hn : Normal c.sys) : Normal c'.sys := by
  obtain ⟨f, hcore, hok⟩ := h
  obtain ⟨hst, htmp, hrpc⟩ := hn
  have hnot {pc : RecoveryPc} {s : Sys} (h : s.rpc = .idle ∨ ∃ m, s.rpc = .entered m)
      (heq : s.rpc = pc) (h₁ : pc ≠ .idle) (h₂ : ∀ m, pc ≠ .entered m) : False := by
    rcases h with h | ⟨m, h⟩
    · exact h₁ (heq.symm.trans h)
    · exact h₂ m (heq.symm.trans h)
  cases hs with
  | env henv =>
      cases henv with
      | node _ => exact ⟨hst, htmp, hrpc⟩
      | @connect id _ hw _ =>
          by_cases hid : id ∈ pids S.pnum
          · have hnode := hcore.nodes id
            rcases (hnode.alive (hnode.steady (hall id hid))).2 with h | h | h <;>
              exact absurd (hw.symm.trans h) nofun
          · exact absurd (hw.symm.trans (hcore.outside id hid)) nofun
      | enter _ => exact ⟨hst, htmp, Or.inr ⟨_, rfl⟩⟩
      | begin _ hne => exact absurd htmp hne
      | done heq => exact (hnot hrpc heq nofun nofun).elim
  | accept _ _ _ => exact ⟨hst, htmp, hrpc⟩
  | refuse _ _ => exact ⟨hst, htmp, hrpc⟩
  | start => exact ⟨hst, htmp, hrpc⟩
  | work hop =>
      obtain ⟨hguar, -⟩ := Prog.wp_op _ _ _ hok hop
      exact ⟨hguar.cstate.trans hst, Nat.le_zero.1 (htmp ▸ hguar.tmpNum_le), hop.rpc ▸ hrpc⟩
  | reply => exact ⟨hst, htmp, hrpc⟩
  | recover heq => exact (hnot hrpc heq nofun nofun).elim
  | recovery _ => exact absurd rfl (hcall _)
  | recovered => exact absurd rfl (hcall _)

/-- Between two calls every participant holds the map. -/
theorem Quiet.table {s : Sys} {f : Nat → Nat} (h : Quiet ((Setting.spared pnum T L).since f) s)
    {id : Nat} (hid : id ∈ pids pnum) : (s.node id).part.kvdb = replay (upTo L s.c.TXID) := by
  obtain ⟨T', h⟩ := h
  have hnode := h.core.nodes id
  have hst : (s.c.p id).pstate = .P_WORKING := (h.peers id).steady hid
  have htx := (h.peers id).txid hst (hnode.alive (hnode.steady hid)).1
  have hglobal : s.c.TXID = T' := h.global
  rw [(hnode.within.mono fun _ _ h => h.2).kvdb_eq, htx, hglobal]

theorem upTo_update {e : Bytes} (hT : TXID_START ≤ T) :
    upTo (Function.update L T e) (T + 1) = upTo L T ++ [e] := by
  have hsub : T + 1 - TXID_START = (T - TXID_START) + 1 := by omega
  have hlast : TXID_START + 1 * (T - TXID_START) = T := by omega
  rw [upTo, upTo, hsub, List.range'_concat, hlast, List.map_append, List.map_singleton,
    Function.update_self]
  refine congrArg (· ++ [e]) (List.map_congr_left fun t ht => ?_)
  rw [List.mem_range'_1] at ht
  exact Function.update_of_ne (by omega) _ _

/-- What is left after the call for a command. -/
structure Answered (pnum T : Nat) (L : Nat → Bytes) (f : Nat → Nat) (task : List Bytes) (rc : Bytes)
    (s : Sys) : Prop where
  reply : rc = (reference (replay (upTo L T)) task).1
  next : ∃ T' L', T' = T + (if Effective task then 1 else 0) ∧
    Quiet ((Setting.spared pnum T' L').since f) s ∧ s.c.TXID = T' ∧
    replay (upTo L' T') = (reference (replay (upTo L T)) task).2

/-- The table of a participant that was asked during the call. -/
theorem Exch.IsReply.table {y : Exch} {task rc : Bytes}
    (h : y.IsReply (fun t e => t < T ∧ e = L t) T task rc) :
    y.before.kvdb = replay (upTo L T) := by
  rw [(h.within.mono fun _ _ h => h.2).kvdb_eq, h.txid]

/-- The call for a command does what the reference map does. -/
theorem Worked.answered {f : Nat → Nat} {task : List Bytes} {rc : Bytes} {s : Sys} (hn : 1 ≤ pnum)
    (hT : TXID_START ≤ T) (hfit : (getRESPArry task).length < 2 ^ 31)
    (hlt : Effective task = true → T < 2 ^ 63) (hcore : Core ((Setting.spared pnum T L).since f).loose s)
    (h : Worked ((Setting.spared pnum T L).since f) T task rc s) : Answered pnum T L f task rc s := by
  have hone : 1 ∈ pids pnum := List.mem_range'_1.2 ⟨le_rfl, by omega⟩
  have heff : Effective task = true ↔ IsUpdate task ∧ Accepted (getRESPArry task) := by
    rw [effective_iff, accepted_getRESPArry hfit]
  have hcases := h
  rcases hcases with ⟨hup, hb, ⟨hne, hs⟩ | ⟨hrc, hs, hclean, hidle⟩⟩ | ⟨hget, hs, hres⟩ |
    ⟨hup, hget, hrc, hs⟩
  · -- an update that succeeded
    obtain ⟨htx, hacc, y, hy, hrep⟩ := hs.global
    have hT' : T < 2 ^ 63 := hlt (heff.2 ⟨hup, hacc⟩)
    have href := runComds_eq_reference (replay (upTo L T)) (Or.inl hup)
    have hmono : ∀ t e, (Setting.extend _ hb).rel t e →
        t < T + 1 ∧ e = Function.update L T (getRESPArry task) t := by
      rintro t e (⟨ht, rfl⟩ | ⟨rfl, rfl⟩)
      · exact ⟨by omega, (Function.update_of_ne (Nat.ne_of_lt ht) _ _).symm⟩
      · exact ⟨Nat.lt_succ_self _, by simp⟩
    refine ⟨?_, T + 1, Function.update L T (getRESPArry task), ?_, ?_, htx, ?_⟩
    · rw [hrep.commit (hcore.hist y hy) hT hT' hfit, hrep.table, href]
    · rw [if_pos (heff.2 ⟨hup, hacc⟩)]
    · exact Quiet.replace (S := Setting.extend _ hb)
        ⟨T + 1, hs.core, hs.mutex, hs.global.1, hs.peers⟩ rfl rfl rfl (hs.core.committed.mono hmono)
        fun id => (hs.core.nodes id).clean.mono hmono
    · rw [upTo_update hT, replay_concat, applyEvent_getRESPArry _ hfit, href]
  · -- an update that was refused: its event is not accepted
    have hacc : ¬ Accepted (getRESPArry task) := fun hacc =>
      hidle hacc (hlt (heff.2 ⟨hup, hacc⟩)) 1 hone ((hs.peers 1).steady hone)
    have hneff : Effective task ≠ true := fun he => hacc (heff.1 he).2
    have href : reference (replay (upTo L T)) task = (getErrorMessage, replay (upTo L T)) := by
      rw [← runComds_eq_reference _ (Or.inl hup),
        runComds_of_not_runnable _ ((accepted_getRESPArry hfit).not.1 hacc)]
    have hq := (h.calm fun _ hl => hacc hl.accepted).resolve_right fun h' => h'.1 hrc
    exact ⟨by rw [href, hrc], T, L, by rw [if_neg hneff, Nat.add_zero], hq, hs.global, by rw [href]⟩
  · -- a read
    have hneff : Effective task ≠ true := fun he => by
      rcases (heff.1 he).1 with h | h <;> exact absurd (hget.symm.trans h) (by decide)
    have href := runComds_eq_reference (replay (upTo L T)) (Or.inr hget)
    have hkv : (runComds (replay (upTo L T)) task).2 = replay (upTo L T) := by
      have := readOnly_of_get hget (replay (upTo L T))
      rwa [applyEvent_getRESPArry _ hfit] at this
    refine ⟨?_, T, L, by rw [if_neg hneff, Nat.add_zero], ⟨T, hs⟩, hs.global, by rw [← href, hkv]⟩
    rcases hres with ⟨y, hy, hrep⟩ | ⟨-, hall⟩
    · rw [hrep.read (hcore.hist y hy) hfit, hrep.table, href]
    · exact absurd ((hs.peers 1).steady hone) (hall 1 hone)
  · -- no command of the store
    have hneff : Effective task ≠ true := fun he => hup (heff.1 he).1
    have href := reference_of_other (replay (upTo L T)) hup hget
    exact ⟨by rw [href, hrc], T, L, by rw [if_neg hneff, Nat.add_zero], ⟨T, hs⟩, hs.global, by rw [href]⟩

theorem numberAfter_concat (done : List (List Bytes)) (task : List Bytes) :
    numberAfter (done ++ [task]) = numberAfter done + (if Effective task then 1 else 0) := by
  simp [numberAfter, List.countP_cons, Nat.add_assoc]

theorem start_le_numberAfter (done : List (List Bytes)) : TXID_START ≤ numberAfter done :=
  Nat.le_add_right _ _

/-- The commands have encodings that fit into an `int`, and the updates among them get numbers that
fit into a `long`. -/
structure Fits (tasks : List (List Bytes)) : Prop where
  length : ∀ task ∈ tasks, (getRESPArry task).length < 2 ^ 31
  number : numberAfter tasks ≤ 2 ^ 63

theorem Fits.initial {tasks tasks' : List (List Bytes)} (h : Fits tasks') (hp : tasks <+: tasks') :
    Fits tasks := by
  refine ⟨fun task ht => h.length task (hp.subset ht), le_trans ?_ h.number⟩
  exact Nat.add_le_add_left (hp.sublist.countP_le (p := Effective)) _

/-- At the end of a call the command is done. -/
theorem Serving.reply {done : List (List Bytes)} {task : List Bytes} {txid : Nat} {rc : Bytes}
    {s : Sys} {a : Option (List Bytes)} {h : History} (hn : 1 ≤ pnum)
    (hx : Serving pnum done L (⟨s, a, .work task txid (.ret rc)⟩, h))
    (hfit : (getRESPArry task).length < 2 ^ 31)
    (hlt : Effective task = true → numberAfter done < 2 ^ 63) :
    h.commands = done ++ [task] ∧
      ∃ L', Serving pnum (done ++ [task]) L' (⟨s, a, .idle⟩, h.record (.reply task txid rc)) := by
  obtain ⟨⟨f, hcore, hwork⟩, htable, hans, hnorm, hphase⟩ := hx
  generalize hk : h.commands = commands at hphase
  cases hphase with
  | work =>
      obtain ⟨hreply, T', L', hT', hq, htx, htable'⟩ :=
        Worked.answered hn (start_le_numberAfter done) hfit hlt hcore hwork
      rw [htable] at hreply htable'
      rw [← numberAfter_concat] at hT'
      subst hT'
      refine ⟨rfl, L', ⟨f, Core.loose ?_, hq⟩, ?_, ?_, hnorm, ?_⟩
      · obtain ⟨T'', hs⟩ := hq
        exact hs.core
      · rw [htable', after_concat]
      · rw [serve_concat, ← hreply, ← hans]
        rfl
      · show Phase _ _ _ h.commands
        rw [hk]
        exact .idle htx

/-- Every step keeps the state of the processing; a reply needs a number that fits. -/
theorem Serving.step {done : List (List Bytes)} {h : History} (hn : 1 ≤ pnum)
    (hx : Serving pnum done L (c, h)) (hs : Config.Step Faults.none pnum c l c')
    (hlength : ∀ task ∈ (h.record l).commands, (getRESPArry task).length < 2 ^ 31)
    (hnumber : l.isReply → numberAfter h.commands ≤ 2 ^ 63) :
    ∃ done' L', Serving pnum done' L' (c', h.record l) := by
  have hnormal := hx.inv.normal (fun _ hid => hid) hs
  have hstep := hx.inv.step hs
  obtain ⟨s, a, k⟩ := c
  obtain ⟨hinv, htable, hans, hnorm, hphase⟩ := hx
  generalize hk : h.commands = commands at hphase
  have hkeep {c' : Config} (hinv' : c'.Inv (Setting.spared pnum (numberAfter done) L))
      (hnorm' : Normal c'.sys) (hphase' : Phase (numberAfter done) done c' commands) :
      ∃ done' L', Serving pnum done' L' (c', h) :=
    ⟨done, L, hinv', htable, hans, hnorm', hk ▸ hphase'⟩
  have hbegun {m : Nat} (heq : s.rpc = .begun m) : False := by
    rcases hnorm.rpc with h | ⟨m', h⟩ <;> exact absurd (heq.symm.trans h) nofun
  cases hphase with
  | idle htx =>
      cases hs with
      | env henv =>
          exact hkeep (hstep (fun _ h => nomatch h) id) (hnormal nofun hnorm) (.idle (henv.txid.trans htx))
      | @accept s k task _ _ _ =>
          refine ⟨done, L, hstep (fun _ h => nomatch h) id, htable, hans, hnormal nofun hnorm, ?_⟩
          show Phase _ _ _ (h.commands ++ [task])
          rw [hk]
          exact .admitted htx
      -- only the empty command is refused, and it changes nothing
      | @refuse s k task _ hor =>
          obtain rfl : task = [] := hor.resolve_right fun h => h hnorm.cstate
          have hnum : numberAfter (done ++ [[]]) = numberAfter done := by
            rw [numberAfter_concat]
            rfl
          refine ⟨done ++ [[]], L, ?_, ?_, ?_, hnorm, ?_⟩
          · rw [hnum]
            exact hinv
          · rw [hnum, after_concat, ← htable]
            rfl
          · rw [serve_concat, ← hans]
            rfl
          · show Phase _ _ _ (h.commands ++ [[]])
            rw [hk]
            exact .idle (htx.trans hnum.symm)
      | recover heq => exact (hbegun heq).elim
  | @admitted s task htx =>
      cases hs with
      | env henv =>
          exact hkeep (hstep (fun _ h => nomatch h) id) (hnormal nofun hnorm)
            (.admitted (henv.txid.trans htx))
      | start =>
          have hfit : (getRESPArry task).length < 2 ^ 31 :=
            hlength task (by simp [History.record, hk])
          have hadmits : Admits (Setting.spared pnum (numberAfter done) L) s.c.TXID task :=
            ⟨fun _ => trivial, fun _ _ => by rw [comds_getRESPArry hfit]; nofun⟩
          refine hkeep (hstep (fun task' heq => ?_) id) (hnormal nofun hnorm) ?_
          · cases heq
            exact hadmits
          · rw [htx]
            exact .work
      | recover heq => exact (hbegun heq).elim
  | @work s task p =>
      have hmem : task ∈ (h.record l).commands := (h.commands_grow l).subset (by simp [hk])
      cases hs with
      | env _ => exact hkeep (hstep (fun _ h => nomatch h) id) (hnormal nofun hnorm) .work
      | work _ => exact hkeep (hstep (fun _ h => nomatch h) id) (hnormal nofun hnorm) .work
      | accept hw _ _ => exact absurd trivial hw
      | refuse hw _ => exact absurd trivial hw
      -- with the reply, the command is one that is done
      | @reply s a task txid rc =>
          have hnum : numberAfter (done ++ [task]) ≤ 2 ^ 63 := hk ▸ hnumber trivial
          obtain ⟨-, L', hx'⟩ := Serving.reply (h := h) hn ⟨hinv, htable, hans, hnorm, hk ▸ .work⟩
            (hlength task hmem) fun he => by
              rw [numberAfter_concat, if_pos he] at hnum
              omega
          exact ⟨_, L', hx'⟩

/-- Before the first command. -/
theorem serving_init (L : Nat → Bytes) : Serving pnum [] L (Config.Started pnum, ⟨[], []⟩) := by
  have hst (id : Nat) : ((Config.Started pnum).sys.c.p id).pstate =
      if id ∈ pids pnum then .P_WORKING else .P_INVALID := rfl
  have hcore : Core ((Setting.spared pnum (numberAfter []) L).since fun _ => TXID_START)
      (Config.Started pnum).sys := by
    have hbound : TXID_START ≤ 2 ^ 63 := by decide
    refine ⟨rfl, ⟨le_rfl, hbound, fun t h₁ h₂ => absurd h₁ (Nat.not_le.2 h₂)⟩, ?_, fun id => ?_,
      fun id hid => (hst id).trans (if_neg hid), nofun,
      fun h₁ y h₂ heq => by simp [Config.Started] at heq, fun id _ => ⟨le_rfl, rfl⟩⟩
    · rintro m (hm | hm) <;> exact nomatch hm
    · refine ⟨Participant.within_init _, nofun, fun ha => ⟨rfl, Or.inr (Or.inl ?_)⟩,
        fun hid => decide_eq_true hid⟩
      exact (hst id).trans (if_pos (of_decide_eq_true ha))
  refine ⟨⟨_, hcore.loose, TXID_START, hcore, iff_of_false nofun nofun, rfl, fun id => ?_⟩, ?_, rfl,
    ⟨rfl, rfl, Or.inl rfl⟩, .idle rfl⟩
  · refine ⟨?_, fun _ _ => rfl, fun hid => (hst id).trans (if_pos hid)⟩
    rw [hst id]
    split <;> nofun
  · simp [numberAfter, upTo, replay, after]

theorem Served.step {x : Config × History} {h : History} (hr : Served pnum x (c, h))
    (hs : Config.Step Faults.none pnum c l c') : Served pnum x (c', h.record l) :=
  hr.tail ⟨l, hs, rfl⟩

theorem Served.commands {x y : Config × History} (h : Served pnum x y) :
    x.2.commands <+: y.2.commands := by
  induction h with
  | refl => exact List.prefix_refl _
  | tail _ hs ih =>
      obtain ⟨l, -, heq⟩ := hs
      rw [heq]
      exact ih.trans (History.commands_grow _ l)

theorem Serving.run {x y : Config × History} {done : List (List Bytes)} (hn : 1 ≤ pnum)
    (hx : Serving pnum done L x) (hr : Served pnum x y) (hfits : Fits y.2.commands) :
    ∃ done' L', Serving pnum done' L' y := by
  induction hr with
  | refl => exact ⟨done, L, hx⟩
  | @tail y z _ hs ih =>
      obtain ⟨l, hstep, heq⟩ := hs
      have hpre : y.2.commands <+: z.2.commands := heq ▸ y.2.commands_grow l
      obtain ⟨done', L', hy⟩ := ih (hfits.initial hpre)
      have hz := hy.step hn hstep (heq ▸ hfits.length) fun _ => (hfits.initial hpre).number
      rwa [← heq] at hz

/-- The operations of a call do not show in the history. -/
theorem Served.of_steps {p p' : Proc Bytes} {s s' : Sys} {a : Option (List Bytes)} {task : List Bytes}
    {T : Nat} {h : History}
    (hr : Relation.ReflTransGen (Prog.Step (Sys.Step Faults.none) (Env Faults.none)) (p, s) (p', s')) :
    Served pnum (⟨s, a, .work task T p⟩, h) (⟨s', a, .work task T p'⟩, h) := by
  refine hr.lift (fun x => ((⟨x.2, a, .work task T x.1⟩, h) : Config × History)) fun x y hs => ?_
  cases hs with
  | op hop => exact ⟨.internal, .work hop, rfl⟩
  | env henv => exact ⟨.internal, .env henv, rfl⟩

/-- A call returns. -/
theorem Serving.returns {done : List (List Bytes)} {task : List Bytes} {T : Nat} {p : Proc Bytes}
    {s : Sys} {a : Option (List Bytes)} {h : History}
    (hx : Serving pnum done L (⟨s, a, .work task T p⟩, h)) :
    ∃ s' rc f, Served pnum (⟨s, a, .work task T p⟩, h) (⟨s', a, .work task T (.ret rc)⟩, h) ∧
      Worked ((Setting.spared pnum (numberAfter done) L).since f) T task rc s' := by
  obtain ⟨⟨f, -, hwork⟩, -⟩ := hx
  have hact (o : Op) (s : Sys) :
      Sys.Step Faults.none o s (s.perform .answer o).1 (s.perform .answer o).2 :=
    Sys.perform_step (fun _ => rfl) o s
  obtain ⟨rc, s', hrun, hpost⟩ :=
    Prog.wp_run (fun o s => Sys.perform .answer o s) _ _ _ id hact p s hwork
  have hsteps := Prog.steps_of_run (fun o s => Sys.perform .answer o s) _ (Env Faults.none) id hact p s
    rc s' hrun
  exact ⟨s', rc, f, Served.of_steps hsteps, hpost⟩

/-- A command that was sent is answered. -/
theorem Serving.completes {done : List (List Bytes)} {x : Config × History} (hn : 1 ≤ pnum)
    (hx : Serving pnum done L x) (hfits : Fits x.2.commands) :
    ∃ y, Served pnum x y ∧ y.2.commands = x.2.commands ∧ y.1.call = .idle ∧ y.1.admitted = none := by
  have hwork {s : Sys} {h : History} {done : List (List Bytes)} {task : List Bytes} {T : Nat}
      {L : Nat → Bytes} {p : Proc Bytes} (hx : Serving pnum done L (⟨s, none, .work task T p⟩, h)) :
      ∃ y, Served pnum (⟨s, none, .work task T p⟩, h) y ∧ y.2.commands = h.commands ∧
        y.1.call = .idle ∧ y.1.admitted = none := by
    obtain ⟨s', rc, -, hr, -⟩ := hx.returns
    exact ⟨(⟨s', none, .idle⟩, h.record (.reply task T rc)), hr.step .reply, rfl, rfl, rfl⟩
  obtain ⟨c, h⟩ := x
  have hphase := hx.phase
  generalize hk : h.commands = commands at hphase
  cases hphase with
  | idle _ => exact ⟨_, Relation.ReflTransGen.refl, hk, rfl, rfl⟩
  | @admitted s task _ =>
      have hs : Config.Step Faults.none pnum ⟨s, some task, .idle⟩ (.start task) _ := .start
      obtain ⟨done', L', hx'⟩ := hx.step hn hs hfits.length fun h => h.elim
      obtain ⟨y, hr, hy⟩ := hwork hx'
      exact ⟨y, Relation.ReflTransGen.head ⟨_, hs, rfl⟩ hr, hy.imp_left fun h => h.trans hk⟩
  | work =>
      obtain ⟨y, hr, hy⟩ := hwork hx
      exact ⟨y, hr, hy.imp_left fun h => h.trans hk⟩

/-- The next command can be sent. -/
theorem Serving.accepts {done : List (List Bytes)} {c : Config} {h : History}
    (hx : Serving pnum done L (c, h)) (hidle : c.call = .idle) (hnone : c.admitted = none)
    (task : List Bytes) : ∃ c' h', Served pnum (c, h) (c', h') ∧ h'.commands = h.commands ++ [task] := by
  obtain ⟨s, a, k⟩ := c
  obtain rfl : k = .idle := hidle
  obtain rfl : a = none := hnone
  by_cases ht : task = []
  · exact ⟨_, _, Relation.ReflTransGen.single ⟨_, .refuse id (Or.inl ht), rfl⟩, rfl⟩
  · exact ⟨_, _, Relation.ReflTransGen.single ⟨_, .accept id ht hx.normal.cstate, rfl⟩, rfl⟩

/-- What is known when no command is in progress. -/
theorem Serving.quiet {done : List (List Bytes)} {c : Config} {h : History}
    (hx : Serving pnum done L (c, h)) (hidle : c.call = .idle) (hnone : c.admitted = none) :
    c.sys.c.TXID = numberAfter h.commands ∧ h.answers = serve KV.empty h.commands ∧
      ∀ id ∈ pids pnum, (c.sys.node id).part.kvdb = after KV.empty h.commands := by
  obtain ⟨⟨f, -, hcall⟩, htable, hans, -, hphase⟩ := hx
  generalize h.commands = commands at hphase
  cases hphase with
  | idle htx => exact ⟨htx, hans, fun id hid => by rw [Quiet.table hcall hid, htx, htable]⟩
  | admitted _ => exact nomatch hnone
  | work => exact nomatch hidle

/-- The answers so far are the first ones of the reference map. -/
theorem Serving.answers_initial {done : List (List Bytes)} {x : Config × History}
    (hx : Serving pnum done L x) : x.2.answers <+: serve KV.empty x.2.commands := by
  obtain ⟨c, h⟩ := x
  have hphase := hx.phase
  have hans : h.answers = serve KV.empty done := hx.answers
  show h.answers <+: serve KV.empty h.commands
  generalize h.commands = commands at hphase
  rw [hans]
  cases hphase with
  | idle _ => exact List.prefix_refl _
  | admitted _ => exact serve_append _ _ _ ▸ List.prefix_append _ _
  | work => exact serve_append _ _ _ ▸ List.prefix_append _ _

end Serving

end CloudLabs.KvStore
