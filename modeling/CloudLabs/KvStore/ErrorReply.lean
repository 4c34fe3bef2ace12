import CloudLabs.KvStore.Agreement

/-!
# Error replies

An update that is answered with the error message leaves every log as it was, unless the event was
accepted by a participant and no reply to a commit was read (`Lost`). As long as this does not
happen nobody gets ahead of the coordinator (`Config.Heard`), and the event of an update that was
answered with the error message never gets into a log under its number (`error_reply_no_effect`).

A lost reply is enough for the opposite: `error_reply_applied`.
-/

set_option autoImplicit false

namespace CloudLabs.KvStore

open CloudLabs.Foundation

/-- A command's call leaves the logs within the relation, or it was an update that succeeded, unless
all replies to its commits were lost. -/
theorem Worked.calm {S : Setting} {T : Nat} {task : List Bytes} {rc : Bytes} {s : Sys}
    (h : Worked S T task rc s) (hheard : IsUpdate task → ¬ Lost T (getRESPArry task) s.hist) :
    Quiet S s ∨ (rc ≠ getErrorMessage ∧ IsUpdate task ∧ s.c.TXID = T + 1 ∧
      ∃ hb : S.bound T (getRESPArry task), Quiet (S.extend hb) s) := by
  rcases h with ⟨hup, hb, ⟨hne, h⟩ | ⟨-, h, hclean, -⟩⟩ | ⟨-, h, -⟩ | ⟨-, -, -, h⟩
  · exact Or.inr ⟨hne, hup, h.global.1, hb, T + 1, h.core, h.mutex, h.global.1, h.peers⟩
  · have hquiet : Quiet (S.extend hb) s := ⟨T, h⟩
    have hcommitted : Committed S.rel s.c := by
      refine ⟨h.core.committed.start_le, h.core.committed.txid_le, fun t h₁ h₂ => ?_⟩
      obtain ⟨e, he, hacc, hR | ⟨rfl, -⟩⟩ := h.core.committed.record t h₁ h₂
      · exact ⟨e, he, hacc, hR⟩
      · exact absurd h.global (Nat.ne_of_gt h₂)
    exact Or.inl (hquiet.replace rfl rfl rfl hcommitted
      (hclean.resolve_right (hheard hup)))
  · exact Or.inl ⟨T, h⟩
  · exact Or.inl ⟨T, h⟩

/-- The replies to the commits of an update were not all lost. -/
def Heard (c : Config) (l : Label) : Prop :=
  ∀ task txid rc, l = .reply task txid rc → IsUpdate task →
    ¬ Lost txid (getRESPArry task) c.sys.hist

/-- No log has a number from the coordinator's on. -/
def Config.Calm (F : Faults) (pnum : Nat) (c : Config) : Prop :=
  ∃ (T₀ : Nat) (hF : F.Within fun t _ => t < T₀),
    c.Inv (Setting.run (B := fun _ _ => True) pnum hF fun _ _ _ => trivial) ∧ T₀ ≤ c.sys.c.TXID ∧
    ∀ task txid prog, c.call = .work task txid prog → T₀ ≤ txid ∧ TXID_START ≤ txid

section Run

variable {F : Faults} {pnum : Nat} {c c' : Config} {l : Label}

theorem Config.Inv.txid_ge {S : Setting} (h : c.Inv S) : TXID_START ≤ c.sys.c.TXID := by
  obtain ⟨f, hcore, -⟩ := h
  exact hcore.committed.start_le

theorem Config.Calm.step (hinit : ∀ id q, F.fresh id q → q = Participant.Init)
    (h : c.Calm F pnum) (hs : Config.Step F pnum c l c') (hok : Heard c l) : c'.Calm F pnum := by
  obtain ⟨T₀, hF, hinv, hle, hcall⟩ := h
  by_cases hl : l.isReply
  · cases hs with
    | @reply s a task txid rc =>
        obtain ⟨f, hcore, hwork⟩ := hinv
        obtain ⟨hT, -⟩ := hcall _ _ _ rfl
        -- an error leaves the number alone, a success raises it by one
        rcases Worked.calm hwork (hok task txid rc rfl) with hq | ⟨-, -, htx, hb, T, hs⟩
        · exact ⟨T₀, hF, ⟨f, hcore, hq⟩, hle, nofun⟩
        · have htx' : s.c.TXID = txid + 1 := htx
          have hF' : F.Within fun t _ => t < txid + 1 := within_of_init hinit _
          refine ⟨txid + 1, hF', ⟨f, hcore, ?_⟩, by simp only [htx', le_refl], nofun⟩
          refine Quiet.replace (S := Setting.extend _ hb) ⟨T, hs⟩ rfl rfl rfl ?_ fun id => ?_
          · refine hs.core.committed.mono ?_
            rintro t e (hR | ⟨rfl, -⟩)
            · exact hR.trans_le (hT.trans (Nat.le_succ _))
            · exact Nat.lt_succ_self _
          · refine (hs.core.nodes id).clean.mono ?_
            rintro t e (hR | ⟨rfl, -⟩)
            · exact hR.trans_le (hT.trans (Nat.le_succ _))
            · exact Nat.lt_succ_self _
    | _ => exact hl.elim
  · have hgrow := hinv.grows hs
    refine ⟨T₀, hF, hinv.step hs (fun _ _ => ⟨fun _ => trivial, fun _ hu => hu.elim⟩) hl,
      hle.trans hgrow.txid_le, fun task txid prog heq => ?_⟩
    rcases hs.working heq with ⟨prog', hbefore⟩ | ⟨-, -, rfl⟩
    · exact hcall task txid prog' hbefore
    · exact ⟨hle, hinv.txid_ge⟩

theorem Config.Calm.run (hinit : ∀ id q, F.fresh id q → q = Participant.Init)
    (hr : Config.Run F pnum Heard c c') (h : c.Calm F pnum) : c'.Calm F pnum := by
  induction hr with
  | refl => exact h
  | tail _ hs ih =>
      obtain ⟨l, hok, hstep⟩ := hs
      exact ih.step hinit hstep hok

theorem Config.calm_init (hinit : ∀ id q, F.fresh id q → q = Participant.Init) :
    (Config.Init pnum fun _ => Participant.Init).Calm F pnum :=
  ⟨TXID_START, within_of_init hinit _,
    Config.inv_init (fun _ h => h) fun _ => Participant.within_init _, le_rfl, nofun⟩

/-- No update with this event is started. -/
def NotSubmitted (resp : Bytes) (_ : Config) (l : Label) : Prop :=
  ∀ task, l = .start task → IsUpdate task → getRESPArry task ≠ resp

/-- An event that is in no log under a number stays out of all logs under this number, as long as it
is not submitted. -/
theorem Config.Inv.not_submitted {T : Nat} {resp : Bytes}
    (hF : F.Within fun t e => ¬ (t = T ∧ e = resp))
    (hr : Config.Run F pnum (NotSubmitted resp) c c')
    (h : c.Inv (Setting.run pnum hF fun _ _ h => h)) :
    c'.Inv (Setting.run pnum hF fun _ _ h => h) := by
  induction hr with
  | refl => exact h
  | tail _ hs ih =>
      obtain ⟨l, hok, hstep⟩ := hs
      by_cases hl : l.isReply
      · exact ih.step_reply hstep hl
      · refine ih.step hstep (fun task heq => ⟨fun hup => ?_, fun _ hu => hu.elim⟩) hl
        exact fun heq' => hok task heq hup heq'.2

end Run

/-- **An error reply means no effect.** Where no update so far has lost all replies to commits that
participants had read, the event of an update that is answered with the error message is in no
participant's log and not in the committed log under its number from then on, as long as it is not
submitted again. -/
theorem error_reply_no_effect {F : Faults} (hinit : ∀ id q, F.fresh id q → q = Participant.Init)
    {pnum : Nat} {c₁ c₂ c₃ : Config} {task : List Bytes} {txid : Nat}
    (hr₁ : Config.Run F pnum Heard (Config.Init pnum fun _ => Participant.Init) c₁)
    (hs : Config.Step F pnum c₁ (.reply task txid getErrorMessage) c₂)
    (hheard : Heard c₁ (.reply task txid getErrorMessage))
    (hr₂ : Config.Run F pnum (NotSubmitted (getRESPArry task)) c₂ c₃) :
    (∀ id l, (c₃.sys.node id).part.lg txid = some l → l.event ≠ getRESPArry task) ∧
      (txid < c₃.sys.c.TXID → ∀ l, c₃.sys.c.lg txid = some l → l.event ≠ getRESPArry task) := by
  obtain ⟨T₀, hF, hinv, hle, hcall⟩ := (Config.calm_init hinit).run hinit hr₁
  have hF' : F.Within fun t e => ¬ (t = txid ∧ e = getRESPArry task) := within_of_init hinit _
  have hrel : ∀ (t : Nat) (e : Bytes), T₀ ≤ txid → t < T₀ → ¬ (t = txid ∧ e = getRESPArry task) := by
    rintro t e hT ht ⟨rfl, -⟩
    omega
  have hinv₂ : c₂.Inv (Setting.run pnum hF' fun _ _ h => h) ∧ TXID_START ≤ txid := by
    cases hs with
    | reply =>
        obtain ⟨f, hcore, hwork⟩ := hinv
        obtain ⟨hT, hstart⟩ := hcall _ _ _ rfl
        have hq := (Worked.calm hwork (hheard task txid _ rfl)).resolve_right fun h => h.1 rfl
        obtain ⟨T, hs⟩ := hq
        have hq' : Quiet ((Setting.run pnum hF' fun _ _ h => h).since f) _ :=
          Quiet.replace ⟨T, hs⟩ rfl rfl rfl (hs.core.committed.mono fun t e => hrel t e hT)
            fun id => (hs.core.nodes id).clean.mono fun t e => hrel t e hT
        obtain ⟨T', hs'⟩ := hq'
        exact ⟨⟨f, hs'.core.loose, T', hs'⟩, hstart⟩
  obtain ⟨f, hcore, -⟩ := Config.Inv.not_submitted hF' hr₂ hinv₂.1
  refine ⟨fun id l hl heq => (hcore.nodes id).within.logged txid l hl ⟨rfl, heq⟩,
    fun hlt l hl heq => ?_⟩
  obtain ⟨e, he, -, hR⟩ := hcore.committed.record txid hinv₂.2 hlt
  rw [hl, Option.some.injEq] at he
  subst he
  exact hR ⟨rfl, heq⟩

/-- The label is no reply. -/
def noReply (_ : Config) : Label → Bool
  | .reply _ _ _ => false
  | _ => true

/-- The vote request is not answered, and the update has no effect. -/
theorem error_reply_no_effect_after_lost_vote :
    ∃ c₁ c₂, Config.Step (Faults.any fun _ => false) 1 c₁ (.reply setCmd 5 getErrorMessage) c₂ ∧
      ∀ l, (c₂.sys.node 1).part.lg 5 = some l → l.event ≠ getRESPArry setCmd := by
  have hrun : ¬ Act.isRun .reply := id
  obtain ⟨c₁, l, c₂, hr, hs, rfl, hcommit⟩ := Config.exec_next (fun _ => false) 1 noReply
    (joinActs 1 ++ [.accept setCmd, .start, .run 100 [.lost .network []]])
    (Config.Init 1 fun _ => Participant.Init) hrun
    (fun c l _ => l = .reply setCmd 5 getErrorMessage ∧
      ∀ y ∈ c.sys.hist, y.task ≠ commitReq 5 (getRESPArry setCmd)) (by decide +kernel)
  have hr' : Config.Run _ 1 Heard _ c₁ := hr.mono fun c l hl => by
    rintro task txid rc rfl
    exact absurd hl (by simp [noReply])
  have hheard : Heard c₁ (.reply setCmd 5 getErrorMessage) := by
    intro task txid rc heq _ hlost
    cases heq
    obtain ⟨y, hy, hsil⟩ := hlost.silent
    exact hcommit y hy hsil.task
  have hinit : ∀ id q, (Faults.any fun _ => false).fresh id q → q = Participant.Init :=
    fun _ _ hq => hq.2
  have h := error_reply_no_effect hinit hr' hs hheard Relation.ReflTransGen.refl
  exact ⟨c₁, c₂, hs, h.1 1⟩

/-- The only participant applies an update and its reply is lost: the client gets the error message,
and the event is in the participant's log. -/
theorem error_reply_applied :
    ∃ c c', Reaches (Faults.any fun _ => false) 1 (Config.Init 1 fun _ => Participant.Init) c ∧
      Config.Step (Faults.any fun _ => false) 1 c (.reply setCmd 5 getErrorMessage) c' ∧
      (c'.sys.node 1).part.lg 5 = some ⟨5, LogState.LOG_COMMIT, getRESPArry setCmd⟩ := by
  have hrun : ¬ Act.isRun .reply := id
  obtain ⟨c, l, c', hr, hs, rfl, hlg⟩ := Config.exec_next (fun _ => false) 1 (fun _ _ => true)
    (joinActs 1 ++ [.accept setCmd, .start, .run 100 [.answer, .unanswered .network []]])
    (Config.Init 1 fun _ => Participant.Init) hrun
    (fun _ l c => l = .reply setCmd 5 getErrorMessage ∧
      (c.sys.node 1).part.lg 5 = some ⟨5, LogState.LOG_COMMIT, getRESPArry setCmd⟩) (by decide +kernel)
  exact ⟨c, c', hr.mono fun _ _ _ => trivial, hs, hlg⟩

end CloudLabs.KvStore
