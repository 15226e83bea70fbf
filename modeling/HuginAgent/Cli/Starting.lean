/-
Starting a daemon, and restarting one.

A start moves on four times: it creates the file, writes its claim, has a child and puts the record
of the child there.  From the first of these it holds the file, so no other start does.
-/
import HuginAgent.Cli.Stopping

namespace HuginAgent

namespace Cli

open Cli.World

variable {w w' w'' : World} {p q t u : Pid} {f : PidFile}

/-! ### The steps of a start -/

/-- The start stands there, and its process lives. -/
structure At (t : Pid) (st : Standing) (w : World) : Prop where
  standing : w.standing t = st
  alive : w.alive t = true

theorem At.since {st : Standing} (h : At t st w) (hsince : Since t w w') : At t st w' :=
  ⟨hsince.standing.trans h.standing, hsince.alive h.alive⟩

theorem At.kept {st : Standing} (h : At t st w) (hkept : Kept t w w') : At t st w' :=
  h.since hkept.calm.toSince

theorem Turn.at {next : Standing} (h : Turn t next w w') (ht : w.alive t = true) : At t next w' :=
  ⟨h.standing_self, h.alive t ht⟩

/-- A call by which the process moves on, or which fails. -/
theorem ensures_turn {c : Call} {Q : Except Failure c.Reply → World → Prop}
    (h : ∀ w₀ x r w₁, Kept t w w₀ → w₀.Sound → w₀.perform t c x = some (r, w₁) →
      (w₁ = w₀ ∨ (∃ next, Turn t next w₀ w₁) ∧ ∀ p, p ≠ t → ¬ w₀.Holds p) ∧
        ∀ w₂, Kept t w₁ w₂ → w₂.Sound → Q r w₂) :
    Ensures lockRules t (ask c) Q w := by
  refine Ensures.ask ?_
  intro w₀ hkept hsound _ x r w₁ hperform
  obtain ⟨hmoves, hQ⟩ := h w₀ x r w₁ hkept hsound hperform
  rcases hmoves with rfl | ⟨⟨next, hturn⟩, hfree⟩
  · exact ⟨⟨hsound, fun u _ => Kept.refl u w₁⟩, hQ⟩
  · exact ⟨⟨hturn.sound hsound hfree, fun u hu => hturn.kept hfree hu⟩, hQ⟩

theorem World.Sound.free_of_none (hw : w.Sound) (hf : w.file = none) (p : Pid) : ¬ w.Holds p := by
  intro hp
  obtain ⟨f, hf', -⟩ := hw.held p hp
  rw [hf] at hf'
  cases hf'

theorem World.Sound.free_of_holds (hw : w.Sound) (ht : w.Holds t) (hp : p ≠ t) : ¬ w.Holds p :=
  fun hholds => hp (hw.exclusive hholds ht)

/-- `open(…, "wx")`, where there is no file. -/
def World.opened (w : World) (t : Pid) (dev ino : Nat) : World :=
  { w with
    file := some ⟨w.nextId, some t, ⟨dev, ino, w.clock, 0⟩, .blank⟩
    nextId := w.nextId + 1
    standing := Function.update w.standing t (.opened w.nextId) }

theorem perform_openExclusive {x : Chance} {r : Except Failure Nat}
    (h : w.perform t .openExclusive x = some (r, w')) :
    ((∃ e, r = .error e) ∧ w' = w) ∨
      (w.file = none ∧ r = .ok w.nextId ∧ ∃ dev ino, w' = w.opened t dev ino) := by
  cases x <;> simp only [World.perform, World.succeed, Call.fallible, if_true, Option.some.injEq,
    Prod.mk.injEq, reduceCtorEq] at h
  · exact Or.inl ⟨⟨_, h.1.symm⟩, h.2.symm⟩
  · rename_i dev ino size
    cases hf : w.file with
    | some f =>
        rw [hf] at h
        obtain ⟨rfl, rfl⟩ := Prod.mk.inj (Option.some.inj h)
        exact Or.inl ⟨⟨_, rfl⟩, rfl⟩
    | none =>
        rw [hf] at h
        obtain ⟨rfl, rfl⟩ := Prod.mk.inj (Option.some.inj h)
        exact Or.inr ⟨rfl, rfl, dev, ino, rfl⟩

theorem opened_turn (hw : w.Sound) (ht : w.alive t = true) (dev ino : Nat) :
    Turn t (.opened w.nextId) w (w.opened t dev ino) := by
  have hgrows : w.Grows (w.opened t dev ino) := by
    refine ⟨fun _ h => h, fun _ _ h => h, fun _ _ => rfl, Nat.le_succ _, ?_⟩
    intro q fd hfd hq
    refine Turn.opened_of_update (t := t) rfl ?_ hfd hq
    intro fd hopened
    exact Nat.le_of_eq (Standing.opened.inj hopened)
  refine ⟨hgrows, fun _ h => h, rfl, fun _ _ => rfl, rfl, rfl, hw.zero, hw.used, ?_, ?_, fun _ => ht,
    ?_, ?_, ?_⟩
  · intro f hf
    obtain rfl := Option.some.inj hf
    refine ⟨Nat.lt_succ_self _, ?_⟩
    intro pid hc
    cases hc
  · intro hunused
    rw [show (w.opened t dev ino).used t = true from hw.used t ht] at hunused
    cases hunused
  · intro c hc
    rcases hc with hc | hc <;> cases hc
  · intro _
    refine ⟨_, rfl, rfl, ?_⟩
    rw [show (w.opened t dev ino).standing t = _ from Function.update_self ..]
    exact ⟨rfl, rfl⟩
  · intro f r hf htext
    obtain rfl := Option.some.inj hf
    cases htext

theorem openExclusive_spec (h : At t .idle w) :
    Ensures lockRules t (ask .openExclusive) (fun out w' =>
      At t (match out with | .ok fd => .opened fd | .error _ => .idle) w') w := by
  refine ensures_turn ?_
  intro w₀ x r w₁ hkept hsound hperform
  have ht := h.kept hkept
  rcases perform_openExclusive hperform with ⟨⟨e, rfl⟩, rfl⟩ | ⟨hnone, rfl, dev, ino, rfl⟩
  · exact ⟨Or.inl rfl, fun w₂ h' _ => ht.kept h'⟩
  · have hturn := opened_turn hsound ht.alive dev ino
    exact ⟨Or.inr ⟨⟨_, hturn⟩, fun p _ => hsound.free_of_none hnone p⟩,
      fun w₂ h' _ => (hturn.at ht.alive).kept h'⟩

/-- `writeFile(fd, …)`. -/
def World.written (w : World) (t : Pid) (fd : Nat) (claim : ClaimRecord) (size : Nat) : World :=
  { w with
    file := w.file.map fun f =>
      if f.id = fd then
        { f with fingerprint := { f.fingerprint with mtimeMs := w.clock, size }, text := .claim claim }
      else f
    standing := Function.update w.standing t .claimed }

theorem perform_writeClaim {fd : Nat} {claim : ClaimRecord} {x : Chance} {r : Except Failure Unit}
    (h : w.perform t (.writeClaim fd claim) x = some (r, w')) :
    (r = .error .other ∧ w' = w) ∨ (r = .ok () ∧ ∃ size, w' = w.written t fd claim size) := by
  cases x <;> simp only [World.perform, World.succeed, Call.fallible, if_true, Option.some.injEq,
    Prod.mk.injEq, reduceCtorEq] at h
  · exact Or.inl ⟨h.1.symm, h.2.symm⟩
  · exact Or.inr ⟨h.1.symm, _, h.2.symm⟩

theorem written_turn {fd : Nat} {claim : ClaimRecord} (hw : w.Sound) (ht : At t (.opened fd) w)
    (howner : claim.ownerPid = some t) (size : Nat) :
    Turn t .claimed w (w.written t fd claim size) := by
  obtain ⟨f, hf, hown, hof⟩ := hw.held t (Or.inl (by rw [ht.standing]; rfl))
  rw [ht.standing] at hof
  have hfile : (w.written t fd claim size).file = some
      { f with fingerprint := { f.fingerprint with mtimeMs := w.clock, size }, text := .claim claim } := by
    rw [World.written, hf, Option.map_some, if_pos hof.1]
  have hstanding : (w.written t fd claim size).standing = Function.update w.standing t .claimed := rfl
  have hgrows : w.Grows (w.written t fd claim size) := by
    refine ⟨fun _ h => h, fun _ _ h => h, fun _ _ => rfl, Nat.le_refl _, ?_⟩
    intro q fd' hfd hq
    exact Turn.opened_of_update hstanding nofun hfd hq
  refine ⟨hgrows, fun _ h => h, hstanding, fun _ _ => rfl, rfl, rfl, hw.zero, hw.used, ?_, ?_,
    fun _ => ht.alive, ?_, ?_, ?_⟩
  · intro f' hf'
    obtain rfl := Option.some.inj (hfile.symm.trans hf')
    refine ⟨(hw.file f hf).id, ?_⟩
    intro pid hpid
    obtain rfl := Option.some.inj (howner.symm.trans hpid)
    exact hw.used t ht.alive
  · intro hunused
    rw [show (w.written t fd claim size).used t = true from hw.used t ht.alive] at hunused
    cases hunused
  · intro c hc
    rcases hc with hc | hc <;> cases hc
  · intro _
    refine ⟨_, hfile, hown, ?_⟩
    rw [hstanding, Function.update_self]
    exact ⟨claim, rfl, howner⟩
  · intro f' r hf' htext
    obtain rfl := Option.some.inj (hfile.symm.trans hf')
    cases htext

theorem At.free {st : Standing} (h : At t st w) (hw : w.Sound) (hst : st.isClaiming = true) :
    ∀ p, p ≠ t → ¬ w.Holds p :=
  fun _ hp => hw.free_of_holds (Or.inl (by rw [h.standing]; exact hst)) hp

theorem writeClaim_spec {fd : Nat} {claim : ClaimRecord} (h : At t (.opened fd) w)
    (howner : claim.ownerPid = some t) :
    Ensures lockRules t (ask (.writeClaim fd claim)) (fun out w' =>
      At t (if out.isOk then .claimed else .opened fd) w') w := by
  refine ensures_turn ?_
  intro w₀ x r w₁ hkept hsound hperform
  have ht := h.kept hkept
  rcases perform_writeClaim hperform with ⟨rfl, rfl⟩ | ⟨rfl, size, rfl⟩
  · exact ⟨Or.inl rfl, fun w₂ h' _ => ht.kept h'⟩
  · have hturn := written_turn hsound ht howner size
    exact ⟨Or.inr ⟨⟨_, hturn⟩, ht.free hsound rfl⟩, fun w₂ h' _ => (hturn.at ht.alive).kept h'⟩

/-- `spawn(…)`, where there is a child. -/
def World.fork (w : World) (t pid : Pid) : World :=
  { w with
    used := Function.update w.used pid true
    alive := Function.update w.alive pid true
    daemon := Function.update w.daemon pid true
    standing := Function.update w.standing t (.spawned pid) }

theorem perform_spawn {cmd : JsString} {x : Chance} {r : Except Failure (Option Pid)}
    (h : w.perform t (.spawn cmd) x = some (r, w')) :
    ((∀ pid, r ≠ .ok (some pid)) ∧ w' = w) ∨
      ∃ pid, r = .ok (some pid) ∧ w.used pid = false ∧ pid ≠ 0 ∧ w' = w.fork t pid := by
  cases x <;> simp only [World.perform, World.succeed, Call.fallible, if_true, Option.some.injEq,
    Prod.mk.injEq, reduceCtorEq] at h
  · obtain ⟨rfl, rfl⟩ := h
    refine Or.inl ⟨?_, rfl⟩
    intro pid hc
    cases hc
  · rename_i pid
    obtain ⟨hfresh, h⟩ := Option.ite_none_left_eq_some.mp h
    obtain ⟨rfl, rfl⟩ := Prod.mk.inj (Option.some.inj h)
    obtain ⟨hunused, hpos⟩ := not_or.mp hfresh
    exact Or.inr ⟨pid, rfl, Bool.eq_false_of_not_eq_true hunused, hpos, rfl⟩
  · obtain ⟨rfl, rfl⟩ := h
    refine Or.inl ⟨?_, rfl⟩
    intro pid hc
    cases hc

theorem fork_turn {pid : Pid} (hw : w.Sound) (ht : At t .claimed w) (hpid : w.used pid = false)
    (hpos : pid ≠ 0) : Turn t (.spawned pid) w (w.fork t pid) := by
  have hne : ∀ {p}, w.used p = true → p ≠ pid := by
    rintro p hp rfl
    rw [hp] at hpid
    cases hpid
  have hupdate : ∀ (g : Pid → Bool) {p}, p ≠ pid → Function.update g pid true p = g p :=
    fun g p hp => Function.update_of_ne hp ..
  have hmono : ∀ (g : Pid → Bool) p, g p = true → Function.update g pid true p = true := by
    intro g p hp
    rw [Function.update_apply]
    split
    · rfl
    · exact hp
  have hstanding : (w.fork t pid).standing = Function.update w.standing t (.spawned pid) := rfl
  have hgrows : w.Grows (w.fork t pid) := by
    refine ⟨hmono w.used, ?_, fun p hp => hupdate w.daemon (hne hp), Nat.le_refl _, ?_⟩
    · intro p hp hdead
      exact (hupdate w.alive (hne hp)).trans hdead
    · intro q fd hfd hq
      exact Turn.opened_of_update hstanding nofun hfd hq
  obtain ⟨f, hf, hown, hof⟩ := hw.held t (Or.inl (by rw [ht.standing]; rfl))
  rw [ht.standing] at hof
  refine ⟨hgrows, hmono w.alive, hstanding, fun _ _ => rfl, rfl, rfl, ?_, ?_, ?_, ?_, ?_, ?_, ?_, ?_⟩
  · refine ⟨hmono w.used 0 hw.zero.1, ?_⟩
    exact (hupdate w.alive hpos.symm).trans hw.zero.2
  · intro p hp
    by_cases hpp : p = pid
    · rw [hpp]
      exact Function.update_self ..
    · exact hmono w.used p (hw.used p ((hupdate w.alive hpp).symm.trans hp))
  · exact fun f hf => hgrows.known (hw.file f hf)
  · intro hunused
    rw [show (w.fork t pid).used t = true from hmono w.used t (hw.used t ht.alive)] at hunused
    cases hunused
  · exact fun _ => hmono w.alive t ht.alive
  · intro c hc
    rcases hc with hc | hc
    · obtain rfl := Standing.spawned.inj hc
      exact ⟨Function.update_self .., Function.update_self ..⟩
    · cases hc
  · intro _
    refine ⟨f, hf, hown, ?_⟩
    rw [hstanding, Function.update_self]
    exact hof
  · intro f' r hf' htext
    obtain rfl := Option.some.inj (hf.symm.trans hf')
    obtain ⟨c, hclaim, -⟩ := hof
    rw [hclaim] at htext
    cases htext

theorem spawn_spec {cmd : JsString} (h : At t .claimed w) :
    Ensures lockRules t (ask (.spawn cmd)) (fun out w' =>
      At t (match out with | .ok (some pid) => .spawned pid | _ => .claimed) w') w := by
  refine ensures_turn ?_
  intro w₀ x r w₁ hkept hsound hperform
  have ht := h.kept hkept
  rcases perform_spawn hperform with ⟨hnone, rfl⟩ | ⟨pid, rfl, hunused, hpos, rfl⟩
  · refine ⟨Or.inl rfl, ?_⟩
    intro w₂ h' _
    split
    · rename_i pid
      exact absurd rfl (hnone pid)
    · exact ht.kept h'
  · have hturn := fork_turn hsound ht hunused hpos
    exact ⟨Or.inr ⟨⟨_, hturn⟩, ht.free hsound rfl⟩, fun w₂ h' _ => (hturn.at ht.alive).kept h'⟩

/-- `rename(tmp, pidfile)`. -/
def World.renamed (w : World) (t : Pid) (f : PidFile) : World :=
  { w with
    file := some f
    tmp := Function.update w.tmp t none
    standing := Function.update w.standing t (w.standing t).release }

theorem perform_renameTmp {x : Chance} {r : Except Failure Unit}
    (h : w.perform t .renameTmp x = some (r, w')) :
    ((∃ e, r = .error e) ∧ w' = w) ∨ ∃ f, w.tmp t = some f ∧ r = .ok () ∧ w' = w.renamed t f := by
  cases x <;> simp only [World.perform, World.succeed, Call.fallible, if_true, Option.some.injEq,
    Prod.mk.injEq, reduceCtorEq] at h
  · cases hf : w.tmp t with
    | none =>
        rw [hf] at h
        obtain ⟨rfl, rfl⟩ := Prod.mk.inj (Option.some.inj h)
        exact Or.inl ⟨⟨_, rfl⟩, rfl⟩
    | some f =>
        rw [hf] at h
        obtain ⟨rfl, rfl⟩ := Prod.mk.inj (Option.some.inj h)
        exact Or.inr ⟨f, rfl, rfl, rfl⟩
  · exact Or.inl ⟨⟨_, h.1.symm⟩, h.2.symm⟩

/-- What the process has written beside the pidfile is the record of the child. -/
structure TmpOf (t child : Pid) (w : World) : Prop where
  tmp : ∃ f r, w.tmp t = some f ∧ f.id < w.nextId ∧ f.owner = some t ∧ f.text = .record r ∧ r.pid = child

theorem renamed_turn {child : Pid} {f : PidFile} {r : PidRecord} (hw : w.Sound)
    (ht : At t (.spawned child) w) (hid : f.id < w.nextId) (hown : f.owner = some t)
    (htext : f.text = .record r) (hpid : r.pid = child) :
    Turn t (.recorded child) w (w.renamed t f) := by
  have hstanding : (w.renamed t f).standing = Function.update w.standing t (.recorded child) := by
    rw [World.renamed, ht.standing]
    rfl
  have hgrows : w.Grows (w.renamed t f) := by
    refine ⟨fun _ h => h, fun _ _ h => h, fun _ _ => rfl, Nat.le_refl _, ?_⟩
    intro q fd hfd hq
    exact Turn.opened_of_update hstanding nofun hfd hq
  have hchild := hw.child t child (Or.inl ht.standing)
  refine ⟨hgrows, fun _ h => h, hstanding, fun p hp => Function.update_of_ne hp .., rfl, rfl, hw.zero,
    hw.used, ?_, ?_, nofun, ?_, ?_, ?_⟩
  · intro f' hf'
    obtain rfl := Option.some.inj hf'
    refine ⟨hid, ?_⟩
    intro pid hnamed
    rw [htext] at hnamed
    obtain rfl := Option.some.inj hnamed
    rw [hpid]
    exact hchild.1
  · intro hunused
    rw [show (w.renamed t f).used t = true from hw.used t ht.alive] at hunused
    cases hunused
  · intro c hc
    rcases hc with hc | hc
    · cases hc
    · obtain rfl := Standing.recorded.inj hc
      exact hchild
  · intro _
    refine ⟨f, rfl, hown, ?_⟩
    rw [hstanding, Function.update_self]
    exact ⟨r, htext, hpid⟩
  · intro f' r' hf' htext'
    obtain rfl := Option.some.inj hf'
    obtain rfl := PidfileText.record.inj (htext.symm.trans htext')
    rw [hpid]
    exact ⟨rfl, hown⟩

theorem renameTmp_spec {child : Pid} (h : At t (.spawned child) w) (htmp : TmpOf t child w) :
    Ensures lockRules t (ask .renameTmp) (fun out w' =>
      At t (if out.isOk then .recorded child else .spawned child) w') w := by
  refine ensures_turn ?_
  intro w₀ x r w₁ hkept hsound hperform
  have ht := h.kept hkept
  rcases perform_renameTmp hperform with ⟨⟨e, rfl⟩, rfl⟩ | ⟨f, hf, rfl, rfl⟩
  · exact ⟨Or.inl rfl, fun w₂ h' _ => ht.kept h'⟩
  · obtain ⟨g, rec, hg, hid, hown, htext, hpid⟩ := htmp.tmp
    obtain rfl := Option.some.inj ((hkept.tmp.trans hg).symm.trans hf)
    have hturn := renamed_turn hsound ht (Nat.lt_of_lt_of_le hid hkept.grows.nextId) hown htext hpid
    exact ⟨Or.inr ⟨⟨_, hturn⟩, ht.free hsound rfl⟩, fun w₂ h' _ => (hturn.at ht.alive).kept h'⟩

theorem writeTmp_spec {child : Pid} {cmd : JsString} (h : At t (.spawned child) w) :
    Ensures lockRules t (ask (.writeTmp ⟨child, cmd⟩)) (fun out w' =>
      At t (.spawned child) w' ∧ (out = .ok () → TmpOf t child w')) w := by
  refine ensures_quiet rfl ?_
  intro w₀ x r w₁ hkept _ _ hperform w₂ h' _
  refine ⟨h.since (since_of_perform rfl hkept hperform h'), ?_⟩
  intro hr
  subst hr
  cases x <;> simp only [World.perform, World.succeed, Call.fallible, if_true, Option.some.injEq,
    Prod.mk.injEq, reduceCtorEq, false_and] at hperform
  obtain ⟨-, rfl⟩ := hperform
  refine ⟨_, _, h'.tmp.trans (Function.update_self ..), ?_, rfl, rfl, rfl⟩
  exact Nat.lt_of_lt_of_le (Nat.lt_succ_self _) h'.grows.nextId

/-! ### Starting -/

/-- No result is a claim. -/
def Claims (t : Pid) (out : Except Failure (Option LifecycleResult)) (w : World) : Prop :=
  out = .ok none → At t .claimed w

theorem ends_claims (result : LifecycleResult) :
    Ensures lockRules t (pure (some result) : Script (Option LifecycleResult)) (Claims t) w := by
  refine Ensures.pure ?_
  intro w' _ _ hc
  cases hc

theorem claimRefused_spec (attempt : Nat) {next : Script (Option LifecycleResult)} (e : Failure)
    (h : At t .idle w) (hnext : ∀ w', At t .idle w' → Ensures lockRules t next (Claims t) w') :
    Ensures lockRules t (claimRefused attempt next e) (Claims t) w := by
  rw [claimRefused]
  split
  · refine Ensures.throw ?_
    intro w' _ _ hc
    cases hc
  · refine Ensures.bind inspectPidfile_spec ?_ ?_
    · rintro i w₁ hw₁ ⟨h₁, hi⟩
      have hjudged := hi i rfl
      have ht := h.since h₁
      split
      · exact ends_claims _
      · exact ends_claims _
      · split
        · rename_i hstale
          refine Ensures.bind (removePidfileIfUnchanged_spec hw₁ (by rw [ht.standing]; rfl) hjudged
            (hstale.2.imp_right hjudged.absent)) ?_ ?_
          · exact fun _ w₂ _ h₂ => hnext w₂ (ht.since h₂)
          · intro e w₂ _ _ hc
            cases hc
        · exact ends_claims _
    · intro e w₁ _ _ hc
      cases hc

theorem writeClaimFd_spec {fd : Nat} (h : At t (.opened fd) w) :
    Ensures lockRules t (writeClaimFd t fd) (fun out w' =>
      At t (if out.isOk then .claimed else .opened fd) w') w := by
  rw [writeClaimFd]
  refine Ensures.bind (ask_since rfl) ?_ ?_
  · exact fun now w₁ _ h₁ => writeClaim_spec (h.since h₁) rfl
  · exact fun e w₁ _ h₁ => h.since h₁

theorem claimAttempt_spec (attempt : Nat) {next : Script (Option LifecycleResult)}
    (h : At t .idle w) (hnext : ∀ w', At t .idle w' → Ensures lockRules t next (Claims t) w') :
    Ensures lockRules t (claimAttempt t attempt next) (Claims t) w := by
  rw [claimAttempt]
  refine Ensures.andThen ((openExclusive_spec h).always.mono ?_)
  intro out w₁ hw₁ hat
  have hat := hat w₁ (Kept.refl t w₁) hw₁
  cases out with
  | error e => exact claimRefused_spec attempt e hat hnext
  | ok fd =>
      refine Ensures.andThen ((writeClaimFd_spec hat).always.mono ?_)
      intro out w₂ hw₂ hwritten
      cases out with
      | ok _ =>
          refine Ensures.pure ?_
          intro w₃ h₃ hw₃ _
          exact hwritten w₃ h₃ hw₃
      | error e =>
          have hat₂ : At t (.opened fd) w₂ := hwritten w₂ (Kept.refl t w₂) hw₂
          refine Ensures.bind (removePidfile_own (by rw [hat₂.standing]; rfl)) ?_ ?_
          · rintro _ w₃ - ⟨halive, hstanding⟩
            refine claimRefused_spec attempt e ⟨?_, halive hat₂.alive⟩ hnext
            rw [hstanding, hat₂.standing]
            rfl
          · intro e' w₃ _ _ hc
            cases hc

theorem claimPidfile_spec (h : At t .idle w) :
    Ensures lockRules t (claimPidfile t) (Claims t) w :=
  claimAttempt_spec 0 h fun _ h' => claimAttempt_spec 1 h' fun _ _ => ends_claims _

theorem writeRecordAtomic_spec {child : Pid} (cmd : JsString) (h : At t (.spawned child) w) :
    Ensures lockRules t (writeRecordAtomic ⟨child, cmd⟩) (fun out w' =>
      At t (if out.isOk then .recorded child else .spawned child) w') w := by
  rw [writeRecordAtomic]
  refine Ensures.tryCatch (M := fun out w' =>
    At t (if out.isOk then .recorded child else .spawned child) w') ?_ ?_ ?_
  · refine Ensures.bind (writeTmp_spec h) ?_ ?_
    · exact fun _ w₁ _ hM => renameTmp_spec hM.1 (hM.2 rfl)
    · exact fun e w₁ _ hM => hM.1
  · exact fun _ w₁ _ hM => hM
  · intro e w₁ _ hM
    have hat : At t (.spawned child) w₁ := hM
    refine Ensures.bind (ask_since rfl) ?_ ?_
    · exact fun _ w₂ _ h₂ => Ensures.throw fun w₃ h₃ _ => (hat.since h₂).kept h₃
    · exact fun e' w₂ _ h₂ => hat.since h₂

theorem recordChild_spec {child : Pid} (cmd : JsString) (h : At t (.spawned child) w) :
    Ensures lockRules t (recordChild child cmd)
      (fun out w' => out = .ok () → At t (.recorded child) w') w := by
  rw [recordChild]
  refine Ensures.tryCatch (M := fun out w' =>
    At t (if out.isOk then .recorded child else .spawned child) w') ?_ ?_ ?_
  · refine Ensures.bind (ask_since rfl) ?_ ?_
    · exact fun _ w₁ _ h₁ => writeRecordAtomic_spec cmd (h.since h₁)
    · exact fun e w₁ _ h₁ => h.since h₁
  · exact fun _ w₁ _ hM _ => hM
  · intro e w₁ hw₁ hM
    have hat : At t (.spawned child) w₁ := hM
    refine Ensures.bind (killStartedChild_spec (hw₁.child t child (Or.inl hat.standing)).1) ?_ ?_
    · intro _ w₂ _ h₂
      have hat₂ := hat.since h₂
      refine Ensures.bind (removePidfile_own (by rw [hat₂.standing]; rfl)) ?_ ?_
      · intro _ w₃ _ _
        refine Ensures.throw ?_
        intro w₄ _ _ hc
        cases hc
      · intro e' w₃ _ _ hc
        cases hc
    · intro e' w₂ _ _ hc
      cases hc

/-- After a part of a start that had claimed: where it throws, the claim is still there. -/
def ClaimedOr (t : Pid) {α : Type} (P : α → World → Prop) : Except Failure α → World → Prop
  | .ok a, w => P a w
  | .error _, w => At t .claimed w

theorem givingBack_spec {α : Type} {p : Script α} {P : α → World → Prop}
    (h : Ensures lockRules t p (ClaimedOr t P) w) :
    Ensures lockRules t (givingBack p) (fun out w' => ∀ a, out = .ok a → P a w') w := by
  rw [givingBack]
  refine Ensures.tryCatch h ?_ ?_
  · intro a w₁ _ hM a' hsame
    obtain rfl := Except.ok.inj hsame
    exact hM
  · intro e w₁ _ hM
    have hat : At t .claimed w₁ := hM
    refine Ensures.bind (removePidfile_own (by rw [hat.standing]; rfl)) ?_ ?_
    · intro _ w₂ _ _
      refine Ensures.throw ?_
      intro w₃ _ _ a hc
      cases hc
    · intro e' w₂ _ _ a hc
      cases hc

theorem spawnDaemon_spec (opts : Options) (h : At t .claimed w) :
    Ensures lockRules t (spawnDaemon opts)
      (ClaimedOr t fun a w' => At t (a.2.2.elim .claimed .spawned) w') w := by
  rw [spawnDaemon]
  refine Ensures.bind (ask_since rfl) ?_ fun e w₁ _ h₁ => h.since h₁
  intro _ w₁ _ h₁
  refine Ensures.bind (orAbsent_since (ask_since rfl)) ?_ fun e w₂ _ h₂ => (h.since h₁).since h₂
  intro logOffset w₂ _ h₂
  have hat := (h.since h₁).since h₂
  cases opts.command with
  | error e => exact Ensures.throw fun w₃ h₃ _ => hat.kept h₃
  | ok cmdLine =>
      refine Ensures.bind (spawn_spec hat).always ?_ ?_
      · intro child w₃ _ hM
        refine Ensures.pure ?_
        intro w₄ h₄ hw₄
        have hM := hM w₄ h₄ hw₄
        cases child with
        | none => exact hM
        | some child => exact hM
      · exact fun e w₃ hw₃ hM => hM w₃ (Kept.refl t w₃) hw₃

theorem spawnFailed_spec (opts : Options) (h : At t .claimed w) :
    Ensures lockRules t (spawnFailed opts) (fun _ _ => True) w := by
  rw [spawnFailed]
  refine Ensures.bind (givingBack_spec (P := fun _ _ => True) ((removePidfile_own ?_).mono ?_)) ?_
    fun _ _ _ _ => trivial
  · rw [h.standing]
    rfl
  · rintro out w₁ - ⟨halive, hstanding⟩
    cases out with
    | ok _ => trivial
    | error e => exact ⟨hstanding.trans h.standing, halive h.alive⟩
  · intro _ w₁ _ _
    refine Ensures.bind (ask_since rfl) ?_ fun _ _ _ _ => trivial
    intro spawnError w₂ _ _
    refine Ensures.bind (startFailureMessage_spec opts _) ?_ fun _ _ _ _ => trivial
    exact fun _ _ _ _ => Ensures.pure fun _ _ _ => trivial

theorem startDaemon_spec (opts : Options) (h : At t .idle w) :
    Ensures lockRules t (startDaemon t opts) (fun _ _ => True) w := by
  rw [startDaemon]
  refine Ensures.bind (claimPidfile_spec h) ?_ fun _ _ _ _ => trivial
  intro result w₁ _ hclaims
  cases result with
  | some result => exact Ensures.pure fun _ _ _ => trivial
  | none =>
      refine Ensures.bind (givingBack_spec (spawnDaemon_spec opts (hclaims rfl))) ?_ fun _ _ _ _ => trivial
      rintro ⟨logOffset, cmdLine, child⟩ w₂ _ hM
      have hat := hM _ rfl
      cases child with
      | none => exact spawnFailed_spec opts hat
      | some child =>
          refine Ensures.bind (recordChild_spec cmdLine hat) ?_ fun _ _ _ _ => trivial
          intro _ w₃ hw₃ hrecorded
          have hat₃ := hrecorded rfl
          refine (waitForDaemonReadiness_spec opts logOffset
            (hw₃.child t child (Or.inr hat₃.standing)).1 ?_).mono fun _ _ _ _ => trivial
          rw [hat₃.standing]
          rfl

theorem restartDaemon_spec (opts : Options) (h : At t .idle w) :
    Ensures lockRules t (restartDaemon t opts) (fun _ _ => True) w := by
  rw [restartDaemon]
  refine Ensures.bind (stopDaemon_spec opts (by rw [h.standing]; rfl)) ?_ fun _ _ _ _ => trivial
  intro result w₁ _ h₁
  split
  · exact Ensures.pure fun _ _ _ => trivial
  · exact startDaemon_spec opts (h.since h₁)

/-- **Every command keeps the lock, whatever the others do meanwhile.** -/
theorem script_spec (command : Command) (h : At t .idle w) :
    Ensures lockRules t (command.script t) (fun _ _ => True) w := by
  have hclaiming : (w.standing t).isClaiming = false := by
    rw [h.standing]
    rfl
  cases command with
  | start opts => exact startDaemon_spec opts h
  | stop opts => exact (stopDaemon_spec opts hclaiming).mono fun _ _ _ _ => trivial
  | status opts => exact (statusDaemon_spec opts hclaiming).mono fun _ _ _ _ => trivial
  | restart opts => exact restartDaemon_spec opts h

end Cli

end HuginAgent
