/-
Taking the pidfile away.

A process that holds no claim unlinks a file that it has judged stale, and one that holds a claim
unlinks its own.  Either way no other start holds the file at that moment, which is what every step
of a process needs that moves it on (`Turn`).
-/
import HuginAgent.Cli.Looking

namespace HuginAgent

namespace Cli

open Cli.World

variable {w w' w'' : World} {p q t u : Pid} {f : PidFile}

/-! ### Taking the file away -/

/-- `unlink`, where it does not fail. -/
def World.unlinked (w : World) (t : Pid) : World :=
  { w with
    file := none
    standing := Function.update w.standing t (w.standing t).release }

theorem perform_unlink {x : Chance} {r : Except Failure Unit}
    (h : w.perform t .unlink x = some (r, w')) :
    (r = .error .other ∧ w' = w) ∨ (r = .ok () ∧ w' = w.unlinked t) := by
  cases x <;> simp [World.perform, World.succeed, Call.fallible] at h
  · exact Or.inr ⟨h.1.symm, h.2.symm⟩
  · exact Or.inl ⟨h.1.symm, h.2.symm⟩

theorem release_not_claiming (s : Standing) : s.release.isClaiming = false := by
  cases s <;> rfl

theorem release_of_not_claiming {s : Standing} (h : s.isClaiming = false) : s.release = s := by
  cases s with
  | idle | recorded child => rfl
  | opened fd | claimed | spawned child => cases h

theorem release_recorded {s : Standing} {child : Pid} (h : s.release = .recorded child) :
    s = .spawned child ∨ s = .recorded child := by
  cases s with
  | idle | opened fd | claimed => cases h
  | spawned c => exact Or.inl (by rw [Standing.recorded.inj h])
  | recorded c => exact Or.inr h

/-- A process moves on and stands there then, while no other holds the file. -/
structure Turn (t : Pid) (next : Standing) (w w' : World) : Prop where
  grows : w.Grows w'
  alive : ∀ p, w.alive p = true → w'.alive p = true
  standing : w'.standing = Function.update w.standing t next
  tmp : ∀ p, p ≠ t → w'.tmp p = w.tmp p
  lastRead : w'.lastRead = w.lastRead
  lastStat : w'.lastStat = w.lastStat
  zero : w'.used 0 = true ∧ w'.alive 0 = false
  used : ∀ p, w'.alive p = true → w'.used p = true
  file : ∀ f, w'.file = some f → w'.Known f
  idle : w'.used t = false → next = .idle
  claimer : next.isClaiming = true → w'.alive t = true
  child : ∀ c, next = .spawned c ∨ next = .recorded c → w'.used c = true ∧ w'.daemon c = true
  held : w'.Holds t → ∃ f, w'.file = some f ∧ w'.IsOf t f
  recorded : ∀ f r, w'.file = some f → f.text = .record r → next = .recorded r.pid ∧ f.owner = some t

namespace Turn

variable {next : Standing}

theorem standing_self (h : Turn t next w w') : w'.standing t = next := by
  rw [h.standing]
  exact Function.update_self ..

theorem standing_of_ne (h : Turn t next w w') (hp : p ≠ t) : w'.standing p = w.standing p := by
  rw [h.standing]
  exact Function.update_of_ne hp ..

theorem holds_of_ne (h : Turn t next w w') (hw : w.Sound) (hpt : p ≠ t) (hp : w'.Holds p) :
    w.Holds p := by
  rw [Holds, h.standing_of_ne hpt] at hp
  rcases hp with hclaiming | ⟨child, hrecorded, halive⟩
  · exact Or.inl hclaiming
  · exact Or.inr ⟨child, hrecorded, h.grows.alive (hw.child p child (Or.inr hrecorded)).1 halive⟩

theorem sound (h : Turn t next w w') (hw : w.Sound) (hfree : ∀ p, p ≠ t → ¬ w.Holds p) :
    w'.Sound where
  zero := h.zero
  used := h.used
  file := h.file
  read p f hf := h.grows.known (hw.read p f (by rw [← h.lastRead]; exact hf))
  idle p hp := by
    by_cases hpt : p = t
    · rw [hpt] at hp ⊢
      rw [h.standing_self]
      exact h.idle hp
    · rw [h.standing_of_ne hpt]
      refine hw.idle p (Bool.eq_false_of_not_eq_true ?_)
      intro hused
      rw [h.grows.used p hused] at hp
      cases hp
  claimer p hp := by
    by_cases hpt : p = t
    · rw [hpt] at hp ⊢
      rw [h.standing_self] at hp
      exact h.claimer hp
    · rw [h.standing_of_ne hpt] at hp
      exact h.alive p (hw.claimer p hp)
  child p c hp := by
    by_cases hpt : p = t
    · rw [hpt, h.standing_self] at hp
      exact h.child c hp
    · rw [h.standing_of_ne hpt] at hp
      obtain ⟨hused, hdaemon⟩ := hw.child p c hp
      exact ⟨h.grows.used c hused, (h.grows.daemon c hused).trans hdaemon⟩
  held p hp := by
    by_cases hpt : p = t
    · rw [hpt] at hp ⊢
      exact h.held hp
    · exact absurd (h.holds_of_ne hw hpt hp) (hfree p hpt)
  recorded f r hf htext _ _ := by
    obtain ⟨hnext, hown⟩ := h.recorded f r hf htext
    exact ⟨t, h.standing_self.trans hnext, hown⟩

theorem kept (h : Turn t next w w') (hfree : ∀ p, p ≠ t → ¬ w.Holds p) (hu : u ≠ t) :
    Kept u w w' where
  grows := h.grows
  standing := h.standing_of_ne hu
  alive := h.alive u
  tmp := h.tmp u hu
  lastRead := by rw [h.lastRead]
  lastStat := by rw [h.lastStat]
  claim hc := absurd (Or.inl hc) (hfree u hu)
  record c hc hused halive := absurd (Or.inr ⟨c, hc, h.grows.alive hused halive⟩) (hfree u hu)

/-- What is left to show of a growing world when one process moves on. -/
theorem opened_of_update {fd : Nat} (hstanding : w'.standing = Function.update w.standing t next)
    (hnew : ∀ fd, next = .opened fd → w.nextId ≤ fd) {q : Pid} (hfd : fd < w.nextId)
    (hq : w'.standing q = .opened fd) : w.standing q = .opened fd := by
  rw [hstanding, Function.update_apply] at hq
  split at hq
  · exact absurd hfd (Nat.not_lt_of_le (hnew fd hq))
  · exact hq

end Turn

/-- The file may be taken away when the own daemon does not live. -/
theorem unlinked_turn (hw : w.Sound)
    (hown : ∀ child, (w.standing t).release = .recorded child → w.alive child = false) :
    Turn t (w.standing t).release w (w.unlinked t) := by
  have hnot := release_not_claiming (w.standing t)
  have hgrows : w.Grows (w.unlinked t) := by
    refine ⟨fun _ h => h, fun _ _ h => h, fun _ _ => rfl, Nat.le_refl _, ?_⟩
    intro q fd hfd hq
    refine Turn.opened_of_update (t := t) rfl ?_ hfd hq
    intro fd hopened
    rw [hopened] at hnot
    cases hnot
  refine ⟨hgrows, fun _ h => h, rfl, fun _ _ => rfl, rfl, rfl, hw.zero, hw.used, nofun, ?_, ?_, ?_, ?_,
    nofun⟩
  · intro hunused
    rw [hw.idle t hunused]
    rfl
  · intro hclaiming
    rw [hnot] at hclaiming
    cases hclaiming
  · intro c hc
    rcases hc with hspawned | hrecorded
    · rw [hspawned] at hnot
      cases hnot
    · exact hw.child t c (release_recorded hrecorded)
  · intro hholds
    rw [Holds, show (w.unlinked t).standing t = _ from Function.update_self ..] at hholds
    rcases hholds with hclaiming | ⟨child, hrecorded, halive⟩
    · rw [hnot] at hclaiming
      cases hclaiming
    · rw [show (w.unlinked t).alive child = false from hown child hrecorded] at halive
      cases halive

/-- A process that holds no claim takes away only what is stale, when it has read what is there. -/
theorem removePidfile_stale (hclaiming : (w.standing t).isClaiming = false)
    (hstale : ∀ w', Kept t w w' → w'.Sound → ∀ f, w'.file = some f → w'.lastStat t = some f →
      w'.lastRead t = some f → w'.Stale f) :
    Ensures lockRules t removePidfile (fun _ w' => Since t w w') w := by
  refine Ensures.ask ?_
  intro w₀ h hsound hmay x r w₁ hperform
  have hnot := h.calm.not_claiming hclaiming
  rcases perform_unlink hperform with ⟨-, rfl⟩ | ⟨-, rfl⟩
  · exact ⟨⟨hsound, fun u _ => Kept.refl u w₁⟩, fun w₂ h' _ => (h.trans h').calm.toSince⟩
  · have hfree : ∀ p, ¬ w₀.Holds p := by
      intro p hp
      obtain ⟨f, hf, -⟩ := hsound.held p hp
      obtain ⟨hstat, hread⟩ := hmay.2 hnot f hf
      exact hsound.not_holds hf (hstale w₀ h hsound f hf hstat hread) hp
    have hown : ∀ child, (w₀.standing t).release = .recorded child → w₀.alive child = false := by
      intro child hrelease
      rw [release_of_not_claiming hnot] at hrelease
      by_contra halive
      exact hfree t (Or.inr ⟨child, hrelease, Bool.eq_true_of_not_eq_false halive⟩)
    have hturn := unlinked_turn hsound hown
    refine ⟨⟨hturn.sound hsound fun p _ => hfree p, fun u hu => hturn.kept (fun p _ => hfree p) hu⟩, ?_⟩
    intro w₂ h' _
    refine ⟨(h.grows.trans hturn.grows).trans h'.grows, ?_, fun ha => h'.alive (h.alive ha)⟩
    rw [h'.standing, hturn.standing_self, release_of_not_claiming hnot, h.standing]

/-- What a start holds it may take away, but for a child that lives. -/
theorem removePidfile_own (hclaiming : (w.standing t).isClaiming = true) :
    Ensures lockRules t removePidfile (fun out w' => (w.alive t = true → w'.alive t = true) ∧
      w'.standing t = if out.isOk then (w.standing t).release else w.standing t) w := by
  refine Ensures.ask ?_
  intro w₀ h hsound hmay x r w₁ hperform
  have hclaim : (w₀.standing t).isClaiming = true := by
    rw [h.standing]
    exact hclaiming
  rcases perform_unlink hperform with ⟨rfl, rfl⟩ | ⟨rfl, rfl⟩
  · refine ⟨⟨hsound, fun u _ => Kept.refl u w₁⟩, ?_⟩
    intro w₂ h' _
    exact ⟨fun ha => h'.alive (h.alive ha), h'.standing.trans h.standing⟩
  · have hfree : ∀ p, p ≠ t → ¬ w₀.Holds p :=
      fun p hpt hp => hpt (hsound.exclusive hp (Or.inl hclaim))
    have hown : ∀ child, (w₀.standing t).release = .recorded child → w₀.alive child = false := by
      intro child hrelease
      rcases release_recorded hrelease with hspawned | hrecorded
      · exact hmay.1 child hspawned
      · rw [hrecorded] at hclaim
        cases hclaim
    have hturn := unlinked_turn hsound hown
    refine ⟨⟨hturn.sound hsound hfree, fun u hu => hturn.kept hfree hu⟩, ?_⟩
    intro w₂ h' _
    refine ⟨fun ha => h'.alive (h.alive ha), ?_⟩
    rw [h'.standing, hturn.standing_self, h.standing]
    rfl

theorem sameFingerprint_eq {a b : PidfileFingerprint} (h : sameFingerprint a b = true) : a = b := by
  cases a
  cases b
  simp [sameFingerprint] at h ⊢
  tauto

/-- The second status is of the file that is unlinked, and so is what was read. -/
theorem removeIfSame_spec {fingerprint : PidfileFingerprint} (hw : w.Sound)
    (hclaiming : (w.standing t).isClaiming = false)
    (hjudged : ∃ f, w.lastRead t = some f ∧ (f.fingerprint = fingerprint → w.Stale f)) :
    Ensures lockRules t (removeIfSame fingerprint) (fun _ w' => Since t w w') w := by
  obtain ⟨f, hf, hstale⟩ := hjudged
  have hend : ∀ (b : Bool) w', Since t w w' → Ensures lockRules t (pure b : Script Bool)
      (fun _ w' => Since t w w') w' :=
    fun b w' h => Ensures.pure fun w'' h' _ => h.trans h'.calm.toSince
  rw [removeIfSame]
  refine Ensures.bind (orAbsent_spec (M := fun out w' => Calm t w w' ∧ ∀ current, out = .ok current →
    ∃ g, w'.lastStat t = some g ∧ g.fingerprint = current) (ensures_quiet rfl ?_)) ?_ ?_
  · intro w₀ x r w₁ h _ _ hperform w₂ h' _
    refine ⟨calm_of_perform rfl h hperform h', ?_⟩
    intro current hr
    rw [h'.lastStat]
    exact perform_stat hperform hr
  · rintro found w₁ - ⟨got, ⟨hcalm, hstat⟩, hgot⟩
    cases found with
    | none => exact hend false w₁ hcalm.toSince
    | some current =>
        obtain ⟨g, hg, hcurrent⟩ := hstat current (hgot current rfl)
        simp only
        split
        · rename_i hsame
          refine Ensures.bind (removePidfile_stale ?_ ?_) ?_ ?_
          · exact hcalm.not_claiming hclaiming
          · intro w₂ h _ f' _ hlast hread
            obtain rfl := Option.some.inj ((h.lastStat.trans hg).symm.trans hlast)
            obtain rfl := Option.some.inj ((h.lastRead.trans (hcalm.lastRead.trans hf)).symm.trans hread)
            exact (hcalm.grows.trans h.grows).stale (hw.read t f hf)
              (hstale (hcurrent.trans (sameFingerprint_eq hsame)))
          · exact fun _ w₂ _ h => hend true w₂ (hcalm.toSince.trans h)
          · exact fun _ w₂ _ h => hcalm.toSince.trans h
        · exact hend false w₁ hcalm.toSince
  · rintro e w₁ - ⟨got, ⟨hcalm, -⟩, -⟩
    exact hcalm.toSince

theorem removePidfileIfUnchanged_spec {i : PidfileInspection} (hw : w.Sound)
    (hclaiming : (w.standing t).isClaiming = false) (hjudged : Judged t w i)
    (hstate : i.state = .stale ∨ i.snapshot = .none) :
    Ensures lockRules t (removePidfileIfUnchanged i.snapshot) (fun _ w' => Since t w w') w := by
  rw [removePidfileIfUnchanged]
  cases hfp : i.snapshot.fingerprint with
  | none => exact Ensures.pure fun w' h _ => h.calm.toSince
  | some fp =>
      rcases hstate with hstate | hnone
      · obtain ⟨f, hf, hstale⟩ := hjudged.snapshot fp hfp
        exact removeIfSame_spec hw hclaiming ⟨f, hf, hstale hstate⟩
      · rw [hnone] at hfp
        cases hfp

theorem removePidfileIfHoldsPid_spec {pid : Pid} (hclaiming : (w.standing t).isClaiming = false)
    (hgone : w.Gone pid) :
    Ensures lockRules t (removePidfileIfHoldsPid pid) (fun _ w' => Since t w w') w := by
  have hend : ∀ w', Since t w w' → Ensures lockRules t (pure false : Script Bool)
      (fun _ w' => Since t w w') w' :=
    fun w' h => Ensures.pure fun w'' h' _ => h.trans h'.calm.toSince
  rw [removePidfileIfHoldsPid]
  refine Ensures.bind readPidfileSnapshot_spec ?_ ?_
  · rintro snapshot w₁ hw₁ ⟨h, hread⟩
    have hsnapped := hread snapshot rfl
    cases snapshot with
    | record r fp =>
        simp only
        split
        · rename_i hpid
          obtain ⟨f, hf, htext⟩ := hsnapped fp rfl
          obtain ⟨-, hblank, hclaim, hrecord⟩ := snapshot_record htext.symm
          refine (removeIfSame_spec hw₁ ?_ ⟨f, hf, fun _ => ⟨?_, ?_, ?_⟩⟩).mono ?_
          · exact h.not_claiming hclaiming
          · exact fun hc => absurd hc hblank
          · exact fun c _ hc => absurd hc (hclaim c)
          · intro r' hr'
            rw [hrecord r' hr', hpid]
            exact h.grows.gone hgone
          · exact fun _ w₂ _ h' => h.trans h'
        · exact hend w₁ h
    | none => exact hend w₁ h
    | claim c fp => exact hend w₁ h
    | invalid fp => exact hend w₁ h
  · exact fun e w₁ _ hM => hM.1

end Cli

end HuginAgent
