/-
Waiting for a daemon, stopping one, and the status.

These leave the lock as it is: they read, and they take away a record only when its daemon has ended
or is no daemon.
-/
import HuginAgent.Cli.Removal

namespace HuginAgent

namespace Cli

open Cli.World

variable {w w' w'' : World} {p q t u : Pid} {f : PidFile}

/-! ### Waiting -/

/-- One program after another, both of which leave what the process knows of itself. -/
theorem bind_since {α β : Type} {p : Script α} {g : α → Script β}
    {M : Except Failure α → World → Prop}
    (h : Ensures lockRules t p (fun out w' => Since t w w' ∧ M out w') w)
    (hg : ∀ a w', w'.Sound → Since t w w' → M (.ok a) w' →
      Ensures lockRules t (g a) (fun _ w'' => Since t w' w'') w') :
    Ensures lockRules t (p >>= g) (fun _ w' => Since t w w') w := by
  refine Ensures.bind h ?_ ?_
  · intro a w' hw' hM
    exact (hg a w' hw' hM.1 hM.2).mono fun _ w'' _ h' => hM.1.trans h'
  · exact fun e w' _ hM => hM.1

theorem since_and {α : Type} {p : Script α} (h : Ensures lockRules t p (fun _ w' => Since t w w') w) :
    Ensures lockRules t p (fun _ w' => Since t w w' ∧ True) w :=
  h.mono fun _ _ _ h' => ⟨h', trivial⟩

theorem pure_since {α : Type} (a : α) :
    Ensures lockRules t (pure a : Script α) (fun _ w' => Since t w w') w :=
  Ensures.pure fun _ h _ => h.calm.toSince

theorem ask_since {c : Call} (hc : c.isCalm = true) :
    Ensures lockRules t (ask c) (fun _ w' => Since t w w') w :=
  (ask_calm hc).mono fun _ _ _ h => h.toSince

theorem orAbsent_since {α : Type} {p : Script α}
    (h : Ensures lockRules t p (fun _ w' => Since t w w') w) :
    Ensures lockRules t (orAbsent p) (fun _ w' => Since t w w') w :=
  (orAbsent_spec h).mono fun _ _ _ hM => hM.choose_spec.1

theorem startFailureMessage_spec (opts : Options) (detail : JsString) :
    Ensures lockRules t (startFailureMessage opts detail) (fun _ w' => Since t w w') w := by
  rw [startFailureMessage]
  exact bind_since (since_and (orAbsent_since (ask_since rfl))) fun _ _ _ _ _ => pure_since _

theorem logContainsMarkerSince_spec (marker : JsString) (offset : Nat) :
    Ensures lockRules t (logContainsMarkerSince marker offset) (fun _ w' => Since t w w') w := by
  rw [logContainsMarkerSince]
  split
  · exact pure_since _
  · exact bind_since (since_and (orAbsent_since (ask_since rfl))) fun _ _ _ _ _ => pure_since _

theorem readRecord_spec :
    Ensures lockRules t readRecord (fun _ w' => Since t w w') w := by
  rw [readRecord]
  refine bind_since readPidfileSnapshot_spec ?_
  intro snapshot w' _ _ _
  cases snapshot <;> exact pure_since _

theorem pidfileHoldsPid_spec (pid : Pid) :
    Ensures lockRules t (pidfileHoldsPid pid) (fun _ w' => Since t w w') w := by
  rw [pidfileHoldsPid]
  exact bind_since (since_and readRecord_spec) fun _ _ _ _ _ => pure_since _

theorem Since.gone {pid : Pid} (h : Since t w w') (hused : w.used pid = true)
    (hdead : w'.alive pid = false) : w'.Gone pid where
  used := h.grows.used pid hused
  notOurs halive := by
    rw [hdead] at halive
    cases halive

theorem killStartedChild_spec {pid : Pid} (hused : w.used pid = true) :
    Ensures lockRules t (killStartedChild pid) (fun _ w' => Since t w w') w := by
  rw [killStartedChild]
  refine bind_since ((isPidAlive_spec hused).mono fun _ _ _ h => ⟨h.1.toSince, trivial⟩) ?_
  intro alive w' _ _ (_ : True)
  cases alive with
  | true => exact ask_since rfl
  | false => exact pure_since _

theorem childExit_spec {pid : Pid} (hused : w.used pid = true) :
    Ensures lockRules t (ask (.childExit pid)) (fun out w' => Since t w w' ∧
      ∀ exit, out = .ok (some exit) → w'.alive pid = false) w := by
  refine ensures_quiet rfl ?_
  intro w₀ x r w₁ h _ _ hperform w₂ h' _
  refine ⟨since_of_perform rfl h hperform h', ?_⟩
  obtain ⟨rfl, htold⟩ := perform_childExit hperform
  intro exit hr
  exact h'.grows.dead pid (h.grows.used pid hused) (htold exit hr)

theorem childRuns_spec {pid : Pid} {exit : Option ChildExit} (hused : w.used pid = true)
    (hexit : ∀ e, exit = some e → w.alive pid = false) :
    Ensures lockRules t (childRuns pid exit)
      (fun out w' => Since t w w' ∧ (out = .ok false → w'.alive pid = false)) w := by
  rw [childRuns]
  cases exit with
  | some e =>
      refine Ensures.pure ?_
      intro w' h _
      exact ⟨h.calm.toSince, fun _ => h.grows.dead pid hused (hexit e rfl)⟩
  | none => exact (isPidAlive_spec hused).mono fun _ _ _ h => ⟨h.1.toSince, h.2⟩

theorem startFailed_spec (opts : Options) {pid : Pid} (exit : Option ChildExit)
    (hused : w.used pid = true) :
    Ensures lockRules t (startFailed opts pid exit) (fun _ w' => Since t w w') w := by
  rw [startFailed]
  refine bind_since (since_and (killStartedChild_spec hused)) ?_
  intro _ w' _ _ _
  exact bind_since (since_and (startFailureMessage_spec opts _)) fun _ _ _ _ _ => pure_since _

/-- The record is only taken away when the daemon has ended. -/
theorem checkChild_spec (opts : Options) {pid : Pid} (hused : w.used pid = true)
    (hclaiming : (w.standing t).isClaiming = false) :
    Ensures lockRules t (checkChild opts pid) (fun _ w' => Since t w w') w := by
  have hfail : ∀ w' exit, w'.used pid = true → Ensures lockRules t (do
      let failed ← startFailed opts pid exit
      pure (some failed)) (fun _ w'' => Since t w' w'') w' :=
    fun w' exit hused' =>
      bind_since (since_and (startFailed_spec opts exit hused')) fun _ _ _ _ _ => pure_since _
  rw [checkChild]
  refine bind_since (since_and (pidfileHoldsPid_spec pid)) ?_
  intro owns w₁ _ h₁ _
  have hused₁ := h₁.grows.used pid hused
  refine bind_since (childExit_spec hused₁) ?_
  intro exit w₂ _ h₂ hexit
  have hused₂ := h₂.grows.used pid hused₁
  refine bind_since (childRuns_spec hused₂ fun e he => hexit e (by rw [he])) ?_
  intro alive w₃ _ h₃ hdead
  have hused₃ := h₃.grows.used pid hused₂
  cases owns with
  | false =>
      cases alive with
      | true => exact hfail w₃ exit hused₃
      | false => exact hfail w₃ exit hused₃
  | true =>
      cases alive with
      | true => exact pure_since _
      | false =>
          have hclaiming₃ := ((h₁.trans h₂).trans h₃).not_claiming hclaiming
          have hgone := h₃.gone hused₂ (hdead rfl)
          refine bind_since (M := fun _ _ => True) ?_ fun _ w₄ _ h₄ _ =>
            hfail w₄ exit (h₄.grows.used pid hused₃)
          rw [cleanupStartedPidfile]
          exact since_and (bind_since (since_and (removePidfileIfHoldsPid_spec hclaiming₃ hgone))
            fun _ _ _ _ _ => pure_since _)

section

variable (opts : Options) {pid : Pid}

theorem waitForStability_spec (stableDeadline polls : Nat) (hused : w.used pid = true)
    (hclaiming : (w.standing t).isClaiming = false) :
    Ensures lockRules t (waitForStability opts pid stableDeadline polls)
      (fun _ w' => Since t w w') w := by
  induction polls generalizing w with
  | zero => exact pure_since _
  | succ polls ih =>
      rw [waitForStability]
      refine bind_since (since_and (ask_since rfl)) ?_
      intro now w₁ _ h₁ _
      split
      · exact pure_since _
      · have hused₁ := h₁.grows.used pid hused
        have hclaiming₁ := h₁.not_claiming hclaiming
        refine bind_since (since_and (checkChild_spec opts hused₁ hclaiming₁)) ?_
        intro failed w₂ _ h₂ _
        cases failed with
        | some failed => exact pure_since _
        | none => exact ih (h₂.grows.used pid hused₁) (h₂.not_claiming hclaiming₁)

theorem readinessEnd_spec (hused : w.used pid = true)
    (hclaiming : (w.standing t).isClaiming = false) :
    Ensures lockRules t (readinessEnd opts pid) (fun _ w' => Since t w w') w := by
  rw [readinessEnd]
  exact bind_since (since_and (checkChild_spec opts hused hclaiming)) fun _ _ _ _ _ => pure_since _

theorem awaitStability_spec (hused : w.used pid = true)
    (hclaiming : (w.standing t).isClaiming = false) :
    Ensures lockRules t (awaitStability opts pid) (fun _ w' => Since t w w') w := by
  rw [awaitStability]
  refine bind_since (since_and (ask_since rfl)) ?_
  intro now w₁ _ h₁ _
  have hused₁ := h₁.grows.used pid hused
  have hclaiming₁ := h₁.not_claiming hclaiming
  refine bind_since (since_and (waitForStability_spec opts _ _ hused₁ hclaiming₁)) ?_
  intro failed w₂ _ h₂ _
  cases failed with
  | some failed => exact pure_since _
  | none =>
      have hclaiming₂ := h₂.not_claiming hclaiming₁
      exact bind_since (since_and (checkChild_spec opts (h₂.grows.used pid hused₁) hclaiming₂))
        fun _ _ _ _ _ => pure_since _

theorem readinessLoop_spec (logOffset deadline polls : Nat) (hused : w.used pid = true)
    (hclaiming : (w.standing t).isClaiming = false) :
    Ensures lockRules t (readinessLoop opts pid logOffset deadline polls)
      (fun _ w' => Since t w w') w := by
  induction polls generalizing w with
  | zero => exact readinessEnd_spec opts hused hclaiming
  | succ polls ih =>
      have hsince : ∀ {w'}, Since t w w' → w'.used pid = true ∧ (w'.standing t).isClaiming = false :=
        fun h => ⟨h.grows.used pid hused, h.not_claiming hclaiming⟩
      rw [readinessLoop]
      refine bind_since (since_and (checkChild_spec opts hused hclaiming)) ?_
      intro failed w₁ _ h₁ _
      cases failed with
      | some failed => exact pure_since _
      | none =>
          refine bind_since (since_and (logContainsMarkerSince_spec opts.marker logOffset)) ?_
          intro ready w₂ _ h₂ _
          have h₂ := h₁.trans h₂
          cases ready with
          | true => exact awaitStability_spec opts (hsince h₂).1 (hsince h₂).2
          | false =>
              refine bind_since (since_and (ask_since rfl)) ?_
              intro now w₃ _ h₃ _
              have h₃ := h₂.trans h₃
              split
              · exact readinessEnd_spec opts (hsince h₃).1 (hsince h₃).2
              · exact ih (hsince h₃).1 (hsince h₃).2

theorem waitForDaemonReadiness_spec (logOffset : Nat) (hused : w.used pid = true)
    (hclaiming : (w.standing t).isClaiming = false) :
    Ensures lockRules t (waitForDaemonReadiness opts pid logOffset) (fun _ w' => Since t w w') w := by
  rw [waitForDaemonReadiness]
  refine bind_since (since_and (ask_since rfl)) ?_
  intro now w₁ _ h₁ _
  exact readinessLoop_spec opts _ _ _ (h₁.grows.used pid hused) (h₁.not_claiming hclaiming)

end

/-! ### Stopping, and the status -/

/-- The last look at the process. -/
theorem lastLook_spec {pid : Pid} (alive : Bool) {w₀ : World} (hused : w.used pid = true)
    (h : Since t w w₀) (hdead : alive = false → w₀.alive pid = false) :
    Ensures lockRules t (pure !alive : Script Bool)
      (fun out w' => Since t w w' ∧ (out = .ok true → w'.alive pid = false)) w₀ := by
  refine Ensures.pure ?_
  intro w' h' _
  refine ⟨h.trans h'.calm.toSince, ?_⟩
  intro hout
  exact h'.grows.dead pid (h.grows.used pid hused) (hdead (by simpa using hout))

theorem waitForExitLoop_spec {pid : Pid} (deadline polls : Nat) (hused : w.used pid = true) :
    Ensures lockRules t (waitForExitLoop pid deadline polls)
      (fun out w' => Since t w w' ∧ (out = .ok true → w'.alive pid = false)) w := by
  have herror : ∀ (e : Failure) w', Since t w w' → Since t w w' ∧
      ((.error e : Except Failure Bool) = .ok true → w'.alive pid = false) := by
    intro e w' h
    refine ⟨h, ?_⟩
    intro hc
    cases hc
  induction polls generalizing w with
  | zero =>
      rw [waitForExitLoop]
      refine Ensures.bind (isPidAlive_spec hused) ?_ ?_
      · exact fun alive w₁ _ hM => lastLook_spec _ hused hM.1.toSince fun halive => hM.2 (by rw [halive])
      · exact fun e w₁ _ hM => herror e w₁ hM.1.toSince
  | succ polls ih =>
      rw [waitForExitLoop]
      refine Ensures.bind (ask_since rfl) ?_ fun e w₁ _ hM => herror e w₁ hM
      intro now w₁ _ h₁
      refine Ensures.bind (isPidAlive_spec (h₁.grows.used pid hused)) ?_
        fun e w₂ _ hM => herror e w₂ (h₁.trans hM.1.toSince)
      rintro alive w₂ - ⟨hcalm, hdead⟩
      have h₂ := h₁.trans hcalm.toSince
      split
      · exact lastLook_spec _ hused h₂ fun halive => hdead (by rw [halive])
      · cases alive with
        | false => exact lastLook_spec false hused h₂ fun _ => hdead rfl
        | true =>
            refine (ih (h₂.grows.used pid hused) ?_).mono ?_
            · intro e w' h
              refine ⟨h, ?_⟩
              intro hc
              cases hc
            · exact fun out w₃ _ hM => ⟨h₂.trans hM.1, hM.2⟩

theorem waitForExit_spec (opts : Options) {pid : Pid} (timeoutMs : Nat) (hused : w.used pid = true) :
    Ensures lockRules t (waitForExit opts pid timeoutMs)
      (fun out w' => Since t w w' ∧ (out = .ok true → w'.alive pid = false)) w := by
  rw [waitForExit]
  refine Ensures.bind (ask_since rfl) ?_ ?_
  · intro now w₁ _ h₁
    refine (waitForExitLoop_spec _ _ (h₁.grows.used pid hused)).mono ?_
    exact fun out w₂ _ hM => ⟨h₁.trans hM.1, hM.2⟩
  · intro e w₁ _ hM
    refine ⟨hM, ?_⟩
    intro hc
    cases hc

theorem stopped_spec {pid : Pid} (unverified : Bool) (hclaiming : (w.standing t).isClaiming = false)
    (hgone : w.Gone pid) :
    Ensures lockRules t (stopped pid unverified) (fun _ w' => Since t w w') w := by
  rw [stopped]
  exact bind_since (since_and (removePidfileIfHoldsPid_spec hclaiming hgone))
    fun _ _ _ _ _ => pure_since _

theorem stopRunning_spec (opts : Options) {pid : Pid} (unverified : Bool)
    (hclaiming : (w.standing t).isClaiming = false) (hused : w.used pid = true) :
    Ensures lockRules t (stopRunning opts pid unverified) (fun _ w' => Since t w w') w := by
  have hstopped : ∀ {w₀ w'}, Since t w w₀ → Since t w₀ w' → w'.alive pid = false →
      Ensures lockRules t (stopped pid unverified) (fun _ w'' => Since t w' w'') w' := by
    intro w₀ w' h h' hdead
    have hclaiming' := (h.trans h').not_claiming hclaiming
    exact stopped_spec unverified hclaiming' (h'.gone (h.grows.used pid hused) hdead)
  rw [stopRunning]
  refine bind_since (since_and (ask_since rfl)) ?_
  intro _ w₁ _ h₁ _
  refine bind_since (waitForExit_spec opts _ (h₁.grows.used pid hused)) ?_
  intro exited w₂ _ h₂ hdead
  cases exited with
  | true => exact hstopped h₁ h₂ (hdead rfl)
  | false =>
      simp only [Bool.false_eq_true, if_false]
      split
      · refine bind_since (since_and (ask_since rfl)) ?_
        intro _ w₃ _ h₃ _
        have h₃ := (h₁.trans h₂).trans h₃
        refine bind_since (waitForExit_spec opts _ (h₃.grows.used pid hused)) ?_
        intro exited w₄ _ h₄ hdead'
        cases exited with
        | true => exact hstopped h₃ h₄ (hdead' rfl)
        | false => exact pure_since _
      · exact pure_since _

theorem stopDecision_stale {i : Inspection} {force : Bool} (h : stopDecision i force = .stale) :
    i.state = .stale ∨ i.record = none ∨ i.ownership = some .no := by
  unfold stopDecision at h
  split at h
  · cases h
  · split at h
    · cases h
    · split at h
      · rename_i hstale
        rcases hstale with hstale | hnone | hno
        · exact Or.inl hstale
        · exact Or.inr (Or.inl (Option.isNone_iff_eq_none.mp hnone))
        · exact Or.inr (Or.inr hno)
      · split at h <;> cases h

theorem stopDecision_other {i : Inspection} {force : Bool}
    (hnot : stopDecision i force ≠ .notRunning) (hstarting : stopDecision i force ≠ .starting) :
    i.state = .running ∨ i.state = .stale := by
  cases hstate : i.state with
  | running => exact Or.inl rfl
  | stale => exact Or.inr rfl
  | none => exact absurd (by rw [stopDecision, if_pos hstate]) hnot
  | starting =>
      refine absurd ?_ hstarting
      rw [stopDecision, if_neg (by rw [hstate]; decide), if_pos hstate]

theorem stopDaemon_spec (opts : Options) (hclaiming : (w.standing t).isClaiming = false) :
    Ensures lockRules t (stopDaemon opts) (fun _ w' => Since t w w') w := by
  rw [stopDaemon]
  refine bind_since inspectPidfile_spec ?_
  intro i w₁ hw₁ h₁ hi
  have hjudged := hi i rfl
  have hclaiming₁ := h₁.not_claiming hclaiming
  split
  · exact pure_since _
  · exact pure_since _
  · rename_i record hdecision hrecord
    have hstale : i.state = .stale := by
      rcases stopDecision_stale hdecision with hstale | hnone | hno
      · exact hstale
      · rw [hrecord] at hnone
        cases hnone
      · exact hjudged.ownership hno
    exact bind_since (since_and (removePidfileIfHoldsPid_spec hclaiming₁
      ((hjudged.record record hrecord).2 hstale))) fun _ _ _ _ _ => pure_since _
  · rename_i hrecord hnot hstarting
    have hstale : i.state = .stale := by
      rcases stopDecision_other hnot hstarting with hrunning | hstale
      · exact absurd hrecord (hjudged.running hrunning)
      · exact hstale
    exact bind_since (since_and (removePidfileIfUnchanged_spec hw₁ hclaiming₁ hjudged (Or.inl hstale)))
      fun _ _ _ _ _ => pure_since _
  · exact pure_since _
  · rename_i record _ hrecord
    exact stopRunning_spec opts _ hclaiming₁ (hjudged.record record hrecord).1

theorem statusDaemon_spec (opts : Options) (hclaiming : (w.standing t).isClaiming = false) :
    Ensures lockRules t (statusDaemon opts) (fun _ w' => Since t w w') w := by
  rw [statusDaemon]
  refine bind_since inspectPidfile_spec ?_
  intro i w₁ hw₁ h₁ hi
  have hclaiming₁ := h₁.not_claiming hclaiming
  split
  · exact pure_since _
  · exact pure_since _
  · rename_i hstale
    exact bind_since (since_and (removePidfileIfUnchanged_spec hw₁ hclaiming₁ (hi i rfl) (Or.inl hstale)))
      fun _ _ _ _ _ => pure_since _
  · exact pure_since _

end Cli

end HuginAgent
