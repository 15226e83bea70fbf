/-
What is still running when the store is closed.

The end of a session leaves the runs alone, because they are to survive a reconnect, and
`stop` is only the end of a session after which no other is begun.  So `start` closes the
store over whatever runs there are.  A run that is not fenced writes with its next
event, and that write raises.
-/
import HuginAgent.Daemon.Session

namespace HuginAgent

open JobManager Ledger

variable {env : Env} {w : World} {d : Daemon} {r : Ref}

/-- The handler of a callback or timer performs a store operation (`closedStep_eq`). -/
def touchesStore (env : Env) (w : World) : Action → Bool
  | .callback r (.event _) => r ∈ w.runs && !(w.jobs r).fenced
  | .callback r (.done outcome) => r ∈ w.runs && r ∉ w.ended && !(w.jobs r).fenced &&
      (resultDigest env.sha256Base64Url (resultMsgOf env w r outcome)).isOk
  | _ => false

/-- No callback of an engine that keeps its contract, and no timer, finds the store closed. -/
def Quiet (env : Env) (d : Daemon) : Prop :=
  d.storeOpen = false → ∀ act : Action, act.isInternal = true → SilentWhenDone d.world act →
    touchesStore env d.world act = false

/-- Every run is over or cut off. -/
def AllDetached (w : World) : Prop := ∀ r ∈ w.runs, r ∉ w.ended → (w.jobs r).fenced = true

/-- The store is closed over no live run. -/
def ClosesDetached (d : Daemon) : DaemonAction → Prop
  | .finish =>
      match d.session with
      | .none => d.running = false → AllDetached d.world
      | _ => True
  | _ => True

/-- What does not touch the store does not care whether it is open. -/
theorem closedStep_eq {act : Action} (hact : act.isInternal = true)
    (h : touchesStore env w act = false) : Daemon.closedStep env w act = step env w act := by
  cases act with
  | callback r cb =>
      show Daemon.closedCallback env w r cb = callback env w r cb
      cases cb with
      | approval req => rfl
      | event ev =>
          rw [Daemon.closedCallback, callback]
          by_cases hrun : r ∈ w.runs
          · have hf : (w.jobs r).fenced = true := by simpa [touchesStore, hrun] using h
            rw [if_pos hrun, if_neg (by simp [hf]), onEvent, if_pos hf]
          · rw [if_neg hrun, if_neg fun hc => hrun hc.1]
      | done outcome =>
          rw [Daemon.closedCallback]
          split
          · rename_i hlive
            cases hdigest : resultDigest env.sha256Base64Url (resultMsgOf env w r outcome) with
            | error e => rw [callback, if_pos hlive.1, onDone_lost hlive.2 hdigest]
            | ok digest => simp [touchesStore, hlive, hdigest, Except.isOk, Except.toBool] at h
          · rfl
  | timer id => rfl
  | tick ms => rfl
  | _ => cases hact

theorem quiet_iff (hclosed : d.storeOpen = false) : Quiet env d ↔ AllDetached d.world := by
  constructor
  · intro h r hrun hended
    have hevent := h hclosed (.callback r (.event sampleEvent)) rfl hended
    simpa [touchesStore, hrun] using hevent
  · intro h _ act hact hsilent
    cases act with
    | callback r cb =>
        cases cb with
        | approval req => rfl
        | event ev =>
            by_cases hrun : r ∈ d.world.runs
            · simp [touchesStore, h r hrun hsilent]
            · simp [touchesStore, hrun]
        | done outcome =>
            by_cases hlive : r ∈ d.world.runs ∧ r ∉ d.world.ended
            · simp [touchesStore, h r hlive.1 hlive.2]
            · by_cases hrun : r ∈ d.world.runs
              · simp [touchesStore, hrun, not_not.mp (not_and.mp hlive hrun)]
              · simp [touchesStore, hrun]
    | _ => rfl

/-! ### On a closed store -/

/-- A run stays one of the process, over once it is over, and cut off as it was. -/
structure Carried (w w' : World) : Prop where
  runs : w'.runs = w.runs
  ended : ∀ r ∈ w.ended, r ∈ w'.ended
  fenced : ∀ r, (w'.jobs r).fenced = (w.jobs r).fenced

theorem Carried.refl (w : World) : Carried w w := ⟨rfl, fun _ h => h, fun _ => rfl⟩

theorem Carried.detached {w' : World} (h : Carried w w') (hw : AllDetached w) : AllDetached w' := by
  intro r hrun hended
  rw [h.fenced]
  exact hw r (h.runs ▸ hrun) fun hc => hended (h.ended r hc)

theorem fenced_modifyJob (w : World) (r : Ref) {f : JobState → JobState}
    (hf : ∀ s, (f s).fenced = s.fenced) (q : Ref) :
    ((w.modifyJob r f).jobs q).fenced = (w.jobs q).fenced :=
  apply_update JobState.fenced (hf _) q

theorem fenced_clearApprovals (w : World) (r q : Ref) :
    ((w.clearApprovals r).jobs q).fenced = (w.jobs q).fenced := by
  unfold World.clearApprovals
  rw [fenced_modifyJob _ _ (by intro s; rfl)]

theorem carried_closedCallback (cb : Callback) :
    Carried w (Daemon.closedCallback env w r cb) := by
  cases cb with
  | approval req =>
      rw [Daemon.closedCallback, callback, onApprovalRequest]
      repeat' split
      · exact Carried.refl w
      · exact ⟨rfl, fun _ h => h, fenced_modifyJob _ _ fun _ => rfl⟩
      · exact Carried.refl w
  | event ev =>
      rw [Daemon.closedCallback]
      split
      · exact ⟨rfl, fun _ h => h, fenced_modifyJob _ _ fun _ => rfl⟩
      · exact Carried.refl w
  | done outcome =>
      have hstop : ∀ w : World, ∀ q, (((w.modifyJob r fun s => { s with run := none }).clearApprovals
          r).jobs q).fenced = (w.jobs q).fenced := by
        intro w q
        rw [fenced_clearApprovals]
        exact fenced_modifyJob _ _ (by intro s; rfl) q
      rw [Daemon.closedCallback]
      split
      · exact ⟨rfl, fun _ h => List.mem_cons_of_mem _ h, hstop _⟩
      · rename_i hlive
        rw [callback]
        split
        · rename_i hact
          have hf : (w.jobs r).fenced = true := by simpa [hact] using hlive
          rw [onDone_fenced hf]
          exact ⟨rfl, fun _ h => List.mem_cons_of_mem _ h, hstop _⟩
        · exact Carried.refl w

theorem carried_closedStep (act : Action) : Carried w (Daemon.closedStep env w act) := by
  cases act with
  | callback r cb => exact carried_closedCallback cb
  | timer id =>
      rw [Daemon.closedStep, onTimer]
      split
      · exact Carried.refl w
      · refine ⟨rfl, fun _ h => h, ?_⟩
        intro q
        simp only [World.callRun]
        rw [fenced_modifyJob _ _ (by intro s; rfl)]
  | tick ms => exact ⟨rfl, fun _ h => h, fun _ => rfl⟩
  | _ => exact Carried.refl w

/-! ### Runs of the daemon -/

theorem quiet_of_open (h : d.storeOpen = true) : Quiet env d := by
  intro hclosed
  rw [h] at hclosed
  cases hclosed

theorem quiet_step (h : Quiet env d) (act : DaemonAction) :
    Quiet env (d.step env act) ↔ ClosesDetached d act := by
  -- what leaves store and runs as they are changes nothing
  have hsame : ∀ d' : Daemon, d'.storeOpen = d.storeOpen → Carried d.world d'.world →
      Quiet env d' := by
    intro d' hstore hcarried
    cases hopen : d.storeOpen with
    | true => exact quiet_of_open (hstore.trans hopen)
    | false =>
        rw [quiet_iff (hstore.trans hopen)]
        exact hcarried.detached ((quiet_iff hopen).mp h)
  cases act with
  | dial =>
      refine iff_of_true ?_ trivial
      rw [Daemon.step]
      repeat' split
      all_goals exact hsame _ rfl (Carried.refl _)
  | connected =>
      refine iff_of_true ?_ trivial
      rw [Daemon.step]
      split
      all_goals exact hsame _ rfl (Carried.refl _)
  | accepted epoch =>
      refine iff_of_true ?_ trivial
      rw [Daemon.step]
      split
      · rw [Daemon.accept]
        split
        all_goals exact hsame _ rfl (Carried.refl _)
      · exact hsame _ rfl (Carried.refl _)
  | ended => exact iff_of_true (hsame _ rfl (Carried.refl _)) trivial
  | stop =>
      refine iff_of_true ?_ trivial
      rw [Daemon.step]
      split
      all_goals exact hsame _ rfl ⟨rfl, fun _ h => h, fun _ => rfl⟩
  | restart => exact iff_of_true (quiet_of_open rfl) trivial
  | manager act =>
      refine iff_of_true ?_ trivial
      rw [Daemon.step]
      split
      · split
        · rename_i hopen
          exact quiet_of_open hopen
        · exact hsame _ rfl (carried_closedStep act)
      · exact hsame _ rfl (Carried.refl _)
  | finish =>
      rw [Daemon.step, ClosesDetached]
      cases d.session with
      | none =>
          simp only
          cases hrunning : d.running with
          | true => exact iff_of_true (hsame _ rfl (Carried.refl _)) (by simp)
          | false =>
              simp only [Bool.false_eq_true, if_false, forall_const]
              exact quiet_iff rfl
      | _ => exact iff_of_true (hsame _ rfl (Carried.refl _)) trivial

/-- **No callback finds the store closed just where it is closed over no live run.** -/
theorem shutdown_quiet_iff (env : Env) (acts : List DaemonAction) :
    (∀ pre post, acts = pre ++ post → Quiet env (Daemon.runFrom env pre)) ↔
      Daemon.Along env ClosesDetached acts :=
  Machine.always_iff (J := fun _ => True) (I := Quiet env) (fun _ _ _ => trivial)
    (fun _ act _ h => quiet_step h act) trivial (quiet_of_open rfl)

/-- The daemon is stopped while a run goes on. -/
theorem unquiet_by_live_run : ¬ ∀ env acts, Quiet env (Daemon.runFrom env acts) := by
  intro hall
  have h := hall (sampleEnv sampleDigest .limits)
    [.dial, .connected, .accepted 0, .manager (sampleAssign "a" "l"), .stop, .ended, .finish]
    (by decide +kernel) (.callback 0 (.event sampleEvent)) rfl (by decide +kernel)
  exact absurd h (by decide +kernel)

end HuginAgent
