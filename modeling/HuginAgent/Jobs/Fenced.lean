/-
What a fenced run can still do.

`handleRevoke` and `abandon` set `fenced` before they touch anything else, and every
callback looks at it first.  So of all a fenced run may call back with, in whatever
order and number, only its `onDone` does anything, and that is `retire`: the job's
own `run` and timers go, and the registry entry if it is still this job's.  Nothing
is sent and nothing is written.
-/
import HuginAgent.Jobs.Manager

namespace HuginAgent.JobManager

variable {env : Env} {w : World} {r : Ref}

def isDone : Callback → Bool
  | .done _ => true
  | _ => false

/-- `onDone` of a fenced job. -/
def retire (w : World) (r : Ref) : World :=
  let a := (w.jobs r).attemptId
  let current := w.registry.get a = some r
  let w := { w with
    ended := r :: w.ended
    startedAt := if current then w.startedAt.erase a else w.startedAt
    registry := if current then w.registry.remove a else w.registry }
  (w.modifyJob r fun s => { s with run := none }).clearApprovals r

theorem onDone_fenced (hf : (w.jobs r).fenced = true) (outcome : EngineOutcome) :
    onDone env { w with ended := r :: w.ended } r outcome = retire w r := by
  simp only [onDone, retire, hf, if_true]
  rfl

theorem callback_fenced (hf : (w.jobs r).fenced = true) (cb : Callback) :
    callback env w r cb =
      if (r ∈ w.runs ∧ r ∉ w.ended) ∧ isDone cb = true then retire w r else w := by
  cases cb with
  | event ev =>
      rw [if_neg (by simp [isDone])]
      simp only [callback, onEvent, hf, if_true, ite_self]
  | approval req =>
      rw [if_neg (by simp [isDone])]
      simp only [callback, onApprovalRequest, hf, if_true, ite_self]
  | done outcome =>
      by_cases hact : r ∈ w.runs ∧ r ∉ w.ended
      · rw [if_pos ⟨hact, rfl⟩, callback, if_pos hact]
        exact onDone_fenced hf outcome
      · rw [if_neg (fun hc => hact hc.1), callback, if_neg hact]

theorem retire_fenced (hf : (w.jobs r).fenced = true) : ((retire w r).jobs r).fenced = true := by
  simpa [retire, World.clearApprovals] using hf

theorem retire_ended : r ∈ (retire w r).ended := List.mem_cons_self

/-- The callbacks of a fenced run, one after the other. -/
theorem callbacks_fenced (hf : (w.jobs r).fenced = true) (sync : List Callback) :
    sync.foldl (fun w cb => callback env w r cb) w =
      if (r ∈ w.runs ∧ r ∉ w.ended) ∧ sync.any isDone = true then retire w r else w := by
  induction sync generalizing w with
  | nil => simp
  | cons cb rest ih =>
      rw [List.foldl_cons, callback_fenced hf]
      by_cases hdone : (r ∈ w.runs ∧ r ∉ w.ended) ∧ isDone cb = true
      · -- after the first `onDone` nothing is left to happen
        rw [if_pos hdone, ih (retire_fenced hf), if_neg (fun hc => hc.1.2 retire_ended),
          if_pos ⟨hdone.1, by simp [hdone.2]⟩]
      · rw [if_neg hdone, ih hf]
        by_cases hact : r ∈ w.runs ∧ r ∉ w.ended
        · have hcb : isDone cb = false := by
            cases h : isDone cb with
            | false => rfl
            | true => exact absurd ⟨hact, h⟩ hdone
          rw [List.any_cons, hcb, Bool.false_or]
        · rw [if_neg (fun hc => hact hc.1), if_neg (fun hc => hact hc.1)]

/-- The job with `fenced` set, its timers cleared and its run told to stop. -/
def cutOff (w : World) (r : Ref) : World :=
  ((w.modifyJob r fun s => { s with fenced := true }).clearApprovals r).callRun r (.cancel 0)

/-- The run says that it is done before `cancel(0)` returns. -/
def endsIn (w : World) (r : Ref) (sync : List Callback) : Bool :=
  (w.jobs r).run.isSome && (r ∈ w.runs && r ∉ w.ended) && sync.any isDone

theorem cutOff_fenced : ((cutOff w r).jobs r).fenced = true := by
  simp [cutOff, World.callRun, World.clearApprovals]

theorem cutOff_run : ((cutOff w r).jobs r).run = (w.jobs r).run := by
  simp [cutOff, World.callRun, World.clearApprovals]

/-- **Fencing is cutting off, retiring at once or not at all, and leaving the maps.** -/
theorem fence_eq (a : JsString) (sync : List Callback) :
    fence env w r a sync =
      let w' := if endsIn w r sync = true then retire (cutOff w r) r else cutOff w r
      { w' with
        registry := w'.registry.remove a
        startedAt := w'.startedAt.erase a } := by
  have hsync : syncCallbacks env (cutOff w r) r sync =
      if endsIn w r sync = true then retire (cutOff w r) r else cutOff w r := by
    rw [syncCallbacks, cutOff_run]
    by_cases hrun : (w.jobs r).run.isSome = true
    · rw [if_pos hrun, callbacks_fenced cutOff_fenced]
      by_cases hact : r ∈ w.runs ∧ r ∉ w.ended
      · have hact' : r ∈ (cutOff w r).runs ∧ r ∉ (cutOff w r).ended := hact
        by_cases hany : sync.any isDone = true
        · rw [if_pos ⟨hact', hany⟩, if_pos (by simp only [endsIn]; simp [hrun, hact, hany])]
        · rw [if_neg (fun hc => hany hc.2), if_neg (by simp only [endsIn]; simp [hany])]
      · have hact' : ¬ (r ∈ (cutOff w r).runs ∧ r ∉ (cutOff w r).ended) := hact
        rw [if_neg (fun hc => hact' hc.1), if_neg]
        intro hc
        simp only [endsIn, Bool.and_eq_true, decide_eq_true_eq] at hc
        exact hact hc.1.2
    · rw [if_neg hrun, if_neg (by simp [endsIn, hrun])]
  rw [← hsync]
  rfl

end HuginAgent.JobManager
