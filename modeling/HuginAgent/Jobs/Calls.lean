/-
What each action asks of the engine.

`callsOf` names the engine methods an action calls, with the questions its handler
asks, and `step_calls` says that the log grows by exactly these.  So a fact about
what the manager does to engine runs is read off a list and not off the handlers.
-/
import HuginAgent.Ledger.Refine

namespace HuginAgent

open JobManager Ledger

variable {env : Env} {w : World} {r : Ref}

/-- `state.run?.call`, as it is logged. -/
def onRun (w : World) (r : Ref) (call : EngineCall) : List (Ref × EngineCall) :=
  ((w.jobs r).run.map fun run => (run, call)).toList

def callsOfCallback (env : Env) (w : World) (r : Ref) : Callback → List (Ref × EngineCall)
  | .event ev =>
      if r ∈ w.runs ∧ (w.jobs r).fenced = false then
        match w.store.events.insert? (eventRowOf env w r ev) with
        | some events =>
            if overCap env { w.store with events } (w.jobs r).attemptId then onRun w r .pause else []
        | none => []
      else []
  | .approval _ | .done _ => []

/-- The calls an action makes. -/
def callsOf (env : Env) (w : World) : Action → List (Ref × EngineCall)
  | .assign msg reply => if accepts env w msg reply then [(w.nextRef, .run (specOf msg))] else []
  | .streamAck msg =>
      if leaseOk w (w.registry.get msg.attemptId) msg.attemptId msg.leaseId then
        match resumedBy env w msg with
        | some r => onRun w r .resume
        | none => []
      else []
  | .cancel msg =>
      match w.registry.get msg.attemptId with
      | some r =>
          if leaseOk w (some r) msg.attemptId msg.leaseId then onRun w r (.cancel msg.graceMs)
          else []
      | none => []
  | .approvalResponse msg =>
      match w.registry.get msg.attemptId with
      | some r =>
          if leaseOk w (some r) msg.attemptId msg.leaseId &&
              ((w.jobs r).approvalTimers.lookup msg.requestId).isSome then
            onRun w r (.resolveApproval msg.requestId msg.decision msg.reason)
          else []
      | none => []
  | .revoke msg _ =>
      match w.registry.get msg.attemptId with
      | some r =>
          if leaseOk w (some r) msg.attemptId msg.leaseId then onRun w r (.cancel 0) else []
      | none => []
  | .resume d _ =>
      match d.action, w.registry.get d.attemptId with
      | .abandon, some r => onRun w r (.cancel 0)
      | _, _ => []
  | .callback r cb => callsOfCallback env w r cb
  | .timer id =>
      match w.timers.find? fun t => t.id = id with
      | some t => onRun w t.state (.resolveApproval t.requestId .deny (some (js "approval timeout")))
      | none => []
  | .resultAck _ | .leaseGranted _ | .tick _ | .restart => []

theorem calls_fence (a : JsString) (sync : List Callback) :
    (fence env w r a sync).calls = w.calls ++ onRun w r (.cancel 0) := by
  have hcut : (cutOff w r).calls = w.calls ++ onRun w r (.cancel 0) := by
    simp [cutOff, World.callRun, World.clearApprovals, World.modifyJob, onRun]
  rw [fence_eq]
  by_cases he : endsIn w r sync = true
  · simp only [he, if_true]
    exact hcut
  · simp only [he]
    exact hcut

theorem calls_resendEvents (leaseId : Option JsString) (payloads : List JsString) :
    (resendEvents env leaseId w payloads).1.calls = w.calls := by
  induction payloads generalizing w with
  | nil => rfl
  | cons p rest ih =>
      rw [resendEvents]
      split
      · rfl
      · exact ih

theorem calls_adoptDirectiveLease (d : ResumeDirective) :
    (adoptDirectiveLease w d).calls = w.calls := by
  unfold adoptDirectiveLease
  split
  · rw [adoptLease_eq]
  · rfl

theorem calls_resendResult (d : ResumeDirective) (res : StoredResult) :
    (resendResult env w d res).1.calls = w.calls := by
  unfold resendResult
  split
  · rfl
  · simp only
    split
    · rfl
    · rfl

theorem calls_resume (d : ResumeDirective) (sync : List Callback) :
    (applyDirective env w d sync).1.calls = w.calls ++ callsOf env w (.resume d sync) := by
  cases haction : d.action with
  | resumeFrom =>
      simp only [applyDirective, callsOf, haction, List.append_nil]
      rw [calls_resendEvents, calls_adoptDirectiveLease]
  | resendResult =>
      simp only [applyDirective, callsOf, haction, List.append_nil]
      split
      · exact calls_adoptDirectiveLease d
      · rw [calls_resendResult, calls_adoptDirectiveLease]
  | ackPending => simp only [applyDirective, callsOf, haction, List.append_nil]
  | abandon =>
      simp only [applyDirective, callsOf, haction]
      cases w.registry.get d.attemptId with
      | none => simp only [List.append_nil]
      | some r => exact calls_fence d.attemptId sync

theorem calls_callback (cb : Callback) :
    (callback env w r cb).calls = w.calls ++ callsOfCallback env w r cb := by
  cases cb with
  | approval req =>
      simp only [callback, onApprovalRequest, callsOfCallback, List.append_nil]
      split
      · split <;> rfl
      · rfl
  | event ev =>
      by_cases hact : r ∈ w.runs ∧ (w.jobs r).fenced = false
      · obtain ⟨hrun, hf⟩ := hact
        rw [callsOfCallback, if_pos ⟨hrun, hf⟩, callback, if_pos hrun]
        cases hins : w.store.events.insert? (eventRowOf env w r ev) with
        | none =>
            rw [onEvent_burn hf hins]
            exact (List.append_nil _).symm
        | some events =>
            rw [onEvent_stored hf hins]
            simp only
            split
            · simp [eventStored, World.emit, World.modifyJob, World.callRun, onRun]
            · exact (List.append_nil _).symm
      · rw [callsOfCallback, if_neg hact, List.append_nil, callback]
        split
        · rename_i hrun
          have hf : (w.jobs r).fenced = true := by
            by_contra hc
            exact hact ⟨hrun, Bool.eq_false_iff.mpr hc⟩
          simp only [onEvent, hf, if_true]
        · rfl
  | done outcome =>
      simp only [callback, callsOfCallback, List.append_nil]
      split
      · simp only [onDone]
        split
        · rfl
        · split <;> rfl
      · rfl

/-- **The engine is asked for what `callsOf` says and nothing else.** -/
theorem step_calls (act : Action) : (step env w act).calls = w.calls ++ callsOf env w act := by
  cases act with
  | assign msg reply =>
      simp only [step, handleAssign, callsOf]
      cases hex : existing w msg.attemptId with
      | some found =>
          rw [if_neg (by simp [accepts, hex]), List.append_nil]
          simp only
          split <;> rfl
      | none =>
          cases href : refusal env w msg reply with
          | some rej =>
              rw [if_neg (by simp [accepts, href]), List.append_nil]
              rfl
          | none =>
              rw [if_pos (by simp [accepts, hex, href])]
              simp only [acceptAssign]
              cases reply.runThrows <;> rfl
  | streamAck msg =>
      simp only [step, handleStreamAck, callsOf, resumedBy]
      split
      · cases w.registry.get msg.attemptId with
        | none => simp only [List.append_nil]
        | some r =>
            simp only
            split
            · simp [World.callRun, World.modifyJob, onRun]
            · simp only [List.append_nil]
      · rw [List.append_nil]
  | resultAck msg =>
      simp only [step, handleResultAck, callsOf, List.append_nil]
      split
      · split <;> rfl
      · rfl
  | cancel msg =>
      simp only [step, handleCancel, callsOf]
      cases w.registry.get msg.attemptId with
      | none => rw [List.append_nil]
      | some r =>
          simp only
          split
          · simp [World.callRun, World.send, World.emit, World.modifyJob, onRun]
          · rw [List.append_nil]
  | approvalResponse msg =>
      simp only [step, handleApprovalResponse, callsOf]
      cases w.registry.get msg.attemptId with
      | none => rw [List.append_nil]
      | some r =>
          simp only
          by_cases hok : leaseOk w (some r) msg.attemptId msg.leaseId = true
          · cases (w.jobs r).approvalTimers.lookup msg.requestId with
            | none => simp [hok]
            | some timer => simp [hok, World.callRun, World.modifyJob, onRun]
          · simp [hok]
  | leaseGranted msg =>
      simp only [step, handleLeaseGranted, callsOf, List.append_nil]
      split <;> rfl
  | revoke msg sync =>
      simp only [step, handleRevoke, callsOf]
      cases w.registry.get msg.attemptId with
      | none => rw [List.append_nil]
      | some r =>
          simp only
          split
          · exact calls_fence msg.attemptId sync
          · rw [List.append_nil]
  | resume d sync => exact calls_resume d sync
  | callback r cb => exact calls_callback cb
  | timer id =>
      simp only [step, onTimer, callsOf]
      cases w.timers.find? fun t => t.id = id with
      | none => simp only [List.append_nil]
      | some t => simp [World.callRun, World.modifyJob, onRun]
  | tick ms => exact (List.append_nil _).symm
  | restart => exact (List.append_nil _).symm

end HuginAgent
