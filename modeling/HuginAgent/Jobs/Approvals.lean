/-
What the manager holds of open approvals.

A request is kept in the table of its job with the timeout that denies it.  An answer takes
both, and so does the timeout when it fires; a job that is cut off or done loses all of its
own.  `ApprovalOp` names these, and `step_approvals` says that an action does one of them.
-/
import HuginAgent.Jobs.Calls
import HuginAgent.Ledger.Effects

namespace HuginAgent

open JobManager Ledger

variable {env : Env} {w : World} {r : Ref}

structure Approvals where
  entries : Ref → AList fun _ : JsString => TimerId
  timers : List ArmedTimer
  next : TimerId

def World.approvals (w : World) : Approvals :=
  ⟨fun r => (w.jobs r).approvalTimers, w.timers, w.nextTimer⟩

/-- The timeout of a request that is open. -/
def Approvals.pending (A : Approvals) (r : Ref) (id : JsString) : Option TimerId :=
  (A.entries r).lookup id

inductive ApprovalOp
  | idle
  | raise (r : Ref) (id : JsString)
  /-- The request of a timeout is answered, by the server or by the timeout. -/
  | settle (t : ArmedTimer)
  | clear (r : Ref)
  /-- A new job has no requests. -/
  | begin_ (r : Ref)
  | restart

def ApprovalOp.apply (A : Approvals) : ApprovalOp → Approvals
  | idle => A
  | raise r id =>
      { entries := Function.update A.entries r ((A.entries r).insert id A.next)
        timers := A.timers ++ [⟨A.next, r, id⟩]
        next := A.next + 1 }
  | settle t =>
      { A with
        entries := Function.update A.entries t.state ((A.entries t.state).erase t.requestId)
        timers := A.timers.filter fun u => u.id ≠ t.id }
  | clear r =>
      { A with
        entries := Function.update A.entries r ∅
        timers := A.timers.filter fun t =>
          !((A.entries r).entries.map Sigma.snd).contains t.id }
  | begin_ r => { A with entries := Function.update A.entries r ∅ }
  | restart => { A with timers := [] }

/-- What an operation finds. -/
def ApprovalOp.Fits (A : Approvals) : ApprovalOp → Prop
  | raise r id => A.pending r id = none
  | settle t => A.pending t.state t.requestId = some t.id
  | begin_ r => ∀ id, A.pending r id = none
  | _ => True

/-- **What an action does to the open approvals.** -/
def approvalOp (env : Env) (w : World) : Action → ApprovalOp
  | .assign msg reply => if accepts env w msg reply then .begin_ w.nextRef else .idle
  | .approvalResponse msg =>
      match w.registry.get msg.attemptId with
      | some r =>
          if leaseOk w (some r) msg.attemptId msg.leaseId then
            match (w.jobs r).approvalTimers.lookup msg.requestId with
            | some timer => .settle ⟨timer, r, msg.requestId⟩
            | none => .idle
          else .idle
      | none => .idle
  | .timer id =>
      match w.timers.find? fun t => t.id = id with
      | some t => .settle t
      | none => .idle
  | .revoke msg _ =>
      match w.registry.get msg.attemptId with
      | some r => if leaseOk w (some r) msg.attemptId msg.leaseId then .clear r else .idle
      | none => .idle
  | .resume d _ =>
      match d.action, w.registry.get d.attemptId with
      | .abandon, some r => .clear r
      | _, _ => .idle
  | .callback r (.approval req) =>
      if r ∈ w.runs ∧ (w.jobs r).fenced = false then .raise r req.requestId else .idle
  | .callback r (.done _) => if r ∈ w.runs ∧ r ∉ w.ended then .clear r else .idle
  | .restart => .restart
  | _ => .idle

/-! ### Handlers -/

theorem entries_update (jobs : Ref → JobState) (r : Ref) (s : JobState) :
    (fun q => (Function.update jobs r s q).approvalTimers) =
      Function.update (fun q => (jobs q).approvalTimers) r s.approvalTimers := by
  funext q
  by_cases hq : q = r
  · rw [hq, Function.update_self, Function.update_self]
  · rw [Function.update_of_ne hq, Function.update_of_ne hq]

/-- A change of a job that leaves its requests alone. -/
theorem approvals_touch {w' : World} {s : JobState} (hjobs : w'.jobs = Function.update w.jobs r s)
    (hs : s.approvalTimers = (w.jobs r).approvalTimers) (htimers : w'.timers = w.timers)
    (hnext : w'.nextTimer = w.nextTimer) : w'.approvals = w.approvals := by
  simp only [World.approvals, hjobs, entries_update, hs, htimers, hnext]
  rw [Function.update_eq_self_iff.mpr rfl]

theorem approvals_clearApprovals (w : World) (r : Ref) :
    (w.clearApprovals r).approvals = (ApprovalOp.clear r).apply w.approvals := by
  simp only [World.approvals, World.clearApprovals, World.modifyJob, entries_update]
  rfl

/-- There is nothing left to clear. -/
theorem clear_clear (A : Approvals) (r : Ref) :
    (ApprovalOp.clear r).apply ((ApprovalOp.clear r).apply A) = (ApprovalOp.clear r).apply A := by
  simp [ApprovalOp.apply]

theorem approvals_cutOff (w : World) (r : Ref) :
    (cutOff w r).approvals = (ApprovalOp.clear r).apply w.approvals := by
  have hfence : (w.modifyJob r fun s => { s with fenced := true }).approvals = w.approvals :=
    approvals_touch (by rfl) (by rfl) rfl rfl
  rw [← hfence, ← approvals_clearApprovals]
  rfl

theorem approvals_retire (w : World) (r : Ref) :
    (retire w r).approvals = (ApprovalOp.clear r).apply w.approvals := by
  have hrun : (w.modifyJob r fun s => { s with run := none }).approvals = w.approvals :=
    approvals_touch (by rfl) (by rfl) rfl rfl
  rw [← hrun, ← approvals_clearApprovals]
  rfl

theorem approvals_fence (a : JsString) (sync : List Callback) :
    (fence env w r a sync).approvals = (ApprovalOp.clear r).apply w.approvals := by
  rw [fence_eq]
  by_cases he : endsIn w r sync = true
  · simp only [he, if_true]
    rw [← clear_clear, ← approvals_cutOff, ← approvals_retire]
    rfl
  · simp only [he]
    exact approvals_cutOff w r

theorem approvals_doneUnfenced (w : World) (r : Ref) :
    (doneUnfenced w r).approvals = (ApprovalOp.clear r).apply w.approvals := by
  have hrun : (w.modifyJob r fun s => { s with run := none }).approvals = w.approvals :=
    approvals_touch (by rfl) (by rfl) rfl rfl
  rw [← hrun, ← approvals_clearApprovals]
  rfl

theorem approvals_doneSaved (outcome : EngineOutcome) (result : JsObject) (digest : JsString) :
    (doneSaved w r outcome result digest).approvals = (doneUnfenced w r).approvals :=
  approvals_touch (by rfl) (by rfl) (by rfl) (by rfl)

theorem approvals_adoptDirectiveLease (d : ResumeDirective) :
    (adoptDirectiveLease w d).approvals = w.approvals := by
  unfold adoptDirectiveLease
  split
  · rename_i leaseId _
    rw [adoptLease_eq]
    cases hhit : rotatedBy w d.attemptId leaseId with
    | none => rfl
    | some r => exact approvals_touch (by rfl) (by rfl) rfl rfl
  · rfl

theorem approvals_resendEvents (leaseId : Option JsString) (payloads : List JsString) :
    (resendEvents env leaseId w payloads).1.approvals = w.approvals := by
  induction payloads generalizing w with
  | nil => rfl
  | cons p rest ih =>
      rw [resendEvents]
      split
      · rfl
      · exact ih

theorem approvals_resendResult (d : ResumeDirective) (res : StoredResult) :
    (resendResult env w d res).1.approvals = w.approvals := by
  unfold resendResult
  split
  · rfl
  · simp only
    split <;> rfl

theorem approvals_acceptAssign (msg : JobAssign) (runThrows : Bool) :
    (acceptAssign env w msg runThrows).approvals =
      (ApprovalOp.begin_ w.nextRef).apply w.approvals := by
  cases runThrows with
  | true =>
      simp only [World.approvals, acceptAssign, World.modifyJob, World.send, World.emit, if_true,
        Function.update_idem, Function.update_self, entries_update]
      rfl
  | false =>
      simp only [World.approvals, acceptAssign, World.modifyJob, World.send, World.emit, if_false,
        Bool.false_eq_true, Function.update_idem, Function.update_self, entries_update]
      rfl

theorem approvals_onEvent (hf : (w.jobs r).fenced = false) (ev : EngineEvent) :
    (onEvent env w r ev).approvals = w.approvals := by
  cases hins : w.store.events.insert? (eventRowOf env w r ev) with
  | none =>
      rw [onEvent_burn hf hins]
      exact approvals_touch (by rfl) (by rfl) rfl rfl
  | some events =>
      have hstored : (eventStored env w r ev events).approvals = w.approvals :=
        approvals_touch (by rfl) (by rfl) rfl rfl
      rw [onEvent_stored hf hins]
      split
      · rw [← hstored]
        exact approvals_touch (by rfl) (by rfl) rfl rfl
      · exact hstored

theorem approvals_onApprovalRequest (hf : (w.jobs r).fenced = false) (req : ApprovalRequest) :
    (onApprovalRequest env w r req).approvals =
      (ApprovalOp.raise r req.requestId).apply w.approvals := by
  simp only [World.approvals, onApprovalRequest, hf, Bool.false_eq_true, if_false, World.modifyJob,
    World.send, World.emit, entries_update]
  rfl

theorem approvals_callback (cb : Callback) :
    (callback env w r cb).approvals = (approvalOp env w (.callback r cb)).apply w.approvals := by
  by_cases hf : (w.jobs r).fenced = true
  · rw [callback_fenced hf]
    cases cb with
    | event ev => simp [isDone, approvalOp, ApprovalOp.apply]
    | approval req => simp [isDone, approvalOp, ApprovalOp.apply, hf]
    | done outcome =>
        by_cases hact : r ∈ w.runs ∧ r ∉ w.ended
        · rw [if_pos ⟨hact, rfl⟩, approvalOp, if_pos hact]
          exact approvals_retire w r
        · rw [if_neg fun hc => hact hc.1, approvalOp, if_neg hact]
          rfl
  · rw [Bool.not_eq_true] at hf
    cases cb with
    | event ev =>
        rw [callback]
        split
        · exact approvals_onEvent hf ev
        · rfl
    | approval req =>
        by_cases hrun : r ∈ w.runs
        · rw [callback, if_pos hrun, approvalOp, if_pos ⟨hrun, hf⟩]
          exact approvals_onApprovalRequest hf req
        · rw [callback, if_neg hrun, approvalOp, if_neg fun hc => hrun hc.1]
          rfl
    | done outcome =>
        by_cases hact : r ∈ w.runs ∧ r ∉ w.ended
        · rw [callback, if_pos hact, approvalOp, if_pos hact, ← approvals_doneUnfenced]
          cases hdigest : resultDigest env.sha256Base64Url (resultMsgOf env w r outcome) with
          | error e => rw [onDone_lost hf hdigest]
          | ok digest =>
              rw [onDone_saved hf hdigest]
              exact approvals_doneSaved outcome _ digest
        · rw [callback, if_neg hact, approvalOp, if_neg hact]
          rfl

/-- **The open approvals after an action.** -/
theorem step_approvals (act : Action) :
    (step env w act).approvals = (approvalOp env w act).apply w.approvals := by
  cases act with
  | assign msg reply =>
      simp only [step, handleAssign, approvalOp]
      cases hex : existing w msg.attemptId with
      | some found =>
          rw [if_neg (by simp [accepts, hex])]
          simp only
          split <;> rfl
      | none =>
          cases href : refusal env w msg reply with
          | some rej =>
              rw [if_neg (by simp [accepts, href])]
              rfl
          | none =>
              rw [if_pos (by simp [accepts, hex, href])]
              exact approvals_acceptAssign msg reply.runThrows
  | streamAck msg =>
      simp only [step, handleStreamAck, approvalOp]
      repeat' split
      · exact approvals_touch (by rfl) (by rfl) rfl rfl
      all_goals rfl
  | resultAck msg =>
      simp only [step, handleResultAck, approvalOp]
      repeat' split
      all_goals rfl
  | cancel msg =>
      simp only [step, handleCancel, approvalOp]
      repeat' split
      · rfl
      · exact approvals_touch (by rfl) (by rfl) rfl rfl
      · rfl
  | approvalResponse msg =>
      simp only [step, handleApprovalResponse, approvalOp]
      cases w.registry.get msg.attemptId with
      | none => rfl
      | some r =>
          simp only
          by_cases hok : leaseOk w (some r) msg.attemptId msg.leaseId = true
          · rw [if_pos hok, if_pos hok]
            cases (w.jobs r).approvalTimers.lookup msg.requestId with
            | none => rfl
            | some timer =>
                simp only [World.approvals, World.callRun, World.modifyJob, entries_update]
                rfl
          · rw [if_neg hok, if_neg hok]
            rfl
  | leaseGranted msg =>
      simp only [step, handleLeaseGranted, approvalOp]
      split
      · rfl
      · exact approvals_touch (by rfl) (by rfl) rfl rfl
  | revoke msg sync =>
      simp only [step, handleRevoke, approvalOp]
      cases w.registry.get msg.attemptId with
      | none => rfl
      | some r =>
          simp only
          split
          · exact approvals_fence msg.attemptId sync
          · rfl
  | resume d sync =>
      simp only [step, approvalOp]
      cases haction : d.action with
      | resumeFrom =>
          simp only [applyDirective, haction]
          rw [approvals_resendEvents, approvals_adoptDirectiveLease]
          rfl
      | resendResult =>
          simp only [applyDirective, haction]
          split
          · exact approvals_adoptDirectiveLease d
          · rw [approvals_resendResult, approvals_adoptDirectiveLease]
            rfl
      | ackPending =>
          simp only [applyDirective, haction]
          rfl
      | abandon =>
          simp only [applyDirective, haction]
          cases w.registry.get d.attemptId with
          | none => rfl
          | some r => exact approvals_fence d.attemptId sync
  | callback r cb => exact approvals_callback cb
  | timer id =>
      simp only [step, onTimer, approvalOp]
      cases hfind : w.timers.find? fun t => t.id = id with
      | none => rfl
      | some t =>
          have hid : t.id = id := by simpa using List.find?_some hfind
          subst hid
          simp only [World.approvals, World.callRun, World.modifyJob, entries_update]
          rfl
  | tick ms => rfl
  | restart => rfl

end HuginAgent
