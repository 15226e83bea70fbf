/-
What each action writes, and in what order it writes and sends.

`writeOf` names the write of an action's handler, and `step_store` says that the store
after the action is what its statements leave behind.  `effectsOf` puts statements and
messages in the order the handler issues them: every handler writes before it sends,
except that an acceptance is sent before the attempt is set to running.
-/
import HuginAgent.Jobs.Sends
import HuginAgent.Store.Consistent

namespace HuginAgent

open JobManager Ledger

variable {env : Env} {w : World} {r : Ref}

/-- The row `handleAssign` creates. -/
def attemptRowOf (env : Env) (w : World) (msg : JobAssign) : AttemptRow where
  attemptId := msg.attemptId
  jobId := msg.jobId
  leaseId := msg.leaseId
  agentRunId := env.agentRunId w.draws
  status := .accepted

def writeOfCallback (env : Env) (w : World) (r : Ref) : Callback → Write
  | .event ev =>
      if r ∈ w.runs ∧ (w.jobs r).fenced = false ∧
          (w.store.events.insert? (eventRowOf env w r ev)).isSome then
        .append (eventRowOf env w r ev)
      else .nothing
  | .approval _ => .nothing
  | .done outcome =>
      if (r ∈ w.runs ∧ r ∉ w.ended) ∧ (w.jobs r).fenced = false then
        match resultDigest env.sha256Base64Url (resultMsgOf env w r outcome) with
        | .error _ => .nothing
        | .ok digest => .finish
            (storedResultOf (w.jobs r) outcome digest (resultMsgOf env w r outcome))
            (terminalStatusOf (finalStatusOf outcome))
      else .nothing

/-- **The write of an action.** -/
def writeOf (env : Env) (w : World) : Action → Write
  | .assign msg reply =>
      if accepts env w msg reply then .create (attemptRowOf env w msg) else .nothing
  | .streamAck msg =>
      if leaseOk w (w.registry.get msg.attemptId) msg.attemptId msg.leaseId then
        .ack msg.attemptId msg.ackSeq
      else .nothing
  | .resultAck msg =>
      if leaseOk w (w.registry.get msg.attemptId) msg.attemptId msg.leaseId &&
          (w.store.ackResult msg.attemptId msg.resultDigest).isSome then
        .settle msg.attemptId
      else .nothing
  | .cancel msg =>
      match w.registry.get msg.attemptId with
      | some r =>
          if leaseOk w (some r) msg.attemptId msg.leaseId then
            .setStatus msg.attemptId .cancelling
          else .nothing
      | none => .nothing
  | .leaseGranted msg =>
      if (w.registry.get msg.attemptId).isSome then .setLease msg.attemptId msg.leaseId
      else .nothing
  | .revoke msg _ =>
      match w.registry.get msg.attemptId with
      | some r => if leaseOk w (some r) msg.attemptId msg.leaseId then .drop msg.attemptId else .nothing
      | none => .nothing
  | .resume d _ =>
      match d.action, d.leaseId with
      | .ackPending, _ | .abandon, _ => .settle d.attemptId
      | .resumeFrom, some leaseId => .setLease d.attemptId leaseId
      | .resendResult, some leaseId =>
          match (w.store.resultRow d.attemptId).bind (resentRow env w leaseId) with
          | some res => .restamp d.attemptId leaseId res.resultDigest res.payload
          | none => .setLease d.attemptId leaseId
      | _, none => .nothing
  | .callback r cb => writeOfCallback env w r cb
  | .approvalResponse _ | .timer _ | .tick _ | .restart => .nothing

/-! ### The store after an action -/

theorem store_fence (a : JsString) (sync : List Callback) :
    (fence env w r a sync).store = w.store := by
  rw [fence_eq]
  by_cases he : endsIn w r sync = true
  · simp only [he, if_true]
    rfl
  · simp only [he, if_false, Bool.false_eq_true]
    rfl

theorem store_resendEvents (leaseId : Option JsString) (payloads : List JsString) :
    (resendEvents env leaseId w payloads).1.store = w.store := by
  induction payloads generalizing w with
  | nil => rfl
  | cons p rest ih =>
      rw [resendEvents]
      split
      · rfl
      · exact ih

theorem store_adoptLease (a leaseId : JsString) :
    (adoptLease w a leaseId).store = w.store.setAttemptLease a leaseId := by
  rw [adoptLease_eq]

theorem store_resendResult {d : ResumeDirective} {leaseId : JsString} {old : StoredResult}
    (hlease : d.leaseId = some leaseId) :
    (resendResult env w d old).1.store =
      match resentRow env w leaseId old with
      | some res => w.store.updateResult d.attemptId leaseId res.resultDigest res.payload
      | none => w.store := by
  simp only [resendResult, resentRow, hlease, Option.getD_some]
  cases parseObject old.payload with
  | none => rfl
  | some o =>
      simp only
      generalize resultDigest env.sha256Base64Url _ = digest
      cases digest with
      | error e => rfl
      | ok digest => rfl

theorem resentRow_congr {w' : World} (h : w'.draws = w.draws) (leaseId : JsString)
    (old : StoredResult) : resentRow env w' leaseId old = resentRow env w leaseId old := by
  simp only [resentRow, h]

theorem store_resume (d : ResumeDirective) (sync : List Callback) :
    (applyDirective env w d sync).1.store = (writeOf env w (.resume d sync)).run w.store := by
  cases haction : d.action with
  | resumeFrom =>
      cases hlease : d.leaseId with
      | none => exact absurd hlease (d.leaseRequired (Or.inl haction))
      | some leaseId =>
          simp only [applyDirective, writeOf, haction, hlease]
          rw [store_resendEvents, adoptDirectiveLease, hlease, store_adoptLease]
          rfl
  | resendResult =>
      cases hlease : d.leaseId with
      | none => exact absurd hlease (d.leaseRequired (Or.inr haction))
      | some leaseId =>
          obtain ⟨-, hdraws, -, hresult⟩ := adoptDirectiveLease_frame w d
          have hstore : (adoptDirectiveLease w d).store = w.store.setAttemptLease d.attemptId leaseId := by
            rw [adoptDirectiveLease, hlease, store_adoptLease]
          simp only [applyDirective, writeOf, haction, hlease, EventLog.getResult, hresult]
          cases hres : w.store.resultRow d.attemptId with
          | none => exact hstore
          | some old =>
              simp only [Option.bind_some, Option.map_some]
              rw [resendResult_read, store_resendResult hlease, resentRow_congr hdraws, hstore]
              cases resentRow env w leaseId old <;> rfl
  | ackPending =>
      simp only [applyDirective, writeOf, haction]
      rfl
  | abandon =>
      simp only [applyDirective, writeOf, haction]
      cases w.registry.get d.attemptId with
      | none => rfl
      | some r =>
          simp only [store_fence]
          rfl

theorem store_callback (cb : Callback) :
    (callback env w r cb).store = (writeOfCallback env w r cb).run w.store := by
  by_cases hrun : r ∈ w.runs
  · by_cases hf : (w.jobs r).fenced = true
    · have hnone : writeOfCallback env w r cb = .nothing := by
        cases cb <;> simp [writeOfCallback, hf]
      rw [callback_fenced hf, hnone]
      split <;> rfl
    · rw [Bool.not_eq_true] at hf
      cases cb with
      | event ev =>
          simp only [callback, hrun, if_true, writeOfCallback, hf, true_and]
          cases hins : w.store.events.insert? (eventRowOf env w r ev) with
          | none =>
              rw [onEvent_burn hf hins]
              rfl
          | some events =>
              have hstore : (Write.append (eventRowOf env w r ev)).run w.store =
                  { w.store with events }.advanceSeq (w.jobs r).attemptId ((w.jobs r).seq + 1) := by
                show ({ w.store with events := w.store.events.insertOrIgnore _ } :
                  EventLog).advanceSeq _ _ = _
                rw [Table.insertOrIgnore, hins]
                rfl
              rw [onEvent_stored hf hins]
              simp only [Option.isSome_some, if_true, hstore]
              split <;> rfl
      | approval req =>
          simp only [callback, hrun, if_true, writeOfCallback, onApprovalRequest, hf,
            Bool.false_eq_true, if_false]
          rfl
      | done outcome =>
          by_cases hended : r ∈ w.ended
          · rw [callback, writeOfCallback, if_neg (fun h => h.2 hended),
              if_neg (fun h => h.1.2 hended)]
            rfl
          · rw [callback, writeOfCallback, if_pos ⟨hrun, hended⟩, if_pos ⟨⟨hrun, hended⟩, hf⟩]
            cases hdigest : resultDigest env.sha256Base64Url (resultMsgOf env w r outcome) with
            | error e =>
                rw [onDone_lost hf hdigest]
                rfl
            | ok digest =>
                rw [onDone_saved hf hdigest]
                rfl
  · have hnone : writeOfCallback env w r cb = .nothing := by
      cases cb <;> simp [writeOfCallback, hrun]
    rw [hnone]
    cases cb <;> simp [callback, hrun, Write.run, Write.statements]

/-- **An action leaves in the store what its write leaves there.** -/
theorem step_store (env : Env) (w : World) (act : Action) :
    (step env w act).store = (writeOf env w act).run w.store := by
  cases act with
  | assign msg reply =>
      cases hex : existing w msg.attemptId with
      | some found =>
          simp only [step, handleAssign, writeOf, accepts, hex]
          split <;> rfl
      | none =>
          cases href : refusal env w msg reply with
          | some rej =>
              simp only [step, handleAssign, writeOf, accepts, hex, href]
              rfl
          | none =>
              simp only [step, handleAssign, writeOf, accepts, hex, href, acceptAssign]
              cases reply.runThrows <;> rfl
  | streamAck msg =>
      simp only [step, handleStreamAck, writeOf]
      repeat' split
      all_goals rfl
  | resultAck msg =>
      simp only [step, handleResultAck, writeOf]
      by_cases hok : leaseOk w (w.registry.get msg.attemptId) msg.attemptId msg.leaseId = true
      · simp only [hok, if_true, Bool.true_and]
        cases hack : w.store.ackResult msg.attemptId msg.resultDigest with
        | none => rfl
        | some store =>
            obtain ⟨rfl, -⟩ := EventLog.ackResult_eq_some hack
            rfl
      · rw [Bool.not_eq_true] at hok
        simp only [hok, Bool.false_eq_true, if_false, Bool.false_and]
        rfl
  | cancel msg =>
      simp only [step, handleCancel, writeOf]
      cases w.registry.get msg.attemptId with
      | none => rfl
      | some r =>
          simp only
          split <;> rfl
  | approvalResponse msg =>
      simp only [step, handleApprovalResponse, writeOf]
      repeat' split
      all_goals rfl
  | leaseGranted msg =>
      simp only [step, handleLeaseGranted, writeOf]
      cases w.registry.get msg.attemptId <;> rfl
  | revoke msg sync =>
      simp only [step, handleRevoke, writeOf]
      cases w.registry.get msg.attemptId with
      | none => rfl
      | some r =>
          simp only
          split
          · simp only [store_fence]
            rfl
          · rfl
  | resume d sync => exact store_resume d sync
  | callback r cb => exact store_callback cb
  | timer id =>
      simp only [step, onTimer, writeOf]
      split <;> rfl
  | tick ms => rfl
  | restart => rfl

/-! ### What a handler has looked at -/

theorem fits_append {row : EventRow} (h : (w.store.events.insert? row).isSome = true) :
    (Write.append row).Fits (w.store.view row.attemptId) := by
  cases hany : (w.store.eventRowsOf row.attemptId).any fun e => e.seq = row.seq with
  | false => exact hany
  | true =>
      rw [Table.insert?, dif_pos ((EventLog.taken_iff w.store row).mpr hany)] at h
      cases h

theorem fits_callback (cb : Callback) :
    (writeOfCallback env w r cb).Fits (w.store.view (writeOfCallback env w r cb).attempt) := by
  cases cb with
  | event ev =>
      rw [writeOfCallback]
      split
      · rename_i hact
        exact fits_append hact.2.2
      · trivial
  | approval req => trivial
  | done outcome =>
      rw [writeOfCallback]
      repeat' split
      · trivial
      · show (terminalStatusOf (finalStatusOf outcome)).isActive = false
        cases outcome <;> rfl
      · trivial

/-- A handler has made sure of what its write needs. -/
theorem writeOf_fits (env : Env) (w : World) (act : Action) :
    (writeOf env w act).Fits (w.store.view (writeOf env w act).attempt) := by
  cases act with
  | assign msg reply =>
      rw [writeOf]
      split
      · rename_i hacc
        simp only [accepts, Bool.and_eq_true, Option.isNone_iff_eq_none] at hacc
        exact ⟨(existing_eq_none hacc.1).2, rfl⟩
      · trivial
  | cancel msg =>
      simp only [writeOf]
      repeat' split
      · rfl
      · trivial
      · trivial
  | callback r cb => exact fits_callback cb
  | _ =>
      simp only [writeOf]
      repeat' split
      all_goals trivial

/-! ### In their order -/

/-- What a handler does to the outside, one thing after the other. -/
inductive Effect
  | stmt (st : Statement)
  | send (msg : JsObject)

def Effect.stmt? : Effect → Option Statement
  | stmt st => some st
  | send _ => none

def Effect.send? : Effect → Option JsObject
  | stmt _ => none
  | send msg => some msg

/-- **Statements and messages of an action, in the order of the source.** -/
def effectsOf (env : Env) (w : World) (act : Action) : List Effect :=
  match writeOf env w act, sentOf env w act with
  | .create row, accept :: rest =>
      .stmt (.insertAttempt row) :: .send accept ::
        .stmt (.setStatus row.attemptId .running) :: rest.map .send
  | write, msgs => write.statements.map .stmt ++ msgs.map .send

theorem filterMap_stmts (sts : List Statement) (msgs : List JsObject) :
    (sts.map Effect.stmt ++ msgs.map Effect.send).filterMap Effect.stmt? = sts := by
  have hsts : (sts.map Effect.stmt).filterMap Effect.stmt? = sts := by
    rw [List.filterMap_map]
    exact List.filterMap_some
  have hmsgs : (msgs.map Effect.send).filterMap Effect.stmt? = [] := by
    rw [List.filterMap_map]
    exact List.filterMap_eq_nil_iff.mpr fun _ _ => rfl
  rw [List.filterMap_append, hsts, hmsgs, List.append_nil]

theorem filterMap_sends (sts : List Statement) (msgs : List JsObject) :
    (sts.map Effect.stmt ++ msgs.map Effect.send).filterMap Effect.send? = msgs := by
  have hsts : (sts.map Effect.stmt).filterMap Effect.send? = [] := by
    rw [List.filterMap_map]
    exact List.filterMap_eq_nil_iff.mpr fun _ _ => rfl
  have hmsgs : (msgs.map Effect.send).filterMap Effect.send? = msgs := by
    rw [List.filterMap_map]
    exact List.filterMap_some
  rw [List.filterMap_append, hsts, hmsgs, List.nil_append]

/-- **The statements are those of the write and the messages those that are sent.** -/
theorem effectsOf_parts (env : Env) (w : World) (act : Action) :
    (effectsOf env w act).filterMap Effect.stmt? = (writeOf env w act).statements ∧
      (effectsOf env w act).filterMap Effect.send? = sentOf env w act := by
  unfold effectsOf
  split
  · rename_i row accept rest hwrite hsent
    rw [hwrite, hsent]
    have hrest := filterMap_stmts [] rest
    have hrest' := filterMap_sends [] rest
    refine ⟨?_, ?_⟩
    · exact congrArg (fun l => Statement.insertAttempt row :: Statement.setStatus _ _ :: l) hrest
    · exact congrArg (accept :: ·) hrest'
  · exact ⟨filterMap_stmts _ _, filterMap_sends _ _⟩

end HuginAgent
