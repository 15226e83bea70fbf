/-
Where the ids on record come from.

An id reaches the manager in a message that has passed its schema, and from there it is
copied: from an assignment into the job and its row, from a lease message into both and
into the result, from the job into the result when its run is done.  Nothing else writes
one.  So all that is on record, after whatever turns and crashes, can be sent as it is.

A result has been digested before it is saved, so no id of its row has a lone surrogate,
and all of them are read back as they are stored.

`Statement.Named` is what a statement may write, and the two halves of the invariant meet
there: a statement that writes what it may keeps the store, and jobs that are named issue
no other.
-/
import HuginAgent.Jobs.Crash
import HuginAgent.Protocol.Schema

namespace HuginAgent

open JobManager Ledger

variable {env : Env} {w : World} {r : Ref}

/-- The three ids are within the bounds of their schema. -/
structure AttemptCtx.Named (ctx : AttemptCtx) : Prop where
  jobId : isId ctx.jobId = true
  attemptId : isId ctx.attemptId = true
  leaseId : isId ctx.leaseId = true

/-- The three ids have no lone surrogate. -/
structure AttemptCtx.Whole (ctx : AttemptCtx) : Prop where
  jobId : hasLoneSurrogate ctx.jobId = false
  attemptId : hasLoneSurrogate ctx.attemptId = false
  leaseId : hasLoneSurrogate ctx.leaseId = false

def AttemptRow.ctx (row : AttemptRow) : AttemptCtx := ⟨row.jobId, row.attemptId, row.leaseId⟩

def StoredResult.ctx (res : StoredResult) : AttemptCtx := ⟨res.jobId, res.attemptId, res.leaseId⟩

/-- A message that brings ids to be kept has passed its schema. -/
def Action.Parsed : Action → Prop
  | .assign msg _ => AttemptCtx.Named ⟨msg.jobId, msg.attemptId, msg.leaseId⟩
  | .leaseGranted msg => isId msg.leaseId = true
  | .resume d _ => ∀ leaseId, d.leaseId = some leaseId → isId leaseId = true
  | _ => True

/-! ### Statements -/

structure AttemptView.Named (v : AttemptView) : Prop where
  row : ∀ row, v.row = some row → row.ctx.Named
  result : ∀ res, v.result = some res →
    res.ctx.Named ∧ res.ctx.Whole ∧ isSha256Digest res.resultDigest = true

def EventLog.Named (s : EventLog) : Prop := ∀ a, (s.view a).Named

namespace Statement

/-- What the statement writes is within bounds. -/
def Named : Statement → Prop
  | insertAttempt row => row.ctx.Named
  | setLease _ leaseId => isId leaseId = true
  | replaceResult row => row.ctx.Named ∧ row.ctx.Whole ∧ isSha256Digest row.resultDigest = true
  | updateResult _ leaseId digest _ =>
      isId leaseId = true ∧ hasLoneSurrogate leaseId = false ∧ isSha256Digest digest = true
  | _ => True

theorem named_on {v : AttemptView} (h : v.Named) {st : Statement} (hst : st.Named) :
    (st.on v).Named where
  row row hrow := by
    rcases row_of_on hrow with ⟨old, hold, hjob, hattempt, -, hlease⟩ | rfl
    · have hnamed := h.row old hold
      refine ⟨?_, ?_, ?_⟩
      · exact (congrArg isId hjob).trans hnamed.jobId
      · exact (congrArg isId hattempt).trans hnamed.attemptId
      · rcases hlease with hlease | ⟨a, rfl⟩
        · exact (congrArg isId hlease).trans hnamed.leaseId
        · exact hst
    · exact hst
  result res hres := by
    rcases result_of_on hres with hold | rfl | ⟨old, a, leaseId, digest, payload, hold, rfl, rfl⟩
    · exact h.result res hold
    · exact hst
    · obtain ⟨hnamed, hwhole, -⟩ := h.result old hold
      obtain ⟨hid, hlone, hdigest⟩ := hst
      exact ⟨⟨hnamed.jobId, hnamed.attemptId, hid⟩, ⟨hwhole.jobId, hwhole.attemptId, hlone⟩, hdigest⟩

theorem named_foldl {s : EventLog} (h : s.Named) {sts : List Statement}
    (hsts : ∀ st ∈ sts, st.Named) : (sts.foldl Statement.run s).Named :=
  forall_view h fun st hst _ hv => named_on hv (hsts st hst)

end Statement

/-! ### Jobs -/

/-- The lease is one that the action brings for a job that is there. -/
def Action.Brings : Action → JsString → Prop
  | .leaseGranted msg, leaseId => msg.leaseId = leaseId
  | .resume d _, leaseId => d.leaseId = some leaseId
  | _, _ => False

/-- The ids of a job stay, or its lease is one that was brought. -/
structure JobState.Kept (brought : JsString → Prop) (s s' : JobState) : Prop where
  runId : s'.agentRunId = s.agentRunId
  ctx : s'.ctx = s.ctx ∨ ∃ leaseId, brought leaseId ∧ s'.ctx = { s.ctx with leaseId }

/-- The same of all jobs. -/
def Kept (brought : JsString → Prop) (jobs jobs' : Ref → JobState) : Prop :=
  ∀ r, (jobs r).Kept brought (jobs' r)

variable {brought : JsString → Prop} {jobs jobs' : Ref → JobState}

theorem JobState.Kept.trans {s s' s'' : JobState} (h : s.Kept brought s') (h' : s'.Kept brought s'') :
    s.Kept brought s'' := by
  refine ⟨h'.runId.trans h.runId, ?_⟩
  rcases h'.ctx with hctx' | ⟨leaseId, hbrought, hctx'⟩
  · rw [hctx']
    exact h.ctx
  · refine Or.inr ⟨leaseId, hbrought, hctx'.trans ?_⟩
    -- the lease that was brought first is gone
    rcases h.ctx with hctx | ⟨_, -, hctx⟩
    · rw [hctx]
    · rw [hctx]

theorem kept_refl : Kept brought jobs jobs := fun _ => ⟨rfl, Or.inl rfl⟩

theorem kept_update (h : Kept brought jobs jobs') {s : JobState} (hs : (jobs' r).Kept brought s) :
    Kept brought jobs (Function.update jobs' r s) := by
  intro q
  by_cases hq : q = r
  · subst hq
    rw [Function.update_self]
    exact (h q).trans hs
  · rw [Function.update_of_ne hq]
    exact h q

/-- The ids stay. -/
theorem kept_touch (h : Kept brought jobs jobs') {s : JobState}
    (hs : (s.ctx, s.agentRunId) = ((jobs' r).ctx, (jobs' r).agentRunId)) :
    Kept brought jobs (Function.update jobs' r s) :=
  kept_update h ⟨(Prod.ext_iff.mp hs).2, Or.inl (Prod.ext_iff.mp hs).1⟩

theorem kept_retire (h : Kept brought jobs w.jobs) (r : Ref) : Kept brought jobs (retire w r).jobs :=
  kept_touch (kept_touch h (by rfl)) (by rfl)

theorem kept_cutOff (h : Kept brought jobs w.jobs) (r : Ref) : Kept brought jobs (cutOff w r).jobs :=
  kept_touch (kept_touch h (by rfl)) (by rfl)

theorem kept_rotate (h : Kept brought jobs w.jobs) {leaseId : JsString} (hlease : brought leaseId) :
    Kept brought jobs (rotate w r leaseId).jobs :=
  kept_update h ⟨rfl, Or.inr ⟨leaseId, hlease, rfl⟩⟩

/-- What a handler does to the jobs that are there: none is new, and each keeps its ids but for a
lease. -/
structure World.Kept (brought : JsString → Prop) (w w' : World) : Prop where
  next : w'.nextRef = w.nextRef
  runs : w'.runs ⊆ w.runs
  jobs : HuginAgent.Kept brought w.jobs w'.jobs

theorem World.Kept.refl : w.Kept brought w := ⟨rfl, List.Subset.refl _, kept_refl⟩

theorem World.Kept.touch {w' : World} (hnext : w'.nextRef = w.nextRef) (hruns : w'.runs = w.runs)
    (hjobs : HuginAgent.Kept brought w.jobs w'.jobs) : w.Kept brought w' :=
  ⟨hnext, hruns ▸ List.Subset.refl _, hjobs⟩

theorem fence_kept (a : JsString) (sync : List Callback) : w.Kept brought (fence env w r a sync) := by
  rw [fence_eq]
  by_cases he : endsIn w r sync = true
  · simp only [he, if_true]
    exact .touch rfl rfl (kept_retire (kept_cutOff kept_refl r) r)
  · simp only [he, if_false, Bool.false_eq_true]
    exact .touch rfl rfl (kept_cutOff kept_refl r)

theorem adoptDirectiveLease_kept {d : ResumeDirective}
    (hd : ∀ leaseId, d.leaseId = some leaseId → brought leaseId) :
    w.Kept brought (adoptDirectiveLease w d) := by
  unfold adoptDirectiveLease adoptLease
  split
  · rename_i leaseId hlease
    simp only
    split
    · split
      · exact .touch rfl rfl (kept_rotate kept_refl (hd leaseId hlease))
      · exact .touch rfl rfl kept_refl
    · exact .touch rfl rfl kept_refl
  · exact .refl

theorem resendEvents_kept {w₀ : World} (h : w₀.Kept brought w) (leaseId : Option JsString)
    (payloads : List JsString) : w₀.Kept brought (resendEvents env leaseId w payloads).1 := by
  induction payloads generalizing w with
  | nil => exact h
  | cons p rest ih =>
      rw [resendEvents]
      split
      · exact h
      · exact ih ⟨h.next, h.runs, h.jobs⟩

theorem callback_kept (cb : Callback) : w.Kept brought (callback env w r cb) := by
  by_cases hrun : r ∈ w.runs
  · by_cases hf : (w.jobs r).fenced = true
    · rw [callback_fenced hf]
      split
      · exact .touch rfl rfl (kept_retire kept_refl r)
      · exact .refl
    · rw [Bool.not_eq_true] at hf
      cases cb with
      | event ev =>
          rw [callback, if_pos hrun]
          cases hins : w.store.events.insert? (eventRowOf env w r ev) with
          | none =>
              rw [onEvent_burn hf hins]
              exact .touch rfl rfl (kept_touch kept_refl (by rfl))
          | some events =>
              rw [onEvent_stored hf hins]
              split
              · exact .touch rfl rfl (kept_touch (kept_touch kept_refl (by rfl)) (by rfl))
              · exact .touch rfl rfl (kept_touch kept_refl (by rfl))
      | approval req =>
          rw [callback, if_pos hrun]
          simp only [onApprovalRequest, hf, Bool.false_eq_true, if_false]
          exact .touch rfl rfl (kept_touch kept_refl (by rfl))
      | done outcome =>
          rw [callback]
          split
          · cases hdigest : resultDigest env.sha256Base64Url (resultMsgOf env w r outcome) with
            | error e =>
                rw [onDone_lost hf hdigest]
                exact .touch rfl rfl (kept_touch (kept_touch kept_refl (by rfl)) (by rfl))
            | ok digest =>
                rw [onDone_saved hf hdigest]
                exact .touch rfl rfl
                  (kept_touch (kept_touch (kept_touch kept_refl (by rfl)) (by rfl)) (by rfl))
          · exact .refl
  · have hsame : callback env w r cb = w := by
      cases cb <;> simp [callback, hrun]
    rw [hsame]
    exact .refl

/-- **A step keeps the ids of all jobs, but for a lease that it brings, or it accepts a new one.** -/
theorem step_kept (env : Env) (w : World) (act : Action) :
    w.Kept act.Brings (step env w act) ∨
      ∃ msg reply, act = .assign msg reply ∧
        step env w act = acceptAssign env w msg reply.runThrows := by
  cases act with
  | assign msg reply =>
      simp only [step, handleAssign]
      repeat' split
      · exact Or.inl (.touch rfl rfl kept_refl)
      · exact Or.inl (.touch rfl rfl kept_refl)
      · exact Or.inl (.touch rfl rfl kept_refl)
      · exact Or.inr ⟨msg, reply, rfl, rfl⟩
  | streamAck msg =>
      refine Or.inl ?_
      simp only [step, handleStreamAck]
      repeat' split
      · exact .touch rfl rfl (kept_touch kept_refl (by rfl))
      · exact .touch rfl rfl kept_refl
      · exact .touch rfl rfl kept_refl
      · exact .refl
  | resultAck msg =>
      refine Or.inl ?_
      simp only [step, handleResultAck]
      repeat' split
      all_goals exact .touch rfl rfl kept_refl
  | cancel msg =>
      refine Or.inl ?_
      simp only [step, handleCancel]
      repeat' split
      · exact .refl
      · exact .touch rfl rfl (kept_touch kept_refl (by rfl))
      · exact .refl
  | approvalResponse msg =>
      refine Or.inl ?_
      simp only [step, handleApprovalResponse]
      repeat' split
      · exact .refl
      · exact .refl
      · exact .touch rfl rfl (kept_touch kept_refl (by rfl))
      · exact .refl
  | leaseGranted msg =>
      refine Or.inl ?_
      simp only [step, handleLeaseGranted]
      split
      · exact .refl
      · exact .touch rfl rfl (kept_rotate kept_refl rfl)
  | revoke msg sync =>
      refine Or.inl ?_
      simp only [step, handleRevoke]
      repeat' split
      · exact .refl
      · rename_i q _ _
        have h : w.Kept (Action.revoke msg sync).Brings (fence env w q msg.attemptId sync) :=
          fence_kept _ _
        exact ⟨h.next, h.runs, h.jobs⟩
      · exact .refl
  | resume d sync =>
      refine Or.inl ?_
      have hadopt : w.Kept (Action.Brings (.resume d sync)) (adoptDirectiveLease w d) :=
        adoptDirectiveLease_kept fun leaseId hlease => hlease
      simp only [step]
      cases haction : d.action with
      | resumeFrom =>
          simp only [applyDirective, haction]
          exact resendEvents_kept hadopt _ _
      | resendResult =>
          simp only [applyDirective, haction, resendResult]
          repeat' split
          all_goals exact ⟨hadopt.next, hadopt.runs, hadopt.jobs⟩
      | ackPending =>
          simp only [applyDirective, haction]
          exact .touch rfl rfl kept_refl
      | abandon =>
          simp only [applyDirective, haction]
          split
          · rename_i q _
            have h : w.Kept (Action.resume d sync).Brings (fence env w q d.attemptId sync) :=
              fence_kept _ _
            exact ⟨h.next, h.runs, h.jobs⟩
          · exact .touch rfl rfl kept_refl
  | callback q cb => exact Or.inl (callback_kept cb)
  | timer id =>
      refine Or.inl ?_
      simp only [step, onTimer]
      split
      · exact .refl
      · exact .touch rfl rfl (kept_touch kept_refl (by rfl))
  | tick ms => exact Or.inl (.touch rfl rfl kept_refl)
  | restart => exact Or.inl ⟨rfl, List.nil_subset _, kept_refl⟩

/-- What an accepted assignment does to the jobs. -/
structure Accepting (env : Env) (w : World) (msg : JobAssign) (w' : World) : Prop where
  next : w'.nextRef = w.nextRef + 1
  runs : w'.runs ⊆ w.nextRef :: w.runs
  ctx : (w'.jobs w.nextRef).ctx = ⟨msg.jobId, msg.attemptId, msg.leaseId⟩
  runId : (w'.jobs w.nextRef).agentRunId = env.agentRunId w.draws
  old : ∀ r, r ≠ w.nextRef → w'.jobs r = w.jobs r

/-- A new job has the ids of its assignment. -/
theorem acceptAssign_accepting (env : Env) (w : World) (msg : JobAssign) (runThrows : Bool) :
    Accepting env w msg (acceptAssign env w msg runThrows) := by
  cases runThrows with
  | true =>
      refine ⟨rfl, List.subset_cons_self _ _, ?_, ?_, ?_⟩
      · simp [acceptAssign, World.modifyJob, World.send, World.emit, JobState.ctx]
      · simp [acceptAssign, World.modifyJob, World.send, World.emit]
      · intro r hr
        simp [acceptAssign, World.modifyJob, World.send, World.emit, Function.update_of_ne hr]
  | false =>
      refine ⟨rfl, List.Subset.refl _, ?_, ?_, ?_⟩
      · simp [acceptAssign, World.modifyJob, World.send, World.emit, JobState.ctx]
      · simp [acceptAssign, World.modifyJob, World.send, World.emit]
      · intro r hr
        simp [acceptAssign, World.modifyJob, World.send, World.emit, Function.update_of_ne hr]

/-! ### Named jobs -/

def NamedOn (runs : List Ref) (jobs : Ref → JobState) : Prop := ∀ r ∈ runs, (jobs r).ctx.Named

/-- Every job whose run can call back is named. -/
abbrev World.JobsNamed (w : World) : Prop := NamedOn w.runs w.jobs

theorem brings_named {act : Action} (hact : act.Parsed) {leaseId : JsString}
    (h : act.Brings leaseId) : isId leaseId = true := by
  cases act with
  | leaseGranted msg => exact (show msg.leaseId = leaseId from h) ▸ hact
  | resume d sync => exact hact leaseId h
  | _ => exact False.elim h

theorem JobState.Kept.named {s s' : JobState} (hbrought : ∀ l, brought l → isId l = true)
    (h : s.Kept brought s') (hs : s.ctx.Named) : s'.ctx.Named := by
  rcases h.ctx with hctx | ⟨leaseId, hlease, hctx⟩
  · rw [hctx]
    exact hs
  · rw [hctx]
    exact ⟨hs.jobId, hs.attemptId, hbrought leaseId hlease⟩

theorem named_step (h : w.JobsNamed) {act : Action} (hact : act.Parsed) :
    (step env w act).JobsNamed := by
  intro r hr
  rcases step_kept env w act with hkept | ⟨msg, reply, rfl, hstep⟩
  · exact (hkept.jobs r).named (fun _ => brings_named hact) (h r (hkept.runs hr))
  · have hacc := acceptAssign_accepting env w msg reply.runThrows
    rw [hstep] at hr ⊢
    by_cases hnew : r = w.nextRef
    · rw [hnew, hacc.ctx]
      exact hact
    · rw [hacc.old r hnew]
      exact h r ((List.mem_cons.mp (hacc.runs hr)).resolve_left hnew)

/-! ### What a handler writes -/

theorem digest_named {sha : JsString → JsString} (hsha : ∀ text, isSha256Digest (sha text) = true)
    {msg : JsObject} {digest : JsString} (h : resultDigest sha msg = .ok digest) :
    isSha256Digest digest = true := by
  rw [resultDigest] at h
  cases htext : jcsCanonicalize (.obj (msg.without [js "id", js "ts"])) with
  | error e =>
      rw [htext] at h
      cases h
  | ok text =>
      rw [htext] at h
      obtain rfl := Except.ok.inj h
      exact hsha text

theorem resentRow_digest (hsha : ∀ text, isSha256Digest (env.sha256Base64Url text) = true)
    {leaseId : JsString} {old res : StoredResult} (h : resentRow env w leaseId old = some res) :
    hasLoneSurrogate leaseId = false ∧ isSha256Digest res.resultDigest = true := by
  rw [resentRow] at h
  split at h
  · cases h
  · simp only at h
    split at h
    · cases h
    · rename_i hdigest
      obtain rfl := Option.some.inj h
      exact ⟨whole_of_digest hdigest (restamp_get_lease _ _ _) (by decide) (by decide),
        digest_named hsha hdigest⟩

/-- Nothing is written. -/
theorem nothing_named : ∀ st ∈ Write.nothing.statements, st.Named :=
  fun _ hst => absurd hst List.not_mem_nil

theorem writeOfCallback_named (hsha : ∀ text, isSha256Digest (env.sha256Base64Url text) = true)
    (h : w.JobsNamed) (cb : Callback) : ∀ st ∈ (writeOfCallback env w r cb).statements, st.Named := by
  cases cb with
  | event ev =>
      rw [writeOfCallback]
      split
      · simp [Write.statements, Statement.Named]
      · exact nothing_named
  | approval req => exact nothing_named
  | done outcome =>
      rw [writeOfCallback]
      split
      · rename_i hact
        split
        · exact nothing_named
        · rename_i digest hdigest
          have hjob := h r hact.1.1
          have hjobId : (resultMsgOf env w r outcome).get (js "job_id") = .str (w.jobs r).jobId := rfl
          have hattemptId : (resultMsgOf env w r outcome).get (js "attempt_id") =
              .str (w.jobs r).attemptId := rfl
          have hleaseId : (resultMsgOf env w r outcome).get (js "lease_id") =
              .str (w.jobs r).leaseId := rfl
          have hwhole : (w.jobs r).ctx.Whole :=
            ⟨whole_of_digest hdigest hjobId (by decide) (by decide),
              whole_of_digest hdigest hattemptId (by decide) (by decide),
              whole_of_digest hdigest hleaseId (by decide) (by decide)⟩
          intro st hst
          rcases List.mem_cons.mp hst with rfl | hst
          · exact ⟨⟨hjob.jobId, hjob.attemptId, hjob.leaseId⟩,
              ⟨hwhole.jobId, hwhole.attemptId, hwhole.leaseId⟩, digest_named hsha hdigest⟩
          · rw [List.mem_singleton.mp hst]
            trivial
      · exact nothing_named

theorem writeOf_named (hsha : ∀ text, isSha256Digest (env.sha256Base64Url text) = true)
    (h : w.JobsNamed) {act : Action} (hact : act.Parsed) :
    ∀ st ∈ (writeOf env w act).statements, st.Named := by
  cases act with
  | assign msg reply =>
      rw [writeOf]
      split
      · intro st hst
        rcases List.mem_cons.mp hst with rfl | hst
        · exact hact
        · rw [List.mem_singleton.mp hst]
          trivial
      · exact nothing_named
  | leaseGranted msg =>
      rw [writeOf]
      split
      · exact List.forall_mem_singleton.mpr hact
      · exact nothing_named
  | resume d sync =>
      rw [writeOf]
      split
      · simp [Write.statements, Statement.Named]
      · simp [Write.statements, Statement.Named]
      · rename_i leaseId _ hlease
        exact List.forall_mem_singleton.mpr (hact leaseId hlease)
      · rename_i leaseId _ hlease
        have hid := hact leaseId hlease
        split
        · rename_i res hres
          obtain ⟨old, -, hrow⟩ := Option.bind_eq_some_iff.mp hres
          intro st hst
          rcases List.mem_cons.mp hst with rfl | hst
          · exact hid
          · rw [List.mem_singleton.mp hst]
            exact ⟨hid, resentRow_digest hsha hrow⟩
        · exact List.forall_mem_singleton.mpr hid
      · exact nothing_named
  | callback r cb => exact writeOfCallback_named hsha h cb
  | _ =>
      simp only [writeOf]
      repeat' split
      all_goals simp [Write.statements, Statement.Named]

/-! ### Every store -/

theorem named_turn (hsha : ∀ text, isSha256Digest (env.sha256Base64Url text) = true)
    (h : w.JobsNamed ∧ w.store.Named) {t : Turn} (ht : t.action.Parsed) :
    (turn env w t).JobsNamed ∧ (turn env w t).store.Named := by
  refine ⟨?_, ?_⟩
  · cases t with
    | handled act => exact named_step h.1 ht
    | cut act effects => exact fun _ hq => absurd hq List.not_mem_nil
  · rw [store_turn]
    apply Statement.named_foldl h.2
    intro st hst
    exact writeOf_named hsha h.1 ht st (List.mem_of_mem_take hst)

/-- **All that is on record after a run is named, crashes included.** -/
theorem named_runTurns (hsha : ∀ text, isSha256Digest (env.sha256Base64Url text) = true)
    {turns : List Turn} (hturns : ∀ t ∈ turns, t.action.Parsed) :
    (runTurns env turns).store.Named := by
  have hstart : World.start.JobsNamed ∧ World.start.store.Named :=
    ⟨fun _ hq => absurd hq List.not_mem_nil,
      fun _ => ⟨fun _ hrow => absurd hrow (by simp [EventLog.view, EventLog.attemptRow, World.start,
        EventLog.empty]), fun _ hres => absurd hres (by simp [EventLog.view, EventLog.resultRow,
        World.start, EventLog.empty])⟩⟩
  have halong : Machine.Along (turn env) (fun _ t => t.action.Parsed) World.start turns := by
    apply Machine.along_iff.mpr
    intro pre t post hsplit
    exact hturns t (hsplit ▸ by simp)
  exact (Machine.run_invariant (turn env) (I := fun w : World => w.JobsNamed ∧ w.store.Named)
    (fun w t h ht => named_turn hsha h ht) hstart halong).2

end HuginAgent
