/-
How an attempt ends.

A slot is given back by `onDone`, at the end of what it does.  Before that it takes the
digest of the result, and a digest is refused to a string with a lone surrogate, which
the schema of `job.assign` lets through in every id.  So a run completes just where its
ids, its lease of the moment and its outcome are digestible; where they are not,
`onDone` throws with nothing stored and the entry left behind.

A run that does not start ends nowhere.  `handleAssign` has registered the attempt and
reported it as running before it calls `engine.run`, and there is no one to take that
back.
-/
import HuginAgent.Jobs.Summary

namespace HuginAgent

open JobManager Ledger

variable {env : Env} {w : World} {r : Ref}

/-- The strings and numbers of a result have a canonical form. -/
structure Digestible (state : JobState) (outcome : EngineOutcome) : Prop where
  jobId : hasLoneSurrogate state.jobId = false
  attemptId : hasLoneSurrogate state.attemptId = false
  leaseId : hasLoneSurrogate state.leaseId = false
  exitCode : ∀ n, exitCodeOf outcome = some n → n.isFinite = true
  errorKind : ∀ k, errorKindOf outcome = some k → hasLoneSurrogate k = false

/-- What `onDone` throws. -/
def thrownByDone (env : Env) (w : World) (r : Ref) (outcome : EngineOutcome) : Option JcsError :=
  if (r ∈ w.runs ∧ r ∉ w.ended) ∧ (w.jobs r).fenced = false then
    match resultDigest env.sha256Base64Url (resultMsgOf env w r outcome) with
    | .error e => some e
    | .ok _ => none
  else none

/-- `onDone` does all it has to. -/
structure Completes (env : Env) (w : World) (r : Ref) (outcome : EngineOutcome) : Prop where
  returns : thrownByDone env w r outcome = none
  stored : ∃ res msg, msg.get (js "type") = .lit "job.result" ∧ res.payload = stringifyObject msg ∧
    (step env w (.callback r (.done outcome))).sent = w.sent ++ [msg] ∧
    ∀ b, (step env w (.callback r (.done outcome))).store.resultRow b =
      if b = (w.jobs r).attemptId then some res else w.store.resultRow b
  status : ∃ row, (step env w (.callback r (.done outcome))).store.attemptRow
    (w.jobs r).attemptId = some row ∧ row.status.isActive = false
  freed : ∀ a, (step env w (.callback r (.done outcome))).registry.get a ≠ some r

/-! ### The digest -/

theorem jcs_num_ok_iff (n : JsNumber) :
    (∃ t, jcsCanonicalize (.num n) = .ok t) ↔ n.isFinite = true := by
  rw [jcsCanonicalize]
  split
  · rename_i h
    simp [h]
  · rename_i h
    simp [h]

theorem finalStatus_text (status : FinalStatus) : hasLoneSurrogate status.text = false := by
  cases status <;> decide

/-- **A result is digestible when its ids, its lease and its outcome are.** -/
theorem digest_ok_iff (sha : JsString → JsString) (state : JobState) (outcome : EngineOutcome)
    (durationMs : Int) (e : Envelope) :
    (∃ d, resultDigest sha (resultOf state outcome durationMs e) = .ok d) ↔
      Digestible state outcome := by
  have hmem : ∀ p, p ∈ resultOf state outcome durationMs e ↔
      p = (js "id", .str e.id) ∨ p = (js "ts", .str e.ts) ∨ p = (js "type", .lit "job.result") ∨
      p = (js "job_id", .str state.jobId) ∨ p = (js "attempt_id", .str state.attemptId) ∨
      p = (js "lease_id", .str state.leaseId) ∨
      p = (js "final_status", .str (finalStatusOf outcome).text) ∨
      p = (js "exit_code", .optional .num (exitCodeOf outcome)) ∨
      p = (js "signal", .undefined) ∨ p = (js "error_kind", .optional .str (errorKindOf outcome)) ∨
      p = (js "duration_ms", .num (.ofInt durationMs)) ∨
      p = (js "stats", .obj
        [(js "event_count", .ofNat state.seq), (js "bytes", .ofNat state.totalBytes)]) ∨
      p = (js "head_sha", .undefined) := by
    intro p
    simp [resultOf, jobResultMsg, attemptMsg, Envelope.fields, AttemptCtx.fields, JobState.ctx]
  rw [resultDigest_ok_iff]
  constructor
  · intro h
    have hof : ∀ key v, (key, v) ∈ resultOf state outcome durationMs e → key ≠ js "id" →
        key ≠ js "ts" → v.isUndefined = false → ∃ t, jcsCanonicalize v = .ok t :=
      fun key v hp => h (key, v) hp
    refine ⟨?_, ?_, ?_, ?_, ?_⟩
    · exact (jcs_str_ok_iff _).mp
        (hof (js "job_id") _ ((hmem _).mpr (by simp)) (by decide) (by decide) rfl)
    · exact (jcs_str_ok_iff _).mp
        (hof (js "attempt_id") _ ((hmem _).mpr (by simp)) (by decide) (by decide) rfl)
    · exact (jcs_str_ok_iff _).mp
        (hof (js "lease_id") _ ((hmem _).mpr (by simp)) (by decide) (by decide) rfl)
    · intro n hn
      refine (jcs_num_ok_iff n).mp (hof (js "exit_code") _ ((hmem _).mpr ?_) (by decide) (by decide) rfl)
      simp [hn, JsValue.optional]
    · intro k hk
      refine (jcs_str_ok_iff k).mp (hof (js "error_kind") _ ((hmem _).mpr ?_) (by decide) (by decide) rfl)
      simp [hk, JsValue.optional]
  · intro h p hp hid hts hu
    rcases (hmem p).mp hp with rfl | rfl | rfl | rfl | rfl | rfl | rfl | rfl | rfl | rfl | rfl | rfl | rfl
    · exact absurd rfl hid
    · exact absurd rfl hts
    · exact (jcs_str_ok_iff _).mpr (by decide)
    · exact (jcs_str_ok_iff _).mpr h.jobId
    · exact (jcs_str_ok_iff _).mpr h.attemptId
    · exact (jcs_str_ok_iff _).mpr h.leaseId
    · exact (jcs_str_ok_iff _).mpr (finalStatus_text _)
    · cases hn : exitCodeOf outcome with
      | none => rw [hn] at hu; cases hu
      | some n => exact (jcs_num_ok_iff n).mpr (h.exitCode n hn)
    · cases hu
    · cases hk : errorKindOf outcome with
      | none => rw [hk] at hu; cases hu
      | some k => exact (jcs_str_ok_iff k).mpr (h.errorKind k hk)
    · exact (jcs_num_ok_iff _).mpr rfl
    · refine (jcs_obj_ok_iff _).mpr ?_
      intro q hq _
      simp only [List.mem_cons, List.not_mem_nil, or_false] at hq
      rcases hq with rfl | rfl
      · exact (jcs_num_ok_iff _).mpr rfl
      · exact (jcs_num_ok_iff _).mpr rfl
    · cases hu

/-! ### Completion -/

theorem terminal_isActive (status : FinalStatus) :
    (terminalStatusOf status).isActive = false := by
  cases status <;> rfl

/-- The run of a registered job is the run of its attempt only. -/
theorem freed_of_saved (hs : w.ledger.Sound) {outcome : EngineOutcome} {digest : JsString}
    (hrun : r ∈ w.runs) (hended : r ∉ w.ended) (hf : (w.jobs r).fenced = false)
    (hdigest : resultDigest env.sha256Base64Url (resultMsgOf env w r outcome) = .ok digest)
    (a : JsString) : (step env w (.callback r (.done outcome))).registry.get a ≠ some r := by
  rw [step, callback, if_pos ⟨hrun, hended⟩, onDone_saved hf hdigest]
  intro hlive
  simp only [doneSaved, World.emit] at hlive
  split at hlive
  · rw [JobRegistry.get_remove] at hlive
    split at hlive
    · cases hlive
    · rename_i hne
      exact hne (hs.attempt a r hlive).symm
  · rename_i hnot
    have hid : (w.jobs r).attemptId = a := hs.attempt a r hlive
    exact hnot (hid ▸ hlive)

/-- **A run completes just where its result is digestible and its attempt is on record.** -/
theorem completes_iff (env : Env) (acts : List Action) (r : Ref) (outcome : EngineOutcome) :
    let w := runFrom env acts
    r ∈ w.runs → r ∉ w.ended → (w.jobs r).fenced = false →
    (Completes env w r outcome ↔ Digestible (w.jobs r) outcome ∧
      (w.store.attemptRow (w.jobs r).attemptId).isSome = true) := by
  intro w hrun hended hf
  have hact : (r ∈ w.runs ∧ r ∉ w.ended) ∧ (w.jobs r).fenced = false := ⟨⟨hrun, hended⟩, hf⟩
  constructor
  · intro h
    cases hdigest : resultDigest env.sha256Base64Url (resultMsgOf env w r outcome) with
    | error e =>
        have hreturns := h.returns
        rw [thrownByDone, if_pos hact, hdigest] at hreturns
        cases hreturns
    | ok digest =>
        refine ⟨(digest_ok_iff ..).mp ⟨digest, hdigest⟩, ?_⟩
        obtain ⟨row, hrow, -⟩ := h.status
        rw [step_store, (effectsOf_done hrun hended hf hdigest).1] at hrow
        simp only [Write.run, Write.statements, List.foldl_cons, List.foldl_nil, Statement.run,
          storedResultOf, EventLog.attemptRow_setAttemptStatus, if_true,
          EventLog.attemptRow_saveResult] at hrow
        cases hget : w.store.attemptRow (w.jobs r).attemptId with
        | none => rw [hget] at hrow; cases hrow
        | some row' => rfl
  · rintro ⟨hdig, hrow⟩
    obtain ⟨digest, hdigest⟩ : ∃ d,
        resultDigest env.sha256Base64Url (resultMsgOf env w r outcome) = .ok d :=
      (digest_ok_iff ..).mpr hdig
    obtain ⟨row, hrow⟩ := Option.isSome_iff_exists.mp hrow
    obtain ⟨hwrite, hsent, -⟩ := effectsOf_done hrun hended hf hdigest
    refine ⟨?_, ?_, ?_, freed_of_saved (ledger_sound env acts) hrun hended hf hdigest⟩
    · rw [thrownByDone, if_pos hact, hdigest]
    · refine ⟨storedResultOf (w.jobs r) outcome digest (resultMsgOf env w r outcome),
        resultMsgOf env w r outcome, rfl, rfl, ?_, ?_⟩
      · rw [step_sent, hsent]
      · intro b
        rw [step_store, hwrite]
        exact EventLog.resultRow_saveResult ..
    · refine ⟨{ row with status := terminalStatusOf (finalStatusOf outcome) }, ?_,
        terminal_isActive _⟩
      rw [step_store, hwrite]
      simp [Write.run, Write.statements, Statement.run, storedResultOf, hrow]

/-- Under a rotated lease, with an exit code. -/
theorem completes_rotated :
    let acts := [sampleAssign "a" "l", .callback 0 (.event sampleEvent),
      .leaseGranted ⟨js "a", js "m"⟩]
    Completes (sampleEnv sampleDigest .limits) (runFrom (sampleEnv sampleDigest .limits) acts) 0
      (.error (some (.ofInt 1)) (some (js "nonzero_exit"))) := by
  intro acts
  refine (completes_iff _ acts 0 _ (by decide +kernel) (by decide +kernel)
    (by decide +kernel)).mpr ⟨⟨?_, ?_, ?_, ?_, ?_⟩, by decide +kernel⟩
  · decide +kernel
  · decide +kernel
  · decide +kernel
  · intro n hn
    obtain rfl := Option.some.inj hn
    rfl
  · intro k hk
    obtain rfl := Option.some.inj hk
    decide +kernel

/-- A job id that `JSON.parse` made of the text `"\ud800"`. -/
theorem incomplete_by_surrogate :
    ¬ ∀ env acts r outcome, r ∈ (runFrom env acts).runs → r ∉ (runFrom env acts).ended →
      ((runFrom env acts).jobs r).fenced = false → Completes env (runFrom env acts) r outcome := by
  intro hall
  have h := hall (sampleEnv sampleDigest .limits)
    [.assign
      { jobId := [0xD800]
        attemptId := js "a"
        leaseId := js "l"
        engine := .claude
        workspace := ⟨js "/repo", none, none⟩
        prompt := js "go"
        sandbox := .readOnly
        approvalPolicy := .never } {}] 0 (.success none) (by decide +kernel) (by decide +kernel)
    (by decide +kernel)
  exact absurd h.returns (by decide +kernel)

/-! ### Runs that do not start -/

/-- The call in `handleAssign` that throws. -/
inductive StartFailure
  | run
  | onEvent
  | onDone
  | onApprovalRequest

/-- `handleAssign` of an accepted assignment, up to the call that throws (`failedAssign_run`).  Once
`engine.run` has returned, the run is in the state; which of its callbacks are registered matters
only later. -/
def failedAssign (env : Env) (w : World) (msg : JobAssign) (failure : StartFailure) : World :=
  let started := acceptAssign env w msg true
  match failure with
  | .run => started
  | .onEvent | .onDone | .onApprovalRequest =>
      started.modifyJob w.nextRef fun s => { s with run := some w.nextRef }

/-- Nothing is left of an attempt that did not start. -/
structure NothingLeft (w : World) (a : JsString) : Prop where
  slots : ∀ b r, w.registry.get b = some r → (w.jobs r).run.isSome = true
  status : ∀ row, w.store.attemptRow a = some row → row.status.isActive = false
  settled : w.store.attemptRow a = none ∨ ∃ res msg, w.store.resultRow a = some res ∧
    res.payload = stringifyObject msg ∧ msg.get (js "type") = .lit "job.result" ∧ msg ∈ w.sent

theorem failedAssign_run (msg : JobAssign) (reply : EngineReply) (hthrows : reply.runThrows = true)
    (h : accepts env w msg reply = true) :
    step env w (.assign msg reply) = failedAssign env w msg .run := by
  simp only [accepts, Bool.and_eq_true, Option.isNone_iff_eq_none] at h
  simp only [step, handleAssign, h.1, h.2, hthrows, failedAssign]

theorem store_failedAssign (msg : JobAssign) (failure : StartFailure) :
    (failedAssign env w msg failure).store =
      (w.store.createAttempt (attemptRowOf env w msg)).setAttemptStatus msg.attemptId .running := by
  cases failure <;> rfl

/-- **An accepted assignment whose run does not start leaves its attempt running.** -/
theorem start_failure_stays (env : Env) (acts : List Action) (msg : JobAssign) (reply : EngineReply)
    (failure : StartFailure) (h : accepts env (runFrom env acts) msg reply = true) :
    ¬ NothingLeft (failedAssign env (runFrom env acts) msg failure) msg.attemptId := by
  intro hleft
  have hnew : (runFrom env acts).store.attemptRow msg.attemptId = none := by
    simp only [accepts, Bool.and_eq_true, Option.isNone_iff_eq_none] at h
    exact (existing_eq_none h.1).2
  have hrow : (failedAssign env (runFrom env acts) msg failure).store.attemptRow msg.attemptId =
      some { attemptRowOf env (runFrom env acts) msg with status := .running } := by
    rw [store_failedAssign]
    simp [attemptRowOf, hnew]
  exact absurd (hleft.status _ hrow) (by simp [JobStatus.isActive])

theorem start_failure_stays_first :
    let msg : JobAssign :=
      { jobId := js "job"
        attemptId := js "a"
        leaseId := js "l"
        engine := .claude
        workspace := ⟨js "/repo", none, none⟩
        prompt := js "go"
        sandbox := .readOnly
        approvalPolicy := .never }
    let w := failedAssign (sampleEnv sampleDigest .limits) World.start msg .onDone
    w.registry.get (js "a") = some 0 ∧ ¬ NothingLeft w (js "a") :=
  ⟨by decide +kernel, start_failure_stays _ [] _ {} .onDone (by decide +kernel)⟩

/-- `engine.run` throws: the slot is taken by a job that has no run. -/
theorem stuck_by_throw :
    ¬ ∀ env acts msg reply, accepts env (runFrom env acts) msg reply = true →
      reply.runThrows = true →
      NothingLeft (step env (runFrom env acts) (.assign msg reply)) msg.attemptId := by
  intro hall
  have h := hall (sampleEnv sampleDigest .limits) []
    { jobId := js "job"
      attemptId := js "a"
      leaseId := js "l"
      engine := .claude
      workspace := ⟨js "/repo", none, none⟩
      prompt := js "go"
      sandbox := .readOnly
      approvalPolicy := .never } { runThrows := true } (by decide +kernel) rfl
  exact absurd (h.slots (js "a") 0 (by decide +kernel)) (by decide +kernel)

end HuginAgent
