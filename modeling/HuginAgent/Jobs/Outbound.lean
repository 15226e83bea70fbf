/-
Which messages of the manager the server lets through.

Nothing looks at a message before it is sent.  Its ids are those of the schema, because they came
in through one or were drawn, and its texts are cut.  What is not looked at is what the manager
derives or is handed: the id of an event, which is longer than that of its attempt, the name of a
tool and the kind of an error, the timeout of the configuration, and a duration, which is the
difference of two readings of a clock that may be set back.  `OutboundFits` says of every action
what has to hold of these, and a run sends valid messages only exactly when it holds all along.
-/
import HuginAgent.Engine.Kinds
import HuginAgent.Jobs.Completion
import HuginAgent.Jobs.Told
import HuginAgent.Jobs.Variants
import HuginAgent.Workspace.Admission

namespace HuginAgent

open JobManager Ledger

variable {env : Env} {w : World} {isIso : JsString → Bool} {r : Ref}

/-! ### The clock -/

/-- An action with the reading of the clock when it comes. -/
abbrev Timed := Int × Action

def stepAt (env : Env) (w : World) (t : Timed) : World := step env { w with now := t.1 } t.2

def runAt (env : Env) (acts : List Timed) : World := Machine.run (stepAt env) World.start acts

/-- An event that the Claude engine calls back with, or that is read off a line. -/
def EngineEvent.FromClaude (ev : EngineEvent) : Prop :=
  (∃ renv inputs source, RunEffect.event source ev.fields ∈ (ClaudeRun.run renv inputs).log) ∨
    ∃ line evs, normalizeClaudeLine line = some evs ∧ ev.fields ∈ evs

theorem EngineEvent.FromClaude.hasEventKind {ev : EngineEvent} (h : ev.FromClaude) :
    HasEventKind ev.fields := by
  rcases h with ⟨renv, inputs, source, hmem⟩ | ⟨line, evs, hevs, hmem⟩
  · exact ClaudeRun.run_kinded renv inputs source _ hmem
  · exact normalizeClaudeLine_kind hevs _ hmem

/-- `ClaudeEngine.validate`. -/
def ClaudeEngine.validate (fs : WorkspaceFs) (opts : WorkspaceOpts) : Option (RejectCode × JsString) :=
  match validateWorkspace fs opts with
  | .ok _ => none
  | .error e =>
      some (if e.code = .rootNotAllowlisted then .rootNotAllowlisted else .badRequest, e.message)

/-- The Claude engine answers an assignment that has passed its schema.  A real path is no longer
than the system allows. -/
structure ClaudeAnswers (msg : JobAssign) (reply : EngineReply) : Prop where
  repoRoot : isPath msg.workspace.repoRoot = true
  cwd : ∀ cwd, msg.workspace.cwd = some cwd → isPath cwd = true
  rejection : ∃ (fs : WorkspaceFs) (allowlist : List JsString) (stateDir : JsString),
    (∀ path real, fs.realpath path = some real → isPath real = true) ∧
      reply.rejection = ClaudeEngine.validate fs
        ⟨msg.workspace.repoRoot, msg.workspace.cwd, allowlist, stateDir, msg.attemptId⟩

def Action.FromClaude : Action → Prop
  | .assign msg reply => ClaudeAnswers msg reply
  | .callback _ (.event ev) => ev.FromClaude
  | _ => True

theorem isText_append {text path : JsString} (htext : text.length ≤ 4096)
    (hpath : isPath path = true) : isText (text ++ path) = true := by
  rw [isPath, Bool.and_eq_true] at hpath
  have hlength := of_decide_eq_true hpath.2
  rw [isText, decide_eq_true_eq, List.length_append]
  omega

theorem relativeCwd_text {fs : WorkspaceFs} {root : JsString} {cwd : Option JsString}
    (hcwd : ∀ c, cwd = some c → isPath c = true) {e : WorktreeError}
    (h : relativeCwd fs root cwd = .error e) : isText e.message = true := by
  cases cwd with
  | none => cases h
  | some c =>
      rw [relativeCwd] at h
      split at h
      · cases h
      · split at h
        · obtain rfl := Except.error.inj h
          exact isText_append (by decide) (hcwd c rfl)
        · split at h
          · cases h
          · obtain rfl := Except.error.inj h
            exact isText_append (by decide) (hcwd c rfl)

theorem validateWorkspace_text {fs : WorkspaceFs} {opts : WorkspaceOpts}
    (hfs : ∀ path real, fs.realpath path = some real → isPath real = true)
    (hroot : isPath opts.repoRoot = true) (hcwd : ∀ c, opts.cwd = some c → isPath c = true)
    {e : WorktreeError} (h : validateWorkspace fs opts = .error e) : isText e.message = true := by
  rw [validateWorkspace] at h
  split at h
  · obtain rfl := Except.error.inj h
    exact isText_append (by decide) hroot
  · rename_i root hreal
    simp only at h
    split at h
    · obtain rfl := Except.error.inj h
      exact isText_append (by decide) (hfs _ _ hreal)
    · split at h
      · obtain rfl := Except.error.inj h
        exact isText_append (by decide) (hfs _ _ hreal)
      · split at h
        · rename_i e' herror
          obtain rfl := Except.error.inj h
          exact relativeCwd_text hcwd herror
        · split at h
          · cases h
          · obtain rfl := Except.error.inj h
            decide

/-- The texts of the Claude engine, which name a path, are short enough. -/
theorem ClaudeAnswers.isText {msg : JobAssign} {reply : EngineReply} (h : ClaudeAnswers msg reply)
    {code : RejectCode} {message : JsString} (hrej : reply.rejection = some (code, message)) :
    isText message = true := by
  obtain ⟨fs, allowlist, stateDir, hfs, hreply⟩ := h.rejection
  rw [hrej, ClaudeEngine.validate] at hreply
  split at hreply
  · cases hreply
  · rename_i e herror
    obtain rfl : message = e.message := (Prod.ext_iff.mp (Option.some.inj hreply)).2
    exact validateWorkspace_text hfs h.repoRoot h.cwd herror

/-! ### What has to hold of an action -/

/-- The time of the n-th envelope is one that the schema reads. -/
def Env.Dated (isIso : JsString → Bool) (env : Env) (n : Nat) : Prop :=
  isIso (env.envelope n).ts = true

/-- The id of the next event is within the bounds of an id, and its number is safe. -/
structure EventIdFits (s : JobState) : Prop where
  seq : s.seq + 1 ≤ maxSafeInteger
  eventId : s.attemptId.length + 1 + (JsNumber.ofInt (s.seq + 1 : Nat)).text.length ≤ 256

/-- What the subprocess asks for is within bounds, and so is the timeout of the configuration. -/
structure ApprovalFits (env : Env) (req : ApprovalRequest) : Prop where
  requestId : isId req.requestId = true
  toolName : isId req.toolName = true
  byteCount : byteLength (inputSummaryOf req.input) ≤ maxSafeInteger
  timeout : 0 < env.approvalTimeoutMs ∧ env.approvalTimeoutMs ≤ approvalTimeoutMsMax

/-- How long the run has taken, by the clock. -/
def durationOf (w : World) (r : Ref) : Int :=
  w.now - (w.startedAt.lookup (w.jobs r).attemptId).getD w.now

/-- What the outcome, the clock and the counters put into the result is within bounds. -/
structure OutcomeFits (w : World) (r : Ref) (outcome : EngineOutcome) : Prop where
  exitCode : ∀ code, exitCodeOf outcome = some code → Schema.int (.num code) = true
  errorKind : ∀ kind, errorKindOf outcome = some kind → isId kind = true
  duration : 0 ≤ durationOf w r ∧ durationOf w r ≤ maxSafeInteger
  eventCount : (w.jobs r).seq ≤ maxSafeInteger
  bytes : (w.jobs r).totalBytes ≤ maxSafeInteger

/-- What the manager derives, or is handed, is within the bounds of the message that it sends. -/
def OutboundFits (isIso : JsString → Bool) (env : Env) (w : World) : Action → Prop
  | .assign msg reply =>
      if accepts env w msg reply then env.Dated isIso (w.draws + 1) ∧ env.Dated isIso (w.draws + 2)
      else env.Dated isIso w.draws
  | .cancel msg =>
      ∀ r, w.registry.get msg.attemptId = some r →
        leaseOk w (some r) msg.attemptId msg.leaseId = true → env.Dated isIso w.draws
  | .resume d _ =>
      match d.action with
      | .resumeFrom =>
          ∀ i < (w.store.eventsAfter d.attemptId (d.resumeAfterSeq.getD 0)).length,
            env.Dated isIso (w.draws + i)
      | .resendResult =>
          ∀ res leaseId, w.store.resultRow d.attemptId = some res → d.leaseId = some leaseId →
            hasLoneSurrogate leaseId = false → env.Dated isIso w.draws
      | .ackPending | .abandon => True
  | .callback r (.event _) =>
      r ∈ w.runs → (w.jobs r).fenced = false →
        w.store.events.find? ((w.jobs r).attemptId, (w.jobs r).seq + 1) = none →
        env.Dated isIso w.draws ∧ EventIdFits (w.jobs r)
  | .callback r (.approval req) =>
      r ∈ w.runs → (w.jobs r).fenced = false → env.Dated isIso w.draws ∧ ApprovalFits env req
  | .callback r (.done outcome) =>
      r ∈ w.runs → r ∉ w.ended → (w.jobs r).fenced = false → Digestible (w.jobs r) outcome →
        env.Dated isIso w.draws ∧ OutcomeFits w r outcome
  | _ => True

def TimedFits (isIso : JsString → Bool) (env : Env) (w : World) (t : Timed) : Prop :=
  OutboundFits isIso env { w with now := t.1 } t.2

/-! ### What an action sends -/

theorem forall_sent_singleton {msg : JsObject} :
    (∀ m ∈ [msg], LetThrough isIso m) ↔ LetThrough isIso msg := List.forall_mem_singleton

theorem isId_eventIdOf (attemptId : JsString) (seq : Nat) :
    isId (eventIdOf attemptId seq) = true ↔
      attemptId.length + 1 + (JsNumber.ofInt seq).text.length ≤ 256 := by
  have hlength : (eventIdOf attemptId seq).length =
      attemptId.length + 1 + (JsNumber.ofInt seq).text.length := by
    rw [eventIdOf, List.length_append, List.length_cons]
    omega
  rw [isId, hlength, Bool.and_eq_true, decide_eq_true_eq, decide_eq_true_eq]
  omega

/-- The run id that a known attempt is confirmed with. -/
theorem existing_runId (h : Spoken w) {a leaseId runId : JsString}
    (hex : existing w a = some (leaseId, runId)) : isId runId = true := by
  rw [existing] at hex
  split at hex
  · rename_i r hr
    have hlt : r < w.nextRef := h.sound.live_lt a r hr
    obtain rfl : (w.jobs r).agentRunId = runId := (Prod.ext_iff.mp (Option.some.inj hex)).2
    exact (h.jobs r hlt).2
  · obtain ⟨read, hread, hpair⟩ := Option.map_eq_some_iff.mp hex
    obtain ⟨row, hrow, rfl⟩ := Option.map_eq_some_iff.mp hread
    obtain rfl : row.agentRunId = runId := (Prod.ext_iff.mp hpair).2
    exact (h.told a).runId row hrow

/-- All texts of a refusal but that of the engine are known. -/
theorem refusal_text {msg : JobAssign} {reply : EngineReply} (hreply : ClaudeAnswers msg reply)
    {code : RejectCode} {message : JsString} (h : refusal env w msg reply = some (code, message)) :
    isText message = true := by
  rw [refusal] at h
  split at h
  · obtain rfl := (Prod.ext_iff.mp (Option.some.inj h)).2
    decide
  · split at h
    · rename_i rej hrej
      obtain rfl := Option.some.inj h
      exact hreply.isText hrej
    · split at h
      · obtain rfl := (Prod.ext_iff.mp (Option.some.inj h)).2
        decide
      · cases h

theorem answers_letThrough (hids : env.DrawsIds) (h : Spoken w) {msg : JobAssign}
    (hmsg : AttemptCtx.Named ⟨msg.jobId, msg.attemptId, msg.leaseId⟩) {reply : EngineReply}
    (hreply : ClaudeAnswers msg reply) :
    (∀ m ∈ answersOf env w msg reply, LetThrough isIso m) ↔
      OutboundFits isIso env w (.assign msg reply) := by
  cases hex : existing w msg.attemptId with
  | some found =>
      obtain ⟨leaseId, runId⟩ := found
      simp only [OutboundFits, answersOf, accepts, hex, Option.isNone_some, Bool.false_and,
        Bool.false_eq_true, if_false]
      split
      · rename_i hmatch
        obtain rfl : leaseId = msg.leaseId := of_decide_eq_true hmatch
        rw [forall_sent_singleton, letThrough_jobAccept]
        exact ⟨fun hm => hm.1.2, fun hdate => ⟨⟨hids.message _, hdate⟩, hmsg, existing_runId h hex⟩⟩
      · rw [forall_sent_singleton, letThrough_jobReject]
        exact ⟨fun hm => hm.1.2, fun hdate => ⟨⟨hids.message _, hdate⟩, hmsg, by decide⟩⟩
  | none =>
      cases href : refusal env w msg reply with
      | some rej =>
          obtain ⟨code, message⟩ := rej
          simp only [OutboundFits, answersOf, accepts, hex, href, Option.isNone_none,
            Option.isNone_some, Bool.and_false, Bool.false_eq_true, if_false]
          rw [forall_sent_singleton, letThrough_jobReject]
          constructor
          · exact fun hm => hm.1.2
          · exact fun hdate => ⟨⟨hids.message _, hdate⟩, hmsg, refusal_text hreply href⟩
      | none =>
          simp only [OutboundFits, answersOf, accepts, hex, href, Option.isNone_none, Bool.and_self,
            if_true]
          rw [List.forall_mem_cons, forall_sent_singleton, letThrough_jobAccept, letThrough_jobStatus]
          constructor
          · exact fun hm => ⟨hm.1.1.2, hm.2.1.2⟩
          · exact fun hm => ⟨⟨⟨hids.message _, hm.1⟩, hmsg, hids.run _⟩, ⟨hids.message _, hm.2⟩, hmsg⟩

/-! ### What is sent again -/

/-- A stored text that was let through is let through again, at its time. -/
theorem resent_letThrough {env : Env} (hids : env.DrawsIds)
    (hsent : ∀ m ∈ w.sent, LetThrough isIso m) {text leaseId : JsString}
    (htext : IsTextOf w.sent text) (hlease : isId leaseId = true) :
    ∃ o, parseObject text = some o ∧ ∀ n,
      LetThrough isIso (restamp (some leaseId) o (env.envelope n)) ↔ env.Dated isIso n := by
  obtain ⟨msg, hmem, hwf, rfl⟩ := htext
  refine ⟨msg.onWire, (parse_wellFormed hwf).1, ?_⟩
  intro n
  constructor
  · intro h
    have hts := ts_of_letThrough h
    rw [restamp_ts (parse_wellFormed hwf).2] at hts
    exact hts
  · intro hdate
    exact letThrough_restamp hwf (hsent msg hmem) hlease (hids.message n) hdate

theorem resentEvents_letThrough (hids : env.DrawsIds) (hsent : ∀ m ∈ w.sent, LetThrough isIso m)
    {leaseId : JsString} (hlease : isId leaseId = true) {texts : List JsString}
    (h : ∀ text ∈ texts, IsTextOf w.sent text) (draw : Nat) :
    (∀ m ∈ resentEvents env (some leaseId) draw texts, LetThrough isIso m) ↔
      ∀ i < texts.length, env.Dated isIso (draw + i) := by
  induction texts generalizing draw with
  | nil => simp [resentEvents]
  | cons text rest ih =>
      obtain ⟨htext, hrest⟩ := List.forall_mem_cons.mp h
      obtain ⟨o, hparse, hdate⟩ := resent_letThrough hids hsent htext hlease
      rw [resentEvents, hparse]
      simp only
      rw [List.forall_mem_cons, hdate draw, ih hrest (draw + 1)]
      constructor
      · rintro ⟨hfirst, hlater⟩ i hi
        cases i with
        | zero => exact hfirst
        | succ i =>
            have hdated := hlater i (Nat.lt_of_succ_lt_succ hi)
            rwa [Nat.add_assoc, Nat.add_comm 1 i] at hdated
      · intro hall
        refine ⟨hall 0 (Nat.succ_pos _), ?_⟩
        intro i hi
        have hdated := hall (i + 1) (Nat.succ_lt_succ hi)
        rwa [Nat.add_comm i 1, ← Nat.add_assoc] at hdated

theorem resume_letThrough (hids : env.DrawsIds) (h : Spoken w)
    (hsent : ∀ m ∈ w.sent, LetThrough isIso m) {d : ResumeDirective} (sync : List Callback)
    (hd : ∀ leaseId, d.leaseId = some leaseId → isId leaseId = true) :
    (∀ m ∈ sentOf env w (.resume d sync), LetThrough isIso m) ↔
      OutboundFits isIso env w (.resume d sync) := by
  cases haction : d.action with
  | resumeFrom =>
      cases hlease : d.leaseId with
      | none => exact absurd hlease (d.leaseRequired (Or.inl haction))
      | some leaseId =>
          simp only [sentOf, OutboundFits, haction, hlease]
          refine resentEvents_letThrough hids hsent (hd leaseId hlease) ?_ w.draws
          intro text htext
          obtain ⟨row, hrow, rfl⟩ := List.mem_map.mp htext
          rw [EventLog.eventRowsAfter, List.mem_insertionSort] at hrow
          obtain ⟨hmem, hcond⟩ := List.mem_filter.mp hrow
          rw [Bool.and_eq_true] at hcond
          exact (h.told d.attemptId).events row (List.mem_filter.mpr ⟨hmem, hcond.1⟩)
  | resendResult =>
      cases hlease : d.leaseId with
      | none => exact absurd hlease (d.leaseRequired (Or.inr haction))
      | some leaseId =>
          simp only [sentOf, OutboundFits, haction]
          cases hres : w.store.resultRow d.attemptId with
          | none =>
              refine iff_of_true (fun _ hm => absurd hm List.not_mem_nil) ?_
              intro res leaseId' hc
              cases hc
          | some res =>
              obtain ⟨htext, hold⟩ := (h.told d.attemptId).result res hres
              obtain ⟨o, hparse, hdate⟩ := resent_letThrough hids hsent htext (hd leaseId hlease)
              have hdigestible : (∃ digest, resultDigest env.sha256Base64Url
                  (restamp (some leaseId) o (env.envelope w.draws)) = .ok digest) ↔
                  hasLoneSurrogate leaseId = false := restamp_digest_iff (hold o hparse)
              simp only [resentResult, hparse, hlease, Option.getD_some]
              cases hdigest : resultDigest env.sha256Base64Url
                  (restamp (some leaseId) o (env.envelope w.draws)) with
              | error e =>
                  refine iff_of_true (fun _ hm => absurd hm List.not_mem_nil) ?_
                  intro res' leaseId' _ hlease' hlone
                  obtain rfl := Option.some.inj hlease'
                  obtain ⟨digest, hdigest'⟩ := hdigestible.mpr hlone
                  cases hdigest.symm.trans hdigest'
              | ok digest =>
                  simp only
                  rw [forall_sent_singleton, hdate w.draws]
                  constructor
                  · exact fun hdated _ _ _ _ _ => hdated
                  · exact fun hall => hall res leaseId rfl rfl (hdigestible.mp ⟨digest, hdigest⟩)
  | ackPending =>
      simp only [sentOf, OutboundFits, haction]
      exact iff_of_true (fun _ hm => absurd hm List.not_mem_nil) trivial
  | abandon =>
      simp only [sentOf, OutboundFits, haction]
      exact iff_of_true (fun _ hm => absurd hm List.not_mem_nil) trivial

/-! ### Callbacks -/

/-- The ids of a job whose run can call back. -/
theorem Spoken.named (h : Spoken w) (hrun : r ∈ w.runs) : (w.jobs r).ctx.Named :=
  (h.jobs r (h.sound.runs_lt r hrun)).1

theorem event_letThrough (hids : env.DrawsIds) (hnamed : (w.jobs r).ctx.Named) {ev : EngineEvent}
    (hkind : HasEventKind ev.fields) :
    LetThrough isIso (eventMsgOf env w r ev) ↔
      env.Dated isIso w.draws ∧ EventIdFits (w.jobs r) := by
  rw [eventMsgOf, letThrough_streamEvent, isId_eventIdOf]
  constructor
  · exact fun hm => ⟨hm.1.2, ⟨hm.2.2.1.2, hm.2.2.2.1⟩⟩
  · rintro ⟨hdate, hfits⟩
    exact ⟨⟨hids.message _, hdate⟩, hnamed, ⟨Nat.succ_pos _, hfits.seq⟩, hfits.eventId, hkind⟩

theorem approval_letThrough (hids : env.DrawsIds) (hnamed : (w.jobs r).ctx.Named)
    (req : ApprovalRequest) :
    LetThrough isIso (approvalMsgOf env w r req) ↔
      env.Dated isIso w.draws ∧ ApprovalFits env req := by
  rw [approvalMsgOf, letThrough_approvalRequest]
  constructor
  · rintro ⟨hstamp, -, hwithin⟩
    exact ⟨hstamp.2, hwithin.requestId, hwithin.toolName, hwithin.byteCount, hwithin.timeout⟩
  · rintro ⟨hdate, hfits⟩
    exact ⟨⟨hids.message _, hdate⟩, hnamed, hfits.requestId, hfits.toolName, hfits.byteCount,
      hfits.timeout⟩

theorem result_letThrough (hids : env.DrawsIds) (hnamed : (w.jobs r).ctx.Named)
    (outcome : EngineOutcome) :
    LetThrough isIso (resultMsgOf env w r outcome) ↔
      env.Dated isIso w.draws ∧ OutcomeFits w r outcome := by
  rw [resultMsgOf, resultOf, letThrough_jobResult]
  constructor
  · rintro ⟨hstamp, -, hwithin⟩
    exact ⟨hstamp.2, hwithin.exitCode, hwithin.errorKind, hwithin.duration, hwithin.eventCount,
      hwithin.bytes⟩
  · rintro ⟨hdate, hfits⟩
    exact ⟨⟨hids.message _, hdate⟩, hnamed, hfits.exitCode, hfits.errorKind, hfits.duration,
      hfits.eventCount, hfits.bytes⟩

theorem callback_letThrough (hids : env.DrawsIds) (h : Spoken w) {cb : Callback}
    (hcb : (Action.callback r cb).FromClaude) :
    (∀ m ∈ sentOf env w (.callback r cb), LetThrough isIso m) ↔
      OutboundFits isIso env w (.callback r cb) := by
  cases cb with
  | event ev =>
      have hfree : (w.store.events.insert? (eventRowOf env w r ev)).isSome = true ↔
          w.store.events.find? ((w.jobs r).attemptId, (w.jobs r).seq + 1) = none := by
        rw [Option.isSome_iff_ne_none, ne_eq, Table.insert?_eq_none, Option.not_isSome_iff_eq_none]
        rfl
      simp only [sentOf, sentOfCallback, OutboundFits, ← hfree]
      split
      · rename_i hact
        rw [forall_sent_singleton, event_letThrough hids (h.named hact.1) hcb.hasEventKind]
        exact ⟨fun hm _ _ _ => hm, fun hall => hall hact.1 hact.2.1 hact.2.2⟩
      · rename_i hact
        refine iff_of_true (fun _ hm => absurd hm List.not_mem_nil) ?_
        exact fun hrun hf hins => absurd ⟨hrun, hf, hins⟩ hact
  | approval req =>
      simp only [sentOf, sentOfCallback, OutboundFits]
      split
      · rename_i hact
        rw [forall_sent_singleton, approval_letThrough hids (h.named hact.1)]
        exact ⟨fun hm _ _ => hm, fun hall => hall hact.1 hact.2⟩
      · rename_i hact
        refine iff_of_true (fun _ hm => absurd hm List.not_mem_nil) ?_
        exact fun hrun hf => absurd ⟨hrun, hf⟩ hact
  | done outcome =>
      simp only [sentOf, sentOfCallback, OutboundFits]
      split
      · rename_i hact
        have hdigestible := digest_ok_iff env.sha256Base64Url (w.jobs r) outcome (durationOf w r)
          (env.envelope w.draws)
        cases hdigest : resultDigest env.sha256Base64Url (resultMsgOf env w r outcome) with
        | error e =>
            refine iff_of_true (fun _ hm => absurd hm List.not_mem_nil) ?_
            intro _ _ _ hok
            obtain ⟨digest, hdigest'⟩ := hdigestible.mpr hok
            cases hdigest.symm.trans hdigest'
        | ok digest =>
            simp only
            rw [forall_sent_singleton, result_letThrough hids (h.named hact.1.1)]
            exact ⟨fun hm _ _ _ _ => hm,
              fun hall => hall hact.1.1 hact.1.2 hact.2 (hdigestible.mp ⟨digest, hdigest⟩)⟩
      · rename_i hact
        refine iff_of_true (fun _ hm => absurd hm List.not_mem_nil) ?_
        exact fun hrun hended hf => absurd ⟨⟨hrun, hended⟩, hf⟩ hact

/-- **Of what an action sends, the server lets all through exactly when it fits.** -/
theorem sentOf_letThrough (hids : env.DrawsIds) (h : Spoken w)
    (hsent : ∀ m ∈ w.sent, LetThrough isIso m) {act : Action} (hact : act.Parsed)
    (hclaude : act.FromClaude) :
    (∀ m ∈ sentOf env w act, LetThrough isIso m) ↔ OutboundFits isIso env w act := by
  cases act with
  | assign msg reply => exact answers_letThrough hids h hact hclaude
  | cancel msg =>
      simp only [sentOf, OutboundFits]
      cases hlive : w.registry.get msg.attemptId with
      | none =>
          refine iff_of_true (fun _ hm => absurd hm List.not_mem_nil) ?_
          intro r hc
          cases hc
      | some r =>
          simp only
          split
          · rename_i hok
            have hlt : r < w.nextRef := h.sound.live_lt msg.attemptId r hlive
            rw [forall_sent_singleton, letThrough_jobStatus]
            constructor
            · exact fun hm _ _ _ => hm.1.2
            · exact fun hall => ⟨⟨hids.message _, hall r rfl hok⟩, (h.jobs r hlt).1⟩
          · rename_i hok
            refine iff_of_true (fun _ hm => absurd hm List.not_mem_nil) ?_
            intro q hq hok'
            obtain rfl := Option.some.inj hq
            exact absurd hok' hok
  | resume d sync => exact resume_letThrough hids h hsent sync hact
  | callback r cb => exact callback_letThrough hids h hclaude
  | _ => exact iff_of_true (fun _ hm => absurd hm List.not_mem_nil) trivial

/-! ### Every run -/

theorem spoken_at (h : Spoken w) (now : Int) : Spoken { w with now } where
  sound := h.sound.of_same (same_tick w.ledger now)
  jobs := h.jobs
  told := h.told

theorem spoken_stepAt (hids : env.DrawsIds) (h : Spoken w) {t : Timed} (ht : t.2.Parsed) :
    Spoken (stepAt env w t) :=
  spoken_step hids (spoken_at h t.1) ht

theorem sent_stepAt (w : World) (t : Timed) :
    (stepAt env w t).sent = w.sent ++ sentOf env { w with now := t.1 } t.2 :=
  step_sent env { w with now := t.1 } t.2

/-- **The server lets every message of a run through exactly when all that the manager derives, or
is handed, is within the bounds of the message that it is put in.** -/
theorem outbound_valid_iff (isIso : JsString → Bool) (env : Env) (hids : env.DrawsIds)
    (acts : List Timed) (hparsed : ∀ t ∈ acts, t.2.Parsed) (hclaude : ∀ t ∈ acts, t.2.FromClaude) :
    (∀ msg ∈ (runAt env acts).sent, LetThrough isIso msg) ↔
      Machine.Along (stepAt env) (TimedFits isIso env) World.start acts := by
  have halong : Machine.Along (stepAt env) (fun _ t => t.2.Parsed ∧ t.2.FromClaude) World.start acts := by
    refine Machine.along_iff.mpr ?_
    intro pre t post hsplit
    have hmem : t ∈ acts := by
      rw [hsplit]
      exact List.mem_append_right _ List.mem_cons_self
    exact ⟨hparsed t hmem, hclaude t hmem⟩
  have hlast : (∀ pre post, acts = pre ++ post →
      ∀ msg ∈ (Machine.run (stepAt env) World.start pre).sent, LetThrough isIso msg) ↔
      ∀ msg ∈ (runAt env acts).sent, LetThrough isIso msg :=
    Machine.always_iff_last (I := fun w : World => ∀ msg ∈ w.sent, LetThrough isIso msg)
      fun w t h msg hmem => h msg (by
        rw [sent_stepAt]
        exact List.mem_append_left _ hmem)
  rw [← hlast]
  refine Machine.always_iff_of_along (J := Spoken)
    (I := fun w : World => ∀ msg ∈ w.sent, LetThrough isIso msg)
    (fun w t h ht => spoken_stepAt hids h ht.1) ?_ spoken_start
    (fun _ hm => absurd hm List.not_mem_nil) halong
  intro w t h ht hsent
  rw [sent_stepAt, List.forall_mem_append, and_iff_right hsent]
  exact sentOf_letThrough hids (spoken_at h t.1) hsent ht.1 ht.2

/-! ### One event -/

/-- A file system without links, on which all is there whose path is not too long. -/
def shortFs : WorkspaceFs where
  workingDir := [sep]
  realpath path := if isPath (absPath (namesOf path)) then some (absPath (namesOf path)) else none
  isResolved h := by
    obtain ⟨-, hreal⟩ := Option.ite_none_right_eq_some.mp h
    rw [← Option.some.inj hreal]
    exact isResolved_absPath (isEntryName_namesOf _)
  exist _ := true

theorem shortFs_isPath (path real : JsString) (h : shortFs.realpath path = some real) :
    isPath real = true := by
  obtain ⟨hpath, hreal⟩ := Option.ite_none_right_eq_some.mp h
  rw [← Option.some.inj hreal]
  exact hpath

/-- The ids are cut where their number grows without bound. -/
def shortIdsEnv : Env :=
  let env := sampleEnv sampleDigest .limits
  { env with
    agentRunId := fun n => (env.agentRunId n).take 64
    envelope := fun n => { env.envelope n with id := (env.envelope n).id.take 64 } }

theorem shortIdsEnv_drawsIds : shortIdsEnv.DrawsIds := by
  have hcut : ∀ (text rest : JsString), 0 < text.length → isId ((text ++ rest).take 64) = true := by
    intro text rest hpos
    rw [isId, Bool.and_eq_true, decide_eq_true_eq, decide_eq_true_eq, List.length_take,
      List.length_append]
    omega
  exact ⟨fun _ => hcut _ _ (by decide), fun _ => hcut _ _ (by decide)⟩

def sampleStatus : EngineEvent :=
  ⟨[(js "kind", .lit "system_status"), (js "subtype", .lit "init")], by decide⟩

def sampleJob (attemptId : JsString) : JobAssign :=
  { jobId := js "job"
    attemptId
    leaseId := js "l"
    engine := .claude
    workspace := ⟨js "/repo", none, none⟩
    prompt := js "go"
    sandbox := .readOnly
    approvalPolicy := .never }

/-- An attempt that is read one line of: `system`, `init`. -/
def oneEvent (attemptId : JsString) : List Timed :=
  [(0, .assign (sampleJob attemptId) {}), (0, .callback 0 (.event sampleStatus))]

theorem oneEvent_fromClaude (attemptId : JsString) (h : ClaudeEngine.validate shortFs
      ⟨js "/repo", none, [js "/repo"], js "/state", attemptId⟩ = none) :
    ∀ t ∈ oneEvent attemptId, t.2.FromClaude := by
  have hassign : (Action.assign (sampleJob attemptId) {}).FromClaude :=
    ⟨(by decide : isPath (js "/repo") = true), nofun, shortFs, [js "/repo"], js "/state",
      shortFs_isPath, h.symm⟩
  have hevent : sampleStatus.FromClaude :=
    Or.inr ⟨.obj [(js "type", .lit "system"), (js "subtype", .lit "init")], _, rfl,
      List.mem_singleton_self _⟩
  rintro t ht
  rcases List.mem_cons.mp ht with rfl | ht
  · exact hassign
  · rw [List.mem_singleton.mp ht]
    exact hevent

theorem oneEvent_parsed (attemptId : JsString) (h : isId attemptId = true) :
    ∀ t ∈ oneEvent attemptId, t.2.Parsed := by
  rintro t ht
  rcases List.mem_cons.mp ht with rfl | ht
  · exact ⟨(by decide : isId (js "job") = true), h, (by decide : isId (js "l") = true)⟩
  · rw [List.mem_singleton.mp ht]
    trivial

def isSampleTime (s : JsString) : Bool := s = js "2026-01-01T00:00:00.000Z"

theorem shortIdsEnv_dated (n : Nat) : shortIdsEnv.Dated isSampleTime n := decide_eq_true rfl

/-- All three messages of a run with one event are let through, for an attempt with a short id. -/
theorem outbound_valid_sample :
    (runAt shortIdsEnv (oneEvent (js "a"))).sent.length = 3 ∧
      ∀ msg ∈ (runAt shortIdsEnv (oneEvent (js "a"))).sent, LetThrough isSampleTime msg := by
  refine ⟨by decide +kernel, (outbound_valid_iff isSampleTime shortIdsEnv shortIdsEnv_drawsIds
    (oneEvent (js "a")) (oneEvent_parsed (js "a") (by decide))
    (oneEvent_fromClaude (js "a") (by decide +kernel))).mpr ⟨?_, ?_, trivial⟩⟩
  · rw [TimedFits]
    simp only [OutboundFits]
    split
    · exact ⟨shortIdsEnv_dated _, shortIdsEnv_dated _⟩
    · exact shortIdsEnv_dated _
  · intro _ _ _
    exact ⟨shortIdsEnv_dated _, ⟨by decide +kernel, by decide +kernel⟩⟩

/-- An id as long as it may be. -/
def longestId : JsString := List.replicate 256 (unit 'a')

def longAssigned : World := stepAt shortIdsEnv World.start (0, .assign (sampleJob longestId) {})

theorem longAssigned_sent :
    sentOf shortIdsEnv { longAssigned with now := 0 } (.callback 0 (.event sampleStatus)) =
      [eventMsgOf shortIdsEnv { longAssigned with now := 0 } 0 sampleStatus] := by
  rw [sentOf, sentOfCallback, if_pos (by decide +kernel)]

/-- The id of an attempt is as long as it may be, and that of its first event longer. -/
theorem event_id_too_long :
    ¬ ∀ (isIso : JsString → Bool) (env : Env) (acts : List Timed), env.DrawsIds →
      (∀ n, env.Dated isIso n) → (∀ t ∈ acts, t.2.Parsed) → (∀ t ∈ acts, t.2.FromClaude) →
      ∀ msg ∈ (runAt env acts).sent, LetThrough isIso msg := by
  intro hall
  have hmem : eventMsgOf shortIdsEnv { longAssigned with now := 0 } 0 sampleStatus ∈
      (runAt shortIdsEnv (oneEvent longestId)).sent := by
    rw [runAt, oneEvent, Machine.run_cons, Machine.run_cons, Machine.run_nil, sent_stepAt]
    refine List.mem_append_right _ ?_
    rw [← longAssigned, longAssigned_sent]
    exact List.mem_singleton_self _
  have hthrough := hall isSampleTime shortIdsEnv (oneEvent longestId) shortIdsEnv_drawsIds
    shortIdsEnv_dated (oneEvent_parsed longestId (by decide +kernel))
    (oneEvent_fromClaude longestId (by decide +kernel)) _ hmem
  rw [eventMsgOf, letThrough_streamEvent] at hthrough
  exact absurd hthrough.2.2.2.1 (by decide +kernel)

end HuginAgent
