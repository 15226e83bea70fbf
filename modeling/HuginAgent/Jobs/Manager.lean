/-
The job manager, `src/src/jobs/manager.ts`.

One definition a method, in the order of the source.  A handler is a function on
`World`; it runs to its end without anything in between, as the source does, with
one exception: an engine may answer `cancel(0)` by calling back before `cancel`
returns, and where the manager goes on working after that call the callbacks are
an argument (`sync`).  Every other call of an engine method is the last thing its
handler does, so a callback out of it is a callback right after it.

Where a statement throws, the handler keeps what it has done up to there.
-/
import HuginAgent.Jobs.World

namespace HuginAgent

/-- What `applyResume` can throw. -/
inductive Thrown
  | jcs (e : JcsError)
  | syntaxError

/-- `leaseOk` for a registered attempt: the current lease, or the previous one in its
overlap. -/
def JobState.accepts (s : JobState) (now : Int) (incoming : JsString) : Bool :=
  incoming = s.leaseId ||
    match s.prevLease with
    | some prev => incoming = prev && now < s.leaseOverlapUntil.getD 0
    | none => false

namespace JobManager

def leaseOk (w : World) (state : Option Ref) (attemptId incoming : JsString) : Bool :=
  match state with
  | some r => (w.jobs r).accepts w.now incoming
  | none => (w.store.getAttempt attemptId).map AttemptRow.leaseId = some incoming

def overCap (env : Env) (store : EventLog) (attemptId : JsString) : Bool :=
  env.caps.events ≤ store.unackedEvents attemptId ||
    env.caps.bytes ≤ store.unackedBytes attemptId ||
    env.caps.conn ≤ store.connUnackedBytes

/-! ### Assignment -/

/-- Lease and run id of `registry.get(id) ?? store.getAttempt(id)`. -/
def existing (w : World) (attemptId : JsString) : Option (JsString × JsString) :=
  match w.registry.get attemptId with
  | some r => some ((w.jobs r).leaseId, (w.jobs r).agentRunId)
  | none => (w.store.getAttempt attemptId).map fun row => (row.leaseId, row.agentRunId)

def specOf (msg : JobAssign) : EngineSpec where
  engine := msg.engine
  prompt := msg.prompt
  attemptId := msg.attemptId
  repoRoot := msg.workspace.repoRoot
  baseSha := msg.workspace.baseSha
  cwd := msg.workspace.cwd
  sandbox := msg.sandbox

/-- The job needs the approval gate and there is none. -/
def failsClosed (env : Env) (msg : JobAssign) : Bool :=
  !env.gateAvailable && (msg.sandbox ≠ .readOnly || msg.approvalPolicy ≠ .never)

/-- Why a new assignment is refused, in the order the checks are made. -/
def refusal (env : Env) (w : World) (msg : JobAssign) (reply : EngineReply) :
    Option (RejectCode × JsString) :=
  if w.registry.atCapacity env.maxConcurrent then some (.busy, js "agent at capacity")
  else match reply.rejection with
    | some rej => some rej
    | none =>
        if failsClosed env msg then
          some (.policyViolation,
            js "approval gate unavailable — daemon fails closed on gated jobs")
        else none

/-- `handleAssign` from `createAttempt` on. -/
def acceptAssign (env : Env) (w : World) (msg : JobAssign) (runThrows : Bool) : World :=
  let ctx : AttemptCtx := ⟨msg.jobId, msg.attemptId, msg.leaseId⟩
  let r := w.nextRef
  let runId := env.agentRunId w.draws
  let state : JobState :=
    { jobId := msg.jobId
      attemptId := msg.attemptId
      leaseId := msg.leaseId
      agentRunId := runId
      status := .accepted
      seq := 0
      totalBytes := 0
      run := none
      paused := false
      fenced := false
      approvalTimers := ∅
      prevLease := none
      leaseOverlapUntil := none }
  let w := { w with
    draws := w.draws + 1
    store := w.store.createAttempt
      { attemptId := msg.attemptId
        jobId := msg.jobId
        leaseId := msg.leaseId
        agentRunId := runId
        status := .accepted }
    nextRef := r + 1
    jobs := Function.update w.jobs r state
    registry := w.registry.add msg.attemptId r }
  let w := w.send env (jobAccept ctx runId)
  let w := { w with startedAt := w.startedAt.insert msg.attemptId w.now }
  let w := w.modifyJob r fun s => { s with status := .running }
  let w := { w with store := w.store.setAttemptStatus msg.attemptId .running }
  let w := w.send env (jobStatusMsg ctx .running)
  let w := { w with calls := w.calls ++ [(r, .run (specOf msg))] }
  if runThrows then w
  else { w with runs := r :: w.runs }.modifyJob r fun s => { s with run := some r }

def handleAssign (env : Env) (w : World) (msg : JobAssign) (reply : EngineReply) : World :=
  let ctx : AttemptCtx := ⟨msg.jobId, msg.attemptId, msg.leaseId⟩
  match existing w msg.attemptId with
  | some (leaseId, agentRunId) =>
      if leaseMatches leaseId msg.leaseId then
        w.send env (jobAccept { ctx with leaseId } agentRunId)
      else
        w.send env (jobReject ctx .staleLease
          (js "attempt already accepted under a different lease"))
  | none =>
      match refusal env w msg reply with
      | some (code, message) => w.send env (jobReject ctx code message)
      | none => acceptAssign env w msg reply.runThrows

/-! ### Approvals -/

/-- `typeof input === "string" ? input : JSON.stringify(input ?? {})`. -/
def inputSummaryOf : JsValue → JsString
  | .str s => s
  | .undefined | .null => stringifyObject []
  | v => jsonText v

def onApprovalRequest (env : Env) (w : World) (r : Ref) (req : ApprovalRequest) : World :=
  let state := w.jobs r
  if state.fenced then w
  else
    let w := w.send env (approvalRequestMsg state.ctx
      { requestId := req.requestId
        toolName := req.toolName
        inputSummary := inputSummaryOf req.input
        risk := req.risk.getD .medium
        approvalTimeoutMs := env.approvalTimeoutMs })
    let timer := w.nextTimer
    let w := { w with
      timers := w.timers ++ [ArmedTimer.mk timer r req.requestId]
      nextTimer := timer + 1 }
    w.modifyJob r fun s => { s with approvalTimers := s.approvalTimers.insert req.requestId timer }

/-- The timeout of an approval fires: auto-deny. -/
def onTimer (w : World) (id : TimerId) : World :=
  match w.timers.find? fun t => t.id = id with
  | none => w
  | some t =>
      let w := { w with timers := w.timers.filter fun u => u.id ≠ id }
      let w := w.modifyJob t.state fun s =>
        { s with approvalTimers := s.approvalTimers.erase t.requestId }
      w.callRun t.state (.resolveApproval t.requestId .deny (some (js "approval timeout")))

def handleApprovalResponse (w : World) (msg : ApprovalResponse) : World :=
  match w.registry.get msg.attemptId with
  | none => w
  | some r =>
      if leaseOk w (some r) msg.attemptId msg.leaseId then
        match (w.jobs r).approvalTimers.lookup msg.requestId with
        | none => w
        | some timer =>
            let w := { w with timers := w.timers.filter fun t => t.id ≠ timer }
            let w := w.modifyJob r fun s =>
              { s with approvalTimers := s.approvalTimers.erase msg.requestId }
            w.callRun r (.resolveApproval msg.requestId msg.decision msg.reason)
      else w

/-! ### Engine callbacks -/

/-- `${attempt_id}-${seq}`. -/
def eventIdOf (attemptId : JsString) (seq : Nat) : JsString :=
  attemptId ++ unit '-' :: (JsNumber.ofInt seq).text

def onEvent (env : Env) (w : World) (r : Ref) (ev : EngineEvent) : World :=
  let state := w.jobs r
  if state.fenced then w
  else
    let seq := state.seq + 1
    let eventId := eventIdOf state.attemptId seq
    let msg := streamEvent state.ctx seq eventId ev (env.envelope w.draws)
    let payload := stringifyObject msg
    let bytes := byteLength payload
    let counted := { w with draws := w.draws + 1 }.modifyJob r fun s =>
      { s with seq, totalBytes := s.totalBytes + bytes }
    match w.store.appendEvent state.attemptId seq eventId bytes payload with
    | none => counted
    | some store =>
        let stored := { counted with store }.emit msg
        if overCap env store state.attemptId then
          (stored.modifyJob r fun s => { s with paused := true }).callRun r .pause
        else stored

def finalStatusOf : EngineOutcome → FinalStatus
  | .success _ => .success
  | .cancelled => .cancelled
  | .error _ _ => .error

/-- `"exitCode" in outcome ? outcome.exitCode : undefined`. -/
def exitCodeOf : EngineOutcome → Option JsNumber
  | .success exitCode => exitCode
  | .error exitCode _ => exitCode
  | .cancelled => none

def errorKindOf : EngineOutcome → Option JsString
  | .error _ errorKind => errorKind
  | _ => none

def terminalStatusOf : FinalStatus → JobStatus
  | .success => .completed
  | .cancelled => .cancelled
  | .error | .timeout => .failed

def resultOf (state : JobState) (outcome : EngineOutcome) (durationMs : Int) :
    Envelope → JsObject :=
  jobResultMsg state.ctx
    { finalStatus := finalStatusOf outcome
      exitCode := exitCodeOf outcome
      errorKind := errorKindOf outcome
      durationMs
      stats := ⟨state.seq, state.totalBytes⟩ }

/-- The row `onDone` saves. -/
def storedResultOf (state : JobState) (outcome : EngineOutcome) (digest : JsString)
    (result : JsObject) : StoredResult where
  attemptId := state.attemptId
  jobId := state.jobId
  leaseId := state.leaseId
  finalStatus := finalStatusOf outcome
  resultDigest := digest
  resultSize := byteLength (stringifyObject result)
  payload := stringifyObject result
  lastEmittedSeq := state.seq

def onDone (env : Env) (w : World) (r : Ref) (outcome : EngineOutcome) : World :=
  let state := w.jobs r
  let started := (w.startedAt.lookup state.attemptId).getD w.now
  -- a replacement may be registered under the id by now: only clean up our own entries
  let current := w.registry.get state.attemptId = some r
  let leave := fun w : World =>
    { w with
      registry := if current then w.registry.remove state.attemptId else w.registry }
  let stopped := ({ w with
    startedAt := if current then w.startedAt.erase state.attemptId else w.startedAt }.modifyJob r
      fun s => { s with run := none }).clearApprovals r
  if state.fenced then leave stopped
  else
    let result := resultOf state outcome (w.now - started) (env.envelope w.draws)
    let built := { stopped with draws := w.draws + 1 }
    match resultDigest env.sha256Base64Url result with
    | .error _ => built
    | .ok digest =>
        let status := terminalStatusOf (finalStatusOf outcome)
        let saved := { built with
          store := (w.store.saveResult (storedResultOf state outcome digest result)).setAttemptStatus
            state.attemptId status }
        leave ((saved.modifyJob r fun s => { s with status }).emit result)

/-- A registered callback fires.  Both adapters call `onDone` once. -/
def callback (env : Env) (w : World) (r : Ref) : Callback → World
  | .event ev => if r ∈ w.runs then onEvent env w r ev else w
  | .approval req => if r ∈ w.runs then onApprovalRequest env w r req else w
  | .done outcome =>
      if r ∈ w.runs ∧ r ∉ w.ended then
        onDone env { w with ended := r :: w.ended } r outcome
      else w

/-- The callbacks out of `state.run?.cancel(0)`. -/
def syncCallbacks (env : Env) (w : World) (r : Ref) (sync : List Callback) : World :=
  if (w.jobs r).run.isSome then sync.foldl (fun w cb => callback env w r cb) w else w

/-- `state.fenced = true`, `clearApprovals`, `state.run?.cancel(0)`, and out of the registry. -/
def fence (env : Env) (w : World) (r : Ref) (attemptId : JsString) (sync : List Callback) :
    World :=
  let w := (w.modifyJob r fun s => { s with fenced := true }).clearApprovals r
  let w := syncCallbacks env (w.callRun r (.cancel 0)) r sync
  { w with
    registry := w.registry.remove attemptId
    startedAt := w.startedAt.erase attemptId }

/-! ### Leases -/

/-- The lease of a state is replaced; the old one stays good for the overlap. -/
def rotate (w : World) (r : Ref) (leaseId : JsString) : World :=
  w.modifyJob r fun s =>
    { s with
      prevLease := some s.leaseId
      leaseId
      leaseOverlapUntil := some (w.now + leaseRotationOverlapMs) }

def adoptLease (w : World) (attemptId leaseId : JsString) : World :=
  let w := { w with store := w.store.setAttemptLease attemptId leaseId }
  match w.registry.get attemptId with
  | some r => if (w.jobs r).leaseId ≠ leaseId then rotate w r leaseId else w
  | none => w

def handleLeaseGranted (w : World) (msg : LeaseGranted) : World :=
  match w.registry.get msg.attemptId with
  | none => w
  | some r =>
      let w := rotate w r msg.leaseId
      { w with store := w.store.setAttemptLease msg.attemptId msg.leaseId }

/-! ### Resume -/

/-- `if (d.lease_id) this.adoptLease(…)`. -/
def adoptDirectiveLease (w : World) (d : ResumeDirective) : World :=
  match d.leaseId with
  | some leaseId => adoptLease w d.attemptId leaseId
  | none => w

/-- `Object.assign(msg, envelope())` after the lease was set. -/
def restamp (leaseId : Option JsString) (msg : JsObject) (e : Envelope) : JsObject :=
  let msg := match leaseId with
    | some l => msg.set (js "lease_id") (.str l)
    | none => msg
  (msg.set (js "id") (.str e.id)).set (js "ts") (.str e.ts)

/-- The loop of `resume_from`. -/
def resendEvents (env : Env) (leaseId : Option JsString) :
    World → List JsString → World × Option Thrown
  | w, [] => (w, none)
  | w, p :: rest =>
      match parseObject p with
      | none => (w, some .syntaxError)
      | some msg => resendEvents env leaseId (w.send env (restamp leaseId msg)) rest

/-- A property read `as string`. -/
def asString : JsValue → JsString
  | .str s => s
  | _ => []

def resendResult (env : Env) (w : World) (d : ResumeDirective) (r : StoredResult) :
    World × Option Thrown :=
  match parseObject r.payload with
  | none => (w, some .syntaxError)
  | some msg =>
      let leaseId := d.leaseId.getD (asString (msg.get (js "lease_id")))
      let msg := restamp (some leaseId) msg (env.envelope w.draws)
      let w := { w with draws := w.draws + 1 }
      match resultDigest env.sha256Base64Url msg with
      | .error e => (w, some (.jcs e))
      | .ok digest =>
          let w := { w with
            store := w.store.updateResult d.attemptId leaseId digest (stringifyObject msg) }
          (w.emit msg, none)

/-- Of what is read back the payload alone is used. -/
theorem resendResult_read (env : Env) (w : World) (d : ResumeDirective) (r : StoredResult) :
    resendResult env w d r.read = resendResult env w d r := rfl

/-- One directive of `applyResume`. -/
def applyDirective (env : Env) (w : World) (d : ResumeDirective) (sync : List Callback) :
    World × Option Thrown :=
  match d.action with
  | .resumeFrom =>
      let w := adoptDirectiveLease w d
      resendEvents env d.leaseId w (w.store.eventsAfter d.attemptId (d.resumeAfterSeq.getD 0))
  | .resendResult =>
      let w := adoptDirectiveLease w d
      match w.store.getResult d.attemptId with
      | none => (w, none)
      | some r => resendResult env w d r
  | .ackPending =>
      ({ w with
        store := (w.store.deleteResult d.attemptId).deleteAttempt d.attemptId
        registry := w.registry.remove d.attemptId }, none)
  | .abandon =>
      let w := match w.registry.get d.attemptId with
        | some r => fence env w r d.attemptId sync
        | none => w
      ({ w with store := (w.store.deleteResult d.attemptId).deleteAttempt d.attemptId }, none)

/-- The directives one after the other, up to the first that throws. -/
def applyResume (env : Env) :
    World → List (ResumeDirective × List Callback) → World × Option Thrown
  | w, [] => (w, none)
  | w, d :: rest =>
      match applyDirective env w d.1 d.2 with
      | (w, some e) => (w, some e)
      | (w, none) => applyResume env w rest

/-! ### Acknowledgements, cancellation, revocation -/

def handleStreamAck (env : Env) (w : World) (msg : StreamAck) : World :=
  let state := w.registry.get msg.attemptId
  if leaseOk w state msg.attemptId msg.leaseId then
    let w := { w with store := w.store.ackEvents msg.attemptId msg.ackSeq }
    match state with
    | some r =>
        if (w.jobs r).paused && !overCap env w.store (w.jobs r).attemptId then
          (w.modifyJob r fun s => { s with paused := false }).callRun r .resume
        else w
    | none => w
  else w

def handleResultAck (w : World) (msg : JobResultAck) : World :=
  if leaseOk w (w.registry.get msg.attemptId) msg.attemptId msg.leaseId then
    match w.store.ackResult msg.attemptId msg.resultDigest with
    | some store =>
        { w with
          store := store.deleteAttempt msg.attemptId
          registry := w.registry.remove msg.attemptId
          startedAt := w.startedAt.erase msg.attemptId }
    | none => w
  else w

def handleCancel (env : Env) (w : World) (msg : JobCancel) : World :=
  match w.registry.get msg.attemptId with
  | none => w
  | some r =>
      if leaseOk w (some r) msg.attemptId msg.leaseId then
        let w := w.modifyJob r fun s => { s with status := .cancelling }
        let w := { w with store := w.store.setAttemptStatus msg.attemptId .cancelling }
        let w := w.send env (jobStatusMsg (w.jobs r).ctx .cancelling)
        w.callRun r (.cancel msg.graceMs)
      else w

def handleRevoke (env : Env) (w : World) (msg : LeaseRevoke) (sync : List Callback) : World :=
  match w.registry.get msg.attemptId with
  | none => w
  | some r =>
      if leaseOk w (some r) msg.attemptId msg.leaseId then
        let w := fence env w r msg.attemptId sync
        { w with store := w.store.deleteAttempt msg.attemptId }
      else w

end JobManager

end HuginAgent
