/-
The message builders, `src/conn/outbound.ts`.

A message is the object literal the builder writes, property for property, with
`undefined` for an optional field that is not there.  Every message begins with
the envelope, a fresh id and the time, and every attempt-scoped one carries the
lease through its `AttemptCtx`.
-/
import HuginAgent.Js.Json
import HuginAgent.Protocol.Messages

namespace HuginAgent

/-- `envelope()`. -/
structure Envelope where
  id : JsString
  ts : JsString

def Envelope.fields (e : Envelope) : JsObject :=
  [(js "id", .str e.id), (js "ts", .str e.ts)]

/-- The notice before the daemon disconnects. -/
def agentDrainingMsg (reason : String) (etaMs : Option Nat) (e : Envelope) : JsObject :=
  e.fields ++ [(js "type", .lit "agent.draining"), (js "reason", .lit reason),
    (js "eta_ms", .optional .ofNat etaMs)]

structure AttemptCtx where
  jobId : JsString
  attemptId : JsString
  leaseId : JsString

def AttemptCtx.fields (ctx : AttemptCtx) : JsObject :=
  [(js "job_id", .str ctx.jobId), (js "attempt_id", .str ctx.attemptId),
    (js "lease_id", .str ctx.leaseId)]

/-- What all attempt-scoped builders write first. -/
def attemptMsg (type : String) (ctx : AttemptCtx) (rest : JsObject) (e : Envelope) : JsObject :=
  e.fields ++ (js "type", .lit type) :: (ctx.fields ++ rest)

def jobAccept (ctx : AttemptCtx) (agentRunId : JsString) : Envelope → JsObject :=
  attemptMsg "job.accept" ctx [(js "agent_run_id", .str agentRunId)]

def jobReject (ctx : AttemptCtx) (code : RejectCode) (message : JsString) : Envelope → JsObject :=
  attemptMsg "job.reject" ctx [(js "code", .str code.text), (js "message", .str message)]

def jobStatusMsg (ctx : AttemptCtx) (status : JobStatus) : Envelope → JsObject :=
  attemptMsg "job.status" ctx [(js "status", .str status.text)]

/-- A normalized engine event: an object, so its property names are distinct. -/
structure EngineEvent where
  fields : JsObject
  wellFormed : (JsValue.obj fields).wellFormed = true

def streamEvent (ctx : AttemptCtx) (seq : Nat) (eventId : JsString) (event : EngineEvent) :
    Envelope → JsObject :=
  attemptMsg "stream.event" ctx
    [(js "seq", .ofNat seq), (js "event_id", .str eventId), (js "event", .obj event.fields)]

structure JobResultStats where
  eventCount : Nat
  bytes : Nat

/-- The fields `onDone` fills in; `signal` and `head_sha` are never set. -/
structure JobResultFields where
  finalStatus : FinalStatus
  exitCode : Option JsNumber
  errorKind : Option JsString
  durationMs : Int
  stats : JobResultStats

def jobResultMsg (ctx : AttemptCtx) (f : JobResultFields) : Envelope → JsObject :=
  attemptMsg "job.result" ctx
    [(js "final_status", .str f.finalStatus.text),
      (js "exit_code", .optional .num f.exitCode),
      (js "signal", .undefined),
      (js "error_kind", .optional .str f.errorKind),
      (js "duration_ms", .num (.ofInt f.durationMs)),
      (js "stats", .obj
        [(js "event_count", .ofNat f.stats.eventCount), (js "bytes", .ofNat f.stats.bytes)]),
      (js "head_sha", .undefined)]

def inputSummaryMax : Nat := 8000

structure ApprovalRequestArgs where
  requestId : JsString
  toolName : JsString
  inputSummary : JsString
  risk : Risk
  approvalTimeoutMs : Nat

def approvalRequestMsg (ctx : AttemptCtx) (args : ApprovalRequestArgs) : Envelope → JsObject :=
  let truncated := decide (args.inputSummary.length > inputSummaryMax)
  let summary := if truncated then args.inputSummary.take inputSummaryMax else args.inputSummary
  attemptMsg "approval.request" ctx
    [(js "request_id", .str args.requestId),
      (js "tool_name", .str args.toolName),
      (js "input_summary", .str summary),
      (js "redaction", .obj
        [(js "applied", .bool false), (js "truncated", .bool truncated),
          (js "byte_count", .ofNat (byteLength args.inputSummary))]),
      (js "risk", .str args.risk.text),
      (js "approval_timeout_ms", .ofNat args.approvalTimeoutMs)]

end HuginAgent
