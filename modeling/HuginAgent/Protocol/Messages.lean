/-
The messages the job path reads, `protocol/v1/messages.ts`.

Each record holds the fields some handler reads; a message has passed its schema
before a handler sees it, so what the schema promises and a handler relies on is
a field of the record: no id is empty, and a `resume_from` or `resend_result`
directive carries a lease.  `SafeInt` fields are natural numbers.
-/
import HuginAgent.Js.Text

namespace HuginAgent

/-! ### Limits -/

/-- `LIMITS.LEASE_ROTATION_OVERLAP_MS`. -/
def leaseRotationOverlapMs : Nat := 5000

/-- `LIMITS.APPROVAL_TIMEOUT_MS_DEFAULT`. -/
def approvalTimeoutMsDefault : Nat := 300000

/-! ### Enumerations -/

inductive EngineName
  | claude
  | codex
deriving DecidableEq

inductive Sandbox
  | readOnly
  | workspaceWrite
  | full
deriving DecidableEq

inductive ApprovalPolicy
  | never
  | onRequest
  | onWrite
  | always
deriving DecidableEq

inductive JobStatus
  | accepted
  | starting
  | running
  | cancelling
  | cancelled
  | completed
  | failed
deriving DecidableEq

/-- The states an attempt is listed under in `hello.active_jobs`. -/
def JobStatus.isActive : JobStatus → Bool
  | accepted | starting | running | cancelling => true
  | cancelled | completed | failed => false

def JobStatus.text : JobStatus → JsString
  | accepted => js "accepted"
  | starting => js "starting"
  | running => js "running"
  | cancelling => js "cancelling"
  | cancelled => js "cancelled"
  | completed => js "completed"
  | failed => js "failed"

inductive FinalStatus
  | success
  | error
  | cancelled
  | timeout
deriving DecidableEq

def FinalStatus.text : FinalStatus → JsString
  | success => js "success"
  | error => js "error"
  | cancelled => js "cancelled"
  | timeout => js "timeout"

inductive RejectCode
  | rootNotAllowlisted
  | engineUnavailable
  | busy
  | staleLease
  | badRequest
  | policyViolation
deriving DecidableEq

def RejectCode.text : RejectCode → JsString
  | rootNotAllowlisted => js "root_not_allowlisted"
  | engineUnavailable => js "engine_unavailable"
  | busy => js "busy"
  | staleLease => js "stale_lease"
  | badRequest => js "bad_request"
  | policyViolation => js "policy_violation"

inductive Risk
  | low
  | medium
  | high
deriving DecidableEq

def Risk.text : Risk → JsString
  | low => js "low"
  | medium => js "medium"
  | high => js "high"

inductive ApprovalDecision
  | allow
  | deny
deriving DecidableEq

/-! ### Messages from the server -/

structure Workspace where
  repoRoot : JsString
  baseSha : Option JsString
  cwd : Option JsString
deriving DecidableEq

structure JobAssign where
  jobId : JsString
  attemptId : JsString
  leaseId : JsString
  engine : EngineName
  workspace : Workspace
  prompt : JsString
  sandbox : Sandbox
  approvalPolicy : ApprovalPolicy
deriving DecidableEq

structure StreamAck where
  attemptId : JsString
  leaseId : JsString
  /-- Cumulative: everything up to it is stored. -/
  ackSeq : Nat
deriving DecidableEq

structure JobResultAck where
  attemptId : JsString
  leaseId : JsString
  resultDigest : JsString
deriving DecidableEq

structure JobCancel where
  attemptId : JsString
  leaseId : JsString
  graceMs : Nat
deriving DecidableEq

structure ApprovalResponse where
  attemptId : JsString
  leaseId : JsString
  requestId : JsString
  decision : ApprovalDecision
  reason : Option JsString
deriving DecidableEq

structure LeaseGranted where
  attemptId : JsString
  leaseId : JsString
deriving DecidableEq

structure LeaseRevoke where
  attemptId : JsString
  leaseId : JsString
deriving DecidableEq

inductive ResumeAction
  | resumeFrom
  | resendResult
  | ackPending
  | abandon
deriving DecidableEq

/-- One entry of `hello.accepted.resume`. -/
structure ResumeDirective where
  attemptId : JsString
  action : ResumeAction
  resumeAfterSeq : Option Nat
  leaseId : Option JsString
  /-- `Id` has at least one character, so a lease that is there is a true value. -/
  leaseNonempty : leaseId ≠ some []
  /-- The refinement of the schema. -/
  leaseRequired : action = .resumeFrom ∨ action = .resendResult → leaseId ≠ none
deriving DecidableEq

end HuginAgent
