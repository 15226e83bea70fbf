/-
The signed `hello`, `src/src/conn/handshake.ts`.

`performHandshake` puts three things into it: who the agent is, what the host can do, and
what the daemon has on record.  `Handshake` is the first two.  It carries what is known
of each part before the handshake builds anything from it: the configuration has passed
its own schema, the challenge the schema of inbound messages, the envelope and the
signature are what Node makes them.  Nothing of the kind is known of the project roots
and of the version an engine prints, and nothing bounds what is on record.
-/
import HuginAgent.Conn.Frames
import HuginAgent.Protocol.Schema
import HuginAgent.Store.EventLog

namespace HuginAgent

/-- Durable state reported in `hello`. -/
structure ResumeState where
  activeJobs : List EventLog.ActiveJobRow
  pendingResults : List StoredResult

/-- What `nodePlatform` lets through; it throws on any other. -/
inductive Platform
  | darwin
  | linux
  | win32

def Platform.text : Platform → JsString
  | darwin => js "darwin"
  | linux => js "linux"
  | win32 => js "win32"

/-- What `detectCommand` found. -/
structure EngineStatus where
  installed : Bool
  version : Option JsString
  loggedIn : Option Bool
  /-- `version ? … : …`. -/
  versionNonempty : version ≠ some []

/-- What `hello` takes from the configuration. -/
structure AgentConfig where
  agentId : JsString
  agentVersion : JsString
  protocolVersion : JsString
  projectRoots : List JsString
  agentIdOk : isAuthId agentId = true
  agentVersionOk : isSemVer agentVersion = true
  protocolVersionOk : isSemVer protocolVersion = true

/-- What `performHandshake` builds `hello` from, beside the durable state. -/
structure Handshake (isIso : JsString → Bool) where
  config : AgentConfig
  challengeId : JsString
  keyId : JsString
  signature : JsString
  platform : Platform
  arch : JsString
  claude : EngineStatus
  codex : EngineStatus
  envelope : Envelope
  challengeIdOk : isAuthId challengeId = true
  keyIdOk : isAuthId keyId = true
  signatureOk : isEd25519Sig signature = true
  archOk : isId arch = true
  idOk : isId envelope.id = true
  tsOk : isIso envelope.ts = true

/-! ### The message -/

def EngineStatus.fields (s : EngineStatus) : JsObject :=
  (js "installed", .bool s.installed) ::
    ((s.version.map fun version => (js "version", .str version)).toList ++
      (s.loggedIn.map fun loggedIn => (js "logged_in", .bool loggedIn)).toList)

def activeJobFields (r : EventLog.ActiveJobRow) : JsObject :=
  [(js "job_id", .str r.jobId),
    (js "attempt_id", .str r.attemptId),
    (js "lease_id", .str r.leaseId),
    (js "status", .str r.status.text),
    (js "last_emitted_seq", .ofNat r.lastEmittedSeq)]

def pendingResultFields (r : StoredResult) : JsObject :=
  [(js "job_id", .str r.jobId),
    (js "attempt_id", .str r.attemptId),
    (js "lease_id", .str r.leaseId),
    (js "final_status", .str r.finalStatus.text),
    (js "result_digest", .str r.resultDigest),
    (js "result_size", .ofNat r.resultSize),
    (js "last_emitted_seq", .ofNat r.lastEmittedSeq)]

variable {isIso : JsString → Bool}

def Handshake.authFields (hs : Handshake isIso) : JsObject :=
  [(js "challenge_id", .str hs.challengeId),
    (js "key_id", .str hs.keyId),
    (js "signature", .str hs.signature),
    (js "alg", .lit "ed25519")]

def Handshake.osFields (hs : Handshake isIso) : JsObject :=
  [(js "platform", .str hs.platform.text), (js "arch", .str hs.arch)]

def Handshake.engineFields (hs : Handshake isIso) : JsObject :=
  [(js "claude", .obj hs.claude.fields), (js "codex", .obj hs.codex.fields)]

def Handshake.capabilityFields (hs : Handshake isIso) : JsObject :=
  [(js "engines", .obj hs.engineFields),
    (js "project_roots", .arr (hs.config.projectRoots.map .str))]

def helloMsg (hs : Handshake isIso) (resume : ResumeState) : JsObject :=
  hs.envelope.fields ++
    [(js "type", .lit "hello"),
      (js "protocol_version", .str hs.config.protocolVersion),
      (js "agent_id", .str hs.config.agentId),
      (js "agent_version", .str hs.config.agentVersion),
      (js "auth", .obj hs.authFields),
      (js "os", .obj hs.osFields),
      (js "capabilities", .obj hs.capabilityFields),
      (js "active_jobs", .arr (resume.activeJobs.map fun r => .obj (activeJobFields r))),
      (js "pending_results", .arr (resume.pendingResults.map fun r => .obj (pendingResultFields r)))]

/-! ### Its schema -/

/-- The host can be described. -/
structure Handshake.Describable (hs : Handshake isIso) : Prop where
  claude : ∀ version, hs.claude.version = some version → isId version = true
  codex : ∀ version, hs.codex.version = some version → isId version = true
  rootCount : hs.config.projectRoots.length ≤ arrayMax
  roots : ∀ root ∈ hs.config.projectRoots, isPath root = true

/-- The row passes as an entry of `active_jobs`. -/
structure EventLog.ActiveJobRow.Valid (r : EventLog.ActiveJobRow) : Prop where
  jobId : isId r.jobId = true
  attemptId : isId r.attemptId = true
  leaseId : isId r.leaseId = true
  status : r.status.isActive = true
  lastEmittedSeq : r.lastEmittedSeq ≤ maxSafeInteger

/-- The row passes as an entry of `pending_results`. -/
structure StoredResult.Valid (r : StoredResult) : Prop where
  jobId : isId r.jobId = true
  attemptId : isId r.attemptId = true
  leaseId : isId r.leaseId = true
  resultDigest : isSha256Digest r.resultDigest = true
  resultSize : r.resultSize ≤ maxSafeInteger
  lastEmittedSeq : r.lastEmittedSeq ≤ maxSafeInteger

open Schema

theorem engineStatus_valid_iff (s : EngineStatus) :
    engineStatusSchema (.obj s.fields) = true ↔
      ∀ version, s.version = some version → isId version = true := by
  have h := strictObject_iff
    [⟨js "installed", .boolean, some (.bool s.installed)⟩,
      ⟨js "version", optional (.string isId), s.version.map .str⟩,
      ⟨js "logged_in", optional .boolean, s.loggedIn.map .bool⟩]
    (by simp only [List.map_cons, List.map_nil]; decide)
  have hobject : objectOf
      [⟨js "installed", .boolean, some (.bool s.installed)⟩,
        ⟨js "version", optional (.string isId), s.version.map .str⟩,
        ⟨js "logged_in", optional .boolean, s.loggedIn.map .bool⟩] = s.fields := by
    unfold EngineStatus.fields
    cases s.version <;> cases s.loggedIn <;> rfl
  rw [hobject] at h
  refine h.trans ?_
  cases s.version <;> cases s.loggedIn <;> simp [Schema.optional, JsValue.isUndefined]

theorem activeJob_valid_iff (r : EventLog.ActiveJobRow) :
    activeJobSchema (.obj (activeJobFields r)) = true ↔ r.Valid := by
  have h := strictObject_iff
    [⟨js "job_id", .string isId, some (.str r.jobId)⟩,
      ⟨js "attempt_id", .string isId, some (.str r.attemptId)⟩,
      ⟨js "lease_id", .string isId, some (.str r.leaseId)⟩,
      ⟨js "status", .oneOf ["accepted", "starting", "running", "cancelling"],
        some (.str r.status.text)⟩,
      ⟨js "last_emitted_seq", .safeInt, some (.ofNat r.lastEmittedSeq)⟩]
    (by simp only [List.map_cons, List.map_nil]; decide)
  have hstatus : oneOf ["accepted", "starting", "running", "cancelling"] (.str r.status.text) =
      r.status.isActive := by
    cases r.status <;> decide
  simp only [List.forall_mem_cons, List.not_mem_nil, false_implies, implies_true, and_true,
    Option.getD_some, string_str, hstatus, safeInt_ofNat, decide_eq_true_eq] at h
  refine h.trans ⟨?_, ?_⟩
  · rintro ⟨hjob, hattempt, hlease, hactive, hseq⟩
    exact ⟨hjob, hattempt, hlease, hactive, hseq⟩
  · intro hv
    exact ⟨hv.jobId, hv.attemptId, hv.leaseId, hv.status, hv.lastEmittedSeq⟩

theorem pendingResult_valid_iff (r : StoredResult) :
    pendingResultSchema (.obj (pendingResultFields r)) = true ↔ r.Valid := by
  have h := strictObject_iff
    [⟨js "job_id", .string isId, some (.str r.jobId)⟩,
      ⟨js "attempt_id", .string isId, some (.str r.attemptId)⟩,
      ⟨js "lease_id", .string isId, some (.str r.leaseId)⟩,
      ⟨js "final_status", .oneOf ["success", "error", "cancelled", "timeout"],
        some (.str r.finalStatus.text)⟩,
      ⟨js "result_digest", .string isSha256Digest, some (.str r.resultDigest)⟩,
      ⟨js "result_size", .safeInt, some (.ofNat r.resultSize)⟩,
      ⟨js "last_emitted_seq", .safeInt, some (.ofNat r.lastEmittedSeq)⟩]
    (by simp only [List.map_cons, List.map_nil]; decide)
  have hstatus : oneOf ["success", "error", "cancelled", "timeout"] (.str r.finalStatus.text) =
      true := by
    cases r.finalStatus <;> decide
  simp only [List.forall_mem_cons, List.not_mem_nil, false_implies, implies_true, and_true,
    Option.getD_some, string_str, hstatus, safeInt_ofNat, decide_eq_true_eq, true_and] at h
  refine h.trans ⟨?_, ?_⟩
  · rintro ⟨hjob, hattempt, hlease, hdigest, hsize, hseq⟩
    exact ⟨hjob, hattempt, hlease, hdigest, hsize, hseq⟩
  · intro hv
    exact ⟨hv.jobId, hv.attemptId, hv.leaseId, hv.resultDigest, hv.resultSize, hv.lastEmittedSeq⟩

theorem auth_valid (hs : Handshake isIso) :
    strictObject
      [(js "challenge_id", .string isAuthId), (js "key_id", .string isAuthId),
        (js "signature", .string isEd25519Sig), (js "alg", .literal "ed25519")]
      (.obj hs.authFields) = true := by
  have h := strictObject_iff
    [⟨js "challenge_id", .string isAuthId, some (.str hs.challengeId)⟩,
      ⟨js "key_id", .string isAuthId, some (.str hs.keyId)⟩,
      ⟨js "signature", .string isEd25519Sig, some (.str hs.signature)⟩,
      ⟨js "alg", .literal "ed25519", some (.lit "ed25519")⟩]
    (by simp only [List.map_cons, List.map_nil]; decide)
  apply h.mpr
  simp [hs.challengeIdOk, hs.keyIdOk, hs.signatureOk]

theorem os_valid (hs : Handshake isIso) :
    strictObject
      [(js "platform", .oneOf ["darwin", "linux", "win32"]), (js "arch", .string isId),
        (js "release", .optional (.string isId))]
      (.obj hs.osFields) = true := by
  have h := strictObject_iff
    [⟨js "platform", .oneOf ["darwin", "linux", "win32"], some (.str hs.platform.text)⟩,
      ⟨js "arch", .string isId, some (.str hs.arch)⟩,
      ⟨js "release", .optional (.string isId), none⟩]
    (by simp only [List.map_cons, List.map_nil]; decide)
  have hplatform : oneOf ["darwin", "linux", "win32"] (.str hs.platform.text) = true := by
    cases hs.platform <;> decide
  apply h.mpr
  simp [hplatform, hs.archOk]

theorem capabilities_valid_iff (hs : Handshake isIso) :
    capabilitiesSchema (.obj hs.capabilityFields) = true ↔ hs.Describable := by
  have hengines := strictObject_iff
    [⟨js "claude", engineStatusSchema, some (.obj hs.claude.fields)⟩,
      ⟨js "codex", engineStatusSchema, some (.obj hs.codex.fields)⟩]
    (by simp only [List.map_cons, List.map_nil]; decide)
  have h := strictObject_iff
    [⟨js "engines", .strictObject
        [(js "claude", engineStatusSchema), (js "codex", engineStatusSchema)],
        some (.obj hs.engineFields)⟩,
      ⟨js "project_roots", .array (.string isPath) arrayMax,
        some (.arr (hs.config.projectRoots.map .str))⟩]
    (by simp only [List.map_cons, List.map_nil]; decide)
  simp only [List.forall_mem_cons, List.not_mem_nil, false_implies, implies_true, and_true,
    Option.getD_some, engineStatus_valid_iff] at hengines
  simp only [List.forall_mem_cons, List.not_mem_nil, false_implies, implies_true, and_true,
    Option.getD_some, array_map, string_str] at h
  refine (h.trans (and_congr_left' hengines)).trans ⟨?_, ?_⟩
  · rintro ⟨⟨hclaude, hcodex⟩, hcount, hroots⟩
    exact ⟨hclaude, hcodex, hcount, hroots⟩
  · intro hd
    exact ⟨⟨hd.claude, hd.codex⟩, hd.rootCount, hd.roots⟩

/-- **What it takes for `hello` to meet its schema.** -/
theorem hello_valid_iff (hs : Handshake isIso) (resume : ResumeState) :
    helloSchema isIso (.obj (helloMsg hs resume)) = true ↔
      hs.Describable ∧
        (resume.activeJobs.length ≤ arrayMax ∧ ∀ r ∈ resume.activeJobs, r.Valid) ∧
        (resume.pendingResults.length ≤ arrayMax ∧ ∀ r ∈ resume.pendingResults, r.Valid) := by
  have h := strictObject_iff
    [⟨js "id", .string isId, some (.str hs.envelope.id)⟩,
      ⟨js "ts", .string isIso, some (.str hs.envelope.ts)⟩,
      ⟨js "type", .literal "hello", some (.lit "hello")⟩,
      ⟨js "protocol_version", .string isSemVer, some (.str hs.config.protocolVersion)⟩,
      ⟨js "agent_id", .string isAuthId, some (.str hs.config.agentId)⟩,
      ⟨js "agent_version", .string isSemVer, some (.str hs.config.agentVersion)⟩,
      ⟨js "auth", .strictObject
        [(js "challenge_id", .string isAuthId), (js "key_id", .string isAuthId),
          (js "signature", .string isEd25519Sig), (js "alg", .literal "ed25519")],
        some (.obj hs.authFields)⟩,
      ⟨js "os", .strictObject
        [(js "platform", .oneOf ["darwin", "linux", "win32"]), (js "arch", .string isId),
          (js "release", .optional (.string isId))],
        some (.obj hs.osFields)⟩,
      ⟨js "capabilities", capabilitiesSchema, some (.obj hs.capabilityFields)⟩,
      ⟨js "active_jobs", .optional (.array activeJobSchema arrayMax),
        some (.arr (resume.activeJobs.map fun r => .obj (activeJobFields r)))⟩,
      ⟨js "pending_results", .optional (.array pendingResultSchema arrayMax),
        some (.arr (resume.pendingResults.map fun r => .obj (pendingResultFields r)))⟩]
    (by simp only [List.map_cons, List.map_nil]; decide)
  have hactive := array_map activeJobSchema arrayMax (fun r => .obj (activeJobFields r))
    resume.activeJobs
  have hpending := array_map pendingResultSchema arrayMax (fun r => .obj (pendingResultFields r))
    resume.pendingResults
  simp only [activeJob_valid_iff] at hactive
  simp only [pendingResult_valid_iff] at hpending
  simp only [List.forall_mem_cons, List.not_mem_nil, false_implies, implies_true, and_true,
    Option.getD_some, string_str, literal_lit, hs.idOk, hs.tsOk, hs.config.protocolVersionOk,
    hs.config.agentIdOk, hs.config.agentVersionOk, auth_valid, os_valid, true_and,
    capabilities_valid_iff, optional_of_defined (v := .arr _) rfl, hactive, hpending] at h
  exact h

/-! ### Its size -/

/-- The bytes of an array whose elements take so many. -/
def listBytes (sizes : List Nat) : Nat :=
  if sizes = [] then 2 else 1 + (sizes.map fun n => n + 1).sum

def boolBytes (b : Bool) : Nat := if b then 4 else 5

def engineStatusBytes (s : EngineStatus) : Nat :=
  14 + boolBytes s.installed + (s.version.map fun version => 11 + quotedBytes version).getD 0 +
    (s.loggedIn.map fun loggedIn => 13 + boolBytes loggedIn).getD 0

def activeJobBytes (r : EventLog.ActiveJobRow) : Nat :=
  67 + quotedBytes r.jobId + quotedBytes r.attemptId + quotedBytes r.leaseId +
    quotedBytes r.status.text + jsonBytes (.ofNat r.lastEmittedSeq)

def pendingResultBytes (r : StoredResult) : Nat :=
  105 + quotedBytes r.jobId + quotedBytes r.attemptId + quotedBytes r.leaseId +
    quotedBytes r.finalStatus.text + quotedBytes r.resultDigest + jsonBytes (.ofNat r.resultSize) +
    jsonBytes (.ofNat r.lastEmittedSeq)

def Handshake.authBytes (hs : Handshake isIso) : Nat :=
  quotedBytes hs.challengeId + quotedBytes hs.keyId + quotedBytes hs.signature

def Handshake.hostBytes (hs : Handshake isIso) : Nat :=
  quotedBytes hs.platform.text + quotedBytes hs.arch + engineStatusBytes hs.claude +
    engineStatusBytes hs.codex + listBytes (hs.config.projectRoots.map quotedBytes)

def Handshake.configBytes (hs : Handshake isIso) : Nat :=
  quotedBytes hs.config.protocolVersion + quotedBytes hs.config.agentId +
    quotedBytes hs.config.agentVersion

def helloBytes (hs : Handshake isIso) (resume : ResumeState) : Nat :=
  267 + envelopeBytes hs.envelope + hs.configBytes + hs.authBytes + hs.hostBytes +
    listBytes (resume.activeJobs.map activeJobBytes) +
    listBytes (resume.pendingResults.map pendingResultBytes)

theorem jsonBytes_arr_map {α : Type} {f : α → JsValue} {size : α → Nat}
    (h : ∀ x, jsonBytes (f x) = size x) (l : List α) :
    jsonBytes (.arr (l.map f)) = listBytes (l.map size) := by
  simp only [jsonBytes_arr, listBytes, List.map_eq_nil_iff, List.map_map, Function.comp_def, h]

theorem jsonBytes_obj_cons {key : JsString} {v : JsValue} {n : Nat} (hkey : quotedBytes key = n)
    (hv : v.isUndefined = false) (o : JsObject) :
    jsonBytes (.obj ((key, v) :: o)) = n + jsonBytes v + 3 + (o.map entryBytes).sum := by
  have h := byteLength_stringifyObject (key, v) o hv
  rw [List.map_cons, List.sum_cons, entryBytes_key hkey hv] at h
  rw [jsonBytes, ← stringifyObject, h]
  omega

theorem jsonBytes_bool (b : Bool) : jsonBytes (.bool b) = boolBytes b := by
  cases b <;> decide

theorem jsonBytes_engineStatus (s : EngineStatus) :
    jsonBytes (.obj s.fields) = engineStatusBytes s := by
  rw [EngineStatus.fields, jsonBytes_obj_cons (n := 11) (by decide) rfl, jsonBytes_bool,
    engineStatusBytes, List.map_append, List.sum_append]
  have hversion : ((s.version.map fun version => (js "version", JsValue.str version)).toList.map
      entryBytes).sum = (s.version.map fun version => 11 + quotedBytes version).getD 0 := by
    cases s.version with
    | none => rfl
    | some version =>
        simp only [Option.map_some, Option.toList_some, List.map_cons, List.map_nil, List.sum_cons,
          List.sum_nil, Option.getD_some]
        rw [entryBytes_key (n := 9) (by decide) rfl, jsonBytes_str]
        omega
  have hlogin : ((s.loggedIn.map fun loggedIn => (js "logged_in", JsValue.bool loggedIn)).toList.map
      entryBytes).sum = (s.loggedIn.map fun loggedIn => 13 + boolBytes loggedIn).getD 0 := by
    cases s.loggedIn with
    | none => rfl
    | some loggedIn =>
        simp only [Option.map_some, Option.toList_some, List.map_cons, List.map_nil, List.sum_cons,
          List.sum_nil, Option.getD_some]
        rw [entryBytes_key (n := 11) (by decide) rfl, jsonBytes_bool]
        omega
  omega

theorem jsonBytes_activeJob (r : EventLog.ActiveJobRow) :
    jsonBytes (.obj (activeJobFields r)) = activeJobBytes r := by
  rw [activeJobFields, jsonBytes_obj_cons (n := 8) (by decide) rfl, List.map_cons, List.map_cons,
    List.map_cons, List.map_cons, List.map_nil, entryBytes_key (n := 12) (by decide) rfl,
    entryBytes_key (n := 10) (by decide) rfl, entryBytes_key (n := 8) (by decide) rfl,
    entryBytes_key (n := 18) (by decide) rfl]
  simp only [jsonBytes_str, List.sum_cons, List.sum_nil, activeJobBytes]
  omega

theorem jsonBytes_pendingResult (r : StoredResult) :
    jsonBytes (.obj (pendingResultFields r)) = pendingResultBytes r := by
  rw [pendingResultFields, jsonBytes_obj_cons (n := 8) (by decide) rfl, List.map_cons,
    List.map_cons, List.map_cons, List.map_cons, List.map_cons, List.map_cons, List.map_nil,
    entryBytes_key (n := 12) (by decide) rfl, entryBytes_key (n := 10) (by decide) rfl,
    entryBytes_key (n := 14) (by decide) rfl, entryBytes_key (n := 15) (by decide) rfl,
    entryBytes_key (n := 13) (by decide) rfl, entryBytes_key (n := 18) (by decide) rfl]
  simp only [jsonBytes_str, List.sum_cons, List.sum_nil, pendingResultBytes]
  omega

theorem jsonBytes_auth (hs : Handshake isIso) :
    jsonBytes (.obj hs.authFields) = 56 + hs.authBytes := by
  rw [Handshake.authFields, jsonBytes_obj_cons (n := 14) (by decide) rfl, List.map_cons,
    List.map_cons, List.map_cons, List.map_nil, entryBytes_key (n := 8) (by decide) rfl,
    entryBytes_key (n := 11) (by decide) rfl, entryBytes_key (n := 5) (by decide) rfl]
  have halg : jsonBytes (.lit "ed25519") = 9 := by decide
  simp only [halg, jsonBytes_str, List.sum_cons, List.sum_nil, Handshake.authBytes]
  omega

theorem jsonBytes_host (hs : Handshake isIso) :
    jsonBytes (.obj hs.osFields) + jsonBytes (.obj hs.capabilityFields) = 70 + hs.hostBytes := by
  rw [Handshake.osFields, jsonBytes_obj_cons (n := 10) (by decide) rfl, List.map_cons, List.map_nil,
    entryBytes_key (n := 6) (by decide) rfl, Handshake.capabilityFields,
    jsonBytes_obj_cons (n := 9) (by decide) rfl, List.map_cons, List.map_nil,
    entryBytes_key (n := 15) (by decide) rfl, Handshake.engineFields,
    jsonBytes_obj_cons (n := 8) (by decide) rfl, List.map_cons, List.map_nil,
    entryBytes_key (n := 7) (by decide) rfl, jsonBytes_arr_map jsonBytes_str]
  simp only [jsonBytes_str, jsonBytes_engineStatus, List.sum_cons, List.sum_nil,
    Handshake.hostBytes]
  omega

/-- **The bytes of `hello`.** -/
theorem byteLength_helloMsg (hs : Handshake isIso) (resume : ResumeState) :
    byteLength (stringifyObject (helloMsg hs resume)) = helloBytes hs resume := by
  rw [helloMsg, byteLength_message, List.map_cons, List.map_cons, List.map_cons, List.map_cons,
    List.map_cons, List.map_cons, List.map_cons, List.map_cons, List.map_cons, List.map_nil,
    entryBytes_key (n := 6) (by decide) rfl, entryBytes_key (n := 18) (by decide) rfl,
    entryBytes_key (n := 10) (by decide) rfl, entryBytes_key (n := 15) (by decide) rfl,
    entryBytes_key (n := 6) (by decide) rfl, entryBytes_key (n := 4) (by decide) rfl,
    entryBytes_key (n := 14) (by decide) rfl, entryBytes_key (n := 13) (by decide) rfl,
    entryBytes_key (n := 17) (by decide) rfl]
  have htype : jsonBytes (.lit "hello") = 7 := by decide
  have hhost := jsonBytes_host hs
  simp only [htype, jsonBytes_str, jsonBytes_auth, jsonBytes_arr_map jsonBytes_activeJob,
    jsonBytes_arr_map jsonBytes_pendingResult, List.sum_cons, List.sum_nil, helloBytes, Handshake.configBytes]
  omega

end HuginAgent
