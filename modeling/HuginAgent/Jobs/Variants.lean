/-
The six messages of a job, before the schema of the server.

`protocol/v1/messages.ts` has a strict object for each of them, and all six begin alike, with
the envelope and the ids of the attempt.  What the server looks at is what is left of a message
on the wire.  So a message of a builder is let through just where the fields that the builder
adds are within their bounds; and one that was let through is let through again under another
envelope and another lease.
-/
import HuginAgent.Engine.Normalize
import HuginAgent.Jobs.Named

namespace HuginAgent

open JobManager

/-! ### The schemas, `protocol/v1/messages.ts` -/

/-- `Text`. -/
def isText (s : JsString) : Bool := s.length ≤ 8192

/-- `LIMITS.APPROVAL_TIMEOUT_MS_MAX`. -/
def approvalTimeoutMsMax : Nat := 900000

/-- `.max(max)`, after a schema for natural numbers. -/
def Schema.atMost (max : Nat) (schema : Schema) : Schema
  | .num (.finite d) => schema (.num (.finite d)) && d.digits * 10 ^ d.exponent.toNat ≤ max
  | _ => false

/-- `z.strictObject({ ...base, type: …, job_id: …, attempt_id: …, lease_id: …, ...fields })`. -/
def attemptSchema (isIso : JsString → Bool) (type : String) (fields : List (JsString × Schema)) :
    Schema :=
  .strictObject
    ([(js "id", .string isId), (js "ts", .string isIso), (js "type", .literal type),
      (js "job_id", .string isId), (js "attempt_id", .string isId),
      (js "lease_id", .string isId)] ++ fields)

/-- What each variant of `Message` that the manager sends has besides. -/
def jobAcceptFields : List (JsString × Schema) := [(js "agent_run_id", .string isId)]

def jobRejectFields : List (JsString × Schema) :=
  [(js "code", .oneOf ["root_not_allowlisted", "engine_unavailable", "busy", "stale_lease",
      "bad_request", "policy_violation"]),
    (js "message", .string isText)]

def jobStatusFields : List (JsString × Schema) :=
  [(js "status", .oneOf ["accepted", "starting", "running", "cancelling", "cancelled", "completed",
      "failed"])]

/-- `z.object({ kind: EventKind }).catchall(z.unknown())`. -/
def eventSchema : Schema
  | .obj o => Schema.string isEventKind (JsObject.get o (js "kind"))
  | _ => false

def streamEventFields : List (JsString × Schema) :=
  [(js "seq", .posInt), (js "event_id", .string isId), (js "event", eventSchema)]

def redactionSchema : Schema :=
  .strictObject [(js "applied", .boolean), (js "truncated", .boolean), (js "byte_count", .safeInt)]

def approvalRequestFields : List (JsString × Schema) :=
  [(js "request_id", .string isId),
    (js "tool_name", .string isId),
    (js "input_summary", .string isText),
    (js "redaction", redactionSchema),
    (js "risk", .oneOf ["low", "medium", "high"]),
    (js "approval_timeout_ms", .atMost approvalTimeoutMsMax .posInt)]

def statsSchema : Schema := .strictObject [(js "event_count", .safeInt), (js "bytes", .safeInt)]

def jobResultFields : List (JsString × Schema) :=
  [(js "final_status", .oneOf ["success", "error", "cancelled", "timeout"]),
    (js "exit_code", .optional .int),
    (js "signal", .optional (.string isId)),
    (js "error_kind", .optional (.string isId)),
    (js "duration_ms", .safeInt),
    (js "stats", statsSchema),
    (js "head_sha", .optional (.string isId))]

def jobVariants : List (String × List (JsString × Schema)) :=
  [("job.accept", jobAcceptFields), ("job.reject", jobRejectFields),
    ("job.status", jobStatusFields), ("stream.event", streamEventFields),
    ("approval.request", approvalRequestFields), ("job.result", jobResultFields)]

/-- `safeParseMessage` succeeds with one of these.  The union picks the variant by the type, and
every variant asks for its own. -/
def safeParseMessage (isIso : JsString → Bool) : Schema :=
  fun v => jobVariants.any fun variant => attemptSchema isIso variant.1 variant.2 v

/-- The server lets the message through. -/
def LetThrough (isIso : JsString → Bool) (msg : JsObject) : Prop :=
  safeParseMessage isIso (.obj msg.onWire) = true

/-! ### Which variant -/

section

variable {isIso : JsString → Bool} {type : String} {fields : List (JsString × Schema)}
  {ctx : AttemptCtx} {e : Envelope} {o rest : JsObject}

theorem attemptSchema_type (h : attemptSchema isIso type fields (.obj o) = true) :
    o.get (js "type") = .lit type := by
  rw [attemptSchema, Schema.strictObject, Bool.and_eq_true, List.all_eq_true, List.all_eq_true] at h
  have htype := h.2 (js "type", .literal type) (by simp)
  obtain ⟨t, ht, hlit⟩ := Schema.string_iff.mp htype
  exact ht.trans (congrArg JsValue.str (of_decide_eq_true hlit))

theorem type_unique : ∀ v ∈ jobVariants, ∀ v' ∈ jobVariants, js v.1 = js v'.1 → v = v' := by
  intro v hv v' hv' h
  simp only [jobVariants, List.mem_cons, List.not_mem_nil, or_false] at hv hv'
  rcases hv with rfl | rfl | rfl | rfl | rfl | rfl <;>
    rcases hv' with rfl | rfl | rfl | rfl | rfl | rfl <;>
    first
      | rfl
      | exact absurd h (by decide)

/-- A message is looked at by the variant of its type. -/
theorem safeParseMessage_iff (hmem : (type, fields) ∈ jobVariants)
    (htype : o.get (js "type") = .lit type) :
    safeParseMessage isIso (.obj o) = true ↔ attemptSchema isIso type fields (.obj o) = true := by
  rw [safeParseMessage, List.any_eq_true]
  constructor
  · rintro ⟨v, hv, h⟩
    have hjs : js v.1 = js type := JsValue.str.inj ((attemptSchema_type h).symm.trans htype)
    obtain rfl := type_unique v hv _ hmem hjs
    exact h
  · exact fun h => ⟨_, hmem, h⟩

/-! ### The messages of the builders -/

/-- **A message is let through when its envelope, its ids and the fields of its own are.** -/
theorem letThrough_iff (l : List Schema.Property)
    (hmem : (type, l.map fun p => (p.key, p.schema)) ∈ jobVariants)
    (hrest : rest.onWire = Schema.objectOf l)
    (hkeys : ([js "id", js "ts", js "type", js "job_id", js "attempt_id", js "lease_id"] ++
      l.map Schema.Property.key).Nodup) :
    LetThrough isIso (attemptMsg type ctx rest e) ↔
      (isId e.id = true ∧ isIso e.ts = true) ∧ ctx.Named ∧
        ∀ p ∈ l, p.schema (p.value.getD .undefined) = true := by
  have hobject : (attemptMsg type ctx rest e).onWire = Schema.objectOf
      ([⟨js "id", .string isId, some (.str e.id)⟩,
        ⟨js "ts", .string isIso, some (.str e.ts)⟩,
        ⟨js "type", .literal type, some (.lit type)⟩,
        ⟨js "job_id", .string isId, some (.str ctx.jobId)⟩,
        ⟨js "attempt_id", .string isId, some (.str ctx.attemptId)⟩,
        ⟨js "lease_id", .string isId, some (.str ctx.leaseId)⟩] ++ l) := by
    rw [Schema.objectOf, List.filterMap_append]
    exact congrArg (fun own => [(js "id", JsValue.str e.id), (js "ts", .str e.ts),
      (js "type", .lit type), (js "job_id", .str ctx.jobId), (js "attempt_id", .str ctx.attemptId),
      (js "lease_id", .str ctx.leaseId)] ++ own) hrest
  have h := Schema.strictObject_iff
    ([⟨js "id", .string isId, some (.str e.id)⟩,
      ⟨js "ts", .string isIso, some (.str e.ts)⟩,
      ⟨js "type", .literal type, some (.lit type)⟩,
      ⟨js "job_id", .string isId, some (.str ctx.jobId)⟩,
      ⟨js "attempt_id", .string isId, some (.str ctx.attemptId)⟩,
      ⟨js "lease_id", .string isId, some (.str ctx.leaseId)⟩] ++ l)
    (by rw [List.map_append]; exact hkeys)
  rw [LetThrough, safeParseMessage_iff hmem (by rw [hobject]; rfl), attemptSchema, hobject]
  rw [List.map_append] at h
  refine h.trans ?_
  simp only [List.forall_mem_append, List.forall_mem_cons, List.not_mem_nil, false_implies,
    implies_true, and_true, Option.getD_some, Schema.string_str, Schema.literal_lit, true_and]
  constructor
  · rintro ⟨⟨hid, hts, hjob, hattempt, hlease⟩, hown⟩
    exact ⟨⟨hid, hts⟩, ⟨hjob, hattempt, hlease⟩, hown⟩
  · rintro ⟨⟨hid, hts⟩, hctx, hown⟩
    exact ⟨⟨hid, hts, hctx.jobId, hctx.attemptId, hctx.leaseId⟩, hown⟩

/-! ### The fields of the builders -/

theorem atMost_posInt (max n : Nat) :
    Schema.atMost max .posInt (.ofNat n) = true ↔ (0 < n ∧ n ≤ maxSafeInteger) ∧ n ≤ max := by
  obtain ⟨-, -, hval⟩ := Schema.natCast_decimal n
  show (Schema.posInt (.ofNat n) &&
    decide ((Decimal.ofInt n).digits * 10 ^ (Decimal.ofInt n).exponent.toNat ≤ max)) = true ↔ _
  rw [hval, Bool.and_eq_true, Schema.posInt_ofNat, decide_eq_true_eq]

theorem letThrough_jobAccept {runId : JsString} :
    LetThrough isIso (jobAccept ctx runId e) ↔
      (isId e.id = true ∧ isIso e.ts = true) ∧ ctx.Named ∧ isId runId = true := by
  refine (letThrough_iff [⟨js "agent_run_id", .string isId, some (.str runId)⟩]
    (by simp [jobVariants, jobAcceptFields]) rfl
    (by simp only [List.map_cons, List.map_nil]; decide)).trans ?_
  rw [List.forall_mem_singleton]
  rfl

theorem letThrough_jobReject {code : RejectCode} {message : JsString} :
    LetThrough isIso (jobReject ctx code message e) ↔
      (isId e.id = true ∧ isIso e.ts = true) ∧ ctx.Named ∧ isText message = true := by
  refine (letThrough_iff
    [⟨js "code", .oneOf ["root_not_allowlisted", "engine_unavailable", "busy", "stale_lease",
        "bad_request", "policy_violation"], some (.str code.text)⟩,
      ⟨js "message", .string isText, some (.str message)⟩]
    (by simp [jobVariants, jobRejectFields]) rfl
    (by simp only [List.map_cons, List.map_nil]; decide)).trans ?_
  have hcode : Schema.oneOf ["root_not_allowlisted", "engine_unavailable", "busy", "stale_lease",
      "bad_request", "policy_violation"] (.str code.text) = true := by
    cases code <;> decide
  rw [List.forall_mem_cons, List.forall_mem_singleton]
  exact and_congr_right fun _ => and_congr_right fun _ => and_iff_right hcode

theorem letThrough_jobStatus {status : JobStatus} :
    LetThrough isIso (jobStatusMsg ctx status e) ↔
      (isId e.id = true ∧ isIso e.ts = true) ∧ ctx.Named := by
  refine (letThrough_iff
    [⟨js "status", .oneOf ["accepted", "starting", "running", "cancelling", "cancelled",
        "completed", "failed"], some (.str status.text)⟩]
    (by simp [jobVariants, jobStatusFields]) rfl
    (by simp only [List.map_cons, List.map_nil]; decide)).trans ?_
  have hstatus : Schema.oneOf ["accepted", "starting", "running", "cancelling", "cancelled",
      "completed", "failed"] (.str status.text) = true := by
    cases status <;> decide
  rw [List.forall_mem_singleton]
  exact and_congr_right fun _ => and_iff_left hstatus

/-- The kind is looked at on the wire. -/
theorem eventSchema_iff (ev : EngineEvent) :
    eventSchema (.obj (JsObject.onWire ev.fields)) = true ↔ HasEventKind ev.fields := by
  rw [eventSchema, Schema.string_iff, JsObject.get_onWire _ (keys_nodup ev.wellFormed)]
  refine exists_congr fun kind => and_congr_left fun _ => ?_
  cases JsObject.get ev.fields (js "kind") with
  | str s => exact Iff.rfl
  | num n =>
      refine iff_of_false ?_ fun h => nomatch h
      rw [JsValue.onWire]
      split
      · exact fun h => nomatch h
      · exact fun h => nomatch h
  | undefined => exact Iff.rfl
  | null => exact Iff.rfl
  | bool b => exact Iff.rfl
  | arr items => exact iff_of_false (fun h => nomatch h) fun h => nomatch h
  | obj fields => exact iff_of_false (fun h => nomatch h) fun h => nomatch h

theorem letThrough_streamEvent {seq : Nat} {eventId : JsString} {ev : EngineEvent} :
    LetThrough isIso (streamEvent ctx seq eventId ev e) ↔
      (isId e.id = true ∧ isIso e.ts = true) ∧ ctx.Named ∧
        (0 < seq ∧ seq ≤ maxSafeInteger) ∧ isId eventId = true ∧ HasEventKind ev.fields := by
  refine (letThrough_iff
    [⟨js "seq", .posInt, some (.ofNat seq)⟩, ⟨js "event_id", .string isId, some (.str eventId)⟩,
      ⟨js "event", eventSchema, some (.obj (JsObject.onWire ev.fields))⟩]
    (by simp [jobVariants, streamEventFields]) rfl
    (by simp only [List.map_cons, List.map_nil]; decide)).trans ?_
  rw [List.forall_mem_cons, List.forall_mem_cons, List.forall_mem_singleton]
  simp only [Option.getD_some, Schema.posInt_ofNat, Schema.string_str, eventSchema_iff]

theorem redaction_valid {truncated : Bool} {bytes : Nat} :
    redactionSchema (.obj [(js "applied", .bool false), (js "truncated", .bool truncated),
      (js "byte_count", .ofNat bytes)]) = true ↔ bytes ≤ maxSafeInteger := by
  have h := Schema.strictObject_iff
    [⟨js "applied", .boolean, some (.bool false)⟩, ⟨js "truncated", .boolean, some (.bool truncated)⟩,
      ⟨js "byte_count", .safeInt, some (.ofNat bytes)⟩]
    (by simp only [List.map_cons, List.map_nil]; decide)
  simp only [List.forall_mem_cons, List.not_mem_nil, false_implies, implies_true, and_true,
    Option.getD_some, Schema.boolean_bool, true_and, Schema.safeInt_ofNat, decide_eq_true_eq] at h
  exact h

/-- What the subprocess and the configuration put into a request. -/
structure ApprovalRequestArgs.Within (args : ApprovalRequestArgs) : Prop where
  requestId : isId args.requestId = true
  toolName : isId args.toolName = true
  byteCount : byteLength args.inputSummary ≤ maxSafeInteger
  timeout : 0 < args.approvalTimeoutMs ∧ args.approvalTimeoutMs ≤ approvalTimeoutMsMax

theorem letThrough_approvalRequest {args : ApprovalRequestArgs} :
    LetThrough isIso (approvalRequestMsg ctx args e) ↔
      (isId e.id = true ∧ isIso e.ts = true) ∧ ctx.Named ∧ args.Within := by
  have hsummary : isText (if decide (args.inputSummary.length > inputSummaryMax) then
      args.inputSummary.take inputSummaryMax else args.inputSummary) = true := by
    rw [isText, decide_eq_true_eq]
    split
    · exact (List.length_take_le _ _).trans (by decide)
    · rename_i hshort
      have hlen : ¬ args.inputSummary.length > 8000 := fun h => hshort (decide_eq_true h)
      omega
  have hrisk : Schema.oneOf ["low", "medium", "high"] (.str args.risk.text) = true := by
    cases args.risk <;> decide
  refine (letThrough_iff
    [⟨js "request_id", .string isId, some (.str args.requestId)⟩,
      ⟨js "tool_name", .string isId, some (.str args.toolName)⟩,
      ⟨js "input_summary", .string isText, some (.str
        (if decide (args.inputSummary.length > inputSummaryMax) then
          args.inputSummary.take inputSummaryMax else args.inputSummary))⟩,
      ⟨js "redaction", redactionSchema, some (.obj
        [(js "applied", .bool false),
          (js "truncated", .bool (decide (args.inputSummary.length > inputSummaryMax))),
          (js "byte_count", .ofNat (byteLength args.inputSummary))])⟩,
      ⟨js "risk", .oneOf ["low", "medium", "high"], some (.str args.risk.text)⟩,
      ⟨js "approval_timeout_ms", .atMost approvalTimeoutMsMax .posInt,
        some (.ofNat args.approvalTimeoutMs)⟩]
    (by simp [jobVariants, approvalRequestFields]) rfl
    (by simp only [List.map_cons, List.map_nil]; decide)).trans ?_
  refine and_congr_right fun _ => and_congr_right fun _ => ?_
  simp only [List.forall_mem_cons, List.not_mem_nil, false_implies, implies_true, and_true,
    Option.getD_some, Schema.string_str, hsummary, hrisk, true_and, redaction_valid, atMost_posInt]
  constructor
  · rintro ⟨hrequest, htool, hbytes, ⟨hpos, -⟩, hmax⟩
    exact ⟨hrequest, htool, hbytes, hpos, hmax⟩
  · intro h
    have hsafe : approvalTimeoutMsMax ≤ maxSafeInteger := by decide
    exact ⟨h.requestId, h.toolName, h.byteCount, ⟨h.timeout.1, h.timeout.2.trans hsafe⟩, h.timeout.2⟩

theorem stats_valid {stats : JobResultStats} :
    statsSchema (.obj [(js "event_count", .ofNat stats.eventCount),
      (js "bytes", .ofNat stats.bytes)]) = true ↔
        stats.eventCount ≤ maxSafeInteger ∧ stats.bytes ≤ maxSafeInteger := by
  have h := Schema.strictObject_iff
    [⟨js "event_count", .safeInt, some (.ofNat stats.eventCount)⟩,
      ⟨js "bytes", .safeInt, some (.ofNat stats.bytes)⟩]
    (by simp only [List.map_cons, List.map_nil]; decide)
  simp only [List.forall_mem_cons, List.not_mem_nil, false_implies, implies_true, and_true,
    Option.getD_some, Schema.safeInt_ofNat, decide_eq_true_eq] at h
  exact h

/-- What the outcome, the clock and the counters put into a result. -/
structure JobResultFields.Within (f : JobResultFields) : Prop where
  exitCode : ∀ code, f.exitCode = some code → Schema.int (.num code) = true
  errorKind : ∀ kind, f.errorKind = some kind → isId kind = true
  duration : 0 ≤ f.durationMs ∧ f.durationMs ≤ maxSafeInteger
  eventCount : f.stats.eventCount ≤ maxSafeInteger
  bytes : f.stats.bytes ≤ maxSafeInteger

/-- A number that is an integer stays one on the wire, and no other becomes one. -/
theorem int_onWire (n : JsNumber) :
    Schema.optional .int (JsValue.onWire (.num n)) = Schema.int (.num n) := by
  rw [JsValue.onWire]
  cases n with
  | finite d => rfl
  | _ => rfl

theorem letThrough_jobResult {f : JobResultFields} :
    LetThrough isIso (jobResultMsg ctx f e) ↔
      (isId e.id = true ∧ isIso e.ts = true) ∧ ctx.Named ∧ f.Within := by
  have hstatus : Schema.oneOf ["success", "error", "cancelled", "timeout"] (.str f.finalStatus.text) =
      true := by
    cases f.finalStatus <;> decide
  refine (letThrough_iff
    [⟨js "final_status", .oneOf ["success", "error", "cancelled", "timeout"],
        some (.str f.finalStatus.text)⟩,
      ⟨js "exit_code", .optional .int, f.exitCode.map fun code => JsValue.onWire (.num code)⟩,
      ⟨js "signal", .optional (.string isId), none⟩,
      ⟨js "error_kind", .optional (.string isId), f.errorKind.map .str⟩,
      ⟨js "duration_ms", .safeInt, some (.num (.ofInt f.durationMs))⟩,
      ⟨js "stats", statsSchema, some (.obj
        [(js "event_count", .ofNat f.stats.eventCount), (js "bytes", .ofNat f.stats.bytes)])⟩,
      ⟨js "head_sha", .optional (.string isId), none⟩]
    (by simp [jobVariants, jobResultFields]) ?_
    (by simp only [List.map_cons, List.map_nil]; decide)).trans ?_
  · cases f.exitCode <;> cases f.errorKind <;> rfl
  refine and_congr_right fun _ => and_congr_right fun _ => ?_
  have hexit : Schema.optional .int ((f.exitCode.map fun code => JsValue.onWire (.num code)).getD
      .undefined) = true ↔ ∀ code, f.exitCode = some code → Schema.int (.num code) = true := by
    cases f.exitCode with
    | none => exact iff_of_true rfl fun _ h => nomatch h
    | some code =>
        rw [Option.map_some, Option.getD_some, int_onWire]
        exact ⟨fun h _ hcode => Option.some.inj hcode ▸ h, fun h => h code rfl⟩
  have hkind : Schema.optional (.string isId) ((f.errorKind.map JsValue.str).getD .undefined) =
      true ↔ ∀ kind, f.errorKind = some kind → isId kind = true := by
    cases f.errorKind with
    | none => exact iff_of_true rfl fun _ h => nomatch h
    | some kind =>
        rw [Option.map_some, Option.getD_some, Schema.optional_of_defined rfl, Schema.string_str]
        exact ⟨fun h _ hkind => Option.some.inj hkind ▸ h, fun h => h kind rfl⟩
  simp only [List.forall_mem_cons, List.not_mem_nil, false_implies, implies_true, and_true,
    Option.getD_some, Option.getD_none, Schema.optional_undefined, hstatus, true_and, hexit, hkind,
    Schema.safeInt_ofInt, stats_valid]
  constructor
  · rintro ⟨hexit, hkind, hduration, hcount, hbytes⟩
    exact ⟨hexit, hkind, hduration, hcount, hbytes⟩
  · intro h
    exact ⟨h.exitCode, h.errorKind, h.duration, h.eventCount, h.bytes⟩

/-! ### Sent again -/

theorem own_keys : ∀ v ∈ jobVariants, ∀ f ∈ v.2,
    f.1 ≠ js "lease_id" ∧ f.1 ≠ js "id" ∧ f.1 ≠ js "ts" := by
  decide

/-- The time of what is let through is one that the schema reads. -/
theorem ts_of_letThrough {o : JsObject} (h : LetThrough isIso o) :
    Schema.string isIso (JsObject.get o.onWire (js "ts")) = true := by
  obtain ⟨v, -, hschema⟩ := List.any_eq_true.mp h
  rw [attemptSchema, Schema.strictObject, Bool.and_eq_true, List.all_eq_true,
    List.all_eq_true] at hschema
  exact hschema.2 (js "ts", .string isIso) (by simp)

theorem restamp_ts {o : JsObject} {leaseId : JsString} (hwf : (JsValue.obj o).wellFormed = true) :
    JsObject.get (restamp (some leaseId) o e).onWire (js "ts") = .str e.ts := by
  rw [JsObject.get_onWire _ (keys_nodup (restamp_wellFormed hwf leaseId e)), restamp,
    JsObject.get_set_self]
  rfl

/-- **A message that was let through is let through under another envelope and another lease.** -/
theorem letThrough_restamp {msg : JsObject} {leaseId : JsString}
    (hwf : (JsValue.obj msg).wellFormed = true) (h : LetThrough isIso msg)
    (hlease : isId leaseId = true) (hid : isId e.id = true) (hts : isIso e.ts = true) :
    LetThrough isIso (restamp (some leaseId) msg.onWire e) := by
  have hwire : (JsValue.obj msg.onWire).wellFormed = true := JsValue.onWire_wellFormed _ hwf
  have hkeys := keys_nodup (restamp_wellFormed hwire leaseId e)
  obtain ⟨v, hv, hschema⟩ := List.any_eq_true.mp h
  refine List.any_eq_true.mpr ⟨v, hv, ?_⟩
  rw [attemptSchema, Schema.strictObject, Bool.and_eq_true, List.all_eq_true,
    List.all_eq_true] at hschema ⊢
  obtain ⟨hknown, hfields⟩ := hschema
  -- what is not set is what it was
  have hget : ∀ key, key ≠ js "lease_id" → key ≠ js "id" → key ≠ js "ts" →
      JsObject.get (restamp (some leaseId) msg.onWire e).onWire key = JsObject.get msg.onWire key := by
    intro key hl hi ht
    rw [JsObject.get_onWire _ hkeys, restamp_get hl hi ht, JsObject.get_onWire _ (keys_nodup hwf),
      JsValue.onWire_onWire]
  refine ⟨?_, ?_⟩
  · intro key hkey
    rw [restamp] at hkey
    rcases JsObject.mem_keys_set ((JsObject.onWire_keys_sublist _).subset hkey) with rfl | hkey
    · rfl
    rcases JsObject.mem_keys_set hkey with rfl | hkey
    · rfl
    rcases JsObject.mem_keys_set hkey with rfl | hkey
    · rfl
    · exact hknown key hkey
  · rw [List.forall_mem_append] at hfields ⊢
    refine ⟨?_, ?_⟩
    · simp only [List.forall_mem_cons, List.not_mem_nil, false_implies, implies_true,
        and_true] at hfields ⊢
      obtain ⟨⟨-, -, htype, hjob, hattempt, -⟩, -⟩ := hfields
      refine ⟨?_, ?_, ?_, ?_, ?_, ?_⟩
      · rw [JsObject.get_onWire _ hkeys, restamp, JsObject.get_set_of_ne _ _ (by decide),
          JsObject.get_set_self]
        exact hid
      · rw [restamp_ts hwire]
        exact hts
      · rw [hget _ (by decide) (by decide) (by decide)]
        exact htype
      · rw [hget _ (by decide) (by decide) (by decide)]
        exact hjob
      · rw [hget _ (by decide) (by decide) (by decide)]
        exact hattempt
      · rw [JsObject.get_onWire _ hkeys, restamp_get_lease]
        exact hlease
    · intro f hf
      obtain ⟨hl, hi, ht⟩ := own_keys v hv f hf
      rw [hget f.1 hl hi ht]
      exact hfields.2 f hf

end

end HuginAgent
