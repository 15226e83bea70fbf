/-
What the relay reads of a `hello`, `mock-relay/server.ts` and `src/conn/framing.ts`.

The relay decodes its frames as the daemon does: their size, their JSON, their schema, and whether
a message of the type may come at this time.  A `hello` may come at any time and has one schema in
both versions, so what a frame says as a `hello` depends on its bytes alone.  The relay reads five
strings of it, and `Hello` has what the schema says of them.

A `hello` that the daemon has built is read as it was built (`decodeHello_helloMsg`), if it fits
a frame and meets its schema.
-/
import HuginAgent.Auth.Spelling
import HuginAgent.Conn.Hello
import HuginAgent.Js.Carried

namespace HuginAgent

/-- What is read of a `hello`: five strings, and by `resumeFor` the whole message. -/
structure Hello where
  message : JsValue
  protocolVersion : JsString
  agentId : JsString
  challengeId : JsString
  keyId : JsString
  signature : JsString
  protocolVersionOk : isSemVer protocolVersion = true
  agentIdOk : isAuthId agentId = true
  challengeIdOk : isAuthId challengeId = true
  keyIdOk : isAuthId keyId = true
  signatureOk : isEd25519Sig signature = true

/-- A property of an object. -/
def valueAt (v : JsValue) (key : String) : JsValue :=
  match v with
  | .obj o => JsObject.get o (js key)
  | _ => .undefined

/-- What a schema says of a property. -/
theorem Schema.valueAt_of_strictObject {fields : List (JsString × Schema)} {v : JsValue}
    (h : strictObject fields v = true) {key : String} {schema : Schema}
    (hmem : (js key, schema) ∈ fields) : schema (valueAt v key) = true := by
  cases v with
  | obj o =>
      rw [strictObject, Bool.and_eq_true, List.all_eq_true, List.all_eq_true] at h
      exact h.2 _ hmem
  | _ => exact absurd h Bool.false_ne_true

/-- What a schema says of a string. -/
theorem Schema.stringAt_of_strictObject {fields : List (JsString × Schema)} {v : JsValue}
    (h : strictObject fields v = true) {key : String} {p : JsString → Bool}
    (hmem : (js key, .string p) ∈ fields) : p (stringAt v key) = true := by
  obtain ⟨s, hs, hp⟩ := string_iff.mp (valueAt_of_strictObject h hmem)
  cases v with
  | obj o =>
      rw [valueAt] at hs
      rw [stringAt, hs]
      exact hp
  | _ => cases hs

theorem stringAt_of_get {o : JsObject} {key : String} {s : JsString}
    (h : JsObject.get o (js key) = .str s) : stringAt (.obj o) key = s := by
  rw [stringAt, h]

namespace Hello

variable {isIso : JsString → Bool}

def authSchema : Schema :=
  .strictObject
    [(js "challenge_id", .string isAuthId),
      (js "key_id", .string isAuthId),
      (js "signature", .string isEd25519Sig),
      (js "alg", .literal "ed25519")]

theorem auth_of_schema {m : JsValue} (h : helloSchema isIso m = true) :
    authSchema (valueAt m "auth") = true :=
  Schema.valueAt_of_strictObject h (by simp [authSchema])

/-- A message that its schema lets through. -/
def ofValue (isIso : JsString → Bool) (m : JsValue) : Option Hello :=
  if h : helloSchema isIso m = true then
    some
      { message := m
        protocolVersion := stringAt m "protocol_version"
        agentId := stringAt m "agent_id"
        challengeId := stringAt (valueAt m "auth") "challenge_id"
        keyId := stringAt (valueAt m "auth") "key_id"
        signature := stringAt (valueAt m "auth") "signature"
        protocolVersionOk := Schema.stringAt_of_strictObject h (by simp)
        agentIdOk := Schema.stringAt_of_strictObject h (by simp)
        challengeIdOk := Schema.stringAt_of_strictObject (auth_of_schema h) (by simp)
        keyIdOk := Schema.stringAt_of_strictObject (auth_of_schema h) (by simp)
        signatureOk := Schema.stringAt_of_strictObject (auth_of_schema h) (by simp) }
  else none

/-- What a frame says as a `hello`. -/
def decodeHello (number : Decimal → JsNumber) (isIso : JsString → Bool) (raw : List UInt8) :
    Option Hello :=
  if maxFrameBytes < raw.length then none
  else ((parse (utf8Decode raw)).map (JsValue.loaded number)).bind (ofValue isIso)

/-- What the daemon has put into it. -/
def ofHandshake (hs : Handshake isIso) (resume : ResumeState) : Hello where
  message := .obj (helloMsg hs resume)
  protocolVersion := hs.config.protocolVersion
  agentId := hs.config.agentId
  challengeId := hs.challengeId
  keyId := hs.keyId
  signature := hs.signature
  protocolVersionOk := hs.config.protocolVersionOk
  agentIdOk := hs.config.agentIdOk
  challengeIdOk := hs.challengeIdOk
  keyIdOk := hs.keyIdOk
  signatureOk := hs.signatureOk

/-! ### The daemon's own -/

section

variable {number : Decimal → JsNumber} (hs : Handshake isIso) (resume : ResumeState)

theorem carried_safe (hkeeps : KeepsIntegers number) {n : Nat} (h : n ≤ maxSafeInteger) :
    (JsValue.ofNat n).carried number = true := by
  refine JsValue.carried_ofNat (hkeeps n ?_)
  have hsafe : maxSafeInteger < 2 ^ 53 := by decide
  omega

theorem carried_engineStatus (s : EngineStatus) :
    (JsValue.obj s.fields).carried number = true := by
  have hall : JsObject.AreNames [js "installed", js "version", js "logged_in"] := by decide
  have hsublist : (JsObject.keys s.fields).Sublist
      [js "installed", js "version", js "logged_in"] := by
    unfold EngineStatus.fields
    cases s.version <;> cases s.loggedIn <;> simp [JsObject.keys]
  refine JsValue.carried_obj ⟨hall.nodup.sublist hsublist,
    fun key hkey => hall.plain key (hsublist.subset hkey)⟩ ?_
  unfold EngineStatus.fields
  cases s.version <;> cases s.loggedIn <;> simp

theorem carried_activeJob (hkeeps : KeepsIntegers number) {r : EventLog.ActiveJobRow}
    (h : r.Valid) : (JsValue.obj (activeJobFields r)).carried number = true := by
  refine JsValue.carried_obj (by exact (by decide : JsObject.AreNames
    [js "job_id", js "attempt_id", js "lease_id", js "status", js "last_emitted_seq"])) ?_
  simp [activeJobFields, carried_safe hkeeps h.lastEmittedSeq]

theorem carried_pendingResult (hkeeps : KeepsIntegers number) {r : StoredResult} (h : r.Valid) :
    (JsValue.obj (pendingResultFields r)).carried number = true := by
  refine JsValue.carried_obj (by exact (by decide : JsObject.AreNames
    [js "job_id", js "attempt_id", js "lease_id", js "final_status", js "result_digest",
      js "result_size", js "last_emitted_seq"])) ?_
  simp [pendingResultFields, carried_safe hkeeps h.resultSize, carried_safe hkeeps h.lastEmittedSeq]

theorem carried_auth : (JsValue.obj hs.authFields).carried number = true := by
  refine JsValue.carried_obj (by exact (by decide : JsObject.AreNames
    [js "challenge_id", js "key_id", js "signature", js "alg"])) ?_
  simp [Handshake.authFields]

theorem carried_capabilities : (JsValue.obj hs.capabilityFields).carried number = true := by
  have hengines : (JsValue.obj hs.engineFields).carried number = true := by
    refine JsValue.carried_obj (by exact (by decide : JsObject.AreNames
      [js "claude", js "codex"])) ?_
    simp [Handshake.engineFields, carried_engineStatus]
  have hroots : (JsValue.arr (hs.config.projectRoots.map .str)).carried number = true :=
    JsValue.carried_arr_map fun _ _ => rfl
  refine JsValue.carried_obj (by exact (by decide : JsObject.AreNames
    [js "engines", js "project_roots"])) ?_
  simp [Handshake.capabilityFields, hengines, hroots]

theorem carried_helloMsg (hkeeps : KeepsIntegers number)
    (hactive : ∀ r ∈ resume.activeJobs, r.Valid) (hpending : ∀ r ∈ resume.pendingResults, r.Valid) :
    (JsValue.obj (helloMsg hs resume)).carried number = true := by
  have hos : (JsValue.obj hs.osFields).carried number = true := by
    refine JsValue.carried_obj (by exact (by decide : JsObject.AreNames
      [js "platform", js "arch"])) ?_
    simp [Handshake.osFields]
  have hjobs := JsValue.carried_arr_map (f := fun r => .obj (activeJobFields r))
    fun r hr => carried_activeJob hkeeps (hactive r hr)
  have hresults := JsValue.carried_arr_map (f := fun r => .obj (pendingResultFields r))
    fun r hr => carried_pendingResult hkeeps (hpending r hr)
  refine JsValue.carried_obj (by exact (by decide : JsObject.AreNames
    [js "id", js "ts", js "type", js "protocol_version", js "agent_id", js "agent_version",
      js "auth", js "os", js "capabilities", js "active_jobs", js "pending_results"])) ?_
  simp [helloMsg, Envelope.fields, carried_auth, hos, carried_capabilities, hjobs, hresults]

/-- The daemon's `hello` is let through. -/
structure Sendable (hs : Handshake isIso) (resume : ResumeState) : Prop where
  fits : FitsFrame (helloMsg hs resume)
  describable : hs.Describable
  activeJobs : resume.activeJobs.length ≤ arrayMax ∧ ∀ r ∈ resume.activeJobs, r.Valid
  pendingResults : resume.pendingResults.length ≤ arrayMax ∧ ∀ r ∈ resume.pendingResults, r.Valid

variable {hs resume}

theorem ofValue_helloMsg (h : Sendable hs resume) :
    ofValue isIso (.obj (helloMsg hs resume)) = some (ofHandshake hs resume) := by
  rw [ofValue, dif_pos ((hello_valid_iff hs resume).mpr
    ⟨h.describable, h.activeJobs, h.pendingResults⟩)]
  rfl

/-- **The relay reads what the daemon has put into its `hello`.** -/
theorem decodeHello_helloMsg (hkeeps : KeepsIntegers number) (h : Sendable hs resume) :
    decodeHello number isIso (utf8Encode (encodeOutbound (helloMsg hs resume))) =
      some (ofHandshake hs resume) := by
  have hfits := fitsFrame_iff.mp h.fits
  have hcarried := carried_helloMsg hs resume hkeeps h.activeJobs.2 h.pendingResults.2
  rw [decodeHello, if_neg (by rw [length_utf8Encode]; exact Nat.not_lt.mpr hfits), encodeOutbound,
    utf8Decode_stringifyObject, stringifyObject, JsValue.parse_carried hcarried, Option.bind_some,
    ofValue_helloMsg h]

end

end Hello

end HuginAgent
