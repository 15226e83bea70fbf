/-
The bound on a frame, `src/conn/framing.ts`.

`decodeInbound` refuses a text of more than `MAX_FRAME_BYTES` before it parses it, and
`encodeOutbound` does not look at the size.  So whether a message gets through is decided
by what it is built from.  The sizes below say how, for the messages that carry what an
engine has put out: the same text counted without writing it.
-/
import HuginAgent.Js.Size
import HuginAgent.Sessions.ResumeManager

namespace HuginAgent

/-- `LIMITS.MAX_FRAME_BYTES`. -/
def maxFrameBytes : Nat := 1048576

def encodeOutbound (msg : JsObject) : JsString := stringifyObject msg

/-- `decodeInbound` answers `payload_too_large`. -/
def payloadTooLarge (raw : JsString) : Bool := maxFrameBytes < byteLength raw

def FitsFrame (msg : JsObject) : Prop := payloadTooLarge (encodeOutbound msg) = false

theorem fitsFrame_iff {msg : JsObject} :
    FitsFrame msg ↔ byteLength (stringifyObject msg) ≤ maxFrameBytes := by
  rw [FitsFrame, payloadTooLarge, encodeOutbound, decide_eq_false_iff_not, Nat.not_lt]

/-! ### What the builders write -/

def envelopeBytes (e : Envelope) : Nat := quotedBytes e.id + quotedBytes e.ts

def streamEventBytes (ctx : AttemptCtx) (seq : Nat) (eventId : JsString) (ev : EngineEvent)
    (e : Envelope) : Nat :=
  99 + envelopeBytes e + quotedBytes ctx.jobId + quotedBytes ctx.attemptId +
    quotedBytes ctx.leaseId + jsonBytes (.ofNat seq) + quotedBytes eventId +
    jsonBytes (.obj ev.fields)

def sessionEventBytes (turnId : JsString) (seq : Nat) (ev : EngineEvent) (e : Envelope) : Nat :=
  63 + envelopeBytes e + quotedBytes turnId + jsonBytes (.ofNat seq) + jsonBytes (.obj ev.fields)

def turnResultBytes (turnId : JsString) (status : TurnStatus) (finalMessage : JsString)
    (newSessionHandle : Option JsString) (e : Envelope) : Nat :=
  80 + envelopeBytes e + quotedBytes turnId + quotedBytes status.text +
    quotedBytes finalMessage + (newSessionHandle.map fun handle => 22 + quotedBytes handle).getD 0

/-- A property with a literal name. -/
theorem entryBytes_key {key : JsString} {v : JsValue} {n : Nat} (hkey : quotedBytes key = n)
    (hv : v.isUndefined = false) : entryBytes (key, v) = n + jsonBytes v + 2 := by
  rw [entryBytes, hv, if_neg Bool.false_ne_true, hkey]

theorem sum_envelope (e : Envelope) : (e.fields.map entryBytes).sum = 12 + envelopeBytes e := by
  rw [Envelope.fields, List.map_cons, List.map_cons, List.map_nil,
    entryBytes_key (n := 4) (by decide) rfl, entryBytes_key (n := 4) (by decide) rfl]
  simp only [jsonBytes_str, List.sum_cons, List.sum_nil, envelopeBytes]
  omega

theorem sum_ctx (ctx : AttemptCtx) : (ctx.fields.map entryBytes).sum =
    36 + quotedBytes ctx.jobId + quotedBytes ctx.attemptId + quotedBytes ctx.leaseId := by
  rw [AttemptCtx.fields, List.map_cons, List.map_cons, List.map_cons, List.map_nil,
    entryBytes_key (n := 8) (by decide) rfl, entryBytes_key (n := 12) (by decide) rfl,
    entryBytes_key (n := 10) (by decide) rfl]
  simp only [jsonBytes_str, List.sum_cons, List.sum_nil]
  omega

/-- A message begins with its envelope. -/
theorem byteLength_message (e : Envelope) (rest : JsObject) :
    byteLength (stringifyObject (e.fields ++ rest)) =
      13 + envelopeBytes e + (rest.map entryBytes).sum := by
  have h := byteLength_stringifyObject (js "id", .str e.id) ((js "ts", .str e.ts) :: rest) rfl
  have hsum := sum_envelope e
  rw [Envelope.fields] at hsum ⊢
  simp only [List.cons_append, List.nil_append, List.map_cons, List.sum_cons, List.map_nil,
    List.sum_nil] at h hsum ⊢
  omega

theorem byteLength_streamEvent (ctx : AttemptCtx) (seq : Nat) (eventId : JsString)
    (ev : EngineEvent) (e : Envelope) :
    byteLength (stringifyObject (streamEvent ctx seq eventId ev e)) =
      streamEventBytes ctx seq eventId ev e := by
  rw [streamEvent, attemptMsg, byteLength_message, List.map_cons, List.map_append, List.sum_cons,
    List.sum_append, sum_ctx, entryBytes_key (n := 6) (by decide) rfl, List.map_cons, List.map_cons,
    List.map_cons, List.map_nil, entryBytes_key (n := 5) (by decide) rfl,
    entryBytes_key (n := 10) (by decide) rfl, entryBytes_key (n := 7) (by decide) rfl]
  have htype : jsonBytes (.lit "stream.event") = 14 := by decide
  simp only [htype, jsonBytes_str, List.sum_cons, List.sum_nil, streamEventBytes]
  omega

theorem byteLength_sessionEvent (turnId : JsString) (seq : Nat) (ev : EngineEvent) (e : Envelope) :
    byteLength (stringifyObject (sessionEvent turnId seq ev e)) =
      sessionEventBytes turnId seq ev e := by
  rw [sessionEvent, sessionMsg, byteLength_message, List.map_cons, List.map_cons, List.map_cons,
    List.map_cons, List.map_nil, entryBytes_key (n := 6) (by decide) rfl,
    entryBytes_key (n := 9) (by decide) rfl, entryBytes_key (n := 5) (by decide) rfl,
    entryBytes_key (n := 7) (by decide) rfl]
  have htype : jsonBytes (.lit "session.event") = 15 := by decide
  simp only [htype, jsonBytes_str, List.sum_cons, List.sum_nil, sessionEventBytes]
  omega

theorem byteLength_sessionTurnResult (turnId : JsString) (status : TurnStatus)
    (finalMessage : JsString) (newSessionHandle : Option JsString) (e : Envelope) :
    byteLength (stringifyObject (sessionTurnResult turnId status finalMessage newSessionHandle e)) =
      turnResultBytes turnId status finalMessage newSessionHandle e := by
  have htype : jsonBytes (.lit "session.turn.result") = 21 := by decide
  have hhandle : entryBytes (js "new_session_handle", .optional .str newSessionHandle) =
      (newSessionHandle.map fun handle => 22 + quotedBytes handle).getD 0 := by
    cases newSessionHandle with
    | none => rfl
    | some handle =>
        rw [JsValue.optional, entryBytes_key (n := 20) (by decide) rfl, jsonBytes_str,
          Option.map_some, Option.getD_some]
        omega
  rw [sessionTurnResult, sessionMsg, byteLength_message, List.map_cons, List.map_cons,
    List.map_cons, List.map_cons, List.map_cons, List.map_nil,
    entryBytes_key (n := 6) (by decide) rfl, entryBytes_key (n := 9) (by decide) rfl,
    entryBytes_key (n := 8) (by decide) rfl, entryBytes_key (n := 15) (by decide) rfl, hhandle]
  simp only [htype, jsonBytes_str, List.sum_cons, List.sum_nil, turnResultBytes]
  omega

end HuginAgent
