/-
What comes in over a connection, `protocol/v1/index.ts` and `src/conn/framing.ts`.

A frame is decoded in four steps: its size, its JSON, its schema, and whether a message of its
type may come at this time.  The first two schemas differ in the types they know only, so a
frame is kept here with what the schema of the second version makes of it.  A message has a
type and the content that goes with it; where no function looks at the content it is left out.
-/
import HuginAgent.Conn.Frames
import HuginAgent.Kit.Lines
import HuginAgent.Protocol.Messages
import HuginAgent.Protocol.Schema

namespace HuginAgent

/-! ### Types of messages -/

inductive MessageV2Type
  | authChallenge | hello | helloAccepted | helloRejected
  | leaseRenew | leaseGranted | leaseRevoke
  | jobAssign | jobAccept | jobReject
  | streamEvent | streamAck
  | approvalRequest | approvalResponse
  | jobStatus | jobResult | jobResultAck | jobCancel
  | heartbeat | agentDraining | capabilitiesUpdate | nack | error
  | sessionListRequest | sessionListResponse
  | sessionHistoryRequest | sessionHistoryResponse
  | sessionResumeRequest | sessionCancel | sessionAck | sessionMessage
  | sessionResumeAccept | sessionResumeReject
  | sessionEvent | sessionTurnResult | sessionError
deriving DecidableEq

inductive Direction
  | a2s
  | s2a
  | both
deriving DecidableEq

namespace MessageV2Type

/-- The variants of `MessageV2` that are no variants of `Message`: all are named `session.*`. -/
def isSession : MessageV2Type → Bool
  | sessionListRequest | sessionListResponse | sessionHistoryRequest | sessionHistoryResponse
  | sessionResumeRequest | sessionCancel | sessionAck | sessionMessage | sessionResumeAccept
  | sessionResumeReject | sessionEvent | sessionTurnResult | sessionError => true
  | _ => false

/-- `DIRECTION`. -/
def direction : MessageV2Type → Direction
  | authChallenge | helloAccepted | helloRejected | leaseGranted | leaseRevoke | jobAssign
  | streamAck | approvalResponse | jobResultAck | jobCancel | sessionListRequest
  | sessionHistoryRequest | sessionResumeRequest | sessionCancel | sessionAck
  | sessionMessage => .s2a
  | heartbeat | nack | error => .both
  | hello | leaseRenew | jobAccept | jobReject | streamEvent | approvalRequest | jobStatus
  | jobResult | agentDraining | capabilitiesUpdate | sessionListResponse | sessionHistoryResponse
  | sessionResumeAccept | sessionResumeReject | sessionEvent | sessionTurnResult
  | sessionError => .a2s

/-- `HANDSHAKE_TYPES`. -/
def isHandshake : MessageV2Type → Bool
  | authChallenge | hello | helloAccepted | helloRejected | nack | error => true
  | _ => false

end MessageV2Type

/-! ### Messages -/

structure AuthChallenge where
  challengeId : JsString
  nonce : JsString

structure HelloAccepted where
  negotiatedVersion : JsString
  semVer : isSemVer negotiatedVersion = true
  connectionEpoch : Nat
  heartbeatIntervalMs : Nat
  resume : List ResumeDirective

structure HelloRejected where
  code : JsString
  message : JsString

/-- What a message of the type holds, as far as anything reads it. -/
abbrev MessageV2Type.Body : MessageV2Type → Type
  | authChallenge => AuthChallenge
  | helloAccepted => HelloAccepted
  | helloRejected => HelloRejected
  | leaseGranted => LeaseGranted
  | leaseRevoke => LeaseRevoke
  | jobAssign => JobAssign
  | streamAck => StreamAck
  | approvalResponse => ApprovalResponse
  | jobResultAck => JobResultAck
  | jobCancel => JobCancel
  | _ => Unit

structure MessageV2 where
  type : MessageV2Type
  body : type.Body

/-! ### Decoding -/

/-- A frame: how long it is, and what the schema of `MessageV2` makes of it, unless it is no JSON
or the schema rejects it. -/
structure WireFrame where
  bytes : Nat
  parsed : Option MessageV2

inductive DecodeError
  | payloadTooLarge
  | invalidMessage
  | badDirection
  | badState
deriving DecidableEq

/-- `validateInbound` of the agent. -/
def validateInbound (msg : MessageV2) (authed : Bool) : Option DecodeError :=
  if msg.type.direction = .a2s then some .badDirection
  else if authed = false ∧ msg.type.isHandshake = false then some .badState
  else none

/-- `safeParseMessageV2`, or `safeParseMessage`. -/
def safeParse (frame : WireFrame) (v2 : Bool) : Option MessageV2 :=
  frame.parsed.filter fun m => v2 || !m.type.isSession

def decodeInbound (frame : WireFrame) (authed v2 : Bool) : Except DecodeError MessageV2 :=
  if maxFrameBytes < frame.bytes then .error .payloadTooLarge
  else
    match safeParse frame v2 with
    | none => .error .invalidMessage
    | some msg =>
        match validateInbound msg authed with
        | some e => .error e
        | none => .ok msg

theorem decodeInbound_ok {frame : WireFrame} {authed v2 : Bool} {msg : MessageV2}
    (h : decodeInbound frame authed v2 = .ok msg) :
    (msg.type.isSession = true → v2 = true) ∧ (msg.type.isHandshake = false → authed = true) := by
  unfold decodeInbound at h
  split at h
  · exact nomatch h
  · split at h
    · exact nomatch h
    · rename_i parsed hparsed
      split at h
      · exact nomatch h
      · rename_i hvalid
        obtain rfl := Except.ok.inj h
        refine ⟨?_, ?_⟩
        · intro hsession
          have hfilter := (Option.filter_eq_some_iff.mp hparsed).2
          rw [hsession] at hfilter
          simpa using hfilter
        · intro hlate
          unfold validateInbound at hvalid
          split at hvalid
          · exact nomatch hvalid
          · split at hvalid
            · exact nomatch hvalid
            · rename_i hstate
              exact Bool.not_eq_false _ ▸ fun hc => hstate ⟨hc, hlate⟩

/-! ### Versions -/

/-- `v.split(".")[0]`. -/
def majorOf (v : JsString) : JsString := (splitAll (unit '.') v).headD []

/-- `v.split("-")[1]`, which counts as false where it is empty. -/
def preOf (v : JsString) : Option JsString := ((splitAll (unit '-') v)[1]?).filter fun pre => pre ≠ []

/-- The version that is negotiated; `none` is a refusal. -/
def negotiateVersion (agentVersion : JsString) (serverSupported : List JsString) :
    Option JsString :=
  if isSemVer agentVersion = false then none
  else
    let supported := serverSupported.filter fun v => isSemVer v
    if (preOf agentVersion).isSome then supported.find? fun v => v = agentVersion
    else supported.find? fun v => (preOf v).isNone && majorOf v = majorOf agentVersion

/-- `isProtocolV2`, for the versions that the schema lets through: their major is all digits. -/
def isProtocolV2 (version : JsString) : Bool := 2 ≤ digitsValue (majorOf version)

end HuginAgent
