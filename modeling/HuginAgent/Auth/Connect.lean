/-
Pairing, `src/auth/connect.ts`.

`connect` is one asynchronous function.  It runs until it waits for something from outside, a
reply of the server, a timer, the store, and what comes back takes it on.  It is a machine here:
what it waits for is its phase, with the local variables that it still needs, and its inputs are
what comes back.  The calls it makes and what comes back are written down in the order in which
they happen.

Nothing is assumed of the server, of the clock and of the stores: every request may fail or be
answered with any status and any body, the clock may show anything at any time, and the stores
may fail.
-/
import HuginAgent.Auth.Token
import HuginAgent.Kit.Machine

namespace HuginAgent

/-- `randomBytes(32)`. -/
abbrev Seed := Vector UInt8 32

/-- `seed.fill(0)`. -/
def Seed.zero : Seed := Vector.replicate 32 0

/-- What `connect` has from outside: the doubles, the tables of IDNA, SHA-256, and of Ed25519 the
raw public key of a seed and the signature of a transcript. -/
structure ConnectHost where
  number : Decimal → JsNumber
  idna : Idna
  sha256 : List UInt8 → List UInt8
  publicRaw : Seed → List UInt8
  sign : Seed → List UInt8 → List UInt8
  configFilePath : JsString

structure ConnectOptions where
  token : JsString
  configPath : Option JsString
  pollIntervalMs : Option JsNumber
  pollDeadlineMs : Option JsNumber

namespace ConnectOptions

def interval (opts : ConnectOptions) : JsNumber := opts.pollIntervalMs.getD (.ofInt 2000)

def patience (opts : ConnectOptions) : JsNumber := opts.pollDeadlineMs.getD (.ofInt 600000)

def path (host : ConnectHost) (opts : ConnectOptions) : JsString :=
  opts.configPath.getD host.configFilePath

end ConnectOptions

/-! ### Replies -/

/-- What a `fetch` comes to; the body is `none` where `res.json()` rejects. -/
inductive Reply
  | failed
  | response (status : Nat) (body : Option JsValue)

def completeResponse : Schema :=
  .strictObject
    [(js "status", .literal "pending"),
      (js "fingerprint", .string (isBase64Url 43)),
      (js "poll_token", .string fun s => 1 ≤ s.length && s.length ≤ 1024)]

structure CompleteResponse where
  fingerprint : JsString
  pollToken : JsString
deriving DecidableEq

def parseCompleteResponse (value : JsValue) : Option CompleteResponse :=
  if completeResponse value then
    some ⟨stringAt value "fingerprint", stringAt value "poll_token"⟩
  else none

/-- The ids that the server gave the device. -/
structure PairedIds where
  agentId : JsString
  keyId : JsString
  tenantId : JsString
deriving DecidableEq

inductive StatusResponse
  | pending
  | rejected
  | active (ids : PairedIds)
deriving DecidableEq

def pendingResponse : Schema := .strictObject [(js "status", .literal "pending")]

def rejectedResponse : Schema := .strictObject [(js "status", .literal "rejected")]

def activeResponse : Schema :=
  .strictObject
    [(js "status", .literal "active"),
      (js "agent_id", .string isAuthId),
      (js "key_id", .string isAuthId),
      (js "tenant_id", .string isAuthId)]

def parseStatusResponse (value : JsValue) : Option StatusResponse :=
  if pendingResponse value then some .pending
  else if rejectedResponse value then some .rejected
  else if activeResponse value then
    some (.active ⟨stringAt value "agent_id", stringAt value "key_id", stringAt value "tenant_id"⟩)
  else none

/-! ### Keys and requests -/

/-- `keyFingerprint`, which throws on a key that has not 32 bytes. -/
def keyFingerprint (host : ConnectHost) (publicRaw : List UInt8) : Option JsString :=
  if publicRaw.length = 32 then some (toBase64Url (host.sha256 publicRaw)) else none

structure PairingEndpoints where
  complete : JsString
  status : JsString
deriving DecidableEq

/-- `url.host`. -/
def urlHost (url : Url) : JsString :=
  if url.port = [] then url.hostname else url.hostname ++ unit ':' :: url.port

/-- It throws where `new URL` does. -/
def pairingEndpoints (idna : Idna) (canonicalOrigin : JsString) : Option PairingEndpoints :=
  match newUrl idna canonicalOrigin with
  | .url url =>
      let scheme := if url.protocol = js "wss:" then js "https" else js "http"
      let base := scheme ++ js "://" ++ urlHost url ++ js "/api/v1/hugin-agents/pair"
      some ⟨base ++ js "/complete", base ++ js "/status"⟩
  | _ => none

/-- `PROTOCOL_VERSION`. -/
def pairingProtocolVersion : JsString := js "1.0.0"

/-- The variables of `connect` that are set before the first request. -/
structure PairingVars where
  token : ParsedPairingToken
  canonicalOrigin : JsString
  endpoints : PairingEndpoints
  publicRaw : List UInt8
  localFingerprint : JsString
  pollIntervalMs : JsNumber
  pollDeadlineMs : JsNumber
  configPath : JsString

/-- The body of a completion request, signed with what the seed buffer holds. -/
def completionBody (host : ConnectHost) (vars : PairingVars) (seed : Seed) : Option JsObject :=
  (buildPairingTranscript
    ⟨vars.token.secret, vars.publicRaw, vars.canonicalOrigin, pairingProtocolVersion⟩).map
    fun transcript =>
      [(js "secret", .str vars.token.secret),
        (js "public_key", .str (toBase64Url vars.publicRaw)),
        (js "pop_signature", .str (toBase64Url (host.sign seed transcript)))]

/-! ### The machine -/

structure PairingResult where
  ids : PairedIds
  serverUrl : JsString
  configPath : JsString
deriving DecidableEq

/-- The variables of the polling loop. -/
structure PollVars where
  pollToken : JsString
  deadline : JsNumber
  recoveredFromMissingPollToken : Bool

/-- What `connect` waits for. -/
inductive ConnectPhase
  /-- The reply to a completion request.  On recovery from a missing poll token the loop goes
  on afterwards, with its deadline. -/
  | completing (resumed : Option JsNumber)
  /-- The return of `onFingerprint`, and the clock for the deadline. -/
  | notifying (pollToken : JsString)
  /-- The clock in the condition of the loop. -/
  | looping (vars : PollVars)
  /-- The reply to a status request. -/
  | polling (vars : PollVars)
  | sleeping (vars : PollVars)
  /-- The seed store. -/
  | storing (ids : PairedIds)
  /-- The file system. -/
  | writing (ids : PairedIds)
  | settled (outcome : Except ConnectError PairingResult)

/-- A call that `connect` makes, or what comes back. -/
inductive ConnectEvent
  | complete (url : JsString) (body : JsObject)
  | completed (reply : Reply)
  | onFingerprint (fingerprint : JsString)
  /-- `const deadline = now() + pollDeadlineMs`. -/
  | deadlineSet (now deadline : JsNumber)
  /-- `now()` in the condition of the loop. -/
  | looked (now : JsNumber)
  | status (url : JsString) (body : JsObject)
  | polled (reply : Reply)
  | sleep (ms : JsNumber)
  | seedStoreSet (keyId : JsString) (seed : Seed)
  | seedStored
  | writePairingConfig (path : JsString) (cfg : PairingConfig)

structure ConnectState where
  phase : ConnectPhase
  /-- `dk.seed`. -/
  seed : Seed
  log : List ConnectEvent

/-- What comes back from outside; the timer, the callback and the stores may throw. -/
inductive ConnectInput
  | reply (reply : Reply)
  | shown (ok : Bool) (now : JsNumber)
  | look (now : JsNumber)
  | slept (ok : Bool)
  | stored (ok : Bool)
  | written (ok : Bool)

namespace ConnectState

def note (s : ConnectState) (e : ConnectEvent) : ConnectState := { s with log := s.log ++ [e] }

/-- The promise settles; `finally` fills the seed. -/
def settle (s : ConnectState) (outcome : Except ConnectError PairingResult) : ConnectState :=
  { s with phase := .settled outcome, seed := .zero }

def fail (s : ConnectState) (text : String) : ConnectState := s.settle (.error (.message text))

variable (host : ConnectHost) (vars : PairingVars)

/-- The first half of `completePairing`. -/
def completePairing (s : ConnectState) (resumed : Option JsNumber) : ConnectState :=
  match completionBody host vars s.seed with
  | none => s.settle (.error .outside)
  | some body => { s.note (.complete vars.endpoints.complete body) with phase := .completing resumed }

/-- The second half: the poll token, or the error it throws. -/
def completed (vars : PairingVars) : Reply → Except ConnectError JsString
  | .failed => .error .outside
  | .response status body =>
      if status ≠ 202 then
        .error (.message "pairing completion failed; re-copy the token or re-pair this device")
      else
        match body.bind parseCompleteResponse with
        | none => .error
            (.message "pairing server returned an invalid completion response; re-pair this device")
        | some complete =>
            if complete.fingerprint ≠ vars.localFingerprint then
              .error (.message "pairing server fingerprint mismatch; re-copy the token")
            else .ok complete.pollToken

/-- The reply to a completion request. -/
def onCompleted (s : ConnectState) (resumed : Option JsNumber) (reply : Reply) : ConnectState :=
  let s := s.note (.completed reply)
  match completed vars reply, resumed with
  | .error e, _ => s.settle (.error e)
  | .ok pollToken, none =>
      { s.note (.onFingerprint vars.localFingerprint) with phase := .notifying pollToken }
  | .ok pollToken, some deadline => { s with phase := .looping ⟨pollToken, deadline, true⟩ }

/-- `onFingerprint` has returned, and the deadline is set. -/
def onShown (s : ConnectState) (pollToken : JsString) (ok : Bool) (now : JsNumber) : ConnectState :=
  if ok then
    let deadline := now.add host.number vars.pollDeadlineMs
    { s.note (.deadlineSet now deadline) with phase := .looping ⟨pollToken, deadline, false⟩ }
  else s.settle (.error .outside)

/-- The condition of the loop, and the request if it holds. -/
def onLook (s : ConnectState) (poll : PollVars) (now : JsNumber) : ConnectState :=
  let s := s.note (.looked now)
  if now.lt poll.deadline then
    { s.note (.status vars.endpoints.status [(js "poll_token", .str poll.pollToken)]) with
      phase := .polling poll }
  else s.fail "pairing timed out; re-pair this device"

/-- The reply to a status request. -/
def onPolled (s : ConnectState) (poll : PollVars) (reply : Reply) : ConnectState :=
  let s := s.note (.polled reply)
  match reply with
  | .failed => s.settle (.error .outside)
  | .response status body =>
      if status = 404 then
        if poll.recoveredFromMissingPollToken then
          s.fail "pairing status expired; re-pair this device"
        else s.completePairing host vars (some poll.deadline)
      else if status ≠ 200 then s.fail "pairing status request failed; re-pair this device"
      else
        match body.bind parseStatusResponse with
        | none => s.fail "pairing server returned an invalid status response; re-pair this device"
        | some .pending => { s.note (.sleep vars.pollIntervalMs) with phase := .sleeping poll }
        | some .rejected => s.fail "pairing was rejected; re-pair this device"
        | some (.active ids) =>
            { s.note (.seedStoreSet ids.keyId s.seed) with phase := .storing ids }

def onSlept (s : ConnectState) (poll : PollVars) (ok : Bool) : ConnectState :=
  if ok then { s with phase := .looping poll } else s.settle (.error .outside)

/-- The seed store is done; the config is written at once. -/
def onStored (s : ConnectState) (ids : PairedIds) (ok : Bool) : ConnectState :=
  if ok then
    { (s.note .seedStored).note (.writePairingConfig vars.configPath
        ⟨vars.canonicalOrigin, ids.agentId, ids.keyId, ids.tenantId⟩) with phase := .writing ids }
  else s.settle (.error .outside)

def onWritten (s : ConnectState) (ids : PairedIds) (ok : Bool) : ConnectState :=
  let cfg : PairingConfig := ⟨vars.canonicalOrigin, ids.agentId, ids.keyId, ids.tenantId⟩
  if ok ∧ (writePairingConfig cfg).isSome then
    s.settle (.ok ⟨ids, vars.canonicalOrigin, vars.configPath⟩)
  else s.settle (.error .outside)

/-- What comes back takes `connect` on, if it is what it waits for. -/
def step (s : ConnectState) (input : ConnectInput) : ConnectState :=
  match s.phase, input with
  | .completing resumed, .reply reply => s.onCompleted vars resumed reply
  | .notifying pollToken, .shown ok now => s.onShown host vars pollToken ok now
  | .looping poll, .look now => s.onLook vars poll now
  | .polling poll, .reply reply => s.onPolled host vars poll reply
  | .sleeping poll, .slept ok => s.onSlept poll ok
  | .storing ids, .stored ok => s.onStored vars ids ok
  | .writing ids, .written ok => s.onWritten vars ids ok
  | _, _ => s

end ConnectState

/-! ### The start -/

/-- `Number.isFinite(ms) && ms > 0`. -/
def isPositiveMs (ms : JsNumber) : Bool := ms.isFinite && JsNumber.lt (.ofInt 0) ms

def validatePollingOptions (pollIntervalMs pollDeadlineMs : JsNumber) : Except ConnectError Unit :=
  if isPositiveMs pollIntervalMs = false then .error (.message "invalid pairing poll interval")
  else if isPositiveMs pollDeadlineMs = false then .error (.message "invalid pairing poll deadline")
  else .ok ()

/-- What `connect` does before it makes a key.  `now` is what the clock shows. -/
def connectVars (host : ConnectHost) (opts : ConnectOptions) (now : JsNumber) :
    Except ConnectError (ParsedPairingToken × JsString × PairingEndpoints) := do
  validatePollingOptions opts.interval opts.patience
  let token ← parsePairingToken host.number opts.token now
  match canonicalizeServerOrigin host.idna token.origin with
  | none => .error (.message "pairing token origin is invalid; re-copy the token")
  | some canonicalOrigin =>
      match pairingEndpoints host.idna canonicalOrigin with
      | none => .error .outside
      | some endpoints => .ok (token, canonicalOrigin, endpoints)

/-- A run of `connect` that has made its key. -/
structure Pairing where
  vars : PairingVars
  state : ConnectState

/-- `connect`, up to where it first waits.  `seed` is what `randomBytes` gives. -/
def connect (host : ConnectHost) (opts : ConnectOptions) (now : JsNumber) (seed : Seed) :
    Except ConnectError Pairing := do
  let (token, canonicalOrigin, endpoints) ← connectVars host opts now
  let publicRaw := host.publicRaw seed
  let fingerprint := keyFingerprint host publicRaw
  let vars : PairingVars :=
    { token, canonicalOrigin, endpoints, publicRaw
      localFingerprint := fingerprint.getD []
      pollIntervalMs := opts.interval
      pollDeadlineMs := opts.patience
      configPath := opts.path host }
  let fresh : ConnectState := { phase := .completing none, seed, log := [] }
  if fingerprint.isNone then return { vars, state := fresh.settle (.error .outside) }
  return { vars, state := fresh.completePairing host vars none }

namespace Pairing

/-- `connect` after what has come back from outside. -/
def after (host : ConnectHost) (p : Pairing) (inputs : List ConnectInput) : ConnectState :=
  Machine.run (ConnectState.step host p.vars) p.state inputs

end Pairing

end HuginAgent
