/-
The pairing server that the daemon is tested against, `mock-relay/pairing-server.ts`.

A row of the server is one pairing: it is minted with a secret, a device completes it by signing
with its key, and the user confirms or rejects it in the browser.  Rows are objects that two maps
refer to, by the hash of the secret and by the hashes of the poll tokens; here they are in a table
of their own and the maps hold their ids.

The server is single-threaded: a request is handled in one go once its body is there.  What a
handler takes from outside are the readings of its clock, in their order, and the random bytes of
a token.  The clock may show anything at any time.
-/
import HuginAgent.Auth.Connect
import HuginAgent.History.Page
import HuginAgent.Kit.Table
import HuginAgent.Protocol.Ed25519

namespace HuginAgent

/-- What both parties have from outside: the one of `connect`, and the check of a signature. -/
structure PairingHost extends ConnectHost where
  verify : Verifier

/-- `createHash("sha256").update(s, "utf8").digest("hex")`. -/
def sha256Hex (host : ConnectHost) (s : JsString) : JsString := hexText (host.sha256 (utf8Encode s))

/-- `randomB64u32`.  What it checks of the text always holds. -/
def randomB64u32 (random : Seed) : JsString := toBase64Url random.toList

/-- `REJECTED_TEST_PUBLIC_HEX`. -/
def rejectedTestPublicHex : JsString :=
  js "79b5562e8fe654f94078b112e8a98ba7901f853ae695bed7e0e3910bad049664"

/-- Is the property there and not the empty string? -/
def isPresent : Option JsString → Bool
  | some (_ :: _) => true
  | _ => false

inductive PairingState
  | issued
  | pending
  | active
  | rejected
  | expired
  | burned
deriving DecidableEq

structure MockPairingOpts where
  tenantId : Option JsString
  userId : Option JsString
  createdByUserId : Option JsString
  agentId : Option JsString
  keyId : Option JsString
  tokenTtlMs : Option Int
  pendingTtlMs : Option Int
  activePollTokenTtlMs : Option Int
  attemptCap : Option Int
  deviceCap : Option Int
  pollTokenCap : Option Nat
  bodyLimitBytes : Option Nat
  confirmAfterStatusPolls : Option Int
  forceValidStatus404s : Option Int
  forceWrongFingerprint : Bool
  pendingPolls : Option Int
  simplePairing : Bool
  capabilityStatus : Option Nat
  capabilityBody : Option JsValue
  simpleCompleteStatus : Option Nat
  simpleCompleteBody : Option JsValue

structure MintOptions where
  tenantId : Option JsString
  createdByUserId : Option JsString
  userId : Option JsString
  tokenTtlMs : Option Int
  pendingTtlMs : Option Int
  secret : Option JsString

structure PollTokenRow where
  hash : JsString
  expiresAt : Int
  publicKeyB64u : JsString
deriving DecidableEq

structure PairingRow where
  id : Nat
  secretHash : JsString
  expectedOrigin : JsString
  tokenExp : Int
  pendingExp : Int
  tenantId : JsString
  createdByUserId : JsString
  state : PairingState
  attempts : Int
  attemptCap : Int
  winningPublicKey : Option (List UInt8)
  winningPublicKeyB64u : Option JsString
  fingerprint : Option JsString
  pollTokens : List PollTokenRow
  statusPolls : Int
  agentId : Option JsString
  keyId : Option JsString
deriving DecidableEq

/-- A map from hashes to the ids of rows. -/
abbrev RowIndex := Table (Prod.fst : JsString × Nat → JsString)

structure PairingServer where
  port : Nat
  rows : Table PairingRow.id
  rowsBySecretHash : RowIndex
  rowsByPollTokenHash : RowIndex
  activeDeviceCounts : Table (Prod.fst : JsString × Int → JsString)
  simpleDeviceCodes : List JsString
  registeredPublicKeys : List JsString
  forcedValidStatus404s : Int
  nextPairingId : Nat

structure ServerResponse where
  status : Nat
  body : JsValue

/-! ### One row -/

namespace PairingRow

/-- It returns whether the row is expired afterwards. -/
def expireRowIfNeeded (row : PairingRow) (now : Int) : PairingRow :=
  if row.state = .issued ∧ row.tokenExp ≤ now then { row with state := .expired }
  else if row.state = .pending ∧ row.pendingExp ≤ now then { row with state := .expired }
  else row

def incrementAttemptOrBurn (row : PairingRow) (now : Int) : PairingRow :=
  if row.state = .issued then
    let row := row.expireRowIfNeeded now
    if row.state = .expired then row
    else
      let attempts := row.attempts + 1
      { row with attempts, state := if row.attemptCap ≤ attempts then .burned else row.state }
  else row

def ids (row : PairingRow) : PairedIds :=
  ⟨row.agentId.getD [], row.keyId.getD [], row.tenantId⟩

/-- The pairing is active and has its ids. -/
def isConfirmed (row : PairingRow) : Bool :=
  row.state = .active && isPresent row.agentId && isPresent row.keyId

def deviceCounterKey (row : PairingRow) : JsString := row.tenantId ++ 0 :: row.createdByUserId

end PairingRow

/-- The oldest tokens go, until there are no more than `cap`. -/
def evictTokens (cap : Nat) : List PollTokenRow → RowIndex → List PollTokenRow × RowIndex
  | [], index => ([], index)
  | token :: rest, index =>
      if cap < (token :: rest).length then
        evictTokens cap rest (index.delete fun e => e.1 = token.hash)
      else (token :: rest, index)

namespace PairingServer

def fresh (port : Nat) : PairingServer where
  port := port
  rows := .empty
  rowsBySecretHash := .empty
  rowsByPollTokenHash := .empty
  activeDeviceCounts := .empty
  simpleDeviceCodes := []
  registeredPublicKeys := []
  forcedValidStatus404s := 0
  nextPairingId := 1

/-- The row is changed where it stands. -/
def setRow (s : PairingServer) (row : PairingRow) : PairingServer :=
  { s with rows := s.rows.put row }

/-- What a map refers to. -/
def rowOf (s : PairingServer) (index : RowIndex) (hash : JsString) : Option PairingRow :=
  (index.find? hash).bind fun e => s.rows.find? e.2

variable (host : PairingHost) (opts : MockPairingOpts)

/-! ### Poll tokens -/

/-- A poll token for the row, and the row and the server with it. -/
def mintPollToken (s : PairingServer) (row : PairingRow) (expiresAt : Int)
    (publicKeyB64u : JsString) (random : Seed) : PairingServer × PairingRow × JsString :=
  let pollToken := randomB64u32 random
  let hash := sha256Hex host.toConnectHost pollToken
  let kept := evictTokens (opts.pollTokenCap.getD 5)
    (row.pollTokens ++ [⟨hash, expiresAt, publicKeyB64u⟩]) (s.rowsByPollTokenHash.put (hash, row.id))
  ({ s with rowsByPollTokenHash := kept.2 }, { row with pollTokens := kept.1 }, pollToken)

def removePollToken (s : PairingServer) (row : PairingRow) (hash : JsString) : PairingServer :=
  { s with rowsByPollTokenHash := s.rowsByPollTokenHash.delete fun e => e.1 = hash }.setRow
    { row with pollTokens := row.pollTokens.filter fun t => t.hash ≠ hash }

/-! ### In the browser -/

/-- The row afterwards is in the server that is returned with it. -/
def confirmRow (s : PairingServer) (row : PairingRow) (now : Int) :
    PairingServer × PairingRow × Option PairedIds :=
  let row := row.expireRowIfNeeded now
  let s := s.setRow row
  if row.state = .expired then (s, row, none)
  else if row.isConfirmed then (s, row, some row.ids)
  else
    match row.winningPublicKey, row.fingerprint with
    | some _, some fingerprint =>
        if row.state ≠ .pending ∨ fingerprint = [] then (s, row, none)
        else
          let key := row.deviceCounterKey
          let activeCount := ((s.activeDeviceCounts.find? key).map Prod.snd).getD 0
          if opts.deviceCap.getD 10 ≤ activeCount then (s, row, none)
          else
            let agentId := opts.agentId.getD
              (js "agent-" ++ digitUnits row.id ++ js "-" ++ fingerprint.take 12)
            let keyId := opts.keyId.getD
              (js "key-" ++ digitUnits row.id ++ js "-" ++ (fingerprint.take 25).drop 13)
            let row := { row with agentId := some agentId, keyId := some keyId, state := .active }
            ({ s with activeDeviceCounts := s.activeDeviceCounts.put (key, activeCount + 1) }.setRow
              row, row, some row.ids)
    | _, _ => (s, row, none)

/-- The rows are looked at in the order in which their secrets were first minted. -/
def firstPendingRow (clock : Nat → Int) :
    Nat → List (JsString × Nat) → PairingServer → PairingServer × Option PairingRow
  | _, [], s => (s, none)
  | i, e :: rest, s =>
      match s.rows.find? e.2 with
      | none => firstPendingRow clock (i + 1) rest s
      | some found =>
          let row := found.expireRowIfNeeded (clock i)
          if row.state = .pending then (s.setRow row, some row)
          else firstPendingRow clock (i + 1) rest (s.setRow row)

/-- The confirmation of the user; `now` is what the clock shows after the search. -/
def confirm (s : PairingServer) (clock : Nat → Int) (now : Int) : PairingServer × Option PairedIds :=
  match firstPendingRow clock 0 s.rowsBySecretHash.rows s with
  | (s, none) => (s, none)
  | (s, some row) =>
      let confirmed := s.confirmRow opts row now
      (confirmed.1, confirmed.2.2)

/-- The user rejects. -/
def reject (s : PairingServer) (clock : Nat → Int) (now : Int) : PairingServer :=
  match firstPendingRow clock 0 s.rowsBySecretHash.rows s with
  | (s, none) => s
  | (s, some row) =>
      let row := row.expireRowIfNeeded now
      s.setRow (if row.state = .pending then { row with state := .rejected } else row)

/-! ### Minting -/

/-- The text of a pairing token. -/
def mintedToken (origin secret : JsString) (exp : Int) : JsString :=
  js "hpk1." ++ writeCursor
    [(js "v", .lit "1.0.0"), (js "origin", .str origin), (js "secret", .str secret),
      (js "exp", .num (.ofInt exp))]

/-- `ws://127.0.0.1:${this.port}`. -/
def origin (s : PairingServer) : JsString := js "ws://127.0.0.1:" ++ digitUnits s.port

/-- It throws before the server has started, where the default port is left out of an origin, and
on a secret that is not canonical. -/
def mint (s : PairingServer) (mintOpts : MintOptions) (now : Int) (random : Seed) :
    Option (PairingServer × JsString) :=
  let secret := mintOpts.secret.getD (randomB64u32 random)
  if s.port = 0 ∨ canonicalizeServerOrigin host.idna s.origin ≠ some s.origin then none
  else if validateB64u32 secret then
    let tokenTtlMs := (mintOpts.tokenTtlMs.or opts.tokenTtlMs).getD 300000
    let pendingTtlMs := (mintOpts.pendingTtlMs.or opts.pendingTtlMs).getD 600000
    let exp := (now + tokenTtlMs) / 1000
    let secretHash := sha256Hex host.toConnectHost secret
    let row : PairingRow :=
      { id := s.nextPairingId
        secretHash
        expectedOrigin := s.origin
        tokenExp := exp * 1000
        pendingExp := now + pendingTtlMs
        tenantId := (mintOpts.tenantId.or opts.tenantId).getD (js "acme")
        createdByUserId := (((mintOpts.createdByUserId.or mintOpts.userId).or
          opts.createdByUserId).or opts.userId).getD (js "user-42")
        state := .issued
        attempts := 0
        attemptCap := opts.attemptCap.getD 10
        winningPublicKey := none
        winningPublicKeyB64u := none
        fingerprint := none
        pollTokens := []
        statusPolls := 0
        agentId := none
        keyId := none }
    some
      ({ s with
          rows := s.rows.put row
          rowsBySecretHash := s.rowsBySecretHash.put (secretHash, row.id)
          nextPairingId := s.nextPairingId + 1 },
        mintedToken s.origin secret exp)
  else none

/-! ### Completion -/

def parseJsonObject (number : Decimal → JsNumber) (raw : JsString) : Option JsObject :=
  if raw = [] then some []
  else
    match (parse raw).map (JsValue.loaded number) with
    | some (.obj o) => some o
    | _ => none

def errorBody (error : String) : JsValue := .obj [(js "error", .lit error)]

/-- The answer to every completion that fails, whatever the reason. -/
def failComplete : ServerResponse := ⟨400, errorBody "pairing_failed"⟩

def responseFingerprint (fingerprint : JsString) : JsString :=
  if opts.forceWrongFingerprint then
    (if fingerprint.head? = some (unit 'A') then unit 'B' else unit 'A') :: fingerprint.drop 1
  else fingerprint

def completed (fingerprint pollToken : JsString) : ServerResponse :=
  ⟨202, .obj [(js "status", .lit "pending"),
    (js "fingerprint", .str (responseFingerprint opts fingerprint)),
    (js "poll_token", .str pollToken)]⟩

/-- The strings of a completion request. -/
structure CompletionRequest where
  secret : JsString
  publicKey : JsString
  popSignature : JsString
deriving DecidableEq

def completionRequest? (body : JsObject) : Option CompletionRequest :=
  match body.get (js "secret"), body.get (js "public_key"), body.get (js "pop_signature") with
  | .str secret, .str publicKey, .str popSignature =>
      if validateB64u32 secret ∧ validateB64u32 publicKey ∧ isEd25519Sig popSignature then
        some ⟨secret, publicKey, popSignature⟩
      else none
  | _, _, _ => none

namespace CompletionRequest

def publicRaw (request : CompletionRequest) : List UInt8 := fromBase64Url request.publicKey

/-- What a row expects to be signed. -/
def transcript (request : CompletionRequest) (row : PairingRow) : Option (List UInt8) :=
  buildPairingTranscript
    ⟨request.secret, request.publicRaw, row.expectedOrigin, pairingProtocolVersion⟩

/-- The request is signed with its key, and the key is not the published one. -/
def proves (request : CompletionRequest) (row : PairingRow) : Bool :=
  hexText request.publicRaw ≠ rejectedTestPublicHex &&
    (request.transcript row).any fun transcript =>
      verifyTranscript host.verify request.publicRaw transcript request.popSignature

end CompletionRequest

/-- The row is won. -/
def winRow (s : PairingServer) (row : PairingRow) (request : CompletionRequest) (random : Seed) :
    PairingServer × ServerResponse :=
  if row.attemptCap ≤ row.attempts then (s.setRow { row with state := .burned }, failComplete)
  else
    match keyFingerprint host.toConnectHost request.publicRaw with
    | none => (s, ⟨500, errorBody "internal"⟩)
    | some fingerprint =>
        let (s, row, pollToken) :=
          s.mintPollToken host opts row row.pendingExp request.publicKey random
        let row :=
          { row with
            state := .pending
            winningPublicKey := some request.publicRaw
            winningPublicKeyB64u := some request.publicKey
            fingerprint := some fingerprint }
        ({ s with registeredPublicKeys := s.registeredPublicKeys ++ [request.publicKey] }.setRow row,
          completed opts fingerprint pollToken)

/-- A row that is won is completed again, by the same key only.  `now` is read for an active row. -/
def completeAgain (s : PairingServer) (row : PairingRow) (request : CompletionRequest) (now : Int)
    (random : Seed) : PairingServer × ServerResponse :=
  match row.winningPublicKey, row.fingerprint with
  | some winner, some fingerprint =>
      if winner ≠ request.publicRaw ∨ fingerprint = [] then (s, failComplete)
      else
        let expiresAt :=
          if row.state = .active then now + opts.activePollTokenTtlMs.getD 30000 else row.pendingExp
        let (s, row, pollToken) := s.mintPollToken host opts row expiresAt request.publicKey random
        (s.setRow row, completed opts fingerprint pollToken)
  | _, _ => (s, failComplete)

/-- A completion request that names a row. -/
def completeRow (s : PairingServer) (row : PairingRow) (request : CompletionRequest)
    (clock : Nat → Int) (random : Seed) : PairingServer × ServerResponse :=
  let row := row.expireRowIfNeeded (clock 0)
  let s := s.setRow row
  if row.state = .expired ∨ row.state = .burned ∨ row.state = .rejected then (s, failComplete)
  else if request.proves host row then
    if row.state = .issued then s.winRow host opts row request random
    else s.completeAgain host opts row request (clock 1) random
  else (s.setRow (row.incrementAttemptOrBurn (clock 1)), failComplete)

def handleComplete (s : PairingServer) (raw : JsString) (clock : Nat → Int) (random : Seed) :
    PairingServer × ServerResponse :=
  match (parseJsonObject host.number raw).bind completionRequest? with
  | none => (s, failComplete)
  | some request =>
      match s.rowOf s.rowsBySecretHash (sha256Hex host.toConnectHost request.secret) with
      | none => (s, failComplete)
      | some row => s.completeRow host opts row request clock random

/-! ### Status -/

def invalidOrExpired : ServerResponse := ⟨404, errorBody "invalid_or_expired"⟩

def pendingStatus : ServerResponse := ⟨200, .obj [(js "status", .lit "pending")]⟩

def rejectedStatus : ServerResponse := ⟨200, .obj [(js "status", .lit "rejected")]⟩

def activeStatus (ids : PairedIds) : ServerResponse :=
  ⟨200, .obj [(js "status", .lit "active"), (js "agent_id", .str ids.agentId),
    (js "key_id", .str ids.keyId), (js "tenant_id", .str ids.tenantId)]⟩

/-- The number of status requests after which a pending row is confirmed. -/
def autoConfirmAfter : Option Int := opts.confirmAfterStatusPolls.or opts.pendingPolls

/-- The answer to a poll token of a row that is won. -/
def statusOf (s : PairingServer) (row : PairingRow) (now : Int) : PairingServer × ServerResponse :=
  match row.state, autoConfirmAfter opts with
  | .pending, some after =>
      let row := { row with statusPolls := row.statusPolls + 1 }
      let s := s.setRow row
      (if after ≤ row.statusPolls then (s.confirmRow opts row now).1 else s, pendingStatus)
  | .pending, none => (s, pendingStatus)
  | .rejected, _ => (s, rejectedStatus)
  | _, _ => (s, if row.isConfirmed then activeStatus row.ids else invalidOrExpired)

/-- A poll token that is valid.  One of the tests' hooks confirms the row first, another forgets
the token. -/
def statusRow (s : PairingServer) (row : PairingRow) (hash : JsString) (clock : Nat → Int) :
    PairingServer × ServerResponse :=
  let (s, row) :=
    if row.state = .pending ∧ (autoConfirmAfter opts).any (· ≤ 0) then
      let confirmed := s.confirmRow opts row (clock 1)
      (confirmed.1, confirmed.2.1)
    else (s, row)
  if s.forcedValidStatus404s < opts.forceValidStatus404s.getD 0 then
    ({ s with forcedValidStatus404s := s.forcedValidStatus404s + 1 }.removePollToken row hash,
      invalidOrExpired)
  else s.statusOf opts row (clock 2)

/-- `body?.poll_token`, if it is a string. -/
def pollTokenOf (number : Decimal → JsNumber) (raw : JsString) : Option JsString :=
  (parseJsonObject number raw).bind fun body =>
    match body.get (js "poll_token") with
    | .str pollToken => some pollToken
    | _ => none

def handleStatus (s : PairingServer) (raw : JsString) (clock : Nat → Int) :
    PairingServer × ServerResponse :=
  match pollTokenOf host.number raw with
  | none => (s, invalidOrExpired)
  | some pollToken =>
      let hash := sha256Hex host.toConnectHost pollToken
      match s.rowOf s.rowsByPollTokenHash hash with
      | none => (s, invalidOrExpired)
      | some row =>
          match row.pollTokens.find? fun t => t.hash = hash with
          | none => (s.removePollToken row hash, invalidOrExpired)
          | some token =>
              if token.expiresAt ≤ clock 0 then (s.removePollToken row hash, invalidOrExpired)
              else
                let row := row.expireRowIfNeeded (clock 0)
                let s := s.setRow row
                if row.state = .expired ∨ row.state = .burned ∨
                    isPresent row.winningPublicKeyB64u = false ∨
                    some token.publicKeyB64u ≠ row.winningPublicKeyB64u then
                  (s, invalidOrExpired)
                else s.statusRow opts row hash clock

/-! ### The simple variant -/

def handleCapability : ServerResponse :=
  let status := opts.capabilityStatus.getD (if opts.simplePairing then 200 else 404)
  ⟨status, opts.capabilityBody.getD
    (if status = 200 then .obj [(js "simple_pairing", .bool true)] else errorBody "not_found")⟩

/-- A device code and a key, if the body has nothing that is not allowed. -/
def simpleRequest? (body : JsObject) : Option (JsString × JsString) :=
  match body.get (js "device_code"), body.get (js "public_key") with
  | .str deviceCode, .str publicKey =>
      let hostnameOk : Bool :=
        match body.get (js "hostname") with
        | .str hostname => hostname.length ≤ 255
        | _ => !body.keys.contains (js "hostname")
      let allowed := [js "device_code", js "public_key", js "hostname"]
      if (∀ key ∈ body.keys, allowed.contains key) ∧ deviceCode ≠ [] ∧
          deviceCode.length ≤ 1024 ∧ validateB64u32 publicKey ∧ hostnameOk then
        some (deviceCode, publicKey)
      else none
  | _, _ => none

def handleSimpleComplete (s : PairingServer) (raw : JsString) : PairingServer × ServerResponse :=
  match opts.simpleCompleteStatus with
  | some status => (s, ⟨status, opts.simpleCompleteBody.getD (.obj [])⟩)
  | none =>
      match (parseJsonObject host.number raw).bind simpleRequest? with
      | none => (s, failComplete)
      | some (deviceCode, publicKey) =>
          if s.simpleDeviceCodes.contains deviceCode then
            ({ s with
                simpleDeviceCodes := s.simpleDeviceCodes.filter fun code => code ≠ deviceCode
                registeredPublicKeys := s.registeredPublicKeys ++ [publicKey] },
              ⟨200, .obj [(js "agent_id", .str (opts.agentId.getD (js "agent-123"))),
                (js "key_id", .str (opts.keyId.getD (js "key-123"))),
                (js "tenant_id", .str (opts.tenantId.getD (js "acme")))]⟩)
          else (s, failComplete)

/-! ### Requests -/

/-- What `readBody` has got of a body so far. -/
structure BodyRead where
  total : Nat
  tooLarge : Bool
  chunks : List (List UInt8)

def BodyRead.onData (maxBytes : Nat) (read : BodyRead) (chunk : List UInt8) : BodyRead :=
  let total := read.total + chunk.length
  if maxBytes < total then ⟨total, true, []⟩
  else if read.tooLarge then { read with total }
  else { read with total, chunks := read.chunks ++ [chunk] }

/-- It rejects a body that is larger than the limit. -/
def readBody (maxBytes : Nat) (contentLength : Option Nat) (chunks : List (List UInt8)) :
    Option JsString :=
  if contentLength.any (maxBytes < ·) then none
  else
    let read := chunks.foldl (BodyRead.onData maxBytes) ⟨0, false, []⟩
    if read.tooLarge then none else some (utf8Decode read.chunks.flatten)

/-- A request, with the path of its URL. -/
structure HttpRequest where
  method : JsString
  pathname : JsString
  contentLength : Option Nat
  chunks : List (List UInt8)

def capabilitySuffix : JsString := js "/api/v1/hugin-agents/capability"

def completeSuffix : JsString := js "/api/v1/hugin-agents/pair/complete"

def statusSuffix : JsString := js "/api/v1/hugin-agents/pair/status"

def handle (s : PairingServer) (req : HttpRequest) (clock : Nat → Int) (random : Seed) :
    PairingServer × ServerResponse :=
  match readBody (opts.bodyLimitBytes.getD 4096) req.contentLength req.chunks with
  | none => (s, ⟨413, errorBody "body_too_large"⟩)
  | some raw =>
      if req.method = js "GET" ∧ capabilitySuffix <:+ req.pathname then (s, handleCapability opts)
      else if req.method = js "POST" ∧ completeSuffix <:+ req.pathname then
        if opts.simplePairing then s.handleSimpleComplete host opts raw
        else s.handleComplete host opts raw clock random
      else if req.method = js "POST" ∧ statusSuffix <:+ req.pathname then
        s.handleStatus host opts raw clock
      else (s, ⟨404, errorBody "not_found"⟩)

/-! ### The machine -/

/-- What happens at the server: a request, the user at the browser, or a mint. -/
inductive Event
  | mint (mintOpts : MintOptions) (now : Int) (random : Seed)
  | mintSimpleDeviceCode (deviceCode : Option JsString) (random : Seed)
  | request (req : HttpRequest) (clock : Nat → Int) (random : Seed)
  | confirm (clock : Nat → Int) (now : Int)
  | reject (clock : Nat → Int) (now : Int)

/-- A `Set` has each of its members once. -/
def mintSimpleDeviceCode (s : PairingServer) (deviceCode : Option JsString) (random : Seed) :
    PairingServer :=
  let code := deviceCode.getD (randomB64u32 random)
  { s with simpleDeviceCodes := if s.simpleDeviceCodes.contains code then s.simpleDeviceCodes
      else s.simpleDeviceCodes ++ [code] }

/-- What throws leaves the server as it was. -/
def step (s : PairingServer) : Event → PairingServer
  | .mint mintOpts now random => ((s.mint host opts mintOpts now random).map Prod.fst).getD s
  | .mintSimpleDeviceCode deviceCode random => s.mintSimpleDeviceCode deviceCode random
  | .request req clock random => (s.handle host opts req clock random).1
  | .confirm clock now => (s.confirm opts clock now).1
  | .reject clock now => s.reject clock now

end PairingServer

end HuginAgent
