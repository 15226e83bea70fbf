/-
The pairing ceremony: devices and their server.

Any number of devices pair with one server at the same time.  What a device asks is under way
until the server has it, the answer is under way until the device has it, and either may be lost.
Between any two of these steps anything else may happen at the server: other requests, with any
body, and whatever the users do.

`Agrees` says of one device what the server knows of it.  A poll token that it holds is one of the
row that its key has won, an answer under way says what is true of that row, and the ids it has
taken are those of the row.
-/
import HuginAgent.Auth.Confirmed
import HuginAgent.Js.Texts
import HuginAgent.Pairing.Authentic

namespace HuginAgent

open PairingServer

/-! ### The system -/

/-- Where the request of a device is. -/
inductive Wire
  | idle
  | asked (req : HttpRequest)
  | answered (reply : Reply)

/-- A device that pairs. -/
structure Party where
  vars : PairingVars
  client : ConnectState
  wire : Wire

structure Ceremony (ι : Type) where
  server : PairingServer
  parties : ι → Party

inductive CeremonyEvent (ι : Type)
  /-- Anything else that happens at the server. -/
  | elsewhere (e : PairingServer.Event)
  /-- The server has the request and answers it. -/
  | deliver (i : ι) (clock : Nat → Int) (random : Seed)
  | arrive (i : ι)
  /-- The request or its answer is lost. -/
  | lost (i : ι)
  /-- What comes back to the device from the clock and the stores. -/
  | input (i : ι) (input : ConnectInput)

/-- `JSON.stringify(body)`, posted. -/
def postJson (path : JsString) (body : JsObject) : HttpRequest :=
  let bytes := utf8Encode (stringifyObject body)
  ⟨js "POST", path, some bytes.length, [bytes]⟩

/-- What the device makes of an answer: its status, and `res.json()`. -/
def ServerResponse.reply (number : Decimal → JsNumber) (response : ServerResponse) : Reply :=
  .response response.status (((stringify response.body).bind parse).map (JsValue.loaded number))

/-- The request that `connect` waits for. -/
def ConnectState.asks (s : ConnectState) : Wire :=
  match s.phase, s.log.getLast? with
  | .completing _, some (.complete _ body) => .asked (postJson completeSuffix body)
  | .polling _, some (.status _ body) => .asked (postJson statusSuffix body)
  | _, _ => .idle

namespace Party

variable (host : PairingHost)

def step (party : Party) (input : ConnectInput) : Party :=
  let client := party.client.step host.toConnectHost party.vars input
  { party with client, wire := client.asks }

def start (p : Pairing) : Party := ⟨p.vars, p.state, p.state.asks⟩

/-- What comes back while nothing is under way; a reply does not come so. -/
def onInput (party : Party) (input : ConnectInput) : Party :=
  match party.wire, input with
  | .idle, .reply _ => party
  | .idle, input => party.step host input
  | _, _ => party

def onArrive (party : Party) : Party :=
  match party.wire with
  | .answered reply => party.step host (.reply reply)
  | _ => party

def onLost (party : Party) : Party :=
  match party.wire with
  | .idle => party
  | _ => party.step host (.reply .failed)

/-- What the server has of the device, if a request is under way. -/
def request? (party : Party) (clock : Nat → Int) (random : Seed) : Option PairingServer.Event :=
  match party.wire with
  | .asked req => some (.request req clock random)
  | _ => none

/-- The answer to the request that is under way. -/
def onDeliver (opts : MockPairingOpts) (server : PairingServer) (party : Party)
    (clock : Nat → Int) (random : Seed) : Party :=
  match party.wire with
  | .asked req =>
      { party with
        wire := .answered ((server.handle host opts req clock random).2.reply host.number) }
  | _ => party

end Party

namespace Ceremony

variable {ι : Type} [DecidableEq ι] (host : PairingHost) (opts : MockPairingOpts)

/-- What happens at the server. -/
def atServer? (c : Ceremony ι) : CeremonyEvent ι → Option PairingServer.Event
  | .elsewhere e => some e
  | .deliver i clock random => (c.parties i).request? clock random
  | _ => none

/-- What becomes of a device. -/
def onParty (c : Ceremony ι) : CeremonyEvent ι → ι → Party
  | .elsewhere _, j => c.parties j
  | .deliver i clock random, j =>
      if j = i then (c.parties j).onDeliver host opts c.server clock random else c.parties j
  | .arrive i, j => if j = i then (c.parties j).onArrive host else c.parties j
  | .lost i, j => if j = i then (c.parties j).onLost host else c.parties j
  | .input i input, j => if j = i then (c.parties j).onInput host input else c.parties j

def step (c : Ceremony ι) (e : CeremonyEvent ι) : Ceremony ι where
  server := (c.atServer? e).elim c.server (PairingServer.step host opts c.server)
  parties := c.onParty host opts e

end Ceremony

/-- The random bytes that an event brings for a poll token. -/
def CeremonyEvent.draw? {ι : Type} : CeremonyEvent ι → Option Seed
  | .elsewhere e => e.draw?
  | .deliver _ _ random => some random
  | _ => none

/-! ### What a device has -/

namespace ConnectPhase

/-- The poll token that is held. -/
def pollToken? : ConnectPhase → Option JsString
  | .notifying pollToken => some pollToken
  | .looping poll | .polling poll | .sleeping poll => some poll.pollToken
  | _ => none

/-- The ids that were taken from an answer. -/
def ids? : ConnectPhase → Option PairedIds
  | .storing ids | .writing ids => some ids
  | .settled (.ok result) => some result.ids
  | _ => none

/-- Does it wait for the server? -/
def waits : ConnectPhase → Bool
  | .completing _ | .polling _ => true
  | _ => false

end ConnectPhase

/-- The row of the secret is active with these ids, and the key has won it. -/
def IsPaired (host : PairingHost) (s : PairingServer) (vars : PairingVars) (ids : PairedIds) :
    Prop :=
  ∃ row, s.rows.find? row.id = some row ∧ row.winningPublicKey = some vars.publicRaw ∧
    row.secretHash = sha256Hex host.toConnectHost vars.token.secret ∧ row.isConfirmed = true ∧
    row.ids = ids

section

variable (host : PairingHost) (s : PairingServer) (vars : PairingVars) (future : List JsString)

/-- The token is one of the row that the key has won; no other token gets its hash. -/
structure HoldsToken (pollToken : JsString) : Prop where
  accepted : Accepted host s vars.token.secret vars.publicRaw pollToken
  unique : sha256Hex host.toConnectHost pollToken ∉ future

/-- The request is the one that the device waits for. -/
inductive Asks (client : ConnectState) : HttpRequest → Prop
  | complete (resumed : Option JsNumber) (body : JsObject) (hphase : client.phase = .completing resumed)
      (hbody : completionBody host.toConnectHost vars client.seed = some body) :
      Asks client (postJson completeSuffix body)
  | status (poll : PollVars) (hphase : client.phase = .polling poll) :
      Asks client (postJson statusSuffix [(js "poll_token", .str poll.pollToken)])

/-- What is under way says what is true. -/
def WireOk (client : ConnectState) : Wire → Prop
  | .idle => client.phase.waits = false
  | .asked req => Asks host vars client req
  | .answered reply =>
      (∀ resumed pollToken, client.phase = .completing resumed →
        ConnectState.completed vars reply = .ok pollToken → HoldsToken host s vars future pollToken) ∧
      ∀ poll body ids, client.phase = .polling poll → reply = .response 200 (some body) →
        parseStatusResponse body = some (.active ids) → IsPaired host s vars ids

/-- The server agrees with what the device has. -/
structure Agrees (client : ConnectState) (wire : Wire) : Prop where
  token : ∀ pollToken, client.phase.pollToken? = some pollToken →
    HoldsToken host s vars future pollToken
  ids : ∀ ids, client.phase.ids? = some ids → IsPaired host s vars ids
  wire : WireOk host s vars future client wire

end

variable {host : PairingHost} {opts : MockPairingOpts} {s s' : PairingServer}
  {vars : PairingVars} {future : List JsString} {client : ConnectState} {wire : Wire}
  {e : PairingServer.Event}

/-! ### The server goes on -/

theorem Accepted.moves {secret pollToken : JsString} {key : List UInt8}
    (h : Accepted host s secret key pollToken) (hconsistent : Consistent host opts s)
    (hmoves : Moves host opts e s s')
    (hdraw : ∀ random, e.draw? = some random →
      tokenHash host random ≠ sha256Hex host.toConnectHost pollToken) :
    Accepted host s' secret key pollToken := by
  obtain ⟨row, hrow, hwinner, hsecret, htoken⟩ := h
  obtain ⟨row', hrow', hevolves⟩ := Moves.keeps hmoves hconsistent _ row hrow
  refine ⟨row', ?_, hevolves.winner key hwinner, hevolves.secretHash_eq.trans hsecret, ?_⟩
  · rw [hevolves.id_eq]
    exact hrow'
  · rw [hevolves.id_eq]
    exact htoken.moves hmoves hdraw

theorem IsPaired.keeps {ids : PairedIds} (h : IsPaired host s vars ids) (hkeeps : Keeps s s') :
    IsPaired host s' vars ids := by
  obtain ⟨row, hrow, hwinner, hsecret, hconfirmed, hids⟩ := h
  obtain ⟨row', hrow', hevolves⟩ := hkeeps _ row hrow
  have hactive : row.state = .active := by
    simp only [PairingRow.isConfirmed, Bool.and_eq_true, decide_eq_true_eq] at hconfirmed
    exact hconfirmed.1.1
  obtain ⟨hids', hconfirmed'⟩ := hevolves.ids hactive
  refine ⟨row', ?_, hevolves.winner _ hwinner, hevolves.secretHash_eq.trans hsecret,
    hconfirmed'.trans hconfirmed, hids'.trans hids⟩
  rw [hevolves.id_eq]
  exact hrow'

theorem HoldsToken.moves {pollToken : JsString} {draws : List JsString}
    (h : HoldsToken host s vars (draws ++ future) pollToken) (hconsistent : Consistent host opts s)
    (hmoves : Moves host opts e s s')
    (hdraw : ∀ random, e.draw? = some random → tokenHash host random ∈ draws) :
    HoldsToken host s' vars future pollToken := by
  obtain ⟨haccepted, hunique⟩ := h
  rw [List.mem_append, not_or] at hunique
  refine ⟨Accepted.moves haccepted hconsistent hmoves ?_, hunique.2⟩
  intro random hrandom hc
  exact hunique.1 (hc ▸ hdraw random hrandom)

/-- Whatever happens at the server, it agrees with a device as before. -/
theorem Agrees.moves {draws : List JsString}
    (h : Agrees host s vars (draws ++ future) client wire) (hconsistent : Consistent host opts s)
    (hmoves : Moves host opts e s s')
    (hdraw : ∀ random, e.draw? = some random → tokenHash host random ∈ draws) :
    Agrees host s' vars future client wire := by
  have hkeeps := Moves.keeps hmoves hconsistent
  refine ⟨fun pollToken hheld => (h.token pollToken hheld).moves hconsistent hmoves hdraw,
    fun ids hids => (h.ids ids hids).keeps hkeeps, ?_⟩
  have hwire := h.wire
  cases wire with
  | idle => exact hwire
  | asked req => exact hwire
  | answered reply =>
      exact ⟨fun resumed pollToken hphase hok =>
          (hwire.1 resumed pollToken hphase hok).moves hconsistent hmoves hdraw,
        fun poll body ids hphase hreply hparse =>
          (hwire.2 poll body ids hphase hreply hparse).keeps hkeeps⟩

/-! ### What is read from the wire -/

/-- What has been read says how much has come, and holds it if it is not too much. -/
structure HasRead (maxBytes : Nat) (read : BodyRead) (bytes : List UInt8) : Prop where
  total : read.total = bytes.length
  tooLarge : read.tooLarge = decide (maxBytes < bytes.length)
  chunks : read.tooLarge = false → read.chunks.flatten = bytes

theorem HasRead.onData {maxBytes : Nat} {read : BodyRead} {bytes : List UInt8}
    (h : HasRead maxBytes read bytes) (chunk : List UInt8) :
    HasRead maxBytes (read.onData maxBytes chunk) (bytes ++ chunk) := by
  have htotal : read.total + chunk.length = (bytes ++ chunk).length := by
    rw [h.total, List.length_append]
  unfold BodyRead.onData
  simp only
  split
  · rename_i hlarge
    rw [htotal] at hlarge
    exact ⟨htotal, (decide_eq_true hlarge).symm, fun hc => absurd (show true = false from hc) (by decide)⟩
  · rename_i hsmall
    rw [htotal] at hsmall
    have hread : read.tooLarge = false := by
      rw [h.tooLarge, decide_eq_false_iff_not]
      rw [List.length_append] at hsmall
      omega
    rw [if_neg (by rw [hread]; exact Bool.false_ne_true)]
    refine ⟨htotal, hread.trans (decide_eq_false hsmall).symm, fun _ => ?_⟩
    rw [List.flatten_append, h.chunks hread, List.flatten_singleton]

/-- **How a body is cut into chunks makes no difference.** -/
theorem readBody_eq (maxBytes : Nat) (contentLength : Option Nat) (chunks : List (List UInt8)) :
    readBody maxBytes contentLength chunks =
      if contentLength.any (maxBytes < ·) ∨ maxBytes < chunks.flatten.length then none
      else some (utf8Decode chunks.flatten) := by
  have hread : ∀ (chunks : List (List UInt8)) (read : BodyRead) (bytes : List UInt8),
      HasRead maxBytes read bytes →
        HasRead maxBytes (chunks.foldl (BodyRead.onData maxBytes) read) (bytes ++ chunks.flatten) := by
    intro chunks
    induction chunks with
    | nil =>
        intro read bytes h
        rw [List.flatten_nil, List.append_nil]
        exact h
    | cons chunk rest ih =>
        intro read bytes h
        rw [List.flatten_cons, ← List.append_assoc]
        exact ih _ _ (h.onData chunk)
  have hall := hread chunks ⟨0, false, []⟩ []
    ⟨rfl, (decide_eq_false (Nat.not_lt_zero _)).symm, fun _ => rfl⟩
  rw [List.nil_append] at hall
  unfold readBody
  by_cases hlength : contentLength.any (maxBytes < ·) = true
  · rw [if_pos hlength, if_pos (Or.inl hlength)]
  · rw [if_neg hlength]
    simp only
    by_cases hlarge : maxBytes < chunks.flatten.length
    · rw [if_pos (hall.tooLarge.trans (decide_eq_true hlarge)), if_pos (Or.inr hlarge)]
    · have hfits := hall.tooLarge.trans (decide_eq_false hlarge)
      rw [if_neg (by rw [hfits]; exact Bool.false_ne_true), if_neg (not_or.mpr ⟨hlength, hlarge⟩),
        hall.chunks hfits]

theorem readBody_postJson {maxBytes : Nat} {path raw : JsString} {body : JsObject}
    (h : readBody maxBytes (postJson path body).contentLength (postJson path body).chunks =
      some raw) : raw = stringifyObject body := by
  rw [readBody_eq] at h
  split at h
  · exact nomatch h
  · rw [← Option.some.inj h, postJson, List.flatten_singleton, utf8Decode_stringifyObject]

/-- A request for a body that is too large is not looked at. -/
theorem handle_complete (hsimple : opts.simplePairing = false) (s : PairingServer) (body : JsObject)
    (clock : Nat → Int) (random : Seed) :
    s.handle host opts (postJson completeSuffix body) clock random =
        (s, ⟨413, errorBody "body_too_large"⟩) ∨
      s.handle host opts (postJson completeSuffix body) clock random =
        s.handleComplete host opts (stringifyObject body) clock random := by
  unfold handle
  split
  · exact Or.inl rfl
  · rename_i raw hraw
    rw [readBody_postJson hraw,
      if_neg fun hc => absurd (show js "POST" = js "GET" from hc.1) (by decide),
      if_pos ⟨rfl, List.suffix_refl _⟩, hsimple]
    exact Or.inr rfl

theorem handle_status (s : PairingServer) (body : JsObject) (clock : Nat → Int) (random : Seed) :
    s.handle host opts (postJson statusSuffix body) clock random =
        (s, ⟨413, errorBody "body_too_large"⟩) ∨
      s.handle host opts (postJson statusSuffix body) clock random =
        s.handleStatus host opts (stringifyObject body) clock := by
  unfold handle
  split
  · exact Or.inl rfl
  · rename_i raw hraw
    rw [readBody_postJson hraw,
      if_neg fun hc => absurd (show js "POST" = js "GET" from hc.1) (by decide),
      if_neg fun hc => absurd (show completeSuffix <:+ statusSuffix from hc.2) (by decide),
      if_pos ⟨rfl, List.suffix_refl _⟩]
    exact Or.inr rfl

theorem parseJsonObject_ofTexts (number : Decimal → JsNumber) (ps : List (JsString × JsString))
    (h : JsObject.AreNames (ps.map Prod.fst)) :
    parseJsonObject number (stringifyObject (JsObject.ofTexts ps)) = some (JsObject.ofTexts ps) := by
  rw [parseJsonObject, if_neg (by rw [stringifyObject, jsonText]; exact List.cons_ne_nil _ _),
    JsObject.parse_ofTexts number ps h]

theorem reply_ofTexts (number : Decimal → JsNumber) (status : Nat)
    (ps : List (JsString × JsString)) (h : JsObject.AreNames (ps.map Prod.fst)) :
    ServerResponse.reply number ⟨status, .obj (JsObject.ofTexts ps)⟩ =
      .response status (some (.obj (JsObject.ofTexts ps))) := by
  have hstringify : stringify (.obj (JsObject.ofTexts ps)) =
      some (stringifyObject (JsObject.ofTexts ps)) := rfl
  rw [ServerResponse.reply, hstringify, Option.bind_some]
  exact congrArg (Reply.response status) (JsObject.parse_ofTexts number ps h)

/-- The strings of a completion request. -/
def completionTexts (secret publicKey popSignature : JsString) : List (JsString × JsString) :=
  [(js "secret", secret), (js "public_key", publicKey), (js "pop_signature", popSignature)]

theorem completionRequest?_ofTexts (secret publicKey popSignature : JsString) :
    completionRequest? (JsObject.ofTexts (completionTexts secret publicKey popSignature)) =
      if validateB64u32 secret ∧ validateB64u32 publicKey ∧ isEd25519Sig popSignature then
        some ⟨secret, publicKey, popSignature⟩
      else none := by
  have hsecret : JsObject.get (JsObject.ofTexts (completionTexts secret publicKey popSignature))
      (js "secret") = .str secret := rfl
  have hkey : JsObject.get (JsObject.ofTexts (completionTexts secret publicKey popSignature))
      (js "public_key") = .str publicKey := rfl
  have hsignature : JsObject.get (JsObject.ofTexts (completionTexts secret publicKey popSignature))
      (js "pop_signature") = .str popSignature := rfl
  rw [completionRequest?, hsecret, hkey, hsignature]

theorem parse_completion (number : Decimal → JsNumber) (secret publicKey popSignature : JsString) :
    (parseJsonObject number (stringifyObject
      (JsObject.ofTexts (completionTexts secret publicKey popSignature)))).bind completionRequest? =
      if validateB64u32 secret ∧ validateB64u32 publicKey ∧ isEd25519Sig popSignature then
        some ⟨secret, publicKey, popSignature⟩
      else none := by
  rw [parseJsonObject_ofTexts number _
    (by simp only [completionTexts, List.map_cons, List.map_nil]; decide), Option.bind_some,
    completionRequest?_ofTexts]

/-- What a completion request of the device asks for. -/
theorem request_of_completionBody {seed : Seed} {body : JsObject} {request : CompletionRequest}
    (hbody : completionBody host.toConnectHost vars seed = some body)
    (hrequest : (parseJsonObject host.number (stringifyObject body)).bind completionRequest? =
      some request) :
    request.secret = vars.token.secret ∧ request.publicRaw = vars.publicRaw := by
  obtain ⟨transcript, -, hbody⟩ := Option.map_eq_some_iff.mp hbody
  have htexts : body = JsObject.ofTexts (completionTexts vars.token.secret
      (toBase64Url vars.publicRaw) (toBase64Url (host.sign seed transcript))) := hbody.symm
  rw [htexts, parse_completion] at hrequest
  split at hrequest
  · obtain rfl := Option.some.inj hrequest
    exact ⟨rfl, fromBase64Url_toBase64Url vars.publicRaw⟩
  · exact nomatch hrequest

theorem pollTokenOf_status (number : Decimal → JsNumber) (pollToken : JsString) :
    pollTokenOf number (stringifyObject [(js "poll_token", .str pollToken)]) = some pollToken := by
  have hparsed := parseJsonObject_ofTexts number [(js "poll_token", pollToken)]
    (by simp only [List.map_cons, List.map_nil]; decide)
  have hget : JsObject.get (JsObject.ofTexts [(js "poll_token", pollToken)]) (js "poll_token") =
      .str pollToken := rfl
  have htexts : ([(js "poll_token", .str pollToken)] : JsObject) =
      JsObject.ofTexts [(js "poll_token", pollToken)] := rfl
  rw [pollTokenOf, htexts, hparsed, Option.bind_some, hget]

/-- The poll token of an answer that completes. -/
theorem token_of_completed {vars : PairingVars} {status : Nat} {body : Option JsValue}
    {pollToken : JsString} (h : ConnectState.completed vars (.response status body) = .ok pollToken) :
    status = 202 ∧ ∃ value, body = some value ∧ pollToken = stringAt value "poll_token" := by
  simp only [ConnectState.completed] at h
  split at h
  · cases h
  · rename_i hstatus
    split at h
    · cases h
    · rename_i complete hbody
      split at h
      · cases h
      · obtain ⟨value, rfl, hvalue⟩ := Option.bind_eq_some_iff.mp hbody
        refine ⟨Decidable.not_not.mp hstatus, value, rfl, ?_⟩
        unfold parseCompleteResponse at hvalue
        split at hvalue
        · rw [← Except.ok.inj h, ← Option.some.inj hvalue]
        · cases hvalue

/-- The strings of an answer that accepts a completion. -/
def completedTexts (fingerprint pollToken : JsString) : List (JsString × JsString) :=
  [(js "status", js "pending"), (js "fingerprint", fingerprint), (js "poll_token", pollToken)]

theorem reply_completed (number : Decimal → JsNumber) (fingerprint pollToken : JsString) :
    (completed opts fingerprint pollToken).reply number =
      .response 202 (some (.obj (JsObject.ofTexts
        (completedTexts (responseFingerprint opts fingerprint) pollToken)))) :=
  reply_ofTexts number 202 (completedTexts (responseFingerprint opts fingerprint) pollToken)
    (by simp only [completedTexts, List.map_cons, List.map_nil]; decide)

theorem reply_pendingStatus (number : Decimal → JsNumber) :
    pendingStatus.reply number = .response 200 (some (.obj [(js "status", .lit "pending")])) :=
  reply_ofTexts number 200 [(js "status", js "pending")] (by decide)

theorem reply_rejectedStatus (number : Decimal → JsNumber) :
    rejectedStatus.reply number = .response 200 (some (.obj [(js "status", .lit "rejected")])) :=
  reply_ofTexts number 200 [(js "status", js "rejected")] (by decide)

/-- The strings of an answer that activates. -/
def activeTexts (ids : PairedIds) : List (JsString × JsString) :=
  [(js "status", js "active"), (js "agent_id", ids.agentId), (js "key_id", ids.keyId),
    (js "tenant_id", ids.tenantId)]

theorem reply_activeStatus (number : Decimal → JsNumber) (ids : PairedIds) :
    (activeStatus ids).reply number =
      .response 200 (some (.obj (JsObject.ofTexts (activeTexts ids)))) :=
  reply_ofTexts number 200 (activeTexts ids)
    (by simp only [activeTexts, List.map_cons, List.map_nil]; decide)

/-- The ids of an answer that activates. -/
theorem ids_of_parseStatusResponse {value : JsValue} {ids : PairedIds}
    (h : parseStatusResponse value = some (.active ids)) :
    ids = ⟨stringAt value "agent_id", stringAt value "key_id", stringAt value "tenant_id"⟩ := by
  unfold parseStatusResponse at h
  split at h
  · exact nomatch Option.some.inj h
  · split at h
    · exact nomatch Option.some.inj h
    · split at h
      · exact (StatusResponse.active.inj (Option.some.inj h)).symm
      · exact nomatch h

/-- What a status answer can activate. -/
theorem ids_of_answer {answer : PairingServer × ServerResponse} {id : Nat} {number : Decimal → JsNumber}
    (h : AnswersStatus answer id) {body : JsValue} {ids : PairedIds}
    (hreply : answer.2.reply number = .response 200 (some body))
    (hparse : parseStatusResponse body = some (.active ids)) :
    ∃ row, row.id = id ∧ answer.1.rows.find? id = some row ∧ row.isConfirmed = true ∧
      row.ids = ids := by
  rcases h with hinvalid | hpending | ⟨row, hid, hrow, ⟨hrejected, -⟩ | ⟨hactive, hconfirmed⟩⟩
  · rw [hinvalid] at hreply
    exact absurd (Reply.response.inj hreply).1 (by decide)
  · have hpending' : parseStatusResponse (.obj [(js "status", .lit "pending")]) = some .pending := by
      decide
    rw [hpending, reply_pendingStatus] at hreply
    rw [← Option.some.inj (Reply.response.inj hreply).2, hpending'] at hparse
    exact nomatch Option.some.inj hparse
  · have hrejected' : parseStatusResponse (.obj [(js "status", .lit "rejected")]) = some .rejected := by
      decide
    rw [hrejected, reply_rejectedStatus] at hreply
    rw [← Option.some.inj (Reply.response.inj hreply).2, hrejected'] at hparse
    exact nomatch Option.some.inj hparse
  · rw [hactive, reply_activeStatus] at hreply
    rw [← Option.some.inj (Reply.response.inj hreply).2] at hparse
    refine ⟨row, hid, hrow, hconfirmed, ?_⟩
    rw [ids_of_parseStatusResponse hparse]
    rfl

/-! ### A request is answered -/

theorem wireOk_deliver (hconsistent : Consistent host opts s) (hsimple : opts.simplePairing = false)
    {random : Seed} {req : HttpRequest}
    (h : Agrees host s vars (tokenHash host random :: future) client (.asked req))
    (hunique : tokenHash host random ∉ future) (clock : Nat → Int) :
    WireOk host (s.handle host opts req clock random).1 vars future client
      (.answered ((s.handle host opts req clock random).2.reply host.number)) := by
  have hmoves : Moves host opts (.request req clock random) s (s.handle host opts req clock random).1 :=
    moves_handle hconsistent.toIndexed req clock random
  cases h.wire with
  | complete resumed body hphase hbody =>
      refine ⟨?_, fun poll body' ids hphase' => nomatch hphase.symm.trans hphase'⟩
      intro _ pollToken _ hok
      rcases handle_complete hsimple s body clock random with hlarge | hhandle
      · rw [hlarge] at hok
        exact absurd (token_of_completed hok).1 (show ¬ 413 = 202 by decide)
      · rw [hhandle] at hok ⊢
        cases hrequest : (parseJsonObject host.number (stringifyObject body)).bind
            completionRequest? with
        | none =>
            exact absurd (token_of_completed hok).1
              (refuses_handleComplete hrequest clock random)
        | some request =>
            obtain ⟨hsecret, hkey⟩ := request_of_completionBody hbody hrequest
            rcases answers_handleComplete hconsistent.toIndexed hrequest clock random with
              hrefused | ⟨fingerprint, hanswer, haccepted⟩
            · exact absurd (token_of_completed hok).1 hrefused
            · rw [hanswer, reply_completed] at hok
              obtain ⟨-, value, hvalue, htoken⟩ := token_of_completed hok
              rw [← Option.some.inj hvalue] at htoken
              rw [hsecret, hkey] at haccepted
              have heq : pollToken = randomB64u32 random := htoken
              rw [heq]
              exact ⟨haccepted, hunique⟩
  | status poll hphase =>
      refine ⟨fun resumed pollToken hphase' => (nomatch hphase.symm.trans hphase'), ?_⟩
      intro poll' body ids hphase' hreply hparse
      have hheld := h.token poll.pollToken (by rw [hphase]; rfl)
      obtain ⟨row, hrow, hwinner, hsecret, htoken⟩ := hheld.accepted
      have hkeeps := Moves.keeps hmoves hconsistent
      rcases handle_status s [(js "poll_token", .str poll.pollToken)] clock random with
        hlarge | hhandle
      · rw [hlarge] at hreply
        exact absurd (Reply.response.inj hreply).1 (show ¬ 413 = 200 by decide)
      · have hanswer : AnswersStatus (s.handleStatus host opts _ clock) row.id :=
          answers_handleStatus (pollTokenOf_status host.number poll.pollToken) htoken clock
        rw [← hhandle] at hanswer
        obtain ⟨found, hid, hfound, hconfirmed, hids⟩ := ids_of_answer hanswer hreply hparse
        obtain ⟨row', hrow', hevolves⟩ := hkeeps _ row hrow
        obtain rfl : found = row' := Option.some.inj (hfound.symm.trans hrow')
        refine ⟨found, ?_, hevolves.winner _ hwinner, hevolves.secretHash_eq.trans hsecret,
          hconfirmed, hids⟩
        rw [hid]
        exact hfound

end HuginAgent
