/-
A pairing comes to its end.

Where nothing is lost, the clocks are in time and the user confirms, a device that was given a
minted token is paired: its completion is accepted, it is told to wait for as long as the user
takes, and then it gets the ids of its row and stores them.  Other devices may be under way at the
same server meanwhile; they do nothing here.
-/
import HuginAgent.Js.Bytes
import HuginAgent.Pairing.Honest

namespace HuginAgent

open PairingServer

/-- What the libraries promise: keys, digests and signatures have their sizes, what is signed
verifies, and integers are kept. -/
structure PairingHost.IsLawful (host : PairingHost) : Prop where
  publicRaw : ∀ seed, (host.publicRaw seed).length = 32
  sha256 : ∀ bytes, (host.sha256 bytes).length = 32
  sign : ∀ seed transcript, (host.sign seed transcript).length = 64
  verify : ∀ seed transcript,
    host.verify (host.publicRaw seed) transcript (host.sign seed transcript) = true
  number : KeepsIntegers host.number

/-! ### A minted token is taken -/

theorem isAscii_of_isPlain {u : UInt16} (h : isPlain u = true) : isAscii u = true := by
  simp only [isPlain, Bool.and_eq_true] at h
  exact h.1.1.1

theorem isPlain_of_isDigit {u : UInt16} (h : isDigit u = true) : isPlain u = true := by
  have h34 : (unit '"').toNat = 34 := rfl
  have h92 : (unit '\\').toNat = 92 := rfl
  simp only [isDigit, Bool.and_eq_true, decide_eq_true_eq, UInt16.le_iff_toNat_le] at h
  obtain ⟨hlow, hhigh⟩ := h
  have h48 : (48 : UInt16).toNat = 48 := rfl
  have h57 : (57 : UInt16).toNat = 57 := rfl
  have h32 : (32 : UInt16) ≤ u := UInt16.le_iff_toNat_le.mpr (by
    have h32 : (32 : UInt16).toNat = 32 := rfl
    omega)
  have hquote : u ≠ unit '"' := by
    rintro rfl
    omega
  have hslash : u ≠ unit '\\' := by
    rintro rfl
    omega
  simp only [isPlain, isAscii_iff.mpr (show u.toNat < 128 by omega), h32, hquote, hslash,
    decide_true, ne_eq, not_false_eq_true, Bool.and_true]

/-- The bytes of a token with a short origin. -/
theorem byteLength_tokenText_le {origin secret : JsString} {exp : Nat}
    (horigin : ∀ u ∈ origin, isPlain u = true) (hshort : origin.length ≤ 64)
    (hsecret : validateB64u32 secret = true) (hexp : exp < 10 ^ 21) :
    byteLength (tokenText origin secret exp) ≤ maxPairingTokenBytes := by
  have hplain : ∀ u ∈ secret, isPlain u = true := by
    rw [← toBase64Url_fromBase64Url hsecret]
    exact isPlain_toBase64Url _
  have hlength : secret.length = 43 := by
    rw [← toBase64Url_fromBase64Url hsecret, toBase64Url_length, length_of_validateB64u32 hsecret]
  have hnumber : jsonBytes (.num (.ofInt exp)) ≤ 21 := jsonBytes_ofNat_le hexp
  have hbytes : (utf8Encode (stringifyObject (tokenObject origin secret exp))).length ≤ 200 := by
    have hentries : ∀ key value, entryBytes (key, .str value) =
        quotedBytes key + quotedBytes value + 2 := fun _ _ => rfl
    have hentry : entryBytes (js "exp", .num (.ofInt exp)) =
        quotedBytes (js "exp") + jsonBytes (.num (.ofInt exp)) + 2 := rfl
    have hkeys : quotedBytes (js "v") = 3 ∧ quotedBytes (js "1.0.0") = 7 ∧
        quotedBytes (js "origin") = 8 ∧ quotedBytes (js "secret") = 8 ∧ quotedBytes (js "exp") = 5 := by
      decide
    obtain ⟨hv, hversion, hkorigin, hksecret, hkexp⟩ := hkeys
    have htotal := byteLength_stringifyObject (js "v", .str (js "1.0.0"))
      [(js "origin", .str origin), (js "secret", .str secret), (js "exp", .num (.ofInt exp))] rfl
    rw [length_utf8Encode, tokenObject, htotal]
    simp only [List.map_cons, List.map_nil, List.sum_cons, List.sum_nil, hentries, hentry,
      quotedBytes_of_plain horigin, quotedBytes_of_plain hplain, hv, hversion, hkorigin, hksecret,
      hkexp]
    omega
  have hascii : ∀ u ∈ tokenText origin secret exp, isAscii u = true := by
    have hstart : ∀ u ∈ tokenStart, isAscii u = true := by decide
    rw [tokenText, List.forall_mem_append]
    refine ⟨hstart, fun u hu => ?_⟩
    exact isAscii_of_isPlain (isPlain_toBase64Url _ u hu)
  have hstart : tokenStart.length = 5 := rfl
  rw [byteLength_of_ascii hascii, tokenText, List.length_append, hstart, writeCursor,
    toBase64Url_length, maxPairingTokenBytes]
  omega

theorem pairingEndpoints_isSome {idna : Idna} {origin result : JsString}
    (h : canonicalizeServerOrigin idna origin = some result) :
    (pairingEndpoints idna origin).isSome = true := by
  unfold canonicalizeServerOrigin at h
  unfold pairingEndpoints
  cases hurl : newUrl idna origin with
  | failure =>
      rw [hurl] at h
      exact nomatch h
  | otherScheme =>
      rw [hurl] at h
      exact nomatch h
  | url url => rfl

/-- What is signed can be written. -/
theorem buildPairingTranscript_isSome {f : PairingTranscriptFields}
    (hsecret : validateB64u32 f.secret = true) (hkey : f.publicRaw.length = 32)
    (horigin : ∀ u ∈ f.serverOrigin, isPlain u = true) (hshort : f.serverOrigin.length ≤ 64)
    (hversion : f.protocolVersion = pairingProtocolVersion) :
    (buildPairingTranscript f).isSome = true := by
  have hlp : ∀ {t : JsString}, (∀ u ∈ t, isAscii u = true) → t.length ≤ 64 → ∃ x, lp t = some x := by
    intro t hascii hlength
    have hbytes : (utf8Encode t).length ≤ 64 := by
      rw [length_utf8Encode, byteLength_of_ascii hascii]
      exact hlength
    exact ⟨_, if_pos (Nat.lt_of_le_of_lt hbytes (by decide))⟩
  have hplain : ∀ u ∈ f.secret, isAscii u = true := by
    rw [← toBase64Url_fromBase64Url hsecret]
    exact fun u hu => isAscii_of_isPlain (isPlain_toBase64Url _ u hu)
  have hlength : f.secret.length = 43 := by
    rw [← toBase64Url_fromBase64Url hsecret, toBase64Url_length, length_of_validateB64u32 hsecret]
  obtain ⟨tag, htag⟩ := hlp (t := pairingDomainTag) (by decide) (by decide)
  obtain ⟨secret, hsecret'⟩ := hlp hplain (by omega)
  obtain ⟨origin, horigin'⟩ := hlp (fun u hu => isAscii_of_isPlain (horigin u hu)) hshort
  obtain ⟨version, hversion'⟩ := hlp (t := f.protocolVersion) (by rw [hversion]; decide)
    (by rw [hversion]; decide)
  rw [buildPairingTranscript, if_pos hsecret, if_pos hkey, PairingTranscriptFields.parts, htag,
    hsecret', horigin', hversion']
  rfl

variable {host : PairingHost} {opts : MockPairingOpts} {s s' : PairingServer}

theorem origin_short (hport : s.port ≤ 65535) :
    (∀ u ∈ s.origin, isPlain u = true) ∧ s.origin.length ≤ 64 := by
  have hstart : ∀ u ∈ js "ws://127.0.0.1:", isPlain u = true := by decide
  have hlength : (js "ws://127.0.0.1:").length = 15 := rfl
  have hdigits : (digitUnits s.port).length ≤ 5 := digitUnits_length_le (by decide) (by omega)
  refine ⟨?_, ?_⟩
  · rw [PairingServer.origin, List.forall_mem_append]
    refine ⟨hstart, fun u hu => ?_⟩
    exact isPlain_of_isDigit (digitUnits_isDigit s.port u hu)
  · rw [PairingServer.origin, List.length_append, hlength]
    omega

/-- What a successful mint leaves. -/
structure IsMinted (host : PairingHost) (opts : MockPairingOpts) (s s' : PairingServer)
    (row : PairingRow) (secret : JsString) : Prop where
  server : s' = { s with
    rows := s.rows.put row
    rowsBySecretHash := s.rowsBySecretHash.put (row.secretHash, row.id)
    nextPairingId := s.nextPairingId + 1 }
  id : row.id = s.nextPairingId
  fresh : row.IsFresh
  origin : canonicalizeServerOrigin host.idna s.origin = some s.origin
  expectedOrigin : row.expectedOrigin = s.origin
  canonicalSecret : validateB64u32 secret = true
  secretHash : row.secretHash = sha256Hex host.toConnectHost secret
  attemptCap : row.attemptCap = opts.attemptCap.getD 10

theorem mint_eq_some {mintOpts : MintOptions} {now : Int} {random : Seed} {token : JsString}
    (h : s.mint host opts mintOpts now random = some (s', token)) :
    ∃ row secret exp, IsMinted host opts s s' row secret ∧ row.tokenExp = exp * 1000 ∧
      token = tokenText s.origin secret exp := by
  unfold mint at h
  simp only at h
  split at h
  · exact nomatch h
  · rename_i horigin
    obtain ⟨-, horigin⟩ := not_or.mp horigin
    obtain ⟨hsecret, h⟩ := Option.ite_none_right_eq_some.mp h
    obtain ⟨rfl, rfl⟩ := Prod.mk.inj (Option.some.inj h)
    exact ⟨_, _, _, ⟨rfl, rfl, ⟨rfl, rfl, rfl, rfl, rfl, rfl, rfl, rfl⟩,
      Decidable.not_not.mp horigin, rfl, hsecret, rfl, rfl⟩, rfl, rfl⟩

/-- What a device has when it has been given the token of a row. -/
structure IsGiven (host : PairingHost) (row : PairingRow) (opts : ConnectOptions) (seed : Seed)
    (p : Pairing) : Prop where
  secret : row.secretHash = sha256Hex host.toConnectHost p.vars.token.secret
  canonicalSecret : validateB64u32 p.vars.token.secret = true
  origin : p.vars.canonicalOrigin = row.expectedOrigin
  canonicalOrigin : canonicalizeServerOrigin host.idna row.expectedOrigin = some row.expectedOrigin
  publicRaw : p.vars.publicRaw = host.publicRaw seed
  fingerprint : p.vars.localFingerprint = toBase64Url (host.sha256 (host.publicRaw seed))
  patience : p.vars.pollDeadlineMs = opts.patience
  configPath : p.vars.configPath = opts.path host.toConnectHost
  state : ∃ body, completionBody host.toConnectHost p.vars seed = some body ∧
    p.state = ⟨.completing none, seed, [.complete p.vars.endpoints.complete body]⟩

/-- **A device takes a minted token**, until it expires. -/
theorem connect_minted (hlawful : host.IsLawful) (hport : s.port ≤ 65535) {row : PairingRow}
    {secret token : JsString} {exp : Int} (hminted : IsMinted host opts s s' row secret)
    (htoken : token = tokenText s.origin secret exp) (hexp : 0 ≤ exp ∧ exp * 1000 < 2 ^ 53)
    {connectOpts : ConnectOptions} (hopts : connectOpts.token = token)
    (hpolling : validatePollingOptions connectOpts.interval connectOpts.patience = .ok ())
    {now : JsNumber} (hnow : NotExpired exp now) (seed : Seed) :
    ∃ p, connect host.toConnectHost connectOpts now seed = .ok p ∧
      IsGiven host row connectOpts seed p := by
  obtain ⟨hplain, hshort⟩ := origin_short hport
  have hnan : now ≠ .nan := by
    rintro rfl
    exact hnow
  have hsafe : (exp * 1000).natAbs < 2 ^ 53 := by omega
  obtain ⟨n, rfl⟩ := Int.eq_ofNat_of_zero_le hexp.1
  have hparse : parsePairingToken host.number connectOpts.token now =
      .ok ⟨s.origin, secret, .ofInt n⟩ := by
    rw [hopts, htoken]
    refine (parse_tokenText_iff hlawful.number hsafe).mpr ⟨?_, hminted.canonicalSecret, ?_, rfl⟩
    · exact byteLength_tokenText_le hplain hshort hminted.canonicalSecret (by omega)
    · exact (notExpired_iff hlawful.number hsafe hnan).mpr hnow
  obtain ⟨endpoints, hendpoints⟩ :=
    Option.isSome_iff_exists.mp (pairingEndpoints_isSome hminted.origin)
  have hvars : connectVars host.toConnectHost connectOpts now =
      .ok (⟨s.origin, secret, .ofInt n⟩, s.origin, endpoints) := by
    rw [connectVars, hpolling, hparse]
    simp only [bind, Except.bind, hminted.origin, hendpoints]
  have hprint : keyFingerprint host.toConnectHost (host.publicRaw seed) =
      some (toBase64Url (host.sha256 (host.publicRaw seed))) := if_pos (hlawful.publicRaw seed)
  obtain ⟨transcript, htranscript⟩ := Option.isSome_iff_exists.mp
    (buildPairingTranscript_isSome (f := ⟨secret, host.publicRaw seed, s.origin,
      pairingProtocolVersion⟩) hminted.canonicalSecret (hlawful.publicRaw seed) hplain hshort rfl)
  rw [connect, hvars]
  simp only [bind, Except.bind, pure, Except.pure, hprint, Option.isNone_some, Bool.false_eq_true,
    if_false]
  refine ⟨_, rfl, hminted.secretHash, hminted.canonicalSecret, hminted.expectedOrigin.symm, ?_, rfl,
    rfl, rfl, rfl, ?_⟩
  · rw [hminted.expectedOrigin]
    exact hminted.origin
  · simp only [ConnectState.completePairing, completionBody, htranscript]
    exact ⟨_, rfl, rfl⟩

/-! ### What is posted is read -/

theorem readBody_of_fits {maxBytes : Nat} {path : JsString} {body : JsObject}
    (h : (utf8Encode (stringifyObject body)).length ≤ maxBytes) :
    readBody maxBytes (postJson path body).contentLength (postJson path body).chunks =
      some (stringifyObject body) := by
  have hsmall : ¬ maxBytes < (utf8Encode (stringifyObject body)).length := Nat.not_lt.mpr h
  have hfits : ¬ ((postJson path body).contentLength.any (maxBytes < ·) = true ∨
      maxBytes < (postJson path body).chunks.flatten.length) := by
    rw [postJson, List.flatten_singleton]
    rintro (hc | hc)
    · exact hsmall (of_decide_eq_true hc)
    · exact hsmall hc
  rw [readBody_eq, if_neg hfits, postJson, List.flatten_singleton, utf8Decode_stringifyObject]

theorem handle_complete_eq (hplain : IsPlain opts) {body : JsObject}
    (h : (utf8Encode (stringifyObject body)).length ≤ 256) (clock : Nat → Int) (random : Seed) :
    s.handle host opts (postJson completeSuffix body) clock random =
      s.handleComplete host opts (stringifyObject body) clock random := by
  rw [handle, readBody_of_fits (Nat.le_trans h hplain.bodies)]
  simp only
  rw [if_neg fun hc => absurd (show js "POST" = js "GET" from hc.1) (by decide),
    if_pos ⟨rfl, List.suffix_refl _⟩, hplain.simplePairing, if_neg Bool.false_ne_true]

theorem handle_status_eq (hplain : IsPlain opts) {body : JsObject}
    (h : (utf8Encode (stringifyObject body)).length ≤ 256) (clock : Nat → Int) (random : Seed) :
    s.handle host opts (postJson statusSuffix body) clock random =
      s.handleStatus host opts (stringifyObject body) clock := by
  rw [handle, readBody_of_fits (Nat.le_trans h hplain.bodies)]
  simp only
  rw [if_neg fun hc => absurd (show js "POST" = js "GET" from hc.1) (by decide),
    if_neg fun hc => absurd (show completeSuffix <:+ statusSuffix from hc.2) (by decide),
    if_pos ⟨rfl, List.suffix_refl _⟩]

/-! ### Answers are taken -/

theorem parseCompleteResponse_texts {fingerprint pollToken : JsString}
    (hfingerprint : isBase64Url 43 fingerprint = true) (hlength : pollToken.length = 43) :
    parseCompleteResponse (.obj (JsObject.ofTexts (completedTexts fingerprint pollToken))) =
      some ⟨fingerprint, pollToken⟩ := by
  have h := Schema.strictObject_iff
    [⟨js "status", .literal "pending", some (.str (js "pending"))⟩,
      ⟨js "fingerprint", .string (isBase64Url 43), some (.str fingerprint)⟩,
      ⟨js "poll_token", .string fun s => 1 ≤ s.length && s.length ≤ 1024, some (.str pollToken)⟩]
    (by simp only [List.map_cons, List.map_nil]; decide)
  have hvalid : completeResponse (.obj (JsObject.ofTexts (completedTexts fingerprint pollToken))) =
      true := by
    refine h.mpr ?_
    simp only [List.forall_mem_cons, List.not_mem_nil, false_implies, implies_true, and_true,
      Option.getD_some, Schema.string_str]
    refine ⟨rfl, hfingerprint, ?_⟩
    rw [hlength]
    rfl
  rw [parseCompleteResponse, if_pos hvalid]
  rfl

theorem parseStatusResponse_texts {ids : PairedIds} (hagent : isAuthId ids.agentId = true)
    (hkey : isAuthId ids.keyId = true) (htenant : isAuthId ids.tenantId = true) :
    parseStatusResponse (.obj (JsObject.ofTexts (activeTexts ids))) = some (.active ids) := by
  have hpending : pendingResponse (.obj (JsObject.ofTexts (activeTexts ids))) = false := rfl
  have hrejected : rejectedResponse (.obj (JsObject.ofTexts (activeTexts ids))) = false := rfl
  have h := Schema.strictObject_iff
    [⟨js "status", .literal "active", some (.str (js "active"))⟩,
      ⟨js "agent_id", .string isAuthId, some (.str ids.agentId)⟩,
      ⟨js "key_id", .string isAuthId, some (.str ids.keyId)⟩,
      ⟨js "tenant_id", .string isAuthId, some (.str ids.tenantId)⟩]
    (by simp only [List.map_cons, List.map_nil]; decide)
  have hvalid : activeResponse (.obj (JsObject.ofTexts (activeTexts ids))) = true := by
    refine h.mpr ?_
    simp only [List.forall_mem_cons, List.not_mem_nil, false_implies, implies_true, and_true,
      Option.getD_some, Schema.string_str]
    exact ⟨rfl, hagent, hkey, htenant⟩
  rw [parseStatusResponse, hpending, hrejected, hvalid]
  rfl

/-! ### Step by step -/

namespace Ceremony

variable {ι : Type} [DecidableEq ι] {c : Ceremony ι} {i : ι} {vars : PairingVars}
  {client : ConnectState} {wire : Wire}

/-- Where the server is, and one of the devices. -/
structure At (c : Ceremony ι) (i : ι) (s : PairingServer) (vars : PairingVars)
    (client : ConnectState) (wire : Wire) : Prop where
  server : c.server = s
  party : c.parties i = ⟨vars, client, wire⟩

/-- One request, with its answer. -/
def exchange (i : ι) (clock : Nat → Int) (random : Seed) : List (CeremonyEvent ι) :=
  [.deliver i clock random, .arrive i]

theorem At.exchange {req : HttpRequest} (h : At c i s vars client (.asked req))
    {clock : Nat → Int} {random : Seed} {response : ServerResponse}
    (hanswer : s.handle host opts req clock random = (s', response)) :
    At (Machine.run (step host opts) c (exchange i clock random)) i s' vars
      (client.step host.toConnectHost vars (.reply (response.reply host.number)))
      (client.step host.toConnectHost vars (.reply (response.reply host.number))).asks := by
  have hserver : (c.step host opts (.deliver i clock random)).server = s' := by
    simp only [step, atServer?, h.party, Party.request?, Option.elim_some, PairingServer.step,
      h.server, hanswer]
  have hparty : (c.step host opts (.deliver i clock random)).parties i =
      ⟨vars, client, .answered (response.reply host.number)⟩ := by
    simp only [step, onParty, if_true, h.party, Party.onDeliver, h.server, hanswer]
  refine ⟨hserver, ?_⟩
  show Ceremony.onParty host opts (c.step host opts (.deliver i clock random)) (.arrive i) i = _
  simp only [onParty, if_true, hparty, Party.onArrive, Party.step]

theorem At.input (host : PairingHost) (opts : MockPairingOpts) (h : At c i s vars client .idle)
    (input : ConnectInput) (hinput : ∀ reply, input ≠ .reply reply) :
    At (c.step host opts (.input i input)) i s vars
      (client.step host.toConnectHost vars input)
      (client.step host.toConnectHost vars input).asks := by
  refine ⟨h.server, ?_⟩
  show Ceremony.onParty host opts c (.input i input) i = _
  simp only [onParty, if_true, h.party]
  cases input with
  | reply reply => exact absurd rfl (hinput reply)
  | _ => rfl

theorem At.elsewhere (host : PairingHost) (opts : MockPairingOpts) (h : At c i s vars client wire)
    (e : PairingServer.Event) :
    At (c.step host opts (.elsewhere e)) i (PairingServer.step host opts s e) vars client wire := by
  refine ⟨?_, h.party⟩
  rw [← h.server]
  rfl

/-! ### The completion -/

/-- The device has shown its fingerprint, or is about to, and holds a poll token. -/
def notified (vars : PairingVars) (seed : Seed) (log : List ConnectEvent) (pollToken : JsString) :
    ConnectState :=
  { phase := .notifying pollToken, seed, log := log ++ [.onFingerprint vars.localFingerprint] }

/-- The completion request of a device that was given the token is a proof. -/
theorem proves_given (hlawful : host.IsLawful) {row : PairingRow} {connectOpts : ConnectOptions}
    {seed : Seed} {p : Pairing} (hgiven : IsGiven host row connectOpts seed p)
    (hkey : hexText (host.publicRaw seed) ≠ rejectedTestPublicHex) {transcript : List UInt8}
    (htranscript : buildPairingTranscript ⟨p.vars.token.secret, p.vars.publicRaw,
      p.vars.canonicalOrigin, pairingProtocolVersion⟩ = some transcript) :
    CompletionRequest.proves host ⟨p.vars.token.secret, toBase64Url (host.publicRaw seed),
      toBase64Url (host.sign seed transcript)⟩ row = true := by
  rw [hgiven.publicRaw, hgiven.origin] at htranscript
  have hraw : CompletionRequest.publicRaw ⟨p.vars.token.secret, toBase64Url (host.publicRaw seed),
      toBase64Url (host.sign seed transcript)⟩ = host.publicRaw seed :=
    fromBase64Url_toBase64Url _
  rw [CompletionRequest.proves, CompletionRequest.transcript, hraw, htranscript, Option.any_some,
    verifyTranscript_toBase64Url (hlawful.publicRaw seed) (hlawful.sign seed transcript)
      (hlawful.verify seed transcript), decide_eq_true hkey]
  rfl

/-- The device takes the answer to its completion. -/
theorem onCompleted_given (hplain : IsPlain opts) (hlawful : host.IsLawful) {row : PairingRow}
    {connectOpts : ConnectOptions} {seed : Seed} {p : Pairing}
    (hgiven : IsGiven host row connectOpts seed p) (log : List ConnectEvent) (random : Seed) :
    ∃ log', ConnectState.onCompleted p.vars ⟨.completing none, seed, log⟩ none
      ((completed opts (toBase64Url (host.sha256 (host.publicRaw seed)))
        (randomB64u32 random)).reply host.number) =
      notified p.vars seed log' (randomB64u32 random) := by
  have hfingerprint : isBase64Url 43 (toBase64Url (host.sha256 (host.publicRaw seed))) = true := by
    have hlength : (toBase64Url (host.sha256 (host.publicRaw seed))).length = 43 := by
      rw [toBase64Url_length, hlawful.sha256]
    rw [← hlength]
    exact isBase64Url_toBase64Url _
  have hlength : (randomB64u32 random).length = 43 := by
    rw [randomB64u32, toBase64Url_length, Vector.length_toList]
  have hresponse : responseFingerprint opts (toBase64Url (host.sha256 (host.publicRaw seed))) =
      toBase64Url (host.sha256 (host.publicRaw seed)) :=
    if_neg (by rw [hplain.fingerprints]; exact Bool.false_ne_true)
  have hcompleted : ConnectState.completed p.vars ((completed opts
      (toBase64Url (host.sha256 (host.publicRaw seed))) (randomB64u32 random)).reply host.number) =
        .ok (randomB64u32 random) := by
    rw [reply_completed, hresponse]
    simp only [ConnectState.completed, Option.bind_some,
      parseCompleteResponse_texts hfingerprint hlength, hgiven.fingerprint]
    rw [if_neg (by decide), if_neg (fun hc => hc rfl)]
  simp only [ConnectState.onCompleted, hcompleted]
  exact ⟨_, rfl⟩

/-- **A device that was given the token of an offered row wins it.** -/
theorem completes_first (hlawful : host.IsLawful) (hplain : IsPlain opts) {row : PairingRow}
    {connectOpts : ConnectOptions} {seed : Seed} {p : Pairing}
    (hgiven : IsGiven host row connectOpts seed p) (h : At c i s p.vars p.state p.state.asks)
    (hnext : IsNext opts s row) (hfresh : row.IsFresh) (hleft : row.attempts < row.attemptCap)
    (hkey : hexText (host.publicRaw seed) ≠ rejectedTestPublicHex) {clock : Nat → Int}
    (htime : clock 0 < row.tokenExp) (random : Seed) :
    ∃ s' log, At (Machine.run (step host opts) c (exchange i clock random)) i s' p.vars
        (notified p.vars seed log (randomB64u32 random)) .idle ∧
      IsNext opts s' (awaited host row (host.publicRaw seed) random) ∧
      IsAwaited host s' (awaited host row (host.publicRaw seed) random) (host.publicRaw seed)
        (randomB64u32 random) := by
  obtain ⟨body, hbody, hstate⟩ := hgiven.state
  obtain ⟨transcript, htranscript, hbody⟩ := Option.map_eq_some_iff.mp hbody
  have hproves := proves_given hlawful hgiven hkey htranscript
  rw [hgiven.publicRaw] at hbody
  have htexts : body = JsObject.ofTexts (completionTexts p.vars.token.secret
      (toBase64Url (host.publicRaw seed)) (toBase64Url (host.sign seed transcript))) := hbody.symm
  have hsecretText := toBase64Url_fromBase64Url hgiven.canonicalSecret
  have hsize : (utf8Encode (stringifyObject body)).length ≤ 256 := by
    have hsecretLength : (p.vars.token.secret).length = 43 := by
      rw [← hsecretText, toBase64Url_length, length_of_validateB64u32 hgiven.canonicalSecret]
    have hnames : (∀ u ∈ js "secret", isPlain u = true) ∧ (∀ u ∈ js "public_key", isPlain u = true) ∧
        ∀ u ∈ js "pop_signature", isPlain u = true := by decide
    have hsecretPlain : ∀ u ∈ p.vars.token.secret, isPlain u = true := by
      rw [← hsecretText]
      exact isPlain_toBase64Url _
    rw [htexts, length_ofTexts (by exact List.cons_ne_nil _ _)]
    · simp only [completionTexts, List.map_cons, List.map_nil, List.sum_cons, List.sum_nil,
        toBase64Url_length, hsecretLength, hlawful.publicRaw, hlawful.sign]
      decide
    · simp only [completionTexts, List.forall_mem_cons, List.not_mem_nil, false_implies,
        implies_true, and_true]
      exact ⟨⟨hnames.1, hsecretPlain⟩, ⟨hnames.2.1, isPlain_toBase64Url _⟩,
        hnames.2.2, isPlain_toBase64Url _⟩
  have hrequest : (parseJsonObject host.number (stringifyObject body)).bind completionRequest? =
      some ⟨p.vars.token.secret, toBase64Url (host.publicRaw seed),
        toBase64Url (host.sign seed transcript)⟩ := by
    rw [htexts, parse_completion, if_pos ⟨hgiven.canonicalSecret,
      validateB64u32_toBase64Url (hlawful.publicRaw seed),
      isEd25519Sig_toBase64Url (hlawful.sign seed transcript)⟩]
  obtain ⟨s', hanswer, hnext', hawaited⟩ := handleComplete_offered hplain hnext hfresh.state
    hfresh.pollTokens hleft hrequest hgiven.secret rfl (hlawful.publicRaw seed) hproves htime random
  rw [← handle_complete_eq hplain hsize] at hanswer
  have hasks : p.state.asks = .asked (postJson completeSuffix body) := by
    rw [hstate]
    rfl
  rw [hasks] at h
  have hexchange := h.exchange hanswer
  obtain ⟨log, hcompleted⟩ := onCompleted_given hplain hlawful hgiven
    [.complete p.vars.endpoints.complete body] random
  have hstep : p.state.step host.toConnectHost p.vars (.reply ((completed opts
      (toBase64Url (host.sha256 (host.publicRaw seed))) (randomB64u32 random)).reply host.number)) =
        notified p.vars seed log (randomB64u32 random) := by
    rw [← hcompleted, hstate]
    rfl
  rw [hstep] at hexchange
  exact ⟨s', log, hexchange, hnext', hawaited⟩

/-! ### The loop -/

/-- One turn of the polling loop: what the clocks show, and the random bytes of the request. -/
structure PollTurn where
  looked : JsNumber
  clock : Nat → Int
  random : Seed

namespace PollTurn

def asked (turn : PollTurn) (i : ι) : List (CeremonyEvent ι) :=
  .input i (.look turn.looked) :: exchange i turn.clock turn.random

/-- The turn, and the sleep after it. -/
def waited (turn : PollTurn) (i : ι) : List (CeremonyEvent ι) :=
  turn.asked i ++ [.input i (.slept true)]

/-- The device still waits, and the row has not expired. -/
structure InTime (deadline : JsNumber) (row : PairingRow) (turn : PollTurn) : Prop where
  looked : turn.looked.lt deadline = true
  clock : turn.clock 0 < row.pendingExp

end PollTurn

theorem At.asked {poll : PollVars} {seed : Seed} {log : List ConnectEvent} {turn : PollTurn}
    (hplain : IsPlain opts) (h : At c i s vars ⟨.looping poll, seed, log⟩ .idle)
    {row : PairingRow} {publicRaw : List UInt8} (hcount : 0 ≤ s.forcedValidStatus404s)
    (hawaited : IsAwaited host s row publicRaw poll.pollToken) (hlength : publicRaw.length = 32)
    (htoken : poll.pollToken.length = 43 ∧ ∀ u ∈ poll.pollToken, isPlain u = true)
    (hstate : row.state = .pending ∨ row.state = .active) (htime : turn.InTime poll.deadline row)
    {response : ServerResponse} (hresponse : s.statusOf opts row (turn.clock 2) = (s, response)) :
    ∃ log', At (Machine.run (step host opts) c (turn.asked i)) i s vars
      (ConnectState.onPolled host.toConnectHost vars ⟨.polling poll, seed, log'⟩ poll
        (response.reply host.number))
      (ConnectState.onPolled host.toConnectHost vars ⟨.polling poll, seed, log'⟩ poll
        (response.reply host.number)).asks := by
  have htexts : ([(js "poll_token", .str poll.pollToken)] : JsObject) =
      JsObject.ofTexts [(js "poll_token", poll.pollToken)] := rfl
  have hname : ∀ u ∈ js "poll_token", isPlain u = true := by decide
  have hsize : (utf8Encode (stringifyObject [(js "poll_token", .str poll.pollToken)])).length ≤
      256 := by
    rw [htexts, length_ofTexts (List.cons_ne_nil _ _)]
    · simp only [List.map_cons, List.map_nil, List.sum_cons, List.sum_nil, htoken.1]
      decide
    · intro p hp
      obtain rfl := List.mem_singleton.mp hp
      exact ⟨hname, htoken.2⟩
  have hanswer : s.handle host opts
      (postJson statusSuffix [(js "poll_token", .str poll.pollToken)]) turn.clock turn.random =
        (s, response) := by
    rw [handle_status_eq hplain hsize, handleStatus_awaited hplain hcount hawaited hlength hstate
      (pollTokenOf_status host.number poll.pollToken) htime.clock, hresponse]
  have hlooked := h.input host opts (.look turn.looked) fun _ hc => nomatch hc
  have hstep : ConnectState.step host.toConnectHost vars ⟨.looping poll, seed, log⟩
      (.look turn.looked) =
        ⟨.polling poll, seed, (log ++ [.looked turn.looked]) ++
          [.status vars.endpoints.status [(js "poll_token", .str poll.pollToken)]]⟩ := by
    show ConnectState.onLook vars _ poll turn.looked = _
    rw [ConnectState.onLook]
    exact if_pos htime.looked
  rw [hstep] at hlooked
  have hasks : ConnectState.asks ⟨.polling poll, seed, (log ++ [.looked turn.looked]) ++
      [.status vars.endpoints.status [(js "poll_token", .str poll.pollToken)]]⟩ =
        .asked (postJson statusSuffix [(js "poll_token", .str poll.pollToken)]) := by
    rw [ConnectState.asks, List.getLast?_concat]
  rw [hasks] at hlooked
  exact ⟨_, hlooked.exchange hanswer⟩

/-- **A device whose row is pending waits**, and nothing has changed. -/
theorem At.waited {poll : PollVars} {seed : Seed} {turn : PollTurn}
    (hplain : IsPlain opts) {row : PairingRow} {publicRaw : List UInt8}
    (hcount : 0 ≤ s.forcedValidStatus404s)
    (hawaited : IsAwaited host s row publicRaw poll.pollToken) (hlength : publicRaw.length = 32)
    (htoken : poll.pollToken.length = 43 ∧ ∀ u ∈ poll.pollToken, isPlain u = true)
    (hstate : row.state = .pending) (htime : turn.InTime poll.deadline row)
    (h : ∃ log, At c i s vars ⟨.looping poll, seed, log⟩ .idle) :
    ∃ log, At (Machine.run (step host opts) c (turn.waited i)) i s vars
      ⟨.looping poll, seed, log⟩ .idle := by
  obtain ⟨log, h⟩ := h
  obtain ⟨log', hasked⟩ := h.asked hplain hcount hawaited hlength htoken (Or.inl hstate) htime
    (statusOf_pending hplain hstate (turn.clock 2))
  have hparse : parseStatusResponse (.obj [(js "status", .lit "pending")]) = some .pending := by
    decide
  have hpolled : ConnectState.onPolled host.toConnectHost vars ⟨.polling poll, seed, log'⟩ poll
      (pendingStatus.reply host.number) =
        ⟨.sleeping poll, seed, (log' ++ [.polled (pendingStatus.reply host.number)]) ++
          [.sleep vars.pollIntervalMs]⟩ := by
    rw [reply_pendingStatus]
    simp only [ConnectState.onPolled, Option.bind_some, hparse]
    rw [if_neg (by decide), if_neg (by decide)]
    rfl
  rw [hpolled] at hasked
  have hslept := hasked.input host opts (.slept true) fun _ hc => by cases hc
  rw [PollTurn.waited, Machine.run_append]
  exact ⟨_, hslept⟩

theorem At.waits (poll : PollVars) {seed : Seed}
    (hplain : IsPlain opts) {row : PairingRow} {publicRaw : List UInt8}
    (hcount : 0 ≤ s.forcedValidStatus404s)
    (hawaited : IsAwaited host s row publicRaw poll.pollToken) (hlength : publicRaw.length = 32)
    (htoken : poll.pollToken.length = 43 ∧ ∀ u ∈ poll.pollToken, isPlain u = true)
    (hstate : row.state = .pending) (turns : List PollTurn)
    (htime : ∀ turn ∈ turns, turn.InTime poll.deadline row)
    (h : ∃ log, At c i s vars ⟨.looping poll, seed, log⟩ .idle) :
    ∃ log, At (Machine.run (step host opts) c (turns.flatMap fun turn => turn.waited i)) i s vars
      ⟨.looping poll, seed, log⟩ .idle := by
  induction turns generalizing c with
  | nil => exact h
  | cons turn rest ih =>
      obtain ⟨hfirst, hrest⟩ := List.forall_mem_cons.mp htime
      rw [List.flatMap_cons, Machine.run_append]
      exact ih hrest (At.waited hplain hcount hawaited hlength htoken hstate hfirst h)

/-! ### The whole ceremony -/

/-- What a whole pairing takes from outside. -/
structure Visit where
  clock : Nat → Int
  random : Seed
  shownAt : JsNumber
  turns : List PollTurn
  confirmClock : Nat → Int
  confirmNow : Int
  last : PollTurn

namespace Visit

/-- The device shows its fingerprint and polls, the user confirms, and the device stores its ids. -/
def events (v : Visit) (i : ι) : List (CeremonyEvent ι) :=
  exchange i v.clock v.random ++
    (.input i (.shown true v.shownAt) :: v.turns.flatMap fun turn => turn.waited i) ++
    (.elsewhere (.confirm v.confirmClock v.confirmNow) :: v.last.asked i) ++
    [.input i (.stored true), .input i (.written true)]

/-- Everything happens before the row expires and before the device gives up. -/
structure InTime (host : PairingHost) (opts : ConnectOptions) (row : PairingRow) (v : Visit) :
    Prop where
  completion : v.clock 0 < row.tokenExp
  turns : ∀ turn ∈ v.turns, turn.InTime (v.shownAt.add host.number opts.patience) row
  last : v.last.InTime (v.shownAt.add host.number opts.patience) row
  confirmClock : ∀ n, v.confirmClock n < row.pendingExp
  confirmNow : v.confirmNow < row.pendingExp

end Visit

/-- The server can take one more device, and no other one waits for the user. -/
structure CanPair (opts : MockPairingOpts) (s : PairingServer) (row : PairingRow) : Prop where
  port : s.port ≤ 65535
  alone : ∀ {id other}, s.rows.find? id = some other → other.state ≠ .pending
  room : s.activeCount row.deviceCounterKey < opts.deviceCap.getD 10
  forced : 0 ≤ s.forcedValidStatus404s

theorem isNext_minted {row : PairingRow} {secret : JsString}
    (hminted : IsMinted host opts s s' row secret) (hcan : CanPair opts s row) :
    IsNext opts s' row := by
  rw [hminted.server]
  refine ⟨?_, ?_, ?_, hcan.room, hcan.forced⟩
  · exact (Table.find?_put _ _ _).trans (if_pos rfl)
  · have hput := Table.find?_put s.rowsBySecretHash (row.secretHash, row.id) row.secretHash
    rw [if_pos rfl] at hput
    exact (Table.find?_eq_some.mp hput).1
  · intro id other hother hpending
    have hfind : (s.rows.put row).find? id = some other := hother
    rw [Table.find?_put] at hfind
    split at hfind
    · rename_i hid
      exact hid
    · exact absurd hpending (hcan.alone hfind)

/-- The last answer takes the device to the ids, and the stores to its end. -/
theorem At.activated {poll : PollVars} {seed : Seed} {log : List ConnectEvent} {ids : PairedIds}
    (h : At c i s vars
      (ConnectState.onPolled host.toConnectHost vars ⟨.polling poll, seed, log⟩ poll
        ((activeStatus ids).reply host.number))
      (ConnectState.onPolled host.toConnectHost vars ⟨.polling poll, seed, log⟩ poll
        ((activeStatus ids).reply host.number)).asks)
    (hagent : isAuthId ids.agentId = true) (hkey : isAuthId ids.keyId = true)
    (htenant : isAuthId ids.tenantId = true)
    (horigin : canonicalizeServerOrigin host.idna vars.canonicalOrigin = some vars.canonicalOrigin) :
    (Machine.run (step host opts) c [.input i (.stored true), .input i (.written true)]).server = s ∧
      ((Machine.run (step host opts) c
        [.input i (.stored true), .input i (.written true)]).parties i).client.phase =
          .settled (.ok ⟨ids, vars.canonicalOrigin, vars.configPath⟩) := by
  have hpolled : ConnectState.onPolled host.toConnectHost vars ⟨.polling poll, seed, log⟩ poll
      ((activeStatus ids).reply host.number) =
        ⟨.storing ids, seed, (log ++ [.polled ((activeStatus ids).reply host.number)]) ++
          [.seedStoreSet ids.keyId seed]⟩ := by
    rw [reply_activeStatus]
    simp only [ConnectState.onPolled, Option.bind_some, parseStatusResponse_texts hagent hkey htenant]
    rw [if_neg (by decide), if_neg (by decide)]
    rfl
  rw [hpolled] at h
  have hstored := At.input host opts h (.stored true) fun _ hc => by cases hc
  have hwritten := At.input host opts hstored (.written true) fun _ hc => by cases hc
  have hwrite : (writePairingConfig ⟨vars.canonicalOrigin, ids.agentId, ids.keyId,
      ids.tenantId⟩).isSome = true := by
    rw [writePairingConfig_eq_some (by rw [horigin]; rfl) hagent hkey htenant]
    rfl
  have hsettled : ∀ log', ConnectState.onWritten vars ⟨.writing ids, seed, log'⟩ ids true =
      ConnectState.settle ⟨.writing ids, seed, log'⟩
        (.ok ⟨ids, vars.canonicalOrigin, vars.configPath⟩) := fun log' => if_pos ⟨rfl, hwrite⟩
  refine ⟨hwritten.server, ?_⟩
  have hparty := congrArg (fun party => party.client.phase) hwritten.party
  exact hparty.trans (congrArg ConnectState.phase (hsettled _))

/-- **An honest pairing comes to its end.**  At a server that nobody else asks, a device that is
given the token of a new row, and whose requests are answered in time, is paired when the user has
confirmed, however often it had to ask; the row is active then and the ids are its own. -/
theorem ceremony_completes (hlawful : host.IsLawful) (hplain : IsPlain opts)
    {mintOpts : MintOptions} {mintedAt : Int} {drawn : Seed} {token : JsString}
    (hmint : s.mint host opts mintOpts mintedAt drawn = some (s', token)) {row : PairingRow}
    (hrow : s'.rows.find? s.nextPairingId = some row) (hcan : CanPair opts s row)
    (hexp : 0 ≤ row.tokenExp ∧ row.tokenExp < 2 ^ 53)
    {connectOpts : ConnectOptions} (htoken : connectOpts.token = token)
    (hpolling : validatePollingOptions connectOpts.interval connectOpts.patience = .ok ())
    {now : JsNumber} (hnow : NotExpired (row.tokenExp / 1000) now) {seed : Seed}
    (hkey : hexText (host.publicRaw seed) ≠ rejectedTestPublicHex)
    (hids : let ids := confirmedIds host opts row (host.publicRaw seed)
      isAuthId ids.agentId = true ∧ isAuthId ids.keyId = true ∧ isAuthId ids.tenantId = true)
    {v : Visit} (htime : v.InTime host connectOpts row) (i : ι) :
    ∃ p, connect host.toConnectHost connectOpts now seed = .ok p ∧
      ∀ c : Ceremony ι, c.server = s' → c.parties i = .start p →
        ((Machine.run (step host opts) c (v.events i)).parties i).client.phase =
          .settled (.ok ⟨confirmedIds host opts row (host.publicRaw seed), s.origin,
            connectOpts.path host.toConnectHost⟩) ∧
        ∃ row', (Machine.run (step host opts) c (v.events i)).server.rows.find? row'.id = some row' ∧
          row'.isConfirmed = true ∧ row'.winningPublicKey = some (host.publicRaw seed) ∧
          row'.ids = confirmedIds host opts row (host.publicRaw seed) := by
  obtain ⟨minted, secret, exp, hminted, htokenExp, htokenText⟩ := mint_eq_some hmint
  obtain rfl : minted = row := by
    have hfind : (s.rows.put minted).find? s.nextPairingId = some row := by
      rw [hminted.server] at hrow
      exact hrow
    rw [Table.find?_put, hminted.id, if_pos rfl] at hfind
    exact Option.some.inj hfind
  have hexp' : minted.tokenExp / 1000 = exp := by omega
  rw [hexp'] at hnow
  obtain ⟨p, hconnect, hgiven⟩ := connect_minted hlawful hcan.port hminted htokenText
    ⟨by omega, by omega⟩ htoken hpolling hnow seed
  refine ⟨p, hconnect, fun c hserver hparty => ?_⟩
  obtain ⟨hagent, hkeyId, htenant⟩ := hids
  have hne : ∀ {id : JsString}, isAuthId id = true → id ≠ [] := by
    rintro id h rfl
    exact nomatch h
  have hlength := hlawful.publicRaw seed
  have htokenLength : (randomB64u32 v.random).length = 43 := by
    rw [randomB64u32, toBase64Url_length, Vector.length_toList]
  -- the completion
  have hleft : minted.attempts < minted.attemptCap := by
    rw [hminted.fresh.attempts, hminted.attemptCap]
    exact hplain.attempts
  have hstart : At c i s' p.vars p.state p.state.asks := ⟨hserver, hparty⟩
  obtain ⟨s₁, log, hnotified, hnext, hawaited⟩ := completes_first hlawful hplain hgiven hstart
    (isNext_minted hminted hcan) hminted.fresh hleft hkey htime.completion v.random
  -- the loop
  have hshown := hnotified.input host opts (.shown true v.shownAt) fun _ hc => nomatch hc
  have hdeadline : v.shownAt.add host.number p.vars.pollDeadlineMs =
      v.shownAt.add host.number connectOpts.patience := by rw [hgiven.patience]
  have hloop := At.waits ⟨randomB64u32 v.random,
      v.shownAt.add host.number p.vars.pollDeadlineMs, false⟩ hplain hnext.forced hawaited hlength
    ⟨htokenLength, isPlain_toBase64Url _⟩ rfl v.turns
    (fun turn hturn => ⟨hdeadline ▸ (htime.turns turn hturn).looked, (htime.turns turn hturn).clock⟩)
    ⟨_, hshown⟩
  obtain ⟨log', hloop⟩ := hloop
  -- the user, and the last answer
  obtain ⟨row', hawaited', hconfirmed, hpendingExp, hids, hcount⟩ := confirm_awaited hnext hawaited rfl
    (hlawful.sha256 _) htime.confirmClock htime.confirmNow (hne hagent) (hne hkeyId)
  have hactive : row'.state = .active := by
    simp only [PairingRow.isConfirmed, Bool.and_eq_true, decide_eq_true_eq] at hconfirmed
    exact hconfirmed.1.1
  have hconfirm := hloop.elsewhere host opts (.confirm v.confirmClock v.confirmNow)
  obtain ⟨log'', hasked⟩ := At.asked hplain hconfirm (by
      show 0 ≤ (s₁.confirm opts v.confirmClock v.confirmNow).1.forcedValidStatus404s
      rw [hcount]
      exact hnext.forced)
    hawaited' hlength ⟨htokenLength, isPlain_toBase64Url _⟩ (Or.inr hactive)
    ⟨hdeadline ▸ htime.last.looked, hpendingExp ▸ htime.last.clock⟩
    (statusOf_active hactive hconfirmed (v.last.clock 2))
  rw [hids] at hasked
  have horigin : p.vars.canonicalOrigin = s.origin := hgiven.origin.trans hminted.expectedOrigin
  obtain ⟨hfinal, hdone⟩ := At.activated hasked hagent hkeyId htenant
    (by rw [horigin]; exact hminted.origin)
  rw [Visit.events, Machine.run_append, Machine.run_append, Machine.run_append]
  rw [horigin, hgiven.configPath] at hdone
  refine ⟨hdone, row', ?_, hconfirmed, hawaited'.winner, hids⟩
  refine Eq.trans ?_ hawaited'.found
  exact congrArg (fun server => server.rows.find? row'.id) hfinal

/-! ### On the local port -/

theorem isLawful_localHost : localHost.IsLawful where
  publicRaw _ := rfl
  sha256 bytes := by
    have hall : ∀ e ∈ localDigests, e.2.length = 32 := by decide
    show (((localDigests.find? fun e => e.1 = bytes).map Prod.snd).getD (List.replicate 32 0)).length = _
    cases hfind : localDigests.find? fun e => e.1 = bytes with
    | none => rfl
    | some e => exact hall e (List.mem_of_find?_eq_some hfind)
  sign _ _ := rfl
  verify _ _ := by
    show (decide (countingKey = countingKey) && decide (localSignature = localSignature)) = true
    rw [decide_eq_true rfl, decide_eq_true rfl]
    rfl
  number _ _ := rfl

theorem isPlain_plainOpts : IsPlain plainOpts :=
  ⟨rfl, rfl, rfl, Int.le_refl 0, by decide, by decide, by decide⟩

/-- The row of the secret that is minted at the beginning. -/
def localRow : PairingRow where
  id := 1
  secretHash := sha256Hex localHost.toConnectHost (toBase64Url (List.replicate 32 7))
  expectedOrigin := js "ws://127.0.0.1:8787"
  tokenExp := 300000
  pendingExp := 600000
  tenantId := js "acme"
  createdByUserId := js "user-42"
  state := .issued
  attempts := 0
  attemptCap := 10
  winningPublicKey := none
  winningPublicKeyB64u := none
  fingerprint := none
  pollTokens := []
  statusPolls := 0
  agentId := none
  keyId := none

/-- The device polls twice before the user confirms. -/
def localVisit : Visit where
  clock _ := 1000
  random := Vector.replicate 32 8
  shownAt := .ofInt 1000
  turns := [⟨.ofInt 3000, fun _ => 3000, Vector.replicate 32 9⟩,
    ⟨.ofInt 5000, fun _ => 5000, Vector.replicate 32 10⟩]
  confirmClock _ := 6000
  confirmNow := 6000
  last := ⟨.ofInt 7000, fun _ => 7000, Vector.replicate 32 11⟩

theorem local_completes : ∃ (s' : PairingServer) (p : Pairing),
    (fresh 8787).mint localHost plainOpts ⟨none, none, none, none, none, none⟩ 0
      (Vector.replicate 32 7) = some (s', localConnect.token) ∧
    connect localHost.toConnectHost localConnect (.ofInt 1000) countingSeed = .ok p ∧
    ((Machine.run (step localHost plainOpts) ⟨s', fun _ : Unit => .start p⟩
      (localVisit.events ())).parties ()).client.phase =
        .settled (.ok ⟨confirmedIds localHost plainOpts localRow countingKey,
          js "ws://127.0.0.1:8787", localHost.configFilePath⟩) := by
  have hminted : ((fresh 8787).mint localHost plainOpts ⟨none, none, none, none, none, none⟩ 0
      (Vector.replicate 32 7)).any (fun minted => minted.1.rows.find? 1 = some localRow &&
        minted.2 = localConnect.token) = true := by decide +kernel
  cases hmint : (fresh 8787).mint localHost plainOpts ⟨none, none, none, none, none, none⟩ 0
      (Vector.replicate 32 7) with
  | none =>
      rw [hmint] at hminted
      exact nomatch hminted
  | some minted =>
      obtain ⟨s', token⟩ := minted
      rw [hmint, Option.any_some, Bool.and_eq_true, decide_eq_true_eq, decide_eq_true_eq] at hminted
      obtain ⟨hrow, htoken⟩ := hminted
      have hcan : CanPair plainOpts (fresh 8787) localRow :=
        ⟨by decide, fun hfind => (nomatch hfind), by decide, Int.le_refl 0⟩
      have hpolling : validatePollingOptions localConnect.interval localConnect.patience = .ok () := by
        decide +kernel
      have hnow : NotExpired (localRow.tokenExp / 1000) (.ofInt 1000) := by
        have hexp : localRow.tokenExp / 1000 = 300 := by decide
        show (Decimal.ofInt 1000).value ≤ ((localRow.tokenExp / 1000 : Int) : ℚ) * 1000
        rw [hexp, value_ofInt]
        norm_num
      have hkey : hexText (localHost.publicRaw countingSeed) ≠ rejectedTestPublicHex := by
        decide +kernel
      have htime : localVisit.InTime localHost localConnect localRow := by
        have hturns : ∀ turn ∈ localVisit.turns ++ [localVisit.last],
            turn.looked.lt (localVisit.shownAt.add localHost.number localConnect.patience) = true ∧
              turn.clock 0 < localRow.pendingExp := by decide +kernel
        have hbefore : (1000 : Int) < localRow.tokenExp ∧ (6000 : Int) < localRow.pendingExp := by
          decide
        exact ⟨hbefore.1, fun turn hturn => ⟨(hturns turn (List.mem_append_left _ hturn)).1,
            (hturns turn (List.mem_append_left _ hturn)).2⟩,
          ⟨(hturns _ (List.mem_append_right _ List.mem_cons_self)).1,
            (hturns _ (List.mem_append_right _ List.mem_cons_self)).2⟩, fun _ => hbefore.2, hbefore.2⟩
      obtain ⟨p, hconnect, hpaired⟩ := ceremony_completes isLawful_localHost isPlain_plainOpts hmint
        hrow hcan ⟨by decide, by decide⟩ htoken.symm hpolling hnow hkey (by decide +kernel) htime ()
      exact ⟨s', p, by rw [← htoken], hconnect, (hpaired ⟨s', fun _ => .start p⟩ rfl rfl).1⟩

end Ceremony

end HuginAgent
