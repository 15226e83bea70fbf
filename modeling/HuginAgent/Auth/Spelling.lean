/-
How a pairing token is spelt.

A token stands for an origin, a secret and when it expires, and this text is read back as them for
as long as it has not expired.  In the other direction there is one spelling only of the bytes in
a token and one of its secret: the digits that a decoder would skip, and the bits that it would
drop, are excluded by encoding again what was decoded.  Only the object itself may hold more than
it tells: the strict schema passes over a property `__proto__`.

All of it follows from what it is to be accepted (`parsePairingToken_eq_ok_iff`).  That an integer below
`2 ^ 53` is read as itself is what the token relies on of the numbers of the language.
-/
import HuginAgent.Auth.Token
import HuginAgent.Js.Texts
import Mathlib.Data.List.Basic

namespace HuginAgent

/-! ### What is claimed of a token -/

def tokenObject (origin secret : JsString) (exp : Int) : JsObject :=
  [(js "v", .str (js "1.0.0")), (js "origin", .str origin), (js "secret", .str secret),
    (js "exp", .num (.ofInt exp))]

/-- The text of a token. -/
def tokenText (origin secret : JsString) (exp : Int) : JsString :=
  tokenStart ++ writeCursor (tokenObject origin secret exp)

/-- `exp * 1000 >= now`. -/
def NotExpired (exp : Int) : (now : JsNumber) → Prop
  | .nan => False
  | .finite d => d.value ≤ exp * 1000
  | .infinity neg => neg = true

/-- An integer that a double can tell from its neighbours is read as itself. -/
def KeepsIntegers (number : Decimal → JsNumber) : Prop :=
  ∀ i : Int, i.natAbs < 2 ^ 53 → number (.ofInt i) = .ofInt i

/-- The canonical text of 32 bytes. -/
def IsSecretOf (bytes : List UInt8) (secret : JsString) : Prop :=
  bytes.length = 32 ∧ toBase64Url bytes = secret

def tokenKeys : List JsString := [js "v", js "origin", js "secret", js "exp"]

/-- The JSON object in a text. -/
def objectIn (number : Decimal → JsNumber) (raw : JsString) : Option JsObject :=
  match ((tokenPayload raw).bind readCursor).map (JsValue.loaded number) with
  | some (.obj o) => some o
  | _ => none

/-- The fields of the object tell the token. -/
structure TellsToken (o : JsObject) (token : ParsedPairingToken) : Prop where
  v : JsObject.get o (js "v") = .str (js "1.0.0")
  origin : JsObject.get o (js "origin") = .str token.origin
  secret : JsObject.get o (js "secret") = .str token.secret
  exp : JsObject.get o (js "exp") = .num token.exp
  isInteger : ∃ i : Int, token.exp = .ofInt i

/-- An accepted text: the prefix and two segments, of which the second encodes again what it
decodes to. -/
structure IsToken (number : Decimal → JsNumber) (raw : JsString) (token : ParsedPairingToken) :
    Prop where
  size : byteLength raw ≤ maxPairingTokenBytes
  payload : ∃ payload, raw = tokenStart ++ payload ∧ payload ≠ [] ∧ unit '.' ∉ payload ∧
    toBase64Url (fromBase64Url payload) = payload
  object : ∃ o, objectIn number raw = some o ∧ TellsToken o token
  secret : ∃! bytes, IsSecretOf bytes token.secret

/-- And the object has exactly the four fields. -/
structure IsStrictToken (number : Decimal → JsNumber) (raw : JsString)
    (token : ParsedPairingToken) : Prop extends IsToken number raw token where
  keys : ∀ o, objectIn number raw = some o → ∀ key, key ∈ JsObject.keys o ↔ key ∈ tokenKeys

def TokenAccepted (number : Decimal → JsNumber) (raw : JsString) : Prop :=
  ∃ now token, parsePairingToken number raw now = .ok token

/-- What is claimed of all texts together. -/
structure TokensRoundTrip (number : Decimal → JsNumber) : Prop where
  /-- A token is accepted until it expires. -/
  accepts : ∀ origin secret exp now, (∃ bytes, IsSecretOf bytes secret) →
    (exp * 1000).natAbs < 2 ^ 53 → now ≠ .nan →
    byteLength (tokenText origin secret exp) ≤ maxPairingTokenBytes →
    ((∃ token, parsePairingToken number (tokenText origin secret exp) now = .ok token) ↔
      NotExpired exp now)
  /-- It is read as what it stands for. -/
  yields : ∀ origin secret exp now token, (exp * 1000).natAbs < 2 ^ 53 →
    parsePairingToken number (tokenText origin secret exp) now = .ok token →
    token = ⟨origin, secret, .ofInt exp⟩
  /-- No two accepted texts have the same bytes. -/
  padBits : ∀ payload payload', TokenAccepted number (tokenStart ++ payload) →
    TokenAccepted number (tokenStart ++ payload') → fromBase64Url payload = fromBase64Url payload' →
    payload = payload'
  /-- No two accepted secrets have the same bytes. -/
  secretBits : ∀ raw raw' now now' token token', parsePairingToken number raw now = .ok token →
    parsePairingToken number raw' now' = .ok token' →
    fromBase64Url token.secret = fromBase64Url token'.secret → token.secret = token'.secret
  padding : ∀ raw pad, pad ≠ [] → (∀ u ∈ pad, u = unit '=') → ¬ TokenAccepted number (raw ++ pad)
  segment : ∀ raw rest, TokenAccepted number raw → ¬ TokenAccepted number (raw ++ unit '.' :: rest)

/-- What is claimed of one text: what is accepted is strict, and with a field more it is refused. -/
structure StrictAt (number : Decimal → JsNumber) (raw : JsString) : Prop where
  strict : ∀ now token, parsePairingToken number raw now = .ok token →
    IsStrictToken number raw token
  field : ∀ o, objectIn number raw = some o → (∃ key ∈ JsObject.keys o, key ∉ tokenKeys) →
    ¬ TokenAccepted number raw

def TokensAreStrict (number : Decimal → JsNumber) : Prop :=
  TokensRoundTrip number ∧ ∀ raw, StrictAt number raw

/-- A text of a token, by its size, its spelling and its schema, whose object has a property
`__proto__` beside the fields. -/
structure HidesProto (number : Decimal → JsNumber) (raw : JsString) : Prop where
  size : byteLength raw ≤ maxPairingTokenBytes
  spelling : ∃ payload, tokenPayload raw = some payload ∧
    isCanonicalUnpaddedBase64url payload = true
  object : ∃ o, objectIn number raw = some o ∧ pairingTokenPayload (.obj o) = true ∧
    Schema.protoKey ∈ JsObject.keys o

/-! ### Segments -/

theorem tokenPayload_eq_some_iff {raw payload : JsString} :
    tokenPayload raw = some payload ↔
      raw = tokenStart ++ payload ∧ payload ≠ [] ∧ unit '.' ∉ payload := by
  have hstart : ∀ rest, tokenStart ++ rest = js "hpk1" ++ unit '.' :: rest := fun _ => rfl
  have hdot : unit '.' ∉ js "hpk1" := by decide
  constructor
  · intro h
    rw [tokenPayload] at h
    split at h
    · rename_i first second hsplit
      obtain ⟨⟨hbegins, hne⟩, h⟩ := Option.ite_none_right_eq_some.mp h
      obtain rfl := Option.some.inj h
      have hpieces : ∀ piece ∈ splitAll (unit '.') raw, unit '.' ∉ piece := notMem_of_mem_splitAll raw
      have hraw : [unit '.'].intercalate (splitAll (unit '.') raw) = raw := intercalate_splitAll raw
      rw [hsplit] at hpieces hraw
      simp only [List.forall_mem_cons] at hpieces
      rw [List.intercalate_cons_cons, List.intercalate_singleton, List.append_assoc,
        List.singleton_append] at hraw
      obtain ⟨rest, hrest⟩ := List.isPrefixOf_iff_prefix.mp hbegins
      rw [hstart, ← hraw] at hrest
      obtain ⟨hfirst, -, -⟩ :=
        (List.append_cons_inj_of_notMem hpieces.1 hpieces.2.1).mp hrest.symm
      rw [← hraw, hfirst, hstart]
      exact ⟨rfl, hne, hpieces.2.1⟩
    · exact nomatch h
  · rintro ⟨rfl, hne, hnot⟩
    have hsplit : splitAll (unit '.') (tokenStart ++ payload) = [js "hpk1", payload] := by
      rw [hstart, splitAll_append hdot, splitAll_of_notMem hnot]
    have hbegins : tokenStart.isPrefixOf (tokenStart ++ payload) = true :=
      List.isPrefixOf_iff_prefix.mpr (List.prefix_append _ _)
    rw [tokenPayload, hsplit]
    exact if_pos ⟨hbegins, hne⟩

/-! ### Secrets -/

theorem isBase64Url_of_isSecretOf {bytes : List UInt8} {secret : JsString}
    (h : IsSecretOf bytes secret) : isBase64Url 43 secret = true := by
  obtain ⟨hlength, rfl⟩ := h
  have hunits := isBase64UrlUnit_toBase64Url bytes
  rw [List.all_eq_true] at hunits
  rw [isBase64Url, Bool.and_eq_true, decide_eq_true_eq, List.all_eq_true]
  refine ⟨?_, fun u hu => ?_⟩
  · rw [toBase64Url, List.length_map, sextets_length, hlength]
  · have hunit := hunits u hu
    simp only [isBase64UrlUnit, isAlnum, isDigit, Bool.or_eq_true] at hunit ⊢
    tauto

/-- The secrets that are let through are the canonical texts of 32 bytes. -/
theorem validateB64u32_iff {secret : JsString} :
    validateB64u32 secret = true ↔ ∃ bytes, IsSecretOf bytes secret := by
  constructor
  · intro h
    simp only [validateB64u32, Bool.and_eq_true, decide_eq_true_eq] at h
    exact ⟨fromBase64Url secret, h.1.2, h.2⟩
  · rintro ⟨bytes, h⟩
    have hdigits := isBase64Url_of_isSecretOf h
    obtain ⟨hlength, rfl⟩ := h
    rw [validateB64u32, hdigits, fromBase64Url_toBase64Url, hlength]
    simp only [decide_true, Bool.and_self]

theorem isSecretOf_unique {secret : JsString} {bytes bytes' : List UInt8}
    (h : IsSecretOf bytes secret) (h' : IsSecretOf bytes' secret) : bytes = bytes' := by
  have hbytes := congrArg fromBase64Url (h.2.trans h'.2.symm)
  rwa [fromBase64Url_toBase64Url, fromBase64Url_toBase64Url] at hbytes

/-! ### Payloads -/

theorem mem_keys_of_get {o : JsObject} {key : JsString} {v : JsValue}
    (h : JsObject.get o key = v) (hv : v ≠ .undefined) : key ∈ JsObject.keys o := by
  rw [JsObject.get] at h
  split at h
  · rename_i p hp
    have hkey := List.find?_some hp
    rw [beq_iff_eq] at hkey
    exact hkey ▸ List.mem_map_of_mem (List.mem_of_find?_eq_some hp)
  · exact absurd h.symm hv

/-- What the schema says of the payload. -/
theorem pairingTokenPayload_iff {decoded : JsValue} :
    pairingTokenPayload decoded = true ↔ ∃ o, decoded = .obj o ∧
      (∀ key ∈ JsObject.keys o, key = Schema.protoKey ∨ key ∈ tokenKeys) ∧
      JsObject.get o (js "v") = .str (js "1.0.0") ∧
      (∃ origin, JsObject.get o (js "origin") = .str origin) ∧
      (∃ secret, JsObject.get o (js "secret") = .str secret ∧ validateB64u32 secret = true) ∧
      ∃ i : Int, JsObject.get o (js "exp") = .num (.ofInt i) ∧ i.natAbs ≤ maxSafeInteger := by
  have hkeys : ∀ key, ([(js "v", Schema.literal "1.0.0"), (js "origin", .string fun _ => true),
      (js "secret", .string fun s => isBase64Url 43 s && validateB64u32 s), (js "exp", .int)] :
        List (JsString × Schema)).any (fun f => f.1 = key) = true ↔ key ∈ tokenKeys := by
    intro key
    simp only [List.any_cons, List.any_nil, Bool.or_eq_true, decide_eq_true_eq, Bool.or_false,
      tokenKeys, List.mem_cons, List.not_mem_nil, or_false]
    simp only [eq_comm]
  cases decoded with
  | obj o =>
      rw [pairingTokenPayload, Schema.strictObject, Bool.and_eq_true, List.all_eq_true]
      simp only [Bool.or_eq_true, decide_eq_true_eq, hkeys]
      simp only [List.all_cons, List.all_nil, Bool.and_true, Bool.and_eq_true, Schema.literal,
        Schema.string_iff, Schema.int_iff, decide_eq_true_eq]
      constructor
      · rintro ⟨hknown, ⟨v, hv, rfl⟩, ⟨origin, horigin, -⟩, ⟨secret, hsecret, -, hvalid⟩, hexp⟩
        exact ⟨o, rfl, hknown, hv, ⟨origin, horigin⟩, ⟨secret, hsecret, hvalid⟩, hexp⟩
      · rintro ⟨o', ho, hknown, hv, ⟨origin, horigin⟩, ⟨secret, hsecret, hvalid⟩, hexp⟩
        obtain rfl := JsValue.obj.inj ho
        obtain ⟨bytes, hbytes⟩ := validateB64u32_iff.mp hvalid
        exact ⟨hknown, ⟨_, hv, rfl⟩, ⟨origin, horigin, trivial⟩,
          ⟨secret, hsecret, isBase64Url_of_isSecretOf hbytes, hvalid⟩, hexp⟩
  | _ =>
      refine iff_of_false Bool.false_ne_true ?_
      rintro ⟨o, ho, -⟩
      cases ho

/-- What it is to be accepted. -/
theorem parsePairingToken_eq_ok_iff {number : Decimal → JsNumber} {raw : JsString} {now : JsNumber}
    {token : ParsedPairingToken} :
    parsePairingToken number raw now = .ok token ↔
      byteLength raw ≤ maxPairingTokenBytes ∧ ∃ payload decoded,
        tokenPayload raw = some payload ∧ isCanonicalUnpaddedBase64url payload = true ∧
        (readCursor payload).map (JsValue.loaded number) = some decoded ∧
        pairingTokenPayload decoded = true ∧
        ((numberAt decoded "exp").mul number (.ofInt 1000)).lt now = false ∧
        token = ⟨stringAt decoded "origin", stringAt decoded "secret", numberAt decoded "exp"⟩ := by
  rw [parsePairingToken]
  by_cases hsize : maxPairingTokenBytes < byteLength raw
  · rw [if_pos hsize]
    exact iff_of_false (fun h => nomatch h) fun h => absurd h.1 (Nat.not_le.mpr hsize)
  rw [if_neg hsize]
  cases hpayload : tokenPayload raw with
  | none => exact iff_of_false (fun h => nomatch h) fun ⟨_, _, _, h, _⟩ => nomatch h
  | some payload =>
      dsimp only
      cases hcanonical : isCanonicalUnpaddedBase64url payload with
      | false =>
          refine iff_of_false (fun h => nomatch h) ?_
          rintro ⟨-, payload', decoded, hp, hc, -⟩
          rw [← Option.some.inj hp, hcanonical] at hc
          exact nomatch hc
      | true =>
          rw [if_pos rfl]
          cases hdecoded : (readCursor payload).map (JsValue.loaded number) with
          | none =>
              refine iff_of_false (fun h => nomatch h) ?_
              rintro ⟨-, payload', decoded, hp, -, hd, -⟩
              rw [← Option.some.inj hp, hdecoded] at hd
              exact nomatch hd
          | some decoded =>
              dsimp only
              constructor
              · intro h
                obtain ⟨hschema, h⟩ : pairingTokenPayload decoded = true ∧ _ = _ := by
                  cases hschema : pairingTokenPayload decoded with
                  | false =>
                      rw [hschema] at h
                      exact nomatch h
                  | true =>
                      rw [hschema, if_pos rfl] at h
                      exact ⟨rfl, h⟩
                cases hlt : ((numberAt decoded "exp").mul number (.ofInt 1000)).lt now with
                | true =>
                    rw [hlt, if_pos rfl] at h
                    exact nomatch h
                | false =>
                    rw [hlt, if_neg Bool.false_ne_true] at h
                    exact ⟨Nat.not_lt.mp hsize, payload, decoded, rfl, hcanonical, hdecoded, hschema,
                      hlt, (Except.ok.inj h).symm⟩
              · rintro ⟨-, payload', decoded', hp, -, hd, hschema, hlt, rfl⟩
                obtain rfl := Option.some.inj hp
                obtain rfl := Option.some.inj (hdecoded.symm.trans hd)
                rw [hschema, if_pos rfl, hlt, if_neg Bool.false_ne_true]

theorem stringAt_obj {o : JsObject} {key : String} {t : JsString}
    (h : JsObject.get o (js key) = .str t) : stringAt (.obj o) key = t := by
  rw [stringAt, h]

theorem numberAt_obj {o : JsObject} {key : String} {n : JsNumber}
    (h : JsObject.get o (js key) = .num n) : numberAt (.obj o) key = n := by
  rw [numberAt, h]

section

variable {number : Decimal → JsNumber} {raw payload : JsString} {now : JsNumber}
  {token : ParsedPairingToken}

/-! ### What is accepted -/

theorem eq_of_isCanonical (h : isCanonicalUnpaddedBase64url payload = true) :
    toBase64Url (fromBase64Url payload) = payload := by
  rw [isCanonicalUnpaddedBase64url, Bool.and_eq_true, decide_eq_true_eq] at h
  exact h.2

theorem objectIn_eq_some {o : JsObject} (hpayload : tokenPayload raw = some payload)
    (hread : (readCursor payload).map (JsValue.loaded number) = some (.obj o)) :
    objectIn number raw = some o := by
  rw [objectIn, hpayload, Option.bind_some, hread]

theorem read_of_objectIn {o : JsObject} (hpayload : tokenPayload raw = some payload)
    (h : objectIn number raw = some o) :
    (readCursor payload).map (JsValue.loaded number) = some (.obj o) := by
  rw [objectIn, hpayload, Option.bind_some] at h
  split at h
  · rename_i o' hread
    rw [hread, Option.some.inj h]
  · cases h

/-- What the schema says of a text that is accepted. -/
theorem schema_of_ok (h : parsePairingToken number raw now = .ok token) :
    ∃ o, objectIn number raw = some o ∧ pairingTokenPayload (.obj o) = true := by
  obtain ⟨-, payload, decoded, hpayload, -, hdecoded, hschema, -⟩ :=
    parsePairingToken_eq_ok_iff.mp h
  obtain ⟨o, rfl, -⟩ := pairingTokenPayload_iff.mp hschema
  exact ⟨o, objectIn_eq_some hpayload hdecoded, hschema⟩

theorem isToken_of_ok (h : parsePairingToken number raw now = .ok token) :
    IsToken number raw token := by
  obtain ⟨hsize, payload, decoded, hpayload, hcanonical, hdecoded, hschema, -, rfl⟩ :=
    parsePairingToken_eq_ok_iff.mp h
  obtain ⟨o, rfl, -, hv, ⟨origin, horigin⟩, ⟨secret, hsecret, hvalid⟩, ⟨i, hexp, -⟩⟩ :=
    pairingTokenPayload_iff.mp hschema
  obtain ⟨hraw, hne, hdot⟩ := tokenPayload_eq_some_iff.mp hpayload
  obtain ⟨bytes, hbytes⟩ := validateB64u32_iff.mp hvalid
  rw [stringAt_obj horigin, stringAt_obj hsecret, numberAt_obj hexp]
  exact {
    size := hsize
    payload := ⟨payload, hraw, hne, hdot, eq_of_isCanonical hcanonical⟩
    object := ⟨o, objectIn_eq_some hpayload hdecoded, hv, horigin, hsecret, hexp, i, rfl⟩
    secret := ⟨bytes, hbytes, fun bytes' hbytes' => isSecretOf_unique hbytes' hbytes⟩ }

theorem TellsToken.keys {o : JsObject} (h : TellsToken o token) :
    ∀ key ∈ tokenKeys, key ∈ JsObject.keys o := by
  simp only [tokenKeys, List.forall_mem_cons, List.not_mem_nil, false_implies, implies_true,
    and_true]
  exact ⟨mem_keys_of_get h.v (by intro hc; cases hc), mem_keys_of_get h.origin (by intro hc; cases hc),
    mem_keys_of_get h.secret (by intro hc; cases hc), mem_keys_of_get h.exp (by intro hc; cases hc)⟩

theorem payload_of_accepted (h : TokenAccepted number (tokenStart ++ payload)) :
    toBase64Url (fromBase64Url payload) = payload := by
  obtain ⟨now, token, hok⟩ := h
  obtain ⟨payload', hraw, -, -, hagain⟩ := (isToken_of_ok hok).payload
  obtain rfl := List.append_cancel_left hraw
  exact hagain

/-- A text that has the size, the spelling and the schema is accepted while it has not expired. -/
theorem accepted_of_schema {o : JsObject} (hsize : byteLength raw ≤ maxPairingTokenBytes)
    (hpayload : tokenPayload raw = some payload)
    (hcanonical : isCanonicalUnpaddedBase64url payload = true)
    (hobject : objectIn number raw = some o) (hschema : pairingTokenPayload (.obj o) = true) :
    TokenAccepted number raw := by
  refine ⟨.infinity true, _, parsePairingToken_eq_ok_iff.mpr ⟨hsize, payload, _, hpayload,
    hcanonical, read_of_objectIn hpayload hobject, hschema, ?_, rfl⟩⟩
  cases (numberAt (.obj o) "exp").mul number (.ofInt 1000) with
  | nan => rfl
  | finite d => rfl
  | infinity neg => cases neg <;> rfl

/-- **A text is treated as strictly as is claimed just where its object does not hide a
`__proto__`.** -/
theorem strictAt_iff : StrictAt number raw ↔ ¬ HidesProto number raw := by
  have hproto : Schema.protoKey ∉ tokenKeys := by decide
  constructor
  · rintro hstrict ⟨hsize, ⟨payload, hpayload, hcanonical⟩, o, hobject, hschema, hkey⟩
    exact hstrict.field o hobject ⟨_, hkey, hproto⟩
      (accepted_of_schema hsize hpayload hcanonical hobject hschema)
  · intro hnot
    -- what is accepted has the schema, so a key beside the four could only be the hidden one
    have hkeys : ∀ now token, parsePairingToken number raw now = .ok token →
        ∀ o, objectIn number raw = some o → ∀ key ∈ JsObject.keys o, key ∈ tokenKeys := by
      intro now token hok o hobject key hkey
      obtain ⟨hsize, payload, decoded, hpayload, hcanonical, -⟩ :=
        parsePairingToken_eq_ok_iff.mp hok
      obtain ⟨o', hobject', hschema⟩ := schema_of_ok hok
      obtain rfl := Option.some.inj (hobject.symm.trans hobject')
      obtain ⟨o', ho, hknown, -⟩ := pairingTokenPayload_iff.mp hschema
      obtain rfl := JsValue.obj.inj ho
      rcases hknown key hkey with rfl | hmem
      · exact absurd ⟨hsize, ⟨payload, hpayload, hcanonical⟩, o, hobject, hschema, hkey⟩ hnot
      · exact hmem
    refine ⟨fun now token hok => ⟨isToken_of_ok hok, ?_⟩, ?_⟩
    · intro o hobject key
      obtain ⟨o', hobject', htells⟩ := (isToken_of_ok hok).object
      obtain rfl := Option.some.inj (hobject.symm.trans hobject')
      exact ⟨hkeys now token hok o hobject key, htells.keys key⟩
    · rintro o hobject ⟨key, hkey, hmem⟩ ⟨now, token, hok⟩
      exact hmem (hkeys now token hok o hobject key hkey)

/-- No `=` at the end. -/
theorem not_accepted_padding {pad : JsString} (hne : pad ≠ []) (hpad : ∀ u ∈ pad, u = unit '=') :
    ¬ TokenAccepted number (raw ++ pad) := by
  rintro ⟨now, token, hok⟩
  obtain ⟨payload, hraw, hpayload, -, hagain⟩ := (isToken_of_ok hok).payload
  have hlast : payload.getLast hpayload = unit '=' := by
    have hends : (raw ++ pad).getLast? = (tokenStart ++ payload).getLast? := congrArg _ hraw
    rw [List.getLast?_append_of_ne_nil _ hne, List.getLast?_append_of_ne_nil _ hpayload,
      List.getLast?_eq_some_getLast hne, List.getLast?_eq_some_getLast hpayload] at hends
    rw [← Option.some.inj hends]
    exact hpad _ (List.getLast_mem hne)
  have hunits := isBase64UrlUnit_toBase64Url (fromBase64Url payload)
  rw [hagain, List.all_eq_true] at hunits
  have hunit := hunits _ (List.getLast_mem hpayload)
  rw [hlast] at hunit
  exact absurd hunit (by decide)

/-- No third segment. -/
theorem not_accepted_segment {rest : JsString} (h : TokenAccepted number raw) :
    ¬ TokenAccepted number (raw ++ unit '.' :: rest) := by
  obtain ⟨now, token, hok⟩ := h
  obtain ⟨payload, rfl, -⟩ := (isToken_of_ok hok).payload
  rintro ⟨now', token', hok'⟩
  obtain ⟨payload', hraw, -, hdot, -⟩ := (isToken_of_ok hok').payload
  rw [List.append_assoc] at hraw
  rw [← List.append_cancel_left hraw] at hdot
  exact hdot (List.mem_append_right _ List.mem_cons_self)

/-! ### What a text is read back as -/

theorem value_ofInt (i : Int) : (Decimal.ofInt i).value = i := by
  rw [Decimal.ofInt, Decimal.value_of, Decimal.signed_natAbs, zpow_zero, mul_one]

theorem mul_ofInt (i j : Int) : (Decimal.ofInt i).mul (.ofInt j) = .ofInt (i * j) := by
  refine Decimal.value_injective ?_
  rw [Decimal.value_mul, value_ofInt, value_ofInt, value_ofInt, Int.cast_mul]

/-- The comparison with the clock. -/
theorem notExpired_iff (hnumber : KeepsIntegers number) {exp : Int}
    (hexp : (exp * 1000).natAbs < 2 ^ 53) (hnow : now ≠ .nan) :
    ((JsNumber.ofInt exp).mul number (.ofInt 1000)).lt now = false ↔ NotExpired exp now := by
  have hmul : (JsNumber.ofInt exp).mul number (.ofInt 1000) = .ofInt (exp * 1000) := by
    show number ((Decimal.ofInt exp).mul (.ofInt 1000)) = _
    rw [mul_ofInt, hnumber _ hexp]
  rw [hmul]
  cases now with
  | nan => exact absurd rfl hnow
  | finite d =>
      have hlt : (JsNumber.ofInt (exp * 1000)).lt (.finite d) = decide (.ofInt (exp * 1000) < d) := rfl
      have hle : d ≤ Decimal.ofInt (exp * 1000) ↔ d.value ≤ (Decimal.ofInt (exp * 1000)).value :=
        Iff.rfl
      rw [hlt, decide_eq_false_iff_not, not_lt, hle, value_ofInt, NotExpired, Int.cast_mul]
      rfl
  | infinity neg =>
      have hlt : (JsNumber.ofInt (exp * 1000)).lt (.infinity neg) = !neg := rfl
      rw [hlt, NotExpired, Bool.not_eq_false']

variable {origin secret : JsString} {exp : Int}

theorem tokenPayload_tokenText :
    tokenPayload (tokenText origin secret exp) = some (writeCursor (tokenObject origin secret exp)) := by
  refine tokenPayload_eq_some_iff.mpr ⟨rfl, ?_, fun hdot => ?_⟩
  · exact toBase64Url_ne_nil (utf8Encode_ne_nil (List.cons_ne_nil _ _))
  · have hunits := isBase64UrlUnit_toBase64Url (utf8Encode (stringifyObject (tokenObject origin secret exp)))
    exact absurd (List.all_eq_true.mp hunits _ hdot) (by decide)

theorem isCanonical_writeCursor (o : JsObject) :
    isCanonicalUnpaddedBase64url (writeCursor o) = true := by
  have hlength : (writeCursor o).length % 4 ≠ 1 := by
    rw [writeCursor, toBase64Url, List.length_map, sextets_length]
    omega
  have hagain : toBase64Url (fromBase64Url (writeCursor o)) = writeCursor o := by
    rw [writeCursor, fromBase64Url_toBase64Url]
  rw [isCanonicalUnpaddedBase64url, isCursorText_writeCursor, decide_eq_true hlength, hagain]
  exact decide_eq_true rfl

/-- The payload is read back as the object, in the same order. -/
theorem read_tokenObject (hnumber : KeepsIntegers number) (hexp : exp.natAbs < 2 ^ 53) :
    (readCursor (writeCursor (tokenObject origin secret exp))).map (JsValue.loaded number) =
      some (.obj (tokenObject origin secret exp)) := by
  have hfields : JsValue.loadedFields number (tokenObject origin secret exp).onWire =
      [(js "v", .str (js "1.0.0")), (js "origin", .str origin), (js "secret", .str secret),
        (js "exp", .num (number (.ofInt exp)))] := rfl
  have hindex : ∀ key ∈ tokenKeys, isIndexKey key = false := by decide
  rw [readCursor_writeCursor _ rfl, Option.map_some, JsValue.loaded, hfields, hnumber exp hexp]
  exact congrArg (fun o => some (JsValue.obj o)) (JsObject.propertyOrder_of_names hindex)

theorem tokenObject_schema (hexp : exp.natAbs ≤ maxSafeInteger) :
    pairingTokenPayload (.obj (tokenObject origin secret exp)) = true ↔
      validateB64u32 secret = true := by
  constructor
  · intro h
    obtain ⟨o, ho, -, -, -, ⟨secret', hsecret, hvalid⟩, -⟩ := pairingTokenPayload_iff.mp h
    obtain rfl := JsValue.obj.inj ho
    have hget : JsObject.get (tokenObject origin secret exp) (js "secret") = .str secret := rfl
    obtain rfl := JsValue.str.inj (hget.symm.trans hsecret)
    exact hvalid
  · intro h
    refine pairingTokenPayload_iff.mpr
      ⟨_, rfl, ?_, rfl, ⟨origin, rfl⟩, ⟨secret, rfl, h⟩, ⟨exp, rfl, hexp⟩⟩
    exact fun key hkey => Or.inr hkey

/-- A text of a token is accepted just where its secret is valid and it has not expired, and then as
what it stands for. -/
theorem parse_tokenText_iff (hnumber : KeepsIntegers number)
    (hexp : (exp * 1000).natAbs < 2 ^ 53) :
    parsePairingToken number (tokenText origin secret exp) now = .ok token ↔
      byteLength (tokenText origin secret exp) ≤ maxPairingTokenBytes ∧
        validateB64u32 secret = true ∧
        ((JsNumber.ofInt exp).mul number (.ofInt 1000)).lt now = false ∧
        token = ⟨origin, secret, .ofInt exp⟩ := by
  have hsmall : exp.natAbs < 2 ^ 53 ∧ exp.natAbs ≤ maxSafeInteger := by
    have habs : (1000 : Int).natAbs = 1000 := rfl
    rw [Int.natAbs_mul, habs] at hexp
    rw [maxSafeInteger]
    omega
  rw [parsePairingToken_eq_ok_iff]
  refine and_congr_right fun _ => ?_
  constructor
  · rintro ⟨payload, decoded, hpayload, -, hdecoded, hschema, hlt, htoken⟩
    obtain rfl := Option.some.inj (hpayload.symm.trans tokenPayload_tokenText)
    obtain rfl := Option.some.inj (hdecoded.symm.trans (read_tokenObject hnumber hsmall.1))
    exact ⟨(tokenObject_schema hsmall.2).mp hschema, hlt, htoken⟩
  · rintro ⟨hvalid, hlt, htoken⟩
    exact ⟨_, _, tokenPayload_tokenText, isCanonical_writeCursor _, read_tokenObject hnumber hsmall.1,
      (tokenObject_schema hsmall.2).mpr hvalid, hlt, htoken⟩

end

/-- **A token is accepted until it expires and read as what it stands for, an accepted text is the
only spelling of its bytes and of its secret, and it has exactly the four fields just where it does
not hide a `__proto__` beside them.** -/
theorem tokensAreStrict_iff {number : Decimal → JsNumber} (hnumber : KeepsIntegers number) :
    TokensRoundTrip number ∧ ∀ raw, StrictAt number raw ↔ ¬ HidesProto number raw := by
  refine ⟨?_, fun _ => strictAt_iff⟩
  exact {
    accepts := by
      intro origin secret exp now hsecret hexp hnow hsize
      rw [← validateB64u32_iff] at hsecret
      rw [← notExpired_iff hnumber hexp hnow]
      constructor
      · rintro ⟨token, hok⟩
        exact ((parse_tokenText_iff hnumber hexp).mp hok).2.2.1
      · exact fun hlt => ⟨_, (parse_tokenText_iff hnumber hexp).mpr ⟨hsize, hsecret, hlt, rfl⟩⟩
    yields := fun _ _ _ _ _ hexp hok => ((parse_tokenText_iff hnumber hexp).mp hok).2.2.2
    padBits := by
      intro payload payload' h h' hbytes
      rw [← payload_of_accepted h, hbytes, payload_of_accepted h']
    secretBits := by
      intro raw raw' now now' token token' h h' hbytes
      obtain ⟨bytes, ⟨-, hsecret⟩, -⟩ := (isToken_of_ok h).secret
      obtain ⟨bytes', ⟨-, hsecret'⟩, -⟩ := (isToken_of_ok h').secret
      rw [← hsecret, ← hsecret', fromBase64Url_toBase64Url, fromBase64Url_toBase64Url] at hbytes
      rw [← hsecret, ← hsecret', hbytes]
    padding := fun _ _ hne hpad => not_accepted_padding hne hpad
    segment := fun _ _ h => not_accepted_segment h }

def sampleSecret : JsString := toBase64Url (List.replicate 32 7)

/-- Where every decimal is kept, a token that expires in time is accepted, and it is strict. -/
theorem sampleToken_accepted :
    (∃ token, parsePairingToken .finite
      (tokenText (js "wss://relay.example") sampleSecret 1700000000) (.ofInt 1700000000000) =
        .ok token) ∧
      StrictAt .finite (tokenText (js "wss://relay.example") sampleSecret 1700000000) := by
  have hkeeps : KeepsIntegers .finite := fun _ _ => rfl
  have h := tokensAreStrict_iff hkeeps
  constructor
  · refine (h.1.accepts _ _ _ _ ⟨List.replicate 32 7, rfl, rfl⟩ (by decide) (by decide)
      (by decide +kernel)).mpr ?_
    rw [JsNumber.ofInt, NotExpired, value_ofInt]
    norm_num
  · refine (h.2 _).mpr ?_
    rintro ⟨-, -, o, hobject, -, hkey⟩
    have hread : objectIn .finite (tokenText (js "wss://relay.example") sampleSecret 1700000000) =
        some (tokenObject (js "wss://relay.example") sampleSecret 1700000000) :=
      objectIn_eq_some tokenPayload_tokenText (read_tokenObject (fun _ _ => rfl) (by decide))
    obtain rfl := Option.some.inj (hread.symm.trans hobject)
    exact absurd hkey (by decide)

/-- The object of a token with one more property. -/
def hidingObject (origin secret : JsString) (exp : Int) : JsObject :=
  tokenObject origin secret exp ++ [(Schema.protoKey, .bool true)]

def hidingToken : JsString :=
  tokenStart ++ writeCursor (hidingObject (js "wss://relay.example") sampleSecret 1700000000)

theorem tokenPayload_hidingToken : tokenPayload hidingToken =
    some (writeCursor (hidingObject (js "wss://relay.example") sampleSecret 1700000000)) := by
  decide +kernel

theorem objectIn_hidingToken : objectIn .finite hidingToken =
    some (hidingObject (js "wss://relay.example") sampleSecret 1700000000) := by
  have hindex : ∀ key ∈ tokenKeys ++ [Schema.protoKey], isIndexKey key = false := by decide
  refine objectIn_eq_some tokenPayload_hidingToken ?_
  rw [readCursor_writeCursor _ rfl, Option.map_some, JsValue.loaded]
  exact congrArg (fun o => some (JsValue.obj o)) (JsObject.propertyOrder_of_names hindex)

theorem hidesProto_hidingToken : HidesProto .finite hidingToken := by
  refine ⟨by decide +kernel, ⟨_, tokenPayload_hidingToken, isCanonical_writeCursor _⟩, _,
    objectIn_hidingToken, ?_, by decide⟩
  exact pairingTokenPayload_iff.mpr ⟨_, rfl, by decide, rfl, ⟨_, rfl⟩,
    ⟨_, rfl, validateB64u32_iff.mpr ⟨List.replicate 32 7, rfl, rfl⟩⟩, ⟨_, rfl, by decide⟩⟩

/-- With `"__proto__": true` beside its fields a token is accepted. -/
theorem hidingToken_accepted :
    (∃ token, parsePairingToken .finite hidingToken (.ofInt 1700000000000) = .ok token) ∧
      ¬ TokensAreStrict .finite := by
  constructor
  · obtain ⟨hsize, ⟨payload, hpayload, hcanonical⟩, o, hobject, hschema, -⟩ := hidesProto_hidingToken
    have hexp : numberAt (.obj o) "exp" = .ofInt 1700000000 := by
      rw [← Option.some.inj (objectIn_hidingToken.symm.trans hobject)]
      rfl
    refine ⟨_, parsePairingToken_eq_ok_iff.mpr ⟨hsize, payload, _, hpayload, hcanonical,
      read_of_objectIn hpayload hobject, hschema, ?_, rfl⟩⟩
    rw [hexp]
    refine (notExpired_iff (fun _ _ => rfl) (by decide) (by decide)).mpr ?_
    rw [JsNumber.ofInt, NotExpired, value_ofInt]
    norm_num
  · exact fun h => strictAt_iff.mp (h.2 hidingToken) hidesProto_hidingToken

end HuginAgent
