/-
The pairing token and the pairing record, `src/auth/pairing-token.ts` and
`src/auth/config-file.ts`.

A token is pasted by the user: `hpk1.` and a JSON object in base64url that names the origin to
pair with, a secret, and when it expires.  The record is what is left on disk of a pairing: the
origin and three ids.  Both have a schema, and the origin of a token that was found canonical
always fits the record.
-/
import HuginAgent.Js.Arithmetic
import HuginAgent.Js.Cursor
import HuginAgent.Js.Strings
import HuginAgent.Protocol.Transcript

namespace HuginAgent

/-- What a promise is rejected with: an error of the code's own, or what was thrown from outside. -/
inductive ConnectError
  | message (text : String)
  | outside
deriving DecidableEq

/-- A property that the schema found to be a string. -/
def stringAt (v : JsValue) (key : String) : JsString :=
  match v with
  | .obj o =>
      match JsObject.get o (js key) with
      | .str s => s
      | _ => []
  | _ => []

/-- A property that the schema found to be a number. -/
def numberAt (v : JsValue) (key : String) : JsNumber :=
  match v with
  | .obj o =>
      match JsObject.get o (js key) with
      | .num n => n
      | _ => .nan
  | _ => .nan

/-! ### The token -/

def maxPairingTokenBytes : Nat := 1024

def tokenStart : JsString := js "hpk1."

def pairingTokenPayload : Schema :=
  .strictObject
    [(js "v", .literal "1.0.0"),
      (js "origin", .string fun _ => true),
      (js "secret", .string fun s => isBase64Url 43 s && validateB64u32 s),
      (js "exp", .int)]

structure ParsedPairingToken where
  origin : JsString
  secret : JsString
  exp : JsNumber
deriving DecidableEq

def isCanonicalUnpaddedBase64url (s : JsString) : Bool :=
  isCursorText s && s.length % 4 ≠ 1 && toBase64Url (fromBase64Url s) = s

def invalidToken : ConnectError := .message "invalid pairing token; re-copy the token"

/-- The second of two segments, unless it is empty. -/
def tokenPayload (raw : JsString) : Option JsString :=
  match splitAll (unit '.') raw with
  | [_, payload] => if tokenStart.isPrefixOf raw ∧ payload ≠ [] then some payload else none
  | _ => none

/-- `number` is the double that a decimal is read as. -/
def parsePairingToken (number : Decimal → JsNumber) (raw : JsString) (now : JsNumber) :
    Except ConnectError ParsedPairingToken :=
  if maxPairingTokenBytes < byteLength raw then
    .error (.message "pairing token is too large; re-copy the token")
  else
    match tokenPayload raw with
    | none => .error invalidToken
    | some payload =>
        if isCanonicalUnpaddedBase64url payload then
          match (readCursor payload).map (JsValue.loaded number) with
          | none => .error invalidToken
          | some decoded =>
              if pairingTokenPayload decoded then
                if ((numberAt decoded "exp").mul number (.ofInt 1000)).lt now then
                  .error (.message "pairing token expired; re-copy the token")
                else
                  .ok ⟨stringAt decoded "origin", stringAt decoded "secret", numberAt decoded "exp"⟩
              else .error invalidToken
        else .error invalidToken

/-! ### The record -/

structure PairingConfig where
  serverUrl : JsString
  agentId : JsString
  keyId : JsString
  tenantId : JsString
deriving DecidableEq

def PairingConfig.fields (cfg : PairingConfig) : JsObject :=
  [(js "version", .ofNat 1),
    (js "serverUrl", .str cfg.serverUrl),
    (js "agentId", .str cfg.agentId),
    (js "keyId", .str cfg.keyId),
    (js "tenantId", .str cfg.tenantId)]

/-- `z.literal(1)`. -/
def Schema.one : Schema
  | .num n => n = .ofInt 1
  | _ => false

def isServerUrl (u : JsString) : Bool := (js "wss://").isPrefixOf u || (js "ws://").isPrefixOf u

def pairingConfigFile : Schema :=
  .strictObject
    [(js "version", .optional .one),
      (js "serverUrl", .string isServerUrl),
      (js "agentId", .string isAuthId),
      (js "keyId", .string isAuthId),
      (js "tenantId", .string isAuthId)]

/-- What `writePairingConfig` writes to its file; it throws on a record that its schema rejects. -/
def writePairingConfig (cfg : PairingConfig) : Option JsObject :=
  if pairingConfigFile (.obj cfg.fields) then some cfg.fields else none

theorem isServerUrl_text (o : ServerOrigin) : isServerUrl o.text = true := by
  have hwss : js "wss://" = js "wss" ++ js "://" := by decide
  have hws : js "ws://" = js "ws" ++ js "://" := by decide
  rw [isServerUrl, Bool.or_eq_true, List.isPrefixOf_iff_prefix, List.isPrefixOf_iff_prefix, hwss,
    hws, ServerOrigin.text, originText]
  rcases o.schemeText_cases with hscheme | hscheme
  · left
    rw [hscheme, List.append_assoc _ o.host]
    exact List.prefix_append _ _
  · right
    rw [hscheme, List.append_assoc _ o.host]
    exact List.prefix_append _ _

/-- **A record of a canonical origin and three ids is always written.** -/
theorem writePairingConfig_eq_some {idna : Idna} {cfg : PairingConfig}
    (horigin : (canonicalizeServerOrigin idna cfg.serverUrl).isSome)
    (hagent : isAuthId cfg.agentId = true) (hkey : isAuthId cfg.keyId = true)
    (htenant : isAuthId cfg.tenantId = true) : writePairingConfig cfg = some cfg.fields := by
  obtain ⟨result, hresult⟩ := Option.isSome_iff_exists.mp horigin
  obtain ⟨-, o, htext, -⟩ := canonicalizeServerOrigin_eq_some_iff.mp hresult
  have hserver : isServerUrl cfg.serverUrl = true := by
    rw [htext]
    exact isServerUrl_text o
  have h := Schema.strictObject_iff
    [⟨js "version", .optional .one, some (.ofNat 1)⟩,
      ⟨js "serverUrl", .string isServerUrl, some (.str cfg.serverUrl)⟩,
      ⟨js "agentId", .string isAuthId, some (.str cfg.agentId)⟩,
      ⟨js "keyId", .string isAuthId, some (.str cfg.keyId)⟩,
      ⟨js "tenantId", .string isAuthId, some (.str cfg.tenantId)⟩]
    (by simp only [List.map_cons, List.map_nil]; decide)
  refine if_pos (h.mpr ?_)
  simp only [List.forall_mem_cons, List.not_mem_nil, false_implies, implies_true, and_true,
    Option.getD_some, Schema.string_str]
  exact ⟨rfl, hserver, hagent, hkey, htenant⟩

end HuginAgent
