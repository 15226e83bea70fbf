/-
The Python reference verifier, `protocol/v1/py/hugin_protocol_v1.py`.

Each function is the port of one of the TypeScript contract code, under the same name; it works on
Python strings.  What the regular expressions call `\d` is any decimal digit of Unicode here.
-/
import HuginAgent.Kit.Framing
import HuginAgent.Protocol.Origin
import HuginAgent.Py.Urlsplit

namespace HuginAgent

namespace Py

open Framing

/-! ### Auth field grammars -/

/-- `AUTH_ID_RE` and `TENANT_ID_RE`, `[A-Za-z0-9._-]{1,128}`. -/
def matchesIdRe (v : PyString) : Bool :=
  1 ≤ v.length && v.length ≤ 128 &&
    v.all (inClass fun u => isAlnum u || u = unit '.' || u = unit '_' || u = unit '-')

def validateAuthId (v : PyString) : Bool := matchesIdRe v

def validateTenantId (t : PyString) : Bool := matchesIdRe t

/-- `[0-9A-Za-z.-]`. -/
def isPrePoint : CodePoint → Bool :=
  inClass fun u => isAlnum u || u = unit '.' || u = unit '-'

/-- `len(v) <= 64 and SEMVER_RE.fullmatch(v)`. -/
def validateProtocolVersion (lib : PyLibrary) (v : PyString) : Bool :=
  v.length ≤ 64 && Grammar.isVersion lib.isDecimal isPrePoint (point '.') (point '-') v

/-- `NONCE_RE` and `PAIRING_SECRET_RE`, `[A-Za-z0-9_-]{43}`. -/
def matchesNonceRe (s : PyString) : Bool :=
  s.length = 43 && s.all (inClass fun u => isAlnum u || u = unit '_' || u = unit '-')

/-- `base64.urlsafe_b64decode(s + "=")`, of 43 digits. -/
def urlsafeB64decode (s : PyString) : List UInt8 := fromBase64Url (units s)

def b64u (raw : List UInt8) : PyString := ofUnits (toBase64Url raw)

def decodeNonce (nonceB64u : PyString) : Option (List UInt8) :=
  if matchesNonceRe nonceB64u then
    let raw := urlsafeB64decode nonceB64u
    if raw.length ≠ 32 then none
    else if b64u raw ≠ nonceB64u then none
    else some raw
  else none

def validateB64u32 (s : PyString) : Bool :=
  matchesNonceRe s && (urlsafeB64decode s).length = 32 && b64u (urlsafeB64decode s) = s

/-! ### Origins -/

def labelsOf (host : PyString) : List PyString := splitAll (point '.') host

/-- `_DNS_LABEL_RE`. -/
def isDnsLabel (s : PyString) : Bool :=
  s.length ≤ 63 && s.all (inClass isLabelUnit) && s.head?.any (inClass isAlnum) &&
    s.getLast?.any (inClass isAlnum)

def isOctetText (lib : PyLibrary) (s : PyString) : Bool :=
  1 ≤ s.length && s.length ≤ 3 && s.all lib.isDecimal

/-- `_IPV4_RE`. -/
def isIpv4Text (lib : PyLibrary) (host : PyString) : Bool :=
  (labelsOf host).length = 4 && (labelsOf host).all (isOctetText lib)

/-- `_LOOPBACK_V4_RE`. -/
def isLoopbackV4 (lib : PyLibrary) (host : PyString) : Bool :=
  isIpv4Text lib host && (labelsOf host).head? = some (py "127")

/-- The host as it is shown: an IPv6 address is in brackets. -/
def displayHost (host : PyString) : PyString :=
  if host.contains (point ':') then point '[' :: (host ++ [point ']']) else host

def isLoopback (lib : PyLibrary) (host : PyString) : Bool :=
  displayHost host = py "localhost" || displayHost host = py "[::1]" || isLoopbackV4 lib host

/-- The checks on what `urlsplit` has read, in the order of the source. -/
def canonicalizeSplit (lib : PyLibrary) (u : SplitResult) (port : Option Nat) (inp : PyString) :
    Option PyString :=
  let host := u.hostname lib
  if u.scheme ≠ py "wss" ∧ u.scheme ≠ py "ws" then none
  else if host = [] then none
  else if PyString.isAscii host = false then none
  else if u.scheme = py "ws" ∧ isLoopback lib host = false then none
  else if u.username ≠ [] ∨ u.password ≠ [] then none
  else if u.query ≠ [] ∨ u.fragment ≠ [] then none
  else if u.path ≠ [] ∧ u.path ≠ py "/" then none
  else if port = some 0 then none
  else if host.getLast? = some (point '.') then none
  else if host.contains (point '%') then none
  else if (host.contains (point ':') ∨ isIpv4Text lib host = true) ∧ isLoopback lib host = false then
    none
  else if isLoopback lib host = false ∧ (labelsOf host).all isDnsLabel = false then none
  else if port = some (if u.scheme = py "wss" then 443 else 80) then none
  else
    let canonical := u.scheme ++ py "://" ++ displayHost host ++ ofUnits (portText port)
    if canonical ≠ inp then none else some canonical

def canonicalizeServerOrigin (lib : PyLibrary) (inp : PyString) : Option PyString :=
  match urlsplit lib inp with
  | none => none
  | some u =>
      match u.port with
      | none => none
      | some port => canonicalizeSplit lib u port inp

/-! ### Transcripts -/

/-- `lp(x)` of a string; it throws on a surrogate and on a text that is too long. -/
def lp (x : PyString) : Option (List UInt8) := (encodeUtf8 x).bind prefixed

def buildTranscript (challengeId : PyString) (nonceRaw : List UInt8)
    (agentId keyId protocolVersion tenantId serverOrigin : PyString) : Option (List UInt8) :=
  if nonceRaw.length ≠ 32 then none
  else
    concat [lp (py "hugin-agent/auth/v1"), lp challengeId, some nonceRaw, lp agentId, lp keyId,
      lp protocolVersion, lp (py "ed25519"), lp tenantId, lp serverOrigin]

def buildPairingTranscript (secret : PyString) (publicRaw : List UInt8)
    (serverOrigin protocolVersion : PyString) : Option (List UInt8) :=
  if validateB64u32 secret = false then none
  else if publicRaw.length ≠ 32 then none
  else
    concat [lp (py "hugin-pair-pop-v1"), lp secret, some publicRaw, lp serverOrigin,
      lp protocolVersion]

end Py

end HuginAgent
