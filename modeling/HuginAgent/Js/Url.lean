/-
`new URL(input)`, for `ws` and `wss`.

This is the basic URL parser of the WHATWG URL standard without a base.  The state machine of the
standard takes the input apart from left to right; here each part is cut off by itself: the
scheme, the slashes, the authority up to the first of `/`, `\`, `?` and `#`, in it the
credentials up to the last `@` and the port after a colon outside brackets, then the path, the
query and the fragment.

A URL of another scheme is not taken apart: its scheme is all that its users look at.
-/
import HuginAgent.Js.Host
import HuginAgent.Protocol.Schema

namespace HuginAgent

structure Url where
  protocol : JsString
  username : JsString
  password : JsString
  hostname : JsString
  port : JsString
  pathname : JsString
  search : JsString
  hash : JsString
deriving DecidableEq

inductive UrlResult
  /-- `new URL` throws. -/
  | failure
  /-- It is no `ws` or `wss` URL; whether it can be parsed is left open. -/
  | otherScheme
  | url (u : Url)
deriving DecidableEq

/-! ### Percent-encoding -/

def hexUpper (d : Nat) : UInt16 := if d < 10 then digitUnit d else (55 + d).toUInt16

def percentEncode (set : List Char) (s : JsString) : JsString :=
  (utf8Encode s).flatMap fun b =>
    if b ≤ 0x1F ∨ 0x7E < b ∨ b.toUInt16 ∈ set.map unit then
      [unit '%', hexUpper (b.toNat / 16), hexUpper (b.toNat % 16)]
    else [b.toUInt16]

def fragmentSet : List Char := [' ', '"', '<', '>', '\x60']

def specialQuerySet : List Char := [' ', '"', '#', '<', '>', '\'']

def pathSet : List Char := [' ', '"', '#', '<', '>', '?', '^', '\x60', '\x7b', '\x7d']

def userinfoSet : List Char := pathSet ++ ['/', ':', ';', '=', '@', '[', '\\', ']', '|']

/-! ### The parts of a URL -/

def isAlpha (u : UInt16) : Bool := (65 ≤ u && u ≤ 90) || (97 ≤ u && u ≤ 122)

/-- What may be in a scheme after its first letter. -/
def isSchemeUnit (u : UInt16) : Bool := isAlnum u || u = unit '+' || u = unit '-' || u = unit '.'

/-- The input without what is taken off its ends, and without tabs and line ends. -/
def cleanInput (input : JsString) : JsString :=
  ((input.dropWhile fun u => u ≤ 0x20).rdropWhile fun u => u ≤ 0x20).filter fun u =>
    u ≠ 9 && u ≠ 10 && u ≠ 13

/-- The scheme, in lower case, and what comes after its colon. -/
def splitScheme (s : JsString) : Option (JsString × JsString) :=
  if s.head?.any isAlpha then
    match s.dropWhile isSchemeUnit with
    | u :: rest => if u = unit ':' then some (toLowerCase (s.takeWhile isSchemeUnit), rest) else none
    | [] => none
  else none

def isSlash (u : UInt16) : Bool := u = unit '/' || u = unit '\\'

/-- What the authority ends at. -/
def isAuthorityEnd (u : UInt16) : Bool := isSlash u || u = unit '?' || u = unit '#'

/-- What is before the last `@`, and what is after it. -/
def splitCredentials (authority : JsString) : Option JsString × JsString :=
  let host := authority.rtakeWhile fun u => u ≠ unit '@'
  if host.length = authority.length then (none, authority)
  else (some (authority.take (authority.length - host.length - 1)), host)

/-- What is before the first colon outside brackets, and what is after it. -/
def splitPort : (inBrackets : Bool) → JsString → JsString × Option JsString
  | _, [] => ([], none)
  | inBrackets, u :: rest =>
      if u = unit ':' ∧ inBrackets = false then ([], some rest)
      else
        let inBrackets := if u = unit '[' then true else if u = unit ']' then false else inBrackets
        (u :: (splitPort inBrackets rest).1, (splitPort inBrackets rest).2)

/-- A port as `url.port`; the default port is none. -/
def parsePort (defaultPort : Nat) : Option JsString → Option JsString
  | none => some []
  | some digits =>
      if digits = [] then some []
      else if digits.all isDigit ∧ digitsValue digits ≤ 65535 then
        some (if digitsValue digits = defaultPort then [] else digitUnits (digitsValue digits))
      else none

def isSingleDot (segment : JsString) : Bool :=
  [js ".", js "%2e"].contains (toLowerCase segment)

def isDoubleDot (segment : JsString) : Bool :=
  [js "..", js ".%2e", js "%2e.", js "%2e%2e"].contains (toLowerCase segment)

/-- The segments of a path, from those of the text; `path` has them from last to first. -/
def pathSegments (path : List JsString) : List JsString → List JsString
  | [] => path.reverse
  | segment :: rest =>
      let ended : List JsString := if rest = [] then [[]] else []
      if isDoubleDot segment then pathSegments (ended ++ path.tail) rest
      else if isSingleDot segment then pathSegments (ended ++ path) rest
      else pathSegments (percentEncode pathSet segment :: path) rest

/-- `url.pathname`, of the text up to the query. -/
def parsePath (text : JsString) : JsString :=
  let slashed := text.map fun u => if u = unit '\\' then unit '/' else u
  (pathSegments [] (splitAll (unit '/') (slashed.drop 1))).flatMap fun segment =>
    unit '/' :: segment

/-- `url.search` or `url.hash`: a sign and an encoded text, or nothing. -/
def signedText (set : List Char) (text : JsString) : JsString :=
  match text with
  | [] => []
  | [_] => []
  | sign :: rest => sign :: percentEncode set rest

/-! ### URLs -/

def defaultPort (protocol : JsString) : Nat := if protocol = js "wss" then 443 else 80

/-- A URL with the texts of its credentials and of what comes after its authority. -/
def urlOf (scheme hostname port : JsString) (credentials : Option JsString) (tail : JsString) :
    Url :=
  let userinfo := credentials.getD []
  let username := userinfo.takeWhile fun u => u ≠ unit ':'
  let afterPath := tail.dropWhile fun u => u ≠ unit '?' && u ≠ unit '#'
  { protocol := scheme ++ [unit ':']
    username := percentEncode userinfoSet username
    password := percentEncode userinfoSet (userinfo.drop (username.length + 1))
    hostname
    port
    pathname := parsePath (tail.takeWhile fun u => u ≠ unit '?' && u ≠ unit '#')
    search := signedText specialQuerySet (afterPath.takeWhile fun u => u ≠ unit '#')
    hash := signedText fragmentSet (afterPath.dropWhile fun u => u ≠ unit '#') }

/-- What comes after the scheme. -/
def parseAuthority (idna : Idna) (scheme rest : JsString) : Option Url :=
  let rest := rest.dropWhile isSlash
  let authority := splitCredentials (rest.takeWhile fun u => !isAuthorityEnd u)
  let hostPort := splitPort false authority.2
  if hostPort.1 = [] then none
  else
    match hostParser idna hostPort.1, parsePort (defaultPort scheme) hostPort.2 with
    | some hostname, some port =>
        some (urlOf scheme hostname port authority.1 (rest.dropWhile fun u => !isAuthorityEnd u))
    | _, _ => none

/-- `new URL(input)`. -/
def newUrl (idna : Idna) (input : JsString) : UrlResult :=
  match splitScheme (cleanInput input) with
  | none => .failure
  | some (scheme, rest) =>
      if scheme = js "wss" ∨ scheme = js "ws" then
        match parseAuthority idna scheme rest with
        | none => .failure
        | some u => .url u
      else .otherScheme

/-! ### The URL of an origin -/

/-- The text of a host that the parser takes as a whole. -/
structure IsHostText (host : JsString) : Prop where
  ne_nil : host ≠ []
  units : ∀ u ∈ host, 0x20 < u ∧ isAuthorityEnd u = false ∧ u ≠ unit '@'
  whole : ∀ rest, splitPort false (host ++ rest) =
    (host ++ (splitPort false rest).1, (splitPort false rest).2)

def portText : Option Nat → JsString
  | none => []
  | some port => unit ':' :: digitUnits port

/-- `${scheme}://${host}${port}`. -/
def originText (scheme host : JsString) (port : Option Nat) : JsString :=
  scheme ++ js "://" ++ host ++ portText port

theorem isDigit_bounds {u : UInt16} (h : isDigit u = true) : 48 ≤ u.toNat ∧ u.toNat ≤ 57 := by
  simp only [isDigit, Bool.and_eq_true, decide_eq_true_eq, UInt16.le_iff_toNat_le] at h
  exact h

theorem portText_units (port : Option Nat) :
    ∀ u ∈ portText port, 0x20 < u ∧ isAuthorityEnd u = false ∧ u ≠ unit '@' := by
  have hdigits : ∀ d, 48 ≤ d → d ≤ 57 → (0x20 : UInt16) < d.toUInt16 ∧
      isAuthorityEnd d.toUInt16 = false ∧ d.toUInt16 ≠ unit '@' := by
    intro d h h'
    interval_cases d <;> decide
  cases port with
  | none => exact nofun
  | some n =>
      refine List.forall_mem_cons.mpr ⟨by decide, ?_⟩
      intro u hu
      obtain ⟨h, h'⟩ := isDigit_bounds (digitUnits_isDigit n u hu)
      have hunit : u.toNat.toUInt16 = u := UInt16.ofNat_toNat
      rw [← hunit]
      exact hdigits u.toNat h h'

theorem cleanInput_of_printable {s : JsString} (h : ∀ u ∈ s, 0x20 < u) : cleanInput s = s := by
  have hne : ∀ u ∈ s, u ≠ 9 ∧ u ≠ 10 ∧ u ≠ 13 := by
    intro u hu
    have hu := h u hu
    refine ⟨?_, ?_, ?_⟩ <;> rintro rfl <;> exact absurd hu (by decide)
  have hnot : ∀ u ∈ s, ¬ decide (u ≤ 0x20) = true :=
    fun u hu hle => absurd (h u hu) (UInt16.not_lt.mpr (of_decide_eq_true hle))
  have hdrop : s.dropWhile (fun u => decide (u ≤ 0x20)) = s := by
    cases s with
    | nil => rfl
    | cons u rest => exact List.dropWhile_cons_of_neg (hnot u List.mem_cons_self)
  have hrdrop : s.rdropWhile (fun u => decide (u ≤ 0x20)) = s :=
    List.rdropWhile_eq_self_iff.mpr fun hl => hnot _ (List.getLast_mem hl)
  rw [cleanInput, hdrop, hrdrop, List.filter_eq_self]
  intro u hu
  simp only [Bool.and_eq_true, decide_eq_true_eq]
  exact ⟨⟨(hne u hu).1, (hne u hu).2.1⟩, (hne u hu).2.2⟩

theorem splitScheme_append {scheme rest : JsString} (hhead : scheme.head?.any isAlpha = true)
    (hunits : ∀ u ∈ scheme, isSchemeUnit u = true) :
    splitScheme (scheme ++ unit ':' :: rest) = some (toLowerCase scheme, rest) := by
  have hcolon : ¬ isSchemeUnit (unit ':') = true := by decide
  have htake : (scheme ++ unit ':' :: rest).takeWhile isSchemeUnit = scheme := by
    rw [List.takeWhile_append_of_pos hunits, List.takeWhile_cons_of_neg hcolon, List.append_nil]
  have hdrop : (scheme ++ unit ':' :: rest).dropWhile isSchemeUnit = unit ':' :: rest := by
    rw [List.dropWhile_append_of_pos hunits, List.dropWhile_cons_of_neg hcolon]
  have hstart : (scheme ++ unit ':' :: rest).head?.any isAlpha = true := by
    cases scheme with
    | nil => exact nomatch hhead
    | cons u scheme => exact hhead
  rw [splitScheme, if_pos hstart, hdrop, htake]
  exact if_pos rfl

theorem splitPort_portText (port : Option Nat) :
    splitPort false (portText port) = ([], port.map digitUnits) := by
  cases port with
  | none => rfl
  | some n => exact if_pos ⟨rfl, rfl⟩

theorem parsePort_digitUnits {default n : Nat} (hn : n ≤ 65535) :
    parsePort default (some (digitUnits n)) =
      some (if n = default then [] else digitUnits n) := by
  have hdigits : (digitUnits n).all isDigit = true := List.all_eq_true.mpr (digitUnits_isDigit n)
  rw [parsePort, if_neg (digitUnits_ne_nil n), digitsValue_digitUnits, if_pos ⟨hdigits, hn⟩]

/-- `url.port` is the text of a port that is not the default one, or nothing. -/
theorem parsePort_eq {default : Nat} {text : Option JsString} {port : JsString}
    (h : parsePort default text = some port) :
    port = [] ∨ ∃ n, n ≤ 65535 ∧ n ≠ default ∧ port = digitUnits n := by
  cases text with
  | none => exact Or.inl (Option.some.inj h).symm
  | some digits =>
      rw [parsePort] at h
      split at h
      · exact Or.inl (Option.some.inj h).symm
      · split at h
        · rename_i hvalid
          obtain rfl := Option.some.inj h
          split
          · exact Or.inl rfl
          · rename_i hdefault
            exact Or.inr ⟨_, hvalid.2, hdefault, rfl⟩
        · exact nomatch h

/-- The port of an origin as `url.port`. -/
def urlPort (scheme : JsString) (port : Option Nat) : JsString :=
  match port with
  | none => []
  | some n => if n = defaultPort scheme then [] else digitUnits n

theorem parseAuthority_origin {idna : Idna} {scheme host : JsString} {port : Option Nat}
    (hhost : IsHostText host) (hport : ∀ n ∈ port, n ≤ 65535) :
    parseAuthority idna scheme (js "//" ++ host ++ portText port) =
      (hostParser idna host).map fun hostname =>
        { protocol := scheme ++ [unit ':']
          username := []
          password := []
          hostname
          port := urlPort scheme port
          pathname := [unit '/']
          search := []
          hash := [] } := by
  have hunits : ∀ u ∈ host ++ portText port, 0x20 < u ∧ isAuthorityEnd u = false ∧ u ≠ unit '@' := by
    intro u hu
    rcases List.mem_append.mp hu with hu | hu
    · exact hhost.units u hu
    · exact portText_units port u hu
  have hslashes : (js "//" ++ host ++ portText port).dropWhile isSlash = host ++ portText port := by
    obtain ⟨u, rest, rfl⟩ := List.exists_cons_of_ne_nil hhost.ne_nil
    have hu : ¬ isSlash u = true := by
      intro h
      have hend := (hhost.units u List.mem_cons_self).2.1
      rw [isAuthorityEnd, h] at hend
      exact Bool.false_ne_true hend.symm
    have hslash : ∀ v ∈ js "//", isSlash v = true := by decide
    rw [List.append_assoc, List.dropWhile_append_of_pos hslash]
    exact List.dropWhile_cons_of_neg hu
  have hall : ∀ u ∈ host ++ portText port, (!isAuthorityEnd u) = true := by
    intro u hu
    rw [(hunits u hu).2.1]
    rfl
  have htake : (host ++ portText port).takeWhile (fun u => !isAuthorityEnd u) = host ++ portText port :=
    List.takeWhile_eq_self_iff.mpr hall
  have hdrop : (host ++ portText port).dropWhile (fun u => !isAuthorityEnd u) = [] :=
    List.dropWhile_eq_nil_iff.mpr hall
  have hcredentials : splitCredentials (host ++ portText port) = (none, host ++ portText port) := by
    have hself : (host ++ portText port).rtakeWhile (fun u => decide (u ≠ unit '@')) =
        host ++ portText port :=
      List.rtakeWhile_eq_self_iff.mpr fun u hu => decide_eq_true (hunits u hu).2.2
    rw [splitCredentials]
    rw [hself, if_pos rfl]
  have hparsed : parsePort (defaultPort scheme) (port.map digitUnits) = some (urlPort scheme port) := by
    cases port with
    | none => rfl
    | some n => exact parsePort_digitUnits (hport n rfl)
  rw [parseAuthority]
  rw [hslashes, htake, hdrop, hcredentials]
  dsimp only
  rw [hhost.whole, splitPort_portText, List.append_nil, if_neg hhost.ne_nil, hparsed]
  cases hostParser idna host with
  | none => rfl
  | some hostname => rfl

/-- **The URL of an origin.** -/
theorem newUrl_origin {idna : Idna} {scheme host : JsString} {port : Option Nat}
    (hscheme : scheme = js "wss" ∨ scheme = js "ws") (hhost : IsHostText host)
    (hport : ∀ n ∈ port, n ≤ 65535) :
    newUrl idna (originText scheme host port) =
      match hostParser idna host with
      | none => .failure
      | some hostname =>
          .url {
            protocol := scheme ++ [unit ':']
            username := []
            password := []
            hostname
            port := urlPort scheme port
            pathname := [unit '/']
            search := []
            hash := [] } := by
  have htext : originText scheme host port =
      scheme ++ unit ':' :: (js "//" ++ host ++ portText port) := by
    have hcolon : js "://" = unit ':' :: js "//" := by decide
    rw [originText, hcolon]
    simp only [List.append_assoc, List.cons_append]
  have hprintable : ∀ u ∈ originText scheme host port, 0x20 < u := by
    intro u hu
    have hname : ∀ u ∈ scheme ++ js "://", 0x20 < u := by
      rcases hscheme with rfl | rfl <;> decide
    rw [originText] at hu
    rcases List.mem_append.mp hu with hu | hu
    · rcases List.mem_append.mp hu with hu | hu
      · exact hname u hu
      · exact (hhost.units u hu).1
    · exact (portText_units port u hu).1
  have hsplit : splitScheme (scheme ++ unit ':' :: (js "//" ++ host ++ portText port)) =
      some (scheme, js "//" ++ host ++ portText port) := by
    rcases hscheme with rfl | rfl
    · exact splitScheme_append (by decide) (by decide)
    · exact splitScheme_append (by decide) (by decide)
  rw [newUrl, cleanInput_of_printable hprintable, htext, hsplit]
  dsimp only
  rw [if_pos hscheme, parseAuthority_origin hhost hport]
  cases hostParser idna host with
  | none => rfl
  | some hostname => rfl

/-- What is known of any URL that is parsed. -/
theorem newUrl_url {idna : Idna} {input : JsString} {u : Url} (h : newUrl idna input = .url u) :
    ∃ scheme, (scheme = js "wss" ∨ scheme = js "ws") ∧ u.protocol = scheme ++ [unit ':'] ∧
      (u.port = [] ∨ ∃ n, n ≤ 65535 ∧ n ≠ defaultPort scheme ∧ u.port = digitUnits n) := by
  rw [newUrl] at h
  split at h
  · exact nomatch h
  · rename_i scheme rest _
    split at h
    · rename_i hscheme
      split at h
      · exact nomatch h
      · rename_i url hurl
        obtain rfl := UrlResult.url.inj h
        rw [parseAuthority] at hurl
        split at hurl
        · exact nomatch hurl
        · split at hurl
          · rename_i port _ hport
            obtain rfl := Option.some.inj hurl
            exact ⟨scheme, hscheme, rfl, parsePort_eq hport⟩
          · exact nomatch hurl
    · exact nomatch h

end HuginAgent
