/-
`urllib.parse.urlsplit`.

Unlike `new URL` it only cuts the text up.  What it makes of brackets and of a netloc that is not
ASCII are checks of their own, and differ between versions of the library: they are parameters,
and all that is relied on is that they let the loopback address and any ASCII netloc without
brackets through.
-/
import HuginAgent.Py.Strings

namespace HuginAgent

/-- The standard library, as far as `urlsplit` and its result use it. -/
structure PyLibrary extends PyUnicode where
  /-- `_check_bracketed_netloc`, of a netloc with brackets. -/
  checkBrackets : PyString → Bool
  /-- `_checknetloc`. -/
  checkNetloc : PyString → Bool
  checkBrackets_loopback : ∀ port, checkBrackets (ofUnits (js "[::1]" ++ portText port)) = true
  checkNetloc_ascii : ∀ {t : JsString}, (∀ u ∈ t, isAscii u = true) → checkNetloc (ofUnits t) = true

namespace Py

structure SplitResult where
  scheme : PyString
  netloc : PyString
  path : PyString
  query : PyString
  fragment : PyString

/-- `s.partition(c)`: what is before the first `c`, and what is after it. -/
def partition (c : CodePoint) (s : PyString) : PyString × Option PyString :=
  (s.takeWhile fun p => p ≠ c, if c ∈ s then some ((s.dropWhile fun p => p ≠ c).drop 1) else none)

/-- `s.rpartition(c)`: what is before the last `c`, if there is one, and what is after it. -/
def rpartition (c : CodePoint) (s : PyString) : Option PyString × PyString :=
  let last := s.rtakeWhile fun p => p ≠ c
  (if c ∈ s then some (s.take (s.length - last.length - 1)) else none, last)

def isSchemePoint : CodePoint → Bool := inClass isSchemeUnit

/-- The scheme in lower case, and the rest. -/
def splitScheme (lib : PyLibrary) (url : PyString) : PyString × PyString :=
  match partition (point ':') url with
  | (name, some rest) =>
      if name.head?.any (inClass isAlpha) && name.all isSchemePoint then (lib.lower name, rest)
      else ([], url)
  | (_, none) => ([], url)

def isNetlocEnd (p : CodePoint) : Bool := p = point '/' || p = point '?' || p = point '#'

/-- The netloc, after two slashes, and the rest. -/
def splitNetloc (url : PyString) : PyString × PyString :=
  if (py "//").isPrefixOf url then
    ((url.drop 2).takeWhile fun p => !isNetlocEnd p, (url.drop 2).dropWhile fun p => !isNetlocEnd p)
  else ([], url)

/-- `urlsplit(url)`, or a `ValueError`. -/
def urlsplit (lib : PyLibrary) (url : PyString) : Option SplitResult :=
  let url := (url.dropWhile fun p => p.val ≤ 0x20).filter fun p =>
    p.val ≠ 9 && p.val ≠ 10 && p.val ≠ 13
  let scheme := splitScheme lib url
  let netloc := splitNetloc scheme.2
  if (netloc.1.contains (point '[')) ≠ (netloc.1.contains (point ']')) then none
  else if netloc.1.contains (point '[') ∧ lib.checkBrackets netloc.1 = false then none
  else
    let fragment := partition (point '#') netloc.2
    let query := partition (point '?') fragment.1
    if lib.checkNetloc netloc.1 then
      some ⟨scheme.1, netloc.1, query.1, query.2.getD [], fragment.2.getD []⟩
    else none

namespace SplitResult

variable (u : SplitResult)

def username : PyString :=
  match rpartition (point '@') u.netloc with
  | (some userinfo, _) => (partition (point ':') userinfo).1
  | (none, _) => []

def password : PyString :=
  match rpartition (point '@') u.netloc with
  | (some userinfo, _) => (partition (point ':') userinfo).2.getD []
  | (none, _) => []

/-- `_hostinfo`: an empty port is none. -/
def hostinfo : PyString × Option PyString :=
  let hostinfo := (rpartition (point '@') u.netloc).2
  let parts :=
    match partition (point '[') hostinfo with
    | (_, some bracketed) =>
        let closed := partition (point ']') bracketed
        (closed.1, (partition (point ':') (closed.2.getD [])).2)
    | (_, none) => partition (point ':') hostinfo
  (parts.1, parts.2.filter fun port => port ≠ [])

/-- `u.hostname`, without a zone put into lower case; it is empty where Python has none. -/
def hostname (lib : PyLibrary) : PyString :=
  let parts := partition (point '%') u.hostinfo.1
  lib.lower parts.1 ++
    match parts.2 with
    | some zone => point '%' :: zone
    | none => []

/-- `u.port`, or a `ValueError`. -/
def port : Option (Option Nat) :=
  match u.hostinfo.2 with
  | none => some none
  | some digits =>
      if digits.all (inClass isDigit) then
        let port := digitsValue (units digits)
        if port ≤ 65535 then some (some port) else none
      else none

end SplitResult

end Py

end HuginAgent
