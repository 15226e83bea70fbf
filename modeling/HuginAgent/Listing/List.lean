/-
The list of sessions, `SessionEnumerator.list` of `src/sessions/enumerator.ts`.

Every call scans the stores anew.  What passes the filter is sorted by time and then by key,
as the locale has it; the page after a cursor is taken by code units.  Each session that is
found is given a handle, or keeps the one it has.
-/
import HuginAgent.Js.Cursor
import HuginAgent.Listing.Sessions

namespace HuginAgent

/-- `a.localeCompare(b)`.  It is consistent, but strings that differ may be equal in it, and it
need not be the order of the code units. -/
structure Collation where
  compare : JsString → JsString → Int
  total : ∀ a b, compare a b ≤ 0 ∨ compare b a ≤ 0
  trans : ∀ a b c, compare a b ≤ 0 → compare b c ≤ 0 → compare a c ≤ 0

structure Enumerator where
  host : HistoryHost
  claudeProjectsDir : JsString
  codexSessionsDir : JsString
  allowlist : List JsString
  maxSubagentFiles : Option JsNumber
  collation : Collation
  /-- The handles that are drawn, one after the other. -/
  handles : Nat → JsString
  handles_injective : Function.Injective handles

/-! ### Requests -/

structure SessionListFilter where
  engine : Option HistoryEngine := none
  cwdPrefix : Option JsString := none
  activeOnly : Bool := false
  updatedAfter : Option JsString := none
  includeSubagents : Bool := false

structure SessionListPage where
  cursor : Option JsString := none
  limit : Nat

structure SessionListRequest where
  filter : SessionListFilter := {}
  page : Option SessionListPage := none

structure SessionListResult where
  sessions : List SessionInfo
  nextCursor : Option JsString
  truncated : Bool

/-! ### Handles -/

/-- The keys that have a handle, in the order in which it was drawn for them, and what each
handle stands for. -/
structure HandleTable where
  keyToHandle : List JsString
  handleToTarget : JsString → Option SessionHandleTarget

namespace Enumerator

def handleKey (target : SessionHandleTarget) : JsString :=
  target.engine.text ++ nul :: (target.sessionId ++ nul :: target.path)

variable (e : Enumerator)

/-- The handle that a table has for a session. -/
def handleOf (table : HandleTable) (target : SessionHandleTarget) : JsString :=
  e.handles (table.keyToHandle.idxOf (handleKey target))

def handleFor (target : SessionHandleTarget) (table : HandleTable) : HandleTable :=
  let keys :=
    if table.keyToHandle.contains (handleKey target) then table.keyToHandle
    else table.keyToHandle ++ [handleKey target]
  { keyToHandle := keys
    handleToTarget :=
      Function.update table.handleToTarget (e.handles (keys.idxOf (handleKey target))) (some target) }

/-- The table after the sessions of a scan. -/
def register (table : HandleTable) (found : List SessionCandidate) : HandleTable :=
  found.foldl (fun table c => e.handleFor c.target table) table

/-! ### The scan -/

def subagentFileLimit : Nat :=
  match e.maxSubagentFiles with
  | some (.finite configured) => (max 0 configured.trunc).toNat
  | _ => 2000

variable (fs : FileSystem e.host) (now : Decimal) (filter : SessionListFilter)

def claudeScan : ClaudeScan :=
  if filter.engine = some .codex then ⟨[], 0, false⟩
  else scanClaude fs e.subagentFileLimit e.claudeProjectsDir filter.includeSubagents

def codexScan : List FoundFile :=
  if filter.engine = some .claude then [] else scanCodex fs e.codexSessionsDir

/-- What is made of each file that the scan comes to. -/
def parsed : List (Except InvalidTime (Option SessionCandidate)) :=
  ((e.claudeScan fs filter).out ++ e.codexScan fs filter).map
    (parseFound fs now (realAllowlist fs e.allowlist))

/-- The candidates up to the first file whose date is not valid, and whether there is one. -/
def collect : List (Except InvalidTime (Option SessionCandidate)) → List SessionCandidate × Bool
  | [] => ([], false)
  | .error _ :: _ => ([], true)
  | .ok c :: rest => (c.toList ++ (collect rest).1, (collect rest).2)

def candidates : List SessionCandidate × Bool := collect (e.parsed fs now filter)

end Enumerator

/-! ### Filters -/

/-- `cwdMatchesPrefix`. -/
def cwdMatchesPrefix (cwd filterPrefix : JsString) : Bool :=
  let slashed := filterPrefix.map fun u => if u = unit '\\' then sep else u
  let p := (slashed.dropWhile fun u => u = sep).rdropWhile fun u => u = sep
  p = [] || p = js "." || cwd = p || (p ++ [sep]).isPrefixOf cwd

def SessionListFilter.passes (host : HistoryHost) (filter : SessionListFilter)
    (c : SessionCandidate) : Bool :=
  (!filter.activeOnly || c.active) &&
    (filter.includeSubagents || !c.isSubagent) &&
    (match (nonEmpty filter.updatedAfter).bind host.parseDate with
      | some time => decide (Decimal.ofInt time.ms < c.updatedMs)
      | none => true) &&
    (match nonEmpty filter.cwdPrefix with
      | some filterPrefix => cwdMatchesPrefix c.redacted filterPrefix
      | none => true)

/-- `b.updatedMs - a.updatedMs || a.cursorKey.localeCompare(b.cursorKey)` is not positive. -/
def Collation.sortsBefore (collation : Collation) (a b : SessionCandidate) : Bool :=
  b.updatedMs < a.updatedMs ||
    a.updatedMs = b.updatedMs && collation.compare a.cursorKey b.cursorKey ≤ 0

/-- The sessions that pass, in order. -/
def Enumerator.filtered (e : Enumerator) (filter : SessionListFilter)
    (found : List SessionCandidate) : List SessionCandidate :=
  (found.filter (filter.passes e.host)).insertionSort fun a b => e.collation.sortsBefore a b

/-! ### Cursors -/

structure ListCursor where
  updatedMs : Decimal
  cursorKey : JsString
deriving DecidableEq

def SessionCandidate.cursor (c : SessionCandidate) : ListCursor := ⟨c.updatedMs, c.cursorKey⟩

def encodeCursor (c : SessionCandidate) : JsString :=
  writeCursor [(js "v", .num (.ofInt 1)), (js "u", .num (.finite c.updatedMs)),
    (js "k", .str c.cursorKey)]

def decodeCursor (host : HistoryHost) (cursor : Option JsString) : Option ListCursor :=
  match (nonEmpty cursor).bind readCursor with
  | some parsed =>
      match parsed.loaded host.number with
      | .obj obj =>
          match JsObject.get obj (js "u"), JsObject.get obj (js "k") with
          | .num (.finite updatedMs), .str cursorKey => some ⟨updatedMs, cursorKey⟩
          | _, _ => none
      | _ => none
  | none => none

/-- Is a session after the cursor? -/
def ListCursor.isBefore (cursor c : ListCursor) : Bool :=
  c.updatedMs < cursor.updatedMs ||
    c.updatedMs = cursor.updatedMs && cursor.cursorKey < c.cursorKey

/-- What is left after a cursor; one that no session has is not looked at. -/
def afterCursor (filtered : List SessionCandidate) : Option ListCursor → List SessionCandidate
  | none => filtered
  | some cursor =>
      if filtered.any fun c => c.cursor = cursor then
        filtered.filter fun c => cursor.isBefore c.cursor
      else filtered

/-! ### The list -/

def maxResponseSessions : Nat := 256

namespace Enumerator

variable (e : Enumerator)

def list (fs : FileSystem e.host) (now : Decimal) (req : SessionListRequest) (table : HandleTable) :
    Except InvalidTime SessionListResult × HandleTable :=
  if realAllowlist fs e.allowlist = [] then (.ok ⟨[], none, false⟩, table)
  else
    let found := e.candidates fs now req.filter
    let table := e.register table found.1
    if found.2 then (.error .rangeError, table)
    else
      let filtered := e.filtered req.filter found.1
      let left := afterCursor filtered (decodeCursor e.host (req.page.bind fun page => page.cursor))
      let requestedLimit := (req.page.map fun page => page.limit).getD maxResponseSessions
      let limit := max 1 (min requestedLimit maxResponseSessions)
      let page := left.take limit
      let pageTruncated : Bool := limit < left.length
      (.ok {
        sessions := page.map fun c => c.info (e.handleOf table c.target)
        nextCursor := if pageTruncated then page.getLast?.map encodeCursor else none
        truncated := pageTruncated || (e.claudeScan fs req.filter).capReached }, table)

/-- Ask for a page, and for the one after it while there is a cursor.  It is `clock k` when the
`k`th page is asked for. -/
def followList (fs : FileSystem e.host) (clock : Nat → Decimal) (filter : SessionListFilter)
    (limit : Nat) : (fuel k : Nat) → Option JsString → HandleTable → Option (List SessionListResult)
  | 0, _, _, _ => none
  | fuel + 1, k, cursor, table =>
      match e.list fs (clock k) { filter, page := some { cursor, limit } } table with
      | (.error _, _) => none
      | (.ok page, table) =>
          match page.nextCursor with
          | none => some [page]
          | some next =>
              (followList fs clock filter limit fuel (k + 1) (some next) table).map (page :: ·)

end Enumerator

end HuginAgent
