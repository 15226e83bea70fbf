/-
What a listing makes of a session file, `src/sessions/enumerator.ts`.

The first 80 records are read for where the session ran, what it is called and what kind it
is.  A session counts when the directory it ran in is, by where the path leads now, in an
allow-listed root, and it is shown under its path from that root.
-/
import HuginAgent.History.Build
import HuginAgent.Listing.Files

namespace HuginAgent

/-! ### Scope -/

structure ScopedCwd where
  abs : JsString
  redacted : JsString
deriving DecidableEq

/-- `relative(root, real)`, where `real` is `root` or below it. -/
def relativePath (root real : JsString) : JsString := real.drop (root.length + 1)

section

variable {host : HistoryHost} (fs : FileSystem host)

def realAllowlist (allowlist : List JsString) : List JsString := allowlist.filterMap fs.realpath

/-- The longest root that holds the directory, the first of them where there are several. -/
def scopeCwd (cwd : JsString) (allowed : List JsString) : Option ScopedCwd :=
  match fs.realpath cwd with
  | none => none
  | some real =>
      let roots := (allowed.filter fun root => real = root || (root ++ [sep]).isPrefixOf real).insertionSort
        fun a b => b.length ≤ a.length
      match nonEmpty roots.head? with
      | none => none
      | some root =>
          let rel := relativePath root real
          some ⟨real, if rel = [] then js "." else rel⟩

end

/-! ### Heads -/

/-- `content.split(/\r?\n/)` without what is blank. -/
def jsonlLines (content : JsString) : List JsString :=
  (splitRecords content).filter fun line => trim line ≠ []

def headRecordLimit : Nat := 80

def parseHead (host : HistoryHost) (lines : List JsString) : List JsObject :=
  (lines.take headRecordLimit).filterMap (parseRecord host)

/-- `stringField` of a listing: an empty string is none. -/
def filledField (obj : Option JsObject) (key : String) : Option JsString :=
  nonEmpty (stringField obj key)

/-- A field of the first record that has it. -/
def headField (head : List JsObject) (key : String) : Option JsString :=
  head.findSome? fun (record : JsObject) => filledField record key

def titleMax : Nat := 80

/-- `replace(/\s+/g, " ")`, on a text after a unit that was white space or not. -/
def collapseWhite : (afterWhite : Bool) → JsString → JsString
  | _, [] => []
  | afterWhite, u :: text =>
      if isWhite u then
        if afterWhite then collapseWhite true text else unit ' ' :: collapseWhite true text
      else u :: collapseWhite false text

def cleanLabel (value : Option JsString) : Option JsString :=
  match nonEmpty (value.map fun s => trim (collapseWhite false s)) with
  | none => none
  | some label =>
      if label.length ≤ titleMax then some label
      else some ((label.take (titleMax - 3)).rdropWhile isWhite ++ js "...")

mutual

/-- `contentToText`. -/
def contentToText : JsValue → Option JsString
  | .str s => some s
  | .arr items =>
      match contentParts items with
      | [] => none
      | parts => some (join ' ' parts)
  | .obj fields => (fieldToText (js "text") fields).or (fieldToText (js "content") fields)
  | _ => none

/-- The texts of the parts of an array.  A part that is an array has none. -/
def contentParts : List JsValue → List JsString
  | [] => []
  | .str s :: rest => s :: contentParts rest
  | .obj fields :: rest =>
      ((fieldToText (js "text") fields).or (fieldToText (js "content") fields)).toList ++
        contentParts rest
  | _ :: rest => contentParts rest

/-- `contentToText(obj[key])`. -/
def fieldToText (key : JsString) : JsObject → Option JsString
  | [] => none
  | p :: rest => if p.1 = key then contentToText p.2 else fieldToText key rest

end

def findClaudeTitle (head : List JsObject) : Option JsString :=
  head.findSome? fun (record : JsObject) =>
    if stringField record "type" = some (js "ai-title") then
      cleanLabel ((((filledField record "title").or (filledField record "summary")).or
        (filledField record "text")).or (contentToText (fieldOf record "message")))
    else none

def isProgrammaticClaude (head : List JsObject) : Bool :=
  (headField head "entrypoint").any fun entrypoint => (js "sdk").isPrefixOf entrypoint

def genericSessionTitle (engine : HistoryEngine) (redactedCwd absCwd : JsString) : JsString :=
  let base := basename (if redactedCwd = js "." then absCwd else redactedCwd)
  let cwdBase := if base = [] then js "." else base
  (cleanLabel (some (engine.text ++ js " · " ++ cwdBase))).getD (engine.text ++ js " session")

def stableSessionId (host : HistoryHost) (engine : HistoryEngine) (rawSessionId : JsString) :
    JsString :=
  js "s_" ++ (hexText (host.sha256 (engine.text ++ nul :: rawSessionId))).take 32

/-! ### Sessions -/

structure SessionHandleTarget where
  engine : HistoryEngine
  sessionId : JsString
  cwd : JsString
  path : JsString
  mtime : Decimal
deriving DecidableEq

structure SessionInfo where
  handle : JsString
  sessionId : JsString
  engine : HistoryEngine
  cwd : JsString
  gitBranch : Option JsString
  cliVersion : Option JsString
  title : JsString
  createdAt : JsString
  updatedAt : JsString
  active : Bool
  isSubagent : Bool
  msgCount : Nat
deriving DecidableEq

/-- A candidate, without the handle that it is given when it is found. -/
structure SessionCandidate where
  target : SessionHandleTarget
  stableId : JsString
  redacted : JsString
  gitBranch : Option JsString
  cliVersion : Option JsString
  title : JsString
  createdAt : JsString
  updatedAt : JsString
  active : Bool
  isSubagent : Bool
  msgCount : Nat
deriving DecidableEq

namespace SessionCandidate

def updatedMs (c : SessionCandidate) : Decimal := c.target.mtime

def cursorKey (c : SessionCandidate) : JsString :=
  c.target.engine.text ++ unit ':' :: c.target.sessionId

def info (c : SessionCandidate) (handle : JsString) : SessionInfo where
  handle := handle
  sessionId := c.stableId
  engine := c.target.engine
  cwd := c.redacted
  gitBranch := c.gitBranch
  cliVersion := c.cliVersion
  title := c.title
  createdAt := c.createdAt
  updatedAt := c.updatedAt
  active := c.active
  isSubagent := c.isSubagent
  msgCount := c.msgCount

end SessionCandidate

/-- `toISOString` of a date that is not valid. -/
inductive InvalidTime
  | rangeError
deriving DecidableEq

def activeWindowMs : Nat := 15 * 60 * 1000

/-- `now - mtimeMs <= ACTIVE_WINDOW_MS`. -/
def isActive (now mtimeMs : Decimal) : Bool := now.value - mtimeMs.value ≤ activeWindowMs

section

variable {host : HistoryHost} (fs : FileSystem host) (now : Decimal) (allowed : List JsString)

/-- What both engines' sessions are made of. -/
def sessionCandidate (engine : HistoryEngine) (file : ReadSessionFile) (sessionId : JsString)
    (scope : ScopedCwd) (gitBranch cliVersion : Option JsString) (timestamp : JsValue)
    (title : Option JsString) (isSubagent : Bool) (msgCount : Nat) :
    Except InvalidTime (Option SessionCandidate) :=
  match timeClip file.mtimeMs with
  | none => .error .rangeError
  | some updated =>
      .ok (some {
        target := { engine, sessionId, cwd := scope.abs, path := file.path, mtime := file.mtimeMs }
        stableId := stableSessionId host engine sessionId
        redacted := scope.redacted
        gitBranch
        cliVersion
        title := title.getD (genericSessionTitle engine scope.redacted scope.abs)
        createdAt := (isoFromUnknown host timestamp).getD updated.toISOString
        updatedAt := updated.toISOString
        active := isActive now file.mtimeMs
        isSubagent
        msgCount })

def parseClaudeFile (file : ReadSessionFile) (sessionId : JsString) (isSubagent : Bool) :
    Except InvalidTime (Option SessionCandidate) :=
  let lines := jsonlLines file.content
  let head := parseHead host lines
  match (headField head "cwd").bind fun cwd => scopeCwd fs cwd allowed with
  | none => .ok none
  | some scope =>
      @sessionCandidate host now .claude file sessionId scope (headField head "gitBranch")
        (headField head "version") (fieldOf head.head? "timestamp") (findClaudeTitle head)
        (isSubagent || isProgrammaticClaude head) lines.length

def parseCodexFile (file : ReadSessionFile) (fileSessionId : JsString) :
    Except InvalidTime (Option SessionCandidate) :=
  let lines := jsonlLines file.content
  let first := (parseHead host lines).head?
  match objectField first "payload" with
  | none => .ok none
  | some payload =>
      if stringField first "type" = some (js "session_meta") then
        match (filledField payload "cwd").bind fun cwd => scopeCwd fs cwd allowed with
        | none => .ok none
        | some scope =>
            let isSubagentObj := (objectField payload "source").any fun source =>
              (JsObject.keys source).contains (js "subagent")
            let isExec := filledField payload "source" = some (js "exec") ||
              filledField payload "originator" = some (js "codex_exec")
            @sessionCandidate host now .codex file ((filledField payload "id").getD fileSessionId)
              scope none (filledField payload "cli_version") (fieldOf payload "timestamp") none
              (isSubagentObj || isExec) lines.length
      else .ok none

/-- What is made of a file that the scan comes to. -/
def parseFound (found : FoundFile) : Except InvalidTime (Option SessionCandidate) :=
  match readSessionFile fs found.path with
  | none => .ok none
  | some file =>
      match found.engine with
      | .claude => parseClaudeFile fs now allowed file found.sessionId found.isSubagent
      | .codex => parseCodexFile fs now allowed file found.sessionId

end

end HuginAgent
