/-
The session stores and the files that a listing reads, `src/sessions/enumerator.ts`.

Claude keeps a directory for each project with a file for each session, and below a directory
named after the session the files of its subagents.  Codex keeps a tree of directories by
date.  The scan is told in two parts: which files it comes to, in order, and what it makes of
each (`Listing/Sessions.lean`); in the source it reads each file as it comes to it.
-/
import HuginAgent.History.Records
import HuginAgent.Js.Buffer
import HuginAgent.Js.Order
import HuginAgent.Js.Strings

namespace HuginAgent

/-! ### The file system -/

inductive FileKind
  | file
  | directory
  | other
deriving DecidableEq

structure DirEntry where
  name : JsString
  kind : FileKind

/-- A regular file.  Its time is a double, so as text it reads back as itself. -/
structure StoredFile (host : HistoryHost) where
  bytes : List UInt8
  mtimeMs : Decimal
  double : host.number mtimeMs = .finite mtimeMs

/-- What the daemon sees of the file system: the entries of a directory, none where it cannot be
read; the regular files that can be opened; and where a path leads. -/
structure FileSystem (host : HistoryHost) where
  safeReadDir : JsString → List DirEntry
  file : JsString → Option (StoredFile host)
  /-- No path that can be opened holds a NUL. -/
  file_path : ∀ path, (file path).isSome → (0 : UInt16) ∉ path
  realpath : JsString → Option JsString

def maxSessionBytes : Nat := 64 * 1024 * 1024

structure ReadSessionFile where
  path : JsString
  content : JsString
  mtimeMs : Decimal

def readSessionFile {host : HistoryHost} (fs : FileSystem host) (path : JsString) :
    Option ReadSessionFile :=
  match fs.file path with
  | none => none
  | some file =>
      if maxSessionBytes < file.bytes.length then none
      else some { path, content := utf8Decode file.bytes, mtimeMs := file.mtimeMs }

/-! ### Names -/

/-- `[0-9a-fA-F]`. -/
def isHexUnit (u : UInt16) : Bool := isDigit u || (65 ≤ u && u ≤ 70) || (97 ≤ u && u ≤ 102)

/-- `UUID_PATTERN`, and nothing else. -/
def isUuidText (s : JsString) : Bool :=
  s.length = 36 && s.zipIdx.all fun p =>
    if p.2 = 8 ∨ p.2 = 13 ∨ p.2 = 18 ∨ p.2 = 23 then p.1 = unit '-' else isHexUnit p.1

/-- What comes before a suffix of a name. -/
def beforeSuffix (suffix name : JsString) : Option JsString :=
  if suffix.isSuffixOf name then some (name.take (name.length - suffix.length)) else none

/-- `CLAUDE_FILE_RE`. -/
def claudeFileId (name : JsString) : Option JsString :=
  (beforeSuffix (js ".jsonl") name).filter isUuidText

/-- What `.` of a regular expression does not match. -/
def isLineTerminator (u : UInt16) : Bool := u = 10 || u = 13 || u = 0x2028 || u = 0x2029

/-- `CODEX_FILE_RE`. -/
def codexFileId (name : JsString) : Option JsString :=
  match beforeSuffix (js ".jsonl") name with
  | none => none
  | some stem =>
      let id := stem.drop (stem.length - 36)
      let before := stem.take (stem.length - 36)
      let middle := (before.drop 8).dropLast
      if isUuidText id && before = js "rollout-" ++ middle ++ js "-" && middle ≠ [] &&
          middle.all fun u => !isLineTerminator u then some id else none

/-! ### The scan -/

/-- A file that the scan comes to. -/
structure FoundFile where
  engine : HistoryEngine
  path : JsString
  sessionId : JsString
  isSubagent : Bool
deriving DecidableEq

/-- `out`, and `SubagentScanState`. -/
structure ClaudeScan where
  out : List FoundFile
  files : Nat
  capReached : Bool

def ClaudeScan.push (file : FoundFile) (st : ClaudeScan) : ClaudeScan :=
  { st with out := st.out ++ [file] }

section

variable {host : HistoryHost} (fs : FileSystem host)

/-- `basename(name, ".jsonl")`, where it is not empty. -/
def subagentFileId (name : JsString) : Option JsString :=
  nonEmpty (beforeSuffix (js ".jsonl") name)

/-- A file below a session's directory counts before it is looked at. -/
def scanSubagentFile (maxFiles : Nat) (path name : JsString) (st : ClaudeScan) : ClaudeScan :=
  match beforeSuffix (js ".jsonl") name with
  | none => st
  | some _ =>
      if maxFiles ≤ st.files then { st with capReached := true }
      else
        let st := { st with files := st.files + 1 }
        match subagentFileId name with
        | none => st
        | some sessionId => st.push ⟨.claude, path, sessionId, true⟩

/-- `scanClaudeSubagentDir`; `levels` is how many more levels the depth allows. -/
def scanClaudeSubagentDir (maxFiles : Nat) : (levels : Nat) → JsString → ClaudeScan → ClaudeScan
  | 0, _, st => st
  | levels + 1, dir, st =>
      if st.capReached then st
      else
        (fs.safeReadDir dir).foldl (fun st entry =>
          if st.capReached then st
          else
            let path := joinPath dir entry.name
            match entry.kind with
            | .directory => scanClaudeSubagentDir maxFiles levels path st
            | .file => scanSubagentFile maxFiles path entry.name st
            | .other => st) st

/-- `depth > 12` ends the descent. -/
def depthLevels : Nat := 13

def scanClaudeEntry (maxFiles : Nat) (includeSubagents : Bool) (projectDir : JsString)
    (st : ClaudeScan) (entry : DirEntry) : ClaudeScan :=
  let path := joinPath projectDir entry.name
  match entry.kind with
  | .file =>
      match claudeFileId entry.name with
      | none => st
      | some sessionId => st.push ⟨.claude, path, sessionId, false⟩
  | .directory =>
      if includeSubagents && isUuidText entry.name then
        scanClaudeSubagentDir fs maxFiles depthLevels (joinPath path (js "subagents")) st
      else st
  | .other => st

def scanClaude (maxFiles : Nat) (claudeProjectsDir : JsString) (includeSubagents : Bool) :
    ClaudeScan :=
  (fs.safeReadDir claudeProjectsDir).foldl (fun st project =>
    if project.kind = .directory then
      let projectDir := joinPath claudeProjectsDir project.name
      (fs.safeReadDir projectDir).foldl (scanClaudeEntry fs maxFiles includeSubagents projectDir) st
    else st) ⟨[], 0, false⟩

def scanCodexDir : (levels : Nat) → JsString → List FoundFile
  | 0, _ => []
  | levels + 1, dir =>
      (fs.safeReadDir dir).flatMap fun entry =>
        let path := joinPath dir entry.name
        match entry.kind with
        | .directory => scanCodexDir levels path
        | .file =>
            match codexFileId entry.name with
            | none => []
            | some sessionId => [⟨.codex, path, sessionId, false⟩]
        | .other => []

def scanCodex (codexSessionsDir : JsString) : List FoundFile :=
  scanCodexDir fs depthLevels codexSessionsDir

end

example : codexFileId (js "rollout-2026-07-06-11111111-1111-4111-8111-111111111111.jsonl") =
    some (js "11111111-1111-4111-8111-111111111111") := by
  decide +kernel

end HuginAgent
