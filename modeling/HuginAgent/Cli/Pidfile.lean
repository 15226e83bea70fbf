/-
The pidfile of the command line, `src/cli.ts`.

`start`, `stop` and `status` are processes of their own and meet in one file.  A start creates it
exclusively and writes its claim, and puts the record of its daemon in its place by a rename.  What
is found there is judged by a `statSync`, a `readFileSync` and a look at the processes named, and
what is judged stale is unlinked after a second `statSync` has shown the same file.

The model has a call for each of these, and the rest of a process is a program between calls.  The
file has an identity of its own beside the inode number, which may be used again; who created it,
what each process last read and where each start stands are notes that no program sees.
-/
import HuginAgent.Cli.Ownership
import HuginAgent.Kit.Concurrent

namespace HuginAgent

namespace Cli

abbrev Pid := Nat

deriving instance DecidableEq for PidRecord

structure ClaimRecord where
  startedAt : Nat
  ownerPid : Option Pid
deriving DecidableEq

/-- What `Number` and `JSON.parse` make of the trimmed text of the file: it is empty, an integer, an
object with the members of a record, one with those of a claim, or something else. -/
inductive PidfileText
  | blank
  | number (n : Nat)
  | record (r : PidRecord)
  | claim (c : ClaimRecord)
  | other
deriving DecidableEq

structure PidfileFingerprint where
  dev : Nat
  ino : Nat
  mtimeMs : Nat
  size : Nat
deriving DecidableEq

inductive PidfileSnapshot
  | none
  | record (r : PidRecord) (fingerprint : PidfileFingerprint)
  | claim (c : ClaimRecord) (fingerprint : PidfileFingerprint)
  | invalid (fingerprint : PidfileFingerprint)

structure LifecycleResult where
  code : Nat
  message : JsString

/-- `ACTIVE_CLAIM_GRACE_MS`. -/
def activeClaimGraceMs : Nat := 2000

/-- The `code` of what is thrown. -/
inductive Failure
  | enoent
  | eexist
  | other
deriving DecidableEq

/-- How a child ended, as its `exit` event tells. -/
structure ChildExit where
  code : Option Nat
  signal : Option JsString

/-! ### The calls -/

inductive Call
  /-- `openSync(pidfile, "wx")`. -/
  | openExclusive
  /-- `writeFileSync(fd, …)`. -/
  | writeClaim (fd : Nat) (claim : ClaimRecord)
  /-- `statSync(pidfile)`. -/
  | stat
  /-- `readFileSync(pidfile)`. -/
  | read
  /-- `rmSync(pidfile, { force: true })`. -/
  | unlink
  /-- `writeFileSync(tmp, …, { flag: "wx" })`. -/
  | writeTmp (record : PidRecord)
  /-- `renameSync(tmp, pidfile)`. -/
  | renameTmp
  /-- `rmSync(tmp, { force: true })`. -/
  | removeTmp
  /-- `process.kill(pid, 0)`. -/
  | probe (pid : Pid)
  /-- `process.kill(pid, signal)`; `ESRCH` is no failure. -/
  | kill (pid : Pid)
  /-- `ps -p pid -o command=`, matched with the command of the record. -/
  | ps (pid : Pid) (cmd : JsString)
  /-- `Date.now()`. -/
  | now
  /-- `openSync(logfile, "a")`. -/
  | openLog
  /-- `statSync(logfile).size`. -/
  | logSize
  /-- `readFileSync(logfile)`, searched for the marker. -/
  | logHas (marker : JsString) (offset : Nat)
  /-- `readFileSync(logfile)`, its last lines. -/
  | logTail
  /-- `spawn(command, args, …)`, and the `pid` of the child. -/
  | spawn (cmd : JsString)
  /-- `childState.spawnError`. -/
  | spawnError
  /-- `childState.exit` of this child. -/
  | childExit (pid : Pid)

/-- What a call answers when it does not fail. -/
abbrev Call.Reply : Call → Type
  | openExclusive => Nat
  | stat => PidfileFingerprint
  | read => PidfileText
  | probe _ => Bool
  | ps _ _ => ProcessMatch
  | now => Nat
  | logSize => Nat
  | logHas _ _ => Bool
  | logTail => JsString
  | spawn _ => Option Pid
  | spawnError => Option JsString
  | childExit _ => Option ChildExit
  | _ => Unit

abbrev Script := Prog Call Call.Reply Failure

def ask (c : Call) : Script c.Reply := Prog.ask c

/-! ### Reading the file -/

def isPidRecord (record : PidRecord) : Bool := 0 < record.pid

def isClaimRecord (claim : ClaimRecord) : Bool := claim.ownerPid.all fun pid => 0 < pid

/-- What a text is taken for, with the fingerprint of the file. -/
def PidfileText.snapshot (text : PidfileText) (fingerprint : PidfileFingerprint) :
    PidfileSnapshot :=
  match text with
  | number n => if 0 < n then .record ⟨n, []⟩ fingerprint else .invalid fingerprint
  | record r => if isPidRecord r then .record r fingerprint else .invalid fingerprint
  | claim c => if isClaimRecord c then .claim c fingerprint else .invalid fingerprint
  | blank | other => .invalid fingerprint

def PidfileSnapshot.fingerprint : PidfileSnapshot → Option PidfileFingerprint
  | none => Option.none
  | record _ fingerprint | claim _ fingerprint | invalid fingerprint => some fingerprint

/-- `if (e.code === "ENOENT") return …; throw e;`. -/
def orAbsent {α : Type} (p : Script α) : Script (Option α) :=
  tryCatch (do let a ← p; pure (some a)) fun e => if e = .enoent then pure none else throw e

def readPidfileSnapshot : Script PidfileSnapshot := do
  match ← orAbsent (ask .stat) with
  | none => pure .none
  | some fingerprint =>
      match ← orAbsent (ask .read) with
      | none => pure .none
      | some text => pure (text.snapshot fingerprint)

def readRecord : Script (Option PidRecord) := do
  match ← readPidfileSnapshot with
  | .record r _ => pure (some r)
  | _ => pure none

def removePidfile : Script Unit := ask .unlink

def isPidAlive (pid : Pid) : Script Bool :=
  if pid = 0 then pure false else ask (.probe pid)

/-- `processMatches`, which asks `ps` only about a command. -/
def matchProcess (pid : Pid) (cmd : JsString) : Script ProcessMatch :=
  if trim cmd = [] then pure .unknown else ask (.ps pid cmd)

def isFreshFingerprint (fingerprint : PidfileFingerprint) : Script Bool := do
  let now ← ask .now
  pure (now < fingerprint.mtimeMs + activeClaimGraceMs)

def isActiveClaim (claim : ClaimRecord) (fingerprint : PidfileFingerprint) : Script Bool :=
  match claim.ownerPid with
  | some ownerPid => isPidAlive ownerPid
  | none => isFreshFingerprint fingerprint

/-- `legacy ? "unknown" : processMatches(record.pid, record.cmd)`. -/
def matchRecord (record : PidRecord) : Script ProcessMatch :=
  if isLegacyRecord record then pure .unknown else matchProcess record.pid record.cmd

structure PidfileInspection extends Inspection where
  snapshot : PidfileSnapshot

/-- An inspection of what is no record. -/
def inspected (state : PidfileState) (snapshot : PidfileSnapshot) : PidfileInspection :=
  ⟨⟨state, none, none, false⟩, snapshot⟩

def inspectPidfile : Script PidfileInspection := do
  let snapshot ← readPidfileSnapshot
  match snapshot with
  | .none => pure (inspected .none snapshot)
  | .claim c fingerprint => do
      let active ← isActiveClaim c fingerprint
      pure (inspected (if active then .starting else .stale) snapshot)
  | .invalid fingerprint => do
      let fresh ← isFreshFingerprint fingerprint
      pure (inspected (if fresh then .starting else .stale) snapshot)
  | .record r _ => do
      let alive ← isPidAlive r.pid
      if alive then do
        let ownership ← matchRecord r
        let state := if ownership = .no then .stale else .running
        pure ⟨⟨state, some r, some ownership, isLegacyRecord r⟩, snapshot⟩
      else pure ⟨⟨.stale, some r, none, isLegacyRecord r⟩, snapshot⟩

/-! ### Removing the file -/

def sameFingerprint (a b : PidfileFingerprint) : Bool :=
  a.dev = b.dev && a.ino = b.ino && a.mtimeMs = b.mtimeMs && a.size = b.size

/-- The end of both removals: a second `statSync`, and the unlink if it shows the same file. -/
def removeIfSame (fingerprint : PidfileFingerprint) : Script Bool := do
  match ← orAbsent (ask .stat) with
  | none => pure false
  | some current =>
      if sameFingerprint current fingerprint then do
        removePidfile
        pure true
      else pure false

def removePidfileIfUnchanged (snapshot : PidfileSnapshot) : Script Bool :=
  match snapshot.fingerprint with
  | none => pure false
  | some fingerprint => removeIfSame fingerprint

def removePidfileIfHoldsPid (pid : Pid) : Script Bool := do
  match ← readPidfileSnapshot with
  | .record r fingerprint =>
      if r.pid = pid then removeIfSame fingerprint else pure false
  | _ => pure false

def pidfileHoldsPid (pid : Pid) : Script Bool := do
  let record ← readRecord
  pure (record.any fun r => r.pid = pid)

/-! ### What the calls do -/

/-- The file at the path.  `id` tells files apart, `owner` is the process that created it. -/
structure PidFile where
  id : Nat
  owner : Option Pid
  fingerprint : PidfileFingerprint
  text : PidfileText
deriving DecidableEq

/-- Where the start of a process stands: it has not claimed the file or has given it back, has
created it, has written its claim, has a child, has put the record of the child there. -/
inductive Standing
  | idle
  | opened (fd : Nat)
  | claimed
  | spawned (child : Pid)
  | recorded (child : Pid)
deriving DecidableEq

namespace Standing

/-- Between the claim and the record. -/
def isClaiming : Standing → Bool
  | opened _ | claimed | spawned _ => true
  | idle | recorded _ => false

/-- The file is given back; a child that was spawned is left to itself. -/
def release : Standing → Standing
  | opened _ | claimed | idle => idle
  | spawned child | recorded child => recorded child

end Standing

structure World where
  /-- `Date.now()`. -/
  clock : Nat
  file : Option PidFile
  nextId : Nat
  /-- What each process has written beside the pidfile and not yet renamed. -/
  tmp : Pid → Option PidFile
  /-- The pids that were given out. -/
  used : Pid → Bool
  alive : Pid → Bool
  /-- The pids that were given to daemons. -/
  daemon : Pid → Bool
  standing : Pid → Standing
  /-- The file that each process last read, and the one that it last had the status of. -/
  lastRead : Pid → Option PidFile
  lastStat : Pid → Option PidFile

/-- What a call leaves open: whether it fails, whether the log is there, the inode of a new file, the
pid of a child, and what the log, `ps` and the events of a child tell. -/
inductive Chance
  | none
  | fails
  | missing
  | inode (dev ino size : Nat)
  | child (pid : Pid)
  | noChild
  | tells (b : Bool)
  | size (n : Nat)
  | text (s : JsString)
  | spawnError (s : Option JsString)
  | matched (m : ProcessMatch)
  | exited (exit : Option ChildExit)

/-- May the call fail for a reason of its own? -/
def Call.fallible : Call → Bool
  | probe _ | ps _ _ | now | spawnError | childExit _ => false
  | _ => true

namespace World

/-- A call that goes well.  No pid is given out twice, `ps` is never wrong about a daemon, and a
child whose end is told has ended.  A signal changes nothing by itself: whoever obeys it ends later. -/
def succeed (w : World) (me : Pid) : (c : Call) → Chance → Option (Except Failure c.Reply × World)
  | .openExclusive, .inode dev ino _ =>
      match w.file with
      | some _ => some (.error .eexist, w)
      | none =>
          some (.ok w.nextId, { w with
            file := some ⟨w.nextId, some me, ⟨dev, ino, w.clock, 0⟩, .blank⟩
            nextId := w.nextId + 1
            standing := Function.update w.standing me (.opened w.nextId) })
  | .writeClaim fd claim, .inode _ _ size =>
      some (.ok (), { w with
        file := w.file.map fun f =>
          if f.id = fd then
            { f with fingerprint := { f.fingerprint with mtimeMs := w.clock, size },
                     text := .claim claim }
          else f
        standing := Function.update w.standing me .claimed })
  | .stat, .none =>
      some (match w.file with
        | none => .error .enoent
        | some f => .ok f.fingerprint, { w with lastStat := Function.update w.lastStat me w.file })
  | .read, .none =>
      some (match w.file with
        | none => .error .enoent
        | some f => .ok f.text, { w with lastRead := Function.update w.lastRead me w.file })
  | .unlink, .none =>
      some (.ok (), { w with
        file := none
        standing := Function.update w.standing me (w.standing me).release })
  | .writeTmp record, .inode dev ino size =>
      some (.ok (), { w with
        tmp := Function.update w.tmp me
          (some ⟨w.nextId, some me, ⟨dev, ino, w.clock, size⟩, .record record⟩)
        nextId := w.nextId + 1 })
  | .renameTmp, .none =>
      match w.tmp me with
      | none => some (.error .enoent, w)
      | some f =>
          some (.ok (), { w with
            file := some f
            tmp := Function.update w.tmp me none
            standing := Function.update w.standing me (w.standing me).release })
  | .removeTmp, .none => some (.ok (), { w with tmp := Function.update w.tmp me none })
  | .probe pid, .none => some (.ok (w.alive pid), w)
  | .kill _, .none => some (.ok (), w)
  | .ps pid _, .matched m =>
      let ours := w.alive pid && w.daemon pid
      if m = .no ∧ ours = true ∨ m = .yes ∧ ours = false then none else some (.ok m, w)
  | .now, .none => some (.ok w.clock, w)
  | .openLog, .none => some (.ok (), w)
  | .logSize, .size n => some (.ok n, w)
  | .logSize, .missing => some (.error .enoent, w)
  | .logHas _ _, .tells b => some (.ok b, w)
  | .logHas _ _, .missing => some (.error .enoent, w)
  | .logTail, .text s => some (.ok s, w)
  | .logTail, .missing => some (.error .enoent, w)
  | .spawn _, .noChild => some (.ok none, w)
  | .spawn _, .child pid =>
      if w.used pid = true ∨ pid = 0 then none
      else
        some (.ok (some pid), { w with
          used := Function.update w.used pid true
          alive := Function.update w.alive pid true
          daemon := Function.update w.daemon pid true
          standing := Function.update w.standing me (.spawned pid) })
  | .spawnError, .spawnError s => some (.ok s, w)
  | .childExit pid, .exited exit =>
      if exit.isSome ∧ w.alive pid = true then none else some (.ok exit, w)
  | _, _ => none

/-- What a call does. -/
def perform (w : World) (me : Pid) (c : Call) :
    Chance → Option (Except Failure c.Reply × World)
  | .fails => if c.fallible then some (.error .other, w) else none
  | chance => w.succeed me c chance

end World

end Cli

end HuginAgent
