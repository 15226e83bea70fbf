/-
The durable event log, `src/store/eventlog.ts`.

Three tables: attempts, the stream events that are not yet acknowledged, and the
terminal results that wait for theirs.  Every method is the SQL statement it
issues.  `created_at` is written and never read, so the rows have no such column.

What is bound to a statement is stored and compared as it is, a lone surrogate by the
three bytes of its code point.  Read back, such bytes are not the surrogate any more,
`columnText`: the ids and leases of a server, which may carry one, come out of a row
otherwise than they went in.  What the daemon makes itself, the ids it draws, a status,
a digest, a JSON text, has no lone surrogate (`columnText_jsonText`).

Below the methods stands what each of them does to the row of a key, which is all
the rest of the development knows of the tables.
-/
import Mathlib.Algebra.GroupWithZero.Nat
import Mathlib.Data.List.Sort
import HuginAgent.Js.Cursor
import HuginAgent.Kit.Table
import HuginAgent.Protocol.Messages

namespace HuginAgent

/-! ### What is read of a text -/

def columnTextFrom (prevHigh : Bool) : JsString → JsString
  | [] => []
  | u :: rest =>
      (if isLone prevHigh u rest then [0xFFFD, 0xFFFD, 0xFFFD] else [u]) ++
        columnTextFrom (isHighSurrogate u) rest

/-- A text as `better-sqlite3` gives it back: the bytes of a lone surrogate are no UTF-8, and each
of the three is read as U+FFFD. -/
def columnText (s : JsString) : JsString := columnTextFrom false s

theorem columnTextFrom_eq {p : Bool} {s : JsString} (h : loneFrom p s = false) :
    columnTextFrom p s = s := by
  induction s generalizing p with
  | nil => rfl
  | cons u rest ih =>
      rw [loneFrom, Bool.or_eq_false_iff] at h
      rw [columnTextFrom, h.1, ih h.2]
      rfl

theorem length_columnTextFrom (p : Bool) (s : JsString) :
    s.length ≤ (columnTextFrom p s).length ∧
      (loneFrom p s = true → s.length < (columnTextFrom p s).length) := by
  induction s generalizing p with
  | nil => exact ⟨Nat.le_refl _, fun h => absurd h Bool.false_ne_true⟩
  | cons u rest ih =>
      obtain ⟨hle, hlt⟩ := ih (isHighSurrogate u)
      rw [columnTextFrom, loneFrom, List.length_append, List.length_cons]
      cases isLone p u rest with
      | true => exact ⟨by simp; omega, fun _ => by simp; omega⟩
      | false =>
          refine ⟨by simp; omega, fun h => ?_⟩
          have := hlt h
          simp
          omega

/-- Just the texts without a lone surrogate come back as they were stored. -/
theorem columnText_eq_iff {s : JsString} : columnText s = s ↔ hasLoneSurrogate s = false := by
  refine ⟨fun h => ?_, columnTextFrom_eq⟩
  by_contra hlone
  have hlonger := (length_columnTextFrom false s).2 (Bool.not_eq_false _ ▸ hlone)
  rw [columnText] at h
  rw [h] at hlonger
  exact Nat.lt_irrefl _ hlonger

/-- A stored payload comes back as it is. -/
theorem columnText_jsonText (v : JsValue) : columnText (jsonText v) = jsonText v :=
  columnText_eq_iff.mpr (sealed_lone (sealed_jsonText v))

structure AttemptRow where
  attemptId : JsString
  jobId : JsString
  leaseId : JsString
  agentRunId : JsString
  status : JobStatus
  /-- `DEFAULT 0`; the high-water mark of the stream. -/
  lastSeq : Nat := 0

/-- The row as a `SELECT` gives it. -/
def AttemptRow.read (row : AttemptRow) : AttemptRow :=
  { row with
    attemptId := columnText row.attemptId
    jobId := columnText row.jobId
    leaseId := columnText row.leaseId }

structure EventRow where
  attemptId : JsString
  seq : Nat
  eventId : JsString
  bytes : Nat
  payload : JsString

structure StoredResult where
  attemptId : JsString
  jobId : JsString
  leaseId : JsString
  finalStatus : FinalStatus
  resultDigest : JsString
  resultSize : Nat
  payload : JsString
  lastEmittedSeq : Nat

def StoredResult.read (res : StoredResult) : StoredResult :=
  { res with
    attemptId := columnText res.attemptId
    jobId := columnText res.jobId
    leaseId := columnText res.leaseId }

@[simp] theorem StoredResult.read_payload (res : StoredResult) : res.read.payload = res.payload :=
  rfl

@[simp] theorem StoredResult.read_resultDigest (res : StoredResult) :
    res.read.resultDigest = res.resultDigest := rfl

/-- `PRIMARY KEY (attempt_id, seq)`. -/
def EventRow.key (e : EventRow) : JsString × Nat := (e.attemptId, e.seq)

structure EventLog where
  attempts : Table AttemptRow.attemptId
  events : Table EventRow.key
  results : Table StoredResult.attemptId

namespace EventLog

def empty : EventLog := ⟨.empty, .empty, .empty⟩

/-! ### The attempts table -/

/-- `INSERT OR IGNORE`; whether the row was new is not read by anyone. -/
def createAttempt (s : EventLog) (row : AttemptRow) : EventLog :=
  { s with attempts := s.attempts.insertOrIgnore row }

/-- The row of a key, as it is stored. -/
def attemptRow (s : EventLog) (attemptId : JsString) : Option AttemptRow :=
  s.attempts.find? attemptId

def getAttempt (s : EventLog) (attemptId : JsString) : Option AttemptRow :=
  (s.attemptRow attemptId).map AttemptRow.read

/-- `UPDATE attempts SET … WHERE attempt_id = ?`. -/
def updateAttempt (s : EventLog) (attemptId : JsString) (f : AttemptRow → AttemptRow)
    (hf : ∀ r, (f r).attemptId = r.attemptId) : EventLog :=
  { s with attempts := s.attempts.updateKey attemptId f hf }

def setAttemptStatus (s : EventLog) (attemptId : JsString) (status : JobStatus) : EventLog :=
  s.updateAttempt attemptId (fun r => { r with status }) fun _ => rfl

def setAttemptLease (s : EventLog) (attemptId leaseId : JsString) : EventLog :=
  s.updateAttempt attemptId (fun r => { r with leaseId }) fun _ => rfl

/-- Drops the attempt and, with it, its events. -/
def deleteAttempt (s : EventLog) (attemptId : JsString) : EventLog :=
  { s with
    attempts := s.attempts.delete fun r => r.attemptId = attemptId
    events := s.events.delete fun e => e.attemptId = attemptId }

/-! ### The events table -/

/-- `UPDATE attempts SET last_seq = ? WHERE attempt_id = ? AND last_seq < ?`. -/
def advanceSeq (s : EventLog) (attemptId : JsString) (seq : Nat) : EventLog :=
  s.updateAttempt attemptId (fun r => if r.lastSeq < seq then { r with lastSeq := seq } else r)
    fun r => by split <;> rfl

/-- `none` where the insert throws on a taken key. -/
def appendEvent (s : EventLog) (attemptId : JsString) (seq : Nat) (eventId : JsString)
    (bytes : Nat) (payload : JsString) : Option EventLog :=
  (s.events.insert? ⟨attemptId, seq, eventId, bytes, payload⟩).map fun events =>
    { s with events }.advanceSeq attemptId seq

/-- The rows `WHERE attempt_id = ? AND seq > ? ORDER BY seq`. -/
def eventRowsAfter (s : EventLog) (attemptId : JsString) (afterSeq : Nat) : List EventRow :=
  (s.events.rows.filter fun e => e.attemptId = attemptId && afterSeq < e.seq).insertionSort
    fun e f => e.seq ≤ f.seq

def eventsAfter (s : EventLog) (attemptId : JsString) (afterSeq : Nat) : List JsString :=
  (s.eventRowsAfter attemptId afterSeq).map EventRow.payload

def ackEvents (s : EventLog) (attemptId : JsString) (ackSeq : Nat) : EventLog :=
  { s with events := s.events.delete fun e => e.attemptId = attemptId && e.seq ≤ ackSeq }

/-- The rows of one attempt. -/
def eventRowsOf (s : EventLog) (attemptId : JsString) : List EventRow :=
  s.events.rows.filter fun e => e.attemptId = attemptId

def unackedEvents (s : EventLog) (attemptId : JsString) : Nat :=
  (s.eventRowsOf attemptId).length

def unackedBytes (s : EventLog) (attemptId : JsString) : Nat :=
  ((s.eventRowsOf attemptId).map EventRow.bytes).sum

def connUnackedBytes (s : EventLog) : Nat := (s.events.rows.map EventRow.bytes).sum

/-! ### The results table -/

def saveResult (s : EventLog) (r : StoredResult) : EventLog :=
  { s with results := s.results.replace r }

/-- The result of a key, as it is stored. -/
def resultRow (s : EventLog) (attemptId : JsString) : Option StoredResult :=
  s.results.find? attemptId

def getResult (s : EventLog) (attemptId : JsString) : Option StoredResult :=
  (s.resultRow attemptId).map StoredResult.read

def updateResult (s : EventLog) (attemptId leaseId digest payload : JsString) : EventLog :=
  { s with
    results := s.results.updateKey attemptId
      (fun r => { r with
        leaseId
        resultDigest := digest
        payload
        resultSize := byteLength payload })
      fun _ => rfl }

def deleteResult (s : EventLog) (attemptId : JsString) : EventLog :=
  { s with results := s.results.delete fun r => r.attemptId = attemptId }

/-- The store after a matching ack; `none` is the `false` of a mismatch. -/
def ackResult (s : EventLog) (attemptId digest : JsString) : Option EventLog :=
  match s.getResult attemptId with
  | some stored => if stored.resultDigest = digest then some (s.deleteResult attemptId) else none
  | none => none

/-! ### What `hello` reports -/

structure ActiveJobRow where
  jobId : JsString
  attemptId : JsString
  leaseId : JsString
  status : JobStatus
  lastEmittedSeq : Nat

/-- The rows `WHERE status IN ('accepted','starting','running','cancelling')`. -/
def activeRows (s : EventLog) : List AttemptRow := s.attempts.rows.filter fun r => r.status.isActive

def activeJobsForResume (s : EventLog) : List ActiveJobRow :=
  (s.activeRows.map AttemptRow.read).map fun r =>
    ⟨r.jobId, r.attemptId, r.leaseId, r.status, r.lastSeq⟩

def pendingResults (s : EventLog) : List StoredResult := s.results.rows.map StoredResult.read

/-! ### What a key finds after each statement -/

section Lookup

variable (s : EventLog) (a b l : JsString)

@[simp] theorem attemptRow_createAttempt (row : AttemptRow) :
    (s.createAttempt row).attemptRow b =
      if b = row.attemptId then some ((s.attemptRow b).getD row) else s.attemptRow b :=
  Table.find?_insertOrIgnore ..

theorem attemptRow_updateAttempt {f : AttemptRow → AttemptRow}
    (hf : ∀ r, (f r).attemptId = r.attemptId) :
    (s.updateAttempt a f hf).attemptRow b =
      if b = a then (s.attemptRow b).map f else s.attemptRow b :=
  Table.find?_updateKey s.attempts a f hf b

@[simp] theorem attemptRow_setAttemptStatus (status : JobStatus) :
    (s.setAttemptStatus a status).attemptRow b =
      if b = a then (s.attemptRow b).map fun r => { r with status } else s.attemptRow b := by
  rw [setAttemptStatus, attemptRow_updateAttempt]

@[simp] theorem attemptRow_setAttemptLease :
    (s.setAttemptLease a l).attemptRow b =
      if b = a then (s.attemptRow b).map fun r => { r with leaseId := l } else s.attemptRow b := by
  rw [setAttemptLease, attemptRow_updateAttempt]

@[simp] theorem attemptRow_deleteAttempt :
    (s.deleteAttempt a).attemptRow b = if b = a then none else s.attemptRow b := by
  have h := s.attempts.find?_delete_key (q := fun b => b = a) (fun _ => rfl) b
  rwa [if_congr (decide_eq_true_iff) rfl rfl] at h

@[simp] theorem attemptRow_ackEvents (n : Nat) : (s.ackEvents a n).attemptRow b = s.attemptRow b :=
  rfl

@[simp] theorem attemptRow_saveResult (r : StoredResult) :
    (s.saveResult r).attemptRow b = s.attemptRow b := rfl

@[simp] theorem attemptRow_updateResult (d p : JsString) :
    (s.updateResult a l d p).attemptRow b = s.attemptRow b := rfl

@[simp] theorem attemptRow_deleteResult : (s.deleteResult a).attemptRow b = s.attemptRow b := rfl

@[simp] theorem resultRow_createAttempt (row : AttemptRow) :
    (s.createAttempt row).resultRow b = s.resultRow b := rfl

@[simp] theorem resultRow_setAttemptStatus (status : JobStatus) :
    (s.setAttemptStatus a status).resultRow b = s.resultRow b := rfl

@[simp] theorem resultRow_setAttemptLease :
    (s.setAttemptLease a l).resultRow b = s.resultRow b := rfl

@[simp] theorem resultRow_deleteAttempt : (s.deleteAttempt a).resultRow b = s.resultRow b := rfl

@[simp] theorem resultRow_ackEvents (n : Nat) : (s.ackEvents a n).resultRow b = s.resultRow b := rfl

@[simp] theorem resultRow_saveResult (r : StoredResult) :
    (s.saveResult r).resultRow b = if b = r.attemptId then some r else s.resultRow b :=
  Table.find?_replace ..

@[simp] theorem resultRow_updateResult (d p : JsString) :
    (s.updateResult a l d p).resultRow b =
      if b = a then (s.resultRow b).map fun r =>
        { r with leaseId := l, resultDigest := d, payload := p, resultSize := byteLength p }
      else s.resultRow b := by
  rw [resultRow, updateResult, Table.find?_updateKey]
  rfl

@[simp] theorem resultRow_deleteResult :
    (s.deleteResult a).resultRow b = if b = a then none else s.resultRow b := by
  have h := s.results.find?_delete_key (q := fun b => b = a) (fun _ => rfl) b
  rwa [if_congr (decide_eq_true_iff) rfl rfl] at h

@[simp] theorem events_createAttempt (row : AttemptRow) :
    (s.createAttempt row).events = s.events := rfl

@[simp] theorem events_setAttemptStatus (status : JobStatus) :
    (s.setAttemptStatus a status).events = s.events := rfl

@[simp] theorem events_setAttemptLease : (s.setAttemptLease a l).events = s.events := rfl

@[simp] theorem events_saveResult (r : StoredResult) : (s.saveResult r).events = s.events := rfl

@[simp] theorem events_updateResult (d p : JsString) :
    (s.updateResult a l d p).events = s.events := rfl

@[simp] theorem events_deleteResult : (s.deleteResult a).events = s.events := rfl

theorem resultRow_attemptId {r : StoredResult} (h : s.resultRow a = some r) : r.attemptId = a :=
  Table.key_of_find? h

theorem attemptRow_attemptId {r : AttemptRow} (h : s.attemptRow a = some r) : r.attemptId = a :=
  Table.key_of_find? h

@[simp] theorem attemptRow_advanceSeq (seq : Nat) :
    (s.advanceSeq a seq).attemptRow b =
      if b = a then
        (s.attemptRow b).map fun r => if r.lastSeq < seq then { r with lastSeq := seq } else r
      else s.attemptRow b := by
  rw [advanceSeq, attemptRow_updateAttempt]

theorem ackResult_eq_some {s s' : EventLog} {a d : JsString} (h : s.ackResult a d = some s') :
    s' = s.deleteResult a ∧ ∃ r, s.resultRow a = some r ∧ r.resultDigest = d := by
  unfold ackResult getResult at h
  cases hrow : s.resultRow a with
  | none =>
      rw [hrow] at h
      cases h
  | some stored =>
      rw [hrow] at h
      by_cases hd : stored.resultDigest = d
      · exact ⟨(Option.some.inj ((if_pos hd).symm.trans h)).symm, stored, rfl, hd⟩
      · exact absurd ((if_neg hd).symm.trans h) (by simp)

end Lookup

end EventLog

end HuginAgent
