/-
The statements of the event log, one by one.

A method of `EventLog` that touches two tables issues two statements, and no handler
wraps its statements in a transaction.  `Write` is what a handler does to the store,
spelled out as the statements it issues in order, so that a run may end between any
two of them.

Every write is about one attempt.  `EventLog.view` is what the tables hold of one
attempt, and `Statement.on` what a statement does to it; of all other attempts it
leaves the view alone.
-/
import HuginAgent.Store.EventLog

namespace HuginAgent

/-- A statement that changes a table. -/
inductive Statement
  | insertAttempt (row : AttemptRow)
  | setStatus (attemptId : JsString) (status : JobStatus)
  | setLease (attemptId leaseId : JsString)
  | advanceSeq (attemptId : JsString) (seq : Nat)
  | deleteAttempt (attemptId : JsString)
  | insertEvent (row : EventRow)
  | ackEvents (attemptId : JsString) (ackSeq : Nat)
  | deleteEvents (attemptId : JsString)
  | replaceResult (row : StoredResult)
  | updateResult (attemptId leaseId digest payload : JsString)
  | deleteResult (attemptId : JsString)

namespace Statement

def run (s : EventLog) : Statement → EventLog
  | insertAttempt row => s.createAttempt row
  | setStatus a status => s.setAttemptStatus a status
  | setLease a leaseId => s.setAttemptLease a leaseId
  | advanceSeq a seq => s.advanceSeq a seq
  | deleteAttempt a => { s with attempts := s.attempts.delete fun r => r.attemptId = a }
  | insertEvent row => { s with events := s.events.insertOrIgnore row }
  | ackEvents a ackSeq => s.ackEvents a ackSeq
  | deleteEvents a => { s with events := s.events.delete fun e => e.attemptId = a }
  | replaceResult row => s.saveResult row
  | updateResult a leaseId digest payload => s.updateResult a leaseId digest payload
  | deleteResult a => s.deleteResult a

/-- The attempt a statement is about. -/
def attempt : Statement → JsString
  | insertAttempt row => row.attemptId
  | insertEvent row => row.attemptId
  | replaceResult row => row.attemptId
  | setStatus a _ | setLease a _ | advanceSeq a _ | deleteAttempt a | ackEvents a _
  | deleteEvents a | updateResult a _ _ _ | deleteResult a => a

end Statement

/-- What a handler does to the store. -/
inductive Write
  | nothing
  /-- `createAttempt`, `setAttemptStatus(…, "running")`. -/
  | create (row : AttemptRow)
  | setLease (attemptId leaseId : JsString)
  | setStatus (attemptId : JsString) (status : JobStatus)
  | append (row : EventRow)
  | ack (attemptId : JsString) (ackSeq : Nat)
  /-- `saveResult`, `setAttemptStatus`. -/
  | finish (res : StoredResult) (status : JobStatus)
  /-- `setAttemptLease`, `updateResult`. -/
  | restamp (attemptId leaseId digest payload : JsString)
  /-- `deleteAttempt`. -/
  | drop (attemptId : JsString)
  /-- `deleteResult` or `ackResult`, `deleteAttempt`. -/
  | settle (attemptId : JsString)

namespace Write

def statements : Write → List Statement
  | nothing => []
  | create row => [.insertAttempt row, .setStatus row.attemptId .running]
  | setLease a leaseId => [.setLease a leaseId]
  | setStatus a status => [.setStatus a status]
  | append row => [.insertEvent row, .advanceSeq row.attemptId row.seq]
  | ack a ackSeq => [.ackEvents a ackSeq]
  | finish res status => [.replaceResult res, .setStatus res.attemptId status]
  | restamp a leaseId digest payload => [.setLease a leaseId, .updateResult a leaseId digest payload]
  | drop a => [.deleteAttempt a, .deleteEvents a]
  | settle a => [.deleteResult a, .deleteAttempt a, .deleteEvents a]

def attempt : Write → JsString
  | nothing => []
  | create row => row.attemptId
  | append row => row.attemptId
  | finish res _ => res.attemptId
  | setLease a _ | setStatus a _ | ack a _ | restamp a _ _ _ | drop a | settle a => a

/-- The whole write. -/
def run (s : EventLog) (write : Write) : EventLog := write.statements.foldl Statement.run s

theorem attempt_statements (write : Write) :
    ∀ st ∈ write.statements, st.attempt = write.attempt := by
  cases write <;> simp [statements, attempt, Statement.attempt]

end Write

/-! ### One attempt -/

/-- What the tables hold of one attempt. -/
structure AttemptView where
  row : Option AttemptRow
  events : List EventRow
  result : Option StoredResult

def EventLog.view (s : EventLog) (a : JsString) : AttemptView :=
  ⟨s.attemptRow a, s.eventRowsOf a, s.resultRow a⟩

namespace Statement

/-- What a statement does to the attempt it is about. -/
def on (v : AttemptView) : Statement → AttemptView
  | insertAttempt row => { v with row := some (v.row.getD row) }
  | setStatus _ status => { v with row := v.row.map fun r => { r with status } }
  | setLease _ leaseId => { v with row := v.row.map fun r => { r with leaseId } }
  | advanceSeq _ seq =>
      { v with row := v.row.map fun r => if r.lastSeq < seq then { r with lastSeq := seq } else r }
  | deleteAttempt _ => { v with row := none }
  | insertEvent row =>
      { v with
        events := if v.events.any fun e => e.seq = row.seq then v.events else v.events ++ [row] }
  | ackEvents _ ackSeq => { v with events := v.events.filter fun e => ackSeq < e.seq }
  | deleteEvents _ => { v with events := [] }
  | replaceResult row => { v with result := some row }
  | updateResult _ leaseId digest payload =>
      { v with
        result := v.result.map fun r =>
          { r with leaseId, resultDigest := digest, payload, resultSize := byteLength payload } }
  | deleteResult _ => { v with result := none }

/-- A row was there before, up to its status, its sequence number and a lease that is set, or it is
inserted. -/
theorem row_of_on {v : AttemptView} {st : Statement} {row : AttemptRow}
    (h : (st.on v).row = some row) :
    (∃ old, v.row = some old ∧ row.jobId = old.jobId ∧ row.attemptId = old.attemptId ∧
      row.agentRunId = old.agentRunId ∧
        (row.leaseId = old.leaseId ∨ ∃ a, st = setLease a row.leaseId)) ∨
      st = insertAttempt row := by
  have hsame : v.row = some row → ∃ old, v.row = some old ∧ row.jobId = old.jobId ∧
      row.attemptId = old.attemptId ∧ row.agentRunId = old.agentRunId ∧
        (row.leaseId = old.leaseId ∨ ∃ a, st = setLease a row.leaseId) :=
    fun hrow => ⟨row, hrow, rfl, rfl, rfl, Or.inl rfl⟩
  cases st with
  | insertAttempt new =>
      cases hold : v.row with
      | none =>
          rw [on, hold] at h
          exact Or.inr (congrArg insertAttempt (Option.some.inj h))
      | some old =>
          rw [on, hold] at h
          rw [hold] at hsame
          exact Or.inl (hsame h)
  | setStatus a status =>
      obtain ⟨old, hold, rfl⟩ := Option.map_eq_some_iff.mp h
      exact Or.inl ⟨old, hold, rfl, rfl, rfl, Or.inl rfl⟩
  | setLease a leaseId =>
      obtain ⟨old, hold, rfl⟩ := Option.map_eq_some_iff.mp h
      exact Or.inl ⟨old, hold, rfl, rfl, rfl, Or.inr ⟨a, rfl⟩⟩
  | advanceSeq a seq =>
      obtain ⟨old, hold, rfl⟩ := Option.map_eq_some_iff.mp h
      refine Or.inl ⟨old, hold, ?_⟩
      split
      · exact ⟨rfl, rfl, rfl, Or.inl rfl⟩
      · exact ⟨rfl, rfl, rfl, Or.inl rfl⟩
  | deleteAttempt a => cases h
  | insertEvent row => exact Or.inl (hsame h)
  | ackEvents a ackSeq => exact Or.inl (hsame h)
  | deleteEvents a => exact Or.inl (hsame h)
  | replaceResult row => exact Or.inl (hsame h)
  | updateResult a leaseId digest payload => exact Or.inl (hsame h)
  | deleteResult a => exact Or.inl (hsame h)

/-- An event was there before, or it is inserted. -/
theorem event_of_on {v : AttemptView} {st : Statement} {row : EventRow}
    (h : row ∈ (st.on v).events) : row ∈ v.events ∨ st = insertEvent row := by
  cases st with
  | insertEvent new =>
      rw [on] at h
      split at h
      · exact Or.inl h
      · refine (List.mem_append.mp h).imp_right fun hnew => ?_
        rw [List.mem_singleton.mp hnew]
  | ackEvents a ackSeq => exact Or.inl (List.mem_of_mem_filter h)
  | deleteEvents a => cases h
  | insertAttempt row => exact Or.inl h
  | setStatus a status => exact Or.inl h
  | setLease a leaseId => exact Or.inl h
  | advanceSeq a seq => exact Or.inl h
  | deleteAttempt a => exact Or.inl h
  | replaceResult row => exact Or.inl h
  | updateResult a leaseId digest payload => exact Or.inl h
  | deleteResult a => exact Or.inl h

/-- A result was there before, or it is put there, or the one that was there is written over. -/
theorem result_of_on {v : AttemptView} {st : Statement} {res : StoredResult}
    (h : (st.on v).result = some res) :
    v.result = some res ∨ st = replaceResult res ∨
      ∃ old a leaseId digest payload, v.result = some old ∧
        st = updateResult a leaseId digest payload ∧
        res = { old with
          leaseId
          resultDigest := digest
          payload
          resultSize := byteLength payload } := by
  cases st with
  | replaceResult new => exact Or.inr (Or.inl (congrArg replaceResult (Option.some.inj h)))
  | updateResult a leaseId digest payload =>
      obtain ⟨old, hold, hres⟩ := Option.map_eq_some_iff.mp h
      exact Or.inr (Or.inr ⟨old, a, leaseId, digest, payload, hold, rfl, hres.symm⟩)
  | deleteResult a => cases h
  | insertAttempt row => exact Or.inl h
  | setStatus a status => exact Or.inl h
  | setLease a leaseId => exact Or.inl h
  | advanceSeq a seq => exact Or.inl h
  | deleteAttempt a => exact Or.inl h
  | insertEvent row => exact Or.inl h
  | ackEvents a ackSeq => exact Or.inl h
  | deleteEvents a => exact Or.inl h

end Statement

namespace EventLog

variable (s : EventLog) (a b : JsString)

theorem eventRowsOf_delete {p : EventRow → Bool} (hp : ∀ e, p e = true → e.attemptId = a) :
    EventLog.eventRowsOf { s with events := s.events.delete p } b =
      if b = a then (s.eventRowsOf b).filter fun e => !p e else s.eventRowsOf b := by
  have hcomm : EventLog.eventRowsOf { s with events := s.events.delete p } b =
      (s.eventRowsOf b).filter fun e => !p e := by
    simp only [eventRowsOf, Table.delete, List.filter_filter, Bool.and_comm]
  rw [hcomm]
  split
  · rfl
  · rename_i hb
    apply List.filter_eq_self.mpr
    intro e he
    have hid : e.attemptId = b := by simpa using (List.mem_filter.mp he).2
    rw [Bool.not_eq_true', Bool.eq_false_iff]
    exact fun hc => hb (hid.symm.trans (hp e hc))

/-- The number of a row is taken by another row of its attempt. -/
theorem taken_iff (row : EventRow) :
    row.key ∈ s.events.rows.map EventRow.key ↔
      (s.eventRowsOf row.attemptId).any (fun e => e.seq = row.seq) = true := by
  rw [List.mem_map, List.any_eq_true]
  constructor
  · intro h
    obtain ⟨e, he, hkey⟩ := h
    obtain ⟨hid, hseq⟩ := Prod.mk.inj hkey
    exact ⟨e, List.mem_filter.mpr ⟨he, by simpa using hid⟩, by simpa using hseq⟩
  · intro h
    obtain ⟨e, he, hseq⟩ := h
    obtain ⟨he, hid⟩ := List.mem_filter.mp he
    exact ⟨e, he, Prod.ext (of_decide_eq_true hid) (of_decide_eq_true hseq)⟩

theorem eventRowsOf_append (s' : EventLog) {row : EventRow}
    (h : s'.events.rows = s.events.rows ++ [row]) :
    s'.eventRowsOf b =
      if b = row.attemptId then s.eventRowsOf b ++ [row] else s.eventRowsOf b := by
  rw [eventRowsOf, h, List.filter_append, List.filter_singleton]
  by_cases hb : b = row.attemptId
  · rw [if_pos hb, decide_eq_true hb.symm]
    rfl
  · rw [if_neg hb, decide_eq_false (Ne.symm hb)]
    exact List.append_nil _

theorem eventRowsOf_insertOrIgnore (row : EventRow) :
    EventLog.eventRowsOf { s with events := s.events.insertOrIgnore row } b =
      if b = row.attemptId then
        if (s.eventRowsOf b).any fun e => e.seq = row.seq then s.eventRowsOf b
        else s.eventRowsOf b ++ [row]
      else s.eventRowsOf b := by
  by_cases hany : (s.eventRowsOf row.attemptId).any (fun e => e.seq = row.seq) = true
  · have hsame : s.events.insertOrIgnore row = s.events := by
      rw [Table.insertOrIgnore, Table.insert?, dif_pos ((taken_iff s row).mpr hany)]
      rfl
    rw [hsame]
    split
    · rename_i hb
      rw [hb, if_pos hany]
    · rfl
  · have hrows : (s.events.insertOrIgnore row).rows = s.events.rows ++ [row] := by
      rw [Table.insertOrIgnore, Table.insert?, dif_neg (mt (taken_iff s row).mp hany)]
      rfl
    rw [eventRowsOf_append s b { s with events := s.events.insertOrIgnore row } hrows]
    split
    · rename_i hb
      rw [hb, if_neg hany]
    · rfl

theorem attemptRow_deleteRow :
    EventLog.attemptRow { s with attempts := s.attempts.delete fun r => r.attemptId = a } b =
      if b = a then none else s.attemptRow b :=
  s.attemptRow_deleteAttempt a b

end EventLog

theorem Statement.view_run_self (s : EventLog) (st : Statement) :
    (st.run s).view st.attempt = st.on (s.view st.attempt) := by
  cases st with
  | insertAttempt row => simp [run, attempt, on, EventLog.view, EventLog.eventRowsOf]
  | setStatus a status => simp [run, attempt, on, EventLog.view, EventLog.eventRowsOf]
  | setLease a leaseId => simp [run, attempt, on, EventLog.view, EventLog.eventRowsOf]
  | advanceSeq a seq =>
      simp only [run, attempt, on, EventLog.view, EventLog.attemptRow_advanceSeq, if_true]
      rfl
  | deleteAttempt a =>
      simp only [run, attempt, on, EventLog.view, EventLog.attemptRow_deleteRow, if_true]
      rfl
  | insertEvent row =>
      simp only [run, attempt, on, EventLog.view, EventLog.eventRowsOf_insertOrIgnore, if_true]
      rfl
  | ackEvents a ackSeq =>
      have hrows := EventLog.eventRowsOf_delete s a a
        (p := fun e => e.attemptId = a && e.seq ≤ ackSeq) (by simp +contextual)
      simp only [run, attempt, on, EventLog.view, EventLog.ackEvents, hrows, if_true]
      refine congrArg (AttemptView.mk _ · _) (List.filter_congr ?_)
      intro e he
      have hid : e.attemptId = a := by simpa using (List.mem_filter.mp he).2
      rw [decide_eq_true hid, Bool.true_and, ← decide_not]
      exact decide_eq_decide.mpr Nat.not_le
  | deleteEvents a =>
      have hrows := EventLog.eventRowsOf_delete s a a (p := fun e => e.attemptId = a) (by simp)
      simp only [run, attempt, on, EventLog.view, hrows, if_true]
      refine congrArg (AttemptView.mk _ · _) (List.filter_eq_nil_iff.mpr ?_)
      intro e he
      have hid : e.attemptId = a := by simpa using (List.mem_filter.mp he).2
      simp [hid]
  | replaceResult row => simp [run, attempt, on, EventLog.view, EventLog.eventRowsOf]
  | updateResult a leaseId digest payload =>
      simp [run, attempt, on, EventLog.view, EventLog.eventRowsOf]
  | deleteResult a => simp [run, attempt, on, EventLog.view, EventLog.eventRowsOf]

theorem Statement.view_run_of_ne (s : EventLog) (st : Statement) {b : JsString}
    (hb : b ≠ st.attempt) : (st.run s).view b = s.view b := by
  cases st with
  | insertAttempt row =>
      simp only [attempt] at hb
      simp [run, EventLog.view, EventLog.eventRowsOf, hb]
  | setStatus a status =>
      simp only [attempt] at hb
      simp [run, EventLog.view, EventLog.eventRowsOf, hb]
  | setLease a leaseId =>
      simp only [attempt] at hb
      simp [run, EventLog.view, EventLog.eventRowsOf, hb]
  | advanceSeq a seq =>
      simp only [attempt] at hb
      simp only [run, EventLog.view, EventLog.attemptRow_advanceSeq]
      rw [if_neg hb]
      rfl
  | deleteAttempt a =>
      simp only [attempt] at hb
      simp only [run, EventLog.view, EventLog.attemptRow_deleteRow]
      rw [if_neg hb]
      rfl
  | insertEvent row =>
      simp only [attempt] at hb
      simp only [run, EventLog.view, EventLog.eventRowsOf_insertOrIgnore]
      rw [if_neg hb]
      rfl
  | ackEvents a ackSeq =>
      simp only [attempt] at hb
      have hrows := EventLog.eventRowsOf_delete s a b
        (p := fun e => e.attemptId = a && e.seq ≤ ackSeq) (by simp +contextual)
      simp only [run, EventLog.view, EventLog.ackEvents, hrows]
      rw [if_neg hb]
      rfl
  | deleteEvents a =>
      simp only [attempt] at hb
      have hrows := EventLog.eventRowsOf_delete s a b (p := fun e => e.attemptId = a) (by simp)
      simp only [run, EventLog.view, hrows]
      rw [if_neg hb]
      rfl
  | replaceResult row =>
      simp only [attempt] at hb
      simp [run, EventLog.view, EventLog.eventRowsOf, hb]
  | updateResult a leaseId digest payload =>
      simp only [attempt] at hb
      simp [run, EventLog.view, EventLog.eventRowsOf, hb]
  | deleteResult a =>
      simp only [attempt] at hb
      simp [run, EventLog.view, EventLog.eventRowsOf, hb]

/-- **A statement changes the attempt it is about and no other.** -/
theorem Statement.view_run (s : EventLog) (st : Statement) (b : JsString) :
    (st.run s).view b = if b = st.attempt then st.on (s.view b) else s.view b := by
  by_cases hb : b = st.attempt
  · rw [if_pos hb, hb]
    exact st.view_run_self s
  · rw [if_neg hb]
    exact st.view_run_of_ne s hb

/-- **What every statement keeps of the attempt it is about holds of all attempts after them.** -/
theorem Statement.forall_view {P : AttemptView → Prop} {s : EventLog} (h : ∀ a, P (s.view a))
    {sts : List Statement} (hsts : ∀ st ∈ sts, ∀ v, P v → P (st.on v)) :
    ∀ a, P ((sts.foldl Statement.run s).view a) := by
  induction sts generalizing s with
  | nil => exact h
  | cons st rest ih =>
      refine ih ?_ fun t ht => hsts t (List.mem_cons_of_mem _ ht)
      intro a
      rw [Statement.view_run]
      split
      · exact hsts st List.mem_cons_self _ (h a)
      · exact h a

/-- Statements about one attempt, one after the other. -/
theorem Statement.view_foldl {a : JsString} {sts : List Statement} (hsts : ∀ st ∈ sts, st.attempt = a)
    (s : EventLog) (b : JsString) :
    (sts.foldl Statement.run s).view b =
      if b = a then sts.foldl Statement.on (s.view b) else s.view b := by
  induction sts generalizing s with
  | nil => simp
  | cons st rest ih =>
      rw [List.foldl_cons, List.foldl_cons, ih fun t ht => hsts t (List.mem_cons_of_mem _ ht),
        Statement.view_run, hsts st List.mem_cons_self]
      split <;> rfl

end HuginAgent
