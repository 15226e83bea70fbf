/-
The ledger of a world.

`World.ledger` reads the ledger off the manager's state.  Here stands what each
primitive update of the world does to it: sending, logging a call, a status or a
timer do nothing, and each statement of the event log does to the ledger what its
counterpart in `Ledger` does.
-/
import HuginAgent.Jobs.Run
import HuginAgent.Ledger.Basic

namespace HuginAgent

/-- A `JobState` as the ledger sees it. -/
def JobState.job (s : JobState) : Ledger.Job where
  attempt := s.attemptId
  lease := s.leaseId
  prev := s.prevLease.map fun prev => (prev, s.leaseOverlapUntil.getD 0)
  seq := s.seq
  run := s.run
  paused := s.paused
  fenced := s.fenced

/-- An attempts row as the ledger sees it. -/
def AttemptRow.row (r : AttemptRow) : Ledger.Row := ⟨r.leaseId, r.lastSeq⟩

def EventLog.rows (s : EventLog) (a : JsString) : Option Ledger.Row :=
  (s.attemptRow a).map AttemptRow.row

def World.ledger (w : World) : Ledger where
  rows := w.store.rows
  events := w.store.events
  results := w.store.resultRow
  live := w.registry.get
  jobs r := (w.jobs r).job
  next := w.nextRef
  runs := {r | r ∈ w.runs}
  ended := {r | r ∈ w.ended}
  cancelled := {r | ∃ g, (r, .cancel g) ∈ w.calls}
  now := w.now

/-! ### The event log -/

namespace EventLog

variable (s : EventLog) (a l : JsString)

theorem rows_createAttempt (row : AttemptRow) (h : s.attemptRow row.attemptId = none) :
    (s.createAttempt row).rows = Function.update s.rows row.attemptId (some row.row) := by
  funext b
  rw [rows, attemptRow_createAttempt]
  by_cases hb : b = row.attemptId
  · rw [if_pos hb, hb, h, Function.update_self]
    rfl
  · rw [if_neg hb, Function.update_of_ne hb, rows]

@[simp] theorem rows_setAttemptStatus (status : JobStatus) :
    (s.setAttemptStatus a status).rows = s.rows := by
  funext b
  rw [rows, attemptRow_setAttemptStatus]
  split
  · rw [Option.map_map]
    rfl
  · rfl

theorem rows_setAttemptLease :
    (s.setAttemptLease a l).rows =
      Function.update s.rows a ((s.rows a).map fun row => { row with lease := l }) := by
  funext b
  rw [rows, attemptRow_setAttemptLease]
  by_cases hb : b = a
  · rw [if_pos hb, hb, Function.update_self, rows, Option.map_map, Option.map_map]
    rfl
  · rw [if_neg hb, Function.update_of_ne hb, rows]

theorem rows_deleteAttempt : (s.deleteAttempt a).rows = Function.update s.rows a none := by
  funext b
  rw [rows, attemptRow_deleteAttempt]
  by_cases hb : b = a
  · rw [if_pos hb, hb, Function.update_self]
    rfl
  · rw [if_neg hb, Function.update_of_ne hb, rows]

theorem rows_advanceSeq (seq : Nat) :
    (s.advanceSeq a seq).rows = Function.update s.rows a ((s.rows a).map fun d =>
      if d.lastSeq < seq then { d with lastSeq := seq } else d) := by
  funext b
  rw [rows, attemptRow_advanceSeq]
  by_cases hb : b = a
  · rw [if_pos hb, hb, Function.update_self, rows, Option.map_map, Option.map_map]
    congr 1
    funext r
    by_cases hlt : r.lastSeq < seq
    · simp [AttemptRow.row, hlt]
    · simp [AttemptRow.row, hlt]
  · rw [if_neg hb, Function.update_of_ne hb, rows]

theorem resultRow_deleteResult_eq :
    (s.deleteResult a).resultRow = Function.update s.resultRow a none := by
  funext b
  rw [resultRow_deleteResult, Function.update_apply]

theorem resultRow_saveResult_eq (r : StoredResult) :
    (s.saveResult r).resultRow = Function.update s.resultRow r.attemptId (some r) := by
  funext b
  rw [resultRow_saveResult, Function.update_apply]

theorem resultRow_updateResult_eq {r : StoredResult} (h : s.resultRow a = some r)
    (d p : JsString) :
    (s.updateResult a l d p).resultRow = Function.update s.resultRow a
      (some { r with leaseId := l, resultDigest := d, payload := p, resultSize := byteLength p }) := by
  funext b
  rw [resultRow_updateResult, Function.update_apply]
  by_cases hb : b = a
  · rw [if_pos hb, if_pos hb, hb, h]
    rfl
  · rw [if_neg hb, if_neg hb]

end EventLog

/-! ### Primitive updates of the world -/

namespace World

variable (w : World) (r : Ref)

@[simp] theorem ledger_emit (msg : JsObject) : (w.emit msg).ledger = w.ledger := rfl

@[simp] theorem ledger_send (env : Env) (build : Envelope → JsObject) :
    (w.send env build).ledger = w.ledger := rfl

theorem jobs_modifyJob (f : JobState → JobState) :
    (fun q => ((w.modifyJob r f).jobs q).job) =
      Function.update (fun q => (w.jobs q).job) r (f (w.jobs r)).job := by
  funext q
  by_cases hq : q = r
  · rw [hq, jobs_modifyJob_self, Function.update_self]
  · rw [jobs_modifyJob_of_ne w f hq, Function.update_of_ne hq]

/-- A change of a job that the ledger sees. -/
theorem ledger_modifyJob {f : JobState → JobState} {g : Ledger.Job → Ledger.Job}
    (h : (f (w.jobs r)).job = g (w.jobs r).job) :
    (w.modifyJob r f).ledger = w.ledger.modify r g := by
  have hjobs := jobs_modifyJob w r f
  rw [h] at hjobs
  rw [ledger, hjobs]
  rfl

/-- A change of a job that the ledger does not see. -/
theorem ledger_modifyJob_same {f : JobState → JobState}
    (h : (f (w.jobs r)).job = (w.jobs r).job) : (w.modifyJob r f).ledger = w.ledger := by
  have hjobs := jobs_modifyJob w r f
  rw [h, Function.update_eq_self] at hjobs
  rw [ledger, hjobs]
  rfl

@[simp] theorem ledger_clearApprovals : (w.clearApprovals r).ledger = w.ledger :=
  ledger_modifyJob_same { w with timers := _ } r rfl

theorem ledger_callRun {call : EngineCall} (h : call.isCancel = false) :
    (w.callRun r call).ledger = w.ledger := by
  have hcalls : {q | ∃ g, (q, EngineCall.cancel g) ∈ (w.callRun r call).calls} =
      {q | ∃ g, (q, EngineCall.cancel g) ∈ w.calls} := by
    ext q
    simp only [callRun, Set.mem_ofPred_eq, List.mem_append, Option.mem_toList,
      Option.map_eq_some_iff, Prod.mk.injEq]
    constructor
    · intro hq
      obtain ⟨g, hg | ⟨p, -, -, rfl⟩⟩ := hq
      · exact ⟨g, hg⟩
      · exact absurd h (by simp [EngineCall.isCancel])
    · intro hq
      obtain ⟨g, hg⟩ := hq
      exact ⟨g, Or.inl hg⟩
  rw [ledger, hcalls]
  rfl

theorem ledger_callRun_cancel (grace : Nat) :
    (w.callRun r (.cancel grace)).ledger =
      { w.ledger with cancelled := {q | (w.ledger.jobs r).run = some q} ∪ w.ledger.cancelled } := by
  have hcalls : {q | ∃ g, (q, EngineCall.cancel g) ∈ (w.callRun r (.cancel grace)).calls} =
      {q | (w.jobs r).run = some q} ∪ {q | ∃ g, (q, EngineCall.cancel g) ∈ w.calls} := by
    ext q
    simp only [callRun, Set.mem_ofPred_eq, List.mem_append, Option.mem_toList,
      Option.map_eq_some_iff, Prod.mk.injEq, Set.mem_union]
    constructor
    · intro hq
      obtain ⟨g, hg | ⟨p, hp, rfl, -⟩⟩ := hq
      · exact Or.inr ⟨g, hg⟩
      · exact Or.inl hp
    · intro hq
      rcases hq with hq | ⟨g, hg⟩
      · exact ⟨grace, Or.inr ⟨q, hq, rfl, rfl⟩⟩
      · exact ⟨g, Or.inl hg⟩
  rw [ledger, hcalls]
  rfl

theorem ledger_setAttemptStatus (a : JsString) (status : JobStatus) :
    { w with store := w.store.setAttemptStatus a status }.ledger = w.ledger := by
  rw [ledger, EventLog.rows_setAttemptStatus]
  rfl

theorem ledger_setAttemptLease (a l : JsString) :
    { w with store := w.store.setAttemptLease a l }.ledger = w.ledger.setLease a l := by
  rw [ledger, EventLog.rows_setAttemptLease]
  rfl

/-- The attempt goes, with its events. -/
theorem ledger_deleteAttempt (a : JsString) :
    { w with store := w.store.deleteAttempt a }.ledger = w.ledger.forget a := by
  rw [ledger, EventLog.rows_deleteAttempt]
  rfl

theorem ledger_deleteResult (a : JsString) :
    { w with store := w.store.deleteResult a }.ledger = w.ledger.clear a := by
  rw [ledger, EventLog.resultRow_deleteResult_eq]
  rfl

theorem ledger_unregister (a : JsString) :
    { w with registry := w.registry.remove a }.ledger = w.ledger.unregister a := by
  have hlive : (w.registry.remove a).get = Function.update w.registry.get a none := by
    funext b
    rw [JobRegistry.get_remove, Function.update_apply]
  rw [ledger, hlive]
  rfl

end World

theorem recorded_iff {w : World} {a : JsString} :
    (w.ledger.rows a).isSome = true ↔ (w.store.attemptRow a).isSome = true := by
  show ((w.store.attemptRow a).map AttemptRow.row).isSome = true ↔ _
  rw [Option.isSome_map]

end HuginAgent
