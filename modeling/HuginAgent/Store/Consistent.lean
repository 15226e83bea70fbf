/-
When the three tables fit together.

Five things the resume path relies on: an event belongs to an attempt and counts
towards its high-water mark, a result belongs to an attempt and is under its lease,
and an attempt is finished exactly when it has a result, so none is reported as active
and as pending at once.  All of it is about one attempt at a time, `consistent_iff`.

`Write.Spared` says how far a write may get on a consistent attempt, counted in
statements, so that what it leaves behind is consistent again.
-/
import HuginAgent.Store.Statements

namespace HuginAgent

structure EventLog.Consistent (s : EventLog) : Prop where
  eventsOwned : ∀ e ∈ s.events.rows, ∃ row, s.attemptRow e.attemptId = some row ∧ e.seq ≤ row.lastSeq
  resultsLeased : ∀ res ∈ s.results.rows,
    ∃ row, s.attemptRow res.attemptId = some row ∧ row.leaseId = res.leaseId
  resultsTerminal : ∀ res ∈ s.results.rows, ∀ row, s.attemptRow res.attemptId = some row →
    row.status.isActive = false
  /-- No attempt is reported as active and as pending at once. -/
  reportedOnce : ∀ row ∈ s.activeRows, ∀ res ∈ s.results.rows, row.attemptId ≠ res.attemptId
  terminalHasResult : ∀ row ∈ s.attempts.rows, row.status.isActive = false →
    (s.resultRow row.attemptId).isSome

namespace AttemptView

def Consistent (v : AttemptView) : Prop :=
  match v.row with
  | none => v.events = [] ∧ v.result = none
  | some row => (∀ e ∈ v.events, e.seq ≤ row.lastSeq) ∧
      (∀ res ∈ v.result, res.leaseId = row.leaseId) ∧
      (v.result.isSome ↔ row.status.isActive = false)

variable {v : AttemptView} {row : AttemptRow}

theorem consistent_none (hrow : v.row = none) :
    v.Consistent ↔ v.events = [] ∧ v.result = none := by
  rw [Consistent, hrow]

theorem consistent_some (hrow : v.row = some row) :
    v.Consistent ↔ (∀ e ∈ v.events, e.seq ≤ row.lastSeq) ∧
      (∀ res ∈ v.result, res.leaseId = row.leaseId) ∧
      (v.result.isSome ↔ row.status.isActive = false) := by
  rw [Consistent, hrow]

theorem Consistent.bare (h : v.Consistent) (hrow : v.row = none) :
    v.events = [] ∧ v.result = none := (consistent_none hrow).mp h

theorem Consistent.seqs (h : v.Consistent) (hrow : v.row = some row) :
    ∀ e ∈ v.events, e.seq ≤ row.lastSeq := ((consistent_some hrow).mp h).1

theorem Consistent.lease (h : v.Consistent) (hrow : v.row = some row) :
    ∀ res ∈ v.result, res.leaseId = row.leaseId := ((consistent_some hrow).mp h).2.1

theorem Consistent.terminal (h : v.Consistent) (hrow : v.row = some row) :
    v.result.isSome ↔ row.status.isActive = false := ((consistent_some hrow).mp h).2.2

end AttemptView

namespace EventLog

variable {s : EventLog} {a : JsString}

theorem mem_eventRowsOf {e : EventRow} :
    e ∈ s.eventRowsOf a ↔ e ∈ s.events.rows ∧ e.attemptId = a := by
  rw [eventRowsOf, List.mem_filter, decide_eq_true_iff]

theorem mem_attempts {row : AttemptRow} :
    row ∈ s.attempts.rows ↔ s.attemptRow row.attemptId = some row := by
  rw [attemptRow, Table.find?_eq_some]
  exact ⟨fun h => ⟨h, rfl⟩, fun h => h.1⟩

theorem mem_results {res : StoredResult} :
    res ∈ s.results.rows ↔ s.resultRow res.attemptId = some res := by
  rw [resultRow, Table.find?_eq_some]
  exact ⟨fun h => ⟨h, rfl⟩, fun h => h.1⟩

theorem mem_activeRows {row : AttemptRow} :
    row ∈ s.activeRows ↔ s.attemptRow row.attemptId = some row ∧ row.status.isActive = true := by
  rw [activeRows, List.mem_filter, mem_attempts]

/-- **The tables fit together when they do for each attempt.** -/
theorem consistent_iff : s.Consistent ↔ ∀ a, (s.view a).Consistent := by
  constructor
  · intro h a
    unfold AttemptView.Consistent
    cases hrow : (s.view a).row with
    | none =>
        refine ⟨List.eq_nil_iff_forall_not_mem.mpr ?_, Option.eq_none_iff_forall_ne_some.mpr ?_⟩
        · intro e he
          obtain ⟨hmem, rfl⟩ := mem_eventRowsOf.mp he
          obtain ⟨row, hsome, -⟩ := h.eventsOwned e hmem
          exact absurd (hrow.symm.trans hsome) (by simp)
        · intro res hres
          obtain rfl : res.attemptId = a := s.resultRow_attemptId a hres
          obtain ⟨row, hsome, -⟩ := h.resultsLeased res (mem_results.mpr hres)
          exact absurd (hrow.symm.trans hsome) (by simp)
    | some row =>
        have hid : row.attemptId = a := s.attemptRow_attemptId a hrow
        refine ⟨?_, ?_, ?_, ?_⟩
        · intro e he
          obtain ⟨hmem, rfl⟩ := mem_eventRowsOf.mp he
          obtain ⟨row', hrow', hseq⟩ := h.eventsOwned e hmem
          obtain rfl := Option.some.inj (hrow.symm.trans hrow')
          exact hseq
        · intro res hres
          obtain rfl : res.attemptId = a := s.resultRow_attemptId a hres
          obtain ⟨row', hrow', hlease⟩ := h.resultsLeased res (mem_results.mpr hres)
          obtain rfl := Option.some.inj (hrow.symm.trans hrow')
          exact hlease.symm
        · intro hres
          obtain ⟨res, hres⟩ := Option.isSome_iff_exists.mp hres
          obtain rfl : res.attemptId = a := s.resultRow_attemptId a hres
          exact h.resultsTerminal res (mem_results.mpr hres) row hrow
        · intro hterminal
          subst hid
          exact h.terminalHasResult row (mem_attempts.mpr hrow) hterminal
  · intro h
    have hresult : ∀ res ∈ s.results.rows, ∃ row, s.attemptRow res.attemptId = some row ∧
        row.leaseId = res.leaseId ∧ row.status.isActive = false := by
      intro res hres
      have hres := mem_results.mp hres
      cases hrow : s.attemptRow res.attemptId with
      | none => exact absurd (((h _).bare hrow).2.symm.trans hres) (by simp)
      | some row =>
          refine ⟨row, rfl, ((h _).lease hrow res hres).symm, ((h _).terminal hrow).mp ?_⟩
          rw [show (s.view res.attemptId).result = some res from hres]
          rfl
    refine ⟨?_, ?_, ?_, ?_, ?_⟩
    · intro e he
      have hmem : e ∈ (s.view e.attemptId).events := mem_eventRowsOf.mpr ⟨he, rfl⟩
      cases hrow : s.attemptRow e.attemptId with
      | none =>
          rw [((h _).bare hrow).1] at hmem
          cases hmem
      | some row => exact ⟨row, rfl, (h _).seqs hrow e hmem⟩
    · intro res hres
      obtain ⟨row, hrow, hlease, -⟩ := hresult res hres
      exact ⟨row, hrow, hlease⟩
    · intro res hres row hrow
      obtain ⟨row', hrow', -, hterminal⟩ := hresult res hres
      obtain rfl := Option.some.inj (hrow.symm.trans hrow')
      exact hterminal
    · intro row hactive res hres hid
      obtain ⟨hrow, hactive⟩ := mem_activeRows.mp hactive
      obtain ⟨row', hrow', -, hterminal⟩ := hresult res hres
      obtain rfl := Option.some.inj (hrow.symm.trans (hid ▸ hrow'))
      exact absurd (hactive.symm.trans hterminal) (by simp)
    · intro row hrow hterminal
      exact ((h row.attemptId).terminal (mem_attempts.mp hrow)).mpr hterminal

end EventLog

namespace Write

/-- What a handler has looked at before it writes. -/
def Fits (v : AttemptView) : Write → Prop
  | create row => v.row = none ∧ row.status.isActive = true
  | setStatus _ status => status.isActive = true
  | append row => (v.events.any fun e => e.seq = row.seq) = false
  | finish _ status => status.isActive = false
  | _ => True

/-- **How far a write may get.** -/
def Spared (v : AttemptView) (done : Nat) : Write → Prop
  | nothing | create _ | ack .. => True
  | setLease _ leaseId => 1 ≤ done → ∀ res ∈ v.result, res.leaseId = leaseId
  | setStatus .. => 1 ≤ done → v.result = none
  | append row => 1 ≤ done → ∃ r ∈ v.row, done = 1 → row.seq ≤ r.lastSeq
  | finish res _ => 1 ≤ done → ∃ r ∈ v.row, r.leaseId = res.leaseId ∧
      (done = 1 → r.status.isActive = false)
  | restamp _ leaseId _ _ => done = 1 → ∀ res ∈ v.result, res.leaseId = leaseId
  | drop _ => (1 ≤ done → v.result = none) ∧ (done = 1 → v.events = [])
  | settle _ => (done = 1 → v.result = none) ∧ (done = 2 → v.events = [])

/-- Where a write leaves its attempt after so many of its statements. -/
def upTo (write : Write) (v : AttemptView) (done : Nat) : AttemptView :=
  (write.statements.take done).foldl Statement.on v

theorem upTo_all (write : Write) (v : AttemptView) {done : Nat}
    (h : write.statements.length ≤ done) :
    write.upTo v done = write.statements.foldl Statement.on v := by
  rw [upTo, List.take_of_length_le h]

section Spared

variable {v : AttemptView} {a leaseId digest payload : JsString}

theorem spared_zero (write : Write) : write.Spared v 0 := by
  cases write <;> simp [Spared]

theorem spared_create {row : AttemptRow} (hv : v.Consistent) (hfits : (create row).Fits v)
    (done : Nat) : ((create row).upTo v (done + 1)).Consistent := by
  obtain ⟨hrow, hactive⟩ := hfits
  obtain ⟨hevents, hresult⟩ := hv.bare hrow
  have hnew : ∀ r : AttemptRow, r.status.isActive = true →
      ({ v with row := some r } : AttemptView).Consistent := by
    intro r hr
    refine ⟨?_, ?_, ?_⟩
    · intro e he
      rw [hevents] at he
      cases he
    · intro res hres
      rw [hresult] at hres
      cases hres
    · simp [hresult, hr]
  match done with
  | 0 =>
      show ({ v with row := some (v.row.getD row) } : AttemptView).Consistent
      rw [hrow]
      exact hnew row hactive
  | n + 1 =>
      rw [upTo_all _ _ (by simp [statements])]
      show ({ v with row := some { v.row.getD row with status := _ } } : AttemptView).Consistent
      exact hnew _ rfl

theorem spared_ack {ackSeq : Nat} (hv : v.Consistent) (done : Nat) :
    ((ack a ackSeq).upTo v (done + 1)).Consistent := by
  rw [upTo_all _ _ (by simp [statements])]
  show ({ v with events := v.events.filter _ } : AttemptView).Consistent
  cases hrow : v.row with
  | none =>
      obtain ⟨hevents, hresult⟩ := hv.bare hrow
      rw [AttemptView.consistent_none rfl]
      exact ⟨by rw [hevents]; rfl, hresult⟩
  | some row =>
      rw [AttemptView.consistent_some rfl]
      exact ⟨fun e he => hv.seqs hrow e (List.mem_of_mem_filter he), hv.lease hrow,
        hv.terminal hrow⟩

theorem spared_setLease (hv : v.Consistent) (done : Nat) :
    ((setLease a leaseId).upTo v (done + 1)).Consistent ↔
      ∀ res ∈ v.result, res.leaseId = leaseId := by
  rw [upTo_all _ _ (by simp [statements])]
  show ({ v with row := v.row.map _ } : AttemptView).Consistent ↔ _
  cases hrow : v.row with
  | none =>
      obtain ⟨hevents, hresult⟩ := hv.bare hrow
      rw [AttemptView.consistent_none rfl]
      simp [hevents, hresult]
  | some row =>
      obtain ⟨hseqs, -, hterminal⟩ := (AttemptView.consistent_some hrow).mp hv
      rw [AttemptView.consistent_some rfl]
      exact ⟨fun h => h.2.1, fun h => ⟨hseqs, h, hterminal⟩⟩

theorem spared_setStatus {status : JobStatus} (hv : v.Consistent)
    (hfits : (setStatus a status).Fits v) (done : Nat) :
    ((setStatus a status).upTo v (done + 1)).Consistent ↔ v.result = none := by
  have hactive : status.isActive = true := hfits
  rw [upTo_all _ _ (by simp [statements])]
  show ({ v with row := v.row.map _ } : AttemptView).Consistent ↔ _
  cases hrow : v.row with
  | none =>
      obtain ⟨hevents, hresult⟩ := hv.bare hrow
      rw [AttemptView.consistent_none rfl]
      simp [hevents, hresult]
  | some row =>
      obtain ⟨hseqs, hlease, -⟩ := (AttemptView.consistent_some hrow).mp hv
      rw [AttemptView.consistent_some rfl]
      constructor
      · intro h
        have hnot : ¬ v.result.isSome = true := fun hc => by simpa [hactive] using h.2.2.mp hc
        simpa using hnot
      · intro hresult
        exact ⟨hseqs, hlease, by simp [hresult, hactive]⟩

/-- What `advanceSeq` leaves of a row. -/
theorem advanced (r : AttemptRow) (seq : Nat) :
    let r' := if r.lastSeq < seq then { r with lastSeq := seq } else r
    r.lastSeq ≤ r'.lastSeq ∧ seq ≤ r'.lastSeq ∧ r'.leaseId = r.leaseId ∧ r'.status = r.status := by
  intro r'
  by_cases h : r.lastSeq < seq
  · rw [show r' = { r with lastSeq := seq } from if_pos h]
    exact ⟨Nat.le_of_lt h, le_refl _, rfl, rfl⟩
  · rw [show r' = r from if_neg h]
    exact ⟨le_refl _, Nat.not_lt.mp h, rfl, rfl⟩

theorem spared_append {row : EventRow} (hv : v.Consistent) (hfits : (append row).Fits v)
    (done : Nat) :
    ((append row).upTo v (done + 1)).Consistent ↔
      ∃ r ∈ v.row, done + 1 = 1 → row.seq ≤ r.lastSeq := by
  have hinsert : Statement.on v (.insertEvent row) = { v with events := v.events ++ [row] } := by
    rw [Statement.on, hfits]
    rfl
  cases done with
  | zero =>
      show (Statement.on v (.insertEvent row)).Consistent ↔ _
      rw [hinsert]
      cases hrow : v.row with
      | none =>
          rw [AttemptView.consistent_none rfl]
          simp
      | some r =>
          rw [AttemptView.consistent_some rfl]
          constructor
          · intro h
            exact ⟨r, rfl, fun _ => h.1 row (List.mem_append_right _ List.mem_cons_self)⟩
          · intro h
            obtain ⟨r', hr', hseq⟩ := h
            obtain rfl := Option.some.inj hr'
            refine ⟨?_, hv.lease hrow, hv.terminal hrow⟩
            intro e he
            rcases List.mem_append.mp he with he | he
            · exact hv.seqs hrow e he
            · exact List.mem_singleton.mp he ▸ hseq rfl
  | succ n =>
      rw [upTo_all _ _ (by simp [statements])]
      show (Statement.on (Statement.on v (.insertEvent row)) (.advanceSeq row.attemptId row.seq)).Consistent ↔ _
      rw [hinsert]
      show ({ v with row := v.row.map _, events := v.events ++ [row] } : AttemptView).Consistent ↔ _
      cases hrow : v.row with
      | none =>
          rw [AttemptView.consistent_none rfl]
          simp
      | some r =>
          rw [AttemptView.consistent_some rfl]
          refine ⟨fun _ => ⟨r, rfl, fun hc => absurd hc (by omega)⟩, fun _ => ?_⟩
          obtain ⟨hgrown, hreached, hlease, hstatus⟩ := advanced r row.seq
          refine ⟨?_, ?_, ?_⟩
          · intro e he
            rcases List.mem_append.mp he with he | he
            · exact (hv.seqs hrow e he).trans hgrown
            · exact List.mem_singleton.mp he ▸ hreached
          · intro res hres
            exact (hv.lease hrow res hres).trans hlease.symm
          · exact hstatus ▸ hv.terminal hrow

theorem spared_finish {res : StoredResult} {status : JobStatus} (hv : v.Consistent)
    (hfits : (finish res status).Fits v) (done : Nat) :
    ((finish res status).upTo v (done + 1)).Consistent ↔
      ∃ r ∈ v.row, r.leaseId = res.leaseId ∧ (done + 1 = 1 → r.status.isActive = false) := by
  have hterminal : status.isActive = false := hfits
  match done with
  | 0 =>
      show ({ v with result := some res } : AttemptView).Consistent ↔ _
      cases hrow : v.row with
      | none =>
          rw [AttemptView.consistent_none rfl]
          simp
      | some r =>
          rw [AttemptView.consistent_some rfl]
          constructor
          · intro h
            exact ⟨r, rfl, (h.2.1 res rfl).symm, fun _ => h.2.2.mp rfl⟩
          · intro h
            obtain ⟨r', hr', hlease, hstatus⟩ := h
            obtain rfl := Option.some.inj hr'
            refine ⟨hv.seqs hrow, ?_, ?_⟩
            · intro res' hres'
              obtain rfl := Option.some.inj hres'
              exact hlease.symm
            · simp [hstatus]
  | n + 1 =>
      rw [upTo_all _ _ (by simp [statements])]
      show ({ v with row := v.row.map _, result := some res } : AttemptView).Consistent ↔ _
      cases hrow : v.row with
      | none =>
          rw [AttemptView.consistent_none rfl]
          simp
      | some r =>
          obtain ⟨hseqs, -, -⟩ := (AttemptView.consistent_some hrow).mp hv
          rw [AttemptView.consistent_some rfl]
          constructor
          · intro h
            exact ⟨r, rfl, (h.2.1 res rfl).symm, fun hc => absurd hc (by omega)⟩
          · intro h
            obtain ⟨r', hr', hlease, -⟩ := h
            obtain rfl := Option.some.inj hr'
            refine ⟨hseqs, ?_, ?_⟩
            · intro res' hres'
              obtain rfl := Option.some.inj hres'
              exact hlease.symm
            · simp [hterminal]

theorem spared_restamp (hv : v.Consistent) (done : Nat) :
    ((restamp a leaseId digest payload).upTo v (done + 1)).Consistent ↔
      (done + 1 = 1 → ∀ res ∈ v.result, res.leaseId = leaseId) := by
  match done with
  | 0 =>
      exact (spared_setLease hv 0 : ((setLease a leaseId).upTo v 1).Consistent ↔ _).trans
        ⟨fun h _ => h, fun h => h rfl⟩
  | n + 1 =>
      refine ⟨fun _ hc => absurd hc (by omega), fun _ => ?_⟩
      rw [upTo_all _ _ (by simp [statements])]
      show ({ v with row := v.row.map _, result := v.result.map _ } : AttemptView).Consistent
      cases hrow : v.row with
      | none =>
          obtain ⟨hevents, hresult⟩ := hv.bare hrow
          rw [AttemptView.consistent_none rfl]
          simp [hevents, hresult]
      | some r =>
          obtain ⟨hseqs, -, hterm⟩ := (AttemptView.consistent_some hrow).mp hv
          rw [AttemptView.consistent_some rfl]
          refine ⟨hseqs, ?_, ?_⟩
          · intro res hres
            obtain ⟨old, -, rfl⟩ := Option.map_eq_some_iff.mp hres
            rfl
          · rw [Option.isSome_map]
            exact hterm

theorem spared_drop (done : Nat) :
    ((drop a).upTo v (done + 1)).Consistent ↔
      v.result = none ∧ (done + 1 = 1 → v.events = []) := by
  match done with
  | 0 =>
      show ({ v with row := none } : AttemptView).Consistent ↔ _
      rw [AttemptView.consistent_none rfl]
      exact ⟨fun h => ⟨h.2, fun _ => h.1⟩, fun h => ⟨h.2 rfl, h.1⟩⟩
  | n + 1 =>
      rw [upTo_all _ _ (by simp [statements])]
      show ({ v with row := none, events := [] } : AttemptView).Consistent ↔ _
      rw [AttemptView.consistent_none rfl]
      exact ⟨fun h => ⟨h.2, fun hc => absurd hc (by omega)⟩, fun h => ⟨rfl, h.1⟩⟩

theorem spared_settle (hv : v.Consistent) (done : Nat) :
    ((settle a).upTo v (done + 1)).Consistent ↔
      (done + 1 = 1 → v.result = none) ∧ (done + 1 = 2 → v.events = []) := by
  match done with
  | 0 =>
      show ({ v with result := none } : AttemptView).Consistent ↔ _
      cases hrow : v.row with
      | none =>
          obtain ⟨hevents, hresult⟩ := hv.bare hrow
          rw [AttemptView.consistent_none rfl]
          simp [hevents, hresult]
      | some r =>
          rw [AttemptView.consistent_some rfl]
          constructor
          · intro h
            -- a finished attempt has a result, so one without is not finished
            have hnot : ¬ v.result.isSome = true := by
              rw [hv.terminal hrow, ← h.2.2]
              simp
            exact ⟨fun _ => by simpa using hnot, fun hc => absurd hc (by omega)⟩
          · intro h
            have hresult := h.1 rfl
            refine ⟨hv.seqs hrow, fun res hres => absurd hres (by simp), ?_⟩
            rw [← hv.terminal hrow, hresult]
  | 1 =>
      show ({ v with row := none, result := none } : AttemptView).Consistent ↔ _
      rw [AttemptView.consistent_none rfl]
      exact ⟨fun h => ⟨fun hc => absurd hc (by omega), fun _ => h.1⟩, fun h => ⟨h.2 rfl, rfl⟩⟩
  | n + 2 =>
      rw [upTo_all _ _ (by simp [statements])]
      show ({ row := none, events := [], result := none } : AttemptView).Consistent ↔ _
      rw [AttemptView.consistent_none rfl]
      exact ⟨fun _ => ⟨fun hc => absurd hc (by omega), fun hc => absurd hc (by omega)⟩,
        fun _ => ⟨rfl, rfl⟩⟩

/-- **A write that has got so far leaves a consistent attempt behind exactly when it is spared.** -/
theorem consistent_iff_spared {write : Write} (hv : v.Consistent) (hfits : write.Fits v)
    (done : Nat) : (write.upTo v done).Consistent ↔ write.Spared v done := by
  match done with
  | 0 =>
      refine iff_of_true ?_ (spared_zero write)
      exact hv
  | n + 1 =>
      have hle : 1 ≤ n + 1 := Nat.le_add_left 1 n
      cases write with
      | nothing => exact iff_of_true hv trivial
      | create row => exact iff_of_true (spared_create hv hfits n) trivial
      | setLease a leaseId => exact (spared_setLease hv n).trans ⟨fun h _ => h, fun h => h hle⟩
      | setStatus a status =>
          exact (spared_setStatus hv hfits n).trans ⟨fun h _ => h, fun h => h hle⟩
      | append row => exact (spared_append hv hfits n).trans ⟨fun h _ => h, fun h => h hle⟩
      | ack a ackSeq => exact iff_of_true (spared_ack hv n) trivial
      | finish res status =>
          exact (spared_finish hv hfits n).trans ⟨fun h _ => h, fun h => h hle⟩
      | restamp a leaseId digest payload => exact spared_restamp hv n
      | drop a =>
          exact (spared_drop n).trans ⟨fun h => ⟨fun _ => h.1, h.2⟩, fun h => ⟨h.1 hle, h.2⟩⟩
      | settle a => exact spared_settle hv n

end Spared

end Write

end HuginAgent
