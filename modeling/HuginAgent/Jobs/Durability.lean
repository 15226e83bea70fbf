/-
Which events the manager may lose.

An event is stored before it is sent, and from then on it is the only copy until the
server says that it has it.  Rows go by a cumulative ack, and with their attempt when
the server gives the attempt up or confirms it wholesale.  An acknowledged result
drops the attempt too, and with it every event the server has not acknowledged yet;
nothing in `handleResultAck` looks at them.
-/
import HuginAgent.Ledger.Refine

namespace HuginAgent

open JobManager Ledger

variable {env : Env} {w : World}

/-- The server has the event, or is done with its attempt. -/
def Released (w : World) (row : EventRow) : Action → Prop
  | .streamAck msg => msg.attemptId = row.attemptId ∧ row.seq ≤ msg.ackSeq ∧
      leaseOk w (w.registry.get msg.attemptId) msg.attemptId msg.leaseId = true
  | .revoke msg _ => msg.attemptId = row.attemptId ∧ ∃ r, w.registry.get msg.attemptId = some r ∧
      leaseOk w (some r) msg.attemptId msg.leaseId = true
  | .resume d _ => d.attemptId = row.attemptId ∧ (d.action = .ackPending ∨ d.action = .abandon)
  | _ => False

/-- Every stored event outlives the action, unless the action releases it. -/
def KeepsEvents (env : Env) (w : World) (act : Action) : Prop :=
  ∀ row ∈ w.store.events.rows, row ∈ (step env w act).store.events.rows ∨ Released w row act

/-- A result is acknowledged after all events of its attempt. -/
def EventsAckedFirst (w : World) : Action → Prop
  | .resultAck msg =>
      leaseOk w (w.registry.get msg.attemptId) msg.attemptId msg.leaseId = true →
      (w.store.ackResult msg.attemptId msg.resultDigest).isSome = true →
      w.store.eventRowsOf msg.attemptId = []
  | _ => True

theorem mem_events {row : EventRow} :
    row ∈ w.store.events.rows ↔ w.ledger.events.find? row.key = some row := by
  rw [Table.find?_eq_some]
  exact ⟨fun h => ⟨h, rfl⟩, fun h => h.1⟩

theorem releases_key {act : Action} (hact : ∀ msg, act ≠ .streamAck msg) (row : EventRow) :
    (opOf env w act).releases row.key = drops w row.attemptId act :=
  releases_eq_drops hact row.key

/-- What releases an event, and the one action that does so without a word on the events. -/
theorem releases_iff {act : Action} {row : EventRow} :
    (opOf env w act).releases row.key = true ↔
      Released w row act ∨ ∃ msg, act = .resultAck msg ∧ drops w row.attemptId act = true := by
  cases act with
  | streamAck msg =>
      rw [opOf]
      split
      · rename_i hok
        show (decide (row.attemptId = msg.attemptId) && decide (row.seq ≤ msg.ackSeq)) = true ↔ _
        rw [Bool.and_eq_true, decide_eq_true_iff, decide_eq_true_iff]
        constructor
        · intro h
          exact Or.inl ⟨h.1.symm, h.2, hok⟩
        · intro h
          rcases h with ⟨hid, hseq, -⟩ | ⟨msg', hc, -⟩
          · exact ⟨hid.symm, hseq⟩
          · exact absurd hc (by simp)
      · rename_i hok
        simp [Op.releases, Op.forgets, Released, hok]
  | resultAck msg =>
      rw [releases_key (by simp)]
      simp [Released]
  | revoke msg sync =>
      rw [releases_key (by simp)]
      simp only [drops, Released, Bool.and_eq_true, decide_eq_true_eq]
      constructor
      · intro h
        obtain ⟨⟨hid, hlive⟩, hok⟩ := h
        obtain ⟨r, hr⟩ := Option.isSome_iff_exists.mp hlive
        rw [← hid] at hr hok
        exact Or.inl ⟨hid, r, hr, hr ▸ hok⟩
      · intro h
        rcases h with ⟨hid, r, hr, hok⟩ | ⟨msg', hc, -⟩
        · rw [← hid, hr]
          exact ⟨⟨rfl, rfl⟩, hok⟩
        · exact absurd hc (by simp)
  | resume d sync =>
      rw [releases_key (by simp)]
      simp [drops, Released]
  | _ =>
      rw [releases_key (by simp)]
      simp [drops, Released]

theorem keepsEvents_iff (hs : w.ledger.Sound) (act : Action) :
    KeepsEvents env w act ↔ EventsAckedFirst w act := by
  have hstep : Step env.sha256Base64Url w.ledger (opOf env w act) (step env w act).ledger :=
    step_refines env hs act
  constructor
  · intro hkeeps
    cases act with
    | resultAck msg =>
        intro hok hack
        rw [EventLog.eventRowsOf, List.filter_eq_nil_iff]
        intro row hrow hid
        have hid : row.attemptId = msg.attemptId := by simpa using hid
        have hgone := hstep.event_stays (mem_events.mp hrow)
        rw [if_pos (releases_iff.mpr (Or.inr ⟨msg, rfl, by simp [drops, hid, hok, hack]⟩))] at hgone
        rcases hkeeps row hrow with hstays | hrel
        · rw [mem_events, hgone] at hstays
          exact absurd hstays (by simp)
        · exact hrel
    | _ => trivial
  · intro hfirst row hrow
    by_cases hrel : (opOf env w act).releases row.key = true
    · rcases releases_iff.mp hrel with h | ⟨msg, rfl, hdrops⟩
      · exact Or.inr h
      · simp only [drops, Bool.and_eq_true, decide_eq_true_eq] at hdrops
        obtain ⟨⟨hid, hok⟩, hack⟩ := hdrops
        rw [← hid] at hok hack
        have hnil := hfirst hok hack
        rw [EventLog.eventRowsOf, List.filter_eq_nil_iff] at hnil
        exact absurd (by simp [hid]) (hnil row hrow)
    · have hstays := hstep.event_stays (mem_events.mp hrow)
      rw [if_neg hrel] at hstays
      exact Or.inl (mem_events.mpr hstays)

/-- **No event is lost in the runs in which results are acknowledged after the events of their
attempt, and in no others.** -/
theorem durable_iff (env : Env) (acts : List Action) :
    Along env (KeepsEvents env) acts ↔ Along env (fun w act => EventsAckedFirst w act) acts := by
  have hsound : Machine.Along (step env) (fun w _ => w.ledger.Sound) World.start acts :=
    Machine.along_iff.mpr fun pre _ _ _ => ledger_sound env pre
  simp only [Along, Machine.along_iff] at hsound ⊢
  constructor
  · intro h pre act post hsplit
    exact (keepsEvents_iff (hsound pre act post hsplit) act).mp (h pre act post hsplit)
  · intro h pre act post hsplit
    exact (keepsEvents_iff (hsound pre act post hsplit) act).mpr (h pre act post hsplit)

/-- The result is acknowledged before the one event, and the event is gone. -/
theorem event_lost_by_resultAck : ¬ ∀ env acts, Along env (KeepsEvents env) acts := by
  intro hall
  have h := hall (sampleEnv sampleDigestOne .limits)
    [sampleAssign "a" "l", .callback 0 (.event sampleEvent), .callback 0 (.done (.success none)),
      .resultAck ⟨js "a", js "l", sampleDigestOne⟩]
  have hkeeps : KeepsEvents (sampleEnv sampleDigestOne .limits)
      (runFrom (sampleEnv sampleDigestOne .limits) [sampleAssign "a" "l",
        .callback 0 (.event sampleEvent), .callback 0 (.done (.success none))])
      (.resultAck ⟨js "a", js "l", sampleDigestOne⟩) := Machine.along_iff.mp h _ _ [] rfl
  have hrows : (runFrom (sampleEnv sampleDigestOne .limits) [sampleAssign "a" "l",
      .callback 0 (.event sampleEvent),
      .callback 0 (.done (.success none))]).store.events.rows ≠ [] := by decide +kernel
  have hgone : (step (sampleEnv sampleDigestOne .limits)
      (runFrom (sampleEnv sampleDigestOne .limits) [sampleAssign "a" "l",
        .callback 0 (.event sampleEvent), .callback 0 (.done (.success none))])
      (.resultAck ⟨js "a", js "l", sampleDigestOne⟩)).store.events.rows = [] := by decide +kernel
  obtain ⟨row, hrow⟩ := List.exists_mem_of_ne_nil _ hrows
  rcases hkeeps row hrow with hstays | hreleased
  · rw [hgone] at hstays
    exact absurd hstays List.not_mem_nil
  · exact hreleased

end HuginAgent
