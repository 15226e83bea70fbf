/-
Which stream events fit a frame.

An event is sent with the lease of the moment and stored with it; `resume_from` sends the
stored text again under the lease it names.  Nothing on the way asks how long the event
is.  A stored row is the text of the message of some event (`HoldsEvent`), and what a
resend makes of it is the message of the same event under the new lease, so its size is
known before it is sent.
-/
import HuginAgent.Conn.Frames
import HuginAgent.Jobs.Sends

namespace HuginAgent

open JobManager Ledger

variable {env : Env} {w : World} {leaseId : JsString} {r : Ref}

def isStreamEvent (msg : JsObject) : Prop := msg.get (js "type") = .lit "stream.event"

/-- Every stream event that has been sent fits a frame. -/
def StreamFits (w : World) : Prop := ∀ msg ∈ w.sent, isStreamEvent msg → FitsFrame msg

/-- The row is the text of this event of the job. -/
def EventRow.HoldsEvent (row : EventRow) (jobId : JsString) (ev : EngineEvent) : Prop :=
  ∃ lease e, row.payload =
    stringifyObject (streamEvent ⟨jobId, row.attemptId, lease⟩ row.seq row.eventId ev e)

/-- The bytes of a stored event under a lease. -/
def EventRow.FitsUnder (row : EventRow) (leaseId : JsString) (e : Envelope) : Prop :=
  ∀ jobId ev, row.HoldsEvent jobId ev →
    streamEventBytes ⟨jobId, row.attemptId, leaseId⟩ row.seq row.eventId ev e ≤ maxFrameBytes

/-- The events of the action fit a frame. -/
def EventFits (env : Env) (w : World) : Action → Prop
  | .callback r (.event ev) =>
      r ∈ w.runs → (w.jobs r).fenced = false →
      w.store.events.find? ((w.jobs r).attemptId, (w.jobs r).seq + 1) = none →
      streamEventBytes (w.jobs r).ctx ((w.jobs r).seq + 1)
        (eventIdOf (w.jobs r).attemptId ((w.jobs r).seq + 1)) ev (env.envelope w.draws) ≤
          maxFrameBytes
  | .resume d _ =>
      d.action = .resumeFrom → ∀ leaseId, d.leaseId = some leaseId →
      ∀ (i : Nat) (row : EventRow),
        (w.store.eventRowsAfter d.attemptId (d.resumeAfterSeq.getD 0))[i]? = some row →
        row.FitsUnder leaseId (env.envelope (w.draws + i))
  | _ => True

/-! ### What is stored -/

/-- Every stored row is the text of an event. -/
def EventsHeld (w : World) : Prop := ∀ row ∈ w.store.events.rows, ∃ jobId ev, row.HoldsEvent jobId ev

theorem eventsHeld_step (hs : w.ledger.Sound) (h : EventsHeld w) (act : Action) :
    EventsHeld (step env w act) := by
  intro row hrow
  have hrow : row ∈ (step env w act).ledger.events.rows := hrow
  rw [(step_refines env hs act).events_rows, List.mem_append] at hrow
  rcases hrow with hold | hnew
  · exact h row (List.mem_of_mem_filter hold)
  · cases hop : opOf env w act with
    | event q row' pause =>
        rw [hop] at hnew
        obtain rfl : row = row' := by simpa [Op.stored] using hnew
        obtain ⟨ev, events, rfl, rfl, -, -⟩ := opOf_eq_event hop
        exact ⟨(w.jobs q).jobId, ev, (w.jobs q).leaseId, env.envelope w.draws, rfl⟩
    | _ =>
        rw [hop] at hnew
        cases hnew

/-! ### What is sent again -/

/-- A re-stamped event is the event of its job under the new lease. -/
theorem restamp_streamEvent (ctx : AttemptCtx) (seq : Nat) (eventId : JsString) (ev : EngineEvent)
    (e e' : Envelope) :
    restamp (some leaseId) (streamEvent ctx seq eventId ev e).onWire e' =
      (streamEvent { ctx with leaseId } seq eventId ev e').onWire := by
  rfl

theorem EventRow.HoldsEvent.resent {row : EventRow} {jobId : JsString} {ev : EngineEvent}
    {o : JsObject} (h : row.HoldsEvent jobId ev) (hparse : parseObject row.payload = some o)
    (leaseId : JsString) (e : Envelope) :
    restamp (some leaseId) o e =
      (streamEvent ⟨jobId, row.attemptId, leaseId⟩ row.seq row.eventId ev e).onWire := by
  obtain ⟨lease, e₀, hpayload⟩ := h
  rw [hpayload, parseObject_stringifyObject _ (streamEvent_wellFormed ..)] at hparse
  rw [← Option.some.inj hparse]
  exact restamp_streamEvent ..

theorem resent_fits {row : EventRow} {o : JsObject} (leaseId : JsString) (e : Envelope)
    (hheld : ∃ jobId ev, row.HoldsEvent jobId ev) (hparse : parseObject row.payload = some o) :
    isStreamEvent (restamp (some leaseId) o e) ∧
      (FitsFrame (restamp (some leaseId) o e) ↔ row.FitsUnder leaseId e) := by
  have hbytes : ∀ jobId ev, row.HoldsEvent jobId ev →
      byteLength (stringifyObject (restamp (some leaseId) o e)) =
        streamEventBytes ⟨jobId, row.attemptId, leaseId⟩ row.seq row.eventId ev e := by
    intro jobId ev hev
    rw [hev.resent hparse, stringifyObject_onWire, byteLength_streamEvent]
  obtain ⟨jobId, ev, hev⟩ := hheld
  refine ⟨?_, ?_⟩
  · rw [isStreamEvent, hev.resent hparse,
      JsObject.get_onWire _ (keys_nodup (streamEvent_wellFormed ..))]
    rfl
  · rw [fitsFrame_iff]
    constructor
    · intro hfits jobId' ev' hev'
      rw [← hbytes jobId' ev' hev']
      exact hfits
    · intro hunder
      rw [hbytes jobId ev hev]
      exact hunder jobId ev hev

/-- The stored texts, one after the other. -/
theorem resentEvents_fit {rows : List EventRow}
    (h : ∀ row ∈ rows, ∃ jobId ev, row.HoldsEvent jobId ev) (draw : Nat) :
    (∀ msg ∈ resentEvents env (some leaseId) draw (rows.map EventRow.payload),
        isStreamEvent msg → FitsFrame msg) ↔
      ∀ (i : Nat) (row : EventRow), rows[i]? = some row →
        row.FitsUnder leaseId (env.envelope (draw + i)) := by
  induction rows generalizing draw with
  | nil => simp [resentEvents]
  | cons row rest ih =>
      have hheld := h row List.mem_cons_self
      have ih := ih (fun row' hrow' => h row' (List.mem_cons_of_mem _ hrow')) (draw + 1)
      obtain ⟨o, hparse⟩ : ∃ o, parseObject row.payload = some o := by
        obtain ⟨jobId, ev, lease, e, hpayload⟩ := hheld
        exact ⟨_, by rw [hpayload, parseObject_stringifyObject _ (streamEvent_wellFormed ..)]⟩
      obtain ⟨htype, hfits⟩ := resent_fits leaseId (env.envelope draw) hheld hparse
      rw [List.map_cons, resentEvents, hparse]
      simp only [List.forall_mem_cons]
      rw [ih]
      constructor
      · rintro ⟨hfirst, hrest⟩ i row' hrow'
        cases i with
        | zero =>
            obtain rfl := Option.some.inj hrow'
            exact hfits.mp (hfirst htype)
        | succ i =>
            have hunder := hrest i row' hrow'
            rwa [Nat.add_right_comm] at hunder
      · intro hall
        refine ⟨fun _ => hfits.mpr (hall 0 row rfl), ?_⟩
        intro i row' hrow'
        have hunder := hall (i + 1) row' hrow'
        rwa [Nat.add_right_comm, Nat.add_assoc]

/-! ### What an action sends -/

theorem streamEvent_type {type : String} {ctx : AttemptCtx} {rest : JsObject} {e : Envelope}
    (h : isStreamEvent (attemptMsg type ctx rest e)) : js type = js "stream.event" :=
  JsValue.str.inj h

/-- What a resent result is. -/
theorem resentResult_type {d : ResumeDirective} {res : StoredResult} {msg : JsObject}
    (hg : Acknowledgeable env.sha256Base64Url res) (h : msg ∈ resentResult env w d res) :
    ¬ isStreamEvent msg := by
  obtain ⟨o, hparse, -, htype, -⟩ := hg.parses
  rw [resentResult, hparse] at h
  simp only at h
  split at h
  · cases h
  · rw [List.mem_singleton.mp h, isStreamEvent, restamp_get (by decide) (by decide) (by decide),
      htype]
    intro hc
    exact absurd (JsValue.str.inj hc) (by decide)

theorem sentOf_fits (hg : Genuine env.sha256Base64Url w.ledger) (hheld : EventsHeld w)
    (act : Action) :
    (∀ msg ∈ sentOf env w act, isStreamEvent msg → FitsFrame msg) ↔ EventFits env w act := by
  have hother : (∀ msg ∈ sentOf env w act, ¬ isStreamEvent msg) → EventFits env w act →
      ((∀ msg ∈ sentOf env w act, isStreamEvent msg → FitsFrame msg) ↔ EventFits env w act) :=
    fun hnone hfits => iff_of_true (fun msg hmem hev => absurd hev (hnone msg hmem)) hfits
  cases act with
  | assign msg reply =>
      refine hother ?_ trivial
      intro m hm
      simp only [sentOf, answersOf] at hm
      repeat' split at hm
      all_goals
        simp only [List.mem_cons, List.not_mem_nil, or_false] at hm
        intro hev
      · exact absurd (streamEvent_type (hm ▸ hev)) (by decide)
      · exact absurd (streamEvent_type (hm ▸ hev)) (by decide)
      · exact absurd (streamEvent_type (hm ▸ hev)) (by decide)
      · rcases hm with rfl | rfl
        · exact absurd (streamEvent_type hev) (by decide)
        · exact absurd (streamEvent_type hev) (by decide)
  | cancel msg =>
      refine hother ?_ trivial
      intro m hm
      simp only [sentOf] at hm
      repeat' split at hm
      all_goals
        simp only [List.mem_cons, List.not_mem_nil, or_false] at hm
      subst hm
      exact fun hev => absurd (streamEvent_type hev) (by decide)
  | resume d sync =>
      cases haction : d.action with
      | resumeFrom =>
          cases hlease : d.leaseId with
          | none => exact absurd hlease (d.leaseRequired (Or.inl haction))
          | some leaseId =>
              have hrows : ∀ row ∈ w.store.eventRowsAfter d.attemptId (d.resumeAfterSeq.getD 0),
                  ∃ jobId ev, row.HoldsEvent jobId ev := by
                intro row hrow
                rw [EventLog.eventRowsAfter, List.mem_insertionSort] at hrow
                exact hheld row (List.mem_of_mem_filter hrow)
              simp only [sentOf, haction, hlease, EventFits, EventLog.eventsAfter]
              rw [resentEvents_fit hrows]
              simp
      | resendResult =>
          refine hother ?_ fun hc => absurd (haction.symm.trans hc) (by simp)
          intro m hm
          simp only [sentOf, haction] at hm
          split at hm
          · rename_i res hres
            exact resentResult_type (hg _ _ hres) hm
          · cases hm
      | ackPending | abandon =>
          refine hother ?_ fun hc => absurd (haction.symm.trans hc) (by simp)
          intro m hm
          simp only [sentOf, haction] at hm
          cases hm
  | callback r cb =>
      cases cb with
      | event ev =>
          have hsize : FitsFrame (eventMsgOf env w r ev) ↔
              streamEventBytes (w.jobs r).ctx ((w.jobs r).seq + 1)
                (eventIdOf (w.jobs r).attemptId ((w.jobs r).seq + 1)) ev (env.envelope w.draws) ≤
                  maxFrameBytes := by
            rw [fitsFrame_iff, eventMsgOf, byteLength_streamEvent]
          have hfree : (w.store.events.insert? (eventRowOf env w r ev)).isSome = true ↔
              w.store.events.find? ((w.jobs r).attemptId, (w.jobs r).seq + 1) = none := by
            rw [Option.isSome_iff_ne_none, ne_eq, Table.insert?_eq_none, Option.not_isSome_iff_eq_none]
            rfl
          simp only [sentOf, sentOfCallback, EventFits, ← hsize, ← hfree]
          split
          · rename_i hact
            simp only [hact, forall_const, List.forall_mem_singleton]
            exact ⟨fun h => h rfl, fun h _ => h⟩
          · rename_i hact
            refine iff_of_true (by intro _ hm; cases hm) ?_
            intro hrun hf hins
            exact absurd ⟨hrun, hf, hins⟩ hact
      | approval req =>
          refine hother ?_ trivial
          intro m hm
          simp only [sentOf, sentOfCallback] at hm
          split at hm
          · rw [List.mem_singleton.mp hm]
            exact fun hev => absurd (streamEvent_type hev) (by decide)
          · cases hm
      | done outcome =>
          refine hother ?_ trivial
          intro m hm
          simp only [sentOf, sentOfCallback] at hm
          repeat' split at hm
          · cases hm
          · rw [List.mem_singleton.mp hm]
            exact fun hev => absurd (streamEvent_type hev) (by decide)
          · cases hm
  | _ => exact hother (by intro _ hm; cases hm) trivial

/-! ### Runs -/

/-- What holds of every world. -/
structure Framed (env : Env) (w : World) : Prop where
  sound : w.ledger.Sound
  genuine : Genuine env.sha256Base64Url w.ledger
  held : EventsHeld w

theorem framed_start : Framed env World.start where
  sound := sound_start
  genuine := fun _ _ h => nomatch h
  held := fun _ h => nomatch h

theorem framed_step (h : Framed env w) (act : Action) : Framed env (step env w act) where
  sound := sound_step h.sound act
  genuine := h.genuine.step (step_refines env h.sound act)
  held := eventsHeld_step h.sound h.held act

theorem streamFits_step (h : Framed env w) (hfits : StreamFits w) (act : Action) :
    StreamFits (step env w act) ↔ EventFits env w act := by
  rw [← sentOf_fits h.genuine h.held act, StreamFits, step_sent, List.forall_mem_append]
  exact and_iff_right hfits

theorem streamFits_iff (env : Env) (acts : List Action) :
    (∀ pre post, acts = pre ++ post → StreamFits (runFrom env pre)) ↔
      Along env (EventFits env) acts :=
  Machine.always_iff (J := Framed env) (I := StreamFits) (fun _ act h => framed_step h act)
    (fun _ act h hfits => streamFits_step h hfits act) framed_start (fun _ h => nomatch h)

end HuginAgent
