/-
What is on record has been sent.

The manager keeps texts only to send them again: an event is stored as the text that is sent, a
result too, and a result that is sent again is stored as it then is.  So every text in the store is
that of a message in the log (`Spoken.told`), and that of a result has a digest.  The ids of a job and of its row come from a message
or are drawn, and stay within their bounds (`Spoken.jobs`).
-/
import HuginAgent.Jobs.Named

namespace HuginAgent

open JobManager Ledger

variable {env : Env} {w : World} {sent : List JsObject}

/-- The ids that are drawn are within their bounds. -/
structure Env.DrawsIds (env : Env) : Prop where
  message : ∀ n, isId (env.envelope n).id = true
  run : ∀ n, isId (env.agentRunId n) = true

/-- The text is that of one of the messages. -/
def IsTextOf (sent : List JsObject) (text : JsString) : Prop :=
  ∃ msg ∈ sent, (JsValue.obj msg).wellFormed = true ∧ text = stringifyObject msg

theorem IsTextOf.mono {text : JsString} (h : IsTextOf sent text) (more : List JsObject) :
    IsTextOf (sent ++ more) text := by
  obtain ⟨msg, hmem, hwf, htext⟩ := h
  exact ⟨msg, List.mem_append_left _ hmem, hwf, htext⟩

/-- What the text is read as has a digest. -/
def Digested (text : JsString) : Prop := ∀ o, parseObject text = some o → HasDigest o

theorem digested_stringify {sha : JsString → JsString} {msg : JsObject} {digest : JsString}
    (hwf : (JsValue.obj msg).wellFormed = true) (h : resultDigest sha msg = .ok digest) :
    Digested (stringifyObject msg) := by
  intro o ho
  rw [(parse_wellFormed hwf).1] at ho
  obtain rfl := Option.some.inj ho
  exact (hasDigest_iff sha).mp ⟨digest, resultDigest_onWire h⟩

/-! ### Statements -/

structure AttemptView.Told (sent : List JsObject) (v : AttemptView) : Prop where
  runId : ∀ row, v.row = some row → isId row.agentRunId = true
  events : ∀ row ∈ v.events, IsTextOf sent row.payload
  result : ∀ res, v.result = some res → IsTextOf sent res.payload ∧ Digested res.payload

theorem AttemptView.Told.mono {v : AttemptView} (h : v.Told sent) (more : List JsObject) :
    v.Told (sent ++ more) where
  runId := h.runId
  events row hrow := (h.events row hrow).mono more
  result res hres := ⟨(h.result res hres).1.mono more, (h.result res hres).2⟩

namespace Statement

/-- What the statement writes is within bounds or has been sent. -/
def Tells (sent : List JsObject) : Statement → Prop
  | insertAttempt row => isId row.agentRunId = true
  | insertEvent row => IsTextOf sent row.payload
  | replaceResult row => IsTextOf sent row.payload ∧ Digested row.payload
  | updateResult _ _ _ payload => IsTextOf sent payload ∧ Digested payload
  | _ => True

theorem told_on {v : AttemptView} (h : v.Told sent) {st : Statement} (hst : st.Tells sent) :
    (st.on v).Told sent where
  runId row hrow := by
    rcases row_of_on hrow with ⟨old, hold, -, -, hrun, -⟩ | rfl
    · rw [hrun]
      exact h.runId old hold
    · exact hst
  events row hrow := by
    rcases event_of_on hrow with hold | rfl
    · exact h.events row hold
    · exact hst
  result res hres := by
    rcases result_of_on hres with hold | rfl | ⟨old, a, leaseId, digest, payload, -, rfl, rfl⟩
    · exact h.result res hold
    · exact hst
    · exact hst

end Statement

/-! ### What a handler writes -/

theorem nothing_tells : ∀ st ∈ Write.nothing.statements, st.Tells sent :=
  fun _ hst => absurd hst List.not_mem_nil

theorem isTextOf_sent {msg : JsObject} {msgs : List JsObject} (hmem : msg ∈ msgs)
    (hwf : (JsValue.obj msg).wellFormed = true) :
    IsTextOf (sent ++ msgs) (stringifyObject msg) :=
  ⟨msg, List.mem_append_right _ hmem, hwf, rfl⟩

theorem writeOfCallback_tells (r : Ref) (cb : Callback) :
    ∀ st ∈ (writeOfCallback env w r cb).statements,
      st.Tells (sent ++ sentOfCallback env w r cb) := by
  cases cb with
  | event ev =>
      rw [writeOfCallback, sentOfCallback]
      split
      · intro st hst
        rcases List.mem_cons.mp hst with rfl | hst
        · exact isTextOf_sent List.mem_cons_self (streamEvent_wellFormed ..)
        · rw [List.mem_singleton.mp hst]
          trivial
      · exact nothing_tells
  | approval req => exact nothing_tells
  | done outcome =>
      rw [writeOfCallback, sentOfCallback]
      split
      · cases hdigest : resultDigest env.sha256Base64Url (resultMsgOf env w r outcome) with
        | error e => exact nothing_tells
        | ok digest =>
            intro st hst
            rcases List.mem_cons.mp hst with rfl | hst
            · exact ⟨isTextOf_sent List.mem_cons_self (jobResultMsg_wellFormed ..),
                digested_stringify (jobResultMsg_wellFormed ..) hdigest⟩
            · rw [List.mem_singleton.mp hst]
              trivial
      · exact nothing_tells

/-- The row of a resend is that of the message. -/
theorem resentRow_tells {d : ResumeDirective} {leaseId : JsString} {old res : StoredResult}
    (hold : IsTextOf sent old.payload) (hlease : d.leaseId = some leaseId)
    (h : resentRow env w leaseId old = some res) :
    IsTextOf (sent ++ resentResult env w d old) res.payload ∧ Digested res.payload := by
  obtain ⟨msg, -, hwf, htext⟩ := hold
  obtain ⟨hparse, hwire⟩ := parse_wellFormed hwf
  rw [resentRow, htext, hparse] at h
  rw [resentResult, htext, hparse]
  simp only [hlease, Option.getD_some] at h ⊢
  cases hdigest : resultDigest env.sha256Base64Url
      (restamp (some leaseId) msg.onWire (env.envelope w.draws)) with
  | error e =>
      rw [hdigest] at h
      cases h
  | ok digest =>
      rw [hdigest] at h
      obtain rfl := Option.some.inj h
      have hwf' := restamp_wellFormed hwire leaseId (env.envelope w.draws)
      exact ⟨isTextOf_sent List.mem_cons_self hwf', digested_stringify hwf' hdigest⟩

theorem writeOf_tells (hids : env.DrawsIds) (h : ∀ a, (w.store.view a).Told sent) (act : Action) :
    ∀ st ∈ (writeOf env w act).statements, st.Tells (sent ++ sentOf env w act) := by
  cases act with
  | assign msg reply =>
      rw [writeOf]
      split
      · intro st hst
        rcases List.mem_cons.mp hst with rfl | hst
        · exact hids.run w.draws
        · rw [List.mem_singleton.mp hst]
          trivial
      · exact nothing_tells
  | resume d sync =>
      rw [writeOf]
      split
      · simp [Write.statements, Statement.Tells]
      · simp [Write.statements, Statement.Tells]
      · simp [Write.statements, Statement.Tells]
      · rename_i leaseId haction hlease
        split
        · rename_i res hres
          obtain ⟨old, hold, hrow⟩ := Option.bind_eq_some_iff.mp hres
          intro st hst
          rcases List.mem_cons.mp hst with rfl | hst
          · trivial
          · rw [List.mem_singleton.mp hst]
            simp only [sentOf, haction, hold]
            exact resentRow_tells ((h d.attemptId).result old hold).1 hlease hrow
        · simp [Write.statements, Statement.Tells]
      · exact nothing_tells
  | callback r cb => exact writeOfCallback_tells r cb
  | _ =>
      simp only [writeOf]
      repeat' split
      all_goals simp [Write.statements, Statement.Tells]

/-! ### Every run -/

/-- The ids of every job that was given out are within their bounds. -/
def World.Labelled (w : World) : Prop :=
  ∀ r < w.nextRef, (w.jobs r).ctx.Named ∧ isId (w.jobs r).agentRunId = true

structure Spoken (w : World) : Prop where
  sound : w.ledger.Sound
  jobs : w.Labelled
  told : ∀ a, (w.store.view a).Told w.sent

theorem spoken_start : Spoken World.start where
  sound := sound_start
  jobs := fun _ hr => absurd hr (Nat.not_lt_zero _)
  told := fun _ =>
    ⟨fun _ hrow => absurd hrow (by simp [EventLog.view, EventLog.attemptRow, World.start,
        EventLog.empty]),
      fun _ hrow => absurd hrow List.not_mem_nil,
      fun _ hres => absurd hres (by simp [EventLog.view, EventLog.resultRow, World.start,
        EventLog.empty])⟩

theorem labelled_step (hids : env.DrawsIds) (h : w.Labelled) {act : Action} (hact : act.Parsed) :
    (step env w act).Labelled := by
  intro r hr
  rcases step_kept env w act with hkept | ⟨msg, reply, rfl, hstep⟩
  · obtain ⟨hnamed, hrun⟩ := h r (hkept.next ▸ hr)
    refine ⟨(hkept.jobs r).named (fun _ => brings_named hact) hnamed, ?_⟩
    rw [(hkept.jobs r).runId]
    exact hrun
  · have hacc := acceptAssign_accepting env w msg reply.runThrows
    rw [hstep] at hr ⊢
    by_cases hnew : r = w.nextRef
    · rw [hnew, hacc.ctx, hacc.runId]
      exact ⟨hact, hids.run w.draws⟩
    · rw [hacc.old r hnew]
      have hlt : r < w.nextRef + 1 := hacc.next ▸ hr
      exact h r (Nat.lt_of_le_of_ne (Nat.lt_succ_iff.mp hlt) hnew)

theorem spoken_step (hids : env.DrawsIds) (h : Spoken w) {act : Action} (hact : act.Parsed) :
    Spoken (step env w act) where
  sound := sound_step h.sound act
  jobs := labelled_step hids h.jobs hact
  told := by
    rw [step_store, step_sent]
    refine Statement.forall_view (fun a => (h.told a).mono _) ?_
    intro st hst v hv
    exact Statement.told_on hv (writeOf_tells hids h.told act st hst)

end HuginAgent
