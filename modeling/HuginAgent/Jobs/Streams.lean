/-
What the server has been sent of a stream.

`Ledger.Contiguous` is about numbers.  Here the numbers get their messages: for each
attempt on record there is the list of the `stream.event`s it was sent first, one for
each number from 1 to `last_seq`, and the text of a stored event is the text of the
message that was sent for its number.  A resend sends a number again, never a new one,
so who looks at the log of sent messages from the acceptance on finds the first message
of each number in its place.

Notes are kept beside the run of where the log stood when the attempt was accepted and
of the highest ack since.
-/
import HuginAgent.Jobs.Ownership
import HuginAgent.Jobs.Payload
import HuginAgent.Jobs.Sends
import HuginAgent.Ledger.Stream

namespace HuginAgent

open JobManager Ledger

variable {env : Env} {w : World} {a : JsString} {r : Ref}

/-- The message is the `stream.event` of this attempt and number. -/
structure StreamEventOf (a : JsString) (n : Nat) (o : JsObject) : Prop where
  type : o.get (js "type") = .lit "stream.event"
  attempt : o.get (js "attempt_id") = .str a
  seq : o.get (js "seq") = .ofNat n

/-- The message is the first that was sent for this number, from `start` on. -/
def FirstSent (w : World) (start : Nat) (a : JsString) (n : Nat) (o : JsObject) : Prop :=
  ∃ before after, w.sent.drop start = before ++ o :: after ∧ StreamEventOf a n o ∧
    ∀ o' ∈ before, ¬ StreamEventOf a n o'

structure StreamNotes where
  /-- How many messages had been sent when the attempt was accepted. -/
  start : JsString → Nat
  /-- The highest `ack_seq` accepted since.  An ack counts as far as there was something to
  acknowledge. -/
  acked : JsString → Nat

def noteStream (env : Env) (w : World) (act : Action) (notes : StreamNotes) : StreamNotes :=
  match act with
  | .assign msg reply =>
      if accepts env w msg reply then
        { start := Function.update notes.start msg.attemptId w.sent.length
          acked := Function.update notes.acked msg.attemptId 0 }
      else notes
  | .streamAck msg =>
      if leaseOk w (w.registry.get msg.attemptId) msg.attemptId msg.leaseId then
        let lastSeq := ((w.store.attemptRow msg.attemptId).map AttemptRow.lastSeq).getD 0
        { notes with
          acked := Function.update notes.acked msg.attemptId
            (max (notes.acked msg.attemptId) (min msg.ackSeq lastSeq)) }
      else notes
  | _ => notes

def streamNotes (env : Env) (acts : List Action) : StreamNotes :=
  Machine.track (step env) (noteStream env) World.start ⟨fun _ => 0, fun _ => 0⟩ acts

/-- The engine is silent once it has said it is done, and `ack_pending` comes for attempts that
have a result. -/
def StreamSafe (w : World) : Action → Prop
  | .resume d _ => d.action = .ackPending → (w.store.resultRow d.attemptId).isSome
  | .callback r (.event _) => r ∉ w.ended
  | _ => True

instance : ∀ (w : World) (act : Action), Decidable (StreamSafe w act)
  | w, .resume d _ => inferInstanceAs (Decidable
      (d.action = .ackPending → (w.store.resultRow d.attemptId).isSome))
  | w, .callback r (.event _) => inferInstanceAs (Decidable (r ∉ w.ended))
  | _, .callback _ (.approval _) | _, .callback _ (.done _)
  | _, .assign .. | _, .streamAck _ | _, .resultAck _ | _, .cancel _ | _, .approvalResponse _
  | _, .leaseGranted _ | _, .revoke .. | _, .timer _ | _, .tick _ | _, .restart => .isTrue trivial

/-! ### Messages -/

theorem lit_ne {s t : String} (h : js s ≠ js t) : JsValue.lit s ≠ .lit t := by
  intro hc
  injection hc with hc
  exact h hc

theorem not_streamEvent {type : String} (h : js type ≠ js "stream.event") {ctx : AttemptCtx}
    {rest : JsObject} {e : Envelope} {n : Nat} :
    ¬ StreamEventOf a n (attemptMsg type ctx rest e) := by
  intro hc
  exact lit_ne h hc.type

theorem streamEvent_of (ctx : AttemptCtx) (seq : Nat) (eventId : JsString) (ev : EngineEvent)
    (e : Envelope) : StreamEventOf ctx.attemptId seq (streamEvent ctx seq eventId ev e) :=
  ⟨rfl, rfl, rfl⟩

/-- A message is an event of one attempt and number. -/
theorem StreamEventOf.unique {b : JsString} {n m : Nat} {o : JsObject} (h : StreamEventOf a n o)
    (h' : StreamEventOf b m o) : a = b ∧ n = m := by
  have ha := h.attempt.symm.trans h'.attempt
  have hn := h.seq.symm.trans h'.seq
  injection ha with ha
  exact ⟨ha, JsValue.ofNat_injective hn⟩

theorem StreamEventOf.restamp {n : Nat} {o : JsObject} (h : StreamEventOf a n o)
    (leaseId : JsString) (e : Envelope) :
    StreamEventOf a n (JobManager.restamp (some leaseId) o e) := by
  refine ⟨?_, ?_, ?_⟩
  · rw [restamp_get (by decide) (by decide) (by decide)]
    exact h.type
  · rw [restamp_get (by decide) (by decide) (by decide)]
    exact h.attempt
  · rw [restamp_get (by decide) (by decide) (by decide)]
    exact h.seq

theorem StreamEventOf.onWire {n : Nat} {o : JsObject} (h : StreamEventOf a n o)
    (hwf : (JsValue.obj o).wellFormed = true) : StreamEventOf a n o.onWire := by
  have hkeys := keys_nodup hwf
  refine ⟨?_, ?_, ?_⟩
  · rw [JsObject.get_onWire o hkeys, h.type]
    rfl
  · rw [JsObject.get_onWire o hkeys, h.attempt]
    rfl
  · rw [JsObject.get_onWire o hkeys, h.seq]
    rfl

theorem mem_resentEvents {leaseId : Option JsString} {draw : Nat} {payloads : List JsString}
    {m : JsObject} (h : m ∈ resentEvents env leaseId draw payloads) :
    ∃ p ∈ payloads, ∃ o e, parseObject p = some o ∧ m = restamp leaseId o e := by
  induction payloads generalizing draw with
  | nil => cases h
  | cons p rest ih =>
      rw [resentEvents] at h
      cases hp : parseObject p with
      | none =>
          rw [hp] at h
          cases h
      | some o =>
          rw [hp] at h
          rcases List.mem_cons.mp h with rfl | h
          · exact ⟨p, List.mem_cons_self, o, _, hp, rfl⟩
          · obtain ⟨q, hq, hrest⟩ := ih h
            exact ⟨q, List.mem_cons_of_mem _ hq, hrest⟩

/-- A first message stays the first. -/
theorem FirstSent.append {w' : World} {start n : Nat} {o : JsObject} {msgs : List JsObject}
    (h : FirstSent w start a n o) (hle : start ≤ w.sent.length) (hsent : w'.sent = w.sent ++ msgs) :
    FirstSent w' start a n o := by
  obtain ⟨before, after, hdrop, hev, hbefore⟩ := h
  refine ⟨before, after ++ msgs, ?_, hev, hbefore⟩
  rw [hsent, List.drop_append_of_le_length hle, hdrop]
  simp

/-! ### Bytes -/

theorem totalBytes_cutOff (q r : Ref) :
    ((cutOff w q).jobs r).totalBytes = (w.jobs r).totalBytes := by
  by_cases hq : r = q
  · subst hq
    simp [cutOff, World.callRun, World.clearApprovals]
  · simp [cutOff, World.callRun, World.clearApprovals, World.modifyJob, Function.update_of_ne hq]

theorem totalBytes_retire (q r : Ref) :
    ((retire w q).jobs r).totalBytes = (w.jobs r).totalBytes := by
  by_cases hq : r = q
  · subst hq
    simp [retire, World.clearApprovals]
  · simp [retire, World.clearApprovals, World.modifyJob, Function.update_of_ne hq]

theorem totalBytes_done (q : Ref) (outcome : EngineOutcome) (r : Ref) :
    ((onDone env { w with ended := q :: w.ended } q outcome).jobs r).totalBytes =
      (w.jobs r).totalBytes := by
  by_cases hf : (w.jobs q).fenced = true
  · rw [onDone_fenced hf, totalBytes_retire]
  · rw [Bool.not_eq_true] at hf
    cases hdigest : resultDigest env.sha256Base64Url (resultMsgOf env w q outcome) with
    | error e =>
        rw [onDone_lost hf hdigest]
        by_cases hq : r = q
        · subst hq
          simp [doneUnfenced, World.clearApprovals]
        · simp [doneUnfenced, World.clearApprovals, World.modifyJob, Function.update_of_ne hq]
    | ok digest =>
        rw [onDone_saved hf hdigest]
        by_cases hq : r = q
        · subst hq
          simp [doneSaved, doneUnfenced, World.clearApprovals, World.emit]
        · simp [doneSaved, doneUnfenced, World.clearApprovals, World.emit, World.modifyJob,
            Function.update_of_ne hq]

theorem totalBytes_fence (q : Ref) (b : JsString) (sync : List Callback) (r : Ref) :
    ((fence env w q b sync).jobs r).totalBytes = (w.jobs r).totalBytes := by
  rw [fence_eq]
  by_cases he : endsIn w q sync = true
  · simp only [he, if_true]
    rw [totalBytes_retire, totalBytes_cutOff]
  · simp only [he, if_false, Bool.false_eq_true]
    rw [totalBytes_cutOff]

theorem totalBytes_resendEvents (leaseId : Option JsString) (payloads : List JsString) (r : Ref) :
    ((resendEvents env leaseId w payloads).1.jobs r).totalBytes = (w.jobs r).totalBytes := by
  induction payloads generalizing w with
  | nil => rfl
  | cons p rest ih =>
      rw [resendEvents]
      split
      · rfl
      · exact ih

theorem totalBytes_adoptDirectiveLease (d : ResumeDirective) (r : Ref) :
    ((adoptDirectiveLease w d).jobs r).totalBytes = (w.jobs r).totalBytes := by
  unfold adoptDirectiveLease adoptLease
  split
  · simp only
    split
    · split
      · exact apply_update JobState.totalBytes (by rfl) r
      · rfl
    · rfl
  · rfl

/-- The bytes of the event that the action stores for `r`. -/
def countedBytes (env : Env) (w : World) (r : Ref) : Action → Nat
  | .callback q (.event ev) =>
      if q = r ∧ q ∈ w.runs ∧ (w.jobs q).fenced = false then (eventRowOf env w q ev).bytes else 0
  | _ => 0

theorem totalBytes_event (q : Ref) (ev : EngineEvent) (r : Ref) :
    ((step env w (.callback q (.event ev))).jobs r).totalBytes =
      (w.jobs r).totalBytes + countedBytes env w r (.callback q (.event ev)) := by
  simp only [step, callback, countedBytes]
  by_cases hrun : q ∈ w.runs
  · by_cases hf : (w.jobs q).fenced = true
    · simp [hrun, onEvent, hf]
    · rw [Bool.not_eq_true] at hf
      simp only [hrun, hf, if_true, and_true]
      by_cases hq : r = q
      · subst hq
        cases hins : w.store.events.insert? (eventRowOf env w r ev) with
        | none =>
            rw [onEvent_burn hf hins]
            simp
        | some events =>
            rw [onEvent_stored hf hins]
            split <;> simp [eventStored, World.emit, World.callRun]
      · rw [if_neg (Ne.symm hq), Nat.add_zero]
        cases hins : w.store.events.insert? (eventRowOf env w q ev) with
        | none =>
            rw [onEvent_burn hf hins, World.jobs_modifyJob_of_ne _ _ hq]
        | some events =>
            rw [onEvent_stored hf hins]
            split <;> simp [eventStored, World.emit, World.callRun, World.modifyJob,
              Function.update_of_ne hq]
  · simp [hrun]

/-- A job counts the bytes of its own events. -/
theorem step_totalBytes (act : Action) (hr : r < w.nextRef) :
    ((step env w act).jobs r).totalBytes = (w.jobs r).totalBytes + countedBytes env w r act := by
  cases act with
  | assign msg reply =>
      simp only [step, handleAssign, countedBytes, Nat.add_zero]
      have hne : r ≠ w.nextRef := Nat.ne_of_lt hr
      repeat' split
      · rfl
      · rfl
      · rfl
      · simp only [acceptAssign]
        cases reply.runThrows <;>
          simp [World.send, World.emit, World.modifyJob, Function.update_of_ne hne]
  | streamAck msg =>
      simp only [step, handleStreamAck, countedBytes, Nat.add_zero]
      repeat' split
      · exact apply_update JobState.totalBytes (by rfl) r
      · rfl
      · rfl
      · rfl
  | resultAck msg =>
      simp only [step, handleResultAck, countedBytes, Nat.add_zero]
      repeat' split
      all_goals rfl
  | cancel msg =>
      simp only [step, handleCancel, countedBytes, Nat.add_zero]
      repeat' split
      · rfl
      · exact apply_update JobState.totalBytes (by rfl) r
      · rfl
  | approvalResponse msg =>
      simp only [step, handleApprovalResponse, countedBytes, Nat.add_zero]
      repeat' split
      · rfl
      · rfl
      · exact apply_update JobState.totalBytes (by rfl) r
      · rfl
  | leaseGranted msg =>
      simp only [step, handleLeaseGranted, countedBytes, Nat.add_zero]
      split
      · rfl
      · exact apply_update JobState.totalBytes (by rfl) r
  | revoke msg sync =>
      simp only [step, handleRevoke, countedBytes, Nat.add_zero]
      repeat' split
      · rfl
      · exact totalBytes_fence _ msg.attemptId sync r
      · rfl
  | resume d sync =>
      simp only [step, countedBytes, Nat.add_zero]
      cases haction : d.action with
      | resumeFrom =>
          simp only [applyDirective, haction]
          rw [totalBytes_resendEvents, totalBytes_adoptDirectiveLease]
      | resendResult =>
          simp only [applyDirective, haction, resendResult]
          repeat' split
          all_goals exact totalBytes_adoptDirectiveLease d r
      | ackPending => simp only [applyDirective, haction]
      | abandon =>
          simp only [applyDirective, haction]
          split
          · exact totalBytes_fence _ d.attemptId sync r
          · rfl
  | callback q cb =>
      cases cb with
      | event ev => exact totalBytes_event q ev r
      | approval req =>
          simp only [step, callback, onApprovalRequest, countedBytes, Nat.add_zero]
          repeat' split
          · rfl
          · exact apply_update JobState.totalBytes (by rfl) r
          · rfl
      | done outcome =>
          simp only [step, callback, countedBytes, Nat.add_zero]
          split
          · exact totalBytes_done q outcome r
          · rfl
  | timer id =>
      simp only [step, onTimer, countedBytes, Nat.add_zero]
      split
      · rfl
      · exact apply_update JobState.totalBytes (by rfl) r
  | tick ms => rfl
  | restart => rfl

/-! ### The invariant -/

/-- The first messages of a stream, in the order of their numbers. -/
structure Streamed (w : World) (start : Nat) (a : JsString) (lastSeq : Nat)
    (firsts : List JsObject) : Prop where
  start_le : start ≤ w.sent.length
  length : firsts.length = lastSeq
  first : ∀ n o, firsts[n]? = some o → FirstSent w start a (n + 1) o
  wellFormed : ∀ o ∈ firsts, (JsValue.obj o).wellFormed = true
  range : ∀ n, ∀ o ∈ w.sent.drop start, StreamEventOf a n o → 1 ≤ n ∧ n ≤ lastSeq
  stored : ∀ e ∈ w.store.eventRowsOf a, ∃ n o, e.seq = n + 1 ∧ firsts[n]? = some o ∧
    e.payload = stringifyObject o
  bytes : ∀ r, w.registry.get a = some r →
    (w.jobs r).totalBytes = (firsts.map fun o => byteLength (stringifyObject o)).sum

structure Streaming (env : Env) (w : World) (notes : StreamNotes) : Prop where
  sound : w.ledger.Sound
  owned : w.ledger.Owned
  genuine : Genuine env.sha256Base64Url w.ledger
  contiguous : Contiguous w.ledger notes.acked
  streamed : ∀ a row, w.store.attemptRow a = some row →
    ∃ firsts, Streamed w (notes.start a) a row.lastSeq firsts

theorem rows_eq_some {row : AttemptRow} (h : w.store.attemptRow a = some row) :
    w.ledger.rows a = some row.row := by
  simp [World.ledger, EventLog.rows, h]

/-- What is stored of a stream is the text of a first message. -/
theorem Streaming.stored {notes : StreamNotes} (h : Streaming env w notes) {e : EventRow}
    (he : e ∈ w.store.eventRowsOf a) :
    ∃ o, e.payload = stringifyObject o ∧ (JsValue.obj o).wellFormed = true ∧
      FirstSent w (notes.start a) a e.seq o := by
  cases hrow : w.store.attemptRow a with
  | none =>
      have hbare := h.contiguous.bare a (by simp [World.ledger, EventLog.rows, hrow])
      rw [show w.store.eventRowsOf a = [] from hbare] at he
      cases he
  | some row =>
      obtain ⟨firsts, hst⟩ := h.streamed a row hrow
      obtain ⟨n, o, hseq, ho, hpayload⟩ := hst.stored e he
      exact ⟨o, hpayload, hst.wellFormed o (List.mem_of_getElem? ho), hseq ▸ hst.first n o ho⟩

/-- A `stream.event` is sent by an event, or again for a number that is stored. -/
theorem Streaming.sent {notes : StreamNotes} (h : Streaming env w notes) {act : Action} {n : Nat}
    {o : JsObject} (ho : o ∈ sentOf env w act) (hev : StreamEventOf a n o) :
    (∃ r ev, act = .callback r (.event ev) ∧ r ∈ w.runs ∧ (w.jobs r).fenced = false ∧
        (w.jobs r).attemptId = a ∧ n = (w.jobs r).seq + 1) ∨
      ∃ e ∈ w.store.eventRowsOf a, e.seq = n := by
  cases act with
  | assign msg reply =>
      simp only [sentOf, answersOf] at ho
      repeat' split at ho
      all_goals
        simp only [List.mem_cons, List.not_mem_nil, or_false] at ho
      · exact absurd hev (ho ▸ not_streamEvent (by decide))
      · exact absurd hev (ho ▸ not_streamEvent (by decide))
      · exact absurd hev (ho ▸ not_streamEvent (by decide))
      · rcases ho with ho | ho
        · exact absurd hev (ho ▸ not_streamEvent (by decide))
        · exact absurd hev (ho ▸ not_streamEvent (by decide))
  | cancel msg =>
      simp only [sentOf] at ho
      repeat' split at ho
      · exact absurd hev (List.mem_singleton.mp ho ▸ not_streamEvent (by decide))
      · cases ho
      · cases ho
  | resume d sync =>
      simp only [sentOf] at ho
      cases haction : d.action with
      | resumeFrom =>
          rw [haction] at ho
          obtain ⟨p, hp, o', e, hparse, rfl⟩ := mem_resentEvents ho
          obtain ⟨row, hrow, rfl⟩ := List.mem_map.mp hp
          have hmem : row ∈ w.store.eventRowsOf d.attemptId := by
            have hin := (List.mem_insertionSort _).mp hrow
            obtain ⟨hin, hcond⟩ := List.mem_filter.mp hin
            rw [Bool.and_eq_true] at hcond
            exact List.mem_filter.mpr ⟨hin, hcond.1⟩
          obtain ⟨first, hpayload, hwf, -, -, -, hfirst, -⟩ := h.stored hmem
          rw [hpayload, parseObject_stringifyObject first hwf] at hparse
          obtain rfl := Option.some.inj hparse
          cases hlease : d.leaseId with
          | none => exact absurd hlease (d.leaseRequired (Or.inl haction))
          | some leaseId =>
              rw [hlease] at hev
              obtain ⟨rfl, rfl⟩ := ((hfirst.onWire hwf).restamp leaseId e).unique hev
              exact Or.inr ⟨row, hmem, rfl⟩
      | resendResult =>
          rw [haction] at ho
          simp only at ho
          cases hres : w.store.resultRow d.attemptId with
          | none =>
              rw [hres] at ho
              cases ho
          | some res =>
              -- what is resent is a `job.result`
              rw [hres] at ho
              obtain ⟨o', hparse, -, htype, -⟩ := (h.genuine _ res hres).parses
              simp only [resentResult, hparse] at ho
              split at ho
              · cases ho
              · obtain rfl := List.mem_singleton.mp ho
                have hc := hev.type
                rw [restamp_get (by decide) (by decide) (by decide), htype] at hc
                exact absurd hc (lit_ne (by decide))
      | ackPending =>
          rw [haction] at ho
          cases ho
      | abandon =>
          rw [haction] at ho
          cases ho
  | callback r cb =>
      cases cb with
      | event ev =>
          by_cases hact : r ∈ w.runs ∧ (w.jobs r).fenced = false ∧
              (w.store.events.insert? (eventRowOf env w r ev)).isSome
          · have hmsgs : sentOf env w (.callback r (.event ev)) = [eventMsgOf env w r ev] := by
              simp only [sentOf, sentOfCallback]
              rw [if_pos hact]
            rw [hmsgs] at ho
            obtain rfl := List.mem_singleton.mp ho
            have hown : StreamEventOf (w.jobs r).attemptId ((w.jobs r).seq + 1)
                (eventMsgOf env w r ev) := streamEvent_of (w.jobs r).ctx _ _ _ _
            obtain ⟨ha, hn⟩ := hev.unique hown
            exact Or.inl ⟨r, ev, rfl, hact.1, hact.2.1, ha.symm, hn⟩
          · simp only [sentOf, sentOfCallback] at ho
            rw [if_neg hact] at ho
            cases ho
      | approval req =>
          simp only [sentOf, sentOfCallback] at ho
          split at ho
          · exact absurd hev (List.mem_singleton.mp ho ▸ not_streamEvent (by decide))
          · cases ho
      | done outcome =>
          simp only [sentOf, sentOfCallback] at ho
          repeat' split at ho
          · cases ho
          · exact absurd hev (List.mem_singleton.mp ho ▸ not_streamEvent (by decide))
          · cases ho
  | _ => cases ho

/-! ### Every step keeps it -/

theorem careful_of_streamSafe (ho : w.ledger.Owned) {act : Action} (h : StreamSafe w act) :
    Careful w.ledger (opOf env w act) := by
  cases hop : opOf env w act with
  | ackPending a =>
      obtain ⟨d, sync, rfl, rfl, haction⟩ := opOf_eq_ackPending hop
      intro r hr
      have hres := h haction
      rw [show w.store.resultRow d.attemptId = none from ho.noResult _ r hr] at hres
      cases hres
  | _ => trivial

theorem orderly_of_streamSafe {act : Action} (h : StreamSafe w act) :
    Orderly w.ledger (opOf env w act) := by
  cases hop : opOf env w act with
  | event r row pause =>
      obtain ⟨ev, events, rfl, -⟩ := opOf_eq_event hop
      exact h
  | burn r =>
      obtain ⟨ev, rfl⟩ := opOf_eq_burn hop
      exact h
  | _ => trivial

theorem noteStream_acked (act : Action) (notes : StreamNotes) :
    (noteStream env w act notes).acked = (opOf env w act).noteAck w.ledger notes.acked := by
  cases act with
  | assign msg reply =>
      rw [opOf_assign, noteStream]
      split <;> rfl
  | streamAck msg =>
      simp only [noteStream, opOf]
      split
      · simp only [Op.noteAck, World.ledger, EventLog.rows, Option.map_map]
        rfl
      · rfl
  | callback r cb =>
      cases cb <;> simp only [noteStream, opOf, opOfCallback] <;> repeat' split
      all_goals rfl
  | _ =>
      simp only [noteStream, opOf]
      repeat' split
      all_goals rfl

theorem noteStream_start (act : Action) (notes : StreamNotes) (a : JsString) :
    (noteStream env w act notes).start a =
      if takesUp env w a act = true then w.sent.length else notes.start a := by
  cases act with
  | assign msg reply =>
      simp only [noteStream, takesUp]
      by_cases hacc : accepts env w msg reply = true
      · by_cases ha : a = msg.attemptId
        · simp [hacc, ha]
        · simp [hacc, Function.update_of_ne ha, Ne.symm ha]
      · simp [hacc]
  | streamAck msg =>
      simp only [noteStream, takesUp]
      split <;> rfl
  | _ => rfl

/-- A run that is live finds the number of its next event free. -/
theorem Streaming.inserts {notes : StreamNotes} (h : Streaming env w notes) (hrun : r ∈ w.runs)
    (hf : (w.jobs r).fenced = false) (hended : r ∉ w.ended) (ev : EngineEvent) :
    ∃ events, w.store.events.insert? (eventRowOf env w r ev) = some events := by
  cases hins : w.store.events.insert? (eventRowOf env w r ev) with
  | some events => exact ⟨events, rfl⟩
  | none =>
      have hop : opOf env w (.callback r (.event ev)) = .burn r := by
        simp [opOf, opOfCallback, hrun, hf, hins]
      have hstep := step_refines env h.sound (.callback r (.event ev))
      rw [hop] at hstep
      exact (h.contiguous.no_burn h.sound h.owned hstep hended).elim

/-- The event of a live run gets the number after `last_seq`, and the run is the registered one. -/
theorem Streaming.emits {notes : StreamNotes} (h : Streaming env w notes) (hrun : r ∈ w.runs)
    (hf : (w.jobs r).fenced = false) (hended : r ∉ w.ended) (ev : EngineEvent) :
    sentOf env w (.callback r (.event ev)) = [eventMsgOf env w r ev] ∧
      (∃ pause, opOf env w (.callback r (.event ev)) = .event r (eventRowOf env w r ev) pause) ∧
      w.registry.get (w.jobs r).attemptId = some r ∧
      ∃ row, w.store.attemptRow (w.jobs r).attemptId = some row ∧
        (w.jobs r).seq = row.lastSeq := by
  obtain ⟨events, hins⟩ := h.inserts hrun hf hended ev
  obtain ⟨hlive, row, hrow⟩ := h.owned.emitter h.sound hrun hended hf
  refine ⟨?_, ?_, hlive, ?_⟩
  · simp [sentOf, sentOfCallback, hrun, hf, hins]
  · refine ⟨overCap env { w.store with events } (w.jobs r).attemptId, ?_⟩
    simp only [opOf, opOfCallback, hrun, hf, and_self, if_true, hins]
  · obtain ⟨row', hrow', hlast⟩ := Option.map_eq_some_iff.mp hrow
    have hseq := h.contiguous.seq _ r row hlive hrow
    exact ⟨row', hrow', hseq.trans (congrArg Row.lastSeq hlast).symm⟩

/-- An attempt that has just been accepted has been sent nothing. -/
theorem streamed_accept {notes : StreamNotes} (h : Streaming env w notes) {act : Action}
    (hsafe : StreamSafe w act) {row' : AttemptRow}
    (hrow' : (step env w act).store.attemptRow a = some row')
    (hrec : (opOf env w act).records a = true) :
    Streamed (step env w act) w.sent.length a row'.lastSeq [] := by
  have hstep := step_refines env h.sound act
  have hcont := h.contiguous.step h.sound h.owned hstep (orderly_of_streamSafe hsafe)
  have hlast := hstep.lastSeq a
  rw [rows_eq_some hrow', if_pos hrec] at hlast
  have hzero : row'.lastSeq = 0 := Option.some.inj hlast
  obtain ⟨lease, started, hop⟩ : ∃ lease started, opOf env w act = .accept a lease started := by
    cases hop : opOf env w act with
    | accept b lease started =>
        rw [hop] at hrec
        exact ⟨lease, started, by rw [of_decide_eq_true hrec]⟩
    | _ =>
        rw [hop] at hrec
        cases hrec
  obtain ⟨msg, reply, rfl, rfl, -, -, hnew, href⟩ := opOf_eq_accept hop
  obtain ⟨hreg, hnone⟩ := existing_eq_none hnew
  refine ⟨by rw [step_sent]; simp, hzero.symm, fun n o ho => ?_, fun o ho => ?_, ?_, ?_, ?_⟩
  · simp at ho
  · cases ho
  · intro n o ho hev
    rw [step_sent, List.drop_left] at ho
    rcases h.sent ho hev with ⟨r, ev, hact, -⟩ | ⟨e, he, -⟩
    · cases hact
    · have hbare := h.contiguous.bare msg.attemptId (by simp [World.ledger, EventLog.rows, hnone])
      rw [show w.store.eventRowsOf msg.attemptId = [] from hbare] at he
      cases he
  · intro e he
    obtain ⟨hle, hblock⟩ := hcont.block _ _ (rows_eq_some hrow')
    rw [show row'.row.lastSeq = 0 from hzero, Nat.zero_sub, List.range'_zero,
      List.map_eq_nil_iff] at hblock
    rw [show (step env w (.assign msg reply)).store.eventRowsOf msg.attemptId = [] from hblock] at he
    cases he
  · intro r hr
    rw [step, handleAssign, hnew] at hr ⊢
    simp only [href, acceptAssign] at hr ⊢
    cases hthrows : reply.runThrows with
    | true =>
        simp only [hthrows, World.send, World.emit, World.modifyJob, if_true, JobRegistry.get_add,
          Option.some.injEq] at hr ⊢
        subst hr
        simp
    | false =>
        simp only [hthrows, World.send, World.emit, World.modifyJob, if_false, Bool.false_eq_true,
          JobRegistry.get_add, if_true, Option.some.injEq] at hr ⊢
        subst hr
        simp

/-- The next event of a stream. -/
theorem streamed_event {notes : StreamNotes} (h : Streaming env w notes) {ev : EngineEvent}
    (hrun : r ∈ w.runs) (hf : (w.jobs r).fenced = false) (hended : r ∉ w.ended) {row : AttemptRow}
    (hrow : w.store.attemptRow (w.jobs r).attemptId = some row) {firsts : List JsObject}
    (hst : Streamed w (notes.start (w.jobs r).attemptId) (w.jobs r).attemptId row.lastSeq firsts) :
    Streamed (step env w (.callback r (.event ev))) (notes.start (w.jobs r).attemptId)
      (w.jobs r).attemptId (row.lastSeq + 1) (firsts ++ [eventMsgOf env w r ev]) := by
  obtain ⟨hmsgs, ⟨pause, hop⟩, hlive, row2, hrow2, hseq⟩ := h.emits hrun hf hended ev
  obtain rfl : row2 = row := Option.some.inj (hrow2.symm.trans hrow)
  have hstep := step_refines env h.sound (.callback r (.event ev))
  rw [hop] at hstep
  have hsent : (step env w (.callback r (.event ev))).sent = w.sent ++ [eventMsgOf env w r ev] := by
    rw [step_sent, hmsgs]
  have hown : StreamEventOf (w.jobs r).attemptId (row2.lastSeq + 1) (eventMsgOf env w r ev) := by
    rw [← hseq]
    exact streamEvent_of (w.jobs r).ctx _ _ _ _
  have hdrop : (w.sent ++ [eventMsgOf env w r ev]).drop (notes.start (w.jobs r).attemptId) =
      w.sent.drop (notes.start (w.jobs r).attemptId) ++ [eventMsgOf env w r ev] :=
    List.drop_append_of_le_length hst.start_le
  have hevents := hstep.eventsOf_kept (a := (w.jobs r).attemptId) (fun _ => rfl)
  have hrows : (step env w (.callback r (.event ev))).store.eventRowsOf (w.jobs r).attemptId =
      w.store.eventRowsOf (w.jobs r).attemptId ++ [eventRowOf env w r ev] := by
    refine hevents.trans (congrArg _ ?_)
    simp [Op.stored, eventRowOf]
  refine ⟨?_, ?_, ?_, ?_, ?_, ?_, ?_⟩
  · rw [hsent, List.length_append]
    exact hst.start_le.trans (Nat.le_add_right _ _)
  · rw [List.length_append, hst.length]
    rfl
  · intro n o ho
    by_cases hn : n < firsts.length
    · rw [List.getElem?_append_left hn] at ho
      exact (hst.first n o ho).append hst.start_le hsent
    · have hlast : n = firsts.length := by
        have := (List.getElem?_eq_some_iff.mp ho).1
        rw [List.length_append, List.length_singleton] at this
        omega
      subst hlast
      rw [List.getElem?_concat_length] at ho
      obtain rfl := Option.some.inj ho
      refine ⟨w.sent.drop (notes.start (w.jobs r).attemptId), [], ?_, ?_, ?_⟩
      · rw [hsent, hdrop]
      · rw [hst.length]
        exact hown
      · intro o' ho' hev
        have := (hst.range _ o' ho' hev).2
        rw [hst.length] at this
        omega
  · intro o ho
    rcases List.mem_append.mp ho with ho | ho
    · exact hst.wellFormed o ho
    · obtain rfl := List.mem_singleton.mp ho
      exact streamEvent_wellFormed _ _ _ _ _
  · intro n o ho hev
    rw [hsent, hdrop] at ho
    rcases List.mem_append.mp ho with ho | ho
    · have := hst.range n o ho hev
      omega
    · obtain rfl := List.mem_singleton.mp ho
      have := (hev.unique hown).2
      omega
  · intro e he
    rw [hrows] at he
    rcases List.mem_append.mp he with he | he
    · obtain ⟨n, o, hn, ho, hpayload⟩ := hst.stored e he
      have hlt := (List.getElem?_eq_some_iff.mp ho).1
      exact ⟨n, o, hn, by rw [List.getElem?_append_left hlt]; exact ho, hpayload⟩
    · obtain rfl := List.mem_singleton.mp he
      refine ⟨firsts.length, eventMsgOf env w r ev, ?_, List.getElem?_concat_length, rfl⟩
      rw [hst.length]
      exact congrArg (· + 1) hseq
  · intro q hq
    have hreg : w.registry.get (w.jobs r).attemptId = some q := by
      rcases hstep.live (w.jobs r).attemptId with (heq | hnone) | ⟨lease, started, hc, -⟩
      · exact heq.symm.trans hq
      · exact absurd (hnone.symm.trans hq) (by simp)
      · cases hc
    obtain rfl : r = q := Option.some.inj (hlive.symm.trans hreg)
    rw [step_totalBytes _ (h.sound.live_lt _ r hlive), hst.bytes r hlive]
    simp [countedBytes, hrun, hf, eventRowOf]

/-- A step that is not an event of the attempt. -/
theorem streamed_kept {notes : StreamNotes} (h : Streaming env w notes) {act : Action}
    {row : AttemptRow} {firsts : List JsObject}
    (hst : Streamed w (notes.start a) a row.lastSeq firsts)
    (hrec : (opOf env w act).records a = false)
    (hno : ¬ ∃ r ev, act = .callback r (.event ev) ∧ r ∈ w.runs ∧ (w.jobs r).fenced = false ∧
      (w.jobs r).attemptId = a) :
    Streamed (step env w act) (notes.start a) a row.lastSeq firsts := by
  have hstep := step_refines env h.sound act
  have hdrop : (w.sent ++ sentOf env w act).drop (notes.start a) =
      w.sent.drop (notes.start a) ++ sentOf env w act :=
    List.drop_append_of_le_length hst.start_le
  refine ⟨?_, hst.length, ?_, hst.wellFormed, ?_, ?_, ?_⟩
  · rw [step_sent, List.length_append]
    exact hst.start_le.trans (Nat.le_add_right _ _)
  · intro n o ho
    exact (hst.first n o ho).append hst.start_le (step_sent env w act)
  · intro n o ho hev
    rw [step_sent, hdrop] at ho
    rcases List.mem_append.mp ho with ho | ho
    · exact hst.range n o ho hev
    · rcases h.sent ho hev with ⟨r, ev, hact, hrun, hf, ha, -⟩ | ⟨e, he, hseq⟩
      · exact absurd ⟨r, ev, hact, hrun, hf, ha⟩ hno
      · -- a resend of a number that is stored
        obtain ⟨k, o', hk, ho', -⟩ := hst.stored e he
        have hlt := (List.getElem?_eq_some_iff.mp ho').1
        rw [hst.length] at hlt
        omega
  · intro e he
    have hold : e ∈ w.store.eventRowsOf a := by
      have hevents : (step env w act).store.eventRowsOf a = _ := hstep.eventsOf a
      rw [hevents] at he
      rcases List.mem_append.mp he with he | he
      · exact (List.mem_filter.mp he).1
      · obtain ⟨hmem, hid⟩ := List.mem_filter.mp he
        have hop : (opOf env w act).stored = some e := Option.mem_toList.mp hmem
        cases hopq : opOf env w act with
        | event q row pause =>
            rw [hopq] at hop hstep
            obtain rfl := Option.some.inj hop
            obtain ⟨ev, events, rfl, -⟩ := opOf_eq_event hopq
            obtain ⟨run, unfenced, id⟩ := hstep.emitter
            exact absurd ⟨q, ev, rfl, run, unfenced, id.symm.trans (of_decide_eq_true hid)⟩ hno
        | _ =>
            rw [hopq] at hop
            cases hop
    exact hst.stored e hold
  · intro q hq
    have hreg : w.registry.get a = some q := by
      rcases hstep.live a with (heq | hnone) | ⟨lease, started, hc, -⟩
      · exact heq.symm.trans hq
      · exact absurd (hnone.symm.trans hq) (by simp)
      · rw [hc] at hrec
        exact absurd (decide_eq_true rfl) (Bool.eq_false_iff.mp hrec)
    have hid : (w.jobs q).attemptId = a := h.sound.attempt a q hreg
    rw [step_totalBytes _ (h.sound.live_lt a q hreg), hst.bytes q hreg]
    have hzero : countedBytes env w q act = 0 := by
      unfold countedBytes
      split
      · rename_i p ev
        split
        · rename_i hp
          obtain ⟨rfl, hrun, hf⟩ := hp
          exact absurd ⟨p, ev, rfl, hrun, hf, hid⟩ hno
        · rfl
      · rfl
    rw [hzero, Nat.add_zero]

/-- **Every step keeps what was sent of the streams in its place.** -/
theorem Streaming.step {notes : StreamNotes} (h : Streaming env w notes) {act : Action}
    (hsafe : StreamSafe w act) :
    Streaming env (HuginAgent.step env w act) (noteStream env w act notes) := by
  have hstep := step_refines env h.sound act
  have horderly : Orderly w.ledger (opOf env w act) := orderly_of_streamSafe hsafe
  refine ⟨sound_step h.sound act, h.owned.step hstep h.sound (careful_of_streamSafe h.owned hsafe),
    h.genuine.step hstep, ?_, ?_⟩
  · rw [noteStream_acked]
    exact h.contiguous.step h.sound h.owned hstep horderly
  · intro a row' hrow'
    rw [noteStream_start, takesUp_eq]
    by_cases hrec : (opOf env w act).records a = true
    · rw [if_pos hrec]
      exact ⟨[], streamed_accept h hsafe hrow' hrec⟩
    · rw [if_neg hrec]
      rw [Bool.not_eq_true] at hrec
      have hlast := hstep.lastSeq a
      rw [rows_eq_some hrow', hrec, if_neg Bool.false_ne_true] at hlast
      split at hlast
      · cases hlast
      · obtain ⟨row₀, hrow₀, hreach⟩ := Option.map_eq_some_iff.mp hlast.symm
        obtain ⟨row, hrow, hview⟩ := Option.map_eq_some_iff.mp hrow₀
        have hlast₀ : row₀.lastSeq = row.lastSeq := (congrArg Row.lastSeq hview).symm
        obtain ⟨firsts, hst⟩ := h.streamed a row hrow
        have hreach' : row'.lastSeq = (opOf env w act).reached a row.lastSeq := by
          rw [← hlast₀]
          exact hreach.symm
        by_cases hemit : ∃ r ev, act = .callback r (.event ev) ∧ r ∈ w.runs ∧
            (w.jobs r).fenced = false ∧ (w.jobs r).attemptId = a
        · obtain ⟨r, ev, rfl, hrun, hf, rfl⟩ := hemit
          obtain ⟨-, ⟨pause, hop⟩, -, row2, hrow2, hseq⟩ := h.emits hrun hf hsafe ev
          obtain rfl : row2 = row := Option.some.inj (hrow2.symm.trans hrow)
          have hnext : row'.lastSeq = row2.lastSeq + 1 := by
            rw [hreach', hop]
            simp only [Op.reached, eventRowOf, if_true]
            omega
          rw [hnext]
          exact ⟨_, streamed_event h hrun hf hsafe hrow hst⟩
        · have hsame : row'.lastSeq = row.lastSeq := by
            rw [hreach']
            cases hop : opOf env w act with
            | event q e pause =>
                obtain ⟨ev, events, rfl, rfl, -⟩ := opOf_eq_event hop
                rw [hop] at hstep
                have hne : (w.jobs q).attemptId ≠ a := by
                  intro hc
                  obtain ⟨run, unfenced, -⟩ := hstep.emitter
                  exact hemit ⟨q, ev, rfl, run, unfenced, hc⟩
                simp [Op.reached, eventRowOf, hne]
            | _ => rfl
          rw [hsame]
          exact ⟨firsts, streamed_kept h hst hrec hemit⟩

theorem streaming_start : Streaming env World.start ⟨fun _ => 0, fun _ => 0⟩ where
  sound := sound_start
  owned := owned_start
  genuine := fun a res hres => absurd hres (by
    simp [World.ledger, World.start, EventLog.resultRow, EventLog.empty])
  contiguous := ⟨fun a row hrow => absurd hrow (by simp [World.ledger, World.start, EventLog.rows,
      EventLog.attemptRow, EventLog.empty]), fun _ _ => rfl,
    fun a r row hl => absurd hl (by simp [World.ledger, World.start])⟩
  streamed := fun a row hrow => absurd hrow (by simp [World.start, EventLog.attemptRow,
    EventLog.empty])

/-- **In every run with an orderly engine the streams are in place.** -/
theorem streaming {acts : List Action} (h : Along env StreamSafe acts) :
    Streaming env (runFrom env acts) (streamNotes env acts) :=
  Machine.track_invariant (step env) (noteStream env) (fun _ _ _ hI hsafe => hI.step hsafe)
    streaming_start h

end HuginAgent
