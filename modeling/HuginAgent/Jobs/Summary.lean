/-
The terminal summary of a stream.

`onDone` reports counters that live in memory, and the server reconciles the stream with
them.  They are right: `seq` is the number of messages that were sent first, `totalBytes`
the sum of the sizes under which they were stored, and each of them was stored by the
statement before it was sent.  From then on the result is the run's last word.  The row
stays until the attempt is dropped, and only `resend_result` writes it again, with another
envelope and lease.
-/
import HuginAgent.Jobs.Streams
import HuginAgent.Jobs.Writes

namespace HuginAgent

open JobManager Ledger

variable {env : Env} {w : World} {a : JsString} {r : Ref}

/-- The message was stored by the event that sent it, and only then sent. -/
def PersistedFirst (env : Env) (acts : List Action) (a : JsString) (n : Nat) (o : JsObject) : Prop :=
  ∃ pre r ev post row, acts = pre ++ .callback r (.event ev) :: post ∧
    effectsOf env (runFrom env pre) (.callback r (.event ev)) =
      [.stmt (.insertEvent row), .stmt (.advanceSeq a n), .send o] ∧
    row.attemptId = a ∧ row.seq = n ∧ row.payload = stringifyObject o ∧
    row.bytes = byteLength row.payload

/-- The row is the one that was saved for the message, but for what a re-stamp sets. -/
structure SameResult (msg : JsObject) (saved res : StoredResult) : Prop where
  attemptId : res.attemptId = saved.attemptId
  jobId : res.jobId = saved.jobId
  finalStatus : res.finalStatus = saved.finalStatus
  lastEmittedSeq : res.lastEmittedSeq = saved.lastEmittedSeq
  payload : ∃ o, res.payload = stringifyObject o ∧ (JsValue.obj o).wellFormed = true ∧
    ∀ key, key ≠ js "lease_id" → key ≠ js "id" → key ≠ js "ts" →
      (o.get key).onWire = (msg.get key).onWire

/-- The action sends the result of the attempt again. -/
def Action.resends (a : JsString) : Action → Bool
  | .resume d _ => d.attemptId = a && d.action = .resendResult
  | _ => false

/-- What becomes of a saved result. -/
structure LastWord (env : Env) (w : World) (r : Ref) (a : JsString) (msg : JsObject)
    (saved : StoredResult) : Prop where
  /-- The run stores no second one. -/
  once : ∀ more outcome, let w₂ := Machine.run (step env) w more
    step env w₂ (.callback r (.done outcome)) = w₂
  /-- The row stays until it is deleted, and is changed by `resend_result` alone. -/
  row : ∀ more, Machine.Along (step env) StreamSafe w more →
    (∃ pre post, more = pre ++ post ∧
      (Machine.run (step env) w pre).store.resultRow a = none) ∨
    ∃ res, (Machine.run (step env) w more).store.resultRow a = some res ∧
      SameResult msg saved res ∧ ((∀ act ∈ more, act.resends a = false) → res = saved)

/-- What the terminal summary says of the messages that were sent first, and that it is so. -/
structure TerminalSummary (env : Env) (acts : List Action) (done : Action) (r : Ref) (a : JsString)
    (msg : JsObject) (saved : StoredResult) (firsts : List JsObject) : Prop where
  order : ∃ status, effectsOf env (runFrom env acts) done =
    [.stmt (.replaceResult saved), .stmt (.setStatus a status), .send msg]
  sent : (runFrom env (acts ++ [done])).sent = (runFrom env acts).sent ++ [msg]
  stored : (runFrom env (acts ++ [done])).store.resultRow a = some saved
  payload : saved.payload = stringifyObject msg
  lastEmittedSeq : saved.lastEmittedSeq = firsts.length
  lastSeq : ((runFrom env (acts ++ [done])).store.attemptRow a).map AttemptRow.lastSeq =
    some firsts.length
  stats : msg.get (js "stats") = .obj
    [(js "event_count", .ofNat firsts.length),
      (js "bytes", .ofNat (firsts.map fun o => byteLength (stringifyObject o)).sum)]
  first : ∀ n o, firsts[n]? = some o →
    FirstSent (runFrom env acts) ((streamNotes env acts).start a) a (n + 1) o ∧
      PersistedFirst env acts a (n + 1) o
  only : ∀ n, ∀ o ∈ (runFrom env acts).sent.drop ((streamNotes env acts).start a),
    StreamEventOf a n o → 1 ≤ n ∧ n ≤ firsts.length
  later : LastWord env (runFrom env (acts ++ [done])) r a msg saved

/-! ### Stored, then sent -/

theorem effectsOf_event {ev : EngineEvent} (hrun : r ∈ w.runs) (hf : (w.jobs r).fenced = false)
    {events : Table EventRow.key} (hins : w.store.events.insert? (eventRowOf env w r ev) = some events) :
    effectsOf env w (.callback r (.event ev)) =
      [.stmt (.insertEvent (eventRowOf env w r ev)),
        .stmt (.advanceSeq (w.jobs r).attemptId ((w.jobs r).seq + 1)),
        .send (eventMsgOf env w r ev)] := by
  have hact : r ∈ w.runs ∧ (w.jobs r).fenced = false ∧
      (w.store.events.insert? (eventRowOf env w r ev)).isSome := ⟨hrun, hf, by rw [hins]; rfl⟩
  have hwrite : writeOf env w (.callback r (.event ev)) = .append (eventRowOf env w r ev) :=
    if_pos hact
  have hsent : sentOf env w (.callback r (.event ev)) = [eventMsgOf env w r ev] := if_pos hact
  simp only [effectsOf, hwrite, hsent]
  rfl

/-- The statement that an attempt's stream was not taken up anew by the action. -/
theorem start_kept {notes : StreamNotes} {act : Action}
    (hrec : (opOf env w act).records a = false) : (noteStream env w act notes).start a = notes.start a := by
  rw [noteStream_start, takesUp_eq, hrec, if_neg Bool.false_ne_true]

/-- A first message that is sent by this action. -/
theorem persisted_now {acts : List Action} {act : Action} (h : Along env StreamSafe acts)
    (hsafe : StreamSafe (runFrom env acts) act) {n : Nat} {o : JsObject}
    (hmem : o ∈ sentOf env (runFrom env acts) act) (hev : StreamEventOf a n o)
    (hfirst : ∀ o' ∈ (runFrom env acts).sent.drop ((streamNotes env acts).start a),
      ¬ StreamEventOf a n o') :
    PersistedFirst env (acts ++ [act]) a n o := by
  have hst : Streaming env (runFrom env acts) (streamNotes env acts) := streaming h
  rcases hst.sent hmem hev with ⟨q, ev, rfl, hrun, hf, rfl, rfl⟩ | ⟨e, he, rfl⟩
  · obtain ⟨events, hins⟩ := hst.inserts hrun hf hsafe ev
    obtain ⟨hmsgs, -⟩ := hst.emits hrun hf hsafe ev
    rw [hmsgs] at hmem
    obtain rfl := List.mem_singleton.mp hmem
    exact ⟨acts, q, ev, [], eventRowOf env (runFrom env acts) q ev, rfl,
      effectsOf_event hrun hf hins, rfl, rfl, rfl, rfl⟩
  · -- a number that is stored was sent before
    obtain ⟨o', -, -, before, after, hdrop, hev', -⟩ := hst.stored he
    refine absurd hev' (hfirst o' ?_)
    rw [hdrop]
    simp

/-- **What was sent first for a number was stored before it was sent.** -/
theorem persisted_first (acts : List Action) (h : Along env StreamSafe acts)
    (hrow : ((runFrom env acts).store.attemptRow a).isSome) {n : Nat} {o : JsObject}
    (hfirst : FirstSent (runFrom env acts) ((streamNotes env acts).start a) a n o) :
    PersistedFirst env acts a n o := by
  induction acts using List.reverseRecOn with
  | nil => cases hrow
  | append_singleton acts act ih =>
      obtain ⟨hacts, hsafe, -⟩ := Machine.along_append.mp h
      have hst : Streaming env (runFrom env acts) (streamNotes env acts) := streaming hacts
      have hsafe : StreamSafe (runFrom env acts) act := hsafe
      have hnotes : streamNotes env (acts ++ [act]) =
          noteStream env (runFrom env acts) act (streamNotes env acts) :=
        Machine.track_append _ _ _ _ _ _
      rw [runFrom_snoc] at hrow hfirst
      rw [hnotes] at hfirst
      obtain ⟨before, after, hdrop, hev, hnone⟩ := hfirst
      have hstep := step_refines env hst.sound act
      by_cases hrec : (opOf env (runFrom env acts) act).records a = true
      · -- a stream that has just begun has no message
        obtain ⟨row', hrow'⟩ := Option.isSome_iff_exists.mp hrow
        have hnew := streamed_accept hst hsafe hrow' hrec
        rw [noteStream_start, takesUp_eq, if_pos hrec] at hdrop
        have hrange := hnew.range n o (by rw [hdrop]; simp) hev
        have hzero : row'.lastSeq = 0 := hnew.length.symm
        omega
      · rw [Bool.not_eq_true] at hrec
        have hbefore : ((runFrom env acts).store.attemptRow a).isSome := by
          have hkept := hstep.recorded a
          rw [hrec, Bool.false_or] at hkept
          have hboth := hkept.symm.trans (recorded_iff.mpr hrow)
          rw [Bool.and_eq_true] at hboth
          exact recorded_iff.mp hboth.2
        obtain ⟨row, hrow⟩ := Option.isSome_iff_exists.mp hbefore
        obtain ⟨firsts, hstreamed⟩ := hst.streamed a row hrow
        rw [start_kept hrec, step_sent, List.drop_append_of_le_length hstreamed.start_le] at hdrop
        rcases List.append_eq_append_iff.mp hdrop with ⟨mid, hmid, hnew⟩ | ⟨mid, hmid, hnew⟩
        · refine persisted_now hacts hsafe (by rw [hnew]; simp) hev ?_
          intro o' ho'
          exact hnone o' (by rw [hmid]; exact List.mem_append_left _ ho')
        · cases mid with
          | nil =>
              refine persisted_now hacts hsafe (by rw [List.nil_append] at hnew; simp [← hnew]) hev ?_
              intro o' ho'
              exact hnone o' (by rwa [hmid, List.append_nil] at ho')
          | cons m mid =>
              obtain ⟨rfl, -⟩ := List.cons.inj hnew
              obtain ⟨pre, q, ev, post, row', hsplit, hrest⟩ :=
                ih hacts hbefore ⟨before, mid, hmid, hev, hnone⟩
              exact ⟨pre, q, ev, post ++ [act], row', by rw [hsplit]; simp, hrest⟩

/-! ### The last word -/

theorem SameResult.refl {msg : JsObject} {saved : StoredResult}
    (hpayload : saved.payload = stringifyObject msg) (hwf : (JsValue.obj msg).wellFormed = true) :
    SameResult msg saved saved :=
  ⟨rfl, rfl, rfl, rfl, msg, hpayload, hwf, fun _ _ _ _ => rfl⟩

/-- A re-stamped row is the same. -/
theorem SameResult.resent {msg : JsObject} {saved old res : StoredResult} {leaseId : JsString}
    (h : SameResult msg saved old) (hres : resentRow env w leaseId old = some res) :
    SameResult msg saved res := by
  obtain ⟨o, hpayload, hwf, hsame⟩ := h.payload
  have hkeys := keys_nodup hwf
  have hparse : parseObject old.payload = some o.onWire := by
    rw [hpayload]
    exact parseObject_stringifyObject o hwf
  simp only [resentRow, hparse] at hres
  split at hres
  · cases hres
  · obtain rfl := Option.some.inj hres
    refine ⟨h.attemptId, h.jobId, h.finalStatus, h.lastEmittedSeq, _, rfl,
      restamp_wellFormed (JsValue.onWire_wellFormed _ hwf) _ _, ?_⟩
    intro key hlease hid hts
    rw [restamp_get hlease hid hts, JsObject.get_onWire o hkeys, JsValue.onWire_onWire]
    exact hsame key hlease hid hts

/-- One step of a world with a saved result. -/
theorem result_step {notes : StreamNotes} (h : Streaming env w notes) {act : Action}
    {old : StoredResult} (hres : w.store.resultRow a = some old) :
    (step env w act).store.resultRow a = some old ∨
      (step env w act).store.resultRow a = none ∨
      act.resends a = true ∧ ∃ leaseId res, resentRow env w leaseId old = some res ∧
        (step env w act).store.resultRow a = some res := by
  rcases h.owned.result_kept (step_refines env h.sound act) hres with
    hkept | hgone | ⟨leaseId, hit, res, hop, hnew⟩
  · exact Or.inl hkept
  · exact Or.inr (Or.inl hgone)
  · obtain ⟨d, sync, rfl, rfl, haction, hrow⟩ := opOf_eq_resend hop
    rw [hres, Option.bind_some] at hrow
    exact Or.inr (Or.inr ⟨by simp [Action.resends, haction], leaseId, res, hrow, hnew⟩)

theorem result_run {notes : StreamNotes} (h : Streaming env w notes) {msg : JsObject}
    {saved res : StoredResult} (hres : w.store.resultRow a = some res)
    (hsame : SameResult msg saved res) (more : List Action)
    (hsafe : Machine.Along (step env) StreamSafe w more) :
    (∃ pre post, more = pre ++ post ∧ (Machine.run (step env) w pre).store.resultRow a = none) ∨
      ∃ res', (Machine.run (step env) w more).store.resultRow a = some res' ∧
        SameResult msg saved res' ∧ ((∀ act ∈ more, act.resends a = false) → res' = res) := by
  induction more generalizing w notes res with
  | nil => exact Or.inr ⟨res, hres, hsame, fun _ => rfl⟩
  | cons act rest ih =>
      have h' : Streaming env (step env w act) (noteStream env w act notes) := h.step hsafe.1
      rcases result_step h hres with hkept | hgone | ⟨hresends, leaseId, res₁, hrow, hnew⟩
      · rcases ih h' hkept hsame hsafe.2 with ⟨pre, post, hsplit, hnone⟩ | ⟨res', hget, hs, heq⟩
        · exact Or.inl ⟨act :: pre, post, by rw [hsplit]; rfl, hnone⟩
        · exact Or.inr ⟨res', hget, hs, fun hno => heq fun b hb => hno b (List.mem_cons_of_mem _ hb)⟩
      · exact Or.inl ⟨[act], rest, rfl, hgone⟩
      · rcases ih h' hnew (hsame.resent hrow) hsafe.2 with ⟨pre, post, hsplit, hnone⟩ | ⟨res', hget, hs, -⟩
        · exact Or.inl ⟨act :: pre, post, by rw [hsplit]; rfl, hnone⟩
        · refine Or.inr ⟨res', hget, hs, fun hno => ?_⟩
          rw [hno act List.mem_cons_self] at hresends
          cases hresends

theorem ended_run (hs : w.ledger.Sound) (hended : r ∈ w.ended) (more : List Action) :
    r ∈ (Machine.run (step env) w more).ended := by
  have hinv := Machine.run_invariant_all (step env)
    (I := fun w : World => w.ledger.Sound ∧ r ∈ w.ended) ?_ ⟨hs, hended⟩ more
  · exact hinv.2
  · intro w act hI
    obtain ⟨hs, hended⟩ := hI
    exact ⟨sound_step hs act, (step_refines env hs act).ended hended⟩

theorem lastWord {notes : StreamNotes} (h : Streaming env w notes) (hended : r ∈ w.ended)
    {msg : JsObject} {saved : StoredResult} (hres : w.store.resultRow a = some saved)
    (hpayload : saved.payload = stringifyObject msg) (hwf : (JsValue.obj msg).wellFormed = true) :
    LastWord env w r a msg saved where
  once := by
    intro more outcome w₂
    have hended₂ : r ∈ w₂.ended := ended_run h.sound hended more
    rw [step, callback, if_neg (fun hc => hc.2 hended₂)]
  row := fun more hsafe => result_run h hres (.refl hpayload hwf) more hsafe

/-! ### The result -/

theorem effectsOf_done {outcome : EngineOutcome} {digest : JsString} (hrun : r ∈ w.runs)
    (hended : r ∉ w.ended) (hf : (w.jobs r).fenced = false)
    (hdigest : resultDigest env.sha256Base64Url (resultMsgOf env w r outcome) = .ok digest) :
    writeOf env w (.callback r (.done outcome)) =
        .finish (storedResultOf (w.jobs r) outcome digest (resultMsgOf env w r outcome))
          (terminalStatusOf (finalStatusOf outcome)) ∧
      sentOf env w (.callback r (.done outcome)) = [resultMsgOf env w r outcome] ∧
      effectsOf env w (.callback r (.done outcome)) =
        [.stmt (.replaceResult
            (storedResultOf (w.jobs r) outcome digest (resultMsgOf env w r outcome))),
          .stmt (.setStatus (w.jobs r).attemptId (terminalStatusOf (finalStatusOf outcome))),
          .send (resultMsgOf env w r outcome)] := by
  have hact : (r ∈ w.runs ∧ r ∉ w.ended) ∧ (w.jobs r).fenced = false := ⟨⟨hrun, hended⟩, hf⟩
  have hwrite : writeOf env w (.callback r (.done outcome)) =
      .finish (storedResultOf (w.jobs r) outcome digest (resultMsgOf env w r outcome))
        (terminalStatusOf (finalStatusOf outcome)) := by
    rw [writeOf, writeOfCallback, if_pos hact, hdigest]
  have hsent : sentOf env w (.callback r (.done outcome)) = [resultMsgOf env w r outcome] := by
    rw [sentOf, sentOfCallback, if_pos hact, hdigest]
  refine ⟨hwrite, hsent, ?_⟩
  simp only [effectsOf, hwrite, hsent]
  rfl

/-- **The terminal summary of a run that finishes is right and its last word.** -/
theorem terminal_summary (env : Env) (acts : List Action) (h : Along env StreamSafe acts) (r : Ref)
    (outcome : EngineOutcome) (digest : JsString) :
    let w := runFrom env acts
    r ∈ w.runs → r ∉ w.ended → (w.jobs r).fenced = false →
    resultDigest env.sha256Base64Url (resultMsgOf env w r outcome) = .ok digest →
    ∃ firsts, TerminalSummary env acts (.callback r (.done outcome)) r (w.jobs r).attemptId
      (resultMsgOf env w r outcome)
      (storedResultOf (w.jobs r) outcome digest (resultMsgOf env w r outcome)) firsts := by
  intro w hrun hended hf hdigest
  have hst : Streaming env w (streamNotes env acts) := streaming h
  obtain ⟨hlive, view, hview⟩ := hst.owned.emitter hst.sound hrun hended hf
  obtain ⟨row, hrow, hrowview⟩ := Option.map_eq_some_iff.mp hview
  obtain ⟨firsts, hstreamed⟩ := hst.streamed _ row hrow
  have hseq : (w.jobs r).seq = firsts.length :=
    (hst.contiguous.seq _ r _ hlive (rows_eq_some hrow)).trans hstreamed.length.symm
  obtain ⟨hwrite, hsent, heffects⟩ := effectsOf_done hrun hended hf hdigest
  have hafter : runFrom env (acts ++ [.callback r (.done outcome)]) =
      step env w (.callback r (.done outcome)) := runFrom_snoc _ _ _
  have hstore := step_store env w (.callback r (.done outcome))
  rw [hwrite] at hstore
  have hresult : (step env w (.callback r (.done outcome))).store.resultRow (w.jobs r).attemptId =
      some (storedResultOf (w.jobs r) outcome digest (resultMsgOf env w r outcome)) := by
    rw [hstore]
    simp [Write.run, Write.statements, Statement.run, storedResultOf]
  have hdone : r ∈ (step env w (.callback r (.done outcome))).ended := by
    rw [step, callback, if_pos ⟨hrun, hended⟩, onDone_saved hf hdigest]
    exact List.mem_cons_self
  refine ⟨firsts, ⟨⟨_, heffects⟩, ?_, ?_, rfl, hseq, ?_, ?_, ?_, ?_, ?_⟩⟩
  · rw [hafter, step_sent, hsent]
  · rw [hafter]
    exact hresult
  · have hrow' : w.store.attemptRow (w.jobs r).attemptId = some row := hrow
    rw [hafter, hstore]
    simp [Write.run, Write.statements, Statement.run, storedResultOf, hrow', hstreamed.length]
  · rw [← hstreamed.bytes r hlive, ← hseq]
    rfl
  · intro n o ho
    have hfirst := hstreamed.first n o ho
    exact ⟨hfirst, persisted_first acts h (Option.isSome_iff_exists.mpr ⟨row, hrow⟩) hfirst⟩
  · intro n o ho hev
    rw [hstreamed.length]
    exact hstreamed.range n o ho hev
  · rw [hafter]
    have hnext : Streaming env (step env w (.callback r (.done outcome)))
        (noteStream env w (.callback r (.done outcome)) (streamNotes env acts)) := hst.step trivial
    exact lastWord hnext hdone hresult rfl (jobResultMsg_wellFormed _ _ _)

/-- A stream of two events, the first acknowledged, that finishes under another lease. -/
theorem terminal_summary_rotated :
    let env := sampleEnv sampleDigest .limits
    let acts := [sampleAssign "a" "l", .callback 0 (.event sampleEvent),
      .streamAck ⟨js "a", js "l", 1⟩, .leaseGranted ⟨js "a", js "m"⟩,
      .callback 0 (.event sampleEvent)]
    let w := runFrom env acts
    (w.jobs 0).seq = 2 ∧
      ∃ firsts, TerminalSummary env acts (.callback 0 (.done (.success none))) 0 (w.jobs 0).attemptId
        (resultMsgOf env w 0 (.success none))
        (storedResultOf (w.jobs 0) (.success none) sampleDigest (resultMsgOf env w 0 (.success none)))
        firsts :=
  ⟨by decide +kernel, terminal_summary _ _ (by decide +kernel) 0 (.success none) sampleDigest
    (by decide +kernel) (by decide +kernel) (by decide +kernel) (by decide +kernel)⟩

end HuginAgent
