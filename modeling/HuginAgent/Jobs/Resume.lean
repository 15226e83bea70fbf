/-
Resuming a stream after a reconnect.

The server names the last number it has, and `resume_from` sends what is stored after
it.  Since the stored events are the end of the stream without a gap, and their texts
are those of the messages that were sent first, the server gets every number after its
own once and in order, the same events as before but for the envelope and the lease;
and a run that is live goes on with the next number under that lease.

All of this holds under any lease.  The one thing that does not is what the lease is for
once the run is over: it is then read of the attempt's row, and a lone surrogate in it is
read as something else, so that the attempt is under a lease that nobody has given it.
-/
import HuginAgent.Jobs.Streams

namespace HuginAgent

open JobManager Ledger

variable {env : Env} {w : World} {a leaseId : JsString} {r : Ref}

/-- The message as it was decoded the first time, but for `id`, `ts` and the lease. -/
structure SentAgain (leaseId : JsString) (first o : JsObject) : Prop where
  lease : o.get (js "lease_id") = .str leaseId
  same : ∀ key, key ≠ js "lease_id" → key ≠ js "id" → key ≠ js "ts" →
    o.get key = (first.get key).onWire

/-- The action is an event of this run. -/
def Action.isEventOf (r : Ref) : Action → Bool
  | .callback q (.event _) => q = r
  | _ => false

/-- The action may give the attempt another lease or drop it on the server's word. -/
def Action.relets (a : JsString) : Action → Bool
  | .leaseGranted msg => msg.attemptId = a
  | .resume d _ => d.attemptId = a
  | _ => false

/-- What a directive does that resumes the stream of `row` after `after`, whatever the lease. -/
structure Resent (env : Env) (w w' : World) (start : Nat) (row : AttemptRow) (after : Nat)
    (leaseId : JsString) : Prop where
  sent : ∃ msgs, w'.sent = w.sent ++ msgs ∧
    List.Forall₂ (fun n o => ∃ first, FirstSent w start row.attemptId n first ∧
      SentAgain leaseId first o) (List.range' (after + 1) (row.lastSeq - after)) msgs
  live : ∀ r, w'.registry.get row.attemptId = some r → (w'.jobs r).leaseId = leaseId
  later : ∀ r more ev, w'.registry.get row.attemptId = some r →
    Machine.Along (step env) StreamSafe w' (more ++ [.callback r (.event ev)]) →
    (∀ act ∈ more, act.relets row.attemptId = false) →
    let w₂ := Machine.run (step env) w' more
    r ∈ w₂.runs → (w₂.jobs r).fenced = false →
      ∃ o, (step env w₂ (.callback r (.event ev))).sent = w₂.sent ++ [o] ∧
        StreamEventOf row.attemptId (row.lastSeq + more.countP (Action.isEventOf r) + 1) o ∧
        o.get (js "lease_id") = .str leaseId

/-- What it means that a directive has resumed the stream: the attempt is under the lease too. -/
structure Resumed (env : Env) (w w' : World) (start : Nat) (row : AttemptRow) (after : Nat)
    (leaseId : JsString) : Prop extends Resent env w w' start row after leaseId where
  durable : ∃ row', w'.store.getAttempt row.attemptId = some row' ∧ row'.leaseId = leaseId ∧
    row'.lastSeq = row.lastSeq

/-- What is stored of an attempt's events is the end of its stream. -/
structure Retained (w : World) (notes : StreamNotes) (row : AttemptRow) : Prop where
  acked : notes.acked row.attemptId ≤ row.lastSeq
  stored : (w.store.eventRowsOf row.attemptId).map EventRow.seq =
    List.range' (notes.acked row.attemptId + 1) (row.lastSeq - notes.acked row.attemptId)

/-- The directive resumes the attempt after a number the server may have, under the lease. -/
structure Resumes (d : ResumeDirective) (notes : StreamNotes) (row : AttemptRow)
    (leaseId : JsString) : Prop where
  attemptId : d.attemptId = row.attemptId
  action : d.action = .resumeFrom
  lease : d.leaseId = some leaseId
  after : notes.acked row.attemptId ≤ d.resumeAfterSeq.getD 0

/-- The stream of an attempt can be resumed from every number the server may have, under every
lease. -/
structure Resumable (env : Env) (w : World) (notes : StreamNotes) (row : AttemptRow) : Prop
    extends Retained w notes row where
  resumed : ∀ d sync leaseId, Resumes d notes row leaseId →
    Resumed env w (step env w (.resume d sync)) (notes.start row.attemptId) row
      (d.resumeAfterSeq.getD 0) leaseId

/-! ### What is sent again -/

theorem sentAgain_restamp {o : JsObject} (hwf : (JsValue.obj o).wellFormed = true)
    (leaseId : JsString) (e : Envelope) :
    SentAgain leaseId o (restamp (some leaseId) o.onWire e) := by
  refine ⟨restamp_get_lease _ _ _, ?_⟩
  intro key hlease hid hts
  rw [restamp_get hlease hid hts, JsObject.get_onWire o (keys_nodup hwf)]

/-- The stored texts, one after the other. -/
theorem resentEvents_forall {P : Nat → JsObject → Prop} {rows : List EventRow}
    (h : ∀ e ∈ rows, ∃ o, e.payload = stringifyObject o ∧ (JsValue.obj o).wellFormed = true ∧
      P e.seq o) (draw : Nat) :
    List.Forall₂ (fun n o => ∃ first, P n first ∧ SentAgain leaseId first o)
      (rows.map EventRow.seq) (resentEvents env (some leaseId) draw (rows.map EventRow.payload)) := by
  induction rows generalizing draw with
  | nil => exact .nil
  | cons e rest ih =>
      obtain ⟨o, hpayload, hwf, ho⟩ := h e List.mem_cons_self
      have hrest := ih (fun e' he' => h e' (List.mem_cons_of_mem _ he')) (draw + 1)
      have hparse : parseObject e.payload = some o.onWire := by
        rw [hpayload]
        exact parseObject_stringifyObject o hwf
      rw [List.map_cons, List.map_cons, resentEvents, hparse]
      exact .cons ⟨o, ho, sentAgain_restamp hwf leaseId _⟩ hrest

/-- What is stored of a block after a number. -/
theorem eventRowsAfter_seq {s : EventLog} {acked lastSeq after : Nat} (hle : acked ≤ lastSeq)
    (hblock : (s.eventRowsOf a).map EventRow.seq = List.range' (acked + 1) (lastSeq - acked))
    (hafter : acked ≤ after) :
    (s.eventRowsAfter a after).map EventRow.seq =
      List.range' (after + 1) (lastSeq - after) := by
  have hfilter : (s.events.rows.filter fun e => decide (e.attemptId = a) && decide (after < e.seq)) =
      (s.eventRowsOf a).filter ((fun i => !decide (i ≤ after)) ∘ EventRow.seq) := by
    rw [EventLog.eventRowsOf, List.filter_filter]
    refine List.filter_congr ?_
    intro e _
    rw [Bool.and_comm]
    congr 1
    simp only [Function.comp_apply, ← decide_not, Nat.not_le]
  have hseq : ((s.eventRowsOf a).filter ((fun i => !decide (i ≤ after)) ∘ EventRow.seq)).map
      EventRow.seq = List.range' (after + 1) (lastSeq - after) := by
    rw [← List.filter_map, hblock, range'_filter _ _ _ hle]
    by_cases h : after ≤ lastSeq
    · have hmax : max acked (min after lastSeq) = after := by omega
      rw [hmax]
    · have hzero : lastSeq - max acked (min after lastSeq) = 0 := by omega
      have hzero' : lastSeq - after = 0 := by omega
      rw [hzero, hzero']
      rfl
  rw [EventLog.eventRowsAfter, hfilter]
  have hsorted : ((s.eventRowsOf a).filter ((fun i => !decide (i ≤ after)) ∘ EventRow.seq)).Pairwise
      fun e f => e.seq ≤ f.seq := by
    refine List.pairwise_map.mp ?_
    rw [hseq]
    exact (List.pairwise_lt_range' (s := after + 1) (n := lastSeq - after)).imp Nat.le_of_lt
  rw [hsorted.insertionSort_eq]
  exact hseq

/-! ### The run goes on -/

/-- The events of the run are let through. -/
structure Emitting (w : World) (r : Ref) : Prop where
  run : r ∈ w.runs
  unfenced : (w.jobs r).fenced = false
  notDone : r ∉ w.ended

/-- A run whose events are let through was such a run before. -/
theorem emitting_before (acts : List Action) (hs : w.ledger.Sound) (hlt : r < w.nextRef)
    (h : Emitting (Machine.run (step env) w acts) r) : Emitting w r := by
  by_contra hdead
  have hinv := Machine.run_invariant_all (step env)
    (I := fun w : World => w.ledger.Sound ∧ r < w.nextRef ∧ ¬ Emitting w r) ?_ ⟨hs, hlt, hdead⟩ acts
  · exact hinv.2.2 h
  · intro w act hI
    obtain ⟨hs, hlt, hdead⟩ := hI
    have hstep := step_refines env hs act
    obtain ⟨hlt', hlater⟩ := hstep.job hlt
    refine ⟨sound_step hs act, hlt', fun h => hdead ⟨hstep.runs hlt h.run, ?_, ?_⟩⟩
    · by_contra hc
      rw [Bool.not_eq_false] at hc
      have hfenced : ((step env w act).jobs r).fenced = true := hlater.fenced hc
      rw [h.unfenced] at hfenced
      cases hfenced
    · exact fun hc => h.notDone (hstep.ended hc)

/-- One step of a live run whose lease is left alone. -/
theorem job_kept {notes : StreamNotes} (h : Streaming env w notes) {act : Action}
    (hsafe : StreamSafe w act) (hlive : w.registry.get a = some r) (he : Emitting w r) (hno : act.relets a = false) :
    ((step env w act).jobs r).leaseId = (w.jobs r).leaseId ∧
      ((step env w act).jobs r).seq = (w.jobs r).seq + if act.isEventOf r then 1 else 0 := by
  have hstep := step_refines env h.sound act
  have hlt : r < w.ledger.next := h.sound.live_lt a r hlive
  have hid := h.sound.attempt a r hlive
  constructor
  · rcases hstep.lease hlt with ⟨lease, hrot, -⟩ | ⟨-, hsame, -⟩
    · exfalso
      rcases opOf_rotated hrot with ⟨msg, rfl, hreg, -⟩ | ⟨d, sync, rfl, -, hhit⟩
      · have ha : msg.attemptId = a := (h.sound.attempt _ r hreg).symm.trans hid
        simp [Action.relets, ha] at hno
      · have hreg := (hits_rotatedBy (w := w) _ _).live r hhit
        have ha : d.attemptId = a := (h.sound.attempt _ r hreg).symm.trans hid
        simp [Action.relets, ha] at hno
    · exact hsame
  · refine (hstep.seq hlt).trans ?_
    by_cases hev : act.isEventOf r = true
    · obtain ⟨ev, rfl⟩ : ∃ ev, act = .callback r (.event ev) := by
        unfold Action.isEventOf at hev
        split at hev
        · rename_i q ev
          exact ⟨ev, by rw [of_decide_eq_true hev]⟩
        · cases hev
      obtain ⟨-, ⟨pause, hop⟩, -⟩ := h.emits he.run he.unfenced hsafe ev
      rw [hop, if_pos hev]
      simp [Op.counted, eventRowOf]
    · have hne : ∀ q ev, act = .callback q (.event ev) → q ≠ r := by
        rintro q ev rfl hq
        exact hev (decide_eq_true hq)
      rw [if_neg hev, Nat.add_zero]
      cases hop : opOf env w act with
      | event q e pause =>
          obtain ⟨ev, events, rfl, -⟩ := opOf_eq_event hop
          simp only [Op.counted, if_neg (hne q ev rfl)]
          rfl
      | burn q =>
          obtain ⟨ev, rfl⟩ := opOf_eq_burn hop
          simp only [Op.counted, if_neg (hne q ev rfl)]
          rfl
      | _ => rfl

/-- **Later events of a live run count on, under the lease it has.** -/
theorem event_after {notes : StreamNotes} (h : Streaming env w notes)
    (hlive : w.registry.get a = some r) {more : List Action} {ev : EngineEvent}
    (hsafe : Machine.Along (step env) StreamSafe w (more ++ [.callback r (.event ev)]))
    (hno : ∀ act ∈ more, act.relets a = false)
    (hrun : r ∈ (Machine.run (step env) w more).runs)
    (hf : ((Machine.run (step env) w more).jobs r).fenced = false) :
    ∃ o, (step env (Machine.run (step env) w more) (.callback r (.event ev))).sent =
        (Machine.run (step env) w more).sent ++ [o] ∧
      StreamEventOf a ((w.jobs r).seq + more.countP (Action.isEventOf r) + 1) o ∧
      o.get (js "lease_id") = .str (w.jobs r).leaseId := by
  have hlt := h.sound.live_lt a r hlive
  have hid : (w.jobs r).attemptId = a := h.sound.attempt a r hlive
  have he : Emitting (Machine.run (step env) w more) r :=
    ⟨hrun, hf, (Machine.along_append.mp hsafe).2.1⟩
  induction more generalizing w notes with
  | nil =>
      obtain ⟨hmsgs, -⟩ := h.emits he.run he.unfenced he.notDone ev
      refine ⟨eventMsgOf env w r ev, ?_, ?_, rfl⟩
      · rw [Machine.run_nil, step_sent, hmsgs]
      · rw [← hid]
        exact streamEvent_of (w.jobs r).ctx _ _ _ _
  | cons act rest ih =>
      have hstep := step_refines env h.sound act
      obtain ⟨hlt', hlater⟩ := hstep.job hlt
      have h' := h.step hsafe.1
      have hnow := emitting_before (act :: rest) h.sound hlt he
      have hnext := emitting_before rest h'.sound hlt' he
      obtain ⟨hlease, hseq⟩ := job_kept h hsafe.1 hlive hnow (hno act List.mem_cons_self)
      have hid' : ((step env w act).jobs r).attemptId = a := hlater.attempt.trans hid
      have hlive' : (step env w act).registry.get a = some r := by
        rw [← hid']
        exact h'.owned.registered r ⟨hnext.run, hnext.notDone⟩ hnext.unfenced
      obtain ⟨o, hsent, hev, hl⟩ := ih h' hlive' hsafe.2
        (fun b hb => hno b (List.mem_cons_of_mem _ hb)) hrun hf hlt' hid' he
      refine ⟨o, hsent, ?_, hlease ▸ hl⟩
      rw [hseq] at hev
      rw [List.countP_cons]
      convert hev using 1
      omega

/-! ### The directive -/

theorem opOf_resumeFrom {d : ResumeDirective} (haction : d.action = .resumeFrom)
    (hlease : d.leaseId = some leaseId) (sync : List Callback) :
    opOf env w (.resume d sync) =
      .rotate d.attemptId leaseId (rotatedBy w d.attemptId leaseId) := by
  simp only [opOf, haction, hlease]

/-- The lease is on record, and the stream is as long as it was. -/
theorem recorded_of_streaming {notes : StreamNotes} (h : Streaming env w notes) {row : AttemptRow}
    (hrow : w.store.attemptRow row.attemptId = some row) {d : ResumeDirective}
    (hd : Resumes d notes row leaseId) (sync : List Callback) :
    ∃ row', (step env w (.resume d sync)).store.attemptRow row.attemptId = some row' ∧
      row'.leaseId = leaseId ∧ row'.lastSeq = row.lastSeq := by
  have hstep := step_refines env h.sound (.resume d sync)
  rw [opOf_resumeFrom hd.action hd.lease, hd.attemptId] at hstep
  obtain ⟨hledger, -⟩ := hstep.eq_rotate
  have hrows : (step env w (.resume d sync)).ledger.rows row.attemptId =
      some ⟨leaseId, row.lastSeq⟩ := by
    rw [hledger]
    cases rotatedBy w row.attemptId leaseId <;>
      simp [Ledger.rotate, Ledger.modify, Ledger.setLease, rows_eq_some hrow, AttemptRow.row]
  obtain ⟨row', hrow', hview⟩ := Option.map_eq_some_iff.mp hrows
  exact ⟨row', hrow', congrArg Row.lease hview, congrArg Row.lastSeq hview⟩

theorem resent_of_streaming {notes : StreamNotes} (h : Streaming env w notes) {row : AttemptRow}
    (hrow : w.store.attemptRow row.attemptId = some row) {d : ResumeDirective}
    (hd : Resumes d notes row leaseId) (sync : List Callback) :
    Resent env w (step env w (.resume d sync)) (notes.start row.attemptId) row
      (d.resumeAfterSeq.getD 0) leaseId := by
  obtain ⟨row', hrow', -, hlast⟩ := recorded_of_streaming h hrow hd sync
  obtain ⟨hid, haction, hlease, hafter⟩ := hd
  have hsafe : StreamSafe w (.resume d sync) := fun hc => absurd (haction.symm.trans hc) (by simp)
  have h' : Streaming env (step env w (.resume d sync)) (noteStream env w (.resume d sync) notes) :=
    h.step hsafe
  have hstep := step_refines env h.sound (.resume d sync)
  rw [opOf_resumeFrom haction hlease, hid] at hstep
  obtain ⟨hledger, hits⟩ := hstep.eq_rotate
  obtain ⟨hle, hblock⟩ := h.contiguous.block _ _ (rows_eq_some hrow)
  have hlive : ∀ r, (step env w (.resume d sync)).registry.get row.attemptId = some r →
      ((step env w (.resume d sync)).jobs r).leaseId = leaseId := by
    intro r hr
    have hreg : w.registry.get row.attemptId = some r := by
      have := congrArg (fun L : Ledger => L.live row.attemptId) hledger
      rw [live_rotate] at this
      exact this.symm.trans hr
    have hjob := congrArg (fun L : Ledger => (L.jobs r).lease) hledger
    cases hhit : rotatedBy w row.attemptId leaseId with
    | none =>
        rw [hhit] at hjob hits
        exact hjob.trans (hits.miss rfl r hreg)
    | some q =>
        rw [hhit] at hjob hits
        obtain rfl : q = r := Option.some.inj ((hits.live q rfl).symm.trans hreg)
        refine hjob.trans ?_
        simp [Ledger.rotate, Ledger.modify]
  refine ⟨?_, hlive, ?_⟩
  · refine ⟨sentOf env w (.resume d sync), step_sent env w _, ?_⟩
    have hseq : (w.store.eventRowsAfter row.attemptId (d.resumeAfterSeq.getD 0)).map EventRow.seq =
        List.range' (d.resumeAfterSeq.getD 0 + 1) (row.lastSeq - d.resumeAfterSeq.getD 0) :=
      eventRowsAfter_seq hle hblock hafter
    rw [← hseq]
    simp only [sentOf, haction, hlease, hid, EventLog.eventsAfter]
    refine resentEvents_forall ?_ w.draws
    intro e he
    have hmem : e ∈ w.store.eventRowsOf row.attemptId := by
      have hin := (List.mem_insertionSort _).mp he
      obtain ⟨hin, hcond⟩ := List.mem_filter.mp hin
      rw [Bool.and_eq_true] at hcond
      exact List.mem_filter.mpr ⟨hin, hcond.1⟩
    exact h.stored hmem
  · intro r more ev hreg halong hno w₂ hrun hf
    have hafter := event_after h' hreg halong hno hrun hf
    rw [hlive r hreg] at hafter
    have hseq : ((step env w (.resume d sync)).jobs r).seq = row.lastSeq :=
      (h'.contiguous.seq _ r _ hreg (rows_eq_some hrow')).trans hlast
    rwa [hseq] at hafter

/-- The lease is the one that is read of the row just where it has no lone surrogate. -/
theorem resumed_iff {notes : StreamNotes} (h : Streaming env w notes) {row : AttemptRow}
    (hrow : w.store.attemptRow row.attemptId = some row) {d : ResumeDirective}
    (hd : Resumes d notes row leaseId) (sync : List Callback) :
    Resumed env w (step env w (.resume d sync)) (notes.start row.attemptId) row
      (d.resumeAfterSeq.getD 0) leaseId ↔ hasLoneSurrogate leaseId = false := by
  obtain ⟨row', hrow', hlease, hlast⟩ := recorded_of_streaming h hrow hd sync
  have hget : (step env w (.resume d sync)).store.getAttempt row.attemptId = some row'.read :=
    congrArg (Option.map AttemptRow.read) hrow'
  have hread : row'.read.leaseId = columnText leaseId := congrArg columnText hlease
  constructor
  · rintro ⟨-, read, hread', hsame, -⟩
    obtain rfl := Option.some.inj (hget.symm.trans hread')
    exact columnText_eq_iff.mp (hread.symm.trans hsame)
  · intro hwhole
    exact ⟨resent_of_streaming h hrow hd sync,
      row'.read, hget, hread.trans (columnText_eq_iff.mpr hwhole), hlast⟩

/-- **Every stream can be resumed, and under just the leases without a lone surrogate the attempt
is under the lease afterwards.** -/
theorem resume_complete_iff (env : Env) (acts : List Action) (h : Along env StreamSafe acts)
    (attemptId : JsString) (row : AttemptRow)
    (hrow : (runFrom env acts).store.attemptRow attemptId = some row) :
    row.attemptId = attemptId ∧ Retained (runFrom env acts) (streamNotes env acts) row ∧
      ∀ d sync leaseId, Resumes d (streamNotes env acts) row leaseId →
        let w' := step env (runFrom env acts) (.resume d sync)
        let start := (streamNotes env acts).start row.attemptId
        Resent env (runFrom env acts) w' start row (d.resumeAfterSeq.getD 0) leaseId ∧
          (Resumed env (runFrom env acts) w' start row (d.resumeAfterSeq.getD 0) leaseId ↔
            hasLoneSurrogate leaseId = false) := by
  have hst := streaming h
  have hid : row.attemptId = attemptId := EventLog.attemptRow_attemptId _ _ hrow
  subst hid
  obtain ⟨hle, hblock⟩ := hst.contiguous.block _ _ (rows_eq_some hrow)
  refine ⟨rfl, ⟨hle, hblock⟩, ?_⟩
  intro d sync leaseId hd
  exact ⟨resent_of_streaming hst hrow hd sync, resumed_iff hst hrow hd sync⟩

/-- Two events, the first acknowledged; the second is sent again under a new lease, and the run
goes on with the third.  Any further directive has the same effect. -/
theorem resume_complete_acked :
    let env := sampleEnv sampleDigest .limits
    let acts := [sampleAssign "a" "l", .callback 0 (.event sampleEvent),
      .callback 0 (.event sampleEvent), .streamAck ⟨js "a", js "l", 1⟩,
      sampleResume "a" .resumeFrom (some 1) "m" (by decide), .callback 0 (.event sampleEvent)]
    ∃ row, (runFrom env acts).store.attemptRow (js "a") = some row ∧ row.lastSeq = 3 ∧
      Retained (runFrom env acts) (streamNotes env acts) row ∧
      ∀ d sync, Resumes d (streamNotes env acts) row (js "n") →
        Resumed env (runFrom env acts) (step env (runFrom env acts) (.resume d sync))
          ((streamNotes env acts).start row.attemptId) row (d.resumeAfterSeq.getD 0) (js "n") := by
  intro env acts
  have hsome : ((runFrom env acts).store.attemptRow (js "a")).map AttemptRow.lastSeq = some 3 := by
    decide +kernel
  obtain ⟨row, hrow, hlast⟩ := Option.map_eq_some_iff.mp hsome
  obtain ⟨-, hretained, hresumed⟩ :=
    resume_complete_iff env acts (by decide +kernel) (js "a") row hrow
  exact ⟨row, hrow, hlast, hretained,
    fun d sync hd => (hresumed d sync (js "n") hd).2.mpr (by decide)⟩

/-- A directive whose lease is one lone surrogate. -/
def sampleLoneResume : ResumeDirective where
  attemptId := js "a"
  action := .resumeFrom
  resumeAfterSeq := none
  leaseId := some [0xD800]
  leaseNonempty := fun h => List.cons_ne_nil _ _ (Option.some.inj h)
  leaseRequired := fun _ => Option.some_ne_none _

/-- A lone surrogate in the lease is read of the row as three other characters. -/
theorem unresumable_by_surrogate : ¬ ∀ env acts, Along env StreamSafe acts → ∀ attemptId row,
    (runFrom env acts).store.attemptRow attemptId = some row →
      Resumable env (runFrom env acts) (streamNotes env acts) row := by
  intro hall
  have hsafe : Along (sampleEnv sampleDigest .limits) StreamSafe [sampleAssign "a" "l"] := by
    decide +kernel
  have hsome : ((runFrom (sampleEnv sampleDigest .limits) [sampleAssign "a" "l"]).store.attemptRow
      (js "a")).map AttemptRow.attemptId = some (js "a") := by
    decide +kernel
  obtain ⟨row, hrow, hid⟩ := Option.map_eq_some_iff.mp hsome
  have hd : Resumes sampleLoneResume
      (streamNotes (sampleEnv sampleDigest .limits) [sampleAssign "a" "l"]) row [0xD800] :=
    ⟨hid.symm, rfl, rfl, by rw [hid]; decide +kernel⟩
  have hresumed := (hall _ _ hsafe (js "a") row hrow).resumed sampleLoneResume [] [0xD800] hd
  have hlone := (resumed_iff (streaming hsafe) (hid.symm ▸ hrow) hd []).mp hresumed
  exact absurd hlone (by decide)

end HuginAgent
