/-
What a connection is told of the results.

`hello` lists the results that are stored when it is built, and a result that is saved
while the connection is active is sent on it.  Between the two lies the handshake.  A run
that is done there has its result saved and offered to a connection that is not active
yet: `hello` does not list it, `safeSend` drops it, and no directive asks for it, since
`hello` calls the attempt running.  `Watched` keeps note of these attempts, and a
connection leaves a result stranded just where it becomes active over one of them.
-/
import HuginAgent.Daemon.Shutdown
import HuginAgent.Jobs.Completion

namespace HuginAgent

open JobManager Ledger

variable {env : Env} {w : World} {d : Daemon} {s : Watched}

/-- `hello.pending_results` names the attempt. -/
def ResumeState.lists (hello : ResumeState) (a : JsString) : Bool :=
  hello.pendingResults.any fun res => res.attemptId = a

/-- The result has been sent as it is stored. -/
def SentAsResult (wire : List JsObject) (res : StoredResult) : Prop :=
  ∃ msg ∈ wire, msg.get (js "type") = .lit "job.result" ∧ res.payload = stringifyObject msg

/-- Over an active connection every stored result is listed or sent. -/
def Delivered (d : Daemon) : Prop :=
  ∀ hello wire, d.session = .active hello wire →
    ∀ a res, d.world.store.resultRow a = some res → hello.lists a = true ∨ SentAsResult wire res

/-! ### The server's part -/

/-- The directives that come next. -/
def directivesOf : List DaemonAction → List ResumeDirective
  | .manager (.resume d _) :: rest => d :: directivesOf rest
  | _ => []

/-- Every attempt of `hello` gets the directive that fits it. -/
def ResumeState.answeredBy (hello : ResumeState) (ds : List ResumeDirective) : Bool :=
  (hello.activeJobs.all fun job => ds.any fun d =>
    d.attemptId = job.attemptId && d.action = .resumeFrom) &&
  hello.pendingResults.all fun res => ds.any fun d =>
    d.attemptId = res.attemptId && (d.action = .resendResult || d.action = .ackPending)

/-- Every handshake is answered so. -/
def serverAnswers (env : Env) : Daemon → List DaemonAction → Bool
  | _, [] => true
  | d, act :: rest =>
      (match d.session, act with
        | .handshaking hello, .accepted _ => hello.answeredBy (directivesOf rest)
        | _, _ => true) && serverAnswers env (d.step env act) rest

/-! ### Results of the handshake -/

/-- The attempt whose result the action saves. -/
def reportedBy (env : Env) (w : World) : Action → Option JsString
  | .callback r (.done outcome) =>
      if touchesStore env w (.callback r (.done outcome)) then some (w.jobs r).attemptId else none
  | _ => none

/-- A daemon, and the attempts that were reported since `hello` was built and are not listed. -/
structure Watched where
  daemon : Daemon
  late : List JsString

namespace Watched

def start : Watched := ⟨Daemon.start World.start, []⟩

def lateAfter (env : Env) (s : Watched) (act : DaemonAction) : List JsString :=
  match s.daemon.session, act with
  | .dialing, .connected => []
  | .handshaking hello, .manager act =>
      if s.daemon.storeOpen then
        ((reportedBy env s.daemon.world act).filter fun a => !hello.lists a).toList ++ s.late
      else s.late
  | _, _ => s.late

def step (env : Env) (s : Watched) (act : DaemonAction) : Watched where
  daemon := s.daemon.step env act
  late := s.lateAfter env act

end Watched

/-- A connection becomes active over no late result. -/
def NothingLate (s : Watched) : DaemonAction → Prop
  | .accepted connectionEpoch =>
      match s.daemon.session with
      | .handshaking _ => s.daemon.running = true → s.daemon.lastEpoch < connectionEpoch →
          s.late = []
      | _ => True
  | _ => True

theorem run_watched (acts : List DaemonAction) (s : Watched) :
    (Machine.run (Watched.step env) s acts).daemon =
      Machine.run (Daemon.step env) s.daemon acts := by
  induction acts generalizing s with
  | nil => rfl
  | cons act rest ih => exact ih _

/-! ### What a result is sent as -/

/-- A result that a step stores is sent by it. -/
theorem sent_of_saved (hg : Genuine env.sha256Base64Url w.ledger) {act : Action}
    {res : StoredResult} (h : (opOf env w act).saved = some res) :
    SentAsResult (sentOf env w act) res := by
  cases hop : opOf env w act with
  | resend a lease hit res' =>
      rw [hop] at h
      obtain rfl := Option.some.inj h
      obtain ⟨d, sync, rfl, rfl, haction, hrow⟩ := opOf_eq_resend hop
      obtain ⟨old, hold, hrow⟩ := Option.bind_eq_some_iff.mp hrow
      have hlease : d.leaseId = some lease := by
        cases hl : d.leaseId with
        | none => exact absurd hl (d.leaseRequired (Or.inr haction))
        | some l =>
            simp only [opOf, haction, hl] at hop
            split at hop
            · injection hop with _ hlease
              exact congrArg some hlease
            · cases hop
      obtain ⟨o, hparse, -, htype, -⟩ := (hg _ _ hold).parses
      rw [resentRow, hparse] at hrow
      have hsent : sentOf env w (.resume d sync) = resentResult env w d old := by
        simp only [sentOf, haction, hold]
      rw [hsent, resentResult, hparse]
      simp only [hlease, Option.getD_some] at hrow ⊢
      cases hdigest : resultDigest env.sha256Base64Url
          (restamp (some lease) o (env.envelope w.draws)) with
      | error e =>
          rw [hdigest] at hrow
          cases hrow
      | ok digest =>
          rw [hdigest] at hrow
          obtain rfl := Option.some.inj hrow
          refine ⟨_, List.mem_singleton_self _, ?_, rfl⟩
          rw [restamp_get (by decide) (by decide) (by decide)]
          exact htype
  | finishSaved r res' =>
      rw [hop] at h
      obtain rfl := Option.some.inj h
      obtain ⟨outcome, digest, rfl, ⟨⟨hrun, hended⟩, hf⟩, hdigest, rfl⟩ := opOf_eq_finishSaved hop
      refine ⟨resultMsgOf env w r outcome, ?_, rfl, rfl⟩
      rw [(effectsOf_done hrun hended hf hdigest).2.1]
      exact List.mem_singleton_self _
  | _ =>
      rw [hop] at h
      cases h

theorem sentAsResult_append {wire more : List JsObject} {res : StoredResult}
    (h : SentAsResult wire res ∨ SentAsResult more res) : SentAsResult (wire ++ more) res := by
  rcases h with ⟨msg, hmem, hmsg⟩ | ⟨msg, hmem, hmsg⟩
  · exact ⟨msg, List.mem_append_left _ hmem, hmsg⟩
  · exact ⟨msg, List.mem_append_right _ hmem, hmsg⟩

/-- **What is stored after an action was stored before it or is sent by it.** -/
theorem result_before_or_sent (hs : w.ledger.Sound) (hg : Genuine env.sha256Base64Url w.ledger)
    {act : Action} {a : JsString} {res : StoredResult}
    (h : (HuginAgent.step env w act).store.resultRow a = some res) :
    w.store.resultRow a = some res ∨ SentAsResult (sentOf env w act) res := by
  rcases (step_refines env hs act).results a with (hsame | hnone) | ⟨res', hsaved, -, hnew⟩
  · exact Or.inl (hsame.symm.trans h)
  · exact absurd (hnone.symm.trans h) (by simp)
  · obtain rfl : res' = res := Option.some.inj (hnew.symm.trans h)
    exact Or.inr (sent_of_saved hg hsaved)

/-- In a handshake only what `reportedBy` names gets a result, and none is lost. -/
theorem result_internal {act : Action} (hact : act.isInternal = true) (b : JsString) :
    ((HuginAgent.step env w act).store.resultRow b).isSome = true ↔
      (w.store.resultRow b).isSome = true ∨ reportedBy env w act = some b := by
  rw [step_store]
  cases act with
  | callback r cb =>
      cases cb with
      | event ev =>
          simp only [writeOf, writeOfCallback, reportedBy, reduceCtorEq, or_false]
          split <;> exact Iff.rfl
      | approval req => simp [writeOf, writeOfCallback, reportedBy, Write.run, Write.statements]
      | done outcome =>
          simp only [writeOf, writeOfCallback, reportedBy]
          by_cases hact : (r ∈ w.runs ∧ r ∉ w.ended) ∧ (w.jobs r).fenced = false
          · rw [if_pos hact]
            cases hdigest : resultDigest env.sha256Base64Url (resultMsgOf env w r outcome) with
            | error e =>
                simp [touchesStore, hdigest, Except.isOk, Except.toBool, Write.run,
                  Write.statements]
            | ok digest =>
                simp only [touchesStore, hact, hdigest, Except.isOk, Except.toBool, Write.run,
                  Write.statements, List.foldl_cons, List.foldl_nil, Statement.run]
                rw [EventLog.resultRow_setAttemptStatus, EventLog.resultRow_saveResult]
                by_cases hb : b = (w.jobs r).attemptId
                · simp [storedResultOf, hb]
                · simp [storedResultOf, hb, Ne.symm hb]
          · rw [if_neg hact]
            have hno : touchesStore env w (.callback r (.done outcome)) = false := by
              by_contra h
              simp only [touchesStore, Bool.not_eq_false, Bool.and_eq_true] at h
              exact hact ⟨⟨by simpa using h.1.1.1, by simpa using h.1.1.2⟩, by simpa using h.1.2⟩
            simp [hno, Write.run, Write.statements]
  | timer id => simp [writeOf, reportedBy, Write.run, Write.statements]
  | tick ms => simp [writeOf, reportedBy, Write.run, Write.statements]
  | _ => cases hact

/-! ### Runs of the daemon -/

theorem sound_closedStep (hs : w.ledger.Sound) (act : Action) :
    (Daemon.closedStep env w act).ledger.Sound := by
  have hstep : ∀ act, (HuginAgent.step env w act).ledger.Sound := fun act => sound_step hs act
  cases act with
  | callback r cb =>
      cases cb with
      | approval req => exact hstep (.callback r (.approval req))
      | event ev =>
          rw [Daemon.closedStep, Daemon.closedCallback]
          split
          · refine hs.of_same ?_
            rw [World.ledger_modifyJob (g := fun j => { j with seq := j.seq + 1 }) _ _ rfl]
            exact same_modify rfl rfl rfl rfl
          · exact hs
      | done outcome =>
          rw [Daemon.closedStep, Daemon.closedCallback]
          split
          · rename_i hlive
            rw [ledger_doneUnfenced]
            exact hs.finish hlive.1
          · exact hstep (.callback r (.done outcome))
  | timer id => exact hstep (.timer id)
  | tick ms => exact hstep (.tick ms)
  | _ => exact hs

theorem store_closedStep (act : Action) : (Daemon.closedStep env w act).store = w.store := by
  have hnothing : ∀ act : Action, writeOf env w act = .nothing →
      (HuginAgent.step env w act).store = w.store := by
    intro act hwrite
    rw [step_store, hwrite]
    rfl
  cases act with
  | callback r cb =>
      cases cb with
      | approval req => exact hnothing (.callback r (.approval req)) rfl
      | event ev =>
          rw [Daemon.closedStep, Daemon.closedCallback]
          split <;> rfl
      | done outcome =>
          rw [Daemon.closedStep, Daemon.closedCallback]
          split
          · rfl
          · rename_i hlive
            exact hnothing (.callback r (.done outcome)) (if_neg hlive)
  | timer id => exact hnothing (.timer id) rfl
  | _ => rfl

/-- Where the world of a daemon comes from. -/
theorem Daemon.world_step (env : Env) (d : Daemon) (act : DaemonAction) :
    ((d.step env act).world.ledger = d.world.ledger ∧
        (d.step env act).world.store = d.world.store) ∨
      (∃ m, (d.step env act).world = HuginAgent.step env d.world m) ∨
      ∃ m, (d.step env act).world = closedStep env d.world m := by
  cases act with
  | manager m =>
      rw [step]
      split
      · split
        · exact Or.inr (Or.inl ⟨m, rfl⟩)
        · exact Or.inr (Or.inr ⟨m, rfl⟩)
      · exact Or.inl ⟨rfl, rfl⟩
  | restart => exact Or.inr (Or.inl ⟨.restart, rfl⟩)
  | accepted epoch =>
      rw [step]
      split
      · rw [accept]
        split <;> exact Or.inl ⟨rfl, rfl⟩
      · exact Or.inl ⟨rfl, rfl⟩
  | _ =>
      rw [step]
      repeat' split
      all_goals exact Or.inl ⟨rfl, rfl⟩

/-- What holds of every daemon and its note. -/
structure WatchInv (env : Env) (s : Watched) : Prop where
  sound : s.daemon.world.ledger.Sound
  genuine : Genuine env.sha256Base64Url s.daemon.world.ledger
  late : ∀ hello, s.daemon.session = .handshaking hello → ∀ a,
    a ∈ s.late ↔ (s.daemon.world.store.resultRow a).isSome = true ∧ hello.lists a = false

/-- `hello` lists the results under the ids they are stored under, since those have been digested. -/
theorem lists_resumeState {w : World} (hg : Genuine env.sha256Base64Url w.ledger) (a : JsString) :
    w.store.resumeState.lists a = (w.store.resultRow a).isSome := by
  have hread : ∀ res ∈ w.store.results.rows, res.read.attemptId = res.attemptId := by
    intro res hres
    have hgood := hg res.attemptId res (EventLog.mem_results.mp hres)
    exact columnText_eq_iff.mpr hgood.whole.1
  unfold ResumeState.lists EventLog.resumeState EventLog.pendingResults EventLog.resultRow
  cases hget : w.store.results.find? a with
  | some res =>
      obtain ⟨hmem, hkey⟩ := Table.find?_eq_some.mp hget
      exact List.any_eq_true.mpr ⟨res.read, List.mem_map_of_mem hmem,
        decide_eq_true ((hread res hmem).trans hkey)⟩
  | none =>
      have hnone := Table.find?_eq_none.mp hget
      refine List.any_eq_false.mpr ?_
      intro res hres
      obtain ⟨row, hrow, rfl⟩ := List.mem_map.mp hres
      rw [hread row hrow]
      simpa using hnone row hrow

theorem genuine_step (h : WatchInv env s) (act : DaemonAction) :
    Genuine env.sha256Base64Url (s.daemon.step env act).world.ledger := by
  rcases s.daemon.world_step env act with ⟨hsame, -⟩ | ⟨m, hworld⟩ | ⟨m, hworld⟩
  · rw [hsame]
    exact h.genuine
  · rw [hworld]
    exact h.genuine.step (step_refines env h.sound m)
  · intro a res hres
    refine h.genuine a res ?_
    rw [hworld] at hres
    have hstore : (Daemon.closedStep env s.daemon.world m).store.resultRow a = some res := hres
    rw [store_closedStep] at hstore
    exact hstore

/-- How a daemon comes to wait for its handshake. -/
theorem handshaking_step {act : DaemonAction} {hello : ResumeState}
    (h : (d.step env act).session = .handshaking hello) :
    (act = .connected ∧ d.session = .dialing ∧ hello = d.world.store.resumeState) ∨
      d.session = .handshaking hello := by
  cases act with
  | connected =>
      rw [Daemon.step] at h
      split at h
      · rename_i hold
        exact Or.inl ⟨rfl, hold, (Session.handshaking.inj h).symm⟩
      · exact Or.inr h
  | accepted epoch =>
      rw [Daemon.step] at h
      split at h
      · rw [Daemon.accept] at h
        split at h
        · cases h
        · simp only at h
          split at h <;> cases h
      · exact Or.inr h
  | manager m =>
      rw [Daemon.step] at h
      refine Or.inr ?_
      split at h
      · split at h
        · cases hold : d.session <;> rw [hold] at h <;> first | exact h | cases h
        · exact h
      · exact h
  | dial | stop | finish =>
      rw [Daemon.step] at h
      refine Or.inr ?_
      repeat' split at h
      all_goals first | exact h | cases h
  | ended | restart => cases h

theorem late_manager (h : WatchInv env s) (m : Action) {hello : ResumeState}
    (hold : s.daemon.session = .handshaking hello) (a : JsString) :
    a ∈ s.lateAfter env (.manager m) ↔
      ((s.daemon.step env (.manager m)).world.store.resultRow a).isSome = true ∧
        hello.lists a = false := by
  have hreach : s.daemon.reaches m = m.isInternal := by
    rw [Daemon.reaches, hold]
    simp [Session.pumps]
  simp only [Watched.lateAfter, hold, Daemon.step, hreach]
  by_cases hopen : s.daemon.storeOpen = true
  · rw [if_pos hopen, List.mem_append, h.late hello hold a]
    cases hint : m.isInternal with
    | true =>
        simp only [hopen, if_true]
        rw [result_internal hint]
        simp only [Option.mem_toList, Option.filter_eq_some_iff, Bool.not_eq_true']
        tauto
    | false =>
        have hnone : reportedBy env s.daemon.world m = none := by
          cases m <;> first | rfl | cases hint
        simp [hnone]
  · rw [if_neg hopen, h.late hello hold a]
    cases m.isInternal with
    | true => simp [hopen, store_closedStep]
    | false => simp

theorem late_step (h : WatchInv env s) (act : DaemonAction) (hello : ResumeState)
    (hsession : (s.daemon.step env act).session = .handshaking hello) (a : JsString) :
    a ∈ s.lateAfter env act ↔
      ((s.daemon.step env act).world.store.resultRow a).isSome = true ∧
        hello.lists a = false := by
  rcases handshaking_step hsession with ⟨rfl, hold, rfl⟩ | hold
  · simp only [Watched.lateAfter, hold, Daemon.step, lists_resumeState h.genuine]
    refine iff_of_false List.not_mem_nil ?_
    rintro ⟨hsome, hnone⟩
    rw [hsome] at hnone
    cases hnone
  · cases act with
    | manager m => exact late_manager h m hold a
    | accepted epoch =>
        simp only [Daemon.step, hold, Daemon.accept] at hsession
        split at hsession
        · cases hsession
        · simp only at hsession
          split at hsession <;> cases hsession
    | _ =>
        simp only [Watched.lateAfter, hold, Daemon.step] at hsession ⊢
        exact h.late hello hold a

theorem watchInv_step (h : WatchInv env s) (act : DaemonAction) : WatchInv env (s.step env act) where
  sound := by
    show (s.daemon.step env act).world.ledger.Sound
    rcases s.daemon.world_step env act with ⟨hsame, -⟩ | ⟨m, hworld⟩ | ⟨m, hworld⟩
    · rw [hsame]
      exact h.sound
    · rw [hworld]
      exact sound_step h.sound m
    · rw [hworld]
      exact sound_closedStep h.sound m
  genuine := genuine_step h act
  late := late_step h act

/-- How a connection comes to be active, and what happens over it. -/
theorem active_step {act : DaemonAction} {hello : ResumeState} {wire : List JsObject}
    (h : (d.step env act).session = .active hello wire) :
    (∃ epoch : Nat, act = .accepted epoch ∧ d.session = .handshaking hello ∧ d.running = true ∧
        d.lastEpoch < epoch ∧ wire = []) ∨
      (∃ m before, d.session = .active hello before ∧
        (d.step env act).world = HuginAgent.step env d.world m ∧
        wire = before ++ sentOf env d.world m) ∨
      d.session = .active hello wire ∧ (d.step env act).world.store = d.world.store := by
  cases act with
  | accepted epoch =>
      rw [Daemon.step] at h ⊢
      split at h
      · rename_i hello' hold
        rw [Daemon.accept] at h
        split at h
        · cases h
        · rename_i hepoch
          simp only at h
          split at h
          · rename_i hrunning
            obtain ⟨rfl, rfl⟩ := Session.active.inj h
            exact Or.inl ⟨epoch, rfl, hold, hrunning, Int.not_le.mp hepoch, rfl⟩
          · cases h
      · exact Or.inr (Or.inr ⟨h, rfl⟩)
  | manager m =>
      rw [Daemon.step] at h ⊢
      refine Or.inr ?_
      split at h
      · rename_i hreach
        simp only [if_pos hreach]
        split at h
        · rename_i hopen
          simp only [if_pos hopen]
          cases hold : d.session with
          | active hello' before =>
              rw [hold] at h
              obtain ⟨rfl, rfl⟩ := Session.active.inj h
              exact Or.inl ⟨m, before, rfl, rfl, rfl⟩
          | _ =>
              rw [hold] at h
              cases h
        · rename_i hopen
          simp only [if_neg hopen]
          exact Or.inr ⟨h, store_closedStep m⟩
      · rename_i hreach
        simp only [if_neg hreach]
        exact Or.inr ⟨h, trivial⟩
  | dial | connected | stop | finish =>
      refine Or.inr (Or.inr ⟨?_, ?_⟩)
      · rw [Daemon.step] at h
        repeat' split at h
        all_goals first | exact h | cases h
      · rw [Daemon.step]
        repeat' split
        all_goals rfl
  | ended | restart => cases h

theorem delivered_step (h : WatchInv env s) (hd : Delivered s.daemon) (act : DaemonAction) :
    Delivered (s.daemon.step env act) ↔ NothingLate s act := by
  constructor
  · intro hnext
    cases act with
    | accepted epoch =>
        rw [NothingLate]
        split
        · rename_i hello hold
          intro hrunning hepoch
          refine List.eq_nil_iff_forall_not_mem.mpr ?_
          intro a ha
          obtain ⟨hsome, hunlisted⟩ := (h.late hello hold a).mp ha
          obtain ⟨res, hres⟩ := Option.isSome_iff_exists.mp hsome
          simp only [Daemon.step, hold, Daemon.accept, if_neg (Int.not_le.mpr hepoch), hrunning,
            if_true] at hnext
          -- a connection over which nothing has been sent yet
          rcases hnext hello [] rfl a res hres with hlisted | ⟨msg, hmem, -⟩
          · rw [hunlisted] at hlisted
            cases hlisted
          · cases hmem
        · trivial
    | _ => trivial
  · intro hlate hello wire hsession a res hres
    rcases active_step hsession with ⟨epoch, rfl, hold, hrunning, hepoch, -⟩ |
      ⟨m, before, hold, hworld, rfl⟩ | ⟨hold, hstore⟩
    · simp only [Daemon.step, hold, Daemon.accept, if_neg (Int.not_le.mpr hepoch)] at hres
      simp only [NothingLate, hold] at hlate
      cases hlisted : hello.lists a with
      | true => exact Or.inl rfl
      | false =>
          have ha := (h.late hello hold a).mpr ⟨by rw [hres]; rfl, hlisted⟩
          rw [hlate hrunning hepoch] at ha
          cases ha
    · rw [hworld] at hres
      rcases result_before_or_sent h.sound h.genuine hres with hbefore | hsent
      · rcases hd hello before hold a res hbefore with hlisted | hsent
        · exact Or.inl hlisted
        · exact Or.inr (sentAsResult_append (Or.inl hsent))
      · exact Or.inr (sentAsResult_append (Or.inr hsent))
    · rw [hstore] at hres
      exact hd hello wire hold a res hres

theorem watchInv_start : WatchInv env Watched.start where
  sound := sound_start
  genuine := fun _ _ h => nomatch h
  late := fun _ h => nomatch h

/-- **No result is stranded just where no connection becomes active over a late one.** -/
theorem delivered_iff (env : Env) (acts : List DaemonAction) :
    (∀ pre post, acts = pre ++ post → Delivered (Daemon.runFrom env pre)) ↔
      Machine.Along (Watched.step env) NothingLate Watched.start acts := by
  have h : (∀ pre post, acts = pre ++ post →
      Delivered (Machine.run (Watched.step env) Watched.start pre).daemon) ↔
        Machine.Along (Watched.step env) NothingLate Watched.start acts :=
    Machine.always_iff (J := WatchInv env) (I := fun s : Watched => Delivered s.daemon)
      (fun _ act hs => watchInv_step hs act) (fun _ act hs hd => delivered_step hs hd act)
      watchInv_start (fun _ _ hsession => nomatch hsession)
  simp only [run_watched] at h
  exact h

/-- An active session that neither lists the attempt nor has sent anything. -/
def Session.isSilentOn (a : JsString) : Session → Bool
  | .active hello wire => !hello.lists a && wire.isEmpty
  | _ => false

/-- The run is done between `hello` and `hello.accepted`. -/
theorem stranded_in_handshake : ¬ ∀ env acts,
    serverAnswers env (Daemon.start World.start) acts = true →
    ∀ pre post, acts = pre ++ post → Delivered (Daemon.runFrom env pre) := by
  intro hall
  let env := sampleEnv sampleDigest .limits
  let acts : List DaemonAction :=
    [.dial, .connected, .accepted 0, .manager (sampleAssign "a" "l"), .ended,
      .dial, .connected, .manager (.callback 0 (.done (.success none))), .accepted 1,
      .manager (sampleResume "a" .resumeFrom (some 0) "l" (by decide))]
  have hdelivered := hall env acts (by decide +kernel) acts [] (List.append_nil _).symm
  have hsilent : (Daemon.runFrom env acts).session.isSilentOn (js "a") = true := by
    decide +kernel
  have hstored : ((Daemon.runFrom env acts).world.store.resultRow (js "a")).isSome = true := by
    decide +kernel
  obtain ⟨res, hres⟩ := Option.isSome_iff_exists.mp hstored
  cases hsession : (Daemon.runFrom env acts).session with
  | active hello wire =>
      rw [hsession] at hsilent
      simp only [Session.isSilentOn, Bool.and_eq_true, Bool.not_eq_true', List.isEmpty_iff] at hsilent
      rcases hdelivered hello wire hsession (js "a") res hres with hlisted | ⟨msg, hmem, -⟩
      · rw [hsilent.1] at hlisted
        cases hlisted
      · rw [hsilent.2] at hmem
        cases hmem
  | _ =>
      rw [hsession] at hsilent
      cases hsilent

end HuginAgent
