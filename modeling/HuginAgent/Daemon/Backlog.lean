/-
Whether the daemon can connect again.

`hello` lists every attempt that is not finished and every result that is not
acknowledged.  The schema of `hello` has room for 256 of each and a frame for 1 MiB, and
nothing keeps the store within that: a restart leaves its attempts on record as running,
and a result stays until its ack.  Once the store is over, no `hello` built from it gets
through, and since it drains only over a connection, none ever will.

What is on record is otherwise fit to be sent, but for one thing: the ids of an attempt
are those of the server, who may put a lone surrogate in them, and that is read back as
three characters.  So counts and sizes decide, and the ids of the attempts as they are
read.
-/
import HuginAgent.Daemon.Session
import HuginAgent.Jobs.Named

namespace HuginAgent

open JobManager

variable {env : Env} {w : World} {isIso : JsString → Bool}

/-- The `hello` that is built from the store meets its schema and fits a frame. -/
structure Reconnects (hs : Handshake isIso) (s : EventLog) : Prop where
  valid : helloSchema isIso (.obj (helloMsg hs s.resumeState)) = true
  fits : FitsFrame (helloMsg hs s.resumeState)

/-- The store is within what a `hello` can carry. -/
structure EventLog.Reportable (s : EventLog) : Prop where
  activeCount : s.activeJobsForResume.length ≤ arrayMax
  activeIds : ∀ r ∈ s.activeJobsForResume, AttemptCtx.Named ⟨r.jobId, r.attemptId, r.leaseId⟩
  activeSeqs : ∀ r ∈ s.activeJobsForResume, r.lastEmittedSeq ≤ maxSafeInteger
  resultCount : s.pendingResults.length ≤ arrayMax
  resultSizes : ∀ res ∈ s.pendingResults, res.resultSize ≤ maxSafeInteger
  resultSeqs : ∀ res ∈ s.pendingResults, res.lastEmittedSeq ≤ maxSafeInteger

/-! ### Rows -/

theorem activeJob_valid {s : EventLog} {r : EventLog.ActiveJobRow}
    (hr : r ∈ s.activeJobsForResume) :
    r.Valid ↔ AttemptCtx.Named ⟨r.jobId, r.attemptId, r.leaseId⟩ ∧
      r.lastEmittedSeq ≤ maxSafeInteger := by
  obtain ⟨read, hread, rfl⟩ := List.mem_map.mp hr
  obtain ⟨row, hrow, rfl⟩ := List.mem_map.mp hread
  obtain ⟨-, hactive⟩ := EventLog.mem_activeRows.mp hrow
  refine ⟨fun hv => ⟨⟨hv.jobId, hv.attemptId, hv.leaseId⟩, hv.lastEmittedSeq⟩, ?_⟩
  rintro ⟨hnamed, hseq⟩
  exact ⟨hnamed.jobId, hnamed.attemptId, hnamed.leaseId, hactive, hseq⟩

/-- A result is read as it is stored. -/
theorem read_of_named {s : EventLog} (h : s.Named) {res : StoredResult}
    (hres : res ∈ s.results.rows) : res.read = res := by
  obtain ⟨-, hwhole, -⟩ := (h res.attemptId).result res (EventLog.mem_results.mp hres)
  have hjob : columnText res.jobId = res.jobId := columnText_eq_iff.mpr hwhole.jobId
  have hattempt : columnText res.attemptId = res.attemptId := columnText_eq_iff.mpr hwhole.attemptId
  have hlease : columnText res.leaseId = res.leaseId := columnText_eq_iff.mpr hwhole.leaseId
  rw [StoredResult.read, hjob, hattempt, hlease]

theorem pendingResult_valid {s : EventLog} (h : s.Named) {res : StoredResult}
    (hres : res ∈ s.pendingResults) :
    res.Valid ↔ res.resultSize ≤ maxSafeInteger ∧ res.lastEmittedSeq ≤ maxSafeInteger := by
  obtain ⟨row, hrow, rfl⟩ := List.mem_map.mp hres
  rw [read_of_named h hrow]
  obtain ⟨hnamed, -, hdigest⟩ := (h row.attemptId).result row (EventLog.mem_results.mp hrow)
  refine ⟨fun hv => ⟨hv.resultSize, hv.lastEmittedSeq⟩, ?_⟩
  rintro ⟨hsize, hseq⟩
  exact ⟨hnamed.jobId, hnamed.attemptId, hnamed.leaseId, hdigest, hsize, hseq⟩

theorem reconnects_of_named {s : EventLog} (h : s.Named) (hs : Handshake isIso) :
    Reconnects hs s ↔
      hs.Describable ∧ s.Reportable ∧ helloBytes hs s.resumeState ≤ maxFrameBytes := by
  have hactive : (∀ r ∈ s.activeJobsForResume, r.Valid) ↔
      ∀ r ∈ s.activeJobsForResume, AttemptCtx.Named ⟨r.jobId, r.attemptId, r.leaseId⟩ ∧
        r.lastEmittedSeq ≤ maxSafeInteger :=
    forall₂_congr fun r hr => activeJob_valid hr
  have hpending : (∀ res ∈ s.pendingResults, res.Valid) ↔
      ∀ res ∈ s.pendingResults,
        res.resultSize ≤ maxSafeInteger ∧ res.lastEmittedSeq ≤ maxSafeInteger :=
    forall₂_congr fun res hres => pendingResult_valid h hres
  have hvalid := hello_valid_iff hs s.resumeState
  have hfits : FitsFrame (helloMsg hs s.resumeState) ↔
      helloBytes hs s.resumeState ≤ maxFrameBytes := by
    rw [fitsFrame_iff, byteLength_helloMsg]
  simp only [EventLog.resumeState] at hvalid
  rw [hactive, hpending] at hvalid
  constructor
  · intro hr
    obtain ⟨hhost, ⟨hcount, hjobs⟩, hresults, hboth⟩ := hvalid.mp hr.valid
    exact ⟨hhost, ⟨hcount, fun r hr => (hjobs r hr).1, fun r hr => (hjobs r hr).2, hresults,
      fun res hres => (hboth res hres).1, fun res hres => (hboth res hres).2⟩, hfits.mp hr.fits⟩
  · rintro ⟨hhost, hroom, hbytes⟩
    refine ⟨hvalid.mpr ⟨hhost, ⟨hroom.activeCount, ?_⟩, hroom.resultCount, ?_⟩, hfits.mpr hbytes⟩
    · exact fun r hr => ⟨hroom.activeIds r hr, hroom.activeSeqs r hr⟩
    · exact fun res hres => ⟨hroom.resultSizes res hres, hroom.resultSeqs res hres⟩

/-- **The daemon can connect again just where its backlog is within bounds.** -/
theorem reconnects_iff (env : Env) (hs : Handshake isIso) (turns : List Turn)
    (hsha : ∀ text, isSha256Digest (env.sha256Base64Url text) = true)
    (hparsed : ∀ t ∈ turns, t.action.Parsed) :
    Reconnects hs (runTurns env turns).store ↔
      hs.Describable ∧ (runTurns env turns).store.Reportable ∧
        helloBytes hs (runTurns env turns).store.resumeState ≤ maxFrameBytes :=
  reconnects_of_named (named_runTurns hsha hparsed) hs

/-- More attempts than the schema has room for. -/
theorem not_reconnects {hs : Handshake isIso} {s : EventLog}
    (h : arrayMax < s.activeJobsForResume.length) : ¬ Reconnects hs s := by
  intro hr
  have hcount := ((hello_valid_iff hs s.resumeState).mp hr.valid).2.1.1
  exact absurd hcount (Nat.not_le.mpr h)

/-! ### A backlog of any length -/

theorem isSemVer_sampleVersion : isSemVer (js "2.0.0") = true := by
  decide

def sampleHandshake : Handshake fun ts => ts = js "2026-01-01T00:00:00.000Z" where
  config :=
    { agentId := js "agent"
      agentVersion := js "0.0.0"
      protocolVersion := js "2.0.0"
      projectRoots := [js "/repo"]
      agentIdOk := by decide
      agentVersionOk := by decide
      protocolVersionOk := isSemVer_sampleVersion }
  challengeId := js "challenge"
  keyId := js "dev-key"
  signature := List.replicate 86 (unit 'A')
  platform := .linux
  arch := js "x64"
  claude := ⟨true, some (js "2.1.0"), none, by decide⟩
  codex := ⟨false, none, some false, by decide⟩
  envelope := ⟨js "m-1", js "2026-01-01T00:00:00.000Z"⟩
  challengeIdOk := by decide
  keyIdOk := by decide
  signatureOk := by decide
  archOk := by decide
  idOk := by decide
  tsOk := by decide

theorem isSha256Digest_sampleEnv (text : JsString) :
    isSha256Digest ((sampleEnv sampleDigest .limits).sha256Base64Url text) = true := by
  show isSha256Digest sampleDigest = true
  decide

theorem sampleHandshake_describable : sampleHandshake.Describable where
  claude := by
    intro version hversion
    obtain rfl := Option.some.inj hversion
    decide
  codex := by
    intro version hversion
    cases hversion
  rootCount := by decide
  roots := by decide

theorem reconnects_sample :
    Reconnects sampleHandshake (runTurns (sampleEnv sampleDigest .limits)
      [.handled (sampleAssign "a" "l"), .handled .restart]).store := by
  apply (reconnects_iff _ sampleHandshake _ isSha256Digest_sampleEnv ?_).mpr
  · refine ⟨sampleHandshake_describable, ⟨?_, ?_, ?_, ?_, ?_, ?_⟩, ?_⟩
    · decide +kernel
    · exact List.forall_mem_singleton.mpr ⟨by decide +kernel, by decide +kernel, by decide +kernel⟩
    all_goals decide +kernel
  · exact List.forall_mem_cons.mpr
      ⟨⟨by decide, by decide, by decide⟩, List.forall_mem_singleton.mpr trivial⟩

def lostMsg (n : Nat) : JobAssign where
  jobId := js "job"
  attemptId := digitUnits n
  leaseId := js "lease"
  engine := .claude
  workspace := ⟨js "/repo", none, none⟩
  prompt := js "go"
  sandbox := .readOnly
  approvalPolicy := .never

/-- The attempt is accepted, and the process dies. -/
def lostAssign (n : Nat) : List Turn := [.handled (.assign (lostMsg n) {}), .handled .restart]

def lostAssigns (n : Nat) : List Turn := (List.range n).flatMap lostAssign

theorem lostAssigns_succ (n : Nat) : lostAssigns (n + 1) = lostAssigns n ++ lostAssign n := by
  rw [lostAssigns, List.range_succ, List.flatMap_append, List.flatMap_singleton]
  rfl

/-- What a lost assignment leaves of the attempts. -/
theorem attempts_lostAssign (hcap : 0 < env.maxConcurrent) (hreg : w.registry = .empty) {n : Nat}
    (hnew : w.store.attemptRow (digitUnits n) = none) (m : Nat) :
    ((Machine.run (turn env) w (lostAssign n)).store.attemptRow (digitUnits m)).map
        AttemptRow.status =
      if m = n then some .running
      else (w.store.attemptRow (digitUnits m)).map AttemptRow.status := by
  have hfull : w.registry.atCapacity env.maxConcurrent = false := by
    rw [hreg]
    exact decide_eq_false (Nat.not_le.mpr hcap)
  have hnone : w.registry.get (digitUnits n) = none := by rw [hreg, JobRegistry.get_empty]
  simp only [lostAssign, Machine.run_cons, Machine.run_nil, turn]
  rw [show ∀ w : World, (step env w .restart).store = w.store from fun _ => rfl, step_store]
  have haccepts : accepts env w (lostMsg n) {} = true := by
    simp [accepts, existing, EventLog.getAttempt, lostMsg, hnone, hnew, refusal, hfull, failsClosed]
  rw [writeOf, if_pos haccepts]
  simp only [Write.run, Write.statements, List.foldl_cons, List.foldl_nil, Statement.run,
    EventLog.attemptRow_setAttemptStatus, EventLog.attemptRow_createAttempt]
  have hid : digitUnits m = (attemptRowOf env w (lostMsg n)).attemptId ↔ m = n :=
    ⟨digitUnits_injective, fun h => by rw [h]; rfl⟩
  by_cases hm : m = n
  · rw [if_pos hm, if_pos (hid.mpr hm), if_pos (hid.mpr hm)]
    rfl
  · rw [if_neg hm, if_neg (mt hid.mp hm), if_neg (mt hid.mp hm)]

theorem attempts_lostAssigns (hcap : 0 < env.maxConcurrent) (n : Nat) :
    (runTurns env (lostAssigns n)).registry = .empty ∧
      ∀ m, ((runTurns env (lostAssigns n)).store.attemptRow (digitUnits m)).map AttemptRow.status =
        if m < n then some .running else none := by
  induction n with
  | zero => exact ⟨rfl, fun m => rfl⟩
  | succ n ih =>
      obtain ⟨hreg, hrows⟩ := ih
      have hnew : (runTurns env (lostAssigns n)).store.attemptRow (digitUnits n) = none := by
        rw [← Option.map_eq_none_iff, hrows, if_neg (Nat.lt_irrefl n)]
      rw [lostAssigns_succ, runTurns, Machine.run_append]
      refine ⟨rfl, ?_⟩
      intro m
      have hstep := attempts_lostAssign hcap hreg hnew m
      rw [hrows m] at hstep
      refine hstep.trans ?_
      by_cases hm : m = n
      · rw [if_pos hm, if_pos (by omega)]
      · rw [if_neg hm, if_congr (by omega : m < n ↔ m < n + 1) rfl rfl]

/-- Nothing keeps the attempts that are reported below a number. -/
theorem activeJobs_lostAssigns (hcap : 0 < env.maxConcurrent) (n : Nat) :
    n ≤ (runTurns env (lostAssigns n)).store.activeJobsForResume.length := by
  have hnodup : ((List.range n).map digitUnits).Nodup :=
    List.Nodup.map (fun _ _ h => digitUnits_injective h) List.nodup_range
  have hsub : (List.range n).map digitUnits ⊆
      (runTurns env (lostAssigns n)).store.activeRows.map AttemptRow.attemptId := by
    intro a ha
    obtain ⟨m, hm, rfl⟩ := List.mem_map.mp ha
    have hrow := (attempts_lostAssigns hcap n).2 m
    rw [if_pos (List.mem_range.mp hm)] at hrow
    obtain ⟨row, hget, hstatus⟩ := Option.map_eq_some_iff.mp hrow
    have hid := EventLog.attemptRow_attemptId _ _ hget
    have hmem : row ∈ (runTurns env (lostAssigns n)).store.attempts.rows :=
      EventLog.mem_attempts.mpr (hid ▸ hget)
    have hactive : row.status.isActive = true := by rw [hstatus]; rfl
    exact List.mem_map.mpr ⟨row, List.mem_filter.mpr ⟨hmem, hactive⟩, hid⟩
  have hlen := (List.subperm_of_subset hnodup hsub).length_le
  simpa [EventLog.activeJobsForResume] using hlen

theorem parsed_lostAssigns (n : Nat) (h : ∀ m < n, isId (digitUnits m) = true) :
    ∀ t ∈ lostAssigns n, t.action.Parsed := by
  intro t ht
  obtain ⟨m, hm, ht⟩ := List.mem_flatMap.mp ht
  rcases List.mem_cons.mp ht with rfl | ht
  · exact ⟨show isId (js "job") = true by decide, h m (List.mem_range.mp hm),
      show isId (js "lease") = true by decide⟩
  · rw [List.mem_singleton.mp ht]
    trivial

/-- **257 attempts that were running when the process died.** -/
theorem reconnect_blocked : ¬ ∀ (env : Env) (isIso : JsString → Bool) (hs : Handshake isIso)
    (turns : List Turn), (∀ text, isSha256Digest (env.sha256Base64Url text) = true) →
    (∀ t ∈ turns, t.action.Parsed) → Reconnects hs (runTurns env turns).store := by
  intro hall
  have hr := hall (sampleEnv sampleDigest .limits) _ sampleHandshake (lostAssigns 257)
    isSha256Digest_sampleEnv (parsed_lostAssigns 257 (by decide +kernel))
  exact not_reconnects (activeJobs_lostAssigns (by decide) 257) hr

end HuginAgent
