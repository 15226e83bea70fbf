/-
A fenced attempt stays silent.

A revoke or an `abandon` fences the job that is registered, and from there on its
run may go on calling back for as long as it likes, with a replacement registered
under the same id.  A fenced job is never registered (`Ledger.Sound.unfenced`), no
step takes its fence away (`Ledger.Step.job`), and a callback of it changes nothing
but the job itself (`callback_fenced`).  Its timers do not look at the fence; what
they touch is the job they belong to and its run.
-/
import HuginAgent.Ledger.Refine

namespace HuginAgent

open JobManager Ledger

variable {env : Env} {w : World} {r : Ref}

/-- The actions that fence the registered job `r`, for all that its run may call back with
while it is told to stop. -/
inductive Fences (w : World) (r : Ref) : (List Callback → Action) → Prop
  | revoke (msg : LeaseRevoke) (live : w.registry.get msg.attemptId = some r)
      (accepted : leaseOk w (some r) msg.attemptId msg.leaseId = true) :
      Fences w r fun sync => .revoke msg sync
  | abandon (d : ResumeDirective) (action : d.action = .abandon)
      (live : w.registry.get d.attemptId = some r) : Fences w r fun sync => .resume d sync

/-- What happens between two worlds happens to the job `r` and its run alone. -/
structure Silent (r : Ref) (w w' : World) : Prop where
  sent : w'.sent = w.sent
  store : w'.store = w.store
  registry : w'.registry.get = w.registry.get
  startedAt : ∀ a, w'.startedAt.lookup a = w.startedAt.lookup a
  jobs : ∀ q, q ≠ r → w'.jobs q = w.jobs q

theorem Silent.refl (r : Ref) (w : World) : Silent r w w :=
  ⟨rfl, rfl, rfl, fun _ => rfl, fun _ _ => rfl⟩

/-! ### Callbacks and timers of a fenced job -/

theorem silent_retire (h : w.registry.get (w.jobs r).attemptId ≠ some r) :
    Silent r w (retire w r) := by
  have hjobs : ∀ q, q ≠ r → (retire w r).jobs q = w.jobs q := by
    intro q hq
    simp [retire, World.clearApprovals, World.modifyJob, Function.update_of_ne hq]
  refine ⟨rfl, rfl, ?_, ?_, hjobs⟩
  · simp [retire, h, World.clearApprovals, World.modifyJob]
  · intro a
    simp [retire, h, World.clearApprovals, World.modifyJob]

/-- A callback of a fenced job, whoever is registered by now. -/
theorem silent_callback (hs : w.ledger.Sound) (hf : (w.jobs r).fenced = true) (cb : Callback) :
    Silent r w (step env w (.callback r cb)) := by
  rw [step, callback_fenced hf]
  split
  · refine silent_retire ?_
    intro hlive
    exact absurd hf (by rw [show (w.jobs r).fenced = false from hs.unfenced _ r hlive]; simp)
  · exact .refl r w

/-- A timer of a job. -/
theorem silent_timer (id : TimerId)
    (h : ∀ t, w.timers.find? (fun t => t.id = id) = some t → t.state = r) :
    Silent r w (step env w (.timer id)) := by
  rw [step, onTimer]
  split
  · exact .refl r w
  · rename_i t hfind
    obtain rfl := h t hfind
    refine ⟨rfl, rfl, rfl, fun _ => rfl, ?_⟩
    intro q hq
    simp [World.callRun, World.modifyJob, Function.update_of_ne hq]

/-! ### The fencing step -/

/-- Both fencing actions fence and then drop rows. -/
theorem step_fences (env : Env) {act : List Callback → Action} (h : Fences w r act) :
    ∃ a, ∃ drop : EventLog → EventLog, w.registry.get a = some r ∧ ∀ sync,
      step env w (act sync) =
        { fence env w r a sync with store := drop (fence env w r a sync).store } := by
  cases h with
  | revoke msg live accepted =>
      refine ⟨msg.attemptId, fun store => store.deleteAttempt msg.attemptId, live, ?_⟩
      intro sync
      rw [step, handleRevoke, live]
      simp only [accepted, if_true]
  | abandon d action live =>
      refine ⟨d.attemptId, fun store => (store.deleteResult d.attemptId).deleteAttempt d.attemptId,
        live, ?_⟩
      intro sync
      simp only [step, applyDirective, action, live]

theorem fence_fenced (a : JsString) (sync : List Callback) :
    ((fence env w r a sync).jobs r).fenced = true := by
  rw [fence_eq]
  by_cases he : endsIn w r sync = true
  · simp only [he, if_true]
    exact retire_fenced cutOff_fenced
  · simp only [he]
    exact cutOff_fenced

theorem fence_sent (a : JsString) (sync : List Callback) :
    (fence env w r a sync).sent = w.sent := by
  rw [fence_eq]
  by_cases he : endsIn w r sync = true
  · simp only [he, if_true]
    rfl
  · simp only [he]
    rfl

/-- **What a run calls back with while it is told to stop makes no difference to anyone else.** -/
theorem silent_fence (env : Env) {a : JsString} (hid : (w.jobs r).attemptId = a) (sync : List Callback) :
    Silent r (fence env w r a []) (fence env w r a sync) := by
  have hnone : endsIn w r [] = false := by simp [endsIn]
  rw [fence_eq, fence_eq, hnone]
  by_cases he : endsIn w r sync = true
  · simp only [he, if_true, Bool.false_eq_true, if_false]
    have hattempt : ((cutOff w r).jobs r).attemptId = a := by
      simpa [cutOff, World.callRun, World.clearApprovals] using hid
    refine ⟨rfl, rfl, ?_, ?_, ?_⟩
    · funext b
      by_cases hb : b = a
      · simp [hb]
      · simp only [JobRegistry.get_remove, if_neg hb, retire, hattempt]
        split
        · simp [World.clearApprovals, World.modifyJob, hb]
        · rfl
    · intro b
      by_cases hb : b = a
      · rw [hb, AList.lookup_erase, AList.lookup_erase]
      · simp only [AList.lookup_erase_ne hb, retire, hattempt]
        split
        · simp [World.clearApprovals, World.modifyJob, AList.lookup_erase_ne hb]
        · rfl
    · intro q hq
      simp [retire, World.clearApprovals, World.modifyJob, Function.update_of_ne hq]
  · simp only [he]
    exact .refl r _

theorem fences_fenced {act : List Callback → Action} (h : Fences w r act) (sync : List Callback) :
    ((step env w (act sync)).jobs r).fenced = true := by
  obtain ⟨a, drop, -, hstep⟩ := step_fences env h
  rw [hstep]
  exact fence_fenced a sync

theorem fences_silent (env : Env) (hs : w.ledger.Sound) {act : List Callback → Action} (h : Fences w r act)
    (sync : List Callback) :
    (step env w (act sync)).sent = w.sent ∧
      Silent r (step env w (act [])) (step env w (act sync)) := by
  obtain ⟨a, drop, hlive, hstep⟩ := step_fences env h
  have hfence := silent_fence env (hs.attempt a r hlive) sync
  rw [hstep, hstep]
  exact ⟨fence_sent a sync,
    ⟨hfence.sent, congrArg drop hfence.store, hfence.registry, hfence.startedAt, hfence.jobs⟩⟩

/-! ### Every run after it -/

/-- A job that is fenced stays fenced. -/
theorem fenced_run (acts : List Action) (hs : w.ledger.Sound) (hlt : r < w.nextRef)
    (hf : (w.jobs r).fenced = true) : ((Machine.run (step env) w acts).jobs r).fenced = true := by
  have hrun := Machine.run_invariant_all (step env)
    (I := fun w : World => w.ledger.Sound ∧ r < w.nextRef ∧ (w.jobs r).fenced = true) ?_
    ⟨hs, hlt, hf⟩ acts
  · exact hrun.2.2
  · intro w act hI
    obtain ⟨hs, hlt, hf⟩ := hI
    obtain ⟨hlt', hlater⟩ := (step_refines env hs act).job hlt
    exact ⟨sound_step hs act, hlt', hlater.fenced hf⟩

/-- **Fencing**: whatever comes after it, the fenced job is silent, and no fenced job is ever
registered. -/
theorem fencing (env : Env) :
    (∀ acts a r, (runFrom env acts).registry.get a = some r →
      ((runFrom env acts).jobs r).fenced = false) ∧
    ∀ before r act sync, Fences (runFrom env before) r act →
      (runFrom env (before ++ [act sync])).sent = (runFrom env before).sent ∧
      Silent r (runFrom env (before ++ [act []])) (runFrom env (before ++ [act sync])) ∧
      ∀ later, let w := runFrom env (before ++ act sync :: later)
        (∀ cb, Silent r w (step env w (.callback r cb))) ∧
        ∀ id, (∀ t, w.timers.find? (fun t => t.id = id) = some t → t.state = r) →
          Silent r w (step env w (.timer id)) := by
  refine ⟨fun acts a r hlive => (ledger_sound env acts).unfenced a r hlive, ?_⟩
  intro before r act sync hit
  have hs := ledger_sound env before
  obtain ⟨hsent, hsync⟩ := fences_silent env hs hit sync
  rw [runFrom_snoc, runFrom_snoc]
  refine ⟨hsent, hsync, ?_⟩
  intro later
  refine ⟨fun cb => silent_callback (ledger_sound env _) ?_ cb, fun id ht => silent_timer id ht⟩
  have hlt : r < (runFrom env before).nextRef := by
    obtain ⟨a, -, hlive, -⟩ := step_fences env hit
    exact hs.live_lt a r hlive
  have hlt' := ((step_refines env hs (act sync)).job hlt).1
  rw [runFrom_append, Machine.run_cons]
  exact fenced_run later (sound_step hs _) hlt' (fences_fenced hit sync)

/-- The attempt is revoked and assigned anew; then the old run says that it is done. -/
theorem fencing_replaced :
    let env := sampleEnv sampleDigest .limits
    let before := [sampleAssign "a" "l"]
    let act := fun sync => Action.revoke ⟨js "a", js "l"⟩ sync
    let w := runFrom env (before ++ act [] :: [sampleAssign "a" "m"])
    Fences (runFrom env before) 0 act ∧ w.registry.get (js "a") = some 1 ∧
      Silent 0 w (step env w (.callback 0 (.done (.success none)))) := by
  intro env before act w
  have hit : Fences (runFrom env before) 0 act :=
    .revoke ⟨js "a", js "l"⟩ (by decide +kernel) (by decide +kernel)
  exact ⟨hit, by decide +kernel, (((fencing env).2 before 0 act [] hit).2.2 _).1 _⟩

end HuginAgent
