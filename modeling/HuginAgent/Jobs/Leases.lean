/-
Which lease a message may come under.

A lease changes by `lease.granted` and by the directives of a resume, and for the
length of the overlap the lease before the last change is accepted too.  What the
last change was is read off the run itself (`lastChange`), not off the job, and the
job's `prevLease` and `leaseOverlapUntil` are compared with it.

They never accept more than the last change allows (`prev_explained`).  They accept
less after a `lease.granted` that comes again: `handleLeaseGranted` has no check for a
lease that is current already, as `adoptLease` has, and takes the current lease for
the previous one.
-/
import HuginAgent.Ledger.Refine

namespace HuginAgent

open JobManager Ledger

variable {env : Env} {w : World} {r : Ref}

/-! ### The last change of a lease -/

/-- For each job the lease before its last change, and when that was. -/
abbrev LeaseNotes := Ref → Option (JsString × Int)

def noteLease (env : Env) (w : World) (act : Action) (notes : LeaseNotes) : LeaseNotes :=
  fun r =>
    if r < w.nextRef ∧ ((step env w act).jobs r).leaseId ≠ (w.jobs r).leaseId then
      some ((w.jobs r).leaseId, w.now)
    else notes r

def lastChange (env : Env) (acts : List Action) : LeaseNotes :=
  Machine.track (step env) (noteLease env) World.start (fun _ => none) acts

/-- The lease is current, or was until less than the overlap ago. -/
def InForce (w : World) (notes : LeaseNotes) (r : Ref) (now : Int) (incoming : JsString) : Prop :=
  incoming = (w.jobs r).leaseId ∨
    ∃ since, notes r = some (incoming, since) ∧ now < since + leaseRotationOverlapMs

theorem accepts_iff (s : JobState) (now : Int) (incoming : JsString) :
    s.accepts now incoming = true ↔
      incoming = s.leaseId ∨ ∃ limit, s.job.prev = some (incoming, limit) ∧ now < limit := by
  simp only [JobState.accepts, JobState.job, Bool.or_eq_true, decide_eq_true_eq]
  cases s.prevLease with
  | none => simp
  | some prev =>
      simp only [Bool.and_eq_true, decide_eq_true_eq, Option.map_some, Option.some.injEq,
        Prod.mk.injEq]
      constructor
      · intro h
        exact h.imp_right fun h => ⟨_, ⟨h.1.symm, rfl⟩, h.2⟩
      · intro h
        refine h.imp_right fun h => ?_
        obtain ⟨limit, ⟨rfl, rfl⟩, hlt⟩ := h
        exact ⟨rfl, hlt⟩

/-! ### What a step does to the leases of a job -/

/-- Nothing about the leases of the job changes; or it is rotated to another lease; or it is
granted the lease it has. -/
theorem lease_cases (env : Env) (hs : w.ledger.Sound) (act : Action) (hr : r < w.nextRef) :
    ((step env w act).jobs r).leaseId = (w.jobs r).leaseId ∧
        ((step env w act).jobs r).job.prev = (w.jobs r).job.prev ∨
      ((step env w act).jobs r).job.prev =
          some ((w.jobs r).leaseId, w.now + leaseRotationOverlapMs) ∧
        (((step env w act).jobs r).leaseId ≠ (w.jobs r).leaseId ∨
          ((step env w act).jobs r).leaseId = (w.jobs r).leaseId ∧
            ∃ msg, act = .leaseGranted msg ∧ w.registry.get msg.attemptId = some r ∧
              msg.leaseId = (w.jobs r).leaseId) := by
  rcases (step_refines env hs act).lease hr with ⟨lease, hrot, hlease, hprev⟩ | h
  · refine Or.inr ⟨hprev, ?_⟩
    by_cases hsame : lease = (w.jobs r).leaseId
    · refine Or.inr ⟨hlease.trans hsame, ?_⟩
      rcases opOf_rotated hrot with ⟨msg, hact, hlive, hmsg⟩ | ⟨d, sync, -, -, hhit⟩
      · exact ⟨msg, hact, hlive, hmsg.trans hsame⟩
      · exact absurd hsame.symm (rotatedBy_ne hhit)
    · exact Or.inl fun hc => hsame (hlease.symm.trans hc)
  · exact Or.inl h.2

theorem now_le (env : Env) (hs : w.ledger.Sound) (act : Action) :
    w.now ≤ (step env w act).now :=
  (step_refines env hs act).now_le

/-- The leases of a job that has just been given out. -/
theorem fresh_lease (hs : w.ledger.Sound) (act : Action) (hr : w.nextRef ≤ r)
    (hr' : r < (step env w act).nextRef) : ((step env w act).jobs r).job.prev = none := by
  exact ((step_refines env hs act).fresh_job hr hr').1

/-! ### What is accepted was in force -/

/-- The previous lease of a job is the one before its last change, with that change's overlap,
or it is the current one. -/
structure Explained (w : World) (notes : LeaseNotes) : Prop where
  sound : w.ledger.Sound
  fresh : ∀ r, w.nextRef ≤ r → notes r = none
  prev : ∀ r < w.nextRef, ∀ lease limit, (w.jobs r).job.prev = some (lease, limit) →
    lease = (w.jobs r).leaseId ∨
      ∃ since, notes r = some (lease, since) ∧ limit = since + leaseRotationOverlapMs

theorem explained_step {notes : LeaseNotes} (h : Explained w notes) (act : Action) :
    Explained (step env w act) (noteLease env w act notes) := by
  have hs := h.sound
  have hstep := step_refines env hs act
  refine ⟨sound_step hs act, ?_, ?_⟩
  · intro r hr
    have hlt : ¬ r < w.nextRef := Nat.not_lt.mpr (Nat.le_trans hstep.next_le hr)
    rw [noteLease, if_neg (fun hc => hlt hc.1)]
    exact h.fresh r (Nat.not_lt.mp hlt)
  · intro r hr lease limit hprev
    by_cases hlt : r < w.nextRef
    · rcases lease_cases env hs act hlt with ⟨hlease, hsame⟩ | ⟨hnew, hne | ⟨heq, -⟩⟩
      · rw [noteLease, if_neg (fun hc => hc.2 hlease), hlease]
        exact h.prev r hlt lease limit (hsame ▸ hprev)
      · rw [noteLease, if_pos ⟨hlt, hne⟩]
        rw [hnew] at hprev
        cases hprev
        exact Or.inr ⟨w.now, rfl, rfl⟩
      · rw [hnew] at hprev
        cases hprev
        exact Or.inl heq.symm
    · rw [fresh_lease hs act (Nat.not_lt.mp hlt) hr] at hprev
      cases hprev

theorem explained (env : Env) (acts : List Action) :
    Explained (runFrom env acts) (lastChange env acts) := by
  refine Machine.track_invariant_all (step env) _ (I := fun w n => Explained w n)
    (fun w act n h => explained_step h act) ?_ acts
  exact ⟨sound_start, fun _ _ => rfl, fun r hr => absurd hr (Nat.not_lt_zero r)⟩

/-- What a registered attempt accepts is in force. -/
theorem inForce_of_accepts {acts : List Action} (hr : r < (runFrom env acts).nextRef) {now : Int}
    {incoming : JsString} (h : ((runFrom env acts).jobs r).accepts now incoming = true) :
    InForce (runFrom env acts) (lastChange env acts) r now incoming := by
  rcases (accepts_iff _ _ _).mp h with hcur | ⟨limit, hprev, hlt⟩
  · exact Or.inl hcur
  · rcases (explained env acts).prev r hr incoming limit hprev with hcur | ⟨since, hnote, rfl⟩
    · exact Or.inl hcur
    · exact Or.inr ⟨since, hnote, hlt⟩

/-! ### Messages without authority -/

/-- The attempt and lease of a message that has to come under its attempt's lease. -/
def Action.lease? : Action → Option (JsString × JsString)
  | .streamAck msg => some (msg.attemptId, msg.leaseId)
  | .resultAck msg => some (msg.attemptId, msg.leaseId)
  | .cancel msg => some (msg.attemptId, msg.leaseId)
  | .approvalResponse msg => some (msg.attemptId, msg.leaseId)
  | .revoke msg _ => some (msg.attemptId, msg.leaseId)
  | _ => none

/-- The lease is in force for the attempt, or the one that is read of its record when it is not
registered. -/
def Authorized (env : Env) (acts : List Action) (attemptId leaseId : JsString) : Prop :=
  match (runFrom env acts).registry.get attemptId with
  | some r => InForce (runFrom env acts) (lastChange env acts) r (runFrom env acts).now leaseId
  | none => ∃ row, (runFrom env acts).store.getAttempt attemptId = some row ∧ row.leaseId = leaseId

theorem authorized_of_leaseOk {acts : List Action} {a leaseId : JsString}
    (h : leaseOk (runFrom env acts) ((runFrom env acts).registry.get a) a leaseId = true) :
    Authorized env acts a leaseId := by
  unfold Authorized
  cases hlive : (runFrom env acts).registry.get a with
  | none =>
      rw [hlive] at h
      simpa [leaseOk] using h
  | some r =>
      rw [hlive] at h
      exact inForce_of_accepts ((ledger_sound env acts).live_lt a r hlive) h

/-- A message whose lease is not accepted does nothing. -/
theorem step_of_not_leaseOk {act : Action} {a leaseId : JsString} (hact : act.lease? = some (a, leaseId))
    (h : leaseOk w (w.registry.get a) a leaseId = false) : step env w act = w := by
  cases act with
  | streamAck msg =>
      cases hact
      simp only [step, handleStreamAck, h, Bool.false_eq_true, if_false]
  | resultAck msg =>
      cases hact
      simp only [step, handleResultAck, h, Bool.false_eq_true, if_false]
  | cancel msg =>
      cases hact
      rw [step, handleCancel]
      split
      · rfl
      · rename_i r hlive
        rw [hlive] at h
        simp only [h, Bool.false_eq_true, if_false]
  | approvalResponse msg =>
      cases hact
      rw [step, handleApprovalResponse]
      split
      · rfl
      · rename_i r hlive
        rw [hlive] at h
        simp only [h, Bool.false_eq_true, if_false]
  | revoke msg sync =>
      cases hact
      rw [step, handleRevoke]
      split
      · rfl
      · rename_i r hlive
        rw [hlive] at h
        simp only [h, Bool.false_eq_true, if_false]
  | _ => cases hact

/-- **A message without authority changes nothing at all.** -/
theorem unauthorized_ignored (env : Env) (acts : List Action) (act : Action) (a leaseId : JsString)
    (hact : act.lease? = some (a, leaseId)) (h : ¬ Authorized env acts a leaseId) :
    step env (runFrom env acts) act = runFrom env acts := by
  refine step_of_not_leaseOk hact ?_
  by_contra hok
  exact h (authorized_of_leaseOk (Bool.not_eq_false _ ▸ hok))

/-- The overlap of a rotation is over, and a cancel comes under the old lease. -/
theorem unauthorized_after_overlap :
    let env := sampleEnv sampleDigest .limits
    let acts := [sampleAssign "a" "l", .leaseGranted ⟨js "a", js "m"⟩, .tick 5000]
    ¬ Authorized env acts (js "a") (js "l") ∧
      step env (runFrom env acts) (.cancel ⟨js "a", js "l", 0⟩) = runFrom env acts := by
  intro env acts
  have hno : ¬ Authorized env acts (js "a") (js "l") := by
    intro h
    have hlive : (runFrom env acts).registry.get (js "a") = some 0 := by decide +kernel
    have hnote : lastChange env acts 0 = some (js "l", 0) := by decide +kernel
    rw [Authorized, hlive] at h
    rcases h with hcur | ⟨since, hsince, hlt⟩
    · exact absurd hcur (by decide +kernel)
    · rw [hnote] at hsince
      cases hsince
      exact absurd hlt (by decide +kernel)
  exact ⟨hno, unauthorized_ignored env acts _ _ _ rfl hno⟩

/-! ### What is in force is accepted -/

/-- A lease that is current already is not granted again while another one is in its overlap. -/
def RegrantSafe (w : World) : Action → Prop
  | .leaseGranted msg => ∀ r ∈ w.registry.get msg.attemptId, msg.leaseId = (w.jobs r).leaseId →
      ∀ prev ∈ (w.jobs r).prevLease,
        prev = (w.jobs r).leaseId ∨ (w.jobs r).leaseOverlapUntil.getD 0 ≤ w.now
  | _ => True

/-- The rotation of `r` to the lease it has comes again. -/
def Redelivers (w : World) (r : Ref) : Action → Prop
  | .leaseGranted msg => w.registry.get msg.attemptId = some r ∧ msg.leaseId = (w.jobs r).leaseId
  | .resume d _ => w.registry.get d.attemptId = some r ∧ d.leaseId = some (w.jobs r).leaseId
  | _ => False

/-- In every state of the run the leases in force are accepted and no others, and a rotation that
comes again changes nothing about that from then on. -/
structure OverlapKept (env : Env) (acts : List Action) : Prop where
  accepted : ∀ pre post a r incoming, acts = pre ++ post → (runFrom env pre).registry.get a = some r →
    (leaseOk (runFrom env pre) (some r) a incoming = true ↔
      InForce (runFrom env pre) (lastChange env pre) r (runFrom env pre).now incoming)
  redelivered : ∀ pre act post r, acts = pre ++ act :: post → Redelivers (runFrom env pre) r act →
    ∀ now incoming, (runFrom env pre).now ≤ now →
      ((step env (runFrom env pre) act).jobs r).accepts now incoming =
        ((runFrom env pre).jobs r).accepts now incoming

/-- The last change of a job is what it remembers, as long as its overlap lasts. -/
def Remembered (w : World) (notes : LeaseNotes) : Prop :=
  ∀ r < w.nextRef, ∀ lease since now, notes r = some (lease, since) → w.now ≤ now →
    now < since + leaseRotationOverlapMs →
    lease = (w.jobs r).leaseId ∨
      (w.jobs r).job.prev = some (lease, since + leaseRotationOverlapMs)

theorem remembered_step {notes : LeaseNotes} (h : Explained w notes) (hm : Remembered w notes)
    {act : Action} (hsafe : RegrantSafe w act) :
    Remembered (step env w act) (noteLease env w act notes) := by
  have hs := h.sound
  intro r hr lease since now hnote hnow hlt
  have hnow' := (now_le env hs act).trans hnow
  by_cases hold : r < w.nextRef
  · rcases lease_cases env hs act hold with
      ⟨hlease, hsame⟩ | ⟨hnew, hne | ⟨heq, msg, rfl, hlive, hmsg⟩⟩
    · rw [noteLease, if_neg (fun hc => hc.2 hlease)] at hnote
      rw [hlease, hsame]
      exact hm r hold lease since now hnote hnow' hlt
    · rw [noteLease, if_pos ⟨hold, hne⟩] at hnote
      cases hnote
      exact Or.inr hnew
    · -- granted again: nothing but the current lease was in its overlap
      rw [noteLease, if_neg (fun hc => hc.2 heq)] at hnote
      rw [heq]
      rcases hm r hold lease since now hnote hnow' hlt with hcur | hprev
      · exact Or.inl hcur
      · obtain ⟨prev, hprev', hpair⟩ := Option.map_eq_some_iff.mp hprev
        injection hpair with hlease hlimit
        rcases hsafe r hlive hmsg prev hprev' with hcur | hover
        · exact Or.inl (hlease ▸ hcur)
        · omega
  · have hnone := h.fresh r (Nat.not_lt.mp hold)
    rw [noteLease, if_neg (fun hc => hold hc.1), hnone] at hnote
    cases hnote

theorem remembered {acts : List Action} (h : Along env (fun w act => RegrantSafe w act) acts) :
    Remembered (runFrom env acts) (lastChange env acts) := by
  have hrun := Machine.track_invariant (step env) (noteLease env)
    (P := fun w act => RegrantSafe w act) (I := fun w n => Explained w n ∧ Remembered w n)
    (fun w act n hI hsafe => ⟨explained_step hI.1 act, remembered_step hI.1 hI.2 hsafe⟩)
    (n := fun _ => none) ⟨explained env [], ?_⟩ h
  · exact hrun.2
  · intro r hr
    exact absurd hr (Nat.not_lt_zero r)

/-- From now on, a lease is accepted when it is in force. -/
theorem accepts_iff_inForce {notes : LeaseNotes} (h : Explained w notes) (hm : Remembered w notes)
    (hr : r < w.nextRef) {now : Int} (hnow : w.now ≤ now) (incoming : JsString) :
    (w.jobs r).accepts now incoming = true ↔ InForce w notes r now incoming := by
  rw [accepts_iff]
  constructor
  · intro hacc
    rcases hacc with hcur | ⟨limit, hprev, hlt⟩
    · exact Or.inl hcur
    · refine (h.prev r hr incoming limit hprev).imp_right ?_
      intro hex
      obtain ⟨since, hnote, rfl⟩ := hex
      exact ⟨since, hnote, hlt⟩
  · intro hforce
    rcases hforce with hcur | ⟨since, hnote, hlt⟩
    · exact Or.inl hcur
    · refine (hm r hr incoming since now hnote hnow hlt).imp_right ?_
      intro hprev
      exact ⟨_, hprev, hlt⟩

/-- A rotation that comes again leaves the current lease as it is. -/
theorem redelivers_lease (hs : w.ledger.Sound) {act : Action} (h : Redelivers w r act)
    (hr : r < w.nextRef) : ((step env w act).jobs r).leaseId = (w.jobs r).leaseId := by
  rcases (step_refines env hs act).lease hr with ⟨lease, hrot, hlease, -⟩ | ⟨-, hlease, -⟩
  · refine hlease.trans ?_
    rcases opOf_rotated hrot with ⟨msg, rfl, -, hmsg⟩ | ⟨d, sync, rfl, hd, -⟩
    · exact hmsg.symm.trans h.2
    · exact Option.some.inj (hd.symm.trans h.2)
  · exact hlease

theorem redelivers_live {act : Action} (h : Redelivers w r act) :
    ∃ a, w.registry.get a = some r := by
  unfold Redelivers at h
  split at h
  · exact ⟨_, h.1⟩
  · exact ⟨_, h.1⟩
  · exact absurd h id

theorem redelivered_same (hs : w.ledger.Sound) {act : Action} (h : Redelivers w r act)
    (hsafe : RegrantSafe w act) {now : Int} (hnow : w.now ≤ now) (incoming : JsString) :
    ((step env w act).jobs r).accepts now incoming = (w.jobs r).accepts now incoming := by
  obtain ⟨a, hlive⟩ := redelivers_live h
  have hr := hs.live_lt a r hlive
  rw [Bool.eq_iff_iff, accepts_iff, accepts_iff, redelivers_lease hs h hr]
  rcases lease_cases env hs act hr with
    ⟨-, hsame⟩ | ⟨hnew, hne | ⟨-, msg, rfl, hget, hmsg⟩⟩
  · rw [hsame]
  · exact absurd (redelivers_lease hs h hr) hne
  · rw [hnew]
    constructor
    · intro hacc
      rcases hacc with hcur | ⟨limit, hprev, -⟩
      · exact Or.inl hcur
      · cases hprev
        exact Or.inl rfl
    · intro hacc
      rcases hacc with hcur | ⟨limit, hprev, hlt⟩
      · exact Or.inl hcur
      · obtain ⟨prev, hprev', hpair⟩ := Option.map_eq_some_iff.mp hprev
        injection hpair with hincoming hlimit
        rcases hsafe r hget hmsg prev hprev' with hcur | hover
        · exact Or.inl (hincoming ▸ hcur)
        · omega

/-- After a regrant the job accepts its current lease alone. -/
theorem accepts_regranted {msg : LeaseGranted} (hlive : w.registry.get msg.attemptId = some r)
    (hmsg : msg.leaseId = (w.jobs r).leaseId) {now : Int} {incoming : JsString}
    (h : ((step env w (.leaseGranted msg)).jobs r).accepts now incoming = true) :
    incoming = (w.jobs r).leaseId := by
  simp only [step, handleLeaseGranted, hlive, JobState.accepts, JobManager.rotate,
    World.jobs_modifyJob_self, Bool.or_eq_true, Bool.and_eq_true, decide_eq_true_eq] at h
  rcases h with hcur | ⟨hprev, -⟩
  · exact hcur.trans hmsg
  · exact hprev

/-- **A rotation overlaps as it should in the runs in which a current lease is granted again only
when no other one is in its overlap, and in no others.** -/
theorem overlap_iff (env : Env) (acts : List Action) :
    OverlapKept env acts ↔ Along env (fun w act => RegrantSafe w act) acts := by
  constructor
  · intro h
    refine Machine.along_iff.mpr ?_
    intro pre act post hsplit
    cases act with
    | leaseGranted msg =>
        intro r hlive hmsg prev hprev
        by_contra hc
        obtain ⟨hne, hlt⟩ := not_or.mp hc
        have hbefore : ((runFrom env pre).jobs r).accepts (runFrom env pre).now prev = true := by
          refine (accepts_iff _ _ _).mpr (Or.inr ⟨_, ?_, Int.not_le.mp hlt⟩)
          rw [JobState.job, show ((runFrom env pre).jobs r).prevLease = some prev from hprev]
          rfl
        have hsame := h.redelivered pre _ post r hsplit ⟨hlive, hmsg⟩ _ prev (le_refl _)
        exact hne (accepts_regranted hlive hmsg (hsame.trans hbefore))
    | _ => trivial
  · intro h
    refine ⟨?_, ?_⟩
    · intro pre post a r incoming hsplit hlive
      have hpre := (Machine.along_append.mp (hsplit ▸ h)).1
      exact accepts_iff_inForce (explained env pre) (remembered hpre)
        ((ledger_sound env pre).live_lt a r hlive) (le_refl _) incoming
    · intro pre act post r hsplit hre now incoming hnow
      exact redelivered_same (ledger_sound env pre) hre
        (Machine.along_iff.mp h pre act post hsplit) hnow incoming

/-- A rotation comes twice, and the lease before it is refused at once. -/
theorem overlap_lost_by_redelivery : ¬ ∀ env acts, OverlapKept env acts := by
  intro hall
  have h := hall (sampleEnv sampleDigest .limits) [sampleAssign "a" "l",
    .leaseGranted ⟨js "a", js "m"⟩, .leaseGranted ⟨js "a", js "m"⟩]
  have hok := (h.accepted _ [] (js "a") 0 (js "l") (List.append_nil _).symm (by decide +kernel)).mpr
    (Or.inr ⟨0, by decide +kernel, by decide +kernel⟩)
  exact absurd hok (by decide +kernel)

end HuginAgent
