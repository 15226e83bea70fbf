/-
The lease of an attempt is the last one that was named for it.

`lease.granted` names a lease, and so do the directives `resume_from` and `resend_result`.  As
long as an attempt stays registered without being assigned anew, no other action touches its
lease, and each of these makes the lease it names the current one.
-/
import HuginAgent.Ledger.Refine

namespace HuginAgent

open JobManager Ledger

variable {env : Env} {w : World} {a : JsString} {r : Ref}

/-- The lease that the action names for the attempt. -/
def Action.namesLease (a : JsString) : Action → Option JsString
  | .leaseGranted msg => if msg.attemptId = a then some msg.leaseId else none
  | .resume d _ =>
      if d.attemptId = a ∧ (d.action = .resumeFrom ∨ d.action = .resendResult) then d.leaseId
      else none
  | _ => none

def Action.assigns (a : JsString) : Action → Bool
  | .assign msg _ => msg.attemptId = a
  | _ => false

/-- The current lease of the attempt is this one, if it is registered and if one is given. -/
def HasLease (w : World) (a : JsString) (lease : Option JsString) : Prop :=
  ∀ r, w.registry.get a = some r → ∀ l, lease = some l → (w.jobs r).leaseId = l

/-- Only an assignment registers an attempt. -/
theorem live_of_step (hs : w.ledger.Sound) {act : Action} (hact : act.assigns a = false)
    (h : (step env w act).registry.get a = some r) : w.registry.get a = some r := by
  rcases (step_refines env hs act).live a with (hsame | hgone) | ⟨lease, started, hop, -⟩
  · exact hsame.symm.trans h
  · have hnone : (step env w act).registry.get a = none := hgone
    rw [h] at hnone
    exact nomatch hnone
  · obtain ⟨msg, reply, rfl, hmsg, -⟩ := opOf_eq_accept hop
    exact absurd hact (by simp [Action.assigns, hmsg])

/-- A lease that a directive names is the current one already, or the job is rotated to it. -/
theorem rotatedBy_of_live (hlive : w.registry.get a = some r) (leaseId : JsString) :
    rotatedBy w a leaseId = some r ∨ (w.jobs r).leaseId = leaseId := by
  rw [rotatedBy, hlive]
  by_cases h : (w.jobs r).leaseId = leaseId
  · exact Or.inr h
  · exact Or.inl (if_pos h)

/-- An action that names a lease for a registered attempt rotates the job to it, if it has
another one. -/
theorem rotated_of_named (env : Env) {act : Action} {leaseId : JsString}
    (hlive : w.registry.get a = some r)
    (h : act.namesLease a = some leaseId) :
    (opOf env w act).rotated = some (r, leaseId) ∨ (w.jobs r).leaseId = leaseId := by
  cases act with
  | leaseGranted msg =>
      simp only [Action.namesLease, Option.ite_none_right_eq_some, Option.some.injEq] at h
      obtain ⟨rfl, rfl⟩ := h
      refine Or.inl ?_
      simp only [opOf, hlive]
      rfl
  | resume d sync =>
      simp only [Action.namesLease, Option.ite_none_right_eq_some] at h
      obtain ⟨⟨rfl, haction⟩, hlease⟩ := h
      refine (rotatedBy_of_live hlive leaseId).imp_left fun hrot => ?_
      rcases haction with haction | haction
      · simp only [opOf, haction, hlease, hrot]
        rfl
      · simp only [opOf, haction, hlease]
        split <;> simp only [Op.rotated, hrot, Option.map_some]
  | _ => cases h

/-- An action that rotates a registered job names the lease for its attempt. -/
theorem named_of_rotated (hs : w.ledger.Sound) {act : Action} {leaseId : JsString}
    (hlive : w.registry.get a = some r) (h : (opOf env w act).rotated = some (r, leaseId)) :
    act.namesLease a = some leaseId := by
  have hsame : ∀ b, w.registry.get b = some r → b = a := fun b hb =>
    (hs.attempt b r hb).symm.trans (hs.attempt a r hlive)
  rcases opOf_rotated h with ⟨msg, rfl, hget, rfl⟩ | ⟨d, sync, rfl, hlease, hrot⟩
  · exact if_pos (hsame _ hget)
  · have hget : w.registry.get d.attemptId = some r := by
      unfold rotatedBy at hrot
      split at hrot
      · rename_i q hq
        split at hrot
        · exact hrot ▸ hq
        · cases hrot
      · cases hrot
    refine (if_pos ⟨hsame _ hget, ?_⟩).trans hlease
    cases haction : d.action with
    | resumeFrom => exact Or.inl rfl
    | resendResult => exact Or.inr rfl
    | ackPending =>
        rw [opOf, haction] at h
        cases h
    | abandon =>
        rw [opOf, haction] at h
        cases h

/-- **A step makes the lease it names the current one, and leaves it alone if it names none.** -/
theorem lease_step (hs : w.ledger.Sound) {act : Action} (hlive : w.registry.get a = some r) :
    ((step env w act).jobs r).leaseId = (act.namesLease a).getD (w.jobs r).leaseId := by
  rcases (step_refines env hs act).lease (hs.live_lt a r hlive) with
    ⟨leaseId, hrot, hlease, -⟩ | ⟨hnot, hlease, -⟩
  · rw [named_of_rotated hs hlive hrot]
    exact hlease
  · refine Eq.trans hlease ?_
    cases hnamed : act.namesLease a with
    | none => rfl
    | some leaseId =>
        rcases rotated_of_named env hlive hnamed with hrot | hcurrent
        · exact absurd hrot (hnot leaseId)
        · exact hcurrent

theorem hasLease_step (hs : w.ledger.Sound) {lease : Option JsString} (h : HasLease w a lease)
    {act : Action} (hact : act.assigns a = false) :
    HasLease (step env w act) a ((act.namesLease a).or lease) := by
  intro r hr l hl
  have hlive := live_of_step hs hact hr
  rw [lease_step hs hlive]
  cases hnamed : act.namesLease a with
  | none =>
      rw [hnamed, Option.none_or] at hl
      exact h r hlive l hl
  | some leaseId =>
      rw [hnamed, Option.some_or] at hl
      exact Option.some.inj hl

/-- The lease that the last of these actions to name one names. -/
def lastNamed (a : JsString) (lease : Option JsString) (acts : List Action) : Option JsString :=
  acts.foldl (fun lease act => (act.namesLease a).or lease) lease

theorem lastNamed_eq (a : JsString) (lease : Option JsString) (acts : List Action) :
    lastNamed a lease acts = (acts.filterMap fun act => act.namesLease a).getLast?.or lease := by
  induction acts generalizing lease with
  | nil => rfl
  | cons act rest ih =>
      rw [lastNamed, List.foldl_cons]
      refine (ih _).trans ?_
      rw [← Option.or_assoc]
      congr 1
      cases hnamed : act.namesLease a with
      | none =>
          rw [List.filterMap_cons_none hnamed]
          exact Option.or_none
      | some leaseId =>
          rw [List.filterMap_cons_some hnamed, List.getLast?_cons]
          cases (rest.filterMap fun act => act.namesLease a).getLast? <;> rfl

/-- **After any actions but an assignment, the lease of an attempt is the last that was named.** -/
theorem hasLease_run (hs : w.ledger.Sound) {lease : Option JsString} (h : HasLease w a lease)
    (acts : List Action) (hacts : ∀ act ∈ acts, act.assigns a = false) :
    (Machine.run (step env) w acts).ledger.Sound ∧
      HasLease (Machine.run (step env) w acts) a (lastNamed a lease acts) := by
  induction acts generalizing w lease with
  | nil => exact ⟨hs, h⟩
  | cons act rest ih =>
      refine ih (sound_step hs act) (hasLease_step hs h (hacts act (List.mem_cons_self ..))) ?_
      exact fun act' hact' => hacts act' (List.mem_cons_of_mem _ hact')

/-- A resume that does not throw is the run of its directives. -/
theorem applyResume_eq {ds : List (ResumeDirective × List Callback)} {w' : World}
    (h : JobManager.applyResume env w ds = (w', none)) :
    w' = Machine.run (step env) w (ds.map fun d => .resume d.1 d.2) := by
  induction ds generalizing w with
  | nil => exact (congrArg Prod.fst h).symm
  | cons d rest ih =>
      rw [JobManager.applyResume] at h
      rw [List.map_cons, Machine.run_cons]
      rcases hd : JobManager.applyDirective env w d.1 d.2 with ⟨w₁, _ | e⟩
      · rw [hd] at h
        rw [step, hd]
        exact ih h
      · rw [hd] at h
        cases congrArg Prod.snd h

end HuginAgent
