/-
Who decides on a request.

A request and its timeout go together: every armed timeout is of an open request, no two
requests share one, and a registered job has armed the timeouts of all its open requests.
So an answer that finds the request open comes before the timeout, and either of the two
leaves nothing for the other.

What a run is told is read off the same operations: it is told of a decision exactly when
the manager settles the request, and that it is allowed only where the server has said so
(`settled_of_mem_callsOf`).
-/
import HuginAgent.Jobs.Approvals

namespace HuginAgent

open JobManager Ledger

variable {env : Env} {w : World} {r : Ref}

/-! ### Requests and timeouts go together -/

namespace Approvals

variable {A : Approvals} {op : ApprovalOp} {q : Ref} {i : JsString} {k : TimerId}

theorem pending_update (t : AList fun _ : JsString => TimerId) (q : Ref) (i : JsString) :
    (Function.update A.entries r t q).lookup i = if q = r then t.lookup i else A.pending q i := by
  by_cases hq : q = r
  · rw [hq, Function.update_self, if_pos rfl]
  · rw [Function.update_of_ne hq, if_neg hq]
    rfl

/-- A request that is open was open before or has just come. -/
theorem pending_apply (h : (op.apply A).pending q i = some k) :
    A.pending q i = some k ∨ op = .raise q i ∧ k = A.next := by
  cases op with
  | idle => exact Or.inl h
  | raise r id =>
      simp only [pending, ApprovalOp.apply, pending_update] at h
      split at h
      · rename_i hq
        by_cases hi : i = id
        · subst hq hi
          rw [AList.lookup_insert] at h
          exact Or.inr ⟨rfl, (Option.some.inj h).symm⟩
        · rw [AList.lookup_insert_ne hi] at h
          subst hq
          exact Or.inl h
      · exact Or.inl h
  | settle t =>
      simp only [pending, ApprovalOp.apply, pending_update] at h
      split at h
      · rename_i hq
        by_cases hi : i = t.requestId
        · rw [hi, AList.lookup_erase] at h
          cases h
        · rw [AList.lookup_erase_ne hi] at h
          exact Or.inl (hq ▸ h)
      · exact Or.inl h
  | clear r =>
      simp only [pending, ApprovalOp.apply, pending_update] at h
      split at h
      · cases h
      · exact Or.inl h
  | begin_ r =>
      simp only [pending, ApprovalOp.apply, pending_update] at h
      split at h
      · cases h
      · exact Or.inl h
  | restart => exact Or.inl h

/-- An answer closes the request. -/
theorem pending_settle (t : ArmedTimer) :
    ((ApprovalOp.settle t).apply A).pending t.state t.requestId = none := by
  simp only [pending, ApprovalOp.apply, Function.update_self, AList.lookup_erase]

theorem pending_clear (r : Ref) (i : JsString) :
    ((ApprovalOp.clear r).apply A).pending r i = none := by
  simp only [pending, ApprovalOp.apply, Function.update_self]
  rfl

theorem mem_timeouts {r : Ref} :
    ((A.entries r).entries.map Sigma.snd).contains k = true ↔ ∃ id, A.pending r id = some k := by
  rw [List.contains_iff_mem, List.mem_map]
  constructor
  · intro h
    obtain ⟨⟨id, k'⟩, hmem, rfl⟩ := h
    exact ⟨id, AList.mem_lookup_iff.mpr hmem⟩
  · intro h
    obtain ⟨id, hid⟩ := h
    exact ⟨⟨id, k⟩, AList.mem_lookup_iff.mp hid, rfl⟩

/-- Every timeout is of an open request, and no two requests have the same. -/
structure Sound (A : Approvals) : Prop where
  bound : ∀ r id k, A.pending r id = some k → k < A.next
  unique : ∀ r id r' id' k, A.pending r id = some k → A.pending r' id' = some k →
    r = r' ∧ id = id'
  raised : ∀ t ∈ A.timers, A.pending t.state t.requestId = some t.id

theorem Sound.apply (hA : A.Sound) (hop : op.Fits A) : (op.apply A).Sound where
  bound := by
    intro q i k hk
    have hnext : A.next ≤ (op.apply A).next := by
      cases op with
      | raise r id => exact Nat.le_succ _
      | _ => exact le_refl _
    rcases pending_apply hk with hold | ⟨rfl, rfl⟩
    · exact Nat.lt_of_lt_of_le (hA.bound q i k hold) hnext
    · exact Nat.lt_succ_self _
  unique := by
    intro q i q' i' k hk hk'
    rcases pending_apply hk with hold | ⟨hraise, hnext⟩
    · rcases pending_apply hk' with hold' | ⟨-, hnext'⟩
      · exact hA.unique q i q' i' k hold hold'
      · exact absurd hnext' (Nat.ne_of_lt (hA.bound q i k hold))
    · rcases pending_apply hk' with hold' | ⟨hraise', -⟩
      · exact absurd hnext (Nat.ne_of_lt (hA.bound q' i' k hold'))
      · exact ApprovalOp.raise.inj (hraise.symm.trans hraise')
  raised := by
    intro t ht
    cases op with
    | idle => exact hA.raised t ht
    | raise r id =>
        rcases List.mem_append.mp ht with hold | hnew
        · have hpending := hA.raised t hold
          have hne : ¬ (t.state = r ∧ t.requestId = id) := by
            intro hc
            rw [hc.1, hc.2, show A.pending r id = none from hop] at hpending
            cases hpending
          rw [pending, ApprovalOp.apply, pending_update]
          split
          · rename_i hr
            rw [AList.lookup_insert_ne fun hc => hne ⟨hr, hc⟩, ← hr]
            exact hpending
          · exact hpending
        · rw [List.mem_singleton.mp hnew, pending, ApprovalOp.apply, pending_update, if_pos rfl,
            AList.lookup_insert]
    | settle s =>
        obtain ⟨hold, hid⟩ := List.mem_filter.mp ht
        rw [decide_eq_true_eq] at hid
        have hpending := hA.raised t hold
        rw [pending, ApprovalOp.apply, pending_update]
        split
        · rename_i hr
          have hne : t.requestId ≠ s.requestId := by
            intro hc
            rw [hr, hc, show A.pending s.state s.requestId = some s.id from hop] at hpending
            exact hid (Option.some.inj hpending).symm
          rw [AList.lookup_erase_ne hne, ← hr]
          exact hpending
        · exact hpending
    | clear r =>
        obtain ⟨hold, hid⟩ := List.mem_filter.mp ht
        rw [Bool.not_eq_true'] at hid
        have hpending := hA.raised t hold
        rw [pending, ApprovalOp.apply, pending_update, if_neg]
        · exact hpending
        · intro hr
          rw [mem_timeouts.mpr ⟨t.requestId, hr ▸ hpending⟩] at hid
          cases hid
    | begin_ r =>
        have hpending := hA.raised t ht
        rw [pending, ApprovalOp.apply, pending_update, if_neg]
        · exact hpending
        · intro hr
          rw [hr, (show ∀ id, A.pending r id = none from hop) t.requestId] at hpending
          cases hpending
    | restart => exact absurd ht List.not_mem_nil

/-- The open requests of a job have their timeouts to come. -/
def Armed (A : Approvals) (r : Ref) : Prop :=
  ∀ id k, A.pending r id = some k → ⟨k, r, id⟩ ∈ A.timers

theorem Armed.apply (hA : A.Sound) (hop : op.Fits A) (hq : A.Armed q) (hlive : op ≠ .restart) :
    (op.apply A).Armed q := by
  intro i k hk
  rcases pending_apply hk with hold | ⟨rfl, rfl⟩
  · have hmem := hq i k hold
    cases op with
    | idle => exact hmem
    | raise r id => exact List.mem_append_left _ hmem
    | settle t =>
        refine List.mem_filter.mpr ⟨hmem, decide_eq_true ?_⟩
        intro hc
        have hpending : A.pending t.state t.requestId = some t.id := hop
        rw [← show k = t.id from hc] at hpending
        obtain ⟨rfl, rfl⟩ := hA.unique q i t.state t.requestId k hold hpending
        rw [pending_settle] at hk
        cases hk
    | clear r =>
        refine List.mem_filter.mpr ⟨hmem, ?_⟩
        rw [Bool.not_eq_true', Bool.eq_false_iff]
        intro hc
        obtain ⟨id, hid⟩ := mem_timeouts.mp hc
        obtain ⟨rfl, -⟩ := hA.unique q i r id k hold hid
        rw [pending_clear] at hk
        cases hk
    | begin_ r => exact hmem
    | restart => exact absurd rfl hlive
  · exact List.mem_append_right _ (List.mem_singleton.mpr rfl)

end Approvals

/-! ### In every state of the manager -/

/-- The requests of the jobs are sound, those of a registered job can still time out, and a job
that has not been given out has none. -/
structure World.ApprovalsSound (w : World) : Prop where
  sound : w.approvals.Sound
  armed : ∀ a r, w.registry.get a = some r → w.approvals.Armed r
  blank : ∀ r, w.nextRef ≤ r → ∀ id, w.approvals.pending r id = none

theorem approvalsSound_start : World.start.ApprovalsSound where
  sound :=
    { bound := fun _ _ _ hk => nomatch hk
      unique := fun _ _ _ _ _ hk _ => nomatch hk
      raised := fun _ ht => nomatch ht }
  armed := fun _ _ hr => nomatch hr
  blank := fun _ _ _ => rfl

theorem approvalOp_eq_raise {act : Action} {id : JsString}
    (h : approvalOp env w act = .raise r id) :
    ∃ req, act = .callback r (.approval req) ∧ req.requestId = id ∧ r ∈ w.runs := by
  cases act with
  | callback q cb =>
      cases cb with
      | approval req =>
          rw [approvalOp] at h
          split at h
          · rename_i hact
            injection h with hr hid
            exact ⟨req, by rw [hr], hid, hr ▸ hact.1⟩
          · cases h
      | event ev => cases h
      | done outcome =>
          rw [approvalOp] at h
          split at h <;> cases h
  | _ =>
      simp only [approvalOp] at h
      repeat' split at h
      all_goals cases h

theorem approvalOp_eq_begin {act : Action} (h : approvalOp env w act = .begin_ r) :
    r = w.nextRef := by
  cases act with
  | assign msg reply =>
      rw [approvalOp] at h
      split at h
      · exact (ApprovalOp.begin_.inj h).symm
      · cases h
  | callback q cb =>
      cases cb <;> simp only [approvalOp] at h <;> repeat' split at h
      all_goals cases h
  | _ =>
      simp only [approvalOp] at h
      repeat' split at h
      all_goals cases h

theorem approvalOp_eq_restart {act : Action} (h : approvalOp env w act = .restart) :
    act = .restart := by
  cases act with
  | restart => rfl
  | callback q cb =>
      cases cb <;> simp only [approvalOp] at h <;> repeat' split at h
      all_goals cases h
  | _ =>
      simp only [approvalOp] at h
      repeat' split at h
      all_goals cases h

/-- A request is settled by an answer or by its timeout. -/
theorem approvalOp_eq_settle {act : Action} {t : ArmedTimer}
    (h : approvalOp env w act = .settle t) :
    (∃ msg, act = .approvalResponse msg ∧ msg.requestId = t.requestId ∧
        w.registry.get msg.attemptId = some t.state ∧
        (w.jobs t.state).accepts w.now msg.leaseId = true ∧
        w.approvals.pending t.state t.requestId = some t.id) ∨
      act = .timer t.id ∧ t ∈ w.timers := by
  cases act with
  | approvalResponse msg =>
      rw [approvalOp] at h
      split at h
      · rename_i r hlive
        split at h
        · rename_i hok
          split at h
          · rename_i timer hopen
            obtain rfl := ApprovalOp.settle.inj h
            exact Or.inl ⟨msg, rfl, rfl, hlive, hok, hopen⟩
          · cases h
        · cases h
      · cases h
  | timer id =>
      rw [approvalOp] at h
      split at h
      · rename_i s hfind
        obtain rfl := ApprovalOp.settle.inj h
        have hid : s.id = id := by simpa using List.find?_some hfind
        exact Or.inr ⟨by rw [hid], List.mem_of_find?_eq_some hfind⟩
      · cases h
  | callback q cb =>
      cases cb <;> simp only [approvalOp] at h <;> repeat' split at h
      all_goals cases h
  | _ =>
      simp only [approvalOp] at h
      repeat' split at h
      all_goals cases h

/-- A request that comes is not open. -/
def NewRequest (w : World) : Action → Prop
  | .callback r (.approval req) => w.approvals.pending r req.requestId = none
  | _ => True

theorem approvalOp_fits (h : w.ApprovalsSound) {act : Action} (hact : NewRequest w act) :
    (approvalOp env w act).Fits w.approvals := by
  cases hop : approvalOp env w act with
  | raise r id =>
      obtain ⟨req, rfl, rfl, -⟩ := approvalOp_eq_raise hop
      exact hact
  | settle t =>
      rcases approvalOp_eq_settle hop with ⟨-, -, -, -, -, hopen⟩ | ⟨-, hmem⟩
      · exact hopen
      · exact h.sound.raised t hmem
  | begin_ r =>
      obtain rfl := approvalOp_eq_begin hop
      exact h.blank w.nextRef (le_refl _)
  | idle | clear r | restart => trivial

/-- A job that is not given out has no request after the action either. -/
theorem blank_apply (hs : w.ledger.Sound) (h : w.ApprovalsSound) {act : Action}
    (hr : w.nextRef ≤ r) (id : JsString) : (step env w act).approvals.pending r id = none := by
  rw [step_approvals]
  cases hk : ((approvalOp env w act).apply w.approvals).pending r id with
  | none => rfl
  | some k =>
      rcases Approvals.pending_apply hk with hold | ⟨hraise, -⟩
      · rw [h.blank r hr id] at hold
        cases hold
      · obtain ⟨-, -, -, hrun⟩ := approvalOp_eq_raise hraise
        exact absurd (hs.runs_lt r hrun) (Nat.not_lt.mpr hr)

theorem approvalsSound_step (hs : w.ledger.Sound) (h : w.ApprovalsSound) {act : Action}
    (hact : NewRequest w act) : (step env w act).ApprovalsSound where
  sound := by
    rw [step_approvals]
    exact h.sound.apply (approvalOp_fits h hact)
  armed := by
    intro a r hlive
    rcases (step_refines env hs act).live a with (hsame | hgone) | ⟨lease, started, -, hnew⟩
    · rw [step_approvals]
      refine (h.armed a r (hsame.symm.trans hlive)).apply h.sound (approvalOp_fits h hact) ?_
      intro hrestart
      rw [approvalOp_eq_restart hrestart] at hlive
      cases hlive
    · cases hgone.symm.trans hlive
    · obtain rfl := Option.some.inj (hnew.symm.trans hlive)
      intro id k hk
      cases (blank_apply hs h (le_refl _) id).symm.trans hk
  blank := by
    intro r hr id
    exact blank_apply hs h (Nat.le_trans (step_refines env hs act).next_le hr) id

/-! ### What a run is told -/

def EngineCall.resolves (id : JsString) : EngineCall → Bool
  | resolveApproval requestId _ _ => requestId = id
  | _ => false

/-- The server allows the request: it says so over a good lease of its attempt, while the request
is open and its timeout is still to come. -/
structure Allows (w : World) (r : Ref) (id : JsString) (msg : ApprovalResponse) : Prop where
  decision : msg.decision = .allow
  request : msg.requestId = id
  attempt : msg.attemptId = (w.jobs r).attemptId
  live : w.registry.get msg.attemptId = some r
  lease : (w.jobs r).accepts w.now msg.leaseId = true
  pending : ∃ k, w.approvals.pending r id = some k ∧ ⟨k, r, id⟩ ∈ w.timers

/-- An action makes one call at most. -/
theorem callsOf_le_one (env : Env) (w : World) (act : Action) : (callsOf env w act).length ≤ 1 := by
  have hrun : ∀ r call, (onRun w r call).length ≤ 1 := by
    intro r call
    cases h : (w.jobs r).run <;> simp [onRun, h]
  cases act with
  | callback r cb =>
      cases cb <;> simp only [callsOf, callsOfCallback] <;> repeat' split
      all_goals first | exact hrun _ _ | exact Nat.zero_le _
  | _ =>
      simp only [callsOf]
      repeat' split
      all_goals first | exact hrun _ _ | exact Nat.zero_le _ | exact le_refl _

theorem mem_onRun (hs : w.ledger.Sound) {q : Ref} {call c : EngineCall}
    (h : (q, c) ∈ onRun w r call) : q = r ∧ c = call := by
  obtain ⟨p, hp, hpair⟩ := Option.map_eq_some_iff.mp (Option.mem_toList.mp h)
  injection hpair with hq hc
  exact ⟨hq ▸ hs.run_self r p hp, hc.symm⟩

/-- **A run is told of the decision on a request exactly when the manager settles it**, and told
that it is allowed only when the server has allowed it. -/
theorem settled_of_mem_callsOf (hs : w.ledger.Sound) (h : w.ApprovalsSound) {act : Action} {q : Ref}
    {id : JsString} {decision : ApprovalDecision} {reason : Option JsString}
    (hcall : (q, .resolveApproval id decision reason) ∈ callsOf env w act) :
    (∃ k, approvalOp env w act = .settle ⟨k, q, id⟩ ∧ w.approvals.pending q id = some k) ∧
      (decision = .allow → ∃ msg, act = .approvalResponse msg ∧ Allows w q id msg) := by
  cases act with
  | approvalResponse msg =>
      rw [callsOf] at hcall
      split at hcall
      · rename_i r hlive
        split at hcall
        · rename_i hok
          rw [Bool.and_eq_true] at hok
          obtain ⟨k, hopen⟩ := Option.isSome_iff_exists.mp hok.2
          obtain ⟨rfl, hc⟩ := mem_onRun hs hcall
          injection hc with hid hdecision hreason
          subst hid
          refine ⟨⟨k, ?_, hopen⟩, ?_⟩
          · rw [approvalOp, hlive]
            simp only [hok.1, if_true, hopen]
          · intro hallow
            exact ⟨msg, rfl, hdecision ▸ hallow, rfl, (hs.attempt _ _ hlive).symm, hlive, hok.1, k,
              hopen, h.armed _ _ hlive _ _ hopen⟩
        · cases hcall
      · cases hcall
  | timer tid =>
      rw [callsOf] at hcall
      split at hcall
      · rename_i t hfind
        obtain ⟨rfl, hc⟩ := mem_onRun hs hcall
        injection hc with hid hdecision hreason
        subst hid
        refine ⟨⟨t.id, ?_, h.sound.raised t (List.mem_of_find?_eq_some hfind)⟩, ?_⟩
        · rw [approvalOp, hfind]
        · intro hallow
          rw [hdecision] at hallow
          cases hallow
      · cases hcall
  | callback r cb =>
      cases cb <;> simp only [callsOf, callsOfCallback] at hcall <;> repeat' split at hcall
      all_goals first | cases hcall | cases (mem_onRun hs hcall).2
  | assign msg reply =>
      rw [callsOf] at hcall
      split at hcall
      · cases List.mem_singleton.mp hcall
      · cases hcall
  | _ =>
      simp only [callsOf] at hcall
      repeat' split at hcall
      all_goals first | cases hcall | cases (mem_onRun hs hcall).2

end HuginAgent
