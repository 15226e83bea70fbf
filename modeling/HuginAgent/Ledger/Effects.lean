/-
What each step of the ledger does, table by table.

One lemma for the registration of an attempt, one for its row, one for an event and
one for a job.  Each says all that a step can do there, so an invariant about one of
them is proved from its lemma and does not look at the steps again.
-/
import HuginAgent.Ledger.Sound

namespace HuginAgent.Ledger

variable {sha : JsString → JsString} {L L' : Ledger} {op : Op} {r : Ref}

/-! ### Registrations -/

/-- The attempt goes with this step. -/
def Op.forgets (a : JsString) : Op → Bool
  | .settle b | .revoke b _ _ | .abandon b _ | .ackPending b => b = a
  | _ => false

/-- The attempt is put on record by this step. -/
def Op.records (a : JsString) : Op → Bool
  | .accept b _ _ => b = a
  | _ => false

theorem live_unregister_or (L : Ledger) (a b : JsString) :
    (L.unregister a).live b = L.live b ∨ (L.unregister a).live b = none := by
  by_cases hb : b = a
  · exact Or.inr (by simp [unregister, hb])
  · exact Or.inl (Function.update_of_ne hb _ _)

theorem live_leave_or (L : Ledger) (r : Ref) (b : JsString) :
    (L.leave r).live b = L.live b ∨ (L.leave r).live b = none := by
  unfold leave
  split
  · exact live_unregister_or L _ b
  · exact Or.inl rfl

@[simp] theorem live_unpause (L : Ledger) (u : Option Ref) : (L.unpause u).live = L.live := by
  cases u <;> rfl

@[simp] theorem live_rotate (L : Ledger) (a lease : JsString) (hit : Option Ref) :
    (L.rotate a lease hit).live = L.live := by
  cases hit <;> rfl

/-- What a step does to the registration of an attempt. -/
theorem Step.live (h : Step sha L op L') (b : JsString) :
    (L'.live b = L.live b ∨ L'.live b = none) ∨
      ∃ lease started, op = .accept b lease started ∧ L'.live b = some L.next := by
  cases h with
  | @accept a lease started row live =>
      by_cases hb : b = a
      · exact Or.inr ⟨lease, started, by rw [hb], by simp [Ledger.accept, hb]⟩
      · exact Or.inl (Or.inl (Function.update_of_ne hb _ _))
  | @ack a n u live => exact Or.inl (Or.inl (by rw [live_unpause]; rfl))
  | rotate hits => exact Or.inl (Or.inl (by rw [live_rotate]))
  | resend hits result id newLease good =>
      exact Or.inl (Or.inl (congrFun (live_rotate L _ _ _) b))
  | @settle a res result => exact Or.inl (live_unregister_or L a b)
  | @revoke a r ended live active => exact Or.inl (live_unregister_or (L.fence r ended) a b)
  | @abandonLive a r ended live active => exact Or.inl (live_unregister_or (L.fence r ended) a b)
  | @ackPending a => exact Or.inl (live_unregister_or L a b)
  | @finishFenced r active fenced => exact Or.inl (live_leave_or (L.finish r) r b)
  | @finishSaved r res active unfenced id lease good =>
      exact Or.inl (live_leave_or ((L.finish r).setResult _ res) r b)
  | restart => exact Or.inl (Or.inr rfl)
  | idle | abandonRow live | event run unfenced id seq insert | burn run unfenced taken
  | finishLost active unfenced | cancel live | tick => exact Or.inl (Or.inl rfl)

/-- An attempt that goes leaves the registry. -/
theorem Step.live_of_forgets (h : Step sha L op L') {a : JsString} (hop : op.forgets a = true) :
    L'.live = Function.update L.live a none := by
  cases h with
  | @settle b res result => exact decide_eq_true_iff.mp hop ▸ rfl
  | @revoke b r ended live active => exact decide_eq_true_iff.mp hop ▸ rfl
  | @abandonLive b r ended live active => exact decide_eq_true_iff.mp hop ▸ rfl
  | @ackPending b => exact decide_eq_true_iff.mp hop ▸ rfl
  | @abandonRow b live =>
      obtain rfl := decide_eq_true_iff.mp hop
      exact (Function.update_eq_self_iff.mpr live.symm).symm
  | _ => cases hop

/-! ### Rows -/

theorem lastSeq_forget (L : Ledger) (a b : JsString) :
    ((L.forget b).rows a).map Row.lastSeq =
      if b = a then none else (L.rows a).map Row.lastSeq := by
  by_cases hb : a = b
  · simp [forget, hb]
  · simp [forget, Function.update_of_ne hb, Ne.symm hb]

theorem lastSeq_setLease (L : Ledger) (a lease b : JsString) :
    ((L.setLease a lease).rows b).map Row.lastSeq = (L.rows b).map Row.lastSeq := by
  by_cases hb : b = a
  · simp [setLease, hb, Function.comp_def]
  · simp [setLease, Function.update_of_ne hb]

theorem lastSeq_rotate (L : Ledger) (a lease : JsString) (hit : Option Ref) (b : JsString) :
    ((L.rotate a lease hit).rows b).map Row.lastSeq = (L.rows b).map Row.lastSeq := by
  cases hit <;> exact lastSeq_setLease L a lease b

theorem rows_isSome_setLease (L : Ledger) (a lease b : JsString) :
    ((L.setLease a lease).rows b).isSome = (L.rows b).isSome := by
  have := congrArg Option.isSome (lastSeq_setLease L a lease b)
  rwa [Option.isSome_map, Option.isSome_map] at this

/-- How far the stream of an attempt gets that has got to `n`. -/
def Op.reached (a : JsString) (n : Nat) : Op → Nat
  | .event _ row _ => if row.attemptId = a then max n row.seq else n
  | _ => n

/-- How far the stream of an attempt has got. -/
theorem Step.lastSeq (h : Step sha L op L') (a : JsString) :
    (L'.rows a).map Row.lastSeq = if op.records a then some 0 else if op.forgets a then none
      else (L.rows a).map fun row => op.reached a row.lastSeq := by
  have hforget : ∀ (M : Ledger) b, M.rows = L.rows → ((M.forget b).rows a).map Row.lastSeq =
      if decide (b = a) = true then none else (L.rows a).map Row.lastSeq := by
    intro M b hM
    rw [lastSeq_forget, hM]
    simp
  cases h with
  | @accept b lease started row live =>
      by_cases hb : a = b
      · simp [Ledger.accept, Op.records, hb]
      · simp [Ledger.accept, Op.records, Op.forgets, Op.reached, Function.update_of_ne hb,
          Ne.symm hb]
  | @ack b n u live => cases u <;> rfl
  | rotate hits => exact lastSeq_rotate ..
  | resend hits result id newLease good => exact lastSeq_rotate ..
  | settle result => exact hforget _ _ rfl
  | revoke live active => exact hforget _ _ rfl
  | abandonLive live active => exact hforget _ _ rfl
  | abandonRow live => exact hforget _ _ rfl
  | ackPending => exact hforget _ _ rfl
  | @event r row pause events run unfenced id seq insert =>
      by_cases hb : a = row.attemptId
      · subst hb
        simp only [Ledger.event, Op.records, Op.forgets, Op.reached, Function.update_self, if_true,
          Bool.false_eq_true, if_false, Option.map_map]
        congr 1
        funext d
        show (if d.lastSeq < row.seq then { d with lastSeq := row.seq } else d).lastSeq = _
        split
        · show row.seq = _
          omega
        · omega
      · simp [Ledger.event, Op.records, Op.forgets, Op.reached, Function.update_of_ne hb,
          Ne.symm hb]
  | @finishFenced r active fenced =>
      simp only [Ledger.leave]
      split <;> rfl
  | @finishSaved r res active unfenced id lease good =>
      simp only [Ledger.leave]
      split <;> rfl
  | idle | burn run unfenced taken | finishLost active unfenced | cancel live | tick | restart => rfl

/-- When an attempt is on record. -/
theorem Step.recorded (h : Step sha L op L') (a : JsString) :
    (L'.rows a).isSome = (op.records a || (!op.forgets a && (L.rows a).isSome)) := by
  have := congrArg Option.isSome (h.lastSeq a)
  rw [Option.isSome_map] at this
  rw [this]
  cases op.records a <;> cases op.forgets a <;> simp

/-! ### Events -/

/-- The events that go with this step. -/
def Op.releases (k : JsString × Nat) : Op → Bool
  | .ack a n _ => k.1 = a && k.2 ≤ n
  | op => op.forgets k.1

/-- The event that is stored in this step. -/
def Op.stored : Op → Option EventRow
  | .event _ row _ => some row
  | _ => none

theorem find?_ack (L : Ledger) (a : JsString) (n : Nat) (k : JsString × Nat) :
    (L.ack a n).events.find? k =
      if (decide (k.1 = a) && decide (k.2 ≤ n)) = true then none else L.events.find? k :=
  L.events.find?_delete_key (q := fun k => decide (k.1 = a) && decide (k.2 ≤ n)) (fun _ => rfl) k

theorem find?_forget (L : Ledger) (a : JsString) (k : JsString × Nat) :
    (L.forget a).events.find? k = if decide (a = k.1) = true then none else L.events.find? k :=
  L.events.find?_delete_key (q := fun k => a = k.1) (fun _ => decide_eq_decide.mpr eq_comm) k

/-- What a step does to the event of a key. -/
theorem Step.event? (h : Step sha L op L') (k : JsString × Nat) :
    L'.events.find? k = if op.releases k = true then none
      else (op.stored.filter fun row => row.key = k).or (L.events.find? k) := by
  cases h with
  | @ack a n u live => cases u <;> exact find?_ack L a n k
  | settle result => exact find?_forget ..
  | revoke live active => exact find?_forget ..
  | abandonLive live active => exact find?_forget ..
  | abandonRow live => exact find?_forget ..
  | ackPending => exact find?_forget ..
  | @event r row pause events run unfenced id seq insert =>
      refine (Table.find?_insert? insert k).trans ?_
      by_cases hk : k = row.key
      · simp [Op.releases, Op.forgets, Op.stored, Option.filter_some, hk]
      · simp [Op.releases, Op.forgets, Op.stored, Option.filter_some, hk, Ne.symm hk]
  | @rotate a lease hit hits => cases hit <;> rfl
  | @resend a lease hit old res hits result id newLease good => cases hit <;> rfl
  | @finishFenced r active fenced =>
      simp only [Ledger.leave]
      split <;> rfl
  | @finishSaved r res active unfenced id lease good =>
      simp only [Ledger.leave]
      split <;> rfl
  | idle | accept row live | burn run unfenced taken | finishLost active unfenced | cancel live
  | tick | restart => rfl

theorem filter_releases (L : Ledger) (h : ∀ k, op.releases k = false) :
    L.events.rows = (L.events.rows.filter fun e => !op.releases e.key) ++ [] := by
  simp [h]

/-- The events after a step, in the order they were stored. -/
theorem Step.events_rows (h : Step sha L op L') :
    L'.events.rows =
      (L.events.rows.filter fun e => !op.releases e.key) ++ op.stored.toList := by
  have hforget : ∀ (M : Ledger) a, (M.forget a).events.rows =
      (M.events.rows.filter fun e => !decide (a = e.attemptId)) ++ [] := by
    intro M a
    rw [List.append_nil]
    exact List.filter_congr fun e _ => by simp [eq_comm]
  cases h with
  | @ack a n u live => cases u <;> exact (List.append_nil _).symm
  | settle result => exact hforget _ _
  | revoke live active => exact hforget _ _
  | abandonLive live active => exact hforget _ _
  | abandonRow live => exact hforget _ _
  | ackPending => exact hforget _ _
  | event run unfenced id seq insert =>
      refine (Table.rows_insert? insert).trans ?_
      simp [Op.releases, Op.forgets, Op.stored]
  | @rotate a lease hit hits => cases hit <;> exact filter_releases L fun _ => rfl
  | @resend a lease hit old res hits result id newLease good =>
      cases hit <;> exact filter_releases L fun _ => rfl
  | finishFenced active fenced =>
      simp only [Ledger.leave]
      split <;> exact filter_releases L fun _ => rfl
  | finishSaved active unfenced id lease good =>
      simp only [Ledger.leave]
      split <;> exact filter_releases L fun _ => rfl
  | idle | accept row live | burn run unfenced taken | finishLost active unfenced | cancel live
  | tick | restart => exact filter_releases L fun _ => rfl

/-- An event is stored under a new number. -/
theorem Step.stored_fresh (h : Step sha L op L') {row : EventRow} (hop : op.stored = some row) :
    L.events.find? row.key = none := by
  cases h with
  | event run unfenced id seq insert =>
      obtain rfl := Option.some.inj hop
      exact Table.find?_of_insert? insert
  | _ => cases hop

/-- An event stays as it is until a step releases it. -/
theorem Step.event_stays (h : Step sha L op L') {k : JsString × Nat} {row : EventRow}
    (hrow : L.events.find? k = some row) :
    L'.events.find? k = if op.releases k = true then none else some row := by
  rw [h.event? k, hrow]
  cases hop : op.stored with
  | none => simp
  | some row' =>
      have hfresh := h.stored_fresh hop
      have hne : row'.key ≠ k := by
        intro hc
        rw [hc, hrow] at hfresh
        exact absurd hfresh (by simp)
      simp [Option.filter_some, hne]

/-! ### Results -/

/-- The result that is stored in this step. -/
def Op.saved : Op → Option StoredResult
  | .resend _ _ _ res | .finishSaved _ res => some res
  | _ => none

theorem results_leave (L : Ledger) (r : Ref) : (L.leave r).results = L.results := by
  unfold Ledger.leave
  split <;> rfl

theorem results_clear_or (L : Ledger) (a b : JsString) :
    (L.clear a).results b = L.results b ∨ (L.clear a).results b = none := by
  by_cases hb : b = a
  · exact Or.inr (by simp [clear, hb])
  · exact Or.inl (Function.update_of_ne hb _ _)

theorem results_setResult_or (L : Ledger) (a : JsString) (res : StoredResult) (b : JsString) :
    (L.setResult a res).results b = L.results b ∨
      b = a ∧ (L.setResult a res).results b = some res := by
  by_cases hb : b = a
  · exact Or.inr ⟨hb, by simp [setResult, hb]⟩
  · exact Or.inl (Function.update_of_ne hb _ _)

/-- What a step does to the result of an attempt. -/
theorem Step.results (h : Step sha L op L') (b : JsString) :
    (L'.results b = L.results b ∨ L'.results b = none) ∨
      ∃ res, op.saved = some res ∧ res.attemptId = b ∧ L'.results b = some res := by
  cases h with
  | @ack a n u live => cases u <;> exact Or.inl (Or.inl rfl)
  | @rotate a lease hit hits => cases hit <;> exact Or.inl (Or.inl rfl)
  | @resend a lease hit old res hits result id newLease good =>
      rcases results_setResult_or (L.rotate a lease hit) a res b with heq | ⟨hb, hres⟩
      · refine Or.inl (Or.inl (heq.trans ?_))
        cases hit <;> rfl
      · exact Or.inr ⟨res, rfl, id.trans hb.symm, hres⟩
  | @settle a res result => exact Or.inl (results_clear_or (L.unregister a) a b)
  | @abandonLive a r ended live active =>
      exact Or.inl (results_clear_or ((L.fence r ended).unregister a) a b)
  | @abandonRow a live => exact Or.inl (results_clear_or L a b)
  | @ackPending a => exact Or.inl (results_clear_or (L.unregister a) a b)
  | @finishFenced r active fenced => exact Or.inl (Or.inl (by rw [results_leave]; rfl))
  | @finishSaved r res active unfenced id lease good =>
      rcases results_setResult_or (L.finish r) (L.jobs r).attempt res b with heq | ⟨hb, hres⟩
      · exact Or.inl (Or.inl (by rw [results_leave, heq]; rfl))
      · exact Or.inr ⟨res, rfl, id.trans hb.symm, by rw [results_leave, hres]⟩
  | idle | accept row live | revoke live active | event run unfenced id seq insert
  | burn run unfenced taken | finishLost active unfenced | cancel live | tick | restart =>
      exact Or.inl (Or.inl rfl)

/-- Every stored result can be acknowledged under its own lease. -/
def Genuine (sha : JsString → JsString) (L : Ledger) : Prop :=
  ∀ a res, L.results a = some res → Acknowledgeable sha res

theorem Genuine.step (hg : Genuine sha L) (h : Step sha L op L') : Genuine sha L' := by
  intro a res hres
  rcases h.results a with (heq | hnone) | ⟨res', hop, -, hsaved⟩
  · exact hg a res (heq.symm.trans hres)
  · exact absurd (hnone.symm.trans hres) (by simp)
  · obtain rfl : res' = res := Option.some.inj (hsaved.symm.trans hres)
    cases h with
    | resend hits result id newLease good =>
        cases hop
        exact good (hg _ _ result)
    | finishSaved active unfenced id lease good =>
        cases hop
        exact good
    | _ => cases hop

/-! ### Jobs -/

/-- The job a step changes, and how. -/
def Op.change (L : Ledger) : Op → Option (Ref × (Job → Job))
  | .accept a lease started => some (L.next, fun _ =>
      { attempt := a
        lease
        prev := none
        seq := 0
        run := if started then some L.next else none
        paused := false
        fenced := false })
  | .ack _ _ u => u.map fun r => (r, fun j => { j with paused := false })
  | .rotate _ lease hit | .resend _ lease hit _ => hit.map fun r =>
      (r, fun j => { j with prev := some (j.lease, L.now + leaseRotationOverlapMs), lease })
  | .revoke _ r ended | .abandon _ (some (r, ended)) => some (r, fun j =>
      { j with fenced := true, run := if ended then none else j.run })
  | .event r row pause => some (r, fun j => { j with seq := row.seq, paused := pause || j.paused })
  | .burn r => some (r, fun j => { j with seq := j.seq + 1 })
  | .finishFenced r | .finishLost r | .finishSaved r _ => some (r, fun j => { j with run := none })
  | _ => none

/-- The jobs after the change. -/
def changed (L : Ledger) : Option (Ref × (Job → Job)) → Ref → Job
  | some (r, f) => Function.update L.jobs r (f (L.jobs r))
  | none => L.jobs

theorem leave_jobs (L : Ledger) (q : Ref) :
    (L.leave q).jobs = L.jobs ∧ (L.leave q).next = L.next := by
  unfold Ledger.leave
  split <;> exact ⟨rfl, rfl⟩

/-- **A step changes the one job that `Op.change` names.** -/
theorem Step.jobs (h : Step sha L op L') : L'.jobs = L.changed (op.change L) := by
  cases h with
  | @ack a n u live => cases u <;> rfl
  | @rotate a lease hit hits => cases hit <;> rfl
  | @resend a lease hit old res hits result id newLease good => cases hit <;> rfl
  | @finishFenced q active fenced => exact (leave_jobs (L.finish q) q).1
  | @finishSaved q res active unfenced id lease good => exact (leave_jobs _ q).1
  | _ => rfl

theorem Step.next_le (h : Step sha L op L') : L.next ≤ L'.next := by
  cases h with
  | accept row live => exact Nat.le_succ _
  | @ack a n u live => cases u <;> exact le_refl _
  | @rotate a lease hit hits => cases hit <;> exact le_refl _
  | @resend a lease hit old res hits result id newLease good => cases hit <;> exact le_refl _
  | @finishFenced q active fenced => exact ge_of_eq (leave_jobs (L.finish q) q).2
  | @finishSaved q res active unfenced id lease good => exact ge_of_eq (leave_jobs _ q).2
  | _ => exact le_refl _

/-- What the change of a step keeps of its job, the step keeps of every job. -/
theorem Step.job_of (h : Step sha L op L') {R : Job → Job → Prop} (hrefl : ∀ j, R j j)
    (hchange : ∀ f, op.change L = some (r, f) → R (L.jobs r) (f (L.jobs r))) :
    R (L.jobs r) (L'.jobs r) := by
  rw [h.jobs]
  cases hc : op.change L with
  | none => exact hrefl _
  | some p =>
      obtain ⟨q, f⟩ := p
      by_cases hq : r = q
      · subst hq
        rw [changed, Function.update_self]
        exact hchange f hc
      · rw [changed, Function.update_of_ne hq]
        exact hrefl _

/-- A run does not come back. -/
theorem Step.runs (h : Step sha L op L') (hr : r < L.next) (hrun : r ∈ L'.runs) : r ∈ L.runs := by
  cases h with
  | @accept a lease started row live =>
      cases started with
      | false => exact hrun
      | true =>
          rcases hrun with rfl | hrun
          · exact absurd hr (lt_irrefl _)
          · exact hrun
  | @ack a n u live => cases u <;> exact hrun
  | @rotate a lease hit hits => cases hit <;> exact hrun
  | @resend a lease hit old res hits result id newLease good => cases hit <;> exact hrun
  | @finishFenced q active fenced =>
      simp only [Ledger.leave] at hrun
      split at hrun <;> exact hrun
  | @finishSaved q res active unfenced id lease good =>
      simp only [Ledger.leave] at hrun
      split at hrun <;> exact hrun
  | restart => exact hrun.elim
  | _ => exact hrun

/-- Who has said that it is done has said so. -/
theorem Step.ended (h : Step sha L op L') (hended : r ∈ L.ended) : r ∈ L'.ended := by
  have hfence : ∀ q b, r ∈ (L.fence q b).ended := by
    intro q b
    cases b with
    | false => exact hended
    | true => exact Set.mem_insert_of_mem q hended
  have hfinish : ∀ q, r ∈ (L.finish q).ended := fun q => Set.mem_insert_of_mem q hended
  cases h with
  | @ack a n u live => cases u <;> exact hended
  | @rotate a lease hit hits => cases hit <;> exact hended
  | @resend a lease hit old res hits result id newLease good => cases hit <;> exact hended
  | @revoke a q b live active => exact hfence q b
  | @abandonLive a q b live active => exact hfence q b
  | @finishFenced q active fenced =>
      simp only [Ledger.leave]
      split <;> exact hfinish q
  | @finishLost q active unfenced => exact hfinish q
  | @finishSaved q res active unfenced id lease good =>
      simp only [Ledger.leave]
      split <;> exact hfinish q
  | _ => exact hended

/-- A job keeps its attempt, and once fenced it stays so. -/
structure Job.Later (j j' : Job) : Prop where
  attempt : j'.attempt = j.attempt
  fenced : j.fenced = true → j'.fenced = true

/-- **No step gives a job another attempt or takes its fence away.** -/
theorem Step.job (h : Step sha L op L') (hr : r < L.next) :
    r < L'.next ∧ (L.jobs r).Later (L'.jobs r) := by
  refine ⟨hr.trans_le h.next_le, h.job_of (fun _ => ⟨rfl, fun h => h⟩) ?_⟩
  intro f hf
  cases op with
  | accept a lease started =>
      cases hf
      exact absurd hr (lt_irrefl _)
  | ack a n u =>
      cases u with
      | none => cases hf
      | some q => cases hf; exact ⟨rfl, fun h => h⟩
  | rotate a lease hit =>
      cases hit with
      | none => cases hf
      | some q => cases hf; exact ⟨rfl, fun h => h⟩
  | resend a lease hit res =>
      cases hit with
      | none => cases hf
      | some q => cases hf; exact ⟨rfl, fun h => h⟩
  | abandon a hit =>
      cases hit with
      | none => cases hf
      | some p => cases hf; exact ⟨rfl, fun _ => rfl⟩
  | revoke a q ended => cases hf; exact ⟨rfl, fun _ => rfl⟩
  | event q row pause => cases hf; exact ⟨rfl, fun h => h⟩
  | burn q => cases hf; exact ⟨rfl, fun h => h⟩
  | finishFenced q => cases hf; exact ⟨rfl, fun h => h⟩
  | finishLost q => cases hf; exact ⟨rfl, fun h => h⟩
  | finishSaved q res => cases hf; exact ⟨rfl, fun h => h⟩
  | idle | settle a | ackPending a | cancel q | tick ms | restart => cases hf

/-- The job whose run a step stops or lets go on. -/
def Op.flow : Op → Option (Ref × Bool)
  | .ack _ _ u => u.map fun r => (r, false)
  | .event r _ true => some (r, true)
  | _ => none

theorem Step.flow_lt (hs : Sound L) (h : Step sha L op L') {stop : Bool}
    (hop : op.flow = some (r, stop)) : r < L.next := by
  cases h with
  | @ack a n u live =>
      cases u with
      | none => cases hop
      | some q =>
          cases hop
          exact hs.live_lt a r (live r rfl)
  | @event q row pause events run unfenced id seq insert =>
      cases pause with
      | false => cases hop
      | true =>
          cases hop
          exact hs.runs_lt r run
  | _ => cases hop

theorem Step.inserted {row : EventRow} {pause : Bool} (h : Step sha L (.event r row pause) L') :
    L.events.insert? row = some L'.events := by
  cases h with
  | event run unfenced id seq insert => exact insert

theorem Step.emitter {row : EventRow} {pause : Bool} (h : Step sha L (.event r row pause) L') :
    r ∈ L.runs ∧ (L.jobs r).fenced = false ∧ row.attemptId = (L.jobs r).attempt := by
  cases h with
  | event run unfenced id seq insert => exact ⟨run, unfenced, id⟩

/-- When a job is paused. -/
theorem Step.paused (h : Step sha L op L') (hr : r < L.next) :
    (L'.jobs r).paused = match op.flow with
      | some (q, stop) => if q = r then stop else (L.jobs r).paused
      | none => (L.jobs r).paused := by
  rw [h.jobs]
  cases op with
  | accept a lease started =>
      exact congrArg Job.paused (Function.update_of_ne (Nat.ne_of_lt hr) _ _)
  | ack a n u =>
      cases u with
      | none => rfl
      | some q =>
          by_cases hq : q = r
          · simp [changed, Op.change, Op.flow, hq]
          · simp [changed, Op.change, Op.flow, hq, Function.update_of_ne (Ne.symm hq)]
  | event q row pause =>
      cases pause with
      | false => exact apply_update Job.paused (by rfl) r
      | true =>
          by_cases hq : q = r
          · simp [changed, Op.change, Op.flow, hq]
          · simp [changed, Op.change, Op.flow, hq, Function.update_of_ne (Ne.symm hq)]
  | rotate a lease hit =>
      cases hit with
      | none => rfl
      | some q => exact apply_update Job.paused (by rfl) r
  | resend a lease hit res =>
      cases hit with
      | none => rfl
      | some q => exact apply_update Job.paused (by rfl) r
  | abandon a hit =>
      cases hit with
      | none => rfl
      | some p => exact apply_update Job.paused (by rfl) r
  | revoke a q ended => exact apply_update Job.paused (by rfl) r
  | burn q => exact apply_update Job.paused (by rfl) r
  | finishFenced q => exact apply_update Job.paused (by rfl) r
  | finishLost q => exact apply_update Job.paused (by rfl) r
  | finishSaved q res => exact apply_update Job.paused (by rfl) r
  | idle | settle a | ackPending a | cancel q | tick ms | restart => rfl

/-- No step gives a job a run it did not have. -/
theorem Step.run (h : Step sha L op L') (hr : r < L.next) :
    (L'.jobs r).run = (L.jobs r).run ∨ (L'.jobs r).run = none := by
  refine h.job_of (R := fun j j' => j'.run = j.run ∨ j'.run = none) (fun _ => Or.inl rfl) ?_
  intro f hf
  cases op with
  | accept a lease started =>
      cases hf
      exact absurd hr (lt_irrefl _)
  | ack a n u =>
      cases u with
      | none => cases hf
      | some q => cases hf; exact Or.inl rfl
  | rotate a lease hit =>
      cases hit with
      | none => cases hf
      | some q => cases hf; exact Or.inl rfl
  | resend a lease hit res =>
      cases hit with
      | none => cases hf
      | some q => cases hf; exact Or.inl rfl
  | abandon a hit =>
      cases hit with
      | none => cases hf
      | some p => cases hf; cases p.2 <;> simp
  | revoke a q ended => cases hf; cases ended <;> simp
  | event q row pause => cases hf; exact Or.inl rfl
  | burn q => cases hf; exact Or.inl rfl
  | finishFenced q => cases hf; exact Or.inr rfl
  | finishLost q => cases hf; exact Or.inr rfl
  | finishSaved q res => cases hf; exact Or.inr rfl
  | idle | settle a | ackPending a | cancel q | tick ms | restart => cases hf

/-- How far a job gets that has got to `n`. -/
def Op.counted (r : Ref) (n : Nat) : Op → Nat
  | .event q row _ => if q = r then row.seq else n
  | .burn q => if q = r then n + 1 else n
  | _ => n

/-- How far a job has got. -/
theorem Step.seq (h : Step sha L op L') (hr : r < L.next) :
    (L'.jobs r).seq = op.counted r (L.jobs r).seq := by
  rw [h.jobs]
  cases op with
  | accept a lease started =>
      exact congrArg Job.seq (Function.update_of_ne (Nat.ne_of_lt hr) _ _)
  | event q row pause =>
      by_cases hq : q = r
      · simp [changed, Op.change, Op.counted, hq]
      · simp [changed, Op.change, Op.counted, hq, Function.update_of_ne (Ne.symm hq)]
  | burn q =>
      by_cases hq : q = r
      · simp [changed, Op.change, Op.counted, hq]
      · simp [changed, Op.change, Op.counted, hq, Function.update_of_ne (Ne.symm hq)]
  | ack a n u =>
      cases u with
      | none => rfl
      | some q => exact apply_update Job.seq (by rfl) r
  | rotate a lease hit =>
      cases hit with
      | none => rfl
      | some q => exact apply_update Job.seq (by rfl) r
  | resend a lease hit res =>
      cases hit with
      | none => rfl
      | some q => exact apply_update Job.seq (by rfl) r
  | abandon a hit =>
      cases hit with
      | none => rfl
      | some p => exact apply_update Job.seq (by rfl) r
  | revoke a q ended => exact apply_update Job.seq (by rfl) r
  | finishFenced q => exact apply_update Job.seq (by rfl) r
  | finishLost q => exact apply_update Job.seq (by rfl) r
  | finishSaved q res => exact apply_update Job.seq (by rfl) r
  | idle | settle a | ackPending a | cancel q | tick ms | restart => rfl

theorem Step.eq_rotate {a lease : JsString} {hit : Option Ref}
    (h : Step sha L (.rotate a lease hit) L') : L' = L.rotate a lease hit ∧ L.Hits a lease hit := by
  cases h with
  | rotate hits => exact ⟨rfl, hits⟩

/-- The job a step rotates, and to which lease. -/
def Op.rotated : Op → Option (Ref × JsString)
  | .rotate _ lease hit | .resend _ lease hit _ => hit.map fun r => (r, lease)
  | _ => none

theorem change_of_rotated {lease : JsString} (h : op.rotated = some (r, lease)) :
    op.change L = some (r, fun j =>
      { j with prev := some (j.lease, L.now + leaseRotationOverlapMs), lease }) := by
  cases op with
  | rotate a l hit =>
      cases hit with
      | none => cases h
      | some q => cases h; rfl
  | resend a l hit res =>
      cases hit with
      | none => cases h
      | some q => cases h; rfl
  | _ => cases h

/-- A step leaves the leases of a job alone or rotates it. -/
theorem Step.lease (h : Step sha L op L') (hr : r < L.next) :
    (∃ lease, op.rotated = some (r, lease) ∧ (L'.jobs r).lease = lease ∧
        (L'.jobs r).prev = some ((L.jobs r).lease, L.now + leaseRotationOverlapMs)) ∨
      (∀ lease, op.rotated ≠ some (r, lease)) ∧ (L'.jobs r).lease = (L.jobs r).lease ∧
        (L'.jobs r).prev = (L.jobs r).prev := by
  by_cases hrot : ∃ lease, op.rotated = some (r, lease)
  · obtain ⟨lease, hrot⟩ := hrot
    refine Or.inl ⟨lease, hrot, ?_⟩
    rw [h.jobs, change_of_rotated hrot, changed, Function.update_self]
    exact ⟨rfl, rfl⟩
  · refine Or.inr ⟨fun lease hl => hrot ⟨lease, hl⟩, ?_⟩
    refine h.job_of (R := fun j j' => j'.lease = j.lease ∧ j'.prev = j.prev) (fun _ => ⟨rfl, rfl⟩) ?_
    intro f hf
    cases op with
    | accept a lease started =>
        cases hf
        exact absurd hr (lt_irrefl _)
    | ack a n u =>
        cases u with
        | none => cases hf
        | some q => cases hf; exact ⟨rfl, rfl⟩
    | rotate a lease hit =>
        cases hit with
        | none => cases hf
        | some q => cases hf; exact absurd ⟨lease, rfl⟩ hrot
    | resend a lease hit res =>
        cases hit with
        | none => cases hf
        | some q => cases hf; exact absurd ⟨lease, rfl⟩ hrot
    | abandon a hit =>
        cases hit with
        | none => cases hf
        | some p => cases hf; exact ⟨rfl, rfl⟩
    | revoke a q ended => cases hf; exact ⟨rfl, rfl⟩
    | event q row pause => cases hf; exact ⟨rfl, rfl⟩
    | burn q => cases hf; exact ⟨rfl, rfl⟩
    | finishFenced q => cases hf; exact ⟨rfl, rfl⟩
    | finishLost q => cases hf; exact ⟨rfl, rfl⟩
    | finishSaved q res => cases hf; exact ⟨rfl, rfl⟩
    | idle | settle a | ackPending a | cancel q | tick ms | restart => cases hf

/-- Only an acceptance gives out a job. -/
theorem Step.fresh (h : Step sha L op L') (hr : L.next ≤ r) (hr' : r < L'.next) :
    r = L.next ∧ ∃ a lease started, op = .accept a lease started := by
  have hnot : ∀ {n}, n = L.next → ¬ r < n := fun hn => hn ▸ Nat.not_lt.mpr hr
  cases h with
  | @accept a lease started row live =>
      exact ⟨Nat.le_antisymm (Nat.lt_succ_iff.mp hr') hr, a, lease, started, rfl⟩
  | @ack a n u live => cases u <;> exact absurd hr' (hnot rfl)
  | @rotate a lease hit hits => cases hit <;> exact absurd hr' (hnot rfl)
  | @resend a lease hit old res hits result id newLease good =>
      cases hit <;> exact absurd hr' (hnot rfl)
  | @finishFenced q active fenced => exact absurd hr' (hnot (leave_jobs (L.finish q) q).2)
  | @finishSaved q res active unfenced id lease good => exact absurd hr' (hnot (leave_jobs _ q).2)
  | _ => exact absurd hr' (hnot rfl)

/-- A job that is given out in a step has had no other lease and is not paused. -/
theorem Step.fresh_job (h : Step sha L op L') (hr : L.next ≤ r) (hr' : r < L'.next) :
    (L'.jobs r).prev = none ∧ (L'.jobs r).paused = false := by
  obtain ⟨rfl, a, lease, started, rfl⟩ := h.fresh hr hr'
  rw [h.jobs]
  simp [Op.change, changed]

/-- Time does not run backwards. -/
theorem Step.now_le (h : Step sha L op L') : L.now ≤ L'.now := by
  cases h with
  | @ack a n u live => cases u <;> exact le_refl _
  | @rotate a lease hit hits => cases hit <;> exact le_refl _
  | @resend a lease hit old res hits result id newLease good => cases hit <;> exact le_refl _
  | finishFenced active fenced =>
      unfold Ledger.leave
      split <;> exact le_refl _
  | finishSaved active unfenced id lease good =>
      unfold Ledger.leave
      split <;> exact le_refl _
  | tick => exact Int.le_add_of_nonneg_right (Int.natCast_nonneg _)
  | _ => exact le_refl _

end HuginAgent.Ledger
