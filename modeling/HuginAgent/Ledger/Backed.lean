/-
Attempts that somebody answers for.

An attempt on record is answered for by the run that is live under it, or by its
result.  A step that takes an attempt's run away without a result, or puts an attempt on
record without a run, leaves it to nobody, and no later step gives it a run.  There are
three such steps: an acceptance whose run does not start, a run whose result is lost,
and a restart.
-/
import HuginAgent.Ledger.Owned

namespace HuginAgent

namespace Ledger

variable {sha : JsString → JsString} {L L' : Ledger} {a b : JsString} {r : Ref} {op : Op}

/-- Its run is live, or its result is stored. -/
def Backed (L : Ledger) (a : JsString) : Prop :=
  (∃ r, L.live a = some r ∧ L.Active r) ∨ (L.results a).isSome = true

/-- Every attempt on record is. -/
def AllBacked (L : Ledger) : Prop := ∀ a, (L.rows a).isSome = true → L.Backed a

/-- The step takes no attempt its last backing. -/
def Op.Backs (L : Ledger) : Op → Prop
  | .accept a _ started => started = true ∨ (L.results a).isSome = true
  | .finishLost r => L.live (L.jobs r).attempt = some r → (L.results (L.jobs r).attempt).isSome = true
  | .restart => ∀ a, (L.rows a).isSome = true → (L.results a).isSome = true
  | _ => True

theorem Backed.kept (h : L.Backed b) (hlive : L'.live b = L.live b)
    (hresults : L'.results b = L.results b)
    (hactive : ∀ q, L.live b = some q → L.Active q → L'.Active q) : L'.Backed b := by
  rcases h with ⟨q, hq, hact⟩ | hres
  · exact Or.inl ⟨q, hlive.trans hq, hactive q hq hact⟩
  · exact Or.inr (by rw [hresults]; exact hres)

theorem AllBacked.of_same (hb : AllBacked L) (h : Same L L') (hresults : L'.results = L.results) :
    AllBacked L' := by
  intro b hrow
  rw [h.rows_isSome] at hrow
  exact (hb b hrow).kept (congrFun h.live b) (congrFun hresults b) fun q _ => h.active.mpr

/-- Only `a` goes, with the run that is live under it. -/
theorem AllBacked.dropped (hb : AllBacked L) (hs : Sound L)
    (hrows : L'.rows = Function.update L.rows a none) (hlive : ∀ b, b ≠ a → L'.live b = L.live b)
    (hresults : ∀ b, b ≠ a → L'.results b = L.results b)
    (hactive : ∀ q, (L.jobs q).attempt ≠ a → L.Active q → L'.Active q) : AllBacked L' := by
  intro b hrow
  by_cases hba : b = a
  · rw [hrows, hba, Function.update_self] at hrow
    cases hrow
  · rw [hrows, Function.update_of_ne hba] at hrow
    refine (hb b hrow).kept (hlive b hba) (hresults b hba) ?_
    intro q hq hact
    exact hactive q (by rw [hs.attempt b q hq]; exact hba) hact

theorem active_fence {ended : Bool} {q : Ref} (hq : q ≠ r) (h : L.Active q) :
    (L.fence r ended).Active q := by
  refine ⟨h.1, ?_⟩
  intro hc
  cases ended with
  | false => exact h.2 hc
  | true => exact h.2 (hc.resolve_left hq)

theorem active_of_finish {q : Ref} (hq : q ≠ r) (h : L.Active q) : (L.finish r).Active q :=
  ⟨h.1, fun hc => h.2 (hc.resolve_left hq)⟩

/-- What is live stays live when a run ends that is not. -/
theorem AllBacked.finish (hb : AllBacked L)
    (hbacked : ∀ b, L.live b = some r → (L.results b).isSome = true) : AllBacked (L.finish r) := by
  intro b hrow
  rcases hb b hrow with ⟨q, hq, hact⟩ | hres
  · by_cases hqr : q = r
    · exact Or.inr (hbacked b (hqr ▸ hq))
    · exact Or.inl ⟨q, hq, active_of_finish hqr hact⟩
  · exact Or.inr hres

/-- The registration of a job that is not live under its attempt is nobody's. -/
theorem AllBacked.leave (hb : AllBacked L)
    (hbacked : L.live (L.jobs r).attempt = some r → (L.results (L.jobs r).attempt).isSome = true) :
    AllBacked (L.leave r) := by
  unfold Ledger.leave
  split
  · rename_i hcur
    intro b hrow
    by_cases hba : b = (L.jobs r).attempt
    · exact Or.inr (by rw [hba]; exact hbacked hcur)
    · exact (hb b hrow).kept (Function.update_of_ne hba _ _) rfl fun _ _ h => h
  · exact hb

theorem AllBacked.rotate (hb : AllBacked L) (a lease : JsString) (hit : Option Ref) :
    AllBacked (L.rotate a lease hit) := by
  intro b hrow
  cases hit with
  | none =>
      rw [show (L.rotate a lease none).rows = (L.setLease a lease).rows from rfl,
        rows_isSome_setLease] at hrow
      exact (hb b hrow).kept rfl rfl fun _ _ h => h
  | some r =>
      rw [show (L.rotate a lease (some r)).rows = (L.setLease a lease).rows from rfl,
        rows_isSome_setLease] at hrow
      exact (hb b hrow).kept rfl rfl fun _ _ h => h

theorem AllBacked.setResult (hb : AllBacked L) (a : JsString) (res : StoredResult) :
    AllBacked (L.setResult a res) := by
  intro b hrow
  by_cases hba : b = a
  · exact Or.inr (by simp [Ledger.setResult, hba])
  · exact (hb b hrow).kept rfl (Function.update_of_ne hba _ _) fun _ _ h => h

theorem backed_accept (hs : Sound L) (hb : AllBacked L) (started : Bool) (lease : JsString) :
    AllBacked (L.accept a lease started) ↔ started = true ∨ (L.results a).isSome = true := by
  constructor
  · intro h
    rcases h a (by simp [Ledger.accept]) with ⟨q, hq, hact⟩ | hres
    · cases started with
      | true => exact Or.inl rfl
      | false =>
          -- the new job is not among the runs
          obtain rfl : L.next = q := by simpa [Ledger.accept] using hq
          exact absurd (hs.runs_lt _ hact.1) (lt_irrefl _)
    · exact Or.inr hres
  · intro h b hrow
    by_cases hba : b = a
    · subst hba
      rcases h with rfl | hres
      · refine Or.inl ⟨L.next, Function.update_self _ _ _, Set.mem_insert _ _, ?_⟩
        intro hended
        exact absurd (hs.ended_lt _ hended) (lt_irrefl _)
      · exact Or.inr hres
    · rw [show ((L.accept a lease started).rows b) = L.rows b from
        Function.update_of_ne hba _ _] at hrow
      refine (hb b hrow).kept (Function.update_of_ne hba _ _) rfl ?_
      intro q _ hact
      cases started with
      | false => exact hact
      | true => exact ⟨Set.mem_insert_of_mem _ hact.1, hact.2⟩

theorem backed_finishLost (hs : Sound L) (hb : AllBacked L) :
    AllBacked (L.finish r) ↔
      (L.live (L.jobs r).attempt = some r → (L.results (L.jobs r).attempt).isSome = true) := by
  constructor
  · intro h hlive
    obtain ⟨row, hrow, -⟩ := hs.row _ r hlive
    rcases h (L.jobs r).attempt (show (L.rows _).isSome = true by rw [hrow]; rfl)
      with ⟨q, hq, hact⟩ | hres
    · obtain rfl : q = r := Option.some.inj (hq.symm.trans hlive)
      exact absurd rfl (active_finish hact).2
    · exact hres
  · intro h
    refine hb.finish ?_
    intro b hlive
    have hid := hs.attempt b r hlive
    rw [← hid] at hlive ⊢
    exact h hlive

/-- **After a step every attempt is backed just where the step took no last backing away.** -/
theorem backed_step (hs : Sound L) (h : Step sha L op L') (hb : AllBacked L) :
    AllBacked L' ↔ op.Backs L := by
  cases h with
  | idle => exact iff_of_true hb trivial
  | @accept a lease started row live => exact backed_accept hs hb started lease
  | @ack a n u live =>
      refine iff_of_true (hb.of_same (same_ack L a n u) ?_) trivial
      cases u <;> rfl
  | @settle a res result =>
      refine iff_of_true (hb.dropped hs (a := a) rfl ?_ ?_ fun _ _ h => h) trivial
      · intro b hba
        exact Function.update_of_ne hba _ _
      · intro b hba
        exact Function.update_of_ne hba _ _
  | @rotate a lease hit hits => exact iff_of_true (hb.rotate a lease hit) trivial
  | @resend a lease hit old res hits result id newLease good =>
      exact iff_of_true ((hb.rotate a lease hit).setResult a res) trivial
  | @revoke a r ended live active =>
      refine iff_of_true (hb.dropped hs (a := a) rfl ?_ (fun _ _ => rfl) ?_) trivial
      · intro b hba
        exact Function.update_of_ne hba _ _
      · intro q hq hact
        refine active_fence ?_ hact
        rintro rfl
        exact hq (hs.attempt a q live)
  | @abandonLive a r ended live active =>
      refine iff_of_true (hb.dropped hs (a := a) rfl ?_ ?_ ?_) trivial
      · intro b hba
        exact Function.update_of_ne hba _ _
      · intro b hba
        exact Function.update_of_ne hba _ _
      · intro q hq hact
        refine active_fence ?_ hact
        rintro rfl
        exact hq (hs.attempt a q live)
  | @abandonRow a live =>
      refine iff_of_true (hb.dropped hs (a := a) rfl (fun _ _ => rfl) ?_ fun _ _ h => h) trivial
      intro b hba
      exact Function.update_of_ne hba _ _
  | @ackPending a =>
      refine iff_of_true (hb.dropped hs (a := a) rfl ?_ ?_ fun _ _ h => h) trivial
      · intro b hba
        exact Function.update_of_ne hba _ _
      · intro b hba
        exact Function.update_of_ne hba _ _
  | @event r row pause events run unfenced id seq insert =>
      exact iff_of_true (hb.of_same (same_event L r row events pause) rfl) trivial
  | burn run unfenced taken => exact iff_of_true (hb.of_same (same_modify rfl rfl rfl rfl) rfl) trivial
  | @finishFenced r active fenced =>
      -- a fenced job is not live
      have hnot : ∀ b, L.live b ≠ some r := by
        intro b hlive
        rw [hs.unfenced b r hlive] at fenced
        cases fenced
      refine iff_of_true ((hb.finish fun b hlive => absurd hlive (hnot b)).leave ?_) trivial
      intro hlive
      exact absurd hlive (hnot _)
  | finishLost active unfenced => exact backed_finishLost hs hb
  | @finishSaved r res active unfenced id lease good =>
      have hstored : AllBacked ((L.finish r).setResult (L.jobs r).attempt res) := by
        intro b hrow
        by_cases hba : b = (L.jobs r).attempt
        · exact Or.inr (by simp [Ledger.setResult, hba])
        · refine (hb b hrow).kept rfl (Function.update_of_ne hba _ _) ?_
          intro q hq hact
          refine active_of_finish ?_ hact
          intro hqr
          exact hba (hqr ▸ (hs.attempt b q hq).symm)
      refine iff_of_true (hstored.leave ?_) trivial
      intro _
      rw [show (((L.finish r).setResult (L.jobs r).attempt res).jobs r).attempt =
        (L.jobs r).attempt from attempt_finish_job L r r]
      simp [Ledger.setResult]
  | @cancel a r live => exact iff_of_true (hb.of_same (same_cancel L r) rfl) trivial
  | @tick ms => exact iff_of_true (hb.of_same (same_tick L (L.now + ms)) rfl) trivial
  | restart =>
      constructor
      · intro h a hrow
        rcases h a hrow with ⟨q, hq, -⟩ | hres
        · cases hq
        · exact hres
      · exact fun h a hrow => Or.inr (h a hrow)

end Ledger

end HuginAgent
