/-
A result that is stored can be acknowledged.

The lease is part of a result's digest, and the server acknowledges a result under
the lease it knows for the attempt.  `Settled` says that row and result agree on it
and that digest and size belong to the payload.  A step that changes the lease of a
row without its result breaks this; `Faithful` rules that out.
-/
import HuginAgent.Ledger.Owned

namespace HuginAgent.Ledger

variable {sha : JsString → JsString} {L L' : Ledger} {a lease : JsString} {op : Op}

def Settled (sha : JsString → JsString) (L : Ledger) : Prop :=
  ∀ a res, L.results a = some res →
    (L.rows a).map Row.lease = some res.leaseId ∧ Acknowledgeable sha res

/-- No rotation on its own hits an attempt that has a result under another lease. -/
def Faithful (L : Ledger) : Op → Prop
  | .rotate a lease _ => ∀ res, L.results a = some res → res.leaseId = lease
  | _ => True

theorem Settled.of_eq (h : Settled sha L) (hresults : L'.results = L.results)
    (hrows : ∀ a, (L'.rows a).map Row.lease = (L.rows a).map Row.lease) : Settled sha L' := by
  intro a res hres
  rw [hrows]
  exact h a res (hresults ▸ hres)

/-- An attempt goes that has no result left. -/
theorem Settled.forget (h : Settled sha L) (hresult : L.results a = none) :
    Settled sha (L.forget a) := by
  intro b res hres
  have hb : b ≠ a := by
    intro hc
    rw [hc] at hres
    exact absurd (hresult.symm.trans hres) (by simp)
  simp only [Ledger.forget, Function.update_of_ne hb]
  exact h b res hres

theorem Settled.clear (h : Settled sha L) : Settled sha (L.clear a) := by
  intro b res hres
  by_cases hb : b = a
  · simp [Ledger.clear, hb] at hres
  · simp only [Ledger.clear, Function.update_of_ne hb] at hres
    exact h b res hres

theorem Settled.setResult (h : Settled sha L) {res : StoredResult}
    (hrow : (L.rows a).map Row.lease = some res.leaseId) (hgood : Acknowledgeable sha res) :
    Settled sha (L.setResult a res) := by
  intro b res' hres
  by_cases hb : b = a
  · subst hb
    simp only [Ledger.setResult, Function.update_self, Option.some.injEq] at hres
    exact hres ▸ ⟨hrow, hgood⟩
  · simp only [Ledger.setResult, Function.update_of_ne hb] at hres
    exact h b res' hres

theorem map_lease_rotate (L : Ledger) (a lease : JsString) (hit : Option Ref) (b : JsString) :
    ((L.rotate a lease hit).rows b).map Row.lease =
      if b = a then (L.rows b).map fun _ => lease else (L.rows b).map Row.lease := by
  have hset : ((L.setLease a lease).rows b).map Row.lease =
      if b = a then (L.rows b).map fun _ => lease else (L.rows b).map Row.lease := by
    by_cases hb : b = a
    · simp [setLease, hb, Function.comp_def]
    · simp [setLease, hb]
  cases hit <;> exact hset

theorem results_rotate (L : Ledger) (a lease : JsString) (hit : Option Ref) :
    (L.rotate a lease hit).results = L.results := by
  cases hit <;> rfl

/-- Every faithful step keeps what is stored acknowledgeable. -/
theorem Settled.step (h : Step sha L op L') (hs : Sound L) (ho : Owned L) (hf : Faithful L op)
    (hi : Settled sha L) : Settled sha L' := by
  cases h with
  | @accept a lease started row live =>
      intro b res hres
      have hb : b ≠ a := by
        intro hc
        have := (hi b res hres).1
        rw [hc, row] at this
        exact absurd this (by simp)
      simp only [Ledger.accept, Function.update_of_ne hb]
      exact hi b res hres
  | @ack a n u live =>
      refine hi.of_eq ?_ (same_ack L a n u).rows
      cases u <;> rfl
  | @settle a res result => exact hi.clear.forget (Function.update_self _ _ _)
  | @rotate a lease hit hits =>
      intro b res hres
      rw [results_rotate] at hres
      obtain ⟨hrow, hgood⟩ := hi b res hres
      rw [map_lease_rotate]
      refine ⟨?_, hgood⟩
      split
      · rename_i hb
        rw [← hf res (hb ▸ hres)]
        obtain ⟨row, hrow', -⟩ := Option.map_eq_some_iff.mp hrow
        rw [hrow']
        rfl
      · exact hrow
  | @resend a lease hit old res hits result id newLease good =>
      have hother : ∀ b, b ≠ a → ((L.rotate a lease hit).setResult a res).results b = L.results b ∧
          (((L.rotate a lease hit).setResult a res).rows b).map Row.lease =
            (L.rows b).map Row.lease := by
        intro b hb
        have hrow := map_lease_rotate L a lease hit b
        rw [if_neg hb] at hrow
        exact ⟨(Function.update_of_ne hb _ _).trans (congrFun (results_rotate L a lease hit) b), hrow⟩
      intro b res' hres
      by_cases hb : b = a
      · subst hb
        have hrow := map_lease_rotate L b lease hit b
        obtain ⟨row, hrow', -⟩ := Option.map_eq_some_iff.mp (hi b old result).1
        rw [if_pos rfl, hrow', Option.map_some] at hrow
        obtain rfl : res = res' := by simpa [Ledger.setResult] using hres
        exact ⟨newLease ▸ hrow, good (hi b old result).2⟩
      · obtain ⟨hresult, hrow⟩ := hother b hb
        rw [hresult] at hres
        rw [hrow]
        exact hi b res' hres
  | @revoke a r ended live active =>
      exact (hi.of_eq rfl fun _ => rfl).forget (L := (L.fence r ended).unregister a)
        (ho.noResult a r live)
  | @abandonLive a r ended live active =>
      exact (hi.of_eq rfl fun _ => rfl).clear.forget (L := ((L.fence r ended).unregister a).clear a)
        (Function.update_self _ _ _)
  | @abandonRow a live => exact hi.clear.forget (Function.update_self _ _ _)
  | @ackPending a => exact hi.clear.forget (Function.update_self _ _ _)
  | @event r row pause events run unfenced id seq insert =>
      exact hi.of_eq rfl (same_event L r row events pause).rows
  | @finishFenced r active fenced =>
      refine hi.of_eq ?_ ?_
      · unfold Ledger.leave
        split <;> rfl
      · intro b
        unfold Ledger.leave
        split <;> rfl
  | @finishSaved r res active unfenced id lease good =>
      obtain ⟨row, hrow, hlease⟩ := hs.row _ r (ho.registered r active unfenced)
      have hsaved : Settled sha ((L.finish r).setResult (L.jobs r).attempt res) := by
        refine Settled.setResult (hi.of_eq rfl fun _ => rfl) ?_ good
        show (L.rows (L.jobs r).attempt).map Row.lease = some res.leaseId
        rw [hrow, Option.map_some, hlease, lease]
      refine hsaved.of_eq ?_ ?_
      · unfold Ledger.leave
        split <;> rfl
      · intro b
        unfold Ledger.leave
        split <;> rfl
  | idle | burn run unfenced taken | finishLost active unfenced | cancel live | tick | restart =>
      exact hi.of_eq rfl fun _ => rfl

end HuginAgent.Ledger
