/-
The gate fails closed.

A tool prompt is answered with "allow" only where the server allowed it in time, and it
then gets back the input it came with.  `Gated` says where every prompt is on its way, for
a given record of what the server has granted: the text in each direction is empty or the
one line that belongs there, a request is open in the manager or routed in a bridge only
once the bridge has read it, and the manager has told a run of at most one decision on it.

Three lemmas carry it through a step: `Gated.update` for what happens to prompts and
bridges, `Gated.step` for what happens in the manager, and `Gated.resolve` for the
decision that goes from one to the other.
-/
import HuginAgent.Engine.Gate

namespace HuginAgent

open JobManager Ledger

variable {env : Env} {g g' : Gate} {granted granted' : Ref → JsString → Prop}

/-- The bridge has read the request. -/
def Prompt.Asked (p : Prompt) : Prop := p.connected = true ∧ p.toBridge.content = []

namespace Gate

def Asked (g : Gate) (n : Socket) (r : Ref) (id : JsString) : Prop :=
  ∃ p, g.prompts[n]? = some p ∧ p.run = r ∧ p.id = id ∧ p.Asked

/-- How many decisions on a request the manager has told a run. -/
def resolved (g : Gate) (id : JsString) : Nat := g.world.calls.countP fun c => c.2.resolves id

end Gate

theorem Gate.bridges_setBridge (g : Gate) (r q : Ref) (b : ApprovalBridge) :
    (g.setBridge r b).bridges q = if q = r then b else g.bridges q := by
  rw [Gate.setBridge]
  exact Function.update_apply ..

namespace ApprovalBridge

variable {b : ApprovalBridge} {id i : JsString} {n m : Socket}

theorem pending_of_settle (h : (b.settle id).pending i = some m) : b.pending i = some m := by
  rw [settle] at h
  simp only [Function.update_apply] at h
  split at h
  · cases h
  · exact h

theorem pending_of_dropSocket (h : (b.dropSocket n).pending i = some m) :
    b.pending i = some m := by
  rw [dropSocket] at h
  simp only at h
  split at h
  · cases h
  · exact h

theorem pending_of_raise (h : (b.raise id n).pending i = some m) :
    b.pending i = some m ∨ i = id ∧ m = n := by
  rw [raise] at h
  simp only [Function.update_apply] at h
  split at h
  · rename_i hi
    exact Or.inr ⟨hi, (Option.some.inj h).symm⟩
  · exact Or.inl h

end ApprovalBridge

/-- Where a prompt is on its way. -/
structure Prompt.Fits (granted : Ref → JsString → Prop) (resolved : Nat) (p : Prompt) : Prop where
  request : p.toBridge.content = [] ∨ p.connected = true ∧
    ∃ name, p.toBridge.content = reqLine p.id name p.args.input ++ [newline]
  decision : p.toSubprocess.content = [] ∨ 0 < resolved ∧ ∃ decision reason,
    p.toSubprocess.content = decisionLine p.id decision reason ++ [newline] ∧
      (decision = .allow → granted p.run p.id)
  answer : ∀ payload, p.answer = some payload → (∃ message, payload = denyPayload message) ∨
    payload = allowPayload p.args.input ∧ granted p.run p.id

structure Gated (granted : Ref → JsString → Prop) (g : Gate) : Prop where
  sound : g.world.ledger.Sound
  approvals : g.world.ApprovalsSound
  distinct : g.ids.Nodup
  raised : ∀ r id k, g.world.approvals.pending r id = some k → ∃ n, g.Asked n r id
  routed : ∀ r id n, (g.bridges r).pending id = some n → g.Asked n r id
  called : ∀ id, 0 < g.resolved id → ∃ n r, g.Asked n r id
  undecided : ∀ r id k, g.world.approvals.pending r id = some k → g.resolved id = 0
  once : ∀ id, g.resolved id ≤ 1
  prompt : ∀ (n : Socket) (p : Prompt), g.prompts[n]? = some p → p.Fits granted (g.resolved p.id)

theorem Prompt.Fits.mono {p : Prompt} {k l : Nat} (h : p.Fits granted k) (hkl : k ≤ l)
    (hgrow : ∀ r id, granted r id → granted' r id) : p.Fits granted' l where
  request := h.request
  decision := by
    rcases h.decision with hnil | ⟨hk, decision, reason, htext, hallow⟩
    · exact Or.inl hnil
    · exact Or.inr ⟨Nat.lt_of_lt_of_le hk hkl, decision, reason, htext,
        fun hd => hgrow _ _ (hallow hd)⟩
  answer := by
    intro payload hp
    rcases h.answer payload hp with hdeny | ⟨hallow, hgranted⟩
    · exact Or.inl hdeny
    · exact Or.inr ⟨hallow, hgrow _ _ hgranted⟩

namespace Gated

theorem mono (h : Gated granted g) (hgrow : ∀ r id, granted r id → granted' r id) :
    Gated granted' g :=
  { h with prompt := fun n p hp => (h.prompt n p hp).mono (le_refl _) hgrow }

/-- An id belongs to one prompt. -/
theorem unique (h : Gated granted g) {n m : Socket} {p q : Prompt} (hp : g.prompts[n]? = some p)
    (hq : g.prompts[m]? = some q) (hid : p.id = q.id) : n = m := by
  obtain ⟨hn, rfl⟩ := List.getElem?_eq_some_iff.mp hp
  obtain ⟨hm, rfl⟩ := List.getElem?_eq_some_iff.mp hq
  have hn' : n < g.ids.length := by rwa [Gate.ids, List.length_map]
  have hm' : m < g.ids.length := by rwa [Gate.ids, List.length_map]
  have hget : g.ids[n] = g.ids[m] := by simpa only [Gate.ids, List.getElem_map] using hid
  exact (List.Nodup.getElem_inj_iff h.distinct).mp hget

theorem asked_unique (h : Gated granted g) {n m : Socket} {r q : Ref} {id : JsString}
    (hn : g.Asked n r id) (hm : g.Asked m q id) : n = m ∧ r = q := by
  obtain ⟨p, hp, rfl, hid, -⟩ := hn
  obtain ⟨p', hp', rfl, hid', -⟩ := hm
  obtain rfl := h.unique hp hp' (hid.trans hid'.symm)
  obtain rfl := Option.some.inj (hp.symm.trans hp')
  exact ⟨rfl, rfl⟩

end Gated

/-! ### Prompts and bridges -/

/-- What may become of a prompt. -/
structure Prompt.Keeps (granted : Ref → JsString → Prop) (resolved : Nat) (p p' : Prompt) :
    Prop where
  run : p'.run = p.run
  id : p'.id = p.id
  asked : p.Asked → p'.Asked
  fits : p'.Fits granted resolved

/-- **Prompts that keep to it and routes to prompts that have asked.** -/
theorem Gated.update (h : Gated granted g) (f : Socket → Prompt → Prompt)
    (hworld : g'.world = g.world) (hprompts : ∀ m, g'.prompts[m]? = (g.prompts[m]?).map (f m))
    (hrouted : ∀ r id n, (g'.bridges r).pending id = some n → g.Asked n r id)
    (hkeep : ∀ (m : Socket) (p : Prompt), g.prompts[m]? = some p →
      p.Keeps granted (g.resolved p.id) (f m p)) :
    Gated granted g' := by
  have hasked : ∀ n r id, g.Asked n r id → g'.Asked n r id := by
    intro n r id hn
    obtain ⟨p, hp, hrun, hid, hask⟩ := hn
    have hk := hkeep n p hp
    exact ⟨f n p, by rw [hprompts, hp]; rfl, hk.run.trans hrun, hk.id.trans hid, hk.asked hask⟩
  have hids : g'.ids = g.ids := by
    refine List.ext_getElem? ?_
    intro m
    rw [Gate.ids, Gate.ids, List.getElem?_map, List.getElem?_map, hprompts]
    cases hp : g.prompts[m]? with
    | none => rfl
    | some p => exact congrArg some (hkeep m p hp).id
  have hresolved : g'.resolved = g.resolved := by
    funext id
    rw [Gate.resolved, Gate.resolved, hworld]
  refine
    { sound := hworld ▸ h.sound
      approvals := hworld ▸ h.approvals
      distinct := hids ▸ h.distinct
      raised := ?_
      routed := fun r id n hn => hasked n r id (hrouted r id n hn)
      called := ?_
      undecided := ?_
      once := fun id => hresolved ▸ h.once id
      prompt := ?_ }
  · intro r id k hk
    obtain ⟨n, hn⟩ := h.raised r id k (hworld ▸ hk)
    exact ⟨n, hasked n r id hn⟩
  · intro id hid
    obtain ⟨n, r, hn⟩ := h.called id (hresolved ▸ hid)
    exact ⟨n, r, hasked n r id hn⟩
  · intro r id k hk
    rw [hresolved]
    exact h.undecided r id k (hworld ▸ hk)
  · intro m p' hp'
    obtain ⟨p, hp, rfl⟩ := Option.map_eq_some_iff.mp ((hprompts m).symm.trans hp')
    have hk := hkeep m p hp
    rw [hresolved, hk.id]
    exact hk.fits

/-- A prompt that is left alone. -/
theorem Gated.keeps (h : Gated granted g) {m : Socket} {p : Prompt} (hp : g.prompts[m]? = some p) :
    p.Keeps granted (g.resolved p.id) p := ⟨rfl, rfl, fun hask => hask, h.prompt m p hp⟩

/-- One prompt changes. -/
theorem Gated.modify (h : Gated granted g) {n : Socket} {f : Prompt → Prompt}
    (hkeep : ∀ p, g.prompts[n]? = some p → p.Keeps granted (g.resolved p.id) (f p)) :
    Gated granted (g.modify n f) := by
  refine h.update (fun m p => if n = m then f p else p) rfl (List.getElem?_modify f n g.prompts)
    h.routed ?_
  intro m p hp
  split
  · rename_i hm
    exact hkeep p (hm ▸ hp)
  · exact h.keeps hp

/-- Connections end: nothing is read from them any more and nothing is routed to them. -/
theorem Gated.cut (h : Gated granted g) (f : Socket → Prompt → Prompt)
    (hf : ∀ m p, ∃ live, f m p = { p with live })
    (hworld : g'.world = g.world) (hprompts : ∀ m, g'.prompts[m]? = (g.prompts[m]?).map (f m))
    (hbridges : ∀ r id n, (g'.bridges r).pending id = some n → (g.bridges r).pending id = some n) :
    Gated granted g' := by
  refine h.update f hworld hprompts (fun r id n hn => h.routed r id n (hbridges r id n hn)) ?_
  intro m p hp
  obtain ⟨live, hlive⟩ := hf m p
  have hfits := h.prompt m p hp
  rw [hlive]
  exact ⟨rfl, rfl, fun hask => hask, hfits.request, hfits.decision, hfits.answer⟩

/-! ### The manager -/

/-- A decision is told where the request was open, and it is not open after that. -/
theorem resolves_of_countP (env : Env) (hs : g.world.ledger.Sound)
    (ha : g.world.ApprovalsSound) (act : Action) (id : JsString)
    (h : 0 < (callsOf env g.world act).countP fun c => c.2.resolves id) :
    ∃ q k, approvalOp env g.world act = .settle ⟨k, q, id⟩ ∧
      g.world.approvals.pending q id = some k := by
  obtain ⟨⟨q, call⟩, hmem, hres⟩ := List.countP_pos_iff.mp h
  cases call with
  | resolveApproval id' decision reason =>
      obtain rfl : id' = id := of_decide_eq_true hres
      obtain ⟨⟨k, hop, hopen⟩, -⟩ := settled_of_mem_callsOf hs ha hmem
      exact ⟨q, k, hop, hopen⟩
  | _ => cases hres

theorem resolved_step (g : Gate) (act : Action) (id : JsString) :
    Gate.resolved { g with world := step env g.world act } id =
      g.resolved id + (callsOf env g.world act).countP fun c => c.2.resolves id := by
  rw [Gate.resolved, Gate.resolved, step_calls, List.countP_append]

/-- **The manager takes its step**, and a request that comes has been read and not decided. -/
theorem Gated.step (h : Gated granted g) {act : Action} (hnew : NewRequest g.world act)
    (hraise : ∀ r id, approvalOp env g.world act = .raise r id →
      (∃ n, g.Asked n r id) ∧ g.resolved id = 0) :
    Gated granted { g with world := HuginAgent.step env g.world act } := by
  have hpending : ∀ r id k,
      (HuginAgent.step env g.world act).approvals.pending r id = some k →
      g.world.approvals.pending r id = some k ∨ approvalOp env g.world act = .raise r id := by
    intro r id k hk
    rw [step_approvals] at hk
    exact (Approvals.pending_apply hk).imp_right And.left
  refine
    { sound := sound_step h.sound act
      approvals := approvalsSound_step h.sound h.approvals hnew
      distinct := h.distinct
      raised := ?_
      routed := h.routed
      called := ?_
      undecided := ?_
      once := ?_
      prompt := ?_ }
  · intro r id k hk
    rcases hpending r id k hk with hold | hop
    · exact h.raised r id k hold
    · exact (hraise r id hop).1
  · intro id hid
    rw [resolved_step] at hid
    by_cases hold : 0 < g.resolved id
    · exact h.called id hold
    · obtain ⟨q, k, -, hopen⟩ := resolves_of_countP env h.sound h.approvals act id (by omega)
      obtain ⟨n, hn⟩ := h.raised q id k hopen
      exact ⟨n, q, hn⟩
  · intro r id k hk
    rw [resolved_step]
    by_contra hc
    have hzero : g.resolved id = 0 := by
      rcases hpending r id k hk with hold | hop
      · exact h.undecided r id k hold
      · exact (hraise r id hop).2
    obtain ⟨q, k', hop, hopen⟩ := resolves_of_countP env h.sound h.approvals act id (by omega)
    rcases hpending r id k hk with hold | hop'
    · -- the request that is decided is the only one of its id
      obtain ⟨n, hn⟩ := h.raised r id k hold
      obtain ⟨m, hm⟩ := h.raised q id k' hopen
      obtain ⟨-, rfl⟩ := h.asked_unique hn hm
      have hgone := Approvals.pending_settle (A := g.world.approvals) ⟨k', r, id⟩
      rw [← hop, ← step_approvals] at hgone
      cases hgone.symm.trans hk
    · cases hop.symm.trans hop'
  · intro id
    rw [resolved_step]
    have hle := Nat.le_trans (List.countP_le_length (p := fun c => c.2.resolves id))
      (callsOf_le_one env g.world act)
    have honce := h.once id
    by_contra hc
    obtain ⟨q, k, -, hopen⟩ := resolves_of_countP env h.sound h.approvals act id (by omega)
    have hzero := h.undecided q id k hopen
    omega
  · intro n p hp
    refine (h.prompt n p hp).mono ?_ fun _ _ hg => hg
    rw [resolved_step]
    exact Nat.le_add_right _ _

/-! ### From the manager to the subprocess -/

/-- **The decision goes out** over a connection on which nothing has been sent. -/
theorem Gated.resolve (h : Gated granted g) {r : Ref} {id : JsString} {decision : ApprovalDecision}
    {reason : Option JsString}
    (hnil : ∀ (n : Socket) (p : Prompt), g.prompts[n]? = some p → p.id = id →
      p.toSubprocess.content = [])
    (hresolved : 0 < g.resolved id) (hallow : decision = .allow → granted r id) :
    Gated granted (g.resolve r id decision reason) := by
  rw [Gate.resolve]
  split
  · exact h
  · rename_i n hroute
    obtain ⟨p, hp, hrun, hid, -⟩ := h.routed r id n hroute
    have hsettled : Gated granted (g.setBridge r ((g.bridges r).settle id)) := by
      refine h.cut (fun _ p => p) (fun _ p => ⟨p.live, rfl⟩) rfl (fun _ => (Option.map_id' ..).symm) ?_
      intro q i m hm
      rw [Gate.bridges_setBridge] at hm
      split at hm
      · rename_i hq
        exact hq ▸ ApprovalBridge.pending_of_settle hm
      · exact hm
    refine hsettled.modify ?_
    intro p' hp'
    obtain rfl := Option.some.inj (hp.symm.trans hp')
    have hfits := h.prompt n p hp
    refine ⟨rfl, rfl, fun hask => hask, hfits.request, Or.inr ⟨hid ▸ hresolved, decision, reason, ?_, ?_⟩,
      hfits.answer⟩
    · rw [hid]
      exact Pipe.content_write (hnil n p hp hid)
    · intro hd
      rw [hid, hrun]
      exact hallow hd

theorem drop_calls (w : World) (act : Action) :
    (step env w act).calls.drop w.calls.length = callsOf env w act := by
  rw [step_calls, List.drop_left]

theorem Gated.manage (h : Gated granted g) {act : Action}
    (hact : ∀ r req, act ≠ .callback r (.approval req))
    (hallow : ∀ msg r id, act = .approvalResponse msg → Allows g.world r id msg → granted r id) :
    Gated granted (g.manage env act) := by
  have hnew : NewRequest g.world act := by
    cases act with
    | callback r cb =>
        cases cb with
        | approval req => exact absurd rfl (hact r req)
        | _ => trivial
    | _ => trivial
  have hstep : Gated granted { g with world := HuginAgent.step env g.world act } := by
    refine h.step hnew ?_
    intro r id hop
    obtain ⟨req, hreq, -⟩ := approvalOp_eq_raise hop
    exact absurd hreq (hact r req)
  rw [Gate.manage, drop_calls]
  rcases hcalls : callsOf env g.world act with _ | ⟨⟨q, call⟩, rest⟩
  · exact hstep
  · obtain rfl : rest = [] := by
      have hle := callsOf_le_one env g.world act
      rw [hcalls, List.length_cons] at hle
      exact List.eq_nil_of_length_eq_zero (by omega)
    have hmem : (q, call) ∈ callsOf env g.world act := hcalls ▸ List.mem_singleton.mpr rfl
    cases call with
    | resolveApproval id decision reason =>
        obtain ⟨⟨k, -, hopen⟩, hsaid⟩ := settled_of_mem_callsOf h.sound h.approvals hmem
        refine hstep.resolve ?_ ?_ ?_
        · intro n p hp hid
          refine (h.prompt n p hp).decision.resolve_right ?_
          intro hc
          rw [hid, h.undecided q id k hopen] at hc
          exact absurd hc.1 (Nat.lt_irrefl 0)
        · rw [resolved_step, hcalls]
          simp [EngineCall.resolves]
        · intro hd
          obtain ⟨msg, hmsg, hallows⟩ := hsaid hd
          exact hallow msg q id hmsg hallows
    | _ => exact hstep

/-! ### From the subprocess to the manager -/

theorem Gated.call (h : Gated granted g) {r : Ref} {id : JsString} {args : ToolArgs}
    {configured : Bool} (hid : id ∉ g.ids) :
    Gated granted { g with prompts := g.prompts ++ [.new r id args configured] } := by
  have hasked : ∀ n q i, g.Asked n q i →
      Gate.Asked { g with prompts := g.prompts ++ [.new r id args configured] } n q i := by
    intro n q i hn
    obtain ⟨p, hp, hrest⟩ := hn
    refine ⟨p, ?_, hrest⟩
    rw [List.getElem?_append_left (List.getElem?_eq_some_iff.mp hp).1]
    exact hp
  refine
    { sound := h.sound
      approvals := h.approvals
      distinct := ?_
      raised := ?_
      routed := fun q i n hn => hasked n q i (h.routed q i n hn)
      called := ?_
      undecided := h.undecided
      once := h.once
      prompt := ?_ }
  · rw [Gate.ids, List.map_append, List.nodup_append_comm, List.map_singleton, List.singleton_append,
      List.nodup_cons]
    exact ⟨hid, h.distinct⟩
  · intro q i k hk
    obtain ⟨n, hn⟩ := h.raised q i k hk
    exact ⟨n, hasked n q i hn⟩
  · intro i hi
    obtain ⟨n, q, hn⟩ := h.called i hi
    exact ⟨n, q, hasked n q i hn⟩
  · intro n p hp
    by_cases hlt : n < g.prompts.length
    · rw [List.getElem?_append_left hlt] at hp
      exact h.prompt n p hp
    · rw [List.getElem?_append_right (Nat.le_of_not_lt hlt)] at hp
      obtain rfl := List.mem_singleton.mp (List.mem_of_getElem? hp)
      refine ⟨Or.inl rfl, Or.inl rfl, ?_⟩
      intro payload hpayload
      rw [Prompt.new] at hpayload
      simp only at hpayload
      split at hpayload
      · cases hpayload
      · obtain ⟨-, -, rfl⟩ := Option.map_eq_some_iff.mp hpayload
        exact Or.inl ⟨_, rfl⟩

theorem Gated.connect (h : Gated granted g) (n : Socket) : Gated granted (g.connect n) := by
  rw [Gate.connect]
  split
  · exact h
  · rename_i p hp
    split
    · exact h
    · rename_i name hname
      split
      · rename_i hguard
        refine h.modify ?_
        intro p' hp'
        obtain rfl := Option.some.inj (hp.symm.trans hp')
        have hfits := h.prompt n p hp
        have hidle : ¬ p.connected = true := by simp [hguard.1]
        refine ⟨rfl, rfl, fun hask => absurd hask.1 hidle, Or.inr ⟨rfl, name, ?_⟩, hfits.decision,
          hfits.answer⟩
        exact Pipe.content_write (hfits.request.resolve_right fun hc => hidle hc.1)
      · exact h

/-- The bridge has read a request and hands it to the manager. -/
theorem Gated.readLine (h : Gated granted g) {n : Socket} {r : Ref} {line : JsString}
    (hreq : ∀ req, readReq line = some req → g.Asked n r req.requestId ∧
      g.resolved req.requestId = 0 ∧ ∀ q, g.world.approvals.pending q req.requestId = none) :
    Gated granted (Gate.readLine env n r g line) := by
  rw [Gate.readLine]
  split
  · exact h
  · rename_i req hread
    obtain ⟨hasked, hzero, hnone⟩ := hreq req hread
    have hstep : Gated granted
        { g with world := HuginAgent.step env g.world (.callback r (.approval req)) } := by
      refine h.step (hnone r) ?_
      intro q id hop
      obtain ⟨req', heq, rfl, -⟩ := approvalOp_eq_raise hop
      injection heq with hq hcb
      injection hcb with hcb
      subst hq hcb
      exact ⟨⟨n, hasked⟩, hzero⟩
    refine hstep.update (fun _ p => p) rfl (fun _ => (Option.map_id' ..).symm) ?_
      fun m p hp => hstep.keeps hp
    intro q id m hm
    replace hm : (((g.setBridge r ((g.bridges r).raise req.requestId n)).bridges q).pending id) =
        some m := hm
    rw [Gate.bridges_setBridge] at hm
    split at hm
    · rename_i hq
      rcases ApprovalBridge.pending_of_raise hm with hold | ⟨rfl, rfl⟩
      · exact h.routed q id m (hq ▸ hold)
      · exact hq ▸ hasked
    · exact h.routed q id m hm

theorem Gated.arrive (h : Gated granted g) (n : Socket) (units : Nat) :
    Gated granted (g.arrive env n units) := by
  rw [Gate.arrive]
  split
  · exact h
  · rename_i p hp
    split
    · have hfits := h.prompt n p hp
      have hread : ∀ up : Pipe UInt16,
          (p.Asked → up.content = []) →
          (up.content = [] ∨ p.connected = true ∧
            ∃ name, up.content = reqLine p.id name p.args.input ++ [newline]) →
          Gated granted (g.modify n fun p => { p with toBridge := up }) := by
        intro up hask hup
        refine h.modify ?_
        intro p' hp'
        obtain rfl := Option.some.inj (hp.symm.trans hp')
        exact ⟨rfl, rfl, fun ha => ⟨ha.1, hask ha⟩, hup, hfits.decision, hfits.answer⟩
      rcases hfits.request with hnil | ⟨hconn, name, hline⟩
      · obtain ⟨hlines, hrest⟩ := Pipe.read_nil newline units hnil
        simp only [hlines, List.foldl_nil]
        exact hread _ (fun _ => hrest) (Or.inl hrest)
      · have hidle : ¬ p.Asked := by
          intro ha
          have hnil := hline.symm.trans ha.2
          exact absurd hnil (by simp)
        rcases Pipe.read_line units (newline_notMem_stringifyObject _) hline with
          ⟨hlines, hrest⟩ | ⟨hlines, hrest⟩
        · simp only [hlines, List.foldl_nil]
          exact hread _ (fun ha => absurd ha hidle) (Or.inr ⟨hconn, name, hrest⟩)
        · simp only [hlines, List.foldl_cons, List.foldl_nil]
          refine (hread _ (fun ha => absurd ha hidle) (Or.inl hrest)).readLine ?_
          intro req hreq
          obtain rfl := Option.some.inj
            ((readReq_reqLine p.id name p.args.input_wellFormed).symm.trans hreq)
          -- the request has not been read before, so nobody knows of it
          have hfirst : ∀ m q, ¬ g.Asked m q p.id := by
            intro m q hm
            obtain ⟨p', hp', -, hid, hask⟩ := hm
            obtain rfl := h.unique hp' hp hid
            obtain rfl := Option.some.inj (hp.symm.trans hp')
            exact hidle hask
          refine ⟨⟨{ p with toBridge := (p.toBridge.read newline units).2 }, ?_, rfl, rfl, hconn,
            hrest⟩, ?_, ?_⟩
          · rw [Gate.modify, List.getElem?_modify_eq, hp]
            rfl
          · by_contra hc
            obtain ⟨m, q, hm⟩ := h.called p.id (Nat.pos_of_ne_zero hc)
            exact hfirst m q hm
          · intro q
            cases hk : g.world.approvals.pending q p.id with
            | none => exact hk
            | some k =>
                obtain ⟨m, hm⟩ := h.raised q p.id k hk
                exact absurd hm (hfirst m q)
    · exact h

/-! ### Back to the subprocess -/

/-- An answer that is there stays, and one that comes is a denial or was granted. -/
theorem Prompt.Fits.answers {k : Nat} {p : Prompt} (h : p.Fits granted k) {answer : Option JsObject}
    (hnew : ∀ payload, answer = some payload → (∃ message, payload = denyPayload message) ∨
      payload = allowPayload p.args.input ∧ granted p.run p.id) :
    ∀ payload, p.answer.or answer = some payload → (∃ message, payload = denyPayload message) ∨
      payload = allowPayload p.args.input ∧ granted p.run p.id := by
  intro payload hp
  rcases Option.or_eq_some_iff.mp hp with hold | ⟨-, hcomes⟩
  · exact h.answer payload hold
  · exact hnew payload hcomes

theorem payloadOf_denied {input : JsValue} {d : Decision} (h : d.allows = false) :
    ∃ message, payloadOf input d = denyPayload message :=
  ⟨_, by rw [payloadOf, if_neg (by simp [h])]⟩

/-- The subprocess reads the decision that was told to the run, or none. -/
theorem Gated.answerArrives (h : Gated granted g) (n : Socket) (units : Nat) :
    Gated granted (g.answerArrives n units) := by
  refine h.modify ?_
  intro p hp
  have hfits := h.prompt n p hp
  rcases hfits.decision with hnil | ⟨hres, decision, reason, hline, hallow⟩
  · obtain ⟨hlines, hrest⟩ := Pipe.read_nil newline units hnil
    refine ⟨rfl, rfl, fun hask => hask, hfits.request, Or.inl hrest, ?_⟩
    refine hfits.answers ?_
    intro payload hpayload
    rw [hlines] at hpayload
    cases hpayload
  · rcases Pipe.read_line units (newline_notMem_stringifyObject _) hline with
      ⟨hlines, hrest⟩ | ⟨hlines, hrest⟩
    · refine ⟨rfl, rfl, fun hask => hask, hfits.request,
        Or.inr ⟨hres, decision, reason, hrest, hallow⟩, ?_⟩
      refine hfits.answers ?_
      intro payload hpayload
      rw [hlines] at hpayload
      cases hpayload
    · refine ⟨rfl, rfl, fun hask => hask, hfits.request, Or.inl hrest, ?_⟩
      refine hfits.answers ?_
      intro payload hpayload
      rw [hlines, List.findSome?_singleton, ← decisionLine, readDecision_decisionLine] at hpayload
      obtain rfl := Option.some.inj hpayload
      by_cases hd : decision = .allow
      · refine Or.inr ⟨?_, hallow hd⟩
        rw [payloadOf, if_pos (by rw [allows_text, hd]; rfl)]
      · exact Or.inl (payloadOf_denied (by rw [allows_text, decide_eq_false hd]))

/-- Without a decision the answer is a denial. -/
theorem Gated.fail (h : Gated granted g) (n : Socket) : Gated granted (g.fail n) := by
  refine h.modify ?_
  intro p hp
  have hfits := h.prompt n p hp
  refine ⟨rfl, rfl, fun hask => hask, hfits.request, hfits.decision, ?_⟩
  refine hfits.answers ?_
  intro payload hpayload
  obtain ⟨-, -, rfl⟩ := Option.map_eq_some_iff.mp hpayload
  exact Or.inl (payloadOf_denied (by decide))

/-! ### Ends -/

theorem Gated.hangup (h : Gated granted g) (n : Socket) : Gated granted (g.hangup n) := by
  rw [Gate.hangup]
  split
  · exact h
  · rename_i p hp
    refine h.cut (fun m q => if n = m then { q with live := false } else q) ?_ rfl
      (List.getElem?_modify _ n g.prompts) ?_
    · intro m q
      split
      · exact ⟨false, rfl⟩
      · exact ⟨q.live, rfl⟩
    · intro q id m hm
      replace hm : (((g.setBridge p.run ((g.bridges p.run).dropSocket n)).bridges q).pending id) =
          some m := hm
      rw [Gate.bridges_setBridge] at hm
      split at hm
      · rename_i hq
        exact hq ▸ ApprovalBridge.pending_of_dropSocket hm
      · exact hm

theorem Gated.close (h : Gated granted g) (r : Ref) : Gated granted (g.close r) := by
  refine h.cut (fun _ p => { p with live := p.live && p.run ≠ r }) (fun _ p => ⟨_, rfl⟩) rfl
    (fun _ => List.getElem?_map) ?_
  intro q id m hm
  replace hm : (((g.setBridge r .close).bridges q).pending id) = some m := hm
  rw [Gate.bridges_setBridge] at hm
  split at hm
  · cases hm
  · exact hm

theorem Gated.die (h : Gated granted g) : Gated granted (g.die env) := by
  have hstep : Gated granted { g with world := HuginAgent.step env g.world .restart } :=
    h.step trivial fun _ _ hop => nomatch hop
  refine hstep.cut (fun _ p => { p with live := false }) (fun _ p => ⟨false, rfl⟩) rfl
    (fun _ => List.getElem?_map) ?_
  intro q id m hm
  rw [Gate.die] at hm
  simp only at hm
  split at hm
  · cases hm
  · exact hm

/-! ### Every run -/

theorem gated_step (h : Gated granted g) (hgrow : ∀ r id, granted r id → granted' r id)
    {act : GateAction}
    (hid : ∀ r id args configured, act = .call r id args configured →
      id ∉ g.ids)
    (hallow : ∀ msg r id, act = .manager (.approvalResponse msg) → Allows g.world r id msg →
      granted' r id) :
    Gated granted' (gateStep env g act) := by
  have h := h.mono hgrow
  cases act with
  | call r id args configured => exact h.call (hid r id args configured rfl)
  | connect n => exact h.connect n
  | answerArrives n units => exact h.answerArrives n units
  | fail n => exact h.fail n
  | arrive n units => exact h.arrive n units
  | hangup n => exact h.hangup n
  | close r => exact h.close r
  | manager act =>
      have hmanage (hact : ∀ r req, act ≠ .callback r (.approval req)) :
          Gated granted' (g.manage env act) := by
        refine h.manage hact ?_
        intro msg r id hmsg hallows
        exact hallow msg r id (congrArg GateAction.manager hmsg) hallows
      cases act with
      | callback r cb =>
          cases cb with
          | approval req => exact h
          | event ev => exact hmanage (by simp)
          | done outcome => exact hmanage (by simp)
      | restart => exact h.die
      | _ => exact hmanage (by simp)

/-- The server has allowed the request at some point of the run. -/
def Granted (env : Env) (acts : List GateAction) (r : Ref) (id : JsString) : Prop :=
  ∃ before msg after, acts = before ++ .manager (.approvalResponse msg) :: after ∧
    Allows (runGate env before).world r id msg

/-- **Every run with request ids of its own is gated.** -/
theorem gated (env : Env) {acts : List GateAction} (hids : (promptIds acts).Nodup) :
    Gated (Granted env acts) (runGate env acts) := by
  induction acts using List.reverseRecOn with
  | nil =>
      exact
        { sound := sound_start
          approvals := approvalsSound_start
          distinct := List.nodup_nil
          raised := fun _ _ _ hk => nomatch hk
          routed := fun _ _ _ hn => nomatch hn
          called := fun _ hid => absurd hid (Nat.lt_irrefl 0)
          undecided := fun _ _ _ _ => rfl
          once := fun _ => Nat.zero_le 1
          prompt := fun _ _ hp => nomatch hp }
  | append_singleton acts act ih =>
      rw [promptIds, List.filterMap_append] at hids
      rw [runGate_snoc]
      refine gated_step (ih (List.nodup_append.mp hids).1) ?_ ?_ ?_
      · intro r id hgranted
        obtain ⟨before, msg, after, rfl, hallows⟩ := hgranted
        exact ⟨before, msg, after ++ [act], by simp, hallows⟩
      · intro r id args configured hact hmem
        rw [ids_runGate] at hmem
        subst hact
        exact (List.nodup_append.mp hids).2.2 id hmem id (List.mem_singleton.mpr rfl) rfl
      · intro msg r id hact hallows
        exact ⟨acts, msg, [], by rw [hact], hallows⟩

/-- What the answers of a run come to, if an allowed tool gets `inputOf` back. -/
structure FailClosed (inputOf : ToolArgs → JsValue) (env : Env) (acts : List GateAction) : Prop where
  /-- An answer is a denial, or the server has allowed the prompt in time. -/
  answer : ∀ p ∈ (runGate env acts).prompts, ∀ payload, p.answer = some payload →
    (∃ message, payload = denyPayload message) ∨
      payload = allowPayload (inputOf p.args) ∧ Granted env acts p.run p.id
  /-- No prompt is decided on twice. -/
  once : ∀ p ∈ (runGate env acts).prompts,
    ((runGate env acts).world.calls.countP fun c => c.2.resolves p.id) ≤ 1

/-- **The gate fails closed**, and an allowed tool gets its input back, `{}` where it had none. -/
theorem fails_closed (env : Env) (acts : List GateAction) (hids : (promptIds acts).Nodup) :
    FailClosed ToolArgs.input env acts := by
  have h := gated env hids
  refine ⟨?_, fun p _ => h.once p.id⟩
  intro p hp payload hpayload
  obtain ⟨n, hn⟩ := List.mem_iff_getElem?.mp hp
  exact (h.prompt n p hn).answer payload hpayload

/-- The arguments of a call of the tool `permission_prompt`. -/
def sampleArgs (input : JsValue) (h : input.wellFormed = true) : ToolArgs where
  fields := [(js "tool_name", .lit "Bash"), (js "input", input)]
  wellFormed := by
    have hkeys : [js "tool_name", js "input"].Nodup := by decide
    refine (JsValue.wellFormedFields_iff _).mpr ⟨hkeys, ?_⟩
    simp [h, JsValue.lit, JsValue.wellFormed]

/-- A prompt with these arguments, allowed by the server. -/
def sampleGate (args : ToolArgs) : List GateAction :=
  [.manager (sampleAssign "a" "l"),
    .call 0 (js "q") args true,
    .connect 0,
    .arrive 0 100,
    .manager (.approvalResponse ⟨js "a", js "l", js "q", .allow, none⟩),
    .answerArrives 0 100]

/-- The gate with `{ command: "ls" }`, which comes back as it was. -/
theorem fails_closed_sample :
    let args := sampleArgs (.obj [(js "command", .lit "ls")]) (by decide)
    let env := sampleEnv sampleDigest .limits
    ((runGate env (sampleGate args)).prompts.map fun p => p.answer.map answerText) =
        [some (answerText (allowPayload (.obj [(js "command", .lit "ls")])))] ∧
      FailClosed ToolArgs.input env (sampleGate args) :=
  ⟨by decide +kernel, fails_closed _ _ (by decide)⟩

/-- A tool call whose input is `null` is allowed with `{}`. -/
theorem null_input_replaced :
    ¬ ∀ env acts, (promptIds acts).Nodup →
      FailClosed (fun args => args.fields.get (js "input")) env acts := by
  intro h
  have hclosed := h (sampleEnv sampleDigest .limits) (sampleGate (sampleArgs .null rfl)) (by decide)
  have hrun : ((runGate (sampleEnv sampleDigest .limits)
      (sampleGate (sampleArgs .null rfl))).prompts.map fun p =>
        (jsonText (p.args.fields.get (js "input")), p.answer.map fun payload =>
          (jsonText (payload.get (js "behavior")), jsonText (payload.get (js "updatedInput"))))) =
      [(js "null", some (jsonText (.lit "allow"), js "{}"))] := by
    decide +kernel
  obtain ⟨p, hp, hpair⟩ := List.mem_map.mp (hrun ▸ List.mem_singleton.mpr rfl)
  injection hpair with hinput hanswer
  obtain ⟨payload, hpayload, htexts⟩ := Option.map_eq_some_iff.mp hanswer
  injection htexts with hbehavior hupdated
  rcases hclosed.answer p hp payload hpayload with ⟨message, rfl⟩ | ⟨rfl, -⟩
  · exact absurd hbehavior (show jsonText (.lit "deny") ≠ jsonText (.lit "allow") by decide)
  · have hsame : jsonText (p.args.fields.get (js "input")) = js "{}" := hupdated
    exact absurd (hinput.symm.trans hsame) (by decide)

end HuginAgent
