/-
What a device and the server agree on.

The device goes on by what it gets.  A token that it takes from an answer, and the ids that it
takes from another one, were true when the answer was made, and stay true.  So whenever `connect`
is done, the row of its secret is active with its key and its ids.
-/
import HuginAgent.Pairing.Ceremony

namespace HuginAgent

open PairingServer

variable {host : PairingHost} {opts : MockPairingOpts} {s s' : PairingServer}
  {vars : PairingVars} {future : List JsString} {client : ConnectState}

/-! ### The device goes on -/

theorem asks_of_waits (h : client.phase.waits = false) : client.asks = .idle := by
  unfold ConnectState.asks
  split
  · rename_i hphase _
    rw [hphase, ConnectPhase.waits] at h
    exact absurd h.symm Bool.false_ne_true
  · rename_i hphase _
    rw [hphase, ConnectPhase.waits] at h
    exact absurd h.symm Bool.false_ne_true
  · rfl

/-- Where nothing is asked, only what is held counts. -/
theorem agrees_of_waits (hwaits : client.phase.waits = false)
    (htoken : ∀ pollToken, client.phase.pollToken? = some pollToken →
      HoldsToken host s vars future pollToken)
    (hids : ∀ ids, client.phase.ids? = some ids → IsPaired host s vars ids) :
    Agrees host s vars future client client.asks := by
  rw [asks_of_waits hwaits]
  exact ⟨htoken, hids, hwaits⟩

theorem agrees_settle (client : ConnectState) (e : ConnectError) :
    Agrees host s vars future (client.settle (.error e)) (client.settle (.error e)).asks :=
  agrees_of_waits rfl (fun _ h => nomatch h) (fun _ h => nomatch h)

theorem agrees_completePairing (client : ConnectState) (resumed : Option JsNumber) :
    Agrees host s vars future (client.completePairing host.toConnectHost vars resumed)
      (client.completePairing host.toConnectHost vars resumed).asks := by
  unfold ConnectState.completePairing
  split
  · exact agrees_settle client _
  · rename_i body hbody
    have hasks : ConnectState.asks
        { client.note (.complete vars.endpoints.complete body) with phase := .completing resumed } =
          .asked (postJson completeSuffix body) := by
      rw [ConnectState.asks, show ConnectState.log _ = client.log ++ [_] from rfl,
        List.getLast?_concat]
    rw [hasks]
    exact ⟨fun _ h => (nomatch h), fun _ h => (nomatch h), .complete resumed body rfl hbody⟩

theorem agrees_onCompleted {resumed : Option JsNumber} {reply : Reply}
    (hphase : client.phase = .completing resumed)
    (h : Agrees host s vars future client (.answered reply)) :
    Agrees host s vars future (client.onCompleted vars resumed reply)
      (client.onCompleted vars resumed reply).asks := by
  have hheld := fun pollToken => h.wire.1 resumed pollToken hphase
  simp only [ConnectState.onCompleted]
  split
  · exact agrees_settle _ _
  · rename_i pollToken hok
    refine agrees_of_waits rfl ?_ (fun _ h => by cases h)
    intro other hother
    obtain rfl := Option.some.inj hother
    exact hheld pollToken hok
  · rename_i pollToken deadline hok
    refine agrees_of_waits rfl ?_ (fun _ h => by cases h)
    intro other hother
    obtain rfl := Option.some.inj hother
    exact hheld pollToken hok

theorem agrees_onPolled {poll : PollVars} {reply : Reply} (hphase : client.phase = .polling poll)
    (h : Agrees host s vars future client (.answered reply)) :
    Agrees host s vars future (client.onPolled host.toConnectHost vars poll reply)
      (client.onPolled host.toConnectHost vars poll reply).asks := by
  have hheld := h.token poll.pollToken (by rw [hphase]; rfl)
  simp only [ConnectState.onPolled]
  split
  · exact agrees_settle _ _
  · rename_i status body
    split
    · split
      · exact agrees_settle _ _
      · exact agrees_completePairing _ _
    · split
      · exact agrees_settle _ _
      · rename_i hstatus
        split
        · exact agrees_settle _ _
        · refine agrees_of_waits rfl ?_ (fun _ h => nomatch h)
          intro other hother
          obtain rfl := Option.some.inj hother
          exact hheld
        · exact agrees_settle _ _
        · rename_i ids hparse
          refine agrees_of_waits rfl (fun _ h => nomatch h) ?_
          intro other hother
          obtain rfl := Option.some.inj hother
          obtain ⟨value, rfl, hvalue⟩ := Option.bind_eq_some_iff.mp hparse
          exact h.wire.2 poll value ids hphase (by rw [Decidable.not_not.mp hstatus]) hvalue

/-- **The device goes on by an answer**, and the server agrees with what it takes from it. -/
theorem agrees_reply {reply : Reply} (h : Agrees host s vars future client (.answered reply)) :
    Agrees host s vars future (client.step host.toConnectHost vars (.reply reply))
      (client.step host.toConnectHost vars (.reply reply)).asks := by
  cases hphase : client.phase with
  | completing resumed =>
      have hstep : client.step host.toConnectHost vars (.reply reply) =
          client.onCompleted vars resumed reply := by simp only [ConnectState.step, hphase]
      rw [hstep]
      exact agrees_onCompleted hphase h
  | polling poll =>
      have hstep : client.step host.toConnectHost vars (.reply reply) =
          client.onPolled host.toConnectHost vars poll reply := by
        simp only [ConnectState.step, hphase]
      rw [hstep]
      exact agrees_onPolled hphase h
  | notifying | looping | sleeping | storing | writing | settled =>
      have hstep : client.step host.toConnectHost vars (.reply reply) = client := by
        simp only [ConnectState.step, hphase]
      rw [hstep]
      exact agrees_of_waits (by rw [hphase]; rfl) h.token h.ids

/-- An answer that never comes. -/
theorem agrees_lost (hwaits : client.phase.waits = true) :
    Agrees host s vars future (client.step host.toConnectHost vars (.reply .failed))
      (client.step host.toConnectHost vars (.reply .failed)).asks := by
  cases hphase : client.phase with
  | completing resumed =>
      have hstep : client.step host.toConnectHost vars (.reply .failed) =
          (client.note (.completed .failed)).settle (.error .outside) := by
        simp only [ConnectState.step, hphase, ConnectState.onCompleted, ConnectState.completed]
      rw [hstep]
      exact agrees_settle _ _
  | polling poll =>
      have hstep : client.step host.toConnectHost vars (.reply .failed) =
          (client.note (.polled .failed)).settle (.error .outside) := by
        simp only [ConnectState.step, hphase, ConnectState.onPolled]
      rw [hstep]
      exact agrees_settle _ _
  | notifying | looping | sleeping | storing | writing | settled =>
      rw [hphase] at hwaits
      exact absurd hwaits (by simp [ConnectPhase.waits])

theorem agrees_onLook {poll : PollVars} (hphase : client.phase = .looping poll)
    (h : Agrees host s vars future client .idle) (now : JsNumber) :
    Agrees host s vars future (client.onLook vars poll now) (client.onLook vars poll now).asks := by
  have hheld := h.token poll.pollToken (by rw [hphase]; rfl)
  unfold ConnectState.onLook
  simp only
  split
  · have hasks : ConnectState.asks
        { (client.note (.looked now)).note
            (.status vars.endpoints.status [(js "poll_token", .str poll.pollToken)]) with
          phase := .polling poll } =
          .asked (postJson statusSuffix [(js "poll_token", .str poll.pollToken)]) := by
      rw [ConnectState.asks, show ConnectState.log _ = (client.log ++ [_]) ++ [_] from rfl,
        List.getLast?_concat]
    rw [hasks]
    refine ⟨?_, fun _ h => (nomatch h), .status poll rfl⟩
    intro other hother
    obtain rfl := Option.some.inj hother
    exact hheld
  · exact agrees_settle _ _

/-- What comes back from the clock and the stores. -/
theorem agrees_input (h : Agrees host s vars future client .idle) {input : ConnectInput}
    (hinput : ∀ reply, input ≠ .reply reply) :
    Agrees host s vars future (client.step host.toConnectHost vars input)
      (client.step host.toConnectHost vars input).asks := by
  have hself : Agrees host s vars future client client.asks := agrees_of_waits h.wire h.token h.ids
  have hwaits := h.wire
  unfold ConnectState.step
  split
  · exact absurd rfl (hinput _)
  · rename_i pollToken ok now hphase
    have hheld := h.token pollToken (by rw [hphase]; rfl)
    unfold ConnectState.onShown
    split
    · refine agrees_of_waits rfl ?_ (fun _ h => nomatch h)
      intro other hother
      obtain rfl := Option.some.inj hother
      exact hheld
    · exact agrees_settle _ _
  · rename_i poll now hphase
    exact agrees_onLook hphase h now
  · exact absurd rfl (hinput _)
  · rename_i poll ok hphase
    have hheld := h.token poll.pollToken (by rw [hphase]; rfl)
    unfold ConnectState.onSlept
    split
    · refine agrees_of_waits rfl ?_ (fun _ h => nomatch h)
      intro other hother
      obtain rfl := Option.some.inj hother
      exact hheld
    · exact agrees_settle _ _
  · rename_i ids ok hphase
    have hpaired := h.ids ids (by rw [hphase]; rfl)
    unfold ConnectState.onStored
    split
    · refine agrees_of_waits rfl (fun _ h => nomatch h) ?_
      intro other hother
      obtain rfl := Option.some.inj hother
      exact hpaired
    · exact agrees_settle _ _
  · rename_i ids ok hphase
    have hpaired := h.ids ids (by rw [hphase]; rfl)
    unfold ConnectState.onWritten
    simp only
    split
    · refine agrees_of_waits rfl (fun _ h => nomatch h) ?_
      intro other hother
      obtain rfl := Option.some.inj hother
      exact hpaired
    · exact agrees_settle _ _
  · exact hself

/-! ### The whole ceremony -/

theorem HoldsToken.weaken {draws : List JsString} {pollToken : JsString}
    (h : HoldsToken host s vars (draws ++ future) pollToken) :
    HoldsToken host s vars future pollToken :=
  ⟨h.accepted, fun hc => h.unique (List.mem_append_right _ hc)⟩

theorem Agrees.weaken {draws : List JsString} {wire : Wire}
    (h : Agrees host s vars (draws ++ future) client wire) :
    Agrees host s vars future client wire := by
  refine ⟨fun pollToken hheld => (h.token pollToken hheld).weaken, h.ids, ?_⟩
  have hwire := h.wire
  cases wire with
  | idle => exact hwire
  | asked req => exact hwire
  | answered reply =>
      exact ⟨fun resumed pollToken hphase hok => (hwire.1 resumed pollToken hphase hok).weaken, hwire.2⟩

/-- The server agrees with a device. -/
def Party.Agreed (host : PairingHost) (s : PairingServer) (future : List JsString)
    (party : Party) : Prop :=
  Agrees host s party.vars future party.client party.wire

namespace Party

variable {party : Party}

theorem agreed_onInput (h : party.Agreed host s future) (input : ConnectInput) :
    (party.onInput host input).Agreed host s future := by
  unfold onInput
  split
  · exact h
  · rename_i hwire hnot
    unfold Agreed at h
    rw [hwire] at h
    exact agrees_input h fun reply hc => hnot reply hc
  · exact h

theorem agreed_onArrive (h : party.Agreed host s future) :
    (party.onArrive host).Agreed host s future := by
  unfold onArrive
  split
  · rename_i reply hwire
    unfold Agreed at h
    rw [hwire] at h
    exact agrees_reply h
  · exact h

theorem agreed_onLost (h : party.Agreed host s future) :
    (party.onLost host).Agreed host s future := by
  unfold onLost
  split
  · exact h
  · cases hwaits : party.client.phase.waits with
    | true => exact agrees_lost hwaits
    | false =>
        have hstep : party.client.step host.toConnectHost party.vars (.reply .failed) =
            party.client := by
          cases hphase : party.client.phase with
          | completing resumed => exact nomatch (congrArg ConnectPhase.waits hphase).symm.trans hwaits
          | polling poll => exact nomatch (congrArg ConnectPhase.waits hphase).symm.trans hwaits
          | _ => simp only [ConnectState.step, hphase]
        unfold Agreed step
        simp only [hstep]
        exact agrees_of_waits hwaits h.token h.ids

end Party

namespace Ceremony

variable {ι : Type} [DecidableEq ι] {c : Ceremony ι}

/-- The hashes of the tokens that are drawn in a run. -/
def draws (host : PairingHost) (events : List (CeremonyEvent ι)) : List JsString :=
  events.filterMap fun e => e.draw?.map (tokenHash host)

/-- The server fits together, and it agrees with every device. -/
structure Agreed (host : PairingHost) (opts : MockPairingOpts) (future : List JsString)
    (c : Ceremony ι) : Prop where
  server : Consistent host opts c.server
  parties : ∀ i, (c.parties i).Agreed host c.server future

/-- The server has taken a step of its own. -/
theorem agreed_atServer {draws : List JsString} {e : PairingServer.Event} {party : Party}
    (hserver : Consistent host opts s) (h : party.Agreed host s (draws ++ future))
    (hdraw : ∀ random, e.draw? = some random → tokenHash host random ∈ draws) :
    party.Agreed host (PairingServer.step host opts s e) future :=
  Agrees.moves h hserver (moves_step hserver.toIndexed e) hdraw

/-- **Every step of the ceremony keeps the agreement**, if the token it draws is a new one. -/
theorem agreed_step (hsimple : opts.simplePairing = false) {e : CeremonyEvent ι}
    {future : List JsString}
    (h : Agreed host opts ((e.draw?.map (tokenHash host)).toList ++ future) c)
    (hnew : ((e.draw?.map (tokenHash host)).toList ++ future).Nodup) :
    Agreed host opts future (c.step host opts e) := by
  obtain ⟨hserver, hparties⟩ := h
  cases e with
  | elsewhere e =>
      refine ⟨consistent_step hserver e, fun i => ?_⟩
      refine agreed_atServer hserver (hparties i) ?_
      intro random hrandom
      rw [show CeremonyEvent.draw? (CeremonyEvent.elsewhere e : CeremonyEvent ι) = some random from
        hrandom]
      exact List.mem_cons_self
  | deliver i clock random =>
      have hunique : tokenHash host random ∉ future := (List.nodup_cons.mp hnew).1
      cases hwire : (c.parties i).wire with
      | asked req =>
          have hserver' : (c.step host opts (.deliver i clock random)).server =
              (c.server.handle host opts req clock random).1 := by
            simp only [step, atServer?, Party.request?, hwire]
            rfl
          have hmoves : Moves host opts (.request req clock random) c.server
              (c.server.handle host opts req clock random).1 :=
            moves_handle hserver.toIndexed req clock random
          have hdraw : ∀ drawn, (PairingServer.Event.request req clock random).draw? = some drawn →
              tokenHash host drawn ∈ [tokenHash host random] := by
            intro drawn hdrawn
            rw [← Option.some.inj hdrawn]
            exact List.mem_cons_self
          refine ⟨?_, fun j => ?_⟩
          · rw [hserver']
            exact Moves.consistent hmoves hserver
          · rw [hserver']
            have hbefore : Agrees host (c.server.handle host opts req clock random).1
                (c.parties j).vars future (c.parties j).client (c.parties j).wire :=
              Agrees.moves (hparties j) hserver hmoves hdraw
            by_cases hj : j = i
            · subst hj
              have hasked := hparties j
              unfold Party.Agreed at hasked
              rw [hwire] at hasked
              have hparty : (c.step host opts (.deliver j clock random)).parties j =
                  { c.parties j with
                    wire := .answered
                      ((c.server.handle host opts req clock random).2.reply host.number) } := by
                simp only [step, onParty, if_true, Party.onDeliver, hwire]
              rw [hparty]
              exact ⟨hbefore.token, hbefore.ids,
                wireOk_deliver hserver hsimple hasked hunique clock⟩
            · have hparty : (c.step host opts (.deliver i clock random)).parties j = c.parties j := by
                simp only [step, onParty, if_neg hj]
              rw [hparty]
              exact hbefore
      | idle | answered =>
          have hserver' : (c.step host opts (.deliver i clock random)).server = c.server := by
            simp only [step, atServer?, Party.request?, hwire]
            rfl
          have hparty : ∀ j, (c.step host opts (.deliver i clock random)).parties j = c.parties j := by
            intro j
            simp only [step, onParty]
            split
            · rename_i hj
              rw [hj]
              simp only [Party.onDeliver, hwire]
            · rfl
          refine ⟨hserver' ▸ hserver, fun j => ?_⟩
          rw [hserver', hparty]
          exact Agrees.weaken (hparties j)
  | arrive i =>
      refine ⟨hserver, fun j => ?_⟩
      show (if j = i then (c.parties j).onArrive host else c.parties j).Agreed host c.server future
      split
      · exact Party.agreed_onArrive (hparties j)
      · exact hparties j
  | lost i =>
      refine ⟨hserver, fun j => ?_⟩
      show (if j = i then (c.parties j).onLost host else c.parties j).Agreed host c.server future
      split
      · exact Party.agreed_onLost (hparties j)
      · exact hparties j
  | input i input =>
      refine ⟨hserver, fun j => ?_⟩
      show (if j = i then (c.parties j).onInput host input else c.parties j).Agreed host c.server
        future
      split
      · exact Party.agreed_onInput (hparties j) input
      · exact hparties j

theorem agreed_run (hsimple : opts.simplePairing = false) (events : List (CeremonyEvent ι))
    (h : Agreed host opts (draws host events) c) (hnew : (draws host events).Nodup) :
    Agreed host opts [] (Machine.run (step host opts) c events) := by
  induction events generalizing c with
  | nil => exact h
  | cons e rest ih =>
      have hdraws : draws host (e :: rest) =
          (e.draw?.map (tokenHash host)).toList ++ draws host rest := by
        rw [draws, List.filterMap_cons]
        cases e.draw?.map (tokenHash host) <;> rfl
      rw [hdraws] at h hnew
      exact ih (agreed_step hsimple h hnew) (List.nodup_append.mp hnew).2.1

/-! ### From the start -/

/-- Devices that have begun to pair, and a server at which anything may have happened. -/
structure Starts (host : PairingHost) (opts : MockPairingOpts) (port : Nat)
    (before : List PairingServer.Event) (connects : ι → ConnectOptions × JsNumber × Seed)
    (c : Ceremony ι) : Prop where
  server : c.server = PairingServer.after host opts port before
  parties : ∀ i, ∃ p, connect host.toConnectHost (connects i).1 (connects i).2.1 (connects i).2.2 =
    .ok p ∧ c.parties i = .start p

theorem agreed_start {p : Pairing} {connectOpts : ConnectOptions} {now : JsNumber} {seed : Seed}
    (h : connect host.toConnectHost connectOpts now seed = .ok p) :
    (Party.start p).Agreed host s future ∧ p.vars.publicRaw = host.publicRaw seed := by
  unfold connect at h
  cases hvars : connectVars host.toConnectHost connectOpts now with
  | error e =>
      rw [hvars] at h
      exact nomatch h
  | ok parts =>
      obtain ⟨token, canonicalOrigin, endpoints⟩ := parts
      rw [hvars] at h
      simp only [bind, Except.bind, pure, Except.pure] at h
      split at h
      · obtain rfl := Except.ok.inj h
        exact ⟨agrees_settle _ _, rfl⟩
      · obtain rfl := Except.ok.inj h
        exact ⟨agrees_completePairing _ _, rfl⟩

theorem vars_step (c : Ceremony ι) (e : CeremonyEvent ι) (i : ι) :
    ((c.step host opts e).parties i).vars = (c.parties i).vars := by
  cases e with
  | elsewhere e => rfl
  | deliver j clock random =>
      simp only [step, onParty]
      split
      · unfold Party.onDeliver
        split <;> rfl
      · rfl
  | arrive j =>
      simp only [step, onParty]
      split
      · unfold Party.onArrive
        split <;> rfl
      · rfl
  | lost j =>
      simp only [step, onParty]
      split
      · unfold Party.onLost
        split <;> rfl
      · rfl
  | input j input =>
      simp only [step, onParty]
      split
      · unfold Party.onInput
        split <;> rfl
      · rfl

theorem vars_run (c : Ceremony ι) (events : List (CeremonyEvent ι)) (i : ι) :
    ((Machine.run (step host opts) c events).parties i).vars = (c.parties i).vars := by
  induction events generalizing c with
  | nil => rfl
  | cons e rest ih => exact (ih _).trans (vars_step c e i)

/-- What a device that is done has at the server. -/
theorem paired_run {port : Nat} {before : List PairingServer.Event}
    {connects : ι → ConnectOptions × JsNumber × Seed} (hsimple : opts.simplePairing = false)
    (hstart : Starts host opts port before connects c) (events : List (CeremonyEvent ι))
    (hnew : (draws host events).Nodup) {i : ι} {result : PairingResult}
    (hdone : ((Machine.run (step host opts) c events).parties i).client.phase =
      .settled (.ok result)) :
    IsPaired host (Machine.run (step host opts) c events).server (c.parties i).vars result.ids ∧
      (c.parties i).vars.publicRaw = host.publicRaw (connects i).2.2 := by
  have hagreed : Agreed host opts (draws host events) c := by
    refine ⟨hstart.server ▸ consistent_after host opts port before, fun j => ?_⟩
    obtain ⟨p, hp, hparty⟩ := hstart.parties j
    rw [hparty]
    exact (agreed_start hp).1
  obtain ⟨p, hp, hparty⟩ := hstart.parties i
  have hids := ((agreed_run hsimple events hagreed hnew).parties i).ids result.ids
    (by rw [hdone]; rfl)
  rw [vars_run] at hids
  refine ⟨hids, ?_⟩
  rw [hparty]
  have hagreed' : (Party.start p).Agreed host c.server (draws host events) ∧ _ := agreed_start hp
  exact hagreed'.2

/-- **Agreement.**  Whatever else happens at the server and whatever is lost, as long as no two poll
tokens that are drawn have one hash, a device whose `connect` returns is the winner of the row of
its secret, the row is active, and the ids it returns are the row's. -/
theorem ceremony_agrees {port : Nat} {before : List PairingServer.Event}
    {connects : ι → ConnectOptions × JsNumber × Seed} (hsimple : opts.simplePairing = false)
    (hstart : Starts host opts port before connects c) (events : List (CeremonyEvent ι))
    (hnew : (draws host events).Nodup) (i : ι) (result : PairingResult)
    (hdone : ((Machine.run (step host opts) c events).parties i).client.phase =
      .settled (.ok result)) :
    ∃ row, (Machine.run (step host opts) c events).server.rows.find? row.id = some row ∧
      row.winningPublicKey = some (host.publicRaw (connects i).2.2) ∧
      row.secretHash = sha256Hex host.toConnectHost (c.parties i).vars.token.secret ∧
      row.state = .active ∧ row.ids = result.ids := by
  obtain ⟨⟨row, hrow, hwinner, hsecret, hconfirmed, hids⟩, hkey⟩ :=
    paired_run hsimple hstart events hnew hdone
  simp only [PairingRow.isConfirmed, Bool.and_eq_true, decide_eq_true_eq] at hconfirmed
  exact ⟨row, hrow, by rw [← hkey, hwinner], hsecret, hconfirmed.1.1, hids⟩

end Ceremony

/-! ### A pairing on the local port -/

/-- The key of the seed that counts from 0. -/
def countingKey : List UInt8 := countingHost.publicRaw countingSeed

/-- Digests, of the key and of the texts of 32 equal bytes. -/
def localDigests : List (List UInt8 × List UInt8) :=
  [(countingKey, countingHost.sha256 countingKey),
    (utf8Encode (toBase64Url (List.replicate 32 7)),
      [220, 75, 248, 12, 119, 71, 61, 19, 15, 160, 222, 134, 186, 64, 24, 254, 152, 187, 33, 64,
        5, 230, 165, 137, 29, 18, 186, 145, 68, 111, 158, 129]),
    (utf8Encode (toBase64Url (List.replicate 32 8)),
      [206, 158, 197, 129, 34, 22, 76, 130, 74, 67, 224, 69, 47, 251, 186, 61, 166, 148, 105, 75,
        68, 86, 59, 92, 84, 137, 66, 219, 184, 171, 142, 20]),
    (utf8Encode (toBase64Url (List.replicate 32 9)),
      [131, 205, 33, 62, 70, 138, 47, 186, 219, 82, 150, 35, 214, 155, 211, 104, 58, 251, 143, 19,
        161, 240, 171, 195, 22, 125, 52, 107, 222, 48, 55, 25]),
    (utf8Encode (toBase64Url (List.replicate 32 10)),
      [94, 169, 5, 173, 142, 250, 24, 127, 147, 64, 146, 33, 32, 237, 160, 181, 70, 37, 109, 108,
        145, 185, 69, 71, 254, 80, 171, 77, 238, 18, 7, 85]),
    (utf8Encode (toBase64Url (List.replicate 32 11)),
      [241, 253, 28, 176, 141, 203, 82, 108, 180, 78, 200, 62, 57, 42, 252, 1, 15, 206, 112, 6,
        126, 216, 15, 107, 60, 101, 188, 233, 39, 245, 235, 166])]

/-- The signature of the completion on this port. -/
def localSignature : List UInt8 :=
  [34, 189, 19, 221, 28, 167, 152, 23, 238, 173, 113, 221, 49, 200, 98, 75, 82, 152, 172, 129,
    115, 91, 119, 223, 46, 244, 205, 146, 197, 173, 84, 103, 209, 56, 36, 21, 152, 102, 187, 91,
    201, 27, 186, 85, 237, 236, 118, 152, 172, 231, 79, 92, 56, 26, 186, 62, 134, 197, 235, 192,
    234, 82, 75, 7]

def localHost : PairingHost where
  number d := .finite d
  idna := plainIdna
  sha256 bytes := ((localDigests.find? fun e => e.1 = bytes).map Prod.snd).getD (List.replicate 32 0)
  publicRaw _ := countingKey
  sign _ _ := localSignature
  configFilePath := countingHost.configFilePath
  verify key _ signature := key = countingKey && signature = localSignature

def plainOpts : MockPairingOpts where
  tenantId := none
  userId := none
  createdByUserId := none
  agentId := none
  keyId := none
  tokenTtlMs := none
  pendingTtlMs := none
  activePollTokenTtlMs := none
  attemptCap := none
  deviceCap := none
  pollTokenCap := none
  bodyLimitBytes := none
  confirmAfterStatusPolls := none
  forceValidStatus404s := none
  forceWrongFingerprint := false
  pendingPolls := none
  simplePairing := false
  capabilityStatus := none
  capabilityBody := none
  simpleCompleteStatus := none
  simpleCompleteBody := none

/-- One secret is minted at the beginning. -/
def localMint : PairingServer.Event :=
  .mint ⟨none, none, none, none, none, none⟩ 0 (Vector.replicate 32 7)

/-- The token that is minted then. -/
def localConnect : ConnectOptions where
  token := mintedToken (js "ws://127.0.0.1:8787") (toBase64Url (List.replicate 32 7)) 300
  configPath := none
  pollIntervalMs := none
  pollDeadlineMs := none

namespace Ceremony

/-- A completion, the answer of the user, and one request for the status. -/
def localEvents {ι : Type} (i : ι) (first second : UInt8) : List (CeremonyEvent ι) :=
  [.deliver i (fun _ => 1000) (Vector.replicate 32 first), .arrive i,
    .input i (.shown true (.ofInt 1000)), .elsewhere (.confirm (fun _ => 2000) 2000),
    .input i (.look (.ofInt 3000)), .deliver i (fun _ => 3000) (Vector.replicate 32 second),
    .arrive i, .input i (.stored true), .input i (.written true)]

/-- Everyone has the token. -/
def begun (ι : Type) (p : Pairing) : Ceremony ι :=
  ⟨PairingServer.after localHost plainOpts 8787 [localMint], fun _ => .start p⟩

/-- What `connect` has returned. -/
def returned {ι : Type} (c : Ceremony ι) (i : ι) : Option PairingResult :=
  match (c.parties i).client.phase with
  | .settled (.ok result) => some result
  | _ => none

theorem phase_of_returned {ι : Type} {c : Ceremony ι} {i : ι} {result : PairingResult}
    (h : c.returned i = some result) : (c.parties i).client.phase = .settled (.ok result) := by
  unfold returned at h
  split at h
  · rename_i hphase
    rw [hphase, Option.some.inj h]
  · exact nomatch h

theorem local_agrees : ∃ (p : Pairing) (result : PairingResult) (row : PairingRow),
    connect localHost.toConnectHost localConnect (.ofInt 1000) countingSeed = .ok p ∧
    (Machine.run (step localHost plainOpts) (begun Unit p) (localEvents () 8 9)).server.rows.find?
      row.id = some row ∧
    row.winningPublicKey = some countingKey ∧ row.state = .active ∧ row.ids = result.ids := by
  have hreturned : ((connect localHost.toConnectHost localConnect (.ofInt 1000)
      countingSeed).toOption.any fun p => ((Machine.run (step localHost plainOpts) (begun Unit p)
        (localEvents () 8 9)).returned ()).isSome) = true := by decide +kernel
  cases hconnect : connect localHost.toConnectHost localConnect (.ofInt 1000) countingSeed with
  | error e =>
      rw [hconnect] at hreturned
      exact nomatch hreturned
  | ok p =>
      rw [hconnect] at hreturned
      obtain ⟨result, hresult⟩ := Option.isSome_iff_exists.mp hreturned
      have hstart : Starts localHost plainOpts 8787 [localMint]
          (fun _ => (localConnect, .ofInt 1000, countingSeed)) (begun Unit p) :=
        ⟨rfl, fun _ => ⟨p, hconnect, rfl⟩⟩
      obtain ⟨row, hrow, hwinner, -, hactive, hids⟩ := ceremony_agrees rfl hstart
        (localEvents () 8 9) (by decide +kernel) () result (phase_of_returned hresult)
      exact ⟨p, result, row, rfl, hrow, hwinner, hactive, hids⟩

end Ceremony

end HuginAgent
