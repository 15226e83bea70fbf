/-
What pairing leaves behind.

The stores are touched at two places of `connect` only, and what must have happened before is
read off its log: a request for the status that was sent in time and found the pairing active,
and before that nothing but completions that named the fingerprint of the key.  `Sound` is the
invariant.  It says of each phase how far the log has got, and of the whole log that every
touch of a store is in order.
-/
import HuginAgent.Auth.Connect
import HuginAgent.Kit.Machine
import HuginAgent.Protocol.Agreement

namespace HuginAgent

namespace ConnectEvent

def isCompletion : ConnectEvent → Bool
  | .complete _ _ => true
  | _ => false

def setsDeadline : ConnectEvent → Bool
  | .deadlineSet _ _ => true
  | _ => false

/-- The seed store or the config is written. -/
def isStore : ConnectEvent → Bool
  | .seedStoreSet _ _ | .writePairingConfig _ _ => true
  | _ => false

end ConnectEvent

section

variable (host : ConnectHost) (vars : PairingVars) (seed : Seed)

/-! ### What is confirmed -/

/-- The reply is a 202 that names the fingerprint of the key. -/
def Confirms (reply : Reply) : Prop :=
  ∃ value complete, reply = .response 202 (some value) ∧
    parseCompleteResponse value = some complete ∧
    keyFingerprint host (host.publicRaw seed) = some complete.fingerprint

/-- The last reply is a 200 to a status request sent before the deadline, and it activates the
pairing with these ids. -/
def Activates (before : List ConnectEvent) (ids : PairedIds) : Prop :=
  ∃ earlier start now deadline body value,
    before = earlier ++
      [.looked now, .status vars.endpoints.status body, .polled (.response 200 (some value))] ∧
    .deadlineSet start deadline ∈ earlier ∧ deadline = start.add host.number vars.pollDeadlineMs ∧
    now.lt deadline = true ∧ parseStatusResponse value = some (.active ids)

/-- The identity is confirmed: the pairing is active, and every completion named the key. -/
structure IsConfirmed (before : List ConnectEvent) (ids : PairedIds) : Prop where
  completions : ∀ reply, .completed reply ∈ before → Confirms host seed reply
  active : Activates host vars before ids

/-- A store is touched only with a confirmed identity, and the config only after the seed. -/
def InOrder (before : List ConnectEvent) : ConnectEvent → Prop
  | .seedStoreSet keyId stored =>
      stored = seed ∧ ∃ ids, IsConfirmed host vars seed before ids ∧ keyId = ids.keyId
  | .writePairingConfig _ cfg =>
      ∃ earlier ids, before = earlier ++ [.seedStoreSet ids.keyId seed, .seedStored] ∧
        IsConfirmed host vars seed earlier ids ∧
        cfg = ⟨vars.token.origin, ids.agentId, ids.keyId, ids.tenantId⟩
  | _ => True

/-! ### The invariant -/

/-- There is one deadline, and it is this one. -/
def IsDeadline (log : List ConnectEvent) (deadline : JsNumber) : Prop :=
  log.countP ConnectEvent.setsDeadline = 1 ∧
    ∃ start, .deadlineSet start deadline ∈ log ∧
      deadline = start.add host.number vars.pollDeadlineMs

/-- What the phase says of the deadline. -/
def DeadlineOk (log : List ConnectEvent) : ConnectPhase → Prop
  | .completing none | .notifying _ => log.countP ConnectEvent.setsDeadline = 0
  | .completing (some deadline) => IsDeadline host vars log deadline
  | .looping poll | .polling poll | .sleeping poll => IsDeadline host vars log poll.deadline
  | .storing _ | .writing _ | .settled _ => log.countP ConnectEvent.setsDeadline ≤ 1

/-- How many completion requests there can have been. -/
def ConnectPhase.completions : ConnectPhase → Nat
  | .completing none | .notifying _ => 1
  | .looping poll | .polling poll | .sleeping poll =>
      if poll.recoveredFromMissingPollToken then 2 else 1
  | .completing (some _) | .storing _ | .writing _ | .settled _ => 2

/-- The pairing is under way: nothing is known yet against the key. -/
structure Underway (s : ConnectState) : Prop where
  held : s.seed = seed
  fingerprint : keyFingerprint host (host.publicRaw seed) = some vars.localFingerprint
  confirmed : ∀ reply, .completed reply ∈ s.log → Confirms host seed reply

/-- What the phase says of the log and the seed. -/
def PhaseOk (s : ConnectState) : Prop :=
  match s.phase with
  | .completing _ | .notifying _ | .looping _ | .sleeping _ => Underway host vars seed s
  | .polling poll =>
      Underway host vars seed s ∧ ∃ earlier start now body,
        s.log = earlier ++ [.looked now, .status vars.endpoints.status body] ∧
        .deadlineSet start poll.deadline ∈ earlier ∧
        poll.deadline = start.add host.number vars.pollDeadlineMs ∧ now.lt poll.deadline = true
  | .storing ids =>
      s.seed = seed ∧ ∃ before, s.log = before ++ [.seedStoreSet ids.keyId seed] ∧
        IsConfirmed host vars seed before ids
  | .writing _ => s.seed = seed
  | .settled _ => s.seed = .zero

structure Sound (s : ConnectState) : Prop where
  inOrder : Logged (InOrder host vars seed) s.log
  completions : s.log.countP ConnectEvent.isCompletion ≤ s.phase.completions
  deadline : DeadlineOk host vars s.log s.phase
  phase : PhaseOk host vars seed s

end

variable {host : ConnectHost} {vars : PairingVars} {seed : Seed} {s : ConnectState}

theorem ConnectPhase.completions_le (phase : ConnectPhase) : phase.completions ≤ 2 := by
  unfold completions
  split <;> (try split) <;> omega

theorem deadline_le {log : List ConnectEvent} {phase : ConnectPhase}
    (h : DeadlineOk host vars log phase) : log.countP ConnectEvent.setsDeadline ≤ 1 := by
  unfold DeadlineOk at h
  split at h <;> first | exact h | exact Nat.le_of_eq h.1 | omega

/-! ### Writing down -/

theorem inOrder_note (h : Logged (InOrder host vars seed) s.log) {e : ConnectEvent}
    (he : InOrder host vars seed s.log e) : Logged (InOrder host vars seed) (s.note e).log :=
  logged_concat.mpr ⟨h, he⟩

theorem completions_note {e : ConnectEvent} (he : e.isCompletion = false) :
    (s.note e).log.countP ConnectEvent.isCompletion = s.log.countP ConnectEvent.isCompletion := by
  show (s.log ++ [e]).countP ConnectEvent.isCompletion = _
  rw [List.countP_append, List.countP_cons, List.countP_nil, he]
  rfl

theorem deadlines_append {log : List ConnectEvent} {e : ConnectEvent}
    (he : e.setsDeadline = false) :
    (log ++ [e]).countP ConnectEvent.setsDeadline = log.countP ConnectEvent.setsDeadline := by
  rw [List.countP_append, List.countP_cons, List.countP_nil, he]
  rfl

theorem IsDeadline.append {log : List ConnectEvent} {deadline : JsNumber}
    (h : IsDeadline host vars log deadline) {e : ConnectEvent} (he : e.setsDeadline = false) :
    IsDeadline host vars (log ++ [e]) deadline := by
  obtain ⟨hone, start, hmem, hsum⟩ := h
  exact ⟨(deadlines_append he).trans hone, start, List.mem_append_left _ hmem, hsum⟩

theorem deadlineOk_note (phase : ConnectPhase) (h : DeadlineOk host vars s.log phase)
    {e : ConnectEvent} (he : e.setsDeadline = false) :
    DeadlineOk host vars (s.note e).log phase := by
  show DeadlineOk host vars (s.log ++ [e]) phase
  unfold DeadlineOk at h ⊢
  split at h
  · exact (deadlines_append he).trans h
  · exact (deadlines_append he).trans h
  · exact h.append he
  · exact h.append he
  · exact h.append he
  · exact h.append he
  · exact (deadlines_append he).trans_le h
  · exact (deadlines_append he).trans_le h
  · exact (deadlines_append he).trans_le h

theorem Underway.note (h : Underway host vars seed s) {e : ConnectEvent}
    (he : ∀ reply, e = .completed reply → Confirms host seed reply) :
    Underway host vars seed (s.note e) := by
  refine ⟨h.held, h.fingerprint, ?_⟩
  intro reply hreply
  rcases List.mem_append.mp hreply with hmem | hmem
  · exact h.confirmed reply hmem
  · exact he reply (List.mem_singleton.mp hmem).symm

/-- A reply that `completePairing` lets through names the key. -/
theorem confirms_of_completed (h : Underway host vars seed s) {reply : Reply} {pollToken : JsString}
    (hok : ConnectState.completed vars reply = .ok pollToken) : Confirms host seed reply := by
  cases reply with
  | failed => exact nomatch hok
  | response status body =>
      simp only [ConnectState.completed] at hok
      split at hok
      · exact nomatch hok
      · rename_i hstatus
        split at hok
        · exact nomatch hok
        · rename_i complete hbody
          obtain ⟨value, rfl, hvalue⟩ := Option.bind_eq_some_iff.mp hbody
          split at hok
          · exact nomatch hok
          · rename_i hfingerprint
            refine ⟨value, complete, by rw [Decidable.not_not.mp hstatus], hvalue, ?_⟩
            rw [h.fingerprint, Decidable.not_not.mp hfingerprint]

/-! ### One step -/

/-- However `connect` settles, the seed is gone. -/
theorem sound_settle (hin : Logged (InOrder host vars seed) s.log)
    (hcompletions : s.log.countP ConnectEvent.isCompletion ≤ 2)
    (hdeadline : s.log.countP ConnectEvent.setsDeadline ≤ 1)
    (outcome : Except ConnectError PairingResult) : Sound host vars seed (s.settle outcome) :=
  ⟨hin, hcompletions, hdeadline, rfl⟩

/-- A request for completion, as long as one is left. -/
theorem sound_completePairing (hin : Logged (InOrder host vars seed) s.log)
    (hunder : Underway host vars seed s) {resumed : Option JsNumber}
    (hcompletions : s.log.countP ConnectEvent.isCompletion + 1 ≤
      (ConnectPhase.completing resumed).completions)
    (hdeadline : DeadlineOk host vars s.log (.completing resumed)) :
    Sound host vars seed (s.completePairing host vars resumed) := by
  have hle := (ConnectPhase.completing resumed).completions_le
  unfold ConnectState.completePairing
  split
  · exact sound_settle hin (by omega) (deadline_le hdeadline) _
  · rename_i body hbody
    refine ⟨inOrder_note hin trivial, ?_, deadlineOk_note _ hdeadline rfl, ?_⟩
    · show (s.log ++ [_]).countP ConnectEvent.isCompletion ≤ _
      rw [List.countP_append, List.countP_cons, List.countP_nil]
      exact hcompletions
    · have hnote := hunder.note (e := .complete vars.endpoints.complete body)
        (fun reply h => nomatch h)
      exact ⟨hnote.held, hnote.fingerprint, hnote.confirmed⟩

theorem sound_onCompleted (h : Sound host vars seed s) {resumed : Option JsNumber}
    (hphase : s.phase = .completing resumed) (reply : Reply) :
    Sound host vars seed (s.onCompleted vars resumed reply) := by
  have hunder : Underway host vars seed s := by
    have := h.phase
    rw [PhaseOk, hphase] at this
    exact this
  have hin := inOrder_note h.inOrder (e := .completed reply) trivial
  have hcount := completions_note (s := s) (e := .completed reply) rfl
  have hdeadline := deadlineOk_note _ h.deadline (e := .completed reply) rfl
  have hcompletions := h.completions
  rw [hphase] at hdeadline hcompletions
  have hle := (ConnectPhase.completing resumed).completions_le
  simp only [ConnectState.onCompleted]
  split
  · exact sound_settle hin (by omega) (deadline_le hdeadline) _
  · rename_i pollToken hok
    have hnote := (hunder.note (e := .completed reply) fun r hr => by
      obtain rfl := ConnectEvent.completed.inj hr
      exact confirms_of_completed hunder hok).note (e := .onFingerprint vars.localFingerprint)
        (fun r hr => nomatch hr)
    refine ⟨inOrder_note hin trivial, ?_, deadlineOk_note (.notifying pollToken) hdeadline rfl,
      ⟨hnote.held, hnote.fingerprint, hnote.confirmed⟩⟩
    exact (completions_note (s := s.note (.completed reply)) rfl).trans_le (hcount.trans_le hcompletions)
  · rename_i pollToken deadline hok
    have hnote := hunder.note (e := .completed reply) fun r hr => by
      obtain rfl := ConnectEvent.completed.inj hr
      exact confirms_of_completed hunder hok
    exact ⟨hin, hcount.trans_le hcompletions, hdeadline,
      ⟨hnote.held, hnote.fingerprint, hnote.confirmed⟩⟩

theorem sound_onShown (h : Sound host vars seed s) {pollToken : JsString}
    (hphase : s.phase = .notifying pollToken) (ok : Bool) (now : JsNumber) :
    Sound host vars seed (s.onShown host vars pollToken ok now) := by
  have hunder := h.phase
  have hzero := h.deadline
  have hone := h.completions
  rw [PhaseOk, hphase] at hunder
  rw [hphase] at hzero hone
  simp only [DeadlineOk] at hzero
  unfold ConnectState.onShown
  split
  · have hnote := hunder.note
      (e := .deadlineSet now (now.add host.number vars.pollDeadlineMs)) (fun r hr => nomatch hr)
    refine ⟨inOrder_note h.inOrder trivial, (completions_note rfl).trans_le hone, ?_,
      ⟨hnote.held, hnote.fingerprint, hnote.confirmed⟩⟩
    refine ⟨?_, now, List.mem_append_right _ (List.mem_singleton_self _), rfl⟩
    show (s.log ++ [_]).countP ConnectEvent.setsDeadline = 1
    rw [List.countP_append, hzero]
    rfl
  · exact sound_settle h.inOrder (hone.trans (ConnectPhase.completions_le (.notifying pollToken))) (by omega) _

theorem sound_onLook (h : Sound host vars seed s) {poll : PollVars}
    (hphase : s.phase = .looping poll) (now : JsNumber) :
    Sound host vars seed (s.onLook vars poll now) := by
  have hunder := h.phase
  have hdeadline := h.deadline
  have hcompletions := h.completions
  rw [PhaseOk, hphase] at hunder
  rw [hphase] at hdeadline hcompletions
  have hin := inOrder_note h.inOrder (e := .looked now) trivial
  have hcount := completions_note (s := s) (e := .looked now) rfl
  have hnoted := deadlineOk_note _ hdeadline (e := .looked now) rfl
  unfold ConnectState.onLook
  simp only
  split
  · rename_i hlt
    obtain ⟨-, start, hstart, hsum⟩ := hdeadline
    have hnote := (hunder.note (e := .looked now) (fun r hr => nomatch hr)).note
      (e := .status vars.endpoints.status [(js "poll_token", .str poll.pollToken)])
      (fun r hr => nomatch hr)
    refine ⟨inOrder_note hin trivial, ?_, deadlineOk_note (.polling poll) hnoted rfl,
      ⟨hnote.held, hnote.fingerprint, hnote.confirmed⟩, s.log, start, now, _,
      List.append_assoc s.log _ _, hstart, hsum, hlt⟩
    exact (completions_note (s := s.note (.looked now)) rfl).trans_le (hcount.trans_le hcompletions)
  · have hle := (ConnectPhase.looping poll).completions_le
    exact sound_settle hin (by omega) (deadline_le hnoted) _

/-- A reply to a status request that activates the pairing is what a store waits for. -/
theorem isConfirmed_of_polled (h : Sound host vars seed s) {poll : PollVars}
    (hphase : s.phase = .polling poll) {value : JsValue} {ids : PairedIds}
    (hactive : parseStatusResponse value = some (.active ids)) :
    IsConfirmed host vars seed (s.note (.polled (.response 200 (some value)))).log ids := by
  have hwaits := h.phase
  rw [PhaseOk, hphase] at hwaits
  obtain ⟨hunder, earlier, start, now, body, hlog, hstart, hsum, hlt⟩ := hwaits
  refine ⟨(hunder.note (e := .polled _) (fun r hr => nomatch hr)).confirmed, ?_⟩
  refine ⟨earlier, start, now, poll.deadline, body, value, ?_, hstart, hsum, hlt, hactive⟩
  show s.log ++ [_] = _
  rw [hlog, List.append_assoc]
  rfl

theorem sound_onPolled (h : Sound host vars seed s) {poll : PollVars}
    (hphase : s.phase = .polling poll) (reply : Reply) :
    Sound host vars seed (s.onPolled host vars poll reply) := by
  have hunder := h.phase
  have hdeadline := h.deadline
  have hcompletions := h.completions
  rw [PhaseOk, hphase] at hunder
  rw [hphase] at hdeadline hcompletions
  have hin := inOrder_note h.inOrder (e := .polled reply) trivial
  have hcount := completions_note (s := s) (e := .polled reply) rfl
  have hnoted := deadlineOk_note _ hdeadline (e := .polled reply) rfl
  have hnote := hunder.1.note (e := .polled reply) (fun r hr => nomatch hr)
  have hsettle : ∀ outcome, Sound host vars seed ((s.note (.polled reply)).settle outcome) := by
    have hle := (ConnectPhase.polling poll).completions_le
    exact sound_settle hin (by omega) (deadline_le hnoted)
  unfold ConnectState.onPolled
  cases reply with
  | failed => exact hsettle _
  | response status body =>
      simp only
      split
      · split
        · exact hsettle _
        · rename_i hfirst
          refine sound_completePairing hin hnote ?_ hnoted
          rw [ConnectPhase.completions, if_neg hfirst] at hcompletions
          show _ + 1 ≤ 2
          omega
      · split
        · exact hsettle _
        · rename_i hstatus
          split
          · exact hsettle _
          · have hsleep := hnote.note (e := .sleep vars.pollIntervalMs) (fun r hr => nomatch hr)
            refine ⟨inOrder_note hin trivial, ?_,
              deadlineOk_note (.sleeping poll) hnoted rfl,
              ⟨hsleep.held, hsleep.fingerprint, hsleep.confirmed⟩⟩
            exact (completions_note (s := s.note (.polled _)) rfl).trans_le
              (hcount.trans_le hcompletions)
          · exact hsettle _
          · rename_i ids hbody
            obtain ⟨value, rfl, hactive⟩ := Option.bind_eq_some_iff.mp hbody
            obtain rfl := Decidable.not_not.mp hstatus
            have hconfirmed := isConfirmed_of_polled h hphase hactive
            have hle := (ConnectPhase.polling poll).completions_le
            refine ⟨inOrder_note hin ⟨hnote.held, ids, hconfirmed, rfl⟩, ?_, ?_, hnote.held, _, ?_,
              hconfirmed⟩
            · exact (completions_note (s := s.note (.polled _)) rfl).trans_le (by
                show _ ≤ 2
                omega)
            · exact (deadlines_append rfl).trans_le (deadline_le hnoted)
            · show _ ++ [ConnectEvent.seedStoreSet ids.keyId (s.note _).seed] = _
              rw [hnote.held]

theorem sound_onSlept (h : Sound host vars seed s) {poll : PollVars}
    (hphase : s.phase = .sleeping poll) (ok : Bool) : Sound host vars seed (s.onSlept poll ok) := by
  have hunder := h.phase
  have hdeadline := h.deadline
  have hcompletions := h.completions
  rw [PhaseOk, hphase] at hunder
  rw [hphase] at hdeadline hcompletions
  unfold ConnectState.onSlept
  split
  · exact ⟨h.inOrder, hcompletions, hdeadline, hunder.held, hunder.fingerprint, hunder.confirmed⟩
  · have hle := (ConnectPhase.sleeping poll).completions_le
    exact sound_settle h.inOrder (by omega) (deadline_le hdeadline) _

theorem sound_onStored (horigin : vars.canonicalOrigin = vars.token.origin)
    (h : Sound host vars seed s) {ids : PairedIds} (hphase : s.phase = .storing ids) (ok : Bool) :
    Sound host vars seed (s.onStored vars ids ok) := by
  have hstoring := h.phase
  have hdeadline := h.deadline
  have hcompletions := h.completions
  rw [PhaseOk, hphase] at hstoring
  rw [hphase] at hdeadline hcompletions
  obtain ⟨hheld, before, hlog, hconfirmed⟩ := hstoring
  unfold ConnectState.onStored
  split
  · have hin := inOrder_note h.inOrder (e := .seedStored) trivial
    have hcount := completions_note (s := s) (e := .seedStored) rfl
    refine ⟨inOrder_note hin ⟨before, ids, ?_, hconfirmed, by rw [horigin]⟩, ?_, ?_, hheld⟩
    · show s.log ++ [ConnectEvent.seedStored] = _
      rw [hlog, List.append_assoc]
      rfl
    · exact (completions_note (s := s.note .seedStored) rfl).trans_le (hcount.trans_le hcompletions)
    · exact (deadlines_append rfl).trans_le ((deadlines_append rfl).trans_le hdeadline)
  · exact sound_settle h.inOrder hcompletions hdeadline _

theorem sound_onWritten (h : Sound host vars seed s) {ids : PairedIds}
    (hphase : s.phase = .writing ids) (ok : Bool) :
    Sound host vars seed (s.onWritten vars ids ok) := by
  have hdeadline := h.deadline
  have hcompletions := h.completions
  rw [hphase] at hdeadline hcompletions
  unfold ConnectState.onWritten
  simp only
  split
  · exact sound_settle h.inOrder hcompletions hdeadline _
  · exact sound_settle h.inOrder hcompletions hdeadline _

/-- **Whatever comes back, every touch of a store stays in order.** -/
theorem pairing_step (horigin : vars.canonicalOrigin = vars.token.origin)
    (h : Sound host vars seed s) (input : ConnectInput) :
    Sound host vars seed (s.step host vars input) := by
  unfold ConnectState.step
  split
  · rename_i hphase
    exact sound_onCompleted h hphase _
  · rename_i hphase
    exact sound_onShown h hphase _ _
  · rename_i hphase
    exact sound_onLook h hphase _
  · rename_i hphase
    exact sound_onPolled h hphase _
  · rename_i hphase
    exact sound_onSlept h hphase _
  · rename_i hphase
    exact sound_onStored horigin h hphase _
  · rename_i hphase
    exact sound_onWritten h hphase _
  · exact h

/-! ### Every run -/

/-- What `connect` has when it has made its key. -/
structure IsStarted (host : ConnectHost) (opts : ConnectOptions) (now : JsNumber) (seed : Seed)
    (p : Pairing) : Prop where
  token : parsePairingToken host.number opts.token now = .ok p.vars.token
  origin : p.vars.canonicalOrigin = p.vars.token.origin
  patience : p.vars.pollDeadlineMs = opts.patience
  sound : Sound host p.vars seed p.state

theorem connectVars_ok {opts : ConnectOptions} {now : JsNumber} {token : ParsedPairingToken}
    {canonicalOrigin : JsString} {endpoints : PairingEndpoints}
    (h : connectVars host opts now = .ok (token, canonicalOrigin, endpoints)) :
    parsePairingToken host.number opts.token now = .ok token ∧ canonicalOrigin = token.origin := by
  unfold connectVars at h
  cases hoptions : validatePollingOptions opts.interval opts.patience with
  | error e =>
      rw [hoptions] at h
      exact nomatch h
  | ok _ =>
      cases hparsed : parsePairingToken host.number opts.token now with
      | error e =>
          rw [hoptions, hparsed] at h
          exact nomatch h
      | ok parsed =>
          rw [hoptions, hparsed] at h
          simp only [bind, Except.bind] at h
          split at h
          · exact nomatch h
          · rename_i origin horigin
            split at h
            · exact nomatch h
            · obtain ⟨rfl, hrest⟩ := Prod.mk.inj (Except.ok.inj h)
              obtain ⟨rfl, -⟩ := Prod.mk.inj hrest
              exact ⟨rfl, (canonicalizeServerOrigin_eq_some_iff.mp horigin).1⟩

theorem pairing_start
    (hfingerprint : keyFingerprint host (host.publicRaw seed) = some vars.localFingerprint) :
    Sound host vars seed
      (ConnectState.completePairing host vars ⟨.completing none, seed, []⟩ none) := by
  have hunder : Underway host vars seed ⟨.completing none, seed, []⟩ :=
    ⟨rfl, hfingerprint, fun reply hreply => absurd hreply List.not_mem_nil⟩
  exact sound_completePairing logged_nil hunder (Nat.le_refl 1) rfl

theorem isStarted_connect {opts : ConnectOptions} {now : JsNumber} {p : Pairing}
    (h : connect host opts now seed = .ok p) : IsStarted host opts now seed p := by
  unfold connect at h
  cases hvars : connectVars host opts now with
  | error e =>
      rw [hvars] at h
      exact nomatch h
  | ok parts =>
      obtain ⟨token, canonicalOrigin, endpoints⟩ := parts
      obtain ⟨htoken, horigin⟩ := connectVars_ok hvars
      rw [hvars] at h
      simp only [bind, Except.bind, pure, Except.pure] at h
      split at h
      · obtain rfl := Except.ok.inj h
        exact ⟨htoken, horigin, rfl, sound_settle logged_nil (Nat.zero_le _) (Nat.zero_le _) _⟩
      · rename_i hsome
        obtain rfl := Except.ok.inj h
        rw [Bool.not_eq_true, Option.isNone_eq_false_iff] at hsome
        obtain ⟨fingerprint, hfingerprint⟩ := Option.isSome_iff_exists.mp hsome
        refine ⟨htoken, horigin, rfl, pairing_start ?_⟩
        rw [hfingerprint]
        rfl

theorem sound_after {opts : ConnectOptions} {now : JsNumber} {p : Pairing}
    (h : connect host opts now seed = .ok p) (inputs : List ConnectInput) :
    Sound host p.vars seed (p.after host inputs) := by
  have hstarted := isStarted_connect h
  exact Machine.run_invariant_all (ConnectState.step host p.vars) (I := Sound host p.vars seed)
    (fun _ input hs => pairing_step hstarted.origin hs input) hstarted.sound inputs

/-- What holds of `connect` at any time. -/
structure PersistsConfirmed (host : ConnectHost) (vars : PairingVars) (seed : Seed)
    (s : ConnectState) : Prop where
  /-- The stores are touched with a confirmed identity only, the config after the seed. -/
  inOrder : Logged (InOrder host vars seed) s.log
  completions : s.log.countP ConnectEvent.isCompletion ≤ 2
  deadlines : s.log.countP ConnectEvent.setsDeadline ≤ 1
  /-- As long as no identity is confirmed, no store is touched. -/
  untouched : (∀ before ids, before <+: s.log → ¬ IsConfirmed host vars seed before ids) →
    ∀ e ∈ s.log, e.isStore = false
  scrubbed : ∀ outcome, s.phase = .settled outcome → s.seed = .zero

theorem Sound.persistsConfirmed (h : Sound host vars seed s) :
    PersistsConfirmed host vars seed s := by
  refine ⟨h.inOrder, h.completions.trans (ConnectPhase.completions_le _), deadline_le h.deadline,
    ?_, ?_⟩
  · intro hnone e he
    obtain ⟨before, after, hlog, horder⟩ := h.inOrder.of_mem he
    cases e with
    | seedStoreSet keyId stored =>
        obtain ⟨-, ids, hconfirmed, -⟩ := horder
        exact absurd hconfirmed (hnone before ids ⟨_, hlog.symm⟩)
    | writePairingConfig path cfg =>
        obtain ⟨earlier, ids, rfl, hconfirmed, -⟩ := horder
        rw [List.append_assoc] at hlog
        exact absurd hconfirmed (hnone earlier ids ⟨_, hlog.symm⟩)
    | _ => rfl
  · intro outcome hphase
    have := h.phase
    rw [PhaseOk, hphase] at this
    exact this

/-- **Pairing persists a confirmed identity only**, under the origin of its token and the ids of
the reply that activated it; it asks for completion twice at most, and leaves no seed behind. -/
theorem connect_persistsConfirmed {opts : ConnectOptions} {now : JsNumber} {p : Pairing}
    (h : connect host opts now seed = .ok p) (inputs : List ConnectInput) :
    parsePairingToken host.number opts.token now = .ok p.vars.token ∧
      p.vars.pollDeadlineMs = opts.patience ∧
      PersistsConfirmed host p.vars seed (p.after host inputs) :=
  ⟨(isStarted_connect h).token, (isStarted_connect h).patience,
    (sound_after h inputs).persistsConfirmed⟩

/-! ### A pairing that recovers -/

/-- The seed that counts from 0, with its public key, its digest and one signature. -/
def countingHost : ConnectHost where
  number d := .finite d
  idna := plainIdna
  sha256 _ := [86, 71, 90, 167, 84, 99, 71, 76, 2, 133, 223, 93, 191, 43, 202, 183, 61, 166, 81, 53,
    136, 57, 233, 183, 116, 129, 178, 234, 177, 7, 112, 140]
  publicRaw _ := [3, 161, 7, 191, 243, 206, 16, 190, 29, 112, 221, 24, 231, 75, 192, 153, 103, 228,
    214, 48, 155, 165, 13, 95, 29, 220, 134, 100, 18, 85, 49, 184]
  sign _ _ := [223, 97, 0, 41, 152, 38, 99, 20, 126, 146, 19, 193, 216, 47, 212, 222, 134, 226, 251,
    47, 157, 196, 191, 228, 235, 21, 112, 111, 131, 181, 122, 237, 100, 172, 107, 46, 191, 5, 137,
    98, 250, 145, 31, 156, 80, 170, 0, 228, 203, 79, 233, 88, 114, 137, 222, 112, 72, 36, 207, 16,
    223, 51, 108, 13]
  configFilePath := js "/home/u/.config/hugin-agent/config.json"

def countingSeed : Seed := Vector.ofFn fun i => i.val.toUInt8

def pastedToken : ConnectOptions where
  token := js ("hpk1.eyJ2IjoiMS4wLjAiLCJvcmlnaW4iOiJ3c3M6Ly9hLmIiLCJzZWNyZXQiOiJBQUFBQUFBQUFBQUFBQUFB" ++
    "QUFBQUFBQUFBQUFBQUFBQUFBQUFBQUFBQUFBIiwiZXhwIjoxfQ")
  configPath := none
  pollIntervalMs := none
  pollDeadlineMs := none

def pendingReply (pollToken : String) : Reply :=
  .response 202 (some (.obj [(js "status", .lit "pending"),
    (js "fingerprint", .lit "Vkdap1RjR0wChd9dvyvKtz2mUTWIOem3dIGy6rEHcIw"),
    (js "poll_token", .lit pollToken)]))

def activeReply : Reply :=
  .response 200 (some (.obj [(js "status", .lit "active"), (js "agent_id", .lit "a-1"),
    (js "key_id", .lit "k-1"), (js "tenant_id", .lit "t-1")]))

/-- The server forgets the poll token once, is asked to complete again, and then activates. -/
def recoveringReplies : List ConnectInput :=
  [.reply (pendingReply "p-1"), .shown true (.ofInt 10), .look (.ofInt 11),
    .reply (.response 404 none), .reply (pendingReply "p-2"), .look (.ofInt 12),
    .reply (.response 200 (some (.obj [(js "status", .lit "pending")]))), .slept true,
    .look (.ofInt 2012), .reply activeReply, .stored true, .written true]

/-- The pairing was completed twice, the ids are stored, and the seed buffer is zero. -/
def isPaired (s : ConnectState) : Bool :=
  s.log.countP ConnectEvent.isCompletion = 2 && s.log.countP ConnectEvent.isStore = 2 &&
    s.seed = .zero &&
    match s.phase with
    | .settled (.ok result) => result.ids = ⟨js "a-1", js "k-1", js "t-1"⟩
    | _ => false

theorem recovered_pairing : ∃ p, connect countingHost pastedToken (.ofInt 1) countingSeed = .ok p ∧
    PersistsConfirmed countingHost p.vars countingSeed (p.after countingHost recoveringReplies) ∧
    isPaired (p.after countingHost recoveringReplies) = true := by
  have hpaired : (connect countingHost pastedToken (.ofInt 1) countingSeed).toOption.any
      (fun p => isPaired (p.after countingHost recoveringReplies)) = true := by decide +kernel
  cases h : connect countingHost pastedToken (.ofInt 1) countingSeed with
  | error e =>
      rw [h] at hpaired
      exact nomatch hpaired
  | ok p =>
      rw [h] at hpaired
      exact ⟨p, rfl, (connect_persistsConfirmed h recoveringReplies).2.2, hpaired⟩

end HuginAgent
