/-
What `connect` leaves on the host, `src/auth/connect.ts` together with its two stores.

The machine of `Auth/Connect.lean` runs beside the host it writes to: a keychain, which has the new
entry at some time while `connect` waits for it, and a file, of which any part may be written while
`connect` waits for that.  The host may die at any time; a run that ends anywhere is that.

At any time, then, what is read as the identity is the one from before, or the one that was
confirmed, with the seed of its key in the keychain, or nothing is read and the daemon does not
start.  When `connect` has returned, it is the one that it returned.
-/
import HuginAgent.Auth.Configuration
import HuginAgent.Auth.Confirmed

namespace HuginAgent

structure Device (κ : Type) where
  files : JsString → Option (List UInt8)
  keychain : κ

structure Installation (κ : Type) where
  connect : ConnectState
  device : Device κ

inductive InstallAction
  /-- What `connect` waits for comes back. -/
  | input (input : ConnectInput)
  /-- The keychain takes the entry. -/
  | keep
  /-- So many bytes of the file have been written. -/
  | write (n : Nat)

/-- The identity that is persisted with these ids. -/
def PairingVars.identity (vars : PairingVars) (ids : PairedIds) : PairingConfig :=
  ⟨vars.canonicalOrigin, ids.agentId, ids.keyId, ids.tenantId⟩

namespace Device

variable {κ : Type} (ring : Keyring κ)

/-- `setPassword`, of `keychainSeedStore().set`. -/
def setSeed (d : Device κ) (keyId : JsString) (seed : Seed) : Device κ :=
  { d with keychain := (keychainSeedStore ring d.keychain (.set keyId seed.toList)).1 }

/-- The file has these bytes. -/
def put (d : Device κ) (path : JsString) (bytes : List UInt8) : Device κ :=
  { d with files := Function.update d.files path (some bytes) }

/-- `writeFileSync` as far as `part` says, if `PairingConfigFile.parse` lets the record through. -/
def writeConfig (d : Device κ) (path : JsString) (cfg : PairingConfig)
    (part : List UInt8 → List UInt8) : Device κ :=
  match writePairingConfig cfg with
  | none => d
  | some validated => d.put path (part (configFileBytes validated))

def seedOf (d : Device κ) (keyId : JsString) : Option (List UInt8) := ring.seedOf d.keychain keyId

end Device

namespace Installation

variable {κ : Type} (ring : Keyring κ) (host : ConnectHost) (vars : PairingVars)

/-- What the host does, when what `connect` waits for comes back. -/
def settle (w : Installation κ) (input : ConnectInput) : Device κ :=
  match w.connect.phase, input with
  | .storing ids, .stored true => w.device.setSeed ring ids.keyId w.connect.seed
  | .writing ids, .written true => w.device.writeConfig vars.configPath (vars.identity ids) id
  | _, _ => w.device

def step (w : Installation κ) : InstallAction → Installation κ
  | .input input =>
      { connect := w.connect.step host vars input, device := w.settle ring vars input }
  | .keep =>
      match w.connect.phase with
      | .storing ids => { w with device := w.device.setSeed ring ids.keyId w.connect.seed }
      | _ => w
  | .write n =>
      match w.connect.phase with
      | .writing ids =>
          { w with
            device := w.device.writeConfig vars.configPath (vars.identity ids) (List.take n) }
      | _ => w

/-! ### What is said of the host -/

section

variable (seed : Seed) (before : Device κ)

/-- The run has confirmed these ids. -/
def Confirmed (log : List ConnectEvent) (ids : PairedIds) : Prop :=
  ∃ earlier, earlier <+: log ∧ IsConfirmed host vars seed earlier ids

/-- What is on the host, as the daemon reads it. -/
structure KeepsIdentity (w : Installation κ) : Prop where
  /-- No other file is touched. -/
  otherFiles : ∀ path, path ≠ vars.configPath → w.device.files path = before.files path
  /-- No entry is touched but that of the key that was confirmed. -/
  entries : ∀ account, (∀ ids, Confirmed host vars seed w.connect.log ids → account ≠ ids.keyId) →
    ring.getPassword w.device.keychain account = ring.getPassword before.keychain account
  /-- The identity is the one from before, or none that can be read, or the confirmed one. -/
  identity : w.device.files vars.configPath = before.files vars.configPath ∨
    readPairingConfig host.number (w.device.files vars.configPath) = none ∨
    ∃ ids, Confirmed host vars seed w.connect.log ids ∧
      readPairingConfig host.number (w.device.files vars.configPath) =
        some (some (vars.identity ids)) ∧
      w.device.seedOf ring ids.keyId = some seed.toList
  /-- When `connect` has returned, the daemon finds what it returned. -/
  returned : ∀ result, w.connect.phase = .settled (.ok result) →
    Confirmed host vars seed w.connect.log result.ids ∧
      result.serverUrl = vars.canonicalOrigin ∧ result.configPath = vars.configPath ∧
      readPairingConfig host.number (w.device.files result.configPath) =
        some (some (vars.identity result.ids)) ∧
      w.device.seedOf ring result.ids.keyId = some seed.toList

/-! ### The invariant -/

/-- The keychain has the seed, and is otherwise as before. -/
structure HasSeed (keyId : JsString) (d : Device κ) : Prop where
  entry : ring.getPassword d.keychain keyId = some (toBase64Url seed.toList)
  others : ∀ account, account ≠ keyId →
    ring.getPassword d.keychain account = ring.getPassword before.keychain account

/-- The file has not been touched, or a part of it has been written. -/
structure HasPart (ids : PairedIds) (d : Device κ) : Prop where
  others : ∀ path, path ≠ vars.configPath → d.files path = before.files path
  file : d.files vars.configPath = before.files vars.configPath ∨
    ∃ validated bytes, writePairingConfig (vars.identity ids) = some validated ∧
      bytes <+: configFileBytes validated ∧ d.files vars.configPath = some bytes

/-- The seed is stored, and the file is being written. -/
structure Touched (log : List ConnectEvent) (ids : PairedIds) (d : Device κ) : Prop where
  confirmed : Confirmed host vars seed log ids
  seed : HasSeed ring seed before ids.keyId d
  part : HasPart vars before ids d

/-- What the phase says of the host. -/
def PhaseKeeps (w : Installation κ) : Prop :=
  match w.connect.phase with
  | .storing ids => Confirmed host vars seed w.connect.log ids ∧
      w.device.files = before.files ∧ (w.device = before ∨ HasSeed ring seed before ids.keyId w.device)
  | .writing ids => Touched ring host vars seed before w.connect.log ids w.device
  | .settled (.ok result) =>
      Touched ring host vars seed before w.connect.log result.ids w.device ∧
        result.serverUrl = vars.canonicalOrigin ∧ result.configPath = vars.configPath ∧
        ∃ validated, writePairingConfig (vars.identity result.ids) = some validated ∧
          w.device.files vars.configPath = some (configFileBytes validated)
  | .settled (.error _) => w.device = before ∨
      ∃ ids, Touched ring host vars seed before w.connect.log ids w.device
  | _ => w.device = before

end

/-! ### The parts -/

section

variable {ring : Keyring κ} {host : ConnectHost} {vars : PairingVars} {seed : Seed}
  {before d : Device κ} {log : List ConnectEvent} {ids : PairedIds}

theorem Confirmed.mono {more : List ConnectEvent} (h : Confirmed host vars seed log ids)
    (hmore : log <+: more) : Confirmed host vars seed more ids := by
  obtain ⟨earlier, hearlier, hconfirmed⟩ := h
  exact ⟨earlier, hearlier.trans hmore, hconfirmed⟩

/-- The ids of a reply that activates a pairing have passed their schema. -/
theorem isAuthId_of_active {value : JsValue} (h : parseStatusResponse value = some (.active ids)) :
    isAuthId ids.agentId = true ∧ isAuthId ids.keyId = true ∧ isAuthId ids.tenantId = true := by
  unfold parseStatusResponse at h
  by_cases hpending : pendingResponse value = true
  · rw [if_pos hpending] at h
    cases h
  rw [if_neg hpending] at h
  by_cases hrejected : rejectedResponse value = true
  · rw [if_pos hrejected] at h
    cases h
  rw [if_neg hrejected] at h
  obtain ⟨hactive, hids⟩ := Option.ite_none_right_eq_some.mp h
  cases hids
  exact ⟨Schema.stringAt_of_strictObject hactive (by simp),
    Schema.stringAt_of_strictObject hactive (by simp),
    Schema.stringAt_of_strictObject hactive (by simp)⟩

theorem Confirmed.isAuthId (h : Confirmed host vars seed log ids) :
    isAuthId ids.agentId = true ∧ isAuthId ids.keyId = true ∧ isAuthId ids.tenantId = true := by
  obtain ⟨earlier, -, hconfirmed⟩ := h
  obtain ⟨_, _, _, _, _, value, -, -, -, -, hactive⟩ := hconfirmed.active
  exact isAuthId_of_active hactive

theorem setSeed_eq (d : Device κ) (keyId : JsString) :
    d.setSeed ring keyId seed =
      { d with keychain := ring.setPassword d.keychain keyId (toBase64Url seed.toList) } := by
  rw [Device.setSeed, keychainSeedStore, if_neg (by simp)]

/-- The entry is set, over whatever there was. -/
theorem hasSeed_setSeed (hlawful : ring.IsLawful) {keyId : JsString}
    (h : d = before ∨ HasSeed ring seed before keyId d) :
    HasSeed ring seed before keyId (d.setSeed ring keyId seed) := by
  rw [setSeed_eq]
  refine ⟨hlawful.get_set _ _ _, fun account hother => ?_⟩
  rw [hlawful.get_set_of_ne _ _ _ _ hother]
  rcases h with rfl | h
  · rfl
  · exact h.others account hother

theorem HasSeed.seedOf {keyId : JsString} (h : HasSeed ring seed before keyId d) :
    d.seedOf ring keyId = some seed.toList := by
  have hlength : seed.toList.length = 32 := by simp
  rw [Device.seedOf, Keyring.seedOf, h.entry]
  simp only [if_neg (toBase64Url_seed_ne_nil hlength), fromBase64Url_toBase64Url, if_pos hlength]

theorem hasPart_writeConfig (h : HasPart vars before ids d) {part : List UInt8 → List UInt8}
    (hpart : ∀ bytes, part bytes <+: bytes) :
    HasPart vars before ids (d.writeConfig vars.configPath (vars.identity ids) part) := by
  unfold Device.writeConfig
  cases hvalid : writePairingConfig (vars.identity ids) with
  | none => exact h
  | some validated =>
      refine ⟨fun path hother => ?_, Or.inr ⟨validated, part (configFileBytes validated), hvalid,
        hpart _, Function.update_self ..⟩⟩
      exact (Function.update_of_ne hother ..).trans (h.others path hother)

theorem writeConfig_keychain (d : Device κ) (path : JsString) (cfg : PairingConfig)
    (part : List UInt8 → List UInt8) : (d.writeConfig path cfg part).keychain = d.keychain := by
  unfold Device.writeConfig
  split <;> rfl

/-- Writing leaves the keychain alone. -/
theorem Touched.write (h : Touched ring host vars seed before log ids d)
    {part : List UInt8 → List UInt8} (hpart : ∀ bytes, part bytes <+: bytes) :
    Touched ring host vars seed before log ids
      (d.writeConfig vars.configPath (vars.identity ids) part) := by
  refine ⟨h.confirmed, ⟨?_, fun account hother => ?_⟩, hasPart_writeConfig h.part hpart⟩
  · rw [writeConfig_keychain]
    exact h.seed.entry
  · rw [writeConfig_keychain]
    exact h.seed.others account hother

/-! ### A step -/

/-- `connect` has not come to its stores. -/
def isEarly : ConnectPhase → Bool
  | .storing _ | .writing _ | .settled _ => false
  | _ => true

/-- `connect` has not come to the file. -/
def isUnwritten : ConnectPhase → Bool
  | .writing _ | .settled (.ok _) => false
  | _ => true

theorem isUnwritten_completePairing (s : ConnectState) (resumed : Option JsNumber) :
    isUnwritten (s.completePairing host vars resumed).phase = true := by
  unfold ConnectState.completePairing
  split <;> rfl

/-- Between the key and the file there are the stores. -/
theorem isUnwritten_step {s : ConnectState} (h : isEarly s.phase = true) (input : ConnectInput) :
    isUnwritten (s.step host vars input).phase = true := by
  have hearly : isUnwritten s.phase = true := by
    cases hphase : s.phase with
    | writing ids =>
        rw [hphase] at h
        cases h
    | settled outcome =>
        rw [hphase] at h
        cases h
    | _ => rfl
  unfold ConnectState.step
  split
  · unfold ConnectState.onCompleted
    dsimp only
    split <;> rfl
  · unfold ConnectState.onShown
    split <;> rfl
  · unfold ConnectState.onLook
    dsimp only
    split <;> rfl
  · rename_i poll reply hphase
    unfold ConnectState.onPolled
    cases reply with
    | failed => rfl
    | response status body =>
        dsimp only
        split
        · split
          · rfl
          · exact isUnwritten_completePairing _ _
        split
        · rfl
        · split <;> rfl
  · unfold ConnectState.onSlept
    split <;> rfl
  · rename_i hphase
    rw [hphase] at h
    cases h
  · rename_i hphase
    rw [hphase] at h
    cases h
  · exact hearly

/-- A host that has not been touched, at any time before the file. -/
theorem phaseKeeps_untouched {w : Installation κ} (hdevice : w.device = before)
    (hphase : isUnwritten w.connect.phase = true) (hsound : Sound host vars seed w.connect) :
    PhaseKeeps ring host vars seed before w := by
  have hsoundPhase := hsound.phase
  unfold PhaseKeeps
  cases hp : w.connect.phase with
  | storing ids =>
      rw [PhaseOk, hp] at hsoundPhase
      obtain ⟨-, earlier, hlog, hconfirmed⟩ := hsoundPhase
      exact ⟨⟨earlier, ⟨_, hlog.symm⟩, hconfirmed⟩, congrArg Device.files hdevice, Or.inl hdevice⟩
  | writing ids =>
      rw [hp] at hphase
      cases hphase
  | settled outcome =>
      cases outcome with
      | error e => exact Or.inl hdevice
      | ok result =>
          rw [hp] at hphase
          cases hphase
  | completing resumed => exact hdevice
  | notifying pollToken => exact hdevice
  | looping poll => exact hdevice
  | polling poll => exact hdevice
  | sleeping poll => exact hdevice

theorem hasPart_of_files (h : d.files = before.files) : HasPart vars before ids d :=
  ⟨fun path _ => congrFun h path, Or.inl (congrFun h vars.configPath)⟩

/-- While `connect` waits for the keychain. -/
theorem phaseKeeps_storing (hlawful : ring.IsLawful) {w : Installation κ}
    (h : PhaseKeeps ring host vars seed before w) (hsound : Sound host vars seed w.connect)
    {ids : PairedIds} (hphase : w.connect.phase = .storing ids) (input : ConnectInput) :
    PhaseKeeps ring host vars seed before (w.step ring host vars (.input input)) := by
  have hheld : w.connect.seed = seed := by
    have := hsound.phase
    rw [PhaseOk, hphase] at this
    exact this.1
  have hkeeps := h
  rw [PhaseKeeps, hphase] at hkeeps
  obtain ⟨hconfirmed, hfiles, hseed⟩ := hkeeps
  cases input with
  | stored ok =>
      cases ok with
      | true =>
          have hstep : w.step ring host vars (.input (.stored true)) =
              ⟨w.connect.onStored vars ids true, w.device.setSeed ring ids.keyId seed⟩ := by
            simp only [step, settle, ConnectState.step, hphase, hheld]
          have hmore : w.connect.log <+: (w.connect.onStored vars ids true).log :=
            (List.prefix_append _ _).trans (List.prefix_append _ _)
          rw [hstep]
          exact ⟨hconfirmed.mono hmore, hasSeed_setSeed hlawful hseed, hasPart_of_files hfiles⟩
      | false =>
          have hstep : w.step ring host vars (.input (.stored false)) =
              ⟨w.connect.onStored vars ids false, w.device⟩ := by
            simp only [step, settle, ConnectState.step, hphase]
          rw [hstep]
          rcases hseed with hsame | hseed
          · exact Or.inl hsame
          · exact Or.inr ⟨ids, hconfirmed, hseed, hasPart_of_files hfiles⟩
  | _ =>
      simp only [step, settle, ConnectState.step, hphase]
      exact h

/-- While `connect` waits for the file. -/
theorem phaseKeeps_writing {w : Installation κ} (h : PhaseKeeps ring host vars seed before w)
    {ids : PairedIds} (hphase : w.connect.phase = .writing ids) (input : ConnectInput) :
    PhaseKeeps ring host vars seed before (w.step ring host vars (.input input)) := by
  have htouched := h
  rw [PhaseKeeps, hphase] at htouched
  have hwhole : Touched ring host vars seed before w.connect.log ids
      (w.device.writeConfig vars.configPath (vars.identity ids) id) :=
    htouched.write fun bytes => List.prefix_refl bytes
  cases input with
  | written ok =>
      cases ok with
      | true =>
          have hstep : w.step ring host vars (.input (.written true)) =
              ⟨w.connect.onWritten vars ids true,
                w.device.writeConfig vars.configPath (vars.identity ids) id⟩ := by
            simp only [step, settle, ConnectState.step, hphase]
          rw [hstep, ConnectState.onWritten]
          change PhaseKeeps ring host vars seed before
            ⟨if true = true ∧ (writePairingConfig (vars.identity ids)).isSome then _ else _, _⟩
          cases hvalid : writePairingConfig (vars.identity ids) with
          | none => exact Or.inr ⟨ids, hwhole⟩
          | some validated =>
              refine ⟨hwhole, rfl, rfl, validated, hvalid, ?_⟩
              rw [Device.writeConfig, hvalid]
              exact Function.update_self ..
      | false =>
          have hstep : w.step ring host vars (.input (.written false)) =
              ⟨w.connect.onWritten vars ids false, w.device⟩ := by
            simp only [step, settle, ConnectState.step, hphase]
          rw [hstep]
          exact Or.inr ⟨ids, htouched⟩
  | _ =>
      simp only [step, settle, ConnectState.step, hphase]
      exact h

/-- **Every step of the run, and of the host, keeps what the phase says.** -/
theorem phaseKeeps_step (hlawful : ring.IsLawful) (horigin : vars.canonicalOrigin = vars.token.origin)
    {w : Installation κ} (h : PhaseKeeps ring host vars seed before w)
    (hsound : Sound host vars seed w.connect) (act : InstallAction) :
    PhaseKeeps ring host vars seed before (w.step ring host vars act) ∧
      Sound host vars seed (w.step ring host vars act).connect := by
  cases act with
  | input input =>
      refine ⟨?_, pairing_step horigin hsound input⟩
      by_cases hearly : isEarly w.connect.phase = true
      · -- The host has not been touched, and is not.
        have hdevice : w.device = before := by
          unfold PhaseKeeps at h
          cases hphase : w.connect.phase with
          | storing ids => rw [hphase] at hearly; cases hearly
          | writing ids => rw [hphase] at hearly; cases hearly
          | settled outcome => rw [hphase] at hearly; cases hearly
          | _ =>
              rw [hphase] at h
              exact h
        have hsettle : w.settle ring vars input = w.device := by
          unfold settle
          cases hphase : w.connect.phase with
          | storing ids => rw [hphase] at hearly; cases hearly
          | writing ids => rw [hphase] at hearly; cases hearly
          | _ => rfl
        exact phaseKeeps_untouched (hsettle.trans hdevice) (isUnwritten_step hearly input)
          (pairing_step horigin hsound input)
      · cases hphase : w.connect.phase with
        | storing ids => exact phaseKeeps_storing hlawful h hsound hphase input
        | writing ids => exact phaseKeeps_writing h hphase input
        | settled outcome =>
            simp only [step, settle, ConnectState.step, hphase]
            exact h
        | _ =>
            rw [hphase] at hearly
            exact absurd rfl hearly
  | keep =>
      cases hphase : w.connect.phase with
      | storing ids =>
          have hheld : w.connect.seed = seed := by
            have := hsound.phase
            rw [PhaseOk, hphase] at this
            exact this.1
          have hkeeps := h
          rw [PhaseKeeps, hphase] at hkeeps
          obtain ⟨hconfirmed, hfiles, hseed⟩ := hkeeps
          simp only [step, hphase, hheld]
          refine ⟨?_, hsound⟩
          rw [PhaseKeeps, hphase]
          exact ⟨hconfirmed, hfiles, Or.inr (hasSeed_setSeed hlawful hseed)⟩
      | _ =>
          simp only [step, hphase]
          exact ⟨h, hsound⟩
  | write n =>
      cases hphase : w.connect.phase with
      | writing ids =>
          have htouched := h
          rw [PhaseKeeps, hphase] at htouched
          simp only [step, hphase]
          refine ⟨?_, hsound⟩
          rw [PhaseKeeps, hphase]
          exact htouched.write fun bytes => List.take_prefix n bytes
      | _ =>
          simp only [step, hphase]
          exact ⟨h, hsound⟩

/-! ### What the daemon finds -/

/-- What is read of the file while it is being written, and after. -/
theorem Touched.reads (hkeeps : KeepsIntegers host.number)
    (hcanonical : canonicalizeServerOrigin host.idna vars.canonicalOrigin =
      some vars.canonicalOrigin)
    (h : Touched ring host vars seed before log ids d) :
    d.files vars.configPath = before.files vars.configPath ∨
      readPairingConfig host.number (d.files vars.configPath) = none ∨
      readPairingConfig host.number (d.files vars.configPath) = some (some (vars.identity ids)) := by
  rcases h.part.file with hsame | ⟨validated, bytes, hvalid, hprefix, hfile⟩
  · exact Or.inl hsame
  · rw [hfile]
    exact Or.inr (readPairingConfig_torn hkeeps hvalid (isAsciiText_of_canonical hcanonical)
      hprefix)

theorem Touched.keepsIdentity (hkeeps : KeepsIntegers host.number)
    (hcanonical : canonicalizeServerOrigin host.idna vars.canonicalOrigin =
      some vars.canonicalOrigin) {w : Installation κ}
    (h : Touched ring host vars seed before w.connect.log ids w.device)
    (hreturned : ∀ result, w.connect.phase = .settled (.ok result) → result.ids = ids ∧
      result.serverUrl = vars.canonicalOrigin ∧ result.configPath = vars.configPath ∧
      ∃ validated, writePairingConfig (vars.identity ids) = some validated ∧
        w.device.files vars.configPath = some (configFileBytes validated)) :
    KeepsIdentity ring host vars seed before w := by
  refine ⟨h.part.others, fun account hother => h.seed.others account (hother ids h.confirmed), ?_,
    fun result hphase => ?_⟩
  · exact (h.reads hkeeps hcanonical).imp_right fun hread => hread.imp_right fun hsome =>
      ⟨ids, h.confirmed, hsome, h.seed.seedOf⟩
  · obtain ⟨rfl, hserver, hpath, validated, hvalid, hfile⟩ := hreturned result hphase
    refine ⟨h.confirmed, hserver, hpath, ?_, h.seed.seedOf⟩
    rw [hpath, hfile]
    exact readPairingConfig_written hkeeps hvalid

theorem keepsIdentity_untouched {w : Installation κ} (hdevice : w.device = before)
    (hphase : isUnwritten w.connect.phase = true) : KeepsIdentity ring host vars seed before w := by
  refine ⟨fun path _ => by rw [hdevice], fun account _ => by rw [hdevice],
    Or.inl (by rw [hdevice]), fun result hsettled => ?_⟩
  rw [hsettled] at hphase
  cases hphase

theorem PhaseKeeps.keepsIdentity (hkeeps : KeepsIntegers host.number)
    (hcanonical : canonicalizeServerOrigin host.idna vars.canonicalOrigin =
      some vars.canonicalOrigin) {w : Installation κ}
    (h : PhaseKeeps ring host vars seed before w) :
    KeepsIdentity ring host vars seed before w := by
  unfold PhaseKeeps at h
  cases hphase : w.connect.phase with
  | storing ids =>
      rw [hphase] at h
      obtain ⟨hconfirmed, hfiles, hseed⟩ := h
      rcases hseed with hsame | hseed
      · exact keepsIdentity_untouched hsame (by rw [hphase]; rfl)
      · refine Touched.keepsIdentity hkeeps hcanonical
          ⟨hconfirmed, hseed, hasPart_of_files hfiles⟩ fun result hsettled => ?_
        rw [hphase] at hsettled
        cases hsettled
  | writing ids =>
      rw [hphase] at h
      refine h.keepsIdentity hkeeps hcanonical fun result hsettled => ?_
      rw [hphase] at hsettled
      cases hsettled
  | settled outcome =>
      rw [hphase] at h
      cases outcome with
      | error e =>
          rcases h with hsame | ⟨ids, htouched⟩
          · exact keepsIdentity_untouched hsame (by rw [hphase]; rfl)
          · refine htouched.keepsIdentity hkeeps hcanonical fun result hsettled => ?_
            rw [hphase] at hsettled
            cases hsettled
      | ok result =>
          obtain ⟨htouched, hrest⟩ := h
          refine htouched.keepsIdentity hkeeps hcanonical fun result' hsettled => ?_
          rw [hphase] at hsettled
          cases hsettled
          exact ⟨rfl, hrest⟩
  | _ =>
      rw [hphase] at h
      exact keepsIdentity_untouched h (by rw [hphase]; rfl)

end

end Installation

/-! ### Every run -/

theorem canonical_of_connectVars {host : ConnectHost} {opts : ConnectOptions} {now : JsNumber}
    {token : ParsedPairingToken} {canonicalOrigin : JsString} {endpoints : PairingEndpoints}
    (h : connectVars host opts now = .ok (token, canonicalOrigin, endpoints)) :
    canonicalizeServerOrigin host.idna canonicalOrigin = some canonicalOrigin := by
  unfold connectVars at h
  cases hoptions : validatePollingOptions opts.interval opts.patience with
  | error e =>
      rw [hoptions] at h
      cases h
  | ok _ =>
      cases hparsed : parsePairingToken host.number opts.token now with
      | error e =>
          rw [hoptions, hparsed] at h
          cases h
      | ok parsed =>
          rw [hoptions, hparsed] at h
          simp only [bind, Except.bind] at h
          cases horigin : canonicalizeServerOrigin host.idna parsed.origin with
          | none =>
              rw [horigin] at h
              cases h
          | some origin =>
              rw [horigin] at h
              dsimp only at h
              have hsame := (canonicalizeServerOrigin_eq_some_iff.mp horigin).1
              cases hendpoints : pairingEndpoints host.idna origin with
              | none =>
                  rw [hendpoints] at h
                  cases h
              | some endpoints' =>
                  rw [hendpoints] at h
                  obtain ⟨-, hrest⟩ := Prod.mk.inj (Except.ok.inj h)
                  obtain ⟨rfl, -⟩ := Prod.mk.inj hrest
                  rw [hsame]
                  exact hsame ▸ horigin

/-- `connect` goes on with an origin that is canonical, and has not come to the file. -/
theorem connect_begins {host : ConnectHost} {opts : ConnectOptions} {now : JsNumber}
    {seed : Seed} {p : Pairing} (h : connect host opts now seed = .ok p) :
    canonicalizeServerOrigin host.idna p.vars.canonicalOrigin = some p.vars.canonicalOrigin ∧
      Installation.isUnwritten p.state.phase = true := by
  unfold connect at h
  cases hvars : connectVars host opts now with
  | error e =>
      rw [hvars] at h
      cases h
  | ok parts =>
      obtain ⟨token, canonicalOrigin, endpoints⟩ := parts
      rw [hvars] at h
      simp only [bind, Except.bind, pure, Except.pure] at h
      have hcanonical := canonical_of_connectVars hvars
      by_cases hnone : (keyFingerprint host (host.publicRaw seed)).isNone = true
      · rw [if_pos hnone] at h
        obtain rfl := Except.ok.inj h
        exact ⟨hcanonical, rfl⟩
      · rw [if_neg hnone] at h
        obtain rfl := Except.ok.inj h
        exact ⟨hcanonical, Installation.isUnwritten_completePairing _ _⟩

namespace Installation

variable {κ : Type} {ring : Keyring κ} {host : ConnectHost}

theorem phaseKeeps_run (hlawful : ring.IsLawful) {opts : ConnectOptions} {now : JsNumber}
    {seed : Seed} {p : Pairing} (h : HuginAgent.connect host opts now seed = .ok p)
    (before : Device κ) (acts : List InstallAction) :
    PhaseKeeps ring host p.vars seed before
      (Machine.run (step ring host p.vars) ⟨p.state, before⟩ acts) := by
  have hstarted := isStarted_connect h
  have hstart : PhaseKeeps ring host p.vars seed before ⟨p.state, before⟩ :=
    phaseKeeps_untouched rfl (connect_begins h).2 hstarted.sound
  exact (Machine.run_invariant_all (step ring host p.vars)
    (I := fun w => PhaseKeeps ring host p.vars seed before w ∧ Sound host p.vars seed w.connect)
    (fun w act hw => phaseKeeps_step hlawful hstarted.origin hw.1 hw.2 act)
    ⟨hstart, hstarted.sound⟩ acts).1

/-- **The identity on the host is never torn**: whenever the host dies, in a pairing against any
server, what the daemon reads is the identity from before, or the confirmed one with its seed, or
nothing that it would start with; and what `connect` has returned is there. -/
theorem connect_installs (hlawful : ring.IsLawful) (hkeeps : KeepsIntegers host.number)
    {opts : ConnectOptions} {now : JsNumber} {seed : Seed} {p : Pairing}
    (h : HuginAgent.connect host opts now seed = .ok p) (before : Device κ)
    (acts : List InstallAction) :
    KeepsIdentity ring host p.vars seed before
      (Machine.run (step ring host p.vars) ⟨p.state, before⟩ acts) :=
  (phaseKeeps_run hlawful h before acts).keepsIdentity hkeeps (connect_begins h).1

/-- The pairing that recovers, on a host that has nothing: the file is written in two parts. -/
def recoveringActs : List InstallAction :=
  (recoveringReplies.take 10).map .input ++
    [.keep, .input (.stored true), .write 20, .input (.written true)]

def emptyDevice : Device (JsString → Option JsString) := ⟨fun _ => none, fun _ => none⟩

theorem recovered_installation : ∃ p,
    HuginAgent.connect countingHost pastedToken (.ofInt 1) countingSeed = .ok p ∧
      KeepsIdentity mapRing countingHost p.vars countingSeed emptyDevice
        (Machine.run (step mapRing countingHost p.vars) ⟨p.state, emptyDevice⟩ recoveringActs) := by
  have hconnected : (HuginAgent.connect countingHost pastedToken (.ofInt 1)
      countingSeed).toOption.isSome = true := by decide +kernel
  cases h : HuginAgent.connect countingHost pastedToken (.ofInt 1) countingSeed with
  | error e =>
      rw [h] at hconnected
      cases hconnected
  | ok p =>
      exact ⟨p, rfl, connect_installs isLawful_mapRing (fun _ _ => rfl) h emptyDevice
        recoveringActs⟩

end Installation

end HuginAgent
