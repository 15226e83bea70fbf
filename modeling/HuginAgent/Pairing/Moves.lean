/-
What the pairing server does, in small moves.

A handler takes a row, changes it, and may mint or forget one of its poll tokens.  `PairingMove`
lists what can happen at once, with what was checked before it, and whatever comes in at the
server is some of these moves one after the other.  An invariant of the server is proved of the
moves.

A handler finds its row through a map.  That the map and the rows fit together is `Indexed`; the
moves of a request are taken from a server that is.
-/
import HuginAgent.Pairing.Server
import Mathlib.Logic.Relation

namespace HuginAgent

open PairingServer

/-- The row as the winner of the secret leaves it. -/
def PairingRow.winning (row : PairingRow) (request : CompletionRequest) (fingerprint : JsString) :
    PairingRow :=
  { row with
    state := .pending
    winningPublicKey := some request.publicRaw
    winningPublicKeyB64u := some request.publicKey
    fingerprint := some fingerprint }

/-- A row as it is minted. -/
structure PairingRow.IsFresh (row : PairingRow) : Prop where
  state : row.state = .issued
  attempts : row.attempts = 0
  winningPublicKey : row.winningPublicKey = none
  winningPublicKeyB64u : row.winningPublicKeyB64u = none
  fingerprint : row.fingerprint = none
  pollTokens : row.pollTokens = []
  agentId : row.agentId = none
  keyId : row.keyId = none

namespace PairingServer

/-- How many devices of the user are active, as the server counts them. -/
def activeCount (s : PairingServer) (key : JsString) : Int :=
  ((s.activeDeviceCounts.find? key).map Prod.snd).getD 0

/-- The row with one more poll token. -/
def withToken (host : PairingHost) (opts : MockPairingOpts) (s : PairingServer) (row : PairingRow)
    (expiresAt : Int) (key : JsString) (random : Seed) : PairingServer :=
  (s.mintPollToken host opts row expiresAt key random).1.setRow
    (s.mintPollToken host opts row expiresAt key random).2.1

variable (host : PairingHost) (opts : MockPairingOpts)

/-- The completion request that an event brings, if it brings one. -/
def Event.completion? : Event → Option CompletionRequest
  | .request req _ _ =>
      if req.method = js "POST" ∧ completeSuffix <:+ req.pathname ∧ opts.simplePairing = false then
        (readBody (opts.bodyLimitBytes.getD 4096) req.contentLength req.chunks).bind fun raw =>
          (parseJsonObject host.number raw).bind completionRequest?
      else none
  | _ => none

/-- The random bytes that an event brings for a poll token. -/
def Event.draw? : Event → Option Seed
  | .request _ _ random => some random
  | _ => none

/-- The hash of the secret that an event mints. -/
def Event.mintedHash? : Event → Option JsString
  | .mint mintOpts _ random =>
      some (sha256Hex host.toConnectHost (mintOpts.secret.getD (randomB64u32 random)))
  | _ => none

/-! ### The moves -/

/-- What is done to a row by itself. -/
inductive RowChange : PairingRow → PairingRow → Prop
  | expired (row : PairingRow) (h : row.state = .issued ∨ row.state = .pending) :
      RowChange row { row with state := .expired }
  | attempted (row : PairingRow) (h : row.state = .issued) :
      RowChange row
        { row with
          attempts := row.attempts + 1
          state := if row.attemptCap ≤ row.attempts + 1 then .burned else row.state }
  | burned (row : PairingRow) (h : row.state = .issued) :
      RowChange row { row with state := .burned }
  | polled (row : PairingRow) (h : row.state = .pending) :
      RowChange row { row with statusPolls := row.statusPolls + 1 }
  | rejected (row : PairingRow) (h : row.state = .pending) :
      RowChange row { row with state := .rejected }

/-- The event that comes in is `e`. -/
inductive PairingMove (e : Event) : PairingServer → PairingServer → Prop
  | minted (s : PairingServer) (row : PairingRow) (hid : row.id = s.nextPairingId)
      (hfresh : row.IsFresh) (hminted : e.mintedHash? host = some row.secretHash) :
      PairingMove e s
        { s with
          rows := s.rows.put row
          rowsBySecretHash := s.rowsBySecretHash.put (row.secretHash, row.id)
          nextPairingId := s.nextPairingId + 1 }
  | changed (s : PairingServer) {row row' : PairingRow} (hrow : s.rows.find? row.id = some row)
      (h : RowChange row row') : PairingMove e s (s.setRow row')
  | won (s : PairingServer) {row : PairingRow} (request : CompletionRequest)
      (fingerprint : JsString) {random : Seed} (hrandom : e.draw? = some random)
      (hrow : s.rows.find? row.id = some row) (hstate : row.state = .issued) (hattempts : row.attempts < row.attemptCap)
      (hrequest : e.completion? host opts = some request)
      (hsecret : row.secretHash = sha256Hex host.toConnectHost request.secret)
      (hproves : request.proves host row = true)
      (hkey : keyFingerprint host.toConnectHost request.publicRaw = some fingerprint) :
      PairingMove e s
        ({ s with registeredPublicKeys := s.registeredPublicKeys ++ [request.publicKey] }.withToken
          host opts (row.winning request fingerprint) row.pendingExp request.publicKey random)
  | again (s : PairingServer) {row : PairingRow} (request : CompletionRequest) (expiresAt : Int)
      {random : Seed} (hrandom : e.draw? = some random) (hrow : s.rows.find? row.id = some row)
      (hstate : row.state = .pending ∨ row.state = .active)
      (hcanonical : validateB64u32 request.publicKey = true)
      (hkey : row.winningPublicKey = some request.publicRaw) :
      PairingMove e s (s.withToken host opts row expiresAt request.publicKey random)
  | forgotten (s : PairingServer) {row : PairingRow} (hash : JsString)
      (hrow : s.rows.find? row.id = some row) : PairingMove e s (s.removePollToken row hash)
  | activated (s : PairingServer) {row : PairingRow} (agentId keyId : JsString)
      (hrow : s.rows.find? row.id = some row) (hstate : row.state = .pending)
      (hcount : s.activeCount row.deviceCounterKey < opts.deviceCap.getD 10) :
      PairingMove e s
        ({ s with
            activeDeviceCounts := s.activeDeviceCounts.put
              (row.deviceCounterKey, s.activeCount row.deviceCounterKey + 1) }.setRow
          { row with agentId := some agentId, keyId := some keyId, state := .active })
  | forced (s : PairingServer) (n : Int) : PairingMove e s { s with forcedValidStatus404s := n }
  | paired (s : PairingServer) (codes keys : List JsString)
      (hkeys : keys = [] ∨ opts.simplePairing = true) :
      PairingMove e s
        { s with
          simpleDeviceCodes := codes
          registeredPublicKeys := s.registeredPublicKeys ++ keys }

/-- Moves one after the other. -/
abbrev Moves (e : Event) : PairingServer → PairingServer → Prop :=
  Relation.ReflTransGen (PairingMove host opts e)

/-- What the maps refer to is there, with the hash it is found by. -/
structure Indexed (s : PairingServer) : Prop where
  secrets : ∀ {hash entry}, s.rowsBySecretHash.find? hash = some entry →
    ∃ row, s.rows.find? entry.2 = some row ∧ row.secretHash = hash
  tokens : ∀ {hash entry}, s.rowsByPollTokenHash.find? hash = some entry →
    ∃ row, s.rows.find? entry.2 = some row ∧ ∃ token ∈ row.pollTokens, token.hash = hash

variable {host : PairingHost} {opts : MockPairingOpts} {e : Event} {s s' : PairingServer}
  {row : PairingRow}

/-! ### Rows in their place -/

@[simp] theorem find?_setRow (row : PairingRow) (id : Nat) :
    (s.setRow row).rows.find? id = if id = row.id then some row else s.rows.find? id :=
  Table.find?_put _ _ _

theorem find?_setRow_self (row : PairingRow) : (s.setRow row).rows.find? row.id = some row := by
  rw [find?_setRow, if_pos rfl]

theorem setRow_self (h : s.rows.find? row.id = some row) : s.setRow row = s := by
  rw [setRow, Table.put_self h]

@[simp] theorem id_expireRowIfNeeded (row : PairingRow) (now : Int) :
    (row.expireRowIfNeeded now).id = row.id := by
  unfold PairingRow.expireRowIfNeeded
  split <;> (try split) <;> rfl

theorem rowOf_eq_some {index : RowIndex} {hash : JsString} (h : s.rowOf index hash = some row) :
    ∃ entry, index.find? hash = some entry ∧ s.rows.find? entry.2 = some row :=
  Option.bind_eq_some_iff.mp h

/-- A row that a map gives is found by its own id. -/
theorem find?_of_rowOf {index : RowIndex} {hash : JsString} (h : s.rowOf index hash = some row) :
    s.rows.find? row.id = some row := by
  obtain ⟨entry, -, hrow⟩ := rowOf_eq_some h
  rw [Table.key_of_find? hrow]
  exact hrow

theorem Indexed.secret_of_rowOf (h : Indexed s) {hash : JsString}
    (hrow : s.rowOf s.rowsBySecretHash hash = some row) : row.secretHash = hash := by
  obtain ⟨entry, hentry, hfind⟩ := rowOf_eq_some hrow
  obtain ⟨found, hfound, hsecret⟩ := h.secrets hentry
  rw [hfind] at hfound
  rw [Option.some.inj hfound, hsecret]

/-! ### What expires -/

theorem expire_cases (row : PairingRow) (now : Int) :
    row.expireRowIfNeeded now = row ∨
      (row.state = .issued ∨ row.state = .pending) ∧
        row.expireRowIfNeeded now = { row with state := .expired } := by
  unfold PairingRow.expireRowIfNeeded
  split
  · rename_i h
    exact Or.inr ⟨Or.inl h.1, rfl⟩
  split
  · rename_i h
    exact Or.inr ⟨Or.inr h.1, rfl⟩
  · exact Or.inl rfl

theorem moves_expire (hrow : s.rows.find? row.id = some row) (now : Int) :
    Moves host opts e s (s.setRow (row.expireRowIfNeeded now)) := by
  rcases expire_cases row now with hsame | ⟨hstate, hexpired⟩
  · rw [hsame, setRow_self hrow]
  · rw [hexpired]
    exact .single (.changed s hrow (.expired row hstate))

/-- What is not expired is as it was. -/
theorem expire_eq_self {now : Int} (h : (row.expireRowIfNeeded now).state ≠ .expired) :
    row.expireRowIfNeeded now = row := by
  rcases expire_cases row now with hsame | ⟨-, hexpired⟩
  · exact hsame
  · rw [hexpired] at h
    exact absurd rfl h

/-! ### In the browser -/

/-- Where a handler is: the row it holds is the one that stands in the server. -/
def Holds (e : Event) (host : PairingHost) (opts : MockPairingOpts) (s s' : PairingServer)
    (row : PairingRow) : Prop :=
  Moves host opts e s s' ∧ s'.rows.find? row.id = some row

theorem holds_confirmRow (hrow : s.rows.find? row.id = some row) (now : Int) :
    Holds e host opts s (s.confirmRow opts row now).1 (s.confirmRow opts row now).2.1 := by
  have hexpire : Moves host opts e s (s.setRow (row.expireRowIfNeeded now)) := moves_expire hrow now
  have hfound : (s.setRow _).rows.find? _ = _ := find?_setRow_self (row.expireRowIfNeeded now)
  unfold confirmRow
  simp only
  generalize hheld : row.expireRowIfNeeded now = held at *
  split
  · exact ⟨hexpire, hfound⟩
  split
  · exact ⟨hexpire, hfound⟩
  split
  · rename_i fingerprint _ _
    split
    · exact ⟨hexpire, hfound⟩
    · rename_i hpending
      obtain ⟨hpending, -⟩ := not_or.mp hpending
      split
      · exact ⟨hexpire, hfound⟩
      · rename_i hcap
        refine ⟨hexpire.tail (.activated _ _ _ hfound (Decidable.not_not.mp hpending)
          (Int.not_le.mp hcap)), ?_⟩
        exact find?_setRow_self { held with agentId := some _, keyId := some _, state := .active }
  · exact ⟨hexpire, hfound⟩

theorem holds_firstPendingRow (clock : Nat → Int) (entries : List (JsString × Nat)) (i : Nat)
    (s₀ : PairingServer) (h : Moves host opts e s₀ s) :
    Moves host opts e s₀ (firstPendingRow clock i entries s).1 ∧
      ∀ row, (firstPendingRow clock i entries s).2 = some row →
        (firstPendingRow clock i entries s).1.rows.find? row.id = some row ∧
          row.state = .pending := by
  induction entries generalizing i s with
  | nil => exact ⟨h, fun row hrow => nomatch hrow⟩
  | cons entry rest ih =>
      unfold firstPendingRow
      cases hfind : s.rows.find? entry.2 with
      | none => exact ih _ h
      | some found =>
          simp only
          have hrow : s.rows.find? found.id = some found := by
            rw [Table.key_of_find? hfind]
            exact hfind
          have hexpire : Moves host opts e s₀ _ := h.trans (moves_expire hrow (clock i))
          split
          · rename_i hpending
            refine ⟨hexpire, ?_⟩
            intro row hsome
            obtain rfl := Option.some.inj hsome
            exact ⟨find?_setRow_self _, hpending⟩
          · exact ih _ hexpire

theorem moves_confirm (s : PairingServer) (clock : Nat → Int) (now : Int) :
    Moves host opts e s (s.confirm opts clock now).1 := by
  obtain ⟨hmoves, hrow⟩ := holds_firstPendingRow clock s.rowsBySecretHash.rows 0 s
    (Relation.ReflTransGen.refl : Moves host opts e s s)
  unfold confirm
  split
  · rename_i s' hfirst
    rw [hfirst] at hmoves
    exact hmoves
  · rename_i s' row hfirst
    rw [hfirst] at hmoves hrow
    exact hmoves.trans (holds_confirmRow (hrow row rfl).1 now).1

theorem moves_reject (s : PairingServer) (clock : Nat → Int) (now : Int) :
    Moves host opts e s (s.reject clock now) := by
  obtain ⟨hmoves, hrow⟩ := holds_firstPendingRow clock s.rowsBySecretHash.rows 0 s
    (Relation.ReflTransGen.refl : Moves host opts e s s)
  unfold reject
  split
  · rename_i s' hfirst
    rw [hfirst] at hmoves
    exact hmoves
  · rename_i s' row hfirst
    rw [hfirst] at hmoves hrow
    simp only at hmoves hrow ⊢
    split
    · rename_i hpending
      have hsame : row.expireRowIfNeeded now = row := expire_eq_self (by rw [hpending]; decide)
      rw [hsame] at hpending ⊢
      exact hmoves.tail (.changed _ (hrow row rfl).1 (.rejected row hpending))
    · exact hmoves.trans (moves_expire (hrow row rfl).1 now)

/-! ### Minting -/

theorem moves_mint (s : PairingServer) (mintOpts : MintOptions) (now : Int) (random : Seed) :
    Moves host opts (.mint mintOpts now random) s
      (((s.mint host opts mintOpts now random).map Prod.fst).getD s) := by
  unfold mint
  simp only
  split
  · exact .refl
  split
  · refine .single (.minted s _ rfl ?_ rfl)
    exact ⟨rfl, rfl, rfl, rfl, rfl, rfl, rfl, rfl⟩
  · exact .refl

/-! ### Completion -/

theorem moves_attempt (hrow : s.rows.find? row.id = some row) (now : Int) :
    Moves host opts e s (s.setRow (row.incrementAttemptOrBurn now)) := by
  unfold PairingRow.incrementAttemptOrBurn
  split
  · rename_i hissued
    simp only
    split
    · exact moves_expire hrow now
    · rename_i hexpired
      rw [expire_eq_self hexpired]
      exact .single (.changed s hrow (.attempted row hissued))
  · rw [setRow_self hrow]

theorem moves_winRow {request : CompletionRequest} (hrow : s.rows.find? row.id = some row)
    (hstate : row.state = .issued) (hrequest : e.completion? host opts = some request)
    (hsecret : row.secretHash = sha256Hex host.toConnectHost request.secret)
    (hproves : request.proves host row = true) {random : Seed} (hrandom : e.draw? = some random) :
    Moves host opts e s (s.winRow host opts row request random).1 := by
  unfold winRow
  split
  · exact .single (.changed s hrow (.burned row hstate))
  · rename_i hattempts
    split
    · exact .refl
    · rename_i fingerprint hkey
      exact .single (.won s request fingerprint hrandom hrow hstate (Int.not_le.mp hattempts)
        hrequest hsecret hproves hkey)

theorem moves_completeAgain {request : CompletionRequest} (hrow : s.rows.find? row.id = some row)
    (hstate : row.state = .pending ∨ row.state = .active)
    (hcanonical : validateB64u32 request.publicKey = true) (now : Int) {random : Seed}
    (hrandom : e.draw? = some random) :
    Moves host opts e s (s.completeAgain host opts row request now random).1 := by
  unfold completeAgain
  split
  · rename_i winner fingerprint hwinner hfingerprint
    split
    · exact .refl
    · rename_i hsame
      obtain ⟨hsame, -⟩ := not_or.mp hsame
      exact .single (.again s request _ hrandom hrow hstate hcanonical
        (hwinner.trans (congrArg some (Decidable.not_not.mp hsame))))
  · exact .refl

theorem canonical_of_completionRequest? {body : JsObject} {request : CompletionRequest}
    (h : completionRequest? body = some request) :
    validateB64u32 request.secret = true ∧ validateB64u32 request.publicKey = true ∧
      isEd25519Sig request.popSignature = true := by
  unfold completionRequest? at h
  split at h
  · split at h
    · rename_i hvalid
      obtain rfl := Option.some.inj h
      exact hvalid
    · exact nomatch h
  · exact nomatch h

theorem canonical_of_completion? {request : CompletionRequest}
    (h : e.completion? host opts = some request) :
    validateB64u32 request.secret = true ∧ validateB64u32 request.publicKey = true ∧
      isEd25519Sig request.popSignature = true := by
  unfold Event.completion? at h
  split at h
  · split at h
    · obtain ⟨raw, -, h⟩ := Option.bind_eq_some_iff.mp h
      obtain ⟨body, -, h⟩ := Option.bind_eq_some_iff.mp h
      exact canonical_of_completionRequest? h
    · exact nomatch h
  · exact nomatch h

theorem moves_completeRow {request : CompletionRequest} (hrow : s.rows.find? row.id = some row)
    (hrequest : e.completion? host opts = some request)
    (hsecret : row.secretHash = sha256Hex host.toConnectHost request.secret) (clock : Nat → Int)
    {random : Seed} (hrandom : e.draw? = some random) :
    Moves host opts e s (s.completeRow host opts row request clock random).1 := by
  have hexpire : Moves host opts e s (s.setRow (row.expireRowIfNeeded (clock 0))) :=
    moves_expire hrow (clock 0)
  have hfound : (s.setRow _).rows.find? _ = _ := find?_setRow_self (row.expireRowIfNeeded (clock 0))
  have hheld : (row.expireRowIfNeeded (clock 0)).secretHash = row.secretHash := by
    rcases expire_cases row (clock 0) with hsame | ⟨-, hexpired⟩
    · rw [hsame]
    · rw [hexpired]
  unfold completeRow
  simp only
  split
  · exact hexpire
  · rename_i hopen
    split
    · rename_i hproves
      split
      · rename_i hissued
        exact hexpire.trans (moves_winRow hfound hissued hrequest (hheld.trans hsecret) hproves hrandom)
      · rename_i hissued
        refine hexpire.trans (moves_completeAgain hfound ?_ (canonical_of_completion? hrequest).2.1
          (clock 1) hrandom)
        cases hstate : (row.expireRowIfNeeded (clock 0)).state with
        | pending => exact Or.inl rfl
        | active => exact Or.inr rfl
        | issued => exact absurd hstate hissued
        | expired => exact absurd (Or.inl hstate) hopen
        | burned => exact absurd (Or.inr (Or.inl hstate)) hopen
        | rejected => exact absurd (Or.inr (Or.inr hstate)) hopen
    · exact hexpire.trans (moves_attempt hfound (clock 1))

/-! ### Status -/

theorem moves_statusOf (hrow : s.rows.find? row.id = some row) (now : Int) :
    Moves host opts e s (s.statusOf opts row now).1 := by
  unfold statusOf
  split
  · rename_i after hstate hafter
    have hpolled : PairingMove host opts e s (s.setRow _) :=
      .changed s hrow (.polled row hstate)
    have hfound := (find?_setRow_self { row with statusPolls := row.statusPolls + 1 } :
      (s.setRow _).rows.find? row.id = _)
    simp only
    split
    · exact (Relation.ReflTransGen.single hpolled).trans (holds_confirmRow hfound now).1
    · exact .single hpolled
  · exact .refl
  · exact .refl
  · exact .refl

theorem moves_statusRow (hrow : s.rows.find? row.id = some row) (hash : JsString)
    (clock : Nat → Int) : Moves host opts e s (s.statusRow opts row hash clock).1 := by
  have hconfirmed : Holds e host opts s (s.confirmRow opts row (clock 1)).1
      (s.confirmRow opts row (clock 1)).2.1 := holds_confirmRow hrow (clock 1)
  have hafter : ∀ {s' : PairingServer} {row' : PairingRow}, Holds e host opts s s' row' →
      Moves host opts e s
        (if s'.forcedValidStatus404s < opts.forceValidStatus404s.getD 0 then
          ({ s' with forcedValidStatus404s := s'.forcedValidStatus404s + 1 }.removePollToken row' hash,
            invalidOrExpired)
        else s'.statusOf opts row' (clock 2)).1 := by
    intro s' row' hheld
    obtain ⟨hmoves, hfound⟩ := hheld
    split
    · exact (hmoves.tail (.forced s' _)).tail (.forgotten _ hash hfound)
    · exact hmoves.trans (moves_statusOf hfound (clock 2))
  unfold statusRow
  split
  rename_i s' row' heq
  refine hafter ?_
  split at heq
  · obtain ⟨rfl, rfl⟩ := Prod.mk.inj heq
    exact hconfirmed
  · obtain ⟨rfl, rfl⟩ := Prod.mk.inj heq
    exact ⟨.refl, hrow⟩

theorem moves_handleStatus (s : PairingServer) (raw : JsString) (clock : Nat → Int) :
    Moves host opts e s (s.handleStatus host opts raw clock).1 := by
  unfold handleStatus
  split
  · exact .refl
  · rename_i pollToken hparsed
    simp only
    split
    · exact .refl
    · rename_i row hrowOf
      have hrow := find?_of_rowOf hrowOf
      split
      · exact .single (.forgotten s _ hrow)
      · split
        · exact .single (.forgotten s _ hrow)
        · have hfound : (s.setRow _).rows.find? _ = _ := find?_setRow_self (row.expireRowIfNeeded (clock 0))
          split
          · exact moves_expire hrow (clock 0)
          · exact (moves_expire hrow (clock 0)).trans (moves_statusRow hfound _ clock)

/-! ### Whatever comes in -/

theorem moves_handleSimpleComplete (hsimple : opts.simplePairing = true) (raw : JsString) :
    Moves host opts e s (s.handleSimpleComplete host opts raw).1 := by
  unfold handleSimpleComplete
  split
  · exact .refl
  · split
    · exact .refl
    · split
      · exact .single (.paired s _ _ (Or.inr hsimple))
      · exact .refl

theorem moves_handle (h : Indexed s) (req : HttpRequest) (clock : Nat → Int) (random : Seed) :
    Moves host opts (.request req clock random) s (s.handle host opts req clock random).1 := by
  unfold handle
  split
  · exact .refl
  · rename_i raw hraw
    split
    · exact .refl
    split
    · rename_i hpath
      split
      · rename_i hsimple
        exact moves_handleSimpleComplete hsimple raw
      · rename_i hsimple
        rw [Bool.not_eq_true] at hsimple
        unfold handleComplete
        split
        · exact .refl
        · rename_i request hrequest
          split
          · exact .refl
          · rename_i row hrowOf
            refine moves_completeRow (find?_of_rowOf hrowOf) ?_ (h.secret_of_rowOf hrowOf) clock rfl
            show (if req.method = js "POST" ∧ completeSuffix <:+ req.pathname ∧
              opts.simplePairing = false then _ else none) = some request
            rw [if_pos ⟨hpath.1, hpath.2, hsimple⟩, hraw]
            exact hrequest
    · split
      · exact moves_handleStatus s raw clock
      · exact .refl

/-- **Whatever comes in at the server is some moves.** -/
theorem moves_step (h : Indexed s) (e : Event) : Moves host opts e s (step host opts s e) := by
  cases e with
  | mint mintOpts now random => exact moves_mint s mintOpts now random
  | mintSimpleDeviceCode deviceCode random =>
      have h : ∀ codes, PairingMove host opts (.mintSimpleDeviceCode deviceCode random) s
          { s with simpleDeviceCodes := codes } := by
        intro codes
        have hpaired : PairingMove host opts (.mintSimpleDeviceCode deviceCode random) s
            { s with
              simpleDeviceCodes := codes
              registeredPublicKeys := s.registeredPublicKeys ++ [] } := .paired s codes [] (Or.inl rfl)
        rw [List.append_nil] at hpaired
        exact hpaired
      exact .single (h _)
  | request req clock random => exact moves_handle h req clock random
  | confirm clock now => exact moves_confirm s clock now
  | reject clock now => exact moves_reject s clock now

end PairingServer

end HuginAgent
