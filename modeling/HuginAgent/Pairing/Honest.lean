/-
The server with an honest device.

A row goes through four standings on its way: it is offered, it is awaited by the device that has
won it, the user confirms it, and the device is told.  For each there is what the server then has
and what it answers.  Nothing here is about order or loss; the tests' hooks are off, and the clock
is within the time that the row has.
-/
import HuginAgent.Auth.Spelling
import HuginAgent.Pairing.Agreement

namespace HuginAgent

namespace PairingServer

/-- None of the tests' hooks, and room for what an honest device needs. -/
structure IsPlain (opts : MockPairingOpts) : Prop where
  simplePairing : opts.simplePairing = false
  confirms : autoConfirmAfter opts = none
  fingerprints : opts.forceWrongFingerprint = false
  forgets : opts.forceValidStatus404s.getD 0 ≤ 0
  attempts : 0 < opts.attemptCap.getD 10
  pollTokens : 1 ≤ opts.pollTokenCap.getD 5
  bodies : 256 ≤ opts.bodyLimitBytes.getD 4096

/-- The row is the only one that the user can confirm, and one more device may be active. -/
structure IsNext (opts : MockPairingOpts) (s : PairingServer) (row : PairingRow) : Prop where
  found : s.rows.find? row.id = some row
  secret : (row.secretHash, row.id) ∈ s.rowsBySecretHash.rows
  alone : ∀ {id other}, s.rows.find? id = some other → other.state = .pending → id = row.id
  room : s.activeCount row.deviceCounterKey < opts.deviceCap.getD 10
  forced : 0 ≤ s.forcedValidStatus404s

/-- The device holds a poll token of the row that it has won. -/
structure IsAwaited (host : PairingHost) (s : PairingServer) (row : PairingRow)
    (publicRaw : List UInt8) (pollToken : JsString) : Prop where
  found : s.rows.find? row.id = some row
  index : s.rowsByPollTokenHash.find? (sha256Hex host.toConnectHost pollToken) =
    some (sha256Hex host.toConnectHost pollToken, row.id)
  token : (row.pollTokens.find? fun t => t.hash = sha256Hex host.toConnectHost pollToken) =
    some ⟨sha256Hex host.toConnectHost pollToken, row.pendingExp, toBase64Url publicRaw⟩
  winner : row.winningPublicKey = some publicRaw
  winnerB64u : row.winningPublicKeyB64u = some (toBase64Url publicRaw)
  fingerprint : row.fingerprint = some (toBase64Url (host.sha256 publicRaw))

/-- The row when its secret is used with this key. -/
def awaited (host : PairingHost) (row : PairingRow) (publicRaw : List UInt8) (random : Seed) :
    PairingRow :=
  { row with
    pollTokens := [⟨tokenHash host random, row.pendingExp, toBase64Url publicRaw⟩]
    state := .pending
    winningPublicKey := some publicRaw
    winningPublicKeyB64u := some (toBase64Url publicRaw)
    fingerprint := some (toBase64Url (host.sha256 publicRaw)) }

/-- The ids that the row gets when it is confirmed. -/
def confirmedIds (host : PairingHost) (opts : MockPairingOpts) (row : PairingRow)
    (publicRaw : List UInt8) : PairedIds :=
  let fingerprint := toBase64Url (host.sha256 publicRaw)
  ⟨opts.agentId.getD (js "agent-" ++ digitUnits row.id ++ js "-" ++ fingerprint.take 12),
    opts.keyId.getD (js "key-" ++ digitUnits row.id ++ js "-" ++ (fingerprint.take 25).drop 13),
    row.tenantId⟩

variable {host : PairingHost} {opts : MockPairingOpts} {s s' : PairingServer} {row : PairingRow}
  {publicRaw : List UInt8} {pollToken : JsString}

theorem expire_issued {now : Int} (hstate : row.state = .issued) (h : now < row.tokenExp) :
    row.expireRowIfNeeded now = row := by
  rw [PairingRow.expireRowIfNeeded, if_neg (fun hc => absurd hc.2 (Int.not_le.mpr h)),
    if_neg (fun hc => absurd (hstate.symm.trans hc.1) (by decide))]

theorem expire_pending {now : Int} (hstate : row.state = .pending) (h : now < row.pendingExp) :
    row.expireRowIfNeeded now = row := by
  rw [PairingRow.expireRowIfNeeded, if_neg (fun hc => absurd (hstate.symm.trans hc.1) (by decide)),
    if_neg (fun hc => absurd hc.2 (Int.not_le.mpr h))]

theorem expire_active {now : Int} (hstate : row.state = .active) :
    row.expireRowIfNeeded now = row := by
  rw [PairingRow.expireRowIfNeeded, if_neg (fun hc => absurd (hstate.symm.trans hc.1) (by decide)),
    if_neg (fun hc => absurd (hstate.symm.trans hc.1) (by decide))]

/-! ### The completion -/

theorem rowOf_of_indexed {index : RowIndex} {hash : JsString}
    (hindex : index.find? hash = some (hash, row.id)) (hfound : s.rows.find? row.id = some row) :
    s.rowOf index hash = some row := by
  rw [rowOf, hindex, Option.bind_some, hfound]

/-- An issued row without poll tokens gets the one that is minted. -/
theorem evictTokens_offered (hplain : IsPlain opts) (hfresh : row.pollTokens = [])
    (token : PollTokenRow) (index : RowIndex) :
    evictTokens (opts.pollTokenCap.getD 5) (row.pollTokens ++ [token]) index = ([token], index) := by
  have hlength : [token].length = 1 := rfl
  rw [hfresh, List.nil_append, evictTokens, hlength, if_neg (Nat.not_lt.mpr hplain.pollTokens)]

theorem winRow_offered (hplain : IsPlain opts) (hfresh : row.pollTokens = [])
    (hleft : row.attempts < row.attemptCap) {request : CompletionRequest}
    (hkey : request.publicKey = toBase64Url publicRaw) (hlength : publicRaw.length = 32)
    (random : Seed) :
    s.winRow host opts row request random =
      ({ s with
          rowsByPollTokenHash := s.rowsByPollTokenHash.put (tokenHash host random, row.id)
          registeredPublicKeys := s.registeredPublicKeys ++ [request.publicKey] }.setRow
          (awaited host row publicRaw random),
        completed opts (toBase64Url (host.sha256 publicRaw)) (randomB64u32 random)) := by
  have hraw : request.publicRaw = publicRaw := by
    rw [CompletionRequest.publicRaw, hkey, fromBase64Url_toBase64Url]
  have hprint : keyFingerprint host.toConnectHost request.publicRaw =
      some (toBase64Url (host.sha256 publicRaw)) := by
    rw [keyFingerprint, hraw, if_pos hlength]
  rw [winRow, if_neg (Int.not_le.mpr hleft), hprint]
  simp only [mintPollToken, evictTokens_offered hplain hfresh, hraw, hkey]
  rfl

/-- **An offered row is won** by a request that proves its key. -/
theorem handleComplete_offered (hplain : IsPlain opts) (h : IsNext opts s row)
    (hstate : row.state = .issued) (hfresh : row.pollTokens = [])
    (hleft : row.attempts < row.attemptCap) {raw : JsString} {request : CompletionRequest}
    (hrequest : (parseJsonObject host.number raw).bind completionRequest? = some request)
    (hsecret : row.secretHash = sha256Hex host.toConnectHost request.secret)
    (hkey : request.publicKey = toBase64Url publicRaw) (hlength : publicRaw.length = 32)
    (hproves : request.proves host row = true) {clock : Nat → Int} (htime : clock 0 < row.tokenExp)
    (random : Seed) :
    ∃ s', s.handleComplete host opts raw clock random =
        (s', completed opts (toBase64Url (host.sha256 publicRaw)) (randomB64u32 random)) ∧
      IsNext opts s' (awaited host row publicRaw random) ∧
      IsAwaited host s' (awaited host row publicRaw random) publicRaw (randomB64u32 random) := by
  have hindex : s.rowsBySecretHash.find? (sha256Hex host.toConnectHost request.secret) =
      some (row.secretHash, row.id) := Table.find?_eq_some.mpr ⟨h.secret, hsecret⟩
  have hrow : s.rowOf s.rowsBySecretHash (sha256Hex host.toConnectHost request.secret) = some row := by
    rw [rowOf, hindex, Option.bind_some, h.found]
  have hexpire := expire_issued hstate htime
  have hself : s.setRow row = s := setRow_self h.found
  have hanswer : s.handleComplete host opts raw clock random =
      s.winRow host opts row request random := by
    rw [handleComplete, hrequest]
    simp only [hrow]
    rw [completeRow]
    simp only [hexpire, hself, hstate, hproves, if_true]
    rw [if_neg (by decide)]
  rw [hanswer, winRow_offered hplain hfresh hleft hkey hlength]
  refine ⟨_, rfl, ?_, ?_⟩
  · refine ⟨find?_setRow_self _, h.secret, ?_, h.room, h.forced⟩
    intro id other hother hpending
    rw [find?_setRow] at hother
    split at hother
    · rename_i hid
      exact hid
    · exact h.alone hother hpending
  · refine ⟨find?_setRow_self _, ?_, ?_, rfl, rfl, rfl⟩
    · show (s.rowsByPollTokenHash.put (tokenHash host random, row.id)).find? _ = _
      rw [Table.find?_put]
      exact if_pos rfl
    · exact List.find?_cons_of_pos (decide_eq_true rfl)

/-! ### Status -/

/-- A row that is awaited is looked at, as long as it has not expired. -/
theorem handleStatus_awaited (hplain : IsPlain opts) (hcount : 0 ≤ s.forcedValidStatus404s)
    (hawaited : IsAwaited host s row publicRaw pollToken) (hlength : publicRaw.length = 32)
    (hstate : row.state = .pending ∨ row.state = .active) {raw : JsString}
    (hraw : pollTokenOf host.number raw = some pollToken) {clock : Nat → Int}
    (htime : clock 0 < row.pendingExp) :
    s.handleStatus host opts raw clock = s.statusOf opts row (clock 2) := by
  have hrow := rowOf_of_indexed hawaited.index hawaited.found
  have hexpire : row.expireRowIfNeeded (clock 0) = row := by
    rcases hstate with hpending | hactive
    · exact expire_pending hpending htime
    · exact expire_active hactive
  have hpresent : isPresent (some (toBase64Url publicRaw)) = true := by
    cases htext : toBase64Url publicRaw with
    | nil =>
        have htextLength := toBase64Url_length publicRaw
        rw [htext, hlength] at htextLength
        exact absurd htextLength (by decide)
    | cons u rest => rfl
  have hvalid : ¬ (row.state = .expired ∨ row.state = .burned ∨
      isPresent row.winningPublicKeyB64u = false ∨
      some (toBase64Url publicRaw) ≠ row.winningPublicKeyB64u) := by
    rw [hawaited.winnerB64u, hpresent]
    rintro (hc | hc | hc | hc)
    · rcases hstate with hs | hs <;> exact nomatch hs.symm.trans hc
    · rcases hstate with hs | hs <;> exact nomatch hs.symm.trans hc
    · exact nomatch hc
    · exact hc rfl
  have hrow' : s.statusRow opts row (sha256Hex host.toConnectHost pollToken) clock =
      s.statusOf opts row (clock 2) := by
    rw [statusRow, hplain.confirms]
    have hnever : ¬ (row.state = .pending ∧ Option.any (· ≤ (0 : Int)) none = true) :=
      fun hc => Bool.false_ne_true hc.2
    have hforced : ¬ s.forcedValidStatus404s < opts.forceValidStatus404s.getD 0 := by
      have hforgets := hplain.forgets
      omega
    simp only [if_neg hnever, if_neg hforced]
  rw [handleStatus, hraw]
  simp only [hrow, hawaited.token]
  rw [if_neg (Int.not_le.mpr htime)]
  simp only [hexpire, setRow_self hawaited.found]
  rw [if_neg hvalid, hrow']

theorem statusOf_pending (hplain : IsPlain opts) (hstate : row.state = .pending) (now : Int) :
    s.statusOf opts row now = (s, pendingStatus) := by
  rw [statusOf, hstate, hplain.confirms]

theorem statusOf_active (hstate : row.state = .active) (hconfirmed : row.isConfirmed = true)
    (now : Int) : s.statusOf opts row now = (s, activeStatus row.ids) := by
  simp only [statusOf, hstate, hconfirmed, if_true]

/-! ### The user confirms -/

/-- The search for a pending row comes to the only one. -/
theorem firstPendingRow_next (clock : Nat → Int) (hstate : row.state = .pending)
    (htime : ∀ n, clock n < row.pendingExp) (entries : List (JsString × Nat)) (i : Nat)
    (s : PairingServer) (hfound : s.rows.find? row.id = some row)
    (halone : ∀ {id other}, s.rows.find? id = some other → other.state = .pending → id = row.id)
    (hmem : row.id ∈ entries.map Prod.snd) :
    ∃ rows, firstPendingRow clock i entries s = ({ s with rows }, some row) ∧
      rows.find? row.id = some row ∧
      ∀ {id other}, rows.find? id = some other → other.state = .pending → id = row.id := by
  induction entries generalizing i s with
  | nil => exact absurd hmem List.not_mem_nil
  | cons e rest ih =>
      rw [firstPendingRow]
      by_cases he : e.2 = row.id
      · rw [he, hfound]
        simp only [expire_pending hstate (htime i), hstate, if_true, setRow_self hfound]
        exact ⟨s.rows, rfl, hfound, halone⟩
      · have hmem' : row.id ∈ rest.map Prod.snd := by
          rw [List.map_cons, List.mem_cons] at hmem
          exact hmem.resolve_left fun hc => he hc.symm
        cases hother : s.rows.find? e.2 with
        | none => exact ih (i + 1) s hfound halone hmem'
        | some other =>
            have hid : other.id = e.2 := Table.key_of_find? hother
            have hnot : (other.expireRowIfNeeded (clock i)).state ≠ .pending := by
              rcases expire_cases other (clock i) with hsame | ⟨-, hexpired⟩
              · rw [hsame]
                exact fun hc => he (halone hother hc)
              · rw [hexpired]
                exact fun hc => nomatch hc
            simp only [if_neg hnot]
            have hfound' : (s.setRow (other.expireRowIfNeeded (clock i))).rows.find? row.id =
                some row := by
              rw [find?_setRow, id_expireRowIfNeeded, hid, if_neg fun hc => he hc.symm, hfound]
            have halone' : ∀ {id found},
                (s.setRow (other.expireRowIfNeeded (clock i))).rows.find? id = some found →
                  found.state = .pending → id = row.id := by
              intro id found hfind hpending
              rw [find?_setRow] at hfind
              split at hfind
              · obtain rfl := Option.some.inj hfind
                exact absurd hpending hnot
              · exact halone hfind hpending
            exact ih (i + 1) _ hfound' halone' hmem'

/-- **The user confirms the row**, and it is awaited as before. -/
theorem confirm_awaited (h : IsNext opts s row)
    (hawaited : IsAwaited host s row publicRaw pollToken) (hstate : row.state = .pending)
    (hlength : (host.sha256 publicRaw).length = 32) {clock : Nat → Int} {now : Int}
    (htime : ∀ n, clock n < row.pendingExp) (hnow : now < row.pendingExp)
    (hagent : (confirmedIds host opts row publicRaw).agentId ≠ [])
    (hkey : (confirmedIds host opts row publicRaw).keyId ≠ []) :
    ∃ row', IsAwaited host (s.confirm opts clock now).1 row' publicRaw pollToken ∧
      row'.isConfirmed = true ∧ row'.pendingExp = row.pendingExp ∧
      row'.ids = confirmedIds host opts row publicRaw ∧
      (s.confirm opts clock now).1.forcedValidStatus404s = s.forcedValidStatus404s := by
  obtain ⟨rows, hsearch, hfound, -⟩ := firstPendingRow_next clock hstate htime
    s.rowsBySecretHash.rows 0 s h.found h.alone (List.mem_map_of_mem h.secret)
  have hself : PairingServer.setRow { s with rows } row = { s with rows } :=
    setRow_self (s := { s with rows }) hfound
  have hnot : row.isConfirmed = false := by
    rw [PairingRow.isConfirmed, decide_eq_false (by rw [hstate]; decide)]
    rfl
  have hprint : ¬ (row.state ≠ .pending ∨ toBase64Url (host.sha256 publicRaw) = []) := by
    rintro (hc | hc)
    · exact hc hstate
    · have htextLength := toBase64Url_length (host.sha256 publicRaw)
      rw [hc, hlength] at htextLength
      exact absurd htextLength (by decide)
  have hroom : ¬ opts.deviceCap.getD 10 ≤
      ((s.activeDeviceCounts.find? row.deviceCounterKey).map Prod.snd).getD 0 := Int.not_le.mpr h.room
  have hpresent : ∀ {t : JsString}, t ≠ [] → isPresent (some t) = true := by
    intro t ht
    cases t with
    | nil => exact absurd rfl ht
    | cons u rest => rfl
  have hconfirm : s.confirm opts clock now =
      (PairingServer.setRow { s with
          rows
          activeDeviceCounts := s.activeDeviceCounts.put (row.deviceCounterKey,
            ((s.activeDeviceCounts.find? row.deviceCounterKey).map Prod.snd).getD 0 + 1) }
        { row with
          agentId := some (confirmedIds host opts row publicRaw).agentId
          keyId := some (confirmedIds host opts row publicRaw).keyId
          state := .active },
        some (confirmedIds host opts row publicRaw)) := by
    rw [confirm, hsearch]
    simp only [confirmRow, expire_pending hstate hnow, hself, hnot, hawaited.winner,
      hawaited.fingerprint]
    rw [if_neg (by rw [hstate]; decide), if_neg Bool.false_ne_true, if_neg hprint, if_neg hroom]
    rfl
  rw [hconfirm]
  refine ⟨_, ⟨find?_setRow_self _, hawaited.index, hawaited.token, hawaited.winner,
    hawaited.winnerB64u, hawaited.fingerprint⟩, ?_, rfl, rfl, rfl⟩
  simp only [PairingRow.isConfirmed, hpresent hagent, hpresent hkey, decide_true, Bool.and_true]

end PairingServer

end HuginAgent
