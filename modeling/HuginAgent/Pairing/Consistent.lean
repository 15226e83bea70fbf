/-
The pairing server stays consistent.

`RowOk` says what a row is in each of its states: it has a winner from the moment it is pending,
its poll tokens are the winner's, and it has its ids when it is active.  `Consistent` says of the
server that its maps refer to rows that have what they are found by, and that its counts are the
counts of its rows.  Each of the moves keeps both, whatever the clock shows and whatever random
bytes are drawn.
-/
import HuginAgent.Kit.Machine
import HuginAgent.Pairing.Moves

namespace HuginAgent

open PairingServer

/-- The device counts for the user with this key. -/
def PairingRow.isActiveFor (key : JsString) (row : PairingRow) : Bool :=
  row.state = .active && row.deviceCounterKey = key

/-- What the fields of a row may be in its state: has it a winner, an agent id, a key id? -/
def PairingState.fits (won agent key : Bool) : PairingState → Bool
  | .issued | .burned => !won && !agent && !key
  | .pending | .rejected => won && !agent && !key
  | .active => won && agent && key
  | .expired => !agent && !key

/-- The winner of a row in both its forms, and the poll tokens, which are the winner's. -/
structure WinnerOk (host : PairingHost) (opts : MockPairingOpts) (winner : Option (List UInt8))
    (winnerB64u fingerprint : Option JsString) (pollTokens : List PollTokenRow) : Prop where
  text : winnerB64u = winner.map toBase64Url
  length : ∀ key ∈ winner, key.length = 32
  print : fingerprint = winner.bind (keyFingerprint host.toConnectHost)
  tokens : ∀ token ∈ pollTokens, some token.publicKeyB64u = winnerB64u
  capped : pollTokens.length ≤ opts.pollTokenCap.getD 5

/-- The attempts on a row; as long as it is issued, another one is left. -/
structure AttemptsOk (state : PairingState) (attempts cap : Int) : Prop where
  nonneg : 0 ≤ attempts
  capped : attempts ≤ max cap 1
  left : state = .issued → attempts = 0 ∨ attempts < cap

/-- What a row is. -/
structure RowOk (host : PairingHost) (opts : MockPairingOpts) (row : PairingRow) : Prop where
  state : row.state.fits row.winningPublicKey.isSome row.agentId.isSome row.keyId.isSome = true
  winner : WinnerOk host opts row.winningPublicKey row.winningPublicKeyB64u row.fingerprint
    row.pollTokens
  attempts : AttemptsOk row.state row.attempts row.attemptCap

namespace PairingServer

/-- The server fits together. -/
structure Consistent (host : PairingHost) (opts : MockPairingOpts) (s : PairingServer) : Prop
    extends Indexed s where
  ids : ∀ {id row}, s.rows.find? id = some row → id < s.nextPairingId
  rows : ∀ {id row}, s.rows.find? id = some row → RowOk host opts row
  /-- What is counted for a user is the number of the active rows. -/
  devices : ∀ key, s.activeCount key = s.rows.rows.countP (PairingRow.isActiveFor key)
  capped : ∀ key, s.activeCount key ≤ max 0 (opts.deviceCap.getD 10)
  /-- Every key that won is registered once. -/
  registered : opts.simplePairing = false →
    s.registeredPublicKeys.Perm (s.rows.rows.filterMap PairingRow.winningPublicKeyB64u)

variable {host : PairingHost} {opts : MockPairingOpts} {e : Event} {s s' : PairingServer}
  {row row' : PairingRow}

/-! ### A row changes -/

theorem RowChange.same (h : RowChange row row') :
    row'.id = row.id ∧ row'.secretHash = row.secretHash ∧
      row'.winningPublicKeyB64u = row.winningPublicKeyB64u ∧ row'.pollTokens = row.pollTokens := by
  cases h <;> exact ⟨rfl, rfl, rfl, rfl⟩

/-- No change makes a row active, and none is made to an active row. -/
theorem RowChange.isActiveFor_eq (h : RowChange row row') (key : JsString) :
    row'.isActiveFor key = row.isActiveFor key := by
  have hnot : row.state ≠ .active ∧ row'.state ≠ .active := by
    cases h with
    | expired h => rcases h with h | h <;> exact ⟨by rw [h]; decide, by simp⟩
    | attempted h =>
        refine ⟨by rw [h]; decide, ?_⟩
        simp only
        split
        · decide
        · rw [h]
          decide
    | burned h => exact ⟨by rw [h]; decide, by simp⟩
    | polled h => exact ⟨by rw [h]; decide, by simp [h]⟩
    | rejected h => exact ⟨by rw [h]; decide, by simp⟩
  rw [PairingRow.isActiveFor, PairingRow.isActiveFor, decide_eq_false hnot.1,
    decide_eq_false hnot.2]
  rfl

theorem rowOk_change (hok : RowOk host opts row) (h : RowChange row row') :
    RowOk host opts row' := by
  obtain ⟨hstate, hwinner, hattempts⟩ := hok
  cases h with
  | expired h =>
      refine ⟨?_, hwinner, hattempts.nonneg, hattempts.capped, fun hc => nomatch hc⟩
      rcases h with h | h <;> rw [h] at hstate <;>
        simp only [PairingState.fits, Bool.and_eq_true] at hstate ⊢ <;> exact ⟨hstate.1.2, hstate.2⟩
  | attempted h =>
      have hleft := hattempts.left h
      have hnonneg := hattempts.nonneg
      rw [h] at hstate
      refine ⟨?_, hwinner, by simp only; omega, by simp only; omega, ?_⟩
      · simp only
        split
        · exact hstate
        · rw [h]
          exact hstate
      · intro hc
        simp only at hc ⊢
        split at hc
        · exact nomatch hc
        · exact Or.inr (by omega)
  | burned h =>
      rw [h] at hstate
      exact ⟨hstate, hwinner, hattempts.nonneg, hattempts.capped, fun hc => nomatch hc⟩
  | polled h => exact ⟨hstate, hwinner, hattempts.nonneg, hattempts.capped, hattempts.left⟩
  | rejected h =>
      rw [h] at hstate
      exact ⟨hstate, hwinner, hattempts.nonneg, hattempts.capped, fun hc => nomatch hc⟩

/-! ### Tokens are evicted -/

/-- The tokens that go. -/
def evicted (cap : Nat) (tokens : List PollTokenRow) : List PollTokenRow :=
  tokens.take (tokens.length - cap)

theorem evictTokens_tokens (cap : Nat) (tokens : List PollTokenRow) (index : RowIndex) :
    (evictTokens cap tokens index).1 = tokens.drop (tokens.length - cap) := by
  induction tokens generalizing index with
  | nil => rw [evictTokens, List.drop_nil]
  | cons token rest ih =>
      unfold evictTokens
      split
      · rename_i hlt
        rw [List.length_cons] at hlt
        rw [ih, List.length_cons, Nat.succ_sub (Nat.le_of_lt_succ hlt), List.drop_succ_cons]
      · rename_i hle
        rw [Nat.sub_eq_zero_of_le (Nat.not_lt.mp hle), List.drop_zero]

theorem evictTokens_index (cap : Nat) (tokens : List PollTokenRow) (index : RowIndex)
    (hash : JsString) :
    (evictTokens cap tokens index).2.find? hash =
      if ∃ token ∈ evicted cap tokens, token.hash = hash then none else index.find? hash := by
  induction tokens generalizing index with
  | nil =>
      rw [if_neg (by simp [evicted])]
      rfl
  | cons token rest ih =>
      unfold evictTokens
      split
      · rename_i hlt
        rw [List.length_cons] at hlt
        have hevicted : evicted cap (token :: rest) = token :: evicted cap rest := by
          rw [evicted, List.length_cons, Nat.succ_sub (Nat.le_of_lt_succ hlt), List.take_succ_cons]
          rfl
        have hdelete := index.find?_delete_key (p := fun e => decide (e.1 = token.hash))
          (q := fun k => decide (k = token.hash)) (fun _ => rfl) hash
        rw [ih, hevicted, hdelete]
        by_cases hrest : ∃ t ∈ evicted cap rest, t.hash = hash
        · rw [if_pos hrest, if_pos]
          obtain ⟨t, ht, hhash⟩ := hrest
          exact ⟨t, List.mem_cons_of_mem _ ht, hhash⟩
        · rw [if_neg hrest]
          by_cases hhash : hash = token.hash
          · rw [if_pos (decide_eq_true hhash), if_pos ⟨token, List.mem_cons_self, hhash.symm⟩]
          · rw [if_neg (by simpa using hhash), if_neg]
            intro hc
            obtain ⟨t, ht, hhash'⟩ := hc
            rcases List.mem_cons.mp ht with rfl | ht
            · exact hhash hhash'.symm
            · exact hrest ⟨t, ht, hhash'⟩
      · rename_i hle
        rw [if_neg]
        rw [evicted, Nat.sub_eq_zero_of_le (Nat.not_lt.mp hle), List.take_zero]
        simp

theorem evictTokens_length (cap : Nat) (tokens : List PollTokenRow) (index : RowIndex) :
    (evictTokens cap tokens index).1.length ≤ cap := by
  rw [evictTokens_tokens, List.length_drop]
  omega

theorem mem_of_evictTokens {cap : Nat} {tokens : List PollTokenRow} {index : RowIndex}
    {token : PollTokenRow} (h : token ∈ (evictTokens cap tokens index).1) : token ∈ tokens := by
  rw [evictTokens_tokens] at h
  exact List.mem_of_mem_drop h

/-- What is still in the map is still among the tokens. -/
theorem kept_of_find? {cap : Nat} {tokens : List PollTokenRow} {index : RowIndex} {hash : JsString}
    {entry : JsString × Nat} (h : (evictTokens cap tokens index).2.find? hash = some entry) :
    index.find? hash = some entry ∧ ∀ token ∈ tokens, token.hash = hash →
      token ∈ (evictTokens cap tokens index).1 := by
  rw [evictTokens_index] at h
  split at h
  · cases h
  · rename_i hkept
    refine ⟨h, ?_⟩
    intro token htoken hhash
    rw [evictTokens_tokens]
    rw [← List.take_append_drop (tokens.length - cap) tokens] at htoken
    rcases List.mem_append.mp htoken with htaken | hdropped
    · exact absurd ⟨token, htaken, hhash⟩ hkept
    · exact hdropped

/-! ### A row is put in its place -/

/-- What has to be shown where one row is changed. -/
theorem Consistent.of_put (h : Consistent host opts s) (hrow : s.rows.find? row.id = some row)
    (row' : PairingRow) (hid : row'.id = row.id) (hsecret : row'.secretHash = row.secretHash)
    (hok : RowOk host opts row') (hrows : s'.rows = s.rows.put row')
    (hsecrets : s'.rowsBySecretHash = s.rowsBySecretHash)
    (hnext : s'.nextPairingId = s.nextPairingId)
    (hindex : ∀ {hash entry}, s'.rowsByPollTokenHash.find? hash = some entry →
      (entry.2 = row.id ∧ ∃ token ∈ row'.pollTokens, token.hash = hash) ∨
        (entry.2 ≠ row.id ∧ s.rowsByPollTokenHash.find? hash = some entry))
    (hdevices : ∀ key, s'.activeCount key + (if row.isActiveFor key then 1 else 0) =
      s.activeCount key + if row'.isActiveFor key then 1 else 0)
    (hcapped : ∀ key, s'.activeCount key ≤ max 0 (opts.deviceCap.getD 10))
    (hregistered : opts.simplePairing = false → ∀ rest,
      s.registeredPublicKeys.Perm (row.winningPublicKeyB64u.toList ++ rest) →
        s'.registeredPublicKeys.Perm (row'.winningPublicKeyB64u.toList ++ rest)) :
    Consistent host opts s' := by
  have hput : ∀ id, s'.rows.find? id = if id = row.id then some row' else s.rows.find? id := by
    intro id
    rw [hrows, Table.find?_put, hid]
  have hold : s.rows.find? row'.id = some row := by rw [hid, hrow]
  refine ⟨⟨?_, ?_⟩, ?_, ?_, ?_, hcapped, ?_⟩
  · intro hash entry hentry
    rw [hsecrets] at hentry
    obtain ⟨found, hfound, hhash⟩ := h.secrets hentry
    rw [hput]
    split
    · rename_i heq
      rw [heq, hrow] at hfound
      exact ⟨row', rfl, by rw [hsecret, Option.some.inj hfound, hhash]⟩
    · exact ⟨found, hfound, hhash⟩
  · intro hash entry hentry
    rw [hput]
    rcases hindex hentry with ⟨heq, htoken⟩ | ⟨hne, hentry⟩
    · exact ⟨row', if_pos heq, htoken⟩
    · obtain ⟨found, hfound, htoken⟩ := h.tokens hentry
      exact ⟨found, (if_neg hne).trans hfound, htoken⟩
  · intro id found hfound
    rw [hput] at hfound
    rw [hnext]
    split at hfound
    · rename_i heq
      rw [heq]
      exact h.ids hrow
    · exact h.ids hfound
  · intro id found hfound
    rw [hput] at hfound
    split at hfound
    · obtain rfl := Option.some.inj hfound
      exact hok
    · exact h.rows hfound
  · intro key
    have hcount := Table.countP_put hold (PairingRow.isActiveFor key)
    have hbefore := h.devices key
    have hafter := hdevices key
    rw [hrows]
    cases hwas : row.isActiveFor key <;> cases his : row'.isActiveFor key <;>
      simp only [hwas, his, Bool.false_eq_true, if_true, if_false] at hcount hafter <;> omega
  · intro hsimple
    obtain ⟨rest, hbefore, hafter⟩ := Table.rows_put hold
    have hlist : ∀ r : PairingRow, ∀ l : List PairingRow,
        (r :: l).filterMap PairingRow.winningPublicKeyB64u =
          r.winningPublicKeyB64u.toList ++ l.filterMap PairingRow.winningPublicKeyB64u := by
      intro r l
      rw [List.filterMap_cons]
      cases r.winningPublicKeyB64u <;> rfl
    rw [hrows]
    refine (hregistered hsimple _ ?_).trans ((hafter.filterMap _).trans (.of_eq (hlist _ _))).symm
    exact (h.registered hsimple).trans ((hbefore.filterMap _).trans (.of_eq (hlist _ _)))

/-- The same where the row is not actived or won, and nothing but its tokens is changed beside. -/
theorem Consistent.of_same (h : Consistent host opts s) (hrow : s.rows.find? row.id = some row)
    (row' : PairingRow) (hid : row'.id = row.id) (hsecret : row'.secretHash = row.secretHash)
    (hok : RowOk host opts row') (hactive : ∀ key, row'.isActiveFor key = row.isActiveFor key)
    (hwinner : row'.winningPublicKeyB64u = row.winningPublicKeyB64u) (index : RowIndex)
    (hindex : ∀ {hash entry}, index.find? hash = some entry →
      (entry.2 = row.id ∧ ∃ token ∈ row'.pollTokens, token.hash = hash) ∨
        (entry.2 ≠ row.id ∧ s.rowsByPollTokenHash.find? hash = some entry)) :
    Consistent host opts ({ s with rowsByPollTokenHash := index }.setRow row') := by
  refine h.of_put hrow row' hid hsecret hok rfl rfl rfl hindex ?_ h.capped ?_
  · intro key
    rw [hactive key]
    rfl
  · intro _ rest hperm
    rw [hwinner]
    exact hperm

/-- An entry of the map is for this row or for another one. -/
theorem Indexed.token_cases (h : Indexed s) (hrow : s.rows.find? row.id = some row)
    {hash : JsString} {entry : JsString × Nat}
    (hentry : s.rowsByPollTokenHash.find? hash = some entry) :
    (entry.2 = row.id ∧ ∃ token ∈ row.pollTokens, token.hash = hash) ∨
      (entry.2 ≠ row.id ∧ s.rowsByPollTokenHash.find? hash = some entry) := by
  by_cases heq : entry.2 = row.id
  · obtain ⟨found, hfound, htoken⟩ := h.tokens hentry
    rw [heq, hrow] at hfound
    obtain rfl := Option.some.inj hfound
    exact Or.inl ⟨heq, htoken⟩
  · exact Or.inr ⟨heq, hentry⟩

/-! ### The moves keep it -/

theorem consistent_changed (h : Consistent host opts s) (hrow : s.rows.find? row.id = some row)
    (hchange : RowChange row row') : Consistent host opts (s.setRow row') := by
  obtain ⟨hid, hsecret, hwinner, htokens⟩ := hchange.same
  refine h.of_same hrow row' hid hsecret (rowOk_change (h.rows hrow) hchange) hchange.isActiveFor_eq hwinner
    s.rowsByPollTokenHash ?_
  intro hash entry hentry
  rw [htokens]
  exact h.token_cases hrow hentry

theorem consistent_forgotten (h : Consistent host opts s) (hash : JsString)
    (hrow : s.rows.find? row.id = some row) : Consistent host opts (s.removePollToken row hash) := by
  obtain ⟨hstate, hwinner, hattempts⟩ := h.rows hrow
  refine h.of_same hrow { row with pollTokens := row.pollTokens.filter fun t => t.hash ≠ hash }
    rfl rfl ⟨hstate, ⟨hwinner.text, hwinner.length, hwinner.print, ?_, ?_⟩,
    hattempts⟩ (fun _ => rfl) rfl _ ?_
  · exact fun token htoken => hwinner.tokens token (List.mem_of_mem_filter htoken)
  · exact (List.length_filter_le _ _).trans hwinner.capped
  · intro other entry hentry
    rw [Table.find?_delete_key (q := fun k => decide (k = hash)) _ (fun _ => rfl)] at hentry
    split at hentry
    · cases hentry
    · rename_i hne
      rcases h.token_cases hrow hentry with ⟨heq, token, htoken, hhash⟩ | hother
      · refine Or.inl ⟨heq, token, List.mem_filter.mpr ⟨htoken, ?_⟩, hhash⟩
        rw [hhash]
        simpa using hne
      · exact Or.inr hother

/-- The tokens and the map with one more token of the row. -/
theorem kept_cases (h : Indexed s) (hrow : s.rows.find? row.id = some row) (cap : Nat)
    (token : PollTokenRow) {hash : JsString} {entry : JsString × Nat}
    (hentry : (evictTokens cap (row.pollTokens ++ [token])
      (s.rowsByPollTokenHash.put (token.hash, row.id))).2.find? hash = some entry) :
    (entry.2 = row.id ∧ ∃ t ∈ (evictTokens cap (row.pollTokens ++ [token])
        (s.rowsByPollTokenHash.put (token.hash, row.id))).1, t.hash = hash) ∨
      (entry.2 ≠ row.id ∧ s.rowsByPollTokenHash.find? hash = some entry) := by
  obtain ⟨hput, hkept⟩ := kept_of_find? hentry
  rw [Table.find?_put] at hput
  split at hput
  · rename_i hhash
    obtain rfl := Option.some.inj hput
    exact Or.inl ⟨rfl, token, hkept token (List.mem_append_right _ List.mem_cons_self) hhash.symm,
      hhash.symm⟩
  · rcases h.token_cases hrow hput with ⟨heq, t, ht, hhash⟩ | hother
    · exact Or.inl ⟨heq, t, hkept t (List.mem_append_left _ ht) hhash, hhash⟩
    · exact Or.inr hother

theorem winnerOk_withToken {winner : Option (List UInt8)} {text fingerprint : Option JsString}
    {tokens : List PollTokenRow} (h : WinnerOk host opts winner text fingerprint tokens)
    (token : PollTokenRow) (htoken : some token.publicKeyB64u = text) (index : RowIndex) :
    WinnerOk host opts winner text fingerprint
      (evictTokens (opts.pollTokenCap.getD 5) (tokens ++ [token]) index).1 := by
  refine ⟨h.text, h.length, h.print, ?_, evictTokens_length _ _ _⟩
  intro t ht
  rcases List.mem_append.mp (mem_of_evictTokens ht) with hold | hnew
  · exact h.tokens t hold
  · rw [List.mem_singleton.mp hnew, htoken]

theorem consistent_again (h : Consistent host opts s) (hrow : s.rows.find? row.id = some row)
    {request : CompletionRequest} (hcanonical : validateB64u32 request.publicKey = true)
    (hkey : row.winningPublicKey = some request.publicRaw) (expiresAt : Int) (random : Seed) :
    Consistent host opts (s.withToken host opts row expiresAt request.publicKey random) := by
  obtain ⟨hstate, hwinner, hattempts⟩ := h.rows hrow
  have htext : some request.publicKey = row.winningPublicKeyB64u := by
    rw [hwinner.text, hkey, Option.map_some]
    exact congrArg some (toBase64Url_fromBase64Url hcanonical).symm
  exact h.of_same hrow (s.mintPollToken host opts row expiresAt request.publicKey random).2.1 rfl rfl
    ⟨hstate, winnerOk_withToken hwinner ⟨_, expiresAt, _⟩ htext _, hattempts⟩
    (fun _ => rfl) rfl _ (kept_cases h.toIndexed hrow _ ⟨_, expiresAt, _⟩)

theorem consistent_won (h : Consistent host opts s) (hrow : s.rows.find? row.id = some row)
    (hissued : row.state = .issued) {request : CompletionRequest} {fingerprint : JsString}
    (hcanonical : validateB64u32 request.publicKey = true)
    (hkey : keyFingerprint host.toConnectHost request.publicRaw = some fingerprint)
    (random : Seed) :
    Consistent host opts
      ({ s with registeredPublicKeys := s.registeredPublicKeys ++ [request.publicKey] }.withToken
        host opts (row.winning request fingerprint) row.pendingExp request.publicKey random) := by
  obtain ⟨hstate, hwinner, hattempts⟩ := h.rows hrow
  rw [hissued, PairingState.fits, Bool.and_eq_true, Bool.and_eq_true, Bool.not_eq_true',
    Option.isSome_eq_false_iff, Option.isNone_iff_eq_none] at hstate
  obtain ⟨⟨hnone, hagent⟩, hkeyId⟩ := hstate
  have hfree : row.winningPublicKeyB64u = none := by rw [hwinner.text, hnone, Option.map_none]
  have hnoTokens : ∀ token ∈ row.pollTokens, False := by
    intro token htoken
    have htext := hwinner.tokens token htoken
    rw [hfree] at htext
    exact nomatch htext
  have htext : some request.publicKey = some (toBase64Url request.publicRaw) :=
    congrArg some (toBase64Url_fromBase64Url hcanonical).symm
  have hnew : WinnerOk host opts (some request.publicRaw) (some request.publicKey)
      (some fingerprint) row.pollTokens := by
    refine ⟨htext, ?_, hkey.symm, fun token htoken => absurd (hnoTokens token htoken) id,
      hwinner.capped⟩
    intro key hsome
    rw [← Option.some.inj hsome]
    exact length_of_validateB64u32 hcanonical
  refine h.of_put hrow (mintPollToken host opts
      { s with registeredPublicKeys := s.registeredPublicKeys ++ [request.publicKey] }
      (row.winning request fingerprint) row.pendingExp request.publicKey random).2.1 rfl rfl
    ⟨?_, winnerOk_withToken hnew ⟨_, row.pendingExp, _⟩ rfl _, ?_⟩ rfl rfl rfl
    (kept_cases h.toIndexed hrow _ ⟨_, row.pendingExp, _⟩) ?_ h.capped ?_
  · show PairingState.fits true row.agentId.isSome row.keyId.isSome .pending = true
    rw [PairingState.fits, hagent, hkeyId]
    rfl
  · exact ⟨hattempts.nonneg, hattempts.capped, fun hc => nomatch hc⟩
  · intro key
    have hbefore : row.isActiveFor key = false := by
      rw [PairingRow.isActiveFor, hissued]
      rfl
    rw [hbefore]
    rfl
  · intro _ rest hperm
    rw [hfree] at hperm
    have hcomm : (rest ++ [request.publicKey]).Perm ([request.publicKey] ++ rest) :=
      List.perm_append_comm
    exact (hperm.append_right _).trans hcomm

theorem activeCount_of_put {key : JsString} {count : Int}
    (h : s'.activeDeviceCounts = s.activeDeviceCounts.put (key, count)) (other : JsString) :
    s'.activeCount other = if other = key then count else s.activeCount other := by
  rw [activeCount, h, Table.find?_put, activeCount]
  split <;> rfl

theorem consistent_activated (h : Consistent host opts s) (hrow : s.rows.find? row.id = some row)
    (hpending : row.state = .pending)
    (hcount : s.activeCount row.deviceCounterKey < opts.deviceCap.getD 10)
    (agentId keyId : JsString) :
    Consistent host opts
      ({ s with
          activeDeviceCounts := s.activeDeviceCounts.put
            (row.deviceCounterKey, s.activeCount row.deviceCounterKey + 1) }.setRow
        { row with agentId := some agentId, keyId := some keyId, state := .active }) := by
  obtain ⟨hstate, hwinner, hattempts⟩ := h.rows hrow
  rw [hpending, PairingState.fits, Bool.and_eq_true, Bool.and_eq_true] at hstate
  refine h.of_put hrow
    { row with agentId := some agentId, keyId := some keyId, state := .active } rfl rfl ⟨?_, hwinner, ?_⟩ rfl rfl rfl (h.token_cases hrow) ?_ ?_ (fun _ _ hperm => hperm)
  · show PairingState.fits row.winningPublicKey.isSome true true .active = true
    rw [hstate.1.1]
    rfl
  · exact ⟨hattempts.nonneg, hattempts.capped, fun hc => nomatch hc⟩
  · intro key
    have hbefore : row.isActiveFor key = false := by
      rw [PairingRow.isActiveFor, hpending]
      rfl
    have hafter : PairingRow.isActiveFor key
        { row with agentId := some agentId, keyId := some keyId, state := .active } =
          decide (row.deviceCounterKey = key) := rfl
    rw [activeCount_of_put (s := s) rfl, hbefore, hafter]
    by_cases hkey : row.deviceCounterKey = key
    · simp [hkey]
    · simp [hkey, Ne.symm hkey]
  · intro key
    rw [activeCount_of_put (s := s) rfl]
    split
    · omega
    · exact h.capped key

theorem consistent_minted (h : Consistent host opts s) (hid : row.id = s.nextPairingId)
    (hfresh : row.IsFresh) :
    Consistent host opts
      { s with
        rows := s.rows.put row
        rowsBySecretHash := s.rowsBySecretHash.put (row.secretHash, row.id)
        nextPairingId := s.nextPairingId + 1 } := by
  have hnew : s.rows.find? row.id = none := by
    cases hfind : s.rows.find? row.id with
    | none => rfl
    | some found => exact absurd (h.ids hfind) (by omega)
  have hother : ∀ {id found}, s.rows.find? id = some found →
      (s.rows.put row).find? id = some found := by
    intro id found hfound
    rw [Table.find?_put, if_neg, hfound]
    rintro rfl
    cases hnew.symm.trans hfound
  have hrows := Table.rows_put_new hnew
  have hinactive : ∀ key, row.isActiveFor key = false := by
    intro key
    rw [PairingRow.isActiveFor, hfresh.state]
    rfl
  refine ⟨⟨?_, ?_⟩, ?_, ?_, ?_, h.capped, ?_⟩
  · intro hash entry hentry
    rw [Table.find?_put] at hentry
    split at hentry
    · rename_i hhash
      obtain rfl := Option.some.inj hentry
      exact ⟨row, by rw [Table.find?_put, if_pos rfl], hhash.symm⟩
    · obtain ⟨found, hfound, hhash⟩ := h.secrets hentry
      exact ⟨found, hother hfound, hhash⟩
  · intro hash entry hentry
    obtain ⟨found, hfound, htoken⟩ := h.tokens hentry
    exact ⟨found, hother hfound, htoken⟩
  · intro id found hfound
    rw [Table.find?_put] at hfound
    show id < s.nextPairingId + 1
    split at hfound
    · omega
    · exact Nat.lt_succ_of_lt (h.ids hfound)
  · intro id found hfound
    rw [Table.find?_put] at hfound
    split at hfound
    · obtain rfl := Option.some.inj hfound
      refine ⟨?_, ⟨?_, ?_, ?_, ?_, ?_⟩, ?_⟩
      · rw [hfresh.state, hfresh.winningPublicKey, hfresh.agentId, hfresh.keyId]
        rfl
      · rw [hfresh.winningPublicKeyB64u, hfresh.winningPublicKey]
        rfl
      · rw [hfresh.winningPublicKey]
        intro key hkey
        cases hkey
      · rw [hfresh.fingerprint, hfresh.winningPublicKey]
        rfl
      · rw [hfresh.pollTokens]
        exact fun token htoken => absurd htoken List.not_mem_nil
      · rw [hfresh.pollTokens]
        exact Nat.zero_le _
      · rw [hfresh.attempts]
        exact ⟨Int.le_refl 0, by omega, fun _ => Or.inl rfl⟩
    · exact h.rows hfound
  · intro key
    show s.activeCount key = _
    rw [hrows, List.countP_append, List.countP_singleton, hinactive key]
    exact h.devices key
  · intro hsimple
    show s.registeredPublicKeys.Perm _
    rw [hrows, List.filterMap_append, List.filterMap_cons, hfresh.winningPublicKeyB64u,
      List.filterMap_nil, List.append_nil]
    exact h.registered hsimple

theorem PairingMove.consistent (hmove : PairingMove host opts e s s')
    (h : Consistent host opts s) : Consistent host opts s' := by
  cases hmove with
  | minted row hid hfresh _ => exact consistent_minted h hid hfresh
  | changed hrow hchange => exact consistent_changed h hrow hchange
  | won request fingerprint _ hrow hstate hattempts hrequest hsecret hproves hkey =>
      exact consistent_won h hrow hstate (canonical_of_completion? hrequest).2.1 hkey _
  | again request expiresAt _ hrow hstate hcanonical hkey =>
      exact consistent_again h hrow hcanonical hkey expiresAt _
  | forgotten hash hrow => exact consistent_forgotten h hash hrow
  | activated agentId keyId hrow hstate hcount =>
      exact consistent_activated h hrow hstate hcount agentId keyId
  | forced n =>
      exact ⟨⟨h.secrets, h.tokens⟩, h.ids, h.rows, h.devices, h.capped, h.registered⟩
  | paired codes keys hkeys =>
      refine ⟨⟨h.secrets, h.tokens⟩, h.ids, h.rows, h.devices, h.capped, ?_⟩
      intro hsimple
      rcases hkeys with rfl | hsimple'
      · show (s.registeredPublicKeys ++ []).Perm _
        rw [List.append_nil]
        exact h.registered hsimple
      · exact absurd (hsimple.symm.trans hsimple') Bool.false_ne_true

theorem Moves.consistent (hmoves : Moves host opts e s s') (h : Consistent host opts s) :
    Consistent host opts s' := by
  induction hmoves with
  | refl => exact h
  | tail _ hmove ih => exact hmove.consistent ih

theorem consistent_step (h : Consistent host opts s) (e : Event) :
    Consistent host opts (step host opts s e) :=
  Moves.consistent (moves_step h.toIndexed e) h

theorem consistent_fresh (port : Nat) : Consistent host opts (fresh port) where
  secrets := fun hentry => nomatch hentry
  tokens := fun hentry => nomatch hentry
  ids := fun hrow => nomatch hrow
  rows := fun hrow => nomatch hrow
  devices := fun _ => rfl
  capped := fun _ => Int.le_max_left _ _
  registered := fun _ => .nil

/-- The server after what has happened at it. -/
def after (host : PairingHost) (opts : MockPairingOpts) (port : Nat) (events : List Event) :
    PairingServer :=
  Machine.run (step host opts) (fresh port) events

/-- **Whatever happens at the server, it stays consistent.** -/
theorem consistent_after (host : PairingHost) (opts : MockPairingOpts) (port : Nat)
    (events : List Event) : Consistent host opts (after host opts port events) :=
  Machine.run_invariant_all (step host opts) (I := Consistent host opts)
    (fun _ e h => consistent_step h e) (consistent_fresh port) events

end PairingServer

end HuginAgent
