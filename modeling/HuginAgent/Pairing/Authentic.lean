/-
What becomes of a row, and who wins it.

A row is never taken away, its terms stay what they were minted with, and it goes one way through
its states.  Its winner is set once, by a request that was signed with the winning key over the
secret of the row, and a poll token that is still known is known for the row it was minted for.

So much for the server itself.  To a device it says what is true of a row: a completion that is
accepted says that the row of its secret is won with its key, and the poll token in the answer is a
token of that row; a status answer speaks of the row that the poll token belongs to.
-/
import HuginAgent.Pairing.Consistent

namespace HuginAgent

open PairingServer

/-- Can a row get from one state to the other? -/
def PairingState.leads : PairingState → PairingState → Bool
  | .issued, _ => true
  | .pending, next => next ≠ .issued && next ≠ .burned
  | state, next => state = next

theorem PairingState.leads_refl (a : PairingState) : a.leads a = true := by
  cases a <;> rfl

theorem PairingState.leads_trans {a b c : PairingState} (hab : a.leads b = true)
    (hbc : b.leads c = true) : a.leads c = true := by
  cases a with
  | issued => rfl
  | pending =>
      cases b <;> first
        | exact absurd hab (by decide)
        | exact hbc
        | (cases c <;> first | rfl | exact absurd hbc (by decide))
  | active | rejected | expired | burned =>
      simp only [leads, decide_eq_true_eq] at hab
      rw [hab]
      exact hbc

/-- What a row is minted with. -/
def PairingRow.terms (row : PairingRow) :
    Nat × JsString × JsString × Int × Int × JsString × JsString × Int :=
  (row.id, row.secretHash, row.expectedOrigin, row.tokenExp, row.pendingExp, row.tenantId,
    row.createdByUserId, row.attemptCap)

/-- What a row has become. -/
structure Evolves (row row' : PairingRow) : Prop where
  terms : row'.terms = row.terms
  state : row.state.leads row'.state = true
  winner : ∀ key, row.winningPublicKey = some key → row'.winningPublicKey = some key
  /-- The ids of an active row are its ids for good. -/
  ids : row.state = .active → row'.ids = row.ids ∧ row'.isConfirmed = row.isConfirmed
  attempts : row.attempts ≤ row'.attempts

namespace Evolves

theorem refl (row : PairingRow) : Evolves row row :=
  ⟨rfl, PairingState.leads_refl _, fun _ h => h, fun _ => ⟨rfl, rfl⟩, Int.le_refl _⟩

theorem trans {a b c : PairingRow} (hab : Evolves a b) (hbc : Evolves b c) : Evolves a c := by
  refine ⟨hbc.terms.trans hab.terms, PairingState.leads_trans hab.state hbc.state,
    fun key h => hbc.winner key (hab.winner key h), ?_, hab.attempts.trans hbc.attempts⟩
  intro hactive
  have hstate := hab.state
  rw [hactive] at hstate
  obtain ⟨hids, hconfirmed⟩ := hab.ids hactive
  obtain ⟨hids', hconfirmed'⟩ := hbc.ids (of_decide_eq_true hstate).symm
  exact ⟨hids'.trans hids, hconfirmed'.trans hconfirmed⟩

theorem id_eq {row row' : PairingRow} (h : Evolves row row') : row'.id = row.id :=
  congrArg Prod.fst h.terms

theorem secretHash_eq {row row' : PairingRow} (h : Evolves row row') :
    row'.secretHash = row.secretHash :=
  congrArg (fun t => t.2.1) h.terms

theorem expectedOrigin_eq {row row' : PairingRow} (h : Evolves row row') :
    row'.expectedOrigin = row.expectedOrigin :=
  congrArg (fun t => t.2.2.1) h.terms

end Evolves

namespace PairingServer

variable {host : PairingHost} {opts : MockPairingOpts} {e : Event} {s s' s'' : PairingServer}
  {row row' : PairingRow}

/-! ### One move -/

theorem evolves_change (h : RowChange row row') : Evolves row row' := by
  cases h with
  | expired h =>
      refine ⟨rfl, ?_, fun _ h => h, ?_, Int.le_refl _⟩
      · rcases h with h | h <;> rw [h] <;> rfl
      · intro hc
        rcases h with h | h <;> exact nomatch h.symm.trans hc
  | attempted h =>
      refine ⟨rfl, ?_, fun _ h => h, fun hc => (nomatch h.symm.trans hc), by simp only; omega⟩
      rw [h]
      rfl
  | burned h =>
      refine ⟨rfl, ?_, fun _ h => h, fun hc => (nomatch h.symm.trans hc), Int.le_refl _⟩
      rw [h]
      rfl
  | polled h => exact ⟨rfl, PairingState.leads_refl _, fun _ h => h, fun _ => ⟨rfl, rfl⟩, Int.le_refl _⟩
  | rejected h =>
      refine ⟨rfl, ?_, fun _ h => h, fun hc => (nomatch h.symm.trans hc), Int.le_refl _⟩
      rw [h]
      rfl

/-- Every row is still there. -/
def Keeps (s s' : PairingServer) : Prop :=
  ∀ id row, s.rows.find? id = some row → ∃ row', s'.rows.find? id = some row' ∧ Evolves row row'

theorem Keeps.refl (s : PairingServer) : Keeps s s := fun _ row h => ⟨row, h, Evolves.refl row⟩

theorem Keeps.trans (h : Keeps s s') (h' : Keeps s' s'') : Keeps s s'' := by
  intro id row hrow
  obtain ⟨row', hrow', hevolves⟩ := h id row hrow
  obtain ⟨row'', hrow'', hevolves'⟩ := h' id row' hrow'
  exact ⟨row'', hrow'', hevolves.trans hevolves'⟩

/-- What a move does to the rows. -/
inductive RowsMove (host : PairingHost) (e : Event) (s s' : PairingServer) : Prop
  | same (hrows : s'.rows = s.rows)
  | minted (row : PairingRow) (hnew : s.rows.find? row.id = none)
      (hminted : e.mintedHash? host = some row.secretHash) (hrows : s'.rows = s.rows.put row)
  | evolved (row row' : PairingRow) (hrow : s.rows.find? row.id = some row)
      (hevolves : Evolves row row') (hrows : s'.rows = s.rows.put row')

/-- What is not yet active evolves, if its state does. -/
theorem evolves_of_state {row row' : PairingRow} (hterms : row'.terms = row.terms)
    (hstate : row.state.leads row'.state = true) (hactive : row.state ≠ .active)
    (hwinner : ∀ key, row.winningPublicKey = some key → row'.winningPublicKey = some key)
    (hattempts : row.attempts ≤ row'.attempts) : Evolves row row' :=
  ⟨hterms, hstate, hwinner, fun hc => absurd hc hactive, hattempts⟩

theorem PairingMove.rowsMove (hmove : PairingMove host opts e s s') (h : Consistent host opts s) :
    RowsMove host e s s' := by
  have htokens : ∀ (row : PairingRow) (tokens : List PollTokenRow),
      Evolves row { row with pollTokens := tokens } := fun row tokens =>
    ⟨rfl, PairingState.leads_refl _, fun _ h => h, fun _ => ⟨rfl, rfl⟩, Int.le_refl _⟩
  cases hmove with
  | minted row hid hfresh hminted =>
      refine .minted row ?_ hminted rfl
      cases hfind : s.rows.find? row.id with
      | none => rfl
      | some found => exact absurd (h.ids hfind) (by omega)
  | changed hrow hchange => exact .evolved _ _ hrow (evolves_change hchange) rfl
  | @won row request fingerprint random hrandom hrow hstate hattempts hrequest hsecret hproves hkey =>
      refine .evolved row (mintPollToken host opts
        { s with registeredPublicKeys := s.registeredPublicKeys ++ [request.publicKey] }
        (row.winning request fingerprint) row.pendingExp request.publicKey random).2.1 hrow
        (evolves_of_state rfl ?_ (by rw [hstate]; decide) ?_ (Int.le_refl _)) rfl
      · rw [hstate]
        rfl
      · intro key hwinner
        have hfits := (h.rows hrow).state
        rw [hstate, hwinner] at hfits
        exact nomatch hfits
  | again request expiresAt hrandom hrow hstate hcanonical hkey =>
      exact .evolved _ _ hrow (htokens _ _) rfl
  | forgotten hash hrow => exact .evolved _ _ hrow (htokens _ _) rfl
  | @activated row agentId keyId hrow hstate hcount =>
      refine .evolved row
        { row with agentId := some agentId, keyId := some keyId, state := .active } hrow
        (evolves_of_state rfl ?_ (by rw [hstate]; decide) (fun _ h => h) (Int.le_refl _)) rfl
      rw [hstate]
      rfl
  | forced n => exact .same rfl
  | paired codes keys hkeys => exact .same rfl

theorem PairingMove.keeps (hmove : PairingMove host opts e s s') (h : Consistent host opts s) :
    Keeps s s' := by
  intro id found hfound
  cases hmove.rowsMove h with
  | same hrows => exact ⟨found, by rw [hrows, hfound], Evolves.refl found⟩
  | minted row hnew hminted hrows =>
      refine ⟨found, ?_, Evolves.refl found⟩
      rw [hrows, Table.find?_put, if_neg, hfound]
      rintro rfl
      exact nomatch hnew.symm.trans hfound
  | evolved row row' hrow hevolves hrows =>
      rw [hrows, Table.find?_put, hevolves.id_eq]
      split
      · rename_i heq
        rw [heq, hrow] at hfound
        obtain rfl := Option.some.inj hfound
        exact ⟨row', rfl, hevolves⟩
      · exact ⟨found, hfound, Evolves.refl found⟩

theorem Moves.keeps (hmoves : Moves host opts e s s') (h : Consistent host opts s) :
    Keeps s s' := by
  induction hmoves with
  | refl => exact Keeps.refl s
  | tail hmoves hmove ih => exact ih.trans (hmove.keeps (Moves.consistent hmoves h))

theorem keeps_step (h : Consistent host opts s) (e : Event) : Keeps s (step host opts s e) :=
  Moves.keeps (moves_step h.toIndexed e) h

theorem keeps_run (h : Consistent host opts s) (events : List Event) :
    Keeps s (Machine.run (step host opts) s events) := by
  induction events generalizing s with
  | nil => exact Keeps.refl s
  | cons e rest ih => exact (keeps_step h e).trans (ih (consistent_step h e))

/-! ### Who wins -/

/-- The event brings a request for the row, with this key and signed with it. -/
def IsWonBy (host : PairingHost) (opts : MockPairingOpts) (row : PairingRow) (key : List UInt8)
    (e : Event) : Prop :=
  ∃ request transcript, e.completion? host opts = some request ∧ request.publicRaw = key ∧
    row.secretHash = sha256Hex host.toConnectHost request.secret ∧
    hexText key ≠ rejectedTestPublicHex ∧
    buildPairingTranscript ⟨request.secret, key, row.expectedOrigin, pairingProtocolVersion⟩ =
      some transcript ∧
    host.verify key transcript (fromBase64Url request.popSignature) = true

theorem isWonBy_of_proves {request : CompletionRequest}
    (hrequest : e.completion? host opts = some request)
    (hsecret : row.secretHash = sha256Hex host.toConnectHost request.secret)
    (hproves : request.proves host row = true) : IsWonBy host opts row request.publicRaw e := by
  rw [CompletionRequest.proves, Bool.and_eq_true, decide_eq_true_eq, Option.any_eq_true] at hproves
  obtain ⟨hrejected, transcript, htranscript, hverified⟩ := hproves
  exact ⟨request, transcript, hrequest, rfl, hsecret, hrejected, htranscript,
    verify_of_verifyTranscript hverified⟩

theorem IsWonBy.of_terms {key : List UInt8} (h : IsWonBy host opts row key e)
    (hsecret : row'.secretHash = row.secretHash)
    (horigin : row'.expectedOrigin = row.expectedOrigin) : IsWonBy host opts row' key e := by
  unfold IsWonBy
  rw [hsecret, horigin]
  exact h

/-- Every winner has won by one of these events. -/
def Authentic (host : PairingHost) (opts : MockPairingOpts) (events : List Event)
    (s : PairingServer) : Prop :=
  ∀ id row key, s.rows.find? id = some row → row.winningPublicKey = some key →
    ∃ e ∈ events, IsWonBy host opts row key e

theorem authentic_put {events : List Event} (h : Authentic host opts events s)
    (hrow : s.rows.find? row.id = some row) (row' : PairingRow) (hsecret : row'.secretHash = row.secretHash)
    (horigin : row'.expectedOrigin = row.expectedOrigin)
    (hwinner : row'.winningPublicKey = row.winningPublicKey)
    (hrows : s'.rows = s.rows.put row') : Authentic host opts events s' := by
  intro id found key hfound hkey
  rw [hrows, Table.find?_put] at hfound
  split at hfound
  · obtain rfl := Option.some.inj hfound
    obtain ⟨e, he, hwon⟩ := h _ row key hrow (hwinner.symm.trans hkey)
    exact ⟨e, he, hwon.of_terms hsecret horigin⟩
  · exact h id found key hfound hkey

theorem PairingMove.authentic {events : List Event} (hmove : PairingMove host opts e s s')
    (h : Authentic host opts events s) (he : e ∈ events) : Authentic host opts events s' := by
  cases hmove with
  | minted row hid hfresh _ =>
      intro id found key hfound hkey
      rw [Table.find?_put] at hfound
      split at hfound
      · obtain rfl := Option.some.inj hfound
        cases hfresh.winningPublicKey.symm.trans hkey
      · exact h id found key hfound hkey
  | @changed row row' hrow hchange =>
      have hsame : row'.winningPublicKey = row.winningPublicKey := by cases hchange <;> rfl
      exact authentic_put h hrow row' (evolves_change hchange).secretHash_eq
        (evolves_change hchange).expectedOrigin_eq hsame rfl
  | won request fingerprint hrandom hrow hstate hattempts hrequest hsecret hproves hkey =>
      intro id found key hfound hwinner
      change ((s.rows.put _).find? id) = _ at hfound
      rw [Table.find?_put] at hfound
      split at hfound
      · obtain rfl := Option.some.inj hfound
        obtain rfl := Option.some.inj hwinner
        exact ⟨e, he, (isWonBy_of_proves hrequest hsecret hproves).of_terms rfl rfl⟩
      · exact h id found key hfound hwinner
  | again request expiresAt hrandom hrow hstate hcanonical hkey =>
      exact authentic_put h hrow (s.mintPollToken host opts _ expiresAt request.publicKey _).2.1
        rfl rfl rfl rfl
  | @forgotten row hash hrow =>
      exact authentic_put h hrow
        { row with pollTokens := row.pollTokens.filter fun t => t.hash ≠ hash } rfl rfl rfl rfl
  | @activated row agentId keyId hrow hstate hcount =>
      exact authentic_put h hrow
        { row with agentId := some agentId, keyId := some keyId, state := .active } rfl rfl rfl rfl
  | forced n => exact h
  | paired codes keys hkeys => exact h

theorem Moves.authentic {events : List Event} (hmoves : Moves host opts e s s')
    (h : Authentic host opts events s) (he : e ∈ events) : Authentic host opts events s' := by
  induction hmoves with
  | refl => exact h
  | tail _ hmove ih => exact hmove.authentic ih he

/-- **Who has won a row has signed for it.**  In every run each winning key came in a request that
was signed with it, over the secret the row was minted with and the origin it expects. -/
theorem winners_authentic (host : PairingHost) (opts : MockPairingOpts) (port : Nat)
    (events : List Event) : Authentic host opts events (after host opts port events) := by
  induction events using List.reverseRecOn with
  | nil => exact fun _ _ _ hrow => nomatch hrow
  | append_singleton events e ih =>
      have hconsistent := consistent_after host opts port events
      have hmore : Authentic host opts (events ++ [e]) (after host opts port events) := by
        intro id row key hrow hkey
        obtain ⟨e', he', hwon⟩ := ih id row key hrow hkey
        exact ⟨e', List.mem_append_left _ he', hwon⟩
      rw [after, Machine.run_append]
      exact Moves.authentic (moves_step hconsistent.toIndexed e) hmore
        (List.mem_append_right _ List.mem_cons_self)

/-- **The server fits together at any time, and no row is lost or goes back**: whatever happens
later, a row keeps its terms, its winner and its ids, and goes one way through its states. -/
theorem server_consistent (host : PairingHost) (opts : MockPairingOpts) (port : Nat)
    (events more : List Event) :
    Consistent host opts (after host opts port events) ∧
      Keeps (after host opts port events) (after host opts port (events ++ more)) := by
  have h := consistent_after host opts port events
  refine ⟨h, ?_⟩
  rw [after, after, Machine.run_append]
  exact keeps_run h more

/-! ### Whose token it is -/

/-- Where the token is known, it is known for this row. -/
def TokenOf (host : PairingHost) (s : PairingServer) (pollToken : JsString) (id : Nat) : Prop :=
  ∀ entry, s.rowsByPollTokenHash.find? (sha256Hex host.toConnectHost pollToken) = some entry →
    entry.2 = id

/-- The hash of the token that is made of these bytes. -/
def tokenHash (host : PairingHost) (random : Seed) : JsString :=
  sha256Hex host.toConnectHost (randomB64u32 random)

theorem index_mintPollToken {expiresAt : Int} {key : JsString} {random : Seed} {hash : JsString}
    {entry : JsString × Nat}
    (h : (s.withToken host opts row expiresAt key random).rowsByPollTokenHash.find? hash =
      some entry) :
    (hash = tokenHash host random ∧ entry.2 = row.id) ∨
      s.rowsByPollTokenHash.find? hash = some entry := by
  obtain ⟨hput, -⟩ := kept_of_find? h
  rw [Table.find?_put] at hput
  split at hput
  · rename_i hhash
    obtain rfl := Option.some.inj hput
    exact Or.inl ⟨hhash, rfl⟩
  · exact Or.inr hput

theorem find?_withToken (expiresAt : Int) (key : JsString) (random : Seed) :
    (s.withToken host opts row expiresAt key random).rows.find? row.id =
      some (s.mintPollToken host opts row expiresAt key random).2.1 :=
  find?_setRow_self (s := (s.mintPollToken host opts row expiresAt key random).1)
    (s.mintPollToken host opts row expiresAt key random).2.1

/-- An entry of the map for poll tokens is an old one, or it is for the token of this event. -/
theorem PairingMove.index (hmove : PairingMove host opts e s s') {hash : JsString}
    {entry : JsString × Nat} (h : s'.rowsByPollTokenHash.find? hash = some entry) :
    (∃ random, e.draw? = some random ∧ hash = tokenHash host random) ∨
      s.rowsByPollTokenHash.find? hash = some entry := by
  cases hmove with
  | minted row hid hfresh _ => exact Or.inr h
  | changed hrow hchange => exact Or.inr h
  | won request fingerprint hrandom hrow hstate hattempts hrequest hsecret hproves hkey =>
      rcases index_mintPollToken h with ⟨hhash, -⟩ | hold
      · exact Or.inl ⟨_, hrandom, hhash⟩
      · exact Or.inr hold
  | again request expiresAt hrandom hrow hstate hcanonical hkey =>
      rcases index_mintPollToken h with ⟨hhash, -⟩ | hold
      · exact Or.inl ⟨_, hrandom, hhash⟩
      · exact Or.inr hold
  | forgotten hash' hrow =>
      change (s.rowsByPollTokenHash.delete _).find? hash = some entry at h
      rw [Table.find?_delete_key (q := fun k => decide (k = hash')) _ (fun _ => rfl)] at h
      split at h
      · cases h
      · exact Or.inr h
  | activated agentId keyId hrow hstate hcount => exact Or.inr h
  | forced n => exact Or.inr h
  | paired codes keys hkeys => exact Or.inr h

theorem Moves.index (hmoves : Moves host opts e s s') {hash : JsString} {entry : JsString × Nat}
    (h : s'.rowsByPollTokenHash.find? hash = some entry) :
    (∃ random, e.draw? = some random ∧ hash = tokenHash host random) ∨
      s.rowsByPollTokenHash.find? hash = some entry := by
  induction hmoves with
  | refl => exact Or.inr h
  | tail _ hmove ih =>
      rcases hmove.index h with hnew | hold
      · exact Or.inl hnew
      · exact ih hold

/-- A token stays with its row, as long as no other token has its hash. -/
theorem TokenOf.moves {pollToken : JsString} {id : Nat} (h : TokenOf host s pollToken id)
    (hmoves : Moves host opts e s s')
    (hdraw : ∀ random, e.draw? = some random →
      tokenHash host random ≠ sha256Hex host.toConnectHost pollToken) :
    TokenOf host s' pollToken id := by
  intro entry hentry
  rcases Moves.index hmoves hentry with ⟨random, hrandom, hhash⟩ | hold
  · exact absurd hhash.symm (hdraw random hrandom)
  · exact h entry hold

/-! ### Accepted completions -/

/-- The row of the secret is won with the key, and the poll token is its own. -/
def Accepted (host : PairingHost) (s : PairingServer) (secret : JsString) (key : List UInt8)
    (pollToken : JsString) : Prop :=
  ∃ row, s.rows.find? row.id = some row ∧ row.winningPublicKey = some key ∧
    row.secretHash = sha256Hex host.toConnectHost secret ∧ TokenOf host s pollToken row.id

theorem accepted_withToken {request : CompletionRequest}
    (hrow : row.winningPublicKey = some request.publicRaw)
    (hsecret : row.secretHash = sha256Hex host.toConnectHost request.secret) (expiresAt : Int)
    (key : JsString) (random : Seed) :
    Accepted host (s.withToken host opts row expiresAt key random) request.secret request.publicRaw
      (randomB64u32 random) := by
  refine ⟨(s.mintPollToken host opts row expiresAt key random).2.1, find?_withToken _ _ _, hrow,
    hsecret, ?_⟩
  intro entry hentry
  obtain ⟨hput, -⟩ := kept_of_find? hentry
  rw [Table.find?_put, if_pos rfl] at hput
  rw [← Option.some.inj hput]
  rfl

/-- A completion is refused, or the token in its answer is one of the row that is won. -/
def AnswersCompletion (host : PairingHost) (opts : MockPairingOpts) (request : CompletionRequest)
    (random : Seed) (answer : PairingServer × ServerResponse) : Prop :=
  answer.2.status ≠ 202 ∨ ∃ fingerprint,
    answer.2 = completed opts fingerprint (randomB64u32 random) ∧
      Accepted host answer.1 request.secret request.publicRaw (randomB64u32 random)

theorem refused : failComplete.status ≠ 202 := by decide

theorem answers_winRow {request : CompletionRequest}
    (hsecret : row.secretHash = sha256Hex host.toConnectHost request.secret) (random : Seed) :
    AnswersCompletion host opts request random (s.winRow host opts row request random) := by
  unfold winRow
  split
  · exact Or.inl refused
  · split
    · exact Or.inl (show 500 ≠ 202 by decide)
    · rename_i fingerprint hkey
      have hwinner : (row.winning request fingerprint).winningPublicKey = some request.publicRaw := rfl
      exact Or.inr ⟨fingerprint, rfl, accepted_withToken (s := { s with registeredPublicKeys := _ })
        hwinner hsecret row.pendingExp request.publicKey random⟩

theorem answers_completeAgain {request : CompletionRequest}
    (hsecret : row.secretHash = sha256Hex host.toConnectHost request.secret) (now : Int)
    (random : Seed) :
    AnswersCompletion host opts request random
      (s.completeAgain host opts row request now random) := by
  unfold completeAgain
  split
  · rename_i winner fingerprint hwinner hfingerprint
    split
    · exact Or.inl refused
    · rename_i hsame
      obtain ⟨hsame, -⟩ := not_or.mp hsame
      have hkey : row.winningPublicKey = some request.publicRaw :=
        hwinner.trans (congrArg some (Decidable.not_not.mp hsame))
      exact Or.inr ⟨fingerprint, rfl, accepted_withToken hkey hsecret _ request.publicKey random⟩
  · exact Or.inl refused

theorem answers_completeRow {request : CompletionRequest}
    (hsecret : row.secretHash = sha256Hex host.toConnectHost request.secret) (clock : Nat → Int)
    (random : Seed) :
    AnswersCompletion host opts request random
      (s.completeRow host opts row request clock random) := by
  have hheld : (row.expireRowIfNeeded (clock 0)).secretHash =
      sha256Hex host.toConnectHost request.secret := by
    rcases expire_cases row (clock 0) with hsame | ⟨-, hexpired⟩
    · rw [hsame, hsecret]
    · rw [hexpired, hsecret]
  unfold completeRow
  simp only
  split
  · exact Or.inl refused
  · split
    · split
      · exact answers_winRow hheld random
      · exact answers_completeAgain hheld (clock 1) random
    · exact Or.inl refused

/-- **An accepted completion is the winner's**, and the poll token it gives is the row's. -/
theorem answers_handleComplete (h : Indexed s) {raw : JsString} {request : CompletionRequest}
    (hrequest : (parseJsonObject host.number raw).bind completionRequest? = some request)
    (clock : Nat → Int) (random : Seed) :
    AnswersCompletion host opts request random (s.handleComplete host opts raw clock random) := by
  unfold handleComplete
  rw [hrequest]
  simp only
  split
  · exact Or.inl refused
  · rename_i row hrowOf
    exact answers_completeRow (h.secret_of_rowOf hrowOf) clock random

/-- What is no completion request is refused. -/
theorem refuses_handleComplete {raw : JsString}
    (hrequest : (parseJsonObject host.number raw).bind completionRequest? = none)
    (clock : Nat → Int) (random : Seed) :
    (s.handleComplete host opts raw clock random).2.status ≠ 202 := by
  unfold handleComplete
  rw [hrequest]
  exact refused

/-! ### Status -/

/-- What a status answer says of the row of the poll token. -/
def AnswersStatus (answer : PairingServer × ServerResponse) (id : Nat) : Prop :=
  answer.2 = invalidOrExpired ∨ answer.2 = pendingStatus ∨
    ∃ row, row.id = id ∧ answer.1.rows.find? id = some row ∧
      ((answer.2 = rejectedStatus ∧ row.state = .rejected) ∨
        (answer.2 = activeStatus row.ids ∧ row.isConfirmed = true))

theorem answers_statusOf (hrow : s.rows.find? row.id = some row) (now : Int) :
    AnswersStatus (s.statusOf opts row now) row.id := by
  unfold statusOf
  split
  · exact Or.inr (Or.inl rfl)
  · exact Or.inr (Or.inl rfl)
  · rename_i hstate
    exact Or.inr (Or.inr ⟨row, rfl, hrow, Or.inl ⟨rfl, hstate⟩⟩)
  · by_cases hconfirmed : row.isConfirmed = true
    · exact Or.inr (Or.inr ⟨row, rfl, hrow, Or.inr ⟨if_pos hconfirmed, hconfirmed⟩⟩)
    · exact Or.inl (if_neg hconfirmed)

theorem id_confirmRow (s : PairingServer) (row : PairingRow) (now : Int) :
    (s.confirmRow opts row now).2.1.id = row.id := by
  unfold confirmRow
  simp only
  split
  · exact id_expireRowIfNeeded row now
  split
  · exact id_expireRowIfNeeded row now
  split
  · split
    · exact id_expireRowIfNeeded row now
    · split
      · exact id_expireRowIfNeeded row now
      · exact id_expireRowIfNeeded row now
  · exact id_expireRowIfNeeded row now

theorem answers_statusRow (host : PairingHost) (hrow : s.rows.find? row.id = some row)
    (hash : JsString) (clock : Nat → Int) : AnswersStatus (s.statusRow opts row hash clock) row.id := by
  have hconfirmed : Holds (.confirm clock 0) host opts s (s.confirmRow opts row (clock 1)).1
      (s.confirmRow opts row (clock 1)).2.1 := holds_confirmRow hrow (clock 1)
  have hafter : ∀ {s' : PairingServer} {row' : PairingRow}, row'.id = row.id →
      s'.rows.find? row'.id = some row' →
      AnswersStatus
        (if s'.forcedValidStatus404s < opts.forceValidStatus404s.getD 0 then
          ({ s' with forcedValidStatus404s := s'.forcedValidStatus404s + 1 }.removePollToken row' hash,
            invalidOrExpired)
        else s'.statusOf opts row' (clock 2)) row.id := by
    intro s' row' hid hfound
    split
    · exact Or.inl rfl
    · rw [← hid]
      exact answers_statusOf hfound (clock 2)
  unfold statusRow
  split
  rename_i s' row' heq
  split at heq
  · obtain ⟨rfl, rfl⟩ := Prod.mk.inj heq
    exact hafter (id_confirmRow s row (clock 1)) hconfirmed.2
  · obtain ⟨rfl, rfl⟩ := Prod.mk.inj heq
    exact hafter rfl hrow

/-- **A status answer speaks of the row that the poll token belongs to.** -/
theorem answers_handleStatus {raw pollToken : JsString}
    (hparsed : pollTokenOf host.number raw = some pollToken) {id : Nat}
    (htoken : TokenOf host s pollToken id) (clock : Nat → Int) :
    AnswersStatus (s.handleStatus host opts raw clock) id := by
  unfold handleStatus
  rw [hparsed]
  simp only
  split
  · exact Or.inl rfl
  · rename_i row hrowOf
    obtain ⟨entry, hentry, hfind⟩ := rowOf_eq_some hrowOf
    have hid : row.id = id := by rw [Table.key_of_find? hfind, htoken entry hentry]
    split
    · exact Or.inl rfl
    · split
      · exact Or.inl rfl
      · split
        · exact Or.inl rfl
        · have hfound : (s.setRow _).rows.find? _ = _ :=
            find?_setRow_self (row.expireRowIfNeeded (clock 0))
          have hanswer : AnswersStatus (statusRow opts _ _ _ clock) _ :=
            answers_statusRow host hfound (sha256Hex host.toConnectHost pollToken) clock
          rw [id_expireRowIfNeeded, hid] at hanswer
          exact hanswer

end PairingServer

end HuginAgent
