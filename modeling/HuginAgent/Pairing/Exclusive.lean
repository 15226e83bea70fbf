/-
One secret pairs one device.

A secret is minted once, so its hash names one row, and a row is won by one key.  Two devices that
were given the same token cannot both come out of the ceremony paired, whatever they do and
whatever gets lost.
-/
import HuginAgent.Pairing.Agreement

namespace HuginAgent

namespace PairingServer

variable {host : PairingHost} {opts : MockPairingOpts} {s s' : PairingServer} {e : Event}
  {future : List JsString}

/-! ### A hash names one row -/

/-- A hash names one row, and none of those to come names a row. -/
structure SecretsUnique (s : PairingServer) (future : List JsString) : Prop where
  unique : ∀ {id id' row row'}, s.rows.find? id = some row → s.rows.find? id' = some row' →
    row.secretHash = row'.secretHash → id = id'
  new : ∀ {id row}, s.rows.find? id = some row → row.secretHash ∉ future

/-- The rows that are there were there before. -/
theorem secretsUnique_of_old (h : SecretsUnique s future)
    (hold : ∀ {id row'}, s'.rows.find? id = some row' →
      ∃ row, s.rows.find? id = some row ∧ row'.secretHash = row.secretHash) :
    SecretsUnique s' future := by
  refine ⟨?_, ?_⟩
  · intro id id' row row' hrow hrow' hsame
    obtain ⟨old, hfind, hsecret⟩ := hold hrow
    obtain ⟨old', hfind', hsecret'⟩ := hold hrow'
    exact h.unique hfind hfind' (by rw [← hsecret, ← hsecret', hsame])
  · intro id row hrow
    obtain ⟨old, hfind, hsecret⟩ := hold hrow
    rw [hsecret]
    exact h.new hfind

theorem PairingMove.secretsUnique (hmove : PairingMove host opts e s s')
    (hconsistent : Consistent host opts s) (hmint : e.mintedHash? host = none)
    (h : SecretsUnique s future) : SecretsUnique s' future := by
  refine secretsUnique_of_old h ?_
  intro id found hfound
  cases hmove.rowsMove hconsistent with
  | same hrows =>
      rw [hrows] at hfound
      exact ⟨found, hfound, rfl⟩
  | minted row hnew hminted hrows => exact nomatch hmint.symm.trans hminted
  | evolved row row' hrow hevolves hrows =>
      rw [hrows, Table.find?_put, hevolves.id_eq] at hfound
      split at hfound
      · rename_i heq
        obtain rfl := Option.some.inj hfound
        exact ⟨row, heq ▸ hrow, hevolves.secretHash_eq⟩
      · exact ⟨found, hfound, rfl⟩

theorem Moves.secretsUnique (hmoves : Moves host opts e s s')
    (hconsistent : Consistent host opts s) (hmint : e.mintedHash? host = none)
    (h : SecretsUnique s future) : SecretsUnique s' future := by
  induction hmoves with
  | refl => exact h
  | tail hmoves hmove ih =>
      exact hmove.secretsUnique (Moves.consistent hmoves hconsistent) hmint ih

/-- A mint either throws or adds a row with its hash. -/
theorem mint_cases (s : PairingServer) (mintOpts : MintOptions) (now : Int) (random : Seed) :
    step host opts s (.mint mintOpts now random) = s ∨
      ∃ row : PairingRow, row.id = s.nextPairingId ∧
        (Event.mint mintOpts now random).mintedHash? host = some row.secretHash ∧
        (step host opts s (.mint mintOpts now random)).rows = s.rows.put row := by
  show ((s.mint host opts mintOpts now random).map Prod.fst).getD s = s ∨ ∃ row : PairingRow, _ ∧ _ ∧
    (((s.mint host opts mintOpts now random).map Prod.fst).getD s).rows = _
  unfold mint
  simp only
  split
  · exact Or.inl rfl
  split
  · exact Or.inr ⟨_, rfl, rfl, rfl⟩
  · exact Or.inl rfl

theorem secretsUnique_step (hconsistent : Consistent host opts s) (e : Event)
    (h : SecretsUnique s ((e.mintedHash? host).toList ++ future))
    (hnew : ((e.mintedHash? host).toList ++ future).Nodup) :
    SecretsUnique (step host opts s e) future := by
  have hweak : SecretsUnique s future :=
    ⟨h.unique, fun hrow hc => h.new hrow (List.mem_append_right _ hc)⟩
  cases e with
  | mint mintOpts now random =>
      have hcases : step host opts s _ = s ∨ _ := mint_cases s mintOpts now random
      rcases hcases with
        hsame | ⟨row, hid, hminted, hrows⟩
      · rw [hsame]
        exact hweak
      · rw [hminted, Option.toList_some, List.singleton_append] at h hnew
        have hfind : ∀ {id found}, (s.rows.put row).find? id = some found →
            (id = row.id ∧ found = row) ∨ (id ≠ row.id ∧ s.rows.find? id = some found) := by
          intro id found hfound
          rw [Table.find?_put] at hfound
          split at hfound
          · rename_i heq
            exact Or.inl ⟨heq, (Option.some.inj hfound).symm⟩
          · rename_i hne
            exact Or.inr ⟨hne, hfound⟩
        refine ⟨?_, ?_⟩
        · intro id id' found found' hfound hfound' hsame
          rw [hrows] at hfound hfound'
          rcases hfind hfound with ⟨heq, rfl⟩ | ⟨-, hold⟩
          · rcases hfind hfound' with ⟨heq', rfl⟩ | ⟨-, hold'⟩
            · rw [heq, heq']
            · exact absurd (hsame ▸ List.mem_cons_self) (h.new hold')
          · rcases hfind hfound' with ⟨heq', rfl⟩ | ⟨-, hold'⟩
            · exact absurd (hsame ▸ List.mem_cons_self) (h.new hold)
            · exact h.unique hold hold' hsame
        · intro id found hfound
          rw [hrows] at hfound
          rcases hfind hfound with ⟨-, rfl⟩ | ⟨-, hold⟩
          · exact (List.nodup_cons.mp hnew).1
          · exact hweak.new hold
  | mintSimpleDeviceCode deviceCode random =>
      exact Moves.secretsUnique (moves_step hconsistent.toIndexed _) hconsistent rfl hweak
  | request req clock random =>
      exact Moves.secretsUnique (moves_step hconsistent.toIndexed _) hconsistent rfl hweak
  | confirm clock now =>
      exact Moves.secretsUnique (moves_step hconsistent.toIndexed _) hconsistent rfl hweak
  | reject clock now =>
      exact Moves.secretsUnique (moves_step hconsistent.toIndexed _) hconsistent rfl hweak

theorem secretsUnique_run (events : List Event) (hconsistent : Consistent host opts s)
    (h : SecretsUnique s (events.filterMap (Event.mintedHash? host) ++ future))
    (hnew : (events.filterMap (Event.mintedHash? host) ++ future).Nodup) :
    SecretsUnique (Machine.run (step host opts) s events) future := by
  induction events generalizing s with
  | nil => exact h
  | cons e rest ih =>
      have hminted : (e :: rest).filterMap (Event.mintedHash? host) ++ future =
          (e.mintedHash? host).toList ++ (rest.filterMap (Event.mintedHash? host) ++ future) := by
        rw [List.filterMap_cons]
        cases e.mintedHash? host <;> rfl
      rw [hminted] at h hnew
      exact ih (consistent_step hconsistent e) (secretsUnique_step hconsistent e h hnew)
        (List.nodup_append.mp hnew).2.1

end PairingServer

open PairingServer

/-- The hash of the secret that is minted. -/
def CeremonyEvent.mintedHash? {ι : Type} (host : PairingHost) : CeremonyEvent ι → Option JsString
  | .elsewhere e => e.mintedHash? host
  | _ => none

namespace Ceremony

variable {host : PairingHost} {opts : MockPairingOpts} {ι : Type} [DecidableEq ι]
  {c : Ceremony ι} {future : List JsString}

theorem secretsUnique_step (hconsistent : Consistent host opts c.server) (e : CeremonyEvent ι)
    (h : SecretsUnique c.server ((e.mintedHash? host).toList ++ future))
    (hnew : ((e.mintedHash? host).toList ++ future).Nodup) :
    SecretsUnique (c.step host opts e).server future ∧
      Consistent host opts (c.step host opts e).server := by
  cases e with
  | elsewhere e =>
      exact ⟨PairingServer.secretsUnique_step hconsistent e h hnew, consistent_step hconsistent e⟩
  | deliver i clock random =>
      have hweak : SecretsUnique c.server future := h
      show SecretsUnique (((c.parties i).request? clock random).elim c.server _) future ∧
        Consistent host opts (((c.parties i).request? clock random).elim c.server _)
      unfold Party.request?
      split
      · rename_i req hwire
        exact ⟨PairingServer.secretsUnique_step hconsistent (.request req clock random) h hnew,
          consistent_step hconsistent (.request req clock random)⟩
      · exact ⟨hweak, hconsistent⟩
  | arrive i => exact ⟨h, hconsistent⟩
  | lost i => exact ⟨h, hconsistent⟩
  | input i input => exact ⟨h, hconsistent⟩

theorem secretsUnique_run (events : List (CeremonyEvent ι))
    (hconsistent : Consistent host opts c.server)
    (h : SecretsUnique c.server (events.filterMap (CeremonyEvent.mintedHash? host)))
    (hnew : (events.filterMap (CeremonyEvent.mintedHash? host)).Nodup) :
    SecretsUnique (Machine.run (step host opts) c events).server [] := by
  induction events generalizing c with
  | nil => exact h
  | cons e rest ih =>
      have hminted : (e :: rest).filterMap (CeremonyEvent.mintedHash? host) =
          (e.mintedHash? host).toList ++ rest.filterMap (CeremonyEvent.mintedHash? host) := by
        rw [List.filterMap_cons]
        cases e.mintedHash? host <;> rfl
      rw [hminted] at h hnew
      obtain ⟨hunique, hconsistent'⟩ := secretsUnique_step hconsistent e h hnew
      exact ih hconsistent' hunique (List.nodup_append.mp hnew).2.1

/-- **One secret pairs one device.**  Where no two secrets that are minted have one hash, and no two
poll tokens that are drawn, two devices with the same secret whose `connect` returns have the same
key and the same ids, whatever else happens at the server and whatever is lost. -/
theorem ceremony_exclusive {port : Nat} {before : List PairingServer.Event}
    {connects : ι → ConnectOptions × JsNumber × Seed} (hsimple : opts.simplePairing = false)
    (hstart : Starts host opts port before connects c) (events : List (CeremonyEvent ι))
    (hnew : (draws host events).Nodup)
    (hminted : (before.filterMap (Event.mintedHash? host) ++
      events.filterMap (CeremonyEvent.mintedHash? host)).Nodup)
    {i j : ι} (hsecret : (c.parties i).vars.token.secret = (c.parties j).vars.token.secret)
    {result result' : PairingResult}
    (hi : ((Machine.run (step host opts) c events).parties i).client.phase = .settled (.ok result))
    (hj : ((Machine.run (step host opts) c events).parties j).client.phase =
      .settled (.ok result')) :
    host.publicRaw (connects i).2.2 = host.publicRaw (connects j).2.2 ∧ result.ids = result'.ids := by
  have hserver : SecretsUnique c.server (events.filterMap (CeremonyEvent.mintedHash? host)) := by
    rw [hstart.server]
    exact PairingServer.secretsUnique_run before (consistent_fresh port)
      ⟨fun hrow => (nomatch hrow), fun hrow => nomatch hrow⟩ hminted
  have hunique := secretsUnique_run events (hstart.server ▸ consistent_after host opts port before)
    hserver (List.nodup_append.mp hminted).2.1
  obtain ⟨⟨row, hrow, hwinner, hhash, -, hids⟩, hkey⟩ := paired_run hsimple hstart events hnew hi
  obtain ⟨⟨row', hrow', hwinner', hhash', -, hids'⟩, hkey'⟩ :=
    paired_run hsimple hstart events hnew hj
  have hid : row.id = row'.id := hunique.unique hrow hrow' (by rw [hhash, hhash', hsecret])
  rw [hid] at hrow
  obtain rfl := Option.some.inj (hrow.symm.trans hrow')
  refine ⟨?_, hids.symm.trans hids'⟩
  rw [← hkey, ← hkey']
  exact Option.some.inj (hwinner.symm.trans hwinner')

/-- One device, paired twice with one token. -/
theorem local_exclusive : ∃ (p : Pairing) (result result' : PairingResult),
    connect localHost.toConnectHost localConnect (.ofInt 1000) countingSeed = .ok p ∧
    (Machine.run (step localHost plainOpts) (begun Bool p)
      (localEvents true 8 9 ++ localEvents false 10 11)).returned true = some result ∧
    (Machine.run (step localHost plainOpts) (begun Bool p)
      (localEvents true 8 9 ++ localEvents false 10 11)).returned false = some result' ∧
    result.ids = result'.ids := by
  have hreturned : ((connect localHost.toConnectHost localConnect (.ofInt 1000)
      countingSeed).toOption.any fun p => [true, false].all fun i =>
        ((Machine.run (step localHost plainOpts) (begun Bool p)
          (localEvents true 8 9 ++ localEvents false 10 11)).returned i).isSome) = true := by
    decide +kernel
  cases hconnect : connect localHost.toConnectHost localConnect (.ofInt 1000) countingSeed with
  | error e =>
      rw [hconnect] at hreturned
      exact nomatch hreturned
  | ok p =>
      rw [hconnect] at hreturned
      have hall := List.all_eq_true.mp hreturned
      obtain ⟨result, hresult⟩ := Option.isSome_iff_exists.mp (hall true (by decide))
      obtain ⟨result', hresult'⟩ := Option.isSome_iff_exists.mp (hall false (by decide))
      have hstart : Starts localHost plainOpts 8787 [localMint]
          (fun _ => (localConnect, .ofInt 1000, countingSeed)) (begun Bool p) :=
        ⟨rfl, fun _ => ⟨p, hconnect, rfl⟩⟩
      have hsecret : ((begun Bool p).parties true).vars.token.secret =
          ((begun Bool p).parties false).vars.token.secret := rfl
      have hsame := ceremony_exclusive rfl hstart (localEvents true 8 9 ++ localEvents false 10 11)
        (by decide +kernel) (by decide +kernel) hsecret (phase_of_returned hresult)
        (phase_of_returned hresult')
      exact ⟨p, result, result', rfl, hresult, hresult', hsame.2⟩

end Ceremony

end HuginAgent
