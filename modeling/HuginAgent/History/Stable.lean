/-
A cursor outlives the file it was made of.

`append_stable_iff` says when the history of a file only grows as the file does, and with it
every boundary and every walk: always for Claude, and for Codex unless an event that has an
entry of its own is taken over by a call that is appended.
-/
import HuginAgent.History.Append

namespace HuginAgent

section Stable

variable {host : HistoryHost} {engine : HistoryEngine} {sessionId content : JsString}

/-- No two of the first `n` lines have hashes that begin alike. -/
def CollisionFree (host : HistoryHost) (engine : HistoryEngine) (sessionId : JsString) (n : Nat) :
    Prop :=
  ∀ i < n, ∀ j < n, entryId host engine sessionId i = entryId host engine sessionId j → i = j

/-! ### Names -/

theorem nodup_names (hfree : CollisionFree host engine sessionId (splitRecords content).length) :
    ((parseJsonlLines host content).map fun line =>
      entryId host engine sessionId line.lineIndex).Nodup := by
  obtain ⟨hsorted, hrange⟩ := jsonlFrom_numbered host (splitRecords content) 0
  refine List.pairwise_map.mpr (hsorted.imp_of_mem ?_)
  intro a b ha hb hlt heq
  have hindex := hfree a.lineIndex (by have h := (hrange a ha).2; omega) b.lineIndex
    (by have h := (hrange b hb).2; omega) heq
  omega

/-- What the entries of the records show. -/
def fileShows (host : HistoryHost) (engine : HistoryEngine) (sessionId : JsString)
    (lines : List JsonlLine) : List (JsString × HistoryRole × JsString) :=
  match engine with
  | .claude => lines.filterMap (claudeShows host sessionId)
  | .codex => codexTrace host sessionId (codexIndex lines) false lines

theorem shows_build (hlength : content.length ≤ maxSafeInteger) :
    (buildHistoryEntries host engine content sessionId).map SessionHistoryEntry.shows =
      fileShows host engine sessionId (parseJsonlLines host content) := by
  have hbound : (buildHistoryEntries host engine content sessionId).map SessionHistoryEntry.shows =
      (builtEntries host engine content sessionId).map SessionHistoryEntry.shows := by
    rw [buildHistoryEntries_eq, List.map_map]
    exact List.map_congr_left fun entry hentry =>
      (plain_builtEntries hlength entry hentry).bound_shows
  rw [hbound]
  cases engine with
  | claude => exact shows_claude host sessionId _
  | codex => exact shows_codex host sessionId _

theorem codexTrace_names (index : CodexIndex) (attended : Bool) (lines : List JsonlLine) :
    ((codexTrace host sessionId index attended lines).map Prod.fst).Sublist
      (lines.map fun line => entryId host .codex sessionId line.lineIndex) := by
  induction lines generalizing attended with
  | nil => exact List.Sublist.refl _
  | cons line lines ih =>
      have hrest := ih (codexAttended index attended line)
      rw [codexTrace, List.map_append, List.map_cons]
      unfold codexShows
      split
      · exact hrest.cons _
      · exact hrest.cons_cons _
      · split
        · exact hrest.cons _
        · exact hrest.cons_cons _

theorem claudeShows_names (lines : List JsonlLine) :
    ((lines.filterMap (claudeShows host sessionId)).map Prod.fst).Sublist
      (lines.map fun line => entryId host .claude sessionId line.lineIndex) := by
  induction lines with
  | nil => exact List.Sublist.refl _
  | cons line lines ih =>
      rw [List.filterMap_cons, List.map_cons]
      unfold claudeShows
      cases claudeRole line with
      | none => exact ih.cons _
      | some role => exact ih.cons_cons _

/-- **The entries of a file have different names.** -/
theorem nodup_entryIds (hlength : content.length ≤ maxSafeInteger)
    (hfree : CollisionFree host engine sessionId (splitRecords content).length) :
    ((buildHistoryEntries host engine content sessionId).map
      fun entry => entry.entryId).Nodup := by
  have hnames : (buildHistoryEntries host engine content sessionId).map (fun entry => entry.entryId) =
      (fileShows host engine sessionId (parseJsonlLines host content)).map Prod.fst := by
    rw [← shows_build hlength, List.map_map]
    rfl
  rw [hnames]
  refine List.Sublist.nodup ?_ (nodup_names hfree)
  cases engine with
  | claude => exact claudeShows_names _
  | codex => exact codexTrace_names _ _ _

/-! ### Growing -/

/-- An event of the file had an entry made for itself, and its call is appended. -/
def LosesOwner (host : HistoryHost) (content appended : JsString) : Prop :=
  OwnerLost (codexIndex (parseJsonlLines host content))
    ((appendedLines host content appended).filterMap codexCallId) false (parseJsonlLines host content)

/-- When what a file shows goes on being shown. -/
theorem prefix_iff {appended : JsString} (hended : content.getLast? = some newline)
    (hlength : (content ++ appended).length ≤ maxSafeInteger)
    (hfree : CollisionFree host engine sessionId (splitRecords (content ++ appended)).length) :
    (buildHistoryEntries host engine content sessionId).map SessionHistoryEntry.shows <+:
        (buildHistoryEntries host engine (content ++ appended) sessionId).map
          SessionHistoryEntry.shows ↔
      (engine = .codex → ¬ LosesOwner host content appended) := by
  have hshort : content.length ≤ maxSafeInteger := by
    rw [List.length_append] at hlength
    omega
  have hnodup := nodup_names hfree
  rw [parseJsonlLines_append hended, List.map_append, List.nodup_append] at hnodup
  rw [shows_build hshort, shows_build hlength, parseJsonlLines_append hended]
  cases engine with
  | claude =>
      refine iff_of_true ?_ (fun h => nomatch h)
      show List.filterMap _ _ <+: List.filterMap _ (_ ++ _)
      rw [List.filterMap_append]
      exact List.prefix_append _ _
  | codex =>
      have hids : (codexIndex (parseJsonlLines host content ++
          appendedLines host content appended)).callIds =
          (codexIndex (parseJsonlLines host content)).callIds ++
            (appendedLines host content appended).filterMap codexCallId := by
        rw [codexIndex_callIds, codexIndex_callIds, List.filterMap_append]
      show codexTrace _ _ _ _ _ <+: codexTrace _ _ _ _ _ ↔ _
      rw [codexTrace_append]
      constructor
      · intro hprefix _ hlost
        refine not_prefix_of_ownerLost hids hnodup.1 ?_ hlost hprefix
        intro v hv line hline heq
        obtain ⟨line', hline', hname⟩ := mem_codexTrace hv
        exact hnodup.2.2 _ (List.mem_map.mpr ⟨line, hline, rfl⟩) _
          (List.mem_map.mpr ⟨line', hline', rfl⟩) (heq.symm.trans hname)
      · intro hkept
        rw [codexTrace_more hids (hkept rfl)]
        exact List.prefix_append _ _

/-- A cursor that was accepted is accepted of a longer list, and says the same. -/
theorem decodeHistoryCursor_grown {cursor : JsString} {n n' expectedSig : Nat} {c : HistoryCursor}
    (h : decodeHistoryCursor cursor n expectedSig = .ok c) (hn : n ≤ n') :
    decodeHistoryCursor cursor n' expectedSig = .ok c := by
  unfold decodeHistoryCursor at h ⊢
  split
  · rename_i htext
    rw [if_pos htext] at h
    exact h
  · rename_i htext
    rw [if_neg htext] at h
    split
    · rename_i obj hread
      rw [hread] at h
      dsimp only at h
      split
      · rename_i b sig hb hsig
        rw [hb, hsig] at h
        dsimp only at h
        split at h
        · exact nomatch h
        · rename_i hrange
          rw [not_or, not_or] at hrange
          have hrange' : ¬(b < 0 ∨ b > (n' : Int) ∨ sig < 0) := by omega
          rw [if_neg hrange']
          exact h
      · rename_i hnone
        split at h
        · rename_i b sig hb hsig
          exact absurd hsig (hnone b sig hb)
        · exact h
    · rename_i hnone
      split at h
      · rename_i obj hread
        exact absurd hread (hnone obj)
      · exact h

/-! ### Stability -/

/-- What holds of a file that has ended with a line, when `appended k` has been appended to it as
it is read for the `k`th time. -/
structure AppendStable (host : HistoryHost) (engine : HistoryEngine) (sessionId content : JsString)
    (appended : Nat → JsString) : Prop where
  /-- Its entries are the first entries, under the same names and with the same text. -/
  grows : ∀ k, (buildHistoryEntries host engine content sessionId).map SessionHistoryEntry.shows <+:
    (buildHistoryEntries host engine (content ++ appended k) sessionId).map SessionHistoryEntry.shows
  distinct : ∀ k, ((buildHistoryEntries host engine (content ++ appended k) sessionId).map
    fun entry => entry.entryId).Nodup
  /-- A cursor stands for the same boundary, with the same entries before it. -/
  cursor : ∀ k scope cursor b,
    CursorAt host.sha256 (buildHistoryEntries host engine content sessionId) scope (some cursor) b →
      CursorAt host.sha256 (buildHistoryEntries host engine (content ++ appended k) sessionId) scope
          (some cursor) b ∧
        ((buildHistoryEntries host engine (content ++ appended k) sessionId).take b).map
            SessionHistoryEntry.shows =
          ((buildHistoryEntries host engine content sessionId).take b).map SessionHistoryEntry.shows
  /-- Following the cursors while the file grows gives its old entries, once and in order. -/
  walk : appended 0 = [] → ∀ scope limit, ∃ pages,
    (∀ fuel, (buildHistoryEntries host engine content sessionId).length < fuel →
      followHistory host.sha256
        (fun k => buildHistoryEntries host engine (content ++ appended k) sessionId) scope limit
        fuel 0 none = some pages) ∧
    (pages.map fun page => page.entries).reverse.flatten.map SessionHistoryEntry.shows =
      (buildHistoryEntries host engine content sessionId).map SessionHistoryEntry.shows

/-- **History is stable under appends just when no event loses the entry that was made for it.** -/
theorem append_stable_iff (host : HistoryHost) (engine : HistoryEngine) (sessionId content : JsString)
    (appended : Nat → JsString) (hended : content.getLast? = some newline)
    (hlength : ∀ k, (content ++ appended k).length ≤ maxSafeInteger)
    (hfree : ∀ k, CollisionFree host engine sessionId (splitRecords (content ++ appended k)).length) :
    AppendStable host engine sessionId content appended ↔
      (engine = .codex → ∀ k, ¬ LosesOwner host content (appended k)) := by
  constructor
  · intro h hcodex k
    exact (prefix_iff hended (hlength k) (hfree k)).mp (h.grows k) hcodex
  · intro hkept
    have hgrows := fun k => (prefix_iff hended (hlength k) (hfree k)).mpr fun hcodex => hkept hcodex k
    have hext : Pager.Extends SessionHistoryEntry.shows
        (buildHistoryEntries host engine content sessionId)
        (fun k => buildHistoryEntries host engine (content ++ appended k) sessionId) := hgrows
    refine ⟨hgrows, fun k => nodup_entryIds (hlength k) (hfree k), ?_, ?_⟩
    · intro k scope cursor b hcursor
      have hb := hcursor.le
      obtain ⟨c, hdecode, rfl⟩ := hcursor
      exact ⟨⟨c, decodeHistoryCursor_grown hdecode (hext.length_le k), rfl⟩, hext.take k hb⟩
    · intro hnone scope limit
      have hzero : buildHistoryEntries host engine (content ++ appended 0) sessionId =
          buildHistoryEntries host engine content sessionId := by
        rw [hnone, List.append_nil]
      obtain ⟨pages, hfollow, hflatten, -⟩ :=
        @followHistory_all host.sha256 scope limit _ SessionHistoryEntry.shows
          (fun k => buildHistoryEntries host engine (content ++ appended k) sessionId)
          (by rw [hzero]; exact hext)
      rw [hzero] at hfollow hflatten
      exact ⟨pages, hfollow, hflatten⟩

end Stable

/-! ### An event and its call -/

theorem append_stable_sample :
    AppendStable sampleHost .codex (js "s") eventLine (fun _ => callLine) ↔
      (HistoryEngine.codex = .codex → ∀ _ : Nat, ¬ LosesOwner sampleHost eventLine callLine) :=
  append_stable_iff sampleHost .codex (js "s") eventLine (fun _ => callLine)
    (by decide +kernel) (fun _ => by decide +kernel)
    (fun _ => by rw [CollisionFree]; decide +kernel)

/-- When the call is appended, the entry of its event is gone. -/
theorem entry_disappears :
    ¬ (buildHistoryEntries sampleHost .codex eventLine (js "s")).map (fun entry => entry.entryId) <+:
      (buildHistoryEntries sampleHost .codex (eventLine ++ callLine) (js "s")).map
        fun entry => entry.entryId := by
  decide +kernel

end HuginAgent
