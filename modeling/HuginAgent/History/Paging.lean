/-
Following the cursors of a session's history.

The pages a reader is given are a walk of the pager (`followHistory_walk`), so from last to
first they are the entries there were at the first question; this holds while the session
grows as well.
-/
import HuginAgent.History.Page

namespace HuginAgent

section Follow

variable {sha256 : JsString → List UInt8} {scope : JsString} {limit : Option JsNumber}

/-- The cursor of a page stands for where the page starts. -/
theorem cursorAt_encode {entries : List SessionHistoryEntry} {b : Nat} (hb : b ≤ entries.length) :
    CursorAt sha256 entries scope
      (some (encodeHistoryCursor (.ofInt b) (.ofInt (sessionSig sha256 scope)))) b :=
  ⟨⟨b, sessionSig sha256 scope⟩, decodeHistoryCursor_encode.mpr ⟨rfl, hb, rfl, rfl⟩, rfl⟩

/-- **From any cursor, following the cursors comes to an end, and the pages are a walk.** -/
theorem followHistory_walk {feed : Nat → List SessionHistoryEntry} :
    ∀ (b k : Nat) (cursor : Option JsString), (∀ j, b ≤ (feed j).length) →
      CursorAt sha256 (feed k) scope cursor b →
      ∃ pages, (∀ fuel, b < fuel →
          followHistory sha256 feed scope limit fuel k cursor = some pages) ∧
        (historyPager limit).Walk feed k b (pages.map fun page => page.entries) ∧
        ∀ page ∈ pages, ∃ j start boundary,
          PageOf sha256 (feed j) scope limit start boundary page ∧ (0 < b → 0 < boundary) := by
  intro b
  induction b using Nat.strong_induction_on with
  | _ b ih =>
      intro k cursor hb hcursor
      have hpage := (@paginateHistory_ok_iff sha256 _ scope limit _ _).mpr ⟨b, hcursor, rfl⟩
      have hof := @pageOf_pageAt sha256 _ scope limit b (hb k)
      by_cases hstart : 0 < (historyPager limit).start (feed k) b
      · -- there is more before this page
        have hpos : 0 < b := Nat.lt_of_lt_of_le hstart ((historyPager limit).start_le (hb k))
        have hlt := (historyPager limit).start_lt _ b hpos (hb k)
        have hnext := fun j => Nat.le_trans (Nat.le_of_lt hlt) (hb j)
        obtain ⟨pages, hfollow, hwalk, hpages⟩ := ih _ hlt (k + 1) _ hnext (cursorAt_encode (hnext _))
        refine ⟨pageAt sha256 (feed k) scope limit b :: pages, ?_, .next hstart hwalk, ?_⟩
        · intro fuel hfuel
          obtain ⟨fuel, rfl⟩ : ∃ n, fuel = n + 1 := ⟨fuel - 1, by omega⟩
          rw [followHistory, hpage]
          simp only [pageAt, if_pos hstart]
          rw [hfollow fuel (by omega)]
          rfl
        · intro page hmem
          rcases List.mem_cons.mp hmem with rfl | hmem
          · exact ⟨k, _, b, hof, id⟩
          · obtain ⟨j, start, boundary, hrest, hboundary⟩ := hpages page hmem
            exact ⟨j, start, boundary, hrest, fun _ => hboundary hstart⟩
      · refine ⟨[pageAt sha256 (feed k) scope limit b], ?_, .last (Nat.eq_zero_of_not_pos hstart), ?_⟩
        · intro fuel hfuel
          obtain ⟨fuel, rfl⟩ : ∃ n, fuel = n + 1 := ⟨fuel - 1, by omega⟩
          rw [followHistory, hpage]
          simp only [pageAt, if_neg hstart]
        · intro page hmem
          obtain rfl := List.mem_singleton.mp hmem
          exact ⟨k, _, b, hof, id⟩

/-- What a reader who started without a cursor has been given, last page first. -/
theorem followHistory_all {β : Type} {f : SessionHistoryEntry → β}
    {feed : Nat → List SessionHistoryEntry} (hext : Pager.Extends f (feed 0) feed) :
    ∃ pages, (∀ fuel, (feed 0).length < fuel →
        followHistory sha256 feed scope limit fuel 0 none = some pages) ∧
      (pages.map fun page => page.entries).reverse.flatten.map f = (feed 0).map f ∧
      ∀ page ∈ pages, ∃ j start boundary,
        PageOf sha256 (feed j) scope limit start boundary page ∧ (feed 0 ≠ [] → 0 < boundary) := by
  obtain ⟨pages, hfollow, hwalk, hpages⟩ :=
    @followHistory_walk sha256 scope limit feed (feed 0).length 0 none hext.length_le rfl
  refine ⟨pages, hfollow, ?_, ?_⟩
  · rw [hwalk.flatten _ hext (Nat.le_refl _), List.take_length]
  · intro page hmem
    obtain ⟨j, start, boundary, hof, hpos⟩ := hpages page hmem
    exact ⟨j, start, boundary, hof, fun hne => hpos (List.length_pos_iff.mpr hne)⟩

/-- What holds of the pages of a list of entries, under a scope and a limit. -/
structure HistoryPaged (sha256 : JsString → List UInt8) (entries : List SessionHistoryEntry)
    (scope : JsString) (limit : Option JsNumber) : Prop where
  /-- Without a cursor the walk ends, and its pages, last to first, are the list. -/
  complete : ∃ pages, (∀ fuel, entries.length < fuel →
      followHistory sha256 (fun _ => entries) scope limit fuel 0 none = some pages) ∧
    (pages.map fun page => page.entries).reverse.flatten = entries ∧
    ∀ page ∈ pages, (entries ≠ [] → page.entries ≠ []) ∧
      ∃ start boundary, PageOf sha256 entries scope limit start boundary page
  /-- Whatever the cursor, a page is a block of the list and says whether there is more. -/
  block : ∀ cursor page, paginateHistory sha256 entries scope { cursor, limit } = .ok page →
    ∃ start boundary, PageOf sha256 entries scope limit start boundary page ∧
      ∀ next, page.nextCursor = some next →
        decodeHistoryCursor next entries.length (sessionSig sha256 scope) =
          .ok ⟨start, sessionSig sha256 scope⟩
  /-- A page holds at most 256 entries, and no more than the limit cut to a whole number, but
  for one; without a limit, or with one that is not finite, at most 50. -/
  few : ∀ cursor page, paginateHistory sha256 entries scope { cursor, limit } = .ok page →
    page.entries.length ≤ 256 ∧
    (∀ d, limit = some (.finite d) → (page.entries.length : Int) ≤ max 1 d.trunc) ∧
    ((∀ d, limit ≠ some (.finite d)) → page.entries.length ≤ 50)
  /-- A cursor of another signature, or of no boundary of the list, is refused. -/
  refused : ∀ b sig : JsNumber,
    (sig ≠ .ofInt (sessionSig sha256 scope) ∨ ∀ k ≤ entries.length, b ≠ .ofInt k) →
      paginateHistory sha256 entries scope { cursor := some (encodeHistoryCursor b sig), limit } =
        .error .cursorInvalid

/-- **Paging loses and repeats nothing.** -/
theorem history_paged (sha256 : JsString → List UInt8) (entries : List SessionHistoryEntry)
    (scope : JsString) (limit : Option JsNumber) : HistoryPaged sha256 entries scope limit where
  complete := by
    obtain ⟨pages, hfollow, hflatten, hpages⟩ :=
      @followHistory_all sha256 scope limit _ id (fun _ => entries) fun _ => List.prefix_rfl
    rw [List.map_id, List.map_id] at hflatten
    refine ⟨pages, hfollow, hflatten, ?_⟩
    intro page hmem
    obtain ⟨j, start, boundary, hof, hpos⟩ := hpages page hmem
    refine ⟨?_, start, boundary, hof⟩
    intro hne hnil
    have hlength := hof.length
    have hlt := hof.start_lt (hpos hne)
    rw [hnil, List.length_nil] at hlength
    omega
  block := by
    intro cursor page h
    obtain ⟨b, hcursor, rfl⟩ := paginateHistory_ok_iff.mp h
    refine ⟨_, b, pageOf_pageAt hcursor.le, ?_⟩
    intro next hnext
    rw [(pageOf_pageAt hcursor.le).nextCursor] at hnext
    split at hnext
    · obtain rfl := Option.some.inj hnext
      have hle := Nat.le_trans ((historyPager limit).start_le hcursor.le) hcursor.le
      exact decodeHistoryCursor_encode.mpr ⟨rfl, hle, rfl, rfl⟩
    · exact nomatch hnext
  few := by
    intro cursor page h
    obtain ⟨b, hcursor, rfl⟩ := paginateHistory_ok_iff.mp h
    have hof := @pageOf_pageAt sha256 _ scope limit _ hcursor.le
    have hlength := hof.length
    have hfew := hof.few
    refine ⟨?_, ?_, ?_⟩
    · have hmax := clampLimit_le limit
      rw [historyPageMax] at hmax
      omega
    · rintro d rfl
      simp only [clampLimit, historyPageMax] at hfew
      omega
    · intro hlimit
      have hdefault : clampLimit limit = 50 := by
        unfold clampLimit
        split
        · exact absurd rfl (hlimit _)
        · rfl
      omega
  refused := by
    intro b sig h
    cases hpage : paginateHistory sha256 entries scope
        { cursor := some (encodeHistoryCursor b sig), limit } with
    | error e =>
        cases e
        rfl
    | ok page =>
        obtain ⟨-, ⟨c, hc, -⟩, -⟩ := paginateHistory_ok_iff.mp hpage
        obtain ⟨hb, hle, hsig, -⟩ := decodeHistoryCursor_encode.mp hc
        rcases h with hne | hne
        · exact absurd hsig hne
        · exact absurd hb (hne _ hle)

end Follow

def sampleEntry : SessionHistoryEntry where
  entryId := js "e_0"
  role := .user
  content := js "hello"
  createdAt := none

/-- A limit of zero gives one entry. -/
theorem page_of_none : ∃ page,
    paginateHistory (fun _ => []) [sampleEntry] [] { limit := some (.ofInt 0) } = .ok page ∧
      ¬ (page.entries.length : Int) ≤ min (Decimal.ofInt 0).trunc 256 :=
  ⟨_, rfl, by decide⟩

end HuginAgent
