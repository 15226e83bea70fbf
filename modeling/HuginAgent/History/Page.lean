/-
Pages of a session's history, `paginateHistory` of `src/sessions/history.ts`.

A page ends at a boundary and is scanned backwards, until it holds `limit` entries or the
next one would not fit the budget.  Its first entry is always taken, so a page gets on
whatever the sizes are.  The cursor of the next page holds where this one starts and a
signature of the scope it belongs to.

**Following the cursors gives every entry once and in order** (`history_paged`).  A limit is
cut to whole entries and kept between 1 and 256: asking for none or for less gives one.
-/
import HuginAgent.Conn.Frames
import HuginAgent.History.Entry
import HuginAgent.Js.Cursor
import HuginAgent.Kit.Paging

namespace HuginAgent

def historyPageDefault : Nat := 50

def historyPageMax : Nat := 256

def historyFrameBudget : Nat := maxFrameBytes - 16384

/-- `HistoryCursorError`. -/
inductive HistoryCursorError
  | cursorInvalid
deriving DecidableEq

/-! ### Signatures -/

/-- `hash.digest("hex")`. -/
def hexText (digest : List UInt8) : JsString :=
  digest.flatMap fun b => [hexDigit (b.toNat / 16), hexDigit (b.toNat % 16)]

/-- `parseInt(s, 16)` of hexadecimal digits. -/
def hexValue (s : JsString) : Nat :=
  s.foldl (fun n u => 16 * n + (hexVal u).getD 0) 0

/-- `& 0x7fffffff`. -/
def sessionSig (sha256 : JsString → List UInt8) (sessionId : JsString) : Nat :=
  hexValue ((hexText (sha256 sessionId)).take 8) % 2 ^ 31

/-! ### The cursor -/

def encodeHistoryCursor (boundary sig : JsNumber) : JsString :=
  writeCursor [(js "b", .num boundary), (js "sig", .num sig)]

/-- `Number.isInteger(v)`, with the integer. -/
def JsValue.toInteger? : JsValue → Option Int
  | .num (.finite d) => d.toInt?
  | _ => none

structure HistoryCursor where
  b : Nat
  sig : Nat
deriving DecidableEq

def decodeHistoryCursor (cursor : JsString) (entryCount expectedSig : Nat) :
    Except HistoryCursorError HistoryCursor :=
  if !isCursorText cursor then .error .cursorInvalid
  else
    match readCursor cursor with
    | some (.obj obj) =>
        match (JsObject.get obj (js "b")).toInteger?, (JsObject.get obj (js "sig")).toInteger? with
        | some b, some sig =>
            if b < 0 ∨ b > entryCount ∨ sig < 0 then .error .cursorInvalid
            else if sig ≠ expectedSig then .error .cursorInvalid
            else .ok ⟨b.toNat, sig.toNat⟩
        | _, _ => .error .cursorInvalid
    | _ => .error .cursorInvalid

/-! ### Pages -/

def clampLimit : Option JsNumber → Nat
  | some (.finite limit) => (max 1 (min limit.trunc historyPageMax)).toNat
  | _ => historyPageDefault

/-- The loop over `i`, which is one less than the first argument. -/
def scanPage (entries : List SessionHistoryEntry) (limit : Nat) :
    (i start count bytes : Nat) → Nat
  | 0, start, _, _ => start
  | i + 1, start, count, bytes =>
      if count < limit then
        match entries[i]? with
        | none => start
        | some entry =>
            let entryBytes := historyEntryBytes entry
            if 0 < count ∧ historyFrameBudget < bytes + entryBytes then start
            else scanPage entries limit i i (count + 1) (bytes + entryBytes)
      else start

structure HistoryPageOpts where
  cursor : Option JsString := none
  limit : Option JsNumber := none

structure HistoryPage where
  entries : List SessionHistoryEntry
  nextCursor : Option JsString
  truncated : Bool
deriving DecidableEq

def paginateHistory (sha256 : JsString → List UInt8) (entries : List SessionHistoryEntry)
    (cursorScope : JsString) (opts : HistoryPageOpts) : Except HistoryCursorError HistoryPage := do
  let limit := clampLimit opts.limit
  let sig := sessionSig sha256 cursorScope
  let boundary ← match opts.cursor with
    | none => .ok entries.length
    | some cursor => (decodeHistoryCursor cursor entries.length sig).map fun c => c.b
  let start := scanPage entries limit boundary boundary 0 0
  return {
    entries := (entries.take boundary).drop start
    nextCursor := if 0 < start then some (encodeHistoryCursor (.ofInt start) (.ofInt sig)) else none
    truncated := decide (0 < start) }

/-- Ask for a page, and for the one its cursor names, until there is no cursor.  The session
holds `feed k` when the `k`th page is asked for. -/
def followHistory (sha256 : JsString → List UInt8) (feed : Nat → List SessionHistoryEntry)
    (cursorScope : JsString) (limit : Option JsNumber) :
    (fuel k : Nat) → Option JsString → Option (List HistoryPage)
  | 0, _, _ => none
  | fuel + 1, k, cursor =>
      match paginateHistory sha256 (feed k) cursorScope { cursor, limit } with
      | .error _ => none
      | .ok page =>
          match page.nextCursor with
          | none => some [page]
          | some next =>
              (followHistory sha256 feed cursorScope limit fuel (k + 1) (some next)).map (page :: ·)

/-! ### What a cursor says -/

theorem toInteger?_num {n : JsNumber} {i : Int} :
    (JsValue.num n).toInteger? = some i ↔ n = .ofInt i := by
  constructor
  · intro h
    cases n with
    | finite d => rw [Decimal.eq_ofInt h, JsNumber.ofInt]
    | nan => exact nomatch h
    | infinity neg => exact nomatch h
  · rintro rfl
    exact Decimal.toInt?_ofInt i

/-- A number that is not finite is `null` on the wire, and neither is an integer. -/
theorem toInteger?_onWire (n : JsNumber) :
    (JsValue.num n).onWire.toInteger? = (JsValue.num n).toInteger? := by
  cases n with
  | finite d => rfl
  | nan => rfl
  | infinity neg => rfl

/-- **A cursor is accepted if it was made of a boundary there is and of the signature that is
expected, and of nothing else.** -/
theorem decodeHistoryCursor_encode {b sig : JsNumber} {entryCount expectedSig : Nat}
    {c : HistoryCursor} :
    decodeHistoryCursor (encodeHistoryCursor b sig) entryCount expectedSig = .ok c ↔
      b = .ofInt c.b ∧ c.b ≤ entryCount ∧ sig = .ofInt expectedSig ∧ c.sig = expectedSig := by
  have hkeys : (JsObject.keys [(js "b", JsValue.num b), (js "sig", .num sig)]).Nodup :=
    (by decide : [js "b", js "sig"].Nodup)
  have hget (key : JsString) (n : JsNumber)
      (h : JsObject.get [(js "b", .num b), (js "sig", .num sig)] key = .num n) :
      ((JsObject.onWire [(js "b", .num b), (js "sig", .num sig)]).get key).toInteger? =
        (JsValue.num n).toInteger? := by
    rw [JsObject.get_onWire _ hkeys, h, toInteger?_onWire]
  have hread : readCursor (encodeHistoryCursor b sig) =
      some (.obj (JsObject.onWire [(js "b", .num b), (js "sig", .num sig)])) :=
    readCursor_writeCursor _ rfl
  have htext : isCursorText (encodeHistoryCursor b sig) = true := isCursorText_writeCursor _
  simp only [decodeHistoryCursor, htext, hread, Bool.not_true, Bool.false_eq_true, if_false]
  rw [hget (js "b") b rfl, hget (js "sig") sig rfl]
  constructor
  · intro h
    split at h
    · rename_i i j hi hj
      rw [toInteger?_num] at hi hj
      split at h
      · exact nomatch h
      · split at h
        · exact nomatch h
        · rename_i hrange hsig
          obtain rfl := Except.ok.inj h
          rw [not_or, not_or] at hrange
          have hi' : ((i.toNat : Nat) : Int) = i := by omega
          refine ⟨by rw [hi, hi'], by show i.toNat ≤ entryCount; omega, ?_, ?_⟩
          · rw [hj, not_not.mp hsig]
          · show j.toNat = expectedSig
            omega
    · exact nomatch h
  · rintro ⟨rfl, hle, rfl, hsig⟩
    have hb := toInteger?_num.mpr (rfl : JsNumber.ofInt c.b = .ofInt c.b)
    have hs := toInteger?_num.mpr (rfl : JsNumber.ofInt expectedSig = .ofInt expectedSig)
    rw [hb, hs]
    have hrange : ¬((c.b : Int) < 0 ∨ (c.b : Int) > entryCount ∨ (expectedSig : Int) < 0) := by
      omega
    simp only [if_neg hrange, ne_eq, not_true_eq_false, if_false]
    obtain ⟨cb, csig⟩ := c
    simp only at hsig
    rw [hsig]
    rfl

/-! ### Where a page starts -/

theorem clampLimit_pos (limit : Option JsNumber) : 0 < clampLimit limit := by
  unfold clampLimit
  split
  · omega
  · decide

theorem clampLimit_le (limit : Option JsNumber) : clampLimit limit ≤ historyPageMax := by
  unfold clampLimit historyPageMax
  split
  · omega
  · decide

section Scan

variable {entries : List SessionHistoryEntry} {limit : Nat}

/-- One more entry is taken, or the scan stops. -/
theorem scanPage_succ (i start count bytes : Nat) :
    (∃ entryBytes, count < limit ∧ scanPage entries limit (i + 1) start count bytes =
        scanPage entries limit i i (count + 1) (bytes + entryBytes)) ∨
      scanPage entries limit (i + 1) start count bytes = start := by
  rw [scanPage]
  split
  · rename_i hcount
    split
    · exact Or.inr rfl
    · rename_i entry _
      dsimp only
      split
      · exact Or.inr rfl
      · exact Or.inl ⟨historyEntryBytes entry, hcount, rfl⟩
  · exact Or.inr rfl

/-- The scan goes down, by no more than what is left of the limit. -/
theorem scanPage_le (i count bytes : Nat) (hcount : count ≤ limit) :
    scanPage entries limit i i count bytes ≤ i ∧
      i + count ≤ scanPage entries limit i i count bytes + limit := by
  induction i generalizing count bytes with
  | zero => exact ⟨Nat.le_refl 0, by rw [scanPage]; omega⟩
  | succ i ih =>
      rcases @scanPage_succ entries limit i (i + 1) count bytes with
        ⟨entryBytes, hlt, heq⟩ | heq
      · have hrest := ih (count + 1) (bytes + entryBytes) hlt
        rw [heq]
        omega
      · rw [heq]
        omega

/-- The first entry of a page is always taken. -/
theorem scanPage_lt {b : Nat} (hpos : 0 < b) (hb : b ≤ entries.length) (hlimit : 0 < limit) :
    scanPage entries limit b b 0 0 < b := by
  obtain ⟨i, rfl⟩ : ∃ i, b = i + 1 := ⟨b - 1, by omega⟩
  rw [scanPage, if_pos hlimit, List.getElem?_eq_getElem (by omega)]
  simp only [Nat.lt_irrefl, false_and, if_false, Nat.zero_add]
  have hrest := (@scanPage_le entries limit i 1 (historyEntryBytes entries[i]) hlimit).1
  omega

end Scan

/-- The blocks that the pages of a session are. -/
def historyPager (limit : Option JsNumber) : Pager SessionHistoryEntry where
  start entries b := scanPage entries (clampLimit limit) b b 0 0
  start_zero _ := rfl
  start_lt _ _ hpos hb := scanPage_lt hpos hb (clampLimit_pos limit)

/-! ### Pages -/

section Pages

variable {sha256 : JsString → List UInt8} {entries : List SessionHistoryEntry} {scope : JsString}
  {limit : Option JsNumber}

/-- The page is what the entries hold from `start` to `boundary`, and says so. -/
structure PageOf (sha256 : JsString → List UInt8) (entries : List SessionHistoryEntry)
    (scope : JsString) (limit : Option JsNumber) (start boundary : Nat) (page : HistoryPage) :
    Prop where
  start_le : start ≤ boundary
  boundary_le : boundary ≤ entries.length
  /-- The block is empty only where there is nothing before the boundary. -/
  start_lt : 0 < boundary → start < boundary
  few : boundary ≤ start + clampLimit limit
  block : page.entries = (entries.take boundary).drop start
  truncated_iff : page.truncated = true ↔ 0 < start
  nextCursor : page.nextCursor =
    if 0 < start then some (encodeHistoryCursor (.ofInt start) (.ofInt (sessionSig sha256 scope)))
    else none

theorem PageOf.length {start boundary : Nat} {page : HistoryPage}
    (h : PageOf sha256 entries scope limit start boundary page) :
    page.entries.length = boundary - start := by
  rw [h.block, List.length_drop, List.length_take, Nat.min_eq_left h.boundary_le]

/-- The boundary a cursor stands for. -/
def CursorAt (sha256 : JsString → List UInt8) (entries : List SessionHistoryEntry)
    (scope : JsString) (cursor : Option JsString) (b : Nat) : Prop :=
  match cursor with
  | none => b = entries.length
  | some cursor => ∃ c, decodeHistoryCursor cursor entries.length (sessionSig sha256 scope) = .ok c ∧
      c.b = b

theorem decodeHistoryCursor_le {cursor : JsString} {entryCount expectedSig : Nat}
    {c : HistoryCursor} (h : decodeHistoryCursor cursor entryCount expectedSig = .ok c) :
    c.b ≤ entryCount := by
  unfold decodeHistoryCursor at h
  split at h
  · exact nomatch h
  split at h
  · split at h
    · split at h
      · exact nomatch h
      · rename_i hrange
        split at h
        · exact nomatch h
        · obtain rfl := Except.ok.inj h
          rw [not_or, not_or] at hrange
          show Int.toNat _ ≤ entryCount
          omega
    · exact nomatch h
  · exact nomatch h

theorem CursorAt.le {cursor : Option JsString} {b : Nat}
    (h : CursorAt sha256 entries scope cursor b) : b ≤ entries.length := by
  cases cursor with
  | none => exact Nat.le_of_eq h
  | some cursor =>
      obtain ⟨c, hc, rfl⟩ := h
      exact decodeHistoryCursor_le hc

/-- The page that ends at a boundary. -/
def pageAt (sha256 : JsString → List UInt8) (entries : List SessionHistoryEntry)
    (scope : JsString) (limit : Option JsNumber) (b : Nat) : HistoryPage where
  entries := (historyPager limit).page entries b
  nextCursor :=
    if 0 < (historyPager limit).start entries b then
      some (encodeHistoryCursor (.ofInt ((historyPager limit).start entries b))
        (.ofInt (sessionSig sha256 scope)))
    else none
  truncated := decide (0 < (historyPager limit).start entries b)

/-- A page is asked for with a cursor that stands for a boundary, or refused. -/
theorem paginateHistory_ok_iff {cursor : Option JsString} {page : HistoryPage} :
    paginateHistory sha256 entries scope { cursor, limit } = .ok page ↔
      ∃ b, CursorAt sha256 entries scope cursor b ∧ page = pageAt sha256 entries scope limit b := by
  unfold paginateHistory
  cases cursor with
  | none =>
      constructor
      · intro h
        exact ⟨_, rfl, (Except.ok.inj h).symm⟩
      · rintro ⟨b, rfl, rfl⟩
        rfl
  | some cursor =>
      simp only [CursorAt]
      cases hc : decodeHistoryCursor cursor entries.length (sessionSig sha256 scope) with
      | error e =>
          constructor
          · intro h
            exact nomatch h
          · rintro ⟨b, ⟨c, hok, -⟩, -⟩
            exact nomatch hok
      | ok c =>
          constructor
          · intro h
            exact ⟨c.b, ⟨c, rfl, rfl⟩, (Except.ok.inj h).symm⟩
          · rintro ⟨b, ⟨c', hok, rfl⟩, rfl⟩
            obtain rfl := Except.ok.inj hok
            rfl

theorem pageOf_pageAt {b : Nat} (hb : b ≤ entries.length) :
    PageOf sha256 entries scope limit ((historyPager limit).start entries b) b
      (pageAt sha256 entries scope limit b) where
  start_le := (historyPager limit).start_le hb
  boundary_le := hb
  start_lt hpos := (historyPager limit).start_lt entries b hpos hb
  few := (scanPage_le b 0 0 (Nat.zero_le _)).2
  block := rfl
  truncated_iff := decide_eq_true_iff
  nextCursor := rfl

end Pages

end HuginAgent
