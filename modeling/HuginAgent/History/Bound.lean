/-
The bound on the bytes of an entry, `boundHistoryEntryBytes` of `src/sessions/history.ts`.

An entry that is too long loses tool calls from the end until what is left fits, and counts
them under what it has omitted.  Only if it does not fit without any of them is its text cut,
by a binary search for the longest prefix that fits.

The entries that the builders make fit without their calls (`Plain.bytes_le`), so they keep
their text, and what happens to them is told by `boundHistoryEntryBytes_cases`.
-/
import HuginAgent.History.Build
import HuginAgent.Js.Bytes
import Mathlib.Algebra.Order.BigOperators.Group.List

namespace HuginAgent

def historyEntryByteMax : Nat := 524288

/-! ### What has been omitted -/

/-- The place of a kind in `OMITTED_ORDER`. -/
def OmittedKind.rank (kind : OmittedKind) : Nat := omittedOrder.idxOf kind

/-- Count more under `other`: at the first item of the kind, or at the end. -/
def addOther : List OmittedItem → Nat → List OmittedItem
  | [], count => [⟨.other, count⟩]
  | item :: rest, count =>
      if item.kind = .other then ⟨.other, item.count + count⟩ :: rest
      else item :: addOther rest count

def incrementOmittedOther (entry : SessionHistoryEntry) (count : Nat) : SessionHistoryEntry :=
  if count = 0 then entry
  else { entry with
    omitted := some ((addOther (entry.omitted.getD []) count).insertionSort
      fun a b => a.kind.rank ≤ b.kind.rank) }

/-- One item for each kind, in `OMITTED_ORDER`. -/
def Ordered (items : List OmittedItem) : Prop :=
  items.Pairwise fun a b => a.kind.rank < b.kind.rank

/-- How many of a kind have been omitted. -/
def countOf (items : List OmittedItem) (kind : OmittedKind) : Nat :=
  ((items.filter fun item => item.kind = kind).map fun item => item.count).sum

theorem rank_injective {a b : OmittedKind} (h : a.rank = b.rank) : a = b := by
  cases a <;> cases b <;> first | rfl | exact absurd h (by decide)

theorem Ordered.nodup {items : List OmittedItem} (h : Ordered items) :
    (items.map fun item => item.kind).Nodup := by
  refine List.pairwise_map.mpr (h.imp ?_)
  intro a b hlt heq
  rw [heq] at hlt
  exact Nat.lt_irrefl _ hlt

theorem kinds_addOther (items : List OmittedItem) (count : Nat) :
    (addOther items count).map (fun item => item.kind) =
      if OmittedKind.other ∈ items.map fun item => item.kind then items.map fun item => item.kind
      else (items.map fun item => item.kind) ++ [.other] := by
  induction items with
  | nil => rfl
  | cons item rest ih =>
      rw [addOther, List.map_cons]
      by_cases hkind : item.kind = .other
      · rw [if_pos hkind, if_pos (by rw [hkind]; exact List.mem_cons_self), List.map_cons, hkind]
      · rw [if_neg hkind, List.map_cons, ih]
        have hmem : OmittedKind.other ∈ item.kind :: rest.map (fun item => item.kind) ↔
            OmittedKind.other ∈ rest.map fun item => item.kind := by
          rw [List.mem_cons]
          exact or_iff_right (Ne.symm hkind)
        by_cases hrest : OmittedKind.other ∈ rest.map fun item => item.kind
        · rw [if_pos hrest, if_pos (hmem.mpr hrest)]
        · rw [if_neg hrest, if_neg (mt hmem.mp hrest), List.cons_append]

theorem countOf_cons (item : OmittedItem) (rest : List OmittedItem) (kind : OmittedKind) :
    countOf (item :: rest) kind = (if item.kind = kind then item.count else 0) + countOf rest kind := by
  rw [countOf, countOf]
  by_cases hkind : item.kind = kind
  · rw [List.filter_cons_of_pos (by simpa using hkind), if_pos hkind, List.map_cons, List.sum_cons]
  · rw [List.filter_cons_of_neg (by simpa using hkind), if_neg hkind, Nat.zero_add]

theorem countOf_addOther (items : List OmittedItem) (count : Nat) (kind : OmittedKind) :
    countOf (addOther items count) kind =
      countOf items kind + if kind = .other then count else 0 := by
  induction items with
  | nil =>
      rw [addOther, countOf_cons]
      by_cases hkind : kind = .other
      · simp [countOf, hkind]
      · simp [countOf, hkind, Ne.symm hkind]
  | cons item rest ih =>
      rw [addOther]
      by_cases hitem : item.kind = .other
      · rw [if_pos hitem, countOf_cons, countOf_cons, hitem]
        by_cases hkind : kind = .other
        · simp only [hkind, if_true]
          omega
        · simp only [Ne.symm hkind, hkind, if_false]
          omega
      · rw [if_neg hitem, countOf_cons, countOf_cons, ih]
        omega

theorem countOf_perm {items items' : List OmittedItem} (h : items.Perm items') (kind : OmittedKind) :
    countOf items kind = countOf items' kind := ((h.filter _).map _).sum_eq

/-- What `incrementOmittedOther` does to the items. -/
theorem increment_spec {items : List OmittedItem} (h : Ordered items) (count : Nat) :
    Ordered ((addOther items count).insertionSort fun a b => a.kind.rank ≤ b.kind.rank) ∧
      ∀ kind, countOf ((addOther items count).insertionSort
          fun a b => a.kind.rank ≤ b.kind.rank) kind =
        countOf items kind + if kind = .other then count else 0 := by
  have hperm := List.perm_insertionSort (fun a b : OmittedItem => a.kind.rank ≤ b.kind.rank)
    (addOther items count)
  have htotal : Std.Total fun a b : OmittedItem => a.kind.rank ≤ b.kind.rank :=
    ⟨fun a b => Nat.le_total _ _⟩
  have htrans : IsTrans OmittedItem fun a b => a.kind.rank ≤ b.kind.rank :=
    ⟨fun _ _ _ => Nat.le_trans⟩
  have hsorted := List.pairwise_insertionSort
    (fun a b : OmittedItem => a.kind.rank ≤ b.kind.rank) (addOther items count)
  refine ⟨?_, fun kind => ?_⟩
  · have hnodup : ((addOther items count).map fun item => item.kind).Nodup := by
      rw [kinds_addOther]
      split
      · exact h.nodup
      · rename_i hother
        refine List.nodup_append.mpr ⟨h.nodup, List.nodup_singleton _, ?_⟩
        intro kind hkind last hmem heq
        rw [List.mem_singleton.mp hmem] at heq
        exact hother (heq ▸ hkind)
    have hdistinct := List.pairwise_map.mp ((hperm.map _).nodup_iff.mpr hnodup)
    refine (hsorted.and hdistinct).imp ?_
    intro a b hab
    exact Nat.lt_of_le_of_ne hab.1 fun heq => hab.2 (rank_injective heq)
  · rw [countOf_perm hperm, countOf_addOther]

/-! ### Dropping tool calls -/

namespace SessionHistoryEntry

/-- `entry.tool_calls ?? []`. -/
def calls (entry : SessionHistoryEntry) : List SessionToolCall := entry.toolCalls.getD []

/-- With these calls, or without the property where there are none. -/
def withCalls (entry : SessionHistoryEntry) (calls : List SessionToolCall) : SessionHistoryEntry :=
  { entry with toolCalls := if calls = [] then none else some calls }

@[simp] theorem calls_withCalls (entry : SessionHistoryEntry) (calls : List SessionToolCall) :
    (entry.withCalls calls).calls = calls := by
  unfold SessionHistoryEntry.calls withCalls
  by_cases h : calls = []
  · rw [if_pos h, h]
    rfl
  · rw [if_neg h]
    rfl

@[simp] theorem withCalls_withCalls (entry : SessionHistoryEntry)
    (calls calls' : List SessionToolCall) :
    (entry.withCalls calls).withCalls calls' = entry.withCalls calls' := rfl

end SessionHistoryEntry

/-- Where the loop over the calls leaves off. -/
structure Dropped where
  bounded : SessionHistoryEntry
  droppedToolCalls : Nat
  recordedDroppedToolCalls : Bool

def dropToolCalls (bounded : SessionHistoryEntry) (droppedToolCalls : Nat) : Dropped :=
  if h : 0 < bounded.calls.length then
    let candidate :=
      if 0 < droppedToolCalls then incrementOmittedOther bounded droppedToolCalls else bounded
    if historyEntryBytes candidate ≤ historyEntryByteMax then
      ⟨candidate, droppedToolCalls, decide (0 < droppedToolCalls)⟩
    else dropToolCalls (bounded.withCalls bounded.calls.dropLast) (droppedToolCalls + 1)
  else ⟨bounded, droppedToolCalls, false⟩
termination_by bounded.calls.length
decreasing_by
  rw [SessionHistoryEntry.calls_withCalls, List.length_dropLast]
  omega

/-- The binary search: `best` is the longest that fits so far. -/
def searchContent (entry best : SessionHistoryEntry) (lo hi : Int) : SessionHistoryEntry :=
  if h : lo ≤ hi then
    let mid := (lo + hi) / 2
    let candidate :=
      { entry with content := entry.content.take mid.toNat, contentTruncated := some true }
    if historyEntryBytes candidate ≤ historyEntryByteMax then
      searchContent entry candidate (mid + 1) hi
    else searchContent entry best lo (mid - 1)
  else best
termination_by (hi + 1 - lo).toNat
decreasing_by
  all_goals omega

def truncateEntryContentToByteLimit (entry : SessionHistoryEntry) : SessionHistoryEntry :=
  searchContent entry { entry with content := [], contentTruncated := some true } 0
    entry.content.length

/-- The copy that the source works on is the entry itself here. -/
def boundHistoryEntryBytes (entry : SessionHistoryEntry) : SessionHistoryEntry :=
  if historyEntryBytes entry ≤ historyEntryByteMax then entry
  else
    let d := dropToolCalls entry 0
    let bounded :=
      if 0 < d.droppedToolCalls && !d.recordedDroppedToolCalls then
        incrementOmittedOther d.bounded d.droppedToolCalls
      else d.bounded
    if historyEntryBytes bounded ≤ historyEntryByteMax then bounded
    else truncateEntryContentToByteLimit bounded

def buildHistoryEntries (host : HistoryHost) (engine : HistoryEngine) (content sessionId : JsString) :
    List SessionHistoryEntry :=
  let lines := parseJsonlLines host content
  let entries :=
    match engine with
    | .claude => buildClaudeHistoryEntries host lines sessionId
    | .codex => buildCodexHistoryEntries host lines sessionId
  entries.map boundHistoryEntryBytes

def readSessionHistory (host : HistoryHost) (engine : HistoryEngine) (content sessionId : JsString)
    (opts : HistoryPageOpts) (cursorScope : JsString) : Except HistoryCursorError HistoryPage :=
  paginateHistory host.sha256 (buildHistoryEntries host engine content sessionId) cursorScope opts

/-! ### A session: an event, and then its call -/

/-- The names of the first lines of the Codex session `s`. -/
def sampleHost : HistoryHost where
  sha256 := digestTable [
    (js "codex" ++ nul :: (js "s" ++ nul :: js "0"),
      [173, 170, 206, 33, 130, 50, 248, 44, 67, 41, 170, 127, 66, 69, 59, 35, 155, 246, 223, 230, 214,
        221, 68, 207, 44, 171, 12, 189, 189, 164, 16, 189]),
    (js "codex" ++ nul :: (js "s" ++ nul :: js "1"),
      [235, 152, 31, 97, 15, 205, 0, 190, 103, 110, 154, 118, 102, 127, 131, 85, 197, 223, 189, 75,
        137, 219, 215, 64, 25, 111, 2, 220, 192, 128, 40, 154]),
    (js "codex" ++ nul :: (js "s" ++ nul :: js "2"),
      [34, 197, 8, 146, 73, 101, 80, 211, 241, 148, 141, 212, 18, 53, 160, 171, 154, 167, 121, 237,
        142, 242, 247, 63, 154, 14, 83, 6, 168, 136, 4, 185])]
  parseDate _ := none
  number := .finite

def eventLine : JsString :=
  stringifyObject [(js "type", .lit "event_msg"),
    (js "payload", .obj [(js "type", .lit "exec_command_end"), (js "call_id", .lit "x")])] ++ [newline]

def callLine : JsString :=
  stringifyObject [(js "type", .lit "response_item"),
    (js "payload", .obj [(js "type", .lit "function_call"), (js "call_id", .lit "x"),
      (js "name", .lit "shell")])] ++ [newline]

/-! ### What the loop does -/

theorem incrementOmittedOther_zero (entry : SessionHistoryEntry) :
    incrementOmittedOther entry 0 = entry := if_pos rfl

theorem incrementOmittedOther_calls (entry : SessionHistoryEntry) (count : Nat) :
    (incrementOmittedOther entry count).calls = entry.calls := by
  unfold incrementOmittedOther
  split <;> rfl

/-- How the loop ends: some calls are kept and the rest is counted; either what is kept fits,
with the count in it where there is one, or nothing is kept. -/
structure DropsFrom (start : SessionHistoryEntry) (n : Nat) (d : Dropped)
    (kept rest : List SessionToolCall) : Prop where
  calls : start.calls = kept ++ rest
  dropped : d.droppedToolCalls = n + rest.length
  outcome :
    (d.bounded = incrementOmittedOther (if rest = [] then start else start.withCalls kept)
        d.droppedToolCalls ∧
      d.recordedDroppedToolCalls = decide (0 < d.droppedToolCalls) ∧
      historyEntryBytes d.bounded ≤ historyEntryByteMax) ∨
    (d.bounded = (if rest = [] then start else start.withCalls kept) ∧
      d.recordedDroppedToolCalls = false ∧ kept = [])

theorem dropToolCalls_spec (start : SessionHistoryEntry) (n : Nat) :
    ∃ kept rest, DropsFrom start n (dropToolCalls start n) kept rest := by
  fun_induction dropToolCalls start n with
  | case1 start n h candidate hfits =>
      refine ⟨start.calls, [], (List.append_nil _).symm, rfl, Or.inl ⟨?_, rfl, hfits⟩⟩
      show candidate = incrementOmittedOther start n
      by_cases hn : 0 < n
      · exact if_pos hn
      · obtain rfl := Nat.eq_zero_of_not_pos hn
        rw [incrementOmittedOther_zero]
        show (if 0 < 0 then incrementOmittedOther start 0 else start) = start
        exact if_neg hn
  | case2 start n h candidate hlong ih =>
      obtain ⟨kept, rest, hcalls, hdropped, houtcome⟩ := ih
      rw [SessionHistoryEntry.calls_withCalls] at hcalls
      have hne : start.calls ≠ [] := List.length_pos_iff.mp h
      have hsplit : start.calls = kept ++ (rest ++ [start.calls.getLast hne]) := by
        rw [← List.append_assoc, ← hcalls, List.dropLast_concat_getLast]
      have hmore : rest ++ [start.calls.getLast hne] ≠ [] := List.concat_ne_nil _ _
      have hstart : (if rest = [] then start.withCalls start.calls.dropLast
          else (start.withCalls start.calls.dropLast).withCalls kept) = start.withCalls kept := by
        split
        · rename_i hrest
          rw [hcalls, hrest, List.append_nil]
        · rfl
      refine ⟨kept, _, hsplit, ?_, ?_⟩
      · rw [hdropped, List.length_append, List.length_singleton]
        omega
      · rw [hstart] at houtcome
        rw [if_neg hmore]
        exact houtcome
  | case3 start n h =>
      have hnil : start.calls = [] := List.eq_nil_of_length_eq_zero (Nat.eq_zero_of_not_pos h)
      exact ⟨[], [], hnil, rfl, Or.inr ⟨rfl, rfl, rfl⟩⟩

/-- What is left when calls have been dropped and counted. -/
def SessionHistoryEntry.shortened (entry : SessionHistoryEntry) (kept rest : List SessionToolCall) :
    SessionHistoryEntry :=
  incrementOmittedOther (if rest = [] then entry else entry.withCalls kept) rest.length

/-- **An entry is kept, or shortened until it fits or has no calls left, and then its text is
cut.** -/
theorem boundHistoryEntryBytes_spec (entry : SessionHistoryEntry) :
    (boundHistoryEntryBytes entry = entry ∧ historyEntryBytes entry ≤ historyEntryByteMax) ∨
    (historyEntryByteMax < historyEntryBytes entry ∧ ∃ kept rest, entry.calls = kept ++ rest ∧
      ((historyEntryBytes (entry.shortened kept rest) ≤ historyEntryByteMax ∧
          boundHistoryEntryBytes entry = entry.shortened kept rest) ∨
        (historyEntryByteMax < historyEntryBytes (entry.shortened kept rest) ∧ kept = [] ∧
          boundHistoryEntryBytes entry =
            truncateEntryContentToByteLimit (entry.shortened kept rest)))) := by
  unfold boundHistoryEntryBytes
  split
  · rename_i hfits
    exact Or.inl ⟨rfl, hfits⟩
  · rename_i hlong
    obtain ⟨kept, rest, hcalls, hdropped, houtcome⟩ := dropToolCalls_spec entry 0
    rw [Nat.zero_add] at hdropped
    refine Or.inr ⟨Nat.not_le.mp hlong, kept, rest, hcalls, ?_⟩
    generalize dropToolCalls entry 0 = d at hdropped houtcome
    have hbounded : (if (0 < d.droppedToolCalls && !d.recordedDroppedToolCalls) = true then
          incrementOmittedOther d.bounded d.droppedToolCalls else d.bounded) =
        entry.shortened kept rest := by
      rcases houtcome with ⟨hbounded, hrecorded, -⟩ | ⟨hbounded, hrecorded, -⟩
      · rw [hrecorded, Bool.and_not_self, if_neg Bool.false_ne_true, hbounded, hdropped]
        rfl
      · rw [hrecorded, hbounded, hdropped, SessionHistoryEntry.shortened, Bool.not_false,
          Bool.and_true]
        by_cases hrest : rest.length = 0
        · rw [hrest, incrementOmittedOther_zero]
          rfl
        · rw [if_pos (decide_eq_true (Nat.pos_of_ne_zero hrest))]
    dsimp only
    rw [hbounded]
    split
    · rename_i hfits
      exact Or.inl ⟨hfits, rfl⟩
    · rename_i hlonger
      refine Or.inr ⟨Nat.not_le.mp hlonger, ?_, rfl⟩
      rcases houtcome with ⟨hincremented, -, hfits⟩ | ⟨-, -, hkept⟩
      · rw [hincremented, hdropped] at hfits
        exact absurd hfits hlonger
      · exact hkept

/-! ### What the search does -/

/-- The search ends with what it had, or with a prefix that fits. -/
theorem searchContent_spec (entry best : SessionHistoryEntry) (lo hi : Int) :
    searchContent entry best lo hi = best ∨
      ∃ n, searchContent entry best lo hi =
          { entry with content := entry.content.take n, contentTruncated := some true } ∧
        historyEntryBytes (searchContent entry best lo hi) ≤ historyEntryByteMax := by
  fun_induction searchContent entry best lo hi with
  | case1 best lo hi h mid candidate hfits ih =>
      rcases ih with heq | hrest
      · rw [heq]
        exact Or.inr ⟨_, rfl, hfits⟩
      · exact Or.inr hrest
  | case2 best lo hi h mid candidate hlong ih => exact ih
  | case3 => exact Or.inl rfl

/-- The text is cut to a prefix of it, and if any prefix fits then what is left fits. -/
theorem truncateEntryContentToByteLimit_spec (entry : SessionHistoryEntry) :
    ∃ n, truncateEntryContentToByteLimit entry =
        { entry with content := entry.content.take n, contentTruncated := some true } ∧
      (historyEntryBytes { entry with content := [], contentTruncated := some true } ≤
          historyEntryByteMax →
        historyEntryBytes (truncateEntryContentToByteLimit entry) ≤ historyEntryByteMax) := by
  rcases searchContent_spec entry { entry with content := [], contentTruncated := some true } 0
    entry.content.length with heq | ⟨n, heq, hfits⟩
  · exact ⟨0, heq, fun hempty => by rwa [truncateEntryContentToByteLimit, heq]⟩
  · exact ⟨n, heq, fun _ => hfits⟩

end HuginAgent
