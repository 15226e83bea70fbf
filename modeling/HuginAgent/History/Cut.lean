/-
Where the byte limit cuts a text.

The search for the longest prefix that fits asks for lengths in units, and a prefix that ends
inside a pair is written with an escape of six bytes where the whole pair takes four.  So the
prefix after it fits as well, and the search never stops inside a pair.
-/
import HuginAgent.History.Bound
import HuginAgent.Js.Halves

namespace HuginAgent

variable {s t : JsString} {u v : UInt16}

/-! ### Bytes of a text that is cut -/

theorem utf8LengthAt_eq (p : Bool) (u : UInt16) (rest : JsString) :
    utf8LengthAt p u rest =
      if u < 0x80 then 1 else if u < 0x800 then 2
      else if isHighSurrogate u && startsLow rest then 4
      else if isLowSurrogate u && p then 0 else 3 := rfl

theorem utf8LengthFrom_prev (hs : startsLow s = false) (p q : Bool) :
    utf8LengthFrom p s = utf8LengthFrom q s := by
  cases s with
  | nil => rfl
  | cons u s =>
      rw [startsLow_cons] at hs
      rw [utf8LengthFrom, utf8LengthFrom, utf8LengthAt_eq, utf8LengthAt_eq, hs]
      rfl

theorem utf8LengthFrom_join (ht : startsLow t = false) (p : Bool) (s : JsString) :
    utf8LengthFrom p (s ++ t) = utf8LengthFrom p s + byteLength t := by
  induction s generalizing p with
  | nil => rw [List.nil_append, utf8LengthFrom, Nat.zero_add, byteLength, utf8LengthFrom_prev ht p false]
  | cons u s ih =>
      have hnext : startsLow (s ++ t) = startsLow s := by
        cases s with
        | nil => exact ht
        | cons v s => rfl
      rw [List.cons_append, utf8LengthFrom, utf8LengthFrom, ih, utf8LengthAt_eq, utf8LengthAt_eq, hnext,
        Nat.add_assoc]

theorem quoteFrom_join (ht : startsLow t = false) (p : Bool) (s : JsString) :
    quoteFrom p (s ++ t) = quoteFrom p s ++ quoteFrom (endsHigh p s) t := by
  induction s generalizing p with
  | nil => rfl
  | cons u s ih =>
      have hnext : startsLow (s ++ t) = startsLow s := by
        cases s with
        | nil => exact ht
        | cons v s => rfl
      have hunit : quoteUnit p u (s ++ t) = quoteUnit p u s := by
        rw [quoteUnit, quoteUnit, isLone_eq, isLone_eq, hnext]
      rw [List.cons_append, quoteFrom, quoteFrom, ih, hunit, endsHigh_cons, List.append_assoc]

/-- A surrogate is no unit that has an escape of its own. -/
theorem quoteUnit_surrogate {p : Bool} {rest : JsString} (hu : 0xD800 ≤ u.toNat) :
    quoteUnit p u rest = if isLone p u rest then unicodeEscape u else [u] := by
  have hne : ∀ {w : UInt16}, w.toNat < 0xD800 → u ≠ w := by
    intro w hw heq
    rw [heq] at hu
    omega
  have hsmall : decide (u < 32) = false := by
    have h32 : (32 : UInt16).toNat = 32 := rfl
    rw [decide_eq_false_iff_not, UInt16.lt_iff_toNat_lt]
    omega
  unfold quoteUnit
  rw [if_neg (hne (by decide)), if_neg (hne (by decide)), if_neg (hne (by decide)),
    if_neg (hne (by decide)), if_neg (hne (by decide)), if_neg (hne (by decide)),
    if_neg (hne (by decide)), hsmall, Bool.false_or]

/-- Half a pair takes more bytes than the pair. -/
theorem quote_half (hu : isHighSurrogate u = true) (hv : isLowSurrogate v = true) (p : Bool) :
    byteLength (quoteFrom p [u, v]) ≤ byteLength (quoteFrom p [u]) := by
  have hhigh := (isHighSurrogate_iff u).mp hu
  have hlow := (isLowSurrogate_iff v).mp hv
  have hulow : isLowSurrogate u = false := not_low_of_high hu
  have hvhigh : isHighSurrogate v = false := by
    rw [← Bool.not_eq_true, isHighSurrogate_iff]
    omega
  have hhalf : quoteFrom p [u] = unicodeEscape u := by
    rw [quoteFrom, quoteFrom, quoteUnit_surrogate hhigh.1, isLone_eq, hu, hulow, List.append_nil]
    rfl
  have hpair : quoteFrom p [u, v] = [u, v] := by
    rw [quoteFrom, quoteFrom, quoteFrom, quoteUnit_surrogate hhigh.1,
      quoteUnit_surrogate (by omega), isLone_eq, isLone_eq, hu, hulow, hv, hvhigh, startsLow_cons, hv]
    rfl
  have hbytes : byteLength [u, v] ≤ 4 := by
    have hfirst : utf8LengthAt false u [v] ≤ 4 := utf8LengthAt_le _ _ _
    have hsecond : utf8LengthAt true v [] = 0 := by
      have h80 : ¬ v < 0x80 := by
        rw [UInt16.lt_iff_toNat_lt]
        exact Nat.not_lt.mpr (Nat.le_trans (by decide) hlow.1)
      have h800 : ¬ v < 0x800 := by
        rw [UInt16.lt_iff_toNat_lt]
        exact Nat.not_lt.mpr (Nat.le_trans (by decide) hlow.1)
      rw [utf8LengthAt_eq, if_neg h80, if_neg h800, hvhigh, hv]
      rfl
    rw [byteLength, utf8LengthFrom, utf8LengthFrom, utf8LengthFrom, hu, hsecond]
    omega
  have hescape : byteLength (unicodeEscape u) = 6 := by
    rw [byteLength_of_ascii (unicodeEscape_ascii u)]
    rfl
  rw [hhalf, hpair, hescape]
  omega

theorem quotedBytes_eq (s : JsString) : quotedBytes s = byteLength (quoteFrom false s) + 2 := by
  rw [quotedBytes, quote, byteLength_cons (by decide), byteLength_snoc (by decide)]
  omega

/-- **A prefix that ends inside a pair takes more bytes than the next one.** -/
theorem quotedBytes_splits {n : Nat} (h : splitsPair s n = true) :
    quotedBytes (s.take (n + 1)) ≤ quotedBytes (s.take n) := by
  rw [splitsPair, Bool.and_eq_true] at h
  obtain ⟨hends, hstarts⟩ := h
  rcases List.eq_nil_or_concat (s.take n) with hnil | ⟨before, u, htake⟩
  · rw [hnil] at hends
    exact absurd hends Bool.false_ne_true
  rw [List.concat_eq_append] at htake
  have hu : isHighSurrogate u = true := by
    rw [htake, endsHigh, List.getLast?_concat] at hends
    exact hends
  cases hdrop : s.drop n with
  | nil =>
      rw [hdrop] at hstarts
      exact absurd hstarts Bool.false_ne_true
  | cons v after =>
      rw [hdrop, startsLow_cons] at hstarts
      have hnext : s.take (n + 1) = before ++ [u, v] := by
        rw [List.take_add, hdrop, htake, List.append_assoc]
        rfl
      have hhalf := quote_half hu hstarts (endsHigh false before)
      have hstart : ∀ rest, startsLow (u :: rest) = false := fun rest => not_low_of_high hu
      have hquoted : ∀ p rest, startsLow (quoteFrom p (u :: rest)) = false := by
        intro p rest
        rw [quoteFrom, quoteUnit_surrogate ((isHighSurrogate_iff u).mp hu).1]
        split
        · rfl
        · exact not_low_of_high hu
      rw [quotedBytes_eq, quotedBytes_eq, hnext, htake, quoteFrom_join (hstart [v]),
        quoteFrom_join (hstart []), byteLength, byteLength, utf8LengthFrom_join (hquoted _ _),
        utf8LengthFrom_join (hquoted _ _)]
      omega

/-! ### Bytes of an entry that is cut -/

/-- The entry with the text cut to a length. -/
def SessionHistoryEntry.cutTo (entry : SessionHistoryEntry) (n : Nat) : SessionHistoryEntry :=
  { entry with content := entry.content.take n, contentTruncated := some true }

theorem historyEntryBytes_eq (entry : SessionHistoryEntry) :
    historyEntryBytes entry = 1 + (entry.fields.map entryBytes).sum :=
  byteLength_stringifyObject _ _ rfl

theorem entryBytes_str (key text : JsString) :
    entryBytes (key, .str text) = quotedBytes key + quotedBytes text + 2 := rfl

theorem cutTo_splits {entry : SessionHistoryEntry} {n : Nat} (h : splitsPair entry.content n = true) :
    historyEntryBytes (entry.cutTo (n + 1)) ≤ historyEntryBytes (entry.cutTo n) := by
  have hbytes := quotedBytes_splits h
  rw [historyEntryBytes_eq, historyEntryBytes_eq]
  simp only [SessionHistoryEntry.fields, SessionHistoryEntry.cutTo, List.map_cons, List.sum_cons,
    entryBytes_str]
  omega

/-- The mark only adds to an entry that has none. -/
theorem cutTo_whole {entry : SessionHistoryEntry} (h : entry.contentTruncated ≠ some false) {n : Nat}
    (hn : entry.content.length ≤ n) : historyEntryBytes entry ≤ historyEntryBytes (entry.cutTo n) := by
  have hmark : entryBytes (js "content_truncated", .optional .bool entry.contentTruncated) ≤
      entryBytes (js "content_truncated", .optional .bool (some true)) := by
    cases hold : entry.contentTruncated with
    | none => exact Nat.zero_le _
    | some b =>
        cases b with
        | true => exact Nat.le_refl _
        | false => exact absurd hold h
  rw [historyEntryBytes_eq, historyEntryBytes_eq]
  simp only [SessionHistoryEntry.fields, SessionHistoryEntry.cutTo, List.map_cons, List.sum_cons,
    List.take_of_length_le hn]
  omega

/-! ### Where the search stops -/

/-- The search stops at a prefix that fits while the next does not, or with nothing. -/
theorem searchContent_stops (entry best : SessionHistoryEntry) (lo hi : Int) (hlo : 0 ≤ lo)
    (hle : lo ≤ hi + 1) (hbest : best = entry.cutTo (lo - 1).toNat)
    (hfits : lo = 0 ∨ historyEntryBytes best ≤ historyEntryByteMax)
    (hnext : hi = entry.content.length ∨
      ¬ historyEntryBytes (entry.cutTo (hi + 1).toNat) ≤ historyEntryByteMax) :
    ∃ n, searchContent entry best lo hi = entry.cutTo n ∧
      (n = 0 ∨ historyEntryBytes (entry.cutTo n) ≤ historyEntryByteMax ∧
        (n = entry.content.length ∨
          ¬ historyEntryBytes (entry.cutTo (n + 1)) ≤ historyEntryByteMax)) := by
  fun_induction searchContent entry best lo hi with
  | case1 best lo hi h mid candidate hcandidate ih =>
      have hmid : mid = (lo + hi) / 2 := rfl
      refine ih (by omega) (by omega) ?_ (Or.inr hcandidate) hnext
      rw [Int.add_sub_cancel]
      rfl
  | case2 best lo hi h mid candidate hcandidate ih =>
      have hmid : mid = (lo + hi) / 2 := rfl
      refine ih hlo (by omega) hbest hfits (Or.inr ?_)
      rw [Int.sub_add_cancel]
      exact hcandidate
  | case3 best lo hi h =>
      obtain rfl : lo = hi + 1 := by omega
      rw [Int.add_sub_cancel] at hbest
      refine ⟨hi.toNat, hbest, ?_⟩
      rcases hfits with hzero | hfits
      · exact Or.inl (by omega)
      · by_cases hzero : hi.toNat = 0
        · exact Or.inl hzero
        · refine Or.inr ⟨hbest ▸ hfits, ?_⟩
          rcases hnext with hlast | hnext
          · exact Or.inl (by omega)
          · have hsucc : (hi + 1).toNat = hi.toNat + 1 := by omega
            rw [hsucc] at hnext
            exact Or.inr hnext

/-- **The byte limit cuts off something, and never inside a pair.** -/
theorem truncateEntryContentToByteLimit_cuts {entry : SessionHistoryEntry}
    (hover : historyEntryByteMax < historyEntryBytes entry)
    (hmark : entry.contentTruncated ≠ some false) :
    ∃ n, truncateEntryContentToByteLimit entry = entry.cutTo n ∧
      splitsPair entry.content n = false ∧
      (n < entry.content.length ∨ entry.content = []) := by
  have hfull : ∀ n, entry.content.length ≤ n →
      ¬ historyEntryBytes (entry.cutTo n) ≤ historyEntryByteMax :=
    fun n hn => Nat.not_le.mpr (Nat.lt_of_lt_of_le hover (cutTo_whole hmark hn))
  obtain ⟨n, hresult, hstop⟩ := searchContent_stops entry (entry.cutTo 0) 0 entry.content.length
    (by omega) (by omega) rfl (Or.inl rfl) (Or.inl rfl)
  refine ⟨n, hresult, ?_, ?_⟩
  · rcases hstop with rfl | ⟨hfits, hlast | hnext⟩
    · exact splitsPair_zero _
    · exact absurd hfits (hfull n (by omega))
    · refine Bool.eq_false_iff.mpr fun hsplits => hnext ?_
      exact Nat.le_trans (cutTo_splits hsplits) hfits
  · rcases hstop with rfl | ⟨hfits, -⟩
    · by_cases hnil : entry.content = []
      · exact Or.inr hnil
      · exact Or.inl (List.length_pos_of_ne_nil hnil)
    · refine Or.inl (Nat.not_le.mp fun hn => hfull n hn hfits)

end HuginAgent
