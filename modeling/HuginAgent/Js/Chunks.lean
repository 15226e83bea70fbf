/-
A stream of bytes as text, chunk by chunk.

Each chunk is decoded by itself, so a cut inside a character leaves the two halves of it, and
each is read as garbage.  The text is that of the whole stream just when no cut is inside a
character (`decodeChunks_eq_iff`).  A state of the decoder tells whether one is: the character
is begun and what comes goes on with it.

That a bad cut is always seen is an argument on lengths.  What is decoded in parts is never
shorter than what is decoded at once, and the two halves of a character make more units than the
character, but for one of two units that lacks its last byte; there the first unit differs.
-/
import HuginAgent.Js.Buffer

namespace HuginAgent

/-- The text of a stream, each chunk decoded by itself. -/
def decodeChunks (chunks : List (List UInt8)) : JsString := chunks.flatMap utf8Decode

/-! ### A text in two parts -/

/-- The state after some bytes. -/
def utf8After (st : Utf8State) (bytes : List UInt8) : Utf8State :=
  bytes.foldl (fun st b => (utf8Next st b.toNat).2) st

/-- The units of the characters that are complete. -/
def utf8Complete : Utf8State → List UInt8 → JsString
  | _, [] => []
  | st, b :: rest => (utf8Next st b.toNat).1 ++ utf8Complete (utf8Next st b.toNat).2 rest

namespace Utf8State

/-- What a character that is broken off is read as. -/
def flush (st : Utf8State) : JsString := if st.needed = 0 then [] else [replacement]

/-- Does what comes go on with the character? -/
def GoesOn (st : Utf8State) (bytes : List UInt8) : Prop :=
  st.needed ≠ 0 ∧ ∃ b ∈ bytes.head?, st.lower ≤ b.toNat ∧ b.toNat ≤ st.upper

instance (st : Utf8State) (bytes : List UInt8) : Decidable (st.GoesOn bytes) :=
  match bytes with
  | [] => .isFalse fun h => nomatch h.2
  | b :: _ =>
      decidable_of_iff (st.needed ≠ 0 ∧ st.lower ≤ b.toNat ∧ b.toNat ≤ st.upper)
        (by simp only [GoesOn, List.head?_cons, Option.mem_def, Option.some.injEq, exists_eq_left'])

/-- The next byte of a character is no byte that begins one, and no character is out of range. -/
structure Continues (st : Utf8State) : Prop where
  lower : 0x80 ≤ st.lower
  upper : st.upper ≤ 0xBF
  few : st.needed ≤ 3
  last : st.needed = 1 → st.point ≤ 0x43FF
  middle : st.needed = 2 → st.point ≤ 0x10F
  first : st.needed = 3 → st.point ≤ 3 ∨ st.point = 4 ∧ st.upper ≤ 0x8F

end Utf8State

/-- No cut between two chunks is inside a character. -/
def CleanCuts : List (List UInt8) → Prop
  | [] => True
  | chunk :: rest => ¬ (utf8After .between chunk).GoesOn rest.flatten ∧ CleanCuts rest

instance decidableCleanCuts : ∀ chunks : List (List UInt8), Decidable (CleanCuts chunks)
  | [] => .isTrue trivial
  | chunk :: rest =>
      have := decidableCleanCuts rest
      inferInstanceAs (Decidable (¬ (utf8After .between chunk).GoesOn rest.flatten ∧ CleanCuts rest))

section

variable {st : Utf8State} {bytes : List UInt8}

theorem utf8Decode_eq (bytes : List UInt8) :
    utf8Decode bytes = utf8Complete .between bytes ++ (utf8After .between bytes).flush := by
  have h : ∀ st, utf8DecodeFrom st bytes = utf8Complete st bytes ++ (utf8After st bytes).flush := by
    induction bytes with
    | nil => exact fun st => rfl
    | cons b rest ih =>
        intro st
        rw [utf8DecodeFrom, utf8Complete, ih, List.append_assoc]
        rfl
  exact h .between

theorem utf8Decode_append (bytes more : List UInt8) :
    utf8Decode (bytes ++ more) =
      utf8Complete .between bytes ++ utf8DecodeFrom (utf8After .between bytes) more := by
  have h : ∀ st, utf8DecodeFrom st (bytes ++ more) =
      utf8Complete st bytes ++ utf8DecodeFrom (utf8After st bytes) more := by
    induction bytes with
    | nil => exact fun st => rfl
    | cons b rest ih =>
        intro st
        rw [List.cons_append, utf8DecodeFrom, utf8Complete, ih, List.append_assoc]
        rfl
  exact h .between

theorem between_continues : Utf8State.between.Continues where
  lower := Nat.le_refl _
  upper := Nat.le_refl _
  few := Nat.zero_le _
  last h := nomatch h
  middle h := nomatch h
  first h := nomatch h

theorem utf8Lead_continues (b : Nat) : (utf8Lead b).2.Continues := by
  unfold utf8Lead
  split
  · exact between_continues
  split
  · constructor <;> dsimp only <;> omega
  split
  · constructor <;> dsimp only <;> try split
    all_goals omega
  split
  · constructor <;> dsimp only <;> try split
    all_goals omega
  · exact between_continues

theorem utf8Next_continues {st : Utf8State} (hst : st.Continues) (b : Nat) :
    (utf8Next st b).2.Continues := by
  unfold utf8Next
  split
  · exact utf8Lead_continues b
  split
  · rename_i hneeded hrange
    split
    · exact between_continues
    · have hfew := hst.few
      refine ⟨Nat.le_refl _, Nat.le_refl _, ?_, ?_, ?_, ?_⟩
      · dsimp only
        omega
      · dsimp only
        intro hone
        have hpoint := hst.middle (by omega)
        have hupper := hst.upper
        omega
      · dsimp only
        intro htwo
        have hupper := hst.upper
        rcases hst.first (by omega) with hpoint | ⟨hpoint, hlimit⟩
        · omega
        · omega
      · dsimp only
        omega
  · exact utf8Lead_continues b

theorem utf8After_continues (bytes : List UInt8) : (utf8After .between bytes).Continues := by
  have h : ∀ st : Utf8State, st.Continues → (utf8After st bytes).Continues := by
    induction bytes with
    | nil => exact fun st hst => hst
    | cons b rest ih => exact fun st hst => ih _ (utf8Next_continues hst b.toNat)
  exact h _ between_continues

/-- A byte that may go on with a character is garbage by itself. -/
theorem utf8Lead_of_continues {b : Nat} (h : 0x80 ≤ b ∧ b ≤ 0xBF) :
    utf8Lead b = ([replacement], .between) := by
  unfold utf8Lead
  rw [if_neg (by omega), if_neg (by omega), if_neg (by omega), if_neg (by omega)]

theorem utf8Decode_of_continues {b : UInt8} (h : 0x80 ≤ b.toNat ∧ b.toNat ≤ 0xBF)
    (rest : List UInt8) : utf8Decode (b :: rest) = replacement :: utf8Decode rest := by
  rw [utf8Decode, utf8DecodeFrom_lead rfl, utf8Lead_of_continues h]
  rfl

/-- Where the character does not go on, what comes is read by itself. -/
theorem utf8DecodeFrom_of_not_goesOn (h : ¬ st.GoesOn bytes) :
    utf8DecodeFrom st bytes = st.flush ++ utf8Decode bytes := by
  cases bytes with
  | nil => exact (List.append_nil _).symm
  | cons b rest =>
      rw [utf8Decode, utf8DecodeFrom_lead rfl, utf8DecodeFrom, utf8Next]
      unfold Utf8State.flush
      by_cases hneeded : st.needed = 0
      · rw [if_pos hneeded, if_pos hneeded]
        rfl
      · have hrange : ¬ (st.lower ≤ b.toNat ∧ b.toNat ≤ st.upper) :=
          fun hrange => h ⟨hneeded, b, rfl, hrange⟩
        rw [if_neg hneeded, if_neg hrange, if_neg hneeded]
        rfl

/-! ### Lengths -/

theorem flush_length_le (st : Utf8State) : st.flush.length ≤ 1 := by
  unfold Utf8State.flush
  split
  · exact Nat.zero_le 1
  · exact Nat.le_refl 1

theorem pointUnits_length (n : Nat) : (pointUnits n).length = 1 ∨ (pointUnits n).length = 2 := by
  unfold pointUnits
  split
  · exact Or.inl rfl
  · exact Or.inr rfl

/-- What the next byte of a character does. -/
theorem utf8DecodeFrom_goesOn {b : UInt8} {rest : List UInt8} (hst : st.Continues)
    (h : st.GoesOn (b :: rest)) :
    utf8Decode (b :: rest) = replacement :: utf8Decode rest ∧ st.flush = [replacement] ∧
      (utf8DecodeFrom st (b :: rest) =
          pointUnits (st.point * 0x40 + (b.toNat - 0x80)) ++ utf8Decode rest ∧
          st.point * 0x40 + (b.toNat - 0x80) < 0x110000 ∨
        ∃ st' : Utf8State, st'.Continues ∧ utf8DecodeFrom st (b :: rest) = utf8DecodeFrom st' rest) := by
  obtain ⟨hneeded, b', hb', hrange⟩ := h
  obtain rfl := Option.some.inj hb'
  have hupper := hst.upper
  refine ⟨utf8Decode_of_continues ⟨Nat.le_trans hst.lower hrange.1, Nat.le_trans hrange.2 hupper⟩ rest,
    if_neg hneeded, ?_⟩
  have hnext := utf8Next_continues hst b.toNat
  unfold utf8Next at hnext
  rw [utf8DecodeFrom, utf8Next]
  rw [if_neg hneeded, if_pos hrange] at hnext ⊢
  by_cases hone : st.needed = 1
  · rw [if_pos hone]
    have hpoint := hst.last hone
    exact Or.inl ⟨by rw [utf8Decode], by omega⟩
  · rw [if_neg hone] at hnext ⊢
    exact Or.inr ⟨_, hnext, rfl⟩

/-- The rest of a character by itself is no shorter. -/
theorem utf8DecodeFrom_length_le_flush (bytes : List UInt8) :
    ∀ st : Utf8State, st.Continues →
      (utf8DecodeFrom st bytes).length ≤ st.flush.length + (utf8Decode bytes).length := by
  induction bytes with
  | nil => exact fun st _ => Nat.le_add_right _ _
  | cons b rest ih =>
      intro st hst
      by_cases hgoes : st.GoesOn (b :: rest)
      · obtain ⟨hdecode, hflush, hread⟩ := utf8DecodeFrom_goesOn hst hgoes
        rw [hdecode, hflush, List.length_singleton, List.length_cons]
        rcases hread with ⟨hread, -⟩ | ⟨st', hst', hread⟩
        · have hpoint := pointUnits_length (st.point * 0x40 + (b.toNat - 0x80))
          rw [hread, List.length_append]
          omega
        · have hrest := ih st' hst'
          have hone := flush_length_le st'
          rw [hread]
          omega
      · rw [utf8DecodeFrom_of_not_goesOn hgoes]
        exact Nat.le_of_eq List.length_append

/-- What is decoded in parts is no shorter. -/
theorem length_utf8Decode_flatten_le (chunks : List (List UInt8)) :
    (utf8Decode chunks.flatten).length ≤ (decodeChunks chunks).length := by
  induction chunks with
  | nil => exact Nat.le_refl 0
  | cons chunk rest ih =>
      have hrest := utf8DecodeFrom_length_le_flush rest.flatten _ (utf8After_continues chunk)
      rw [List.flatten_cons, utf8Decode_append, decodeChunks, List.flatMap_cons, utf8Decode_eq chunk]
      simp only [List.length_append]
      show _ ≤ _ + (decodeChunks rest).length
      omega

/-- The first unit of a pair is not that of garbage. -/
theorem pointUnits_head {n : Nat} (h : (pointUnits n).length = 2) (hn : n < 0x110000)
    (more : JsString) : (pointUnits n ++ more).head? ≠ some replacement := by
  unfold pointUnits at h ⊢
  split at h
  · exact nomatch h
  · rename_i hlarge
    rw [if_neg hlarge, List.cons_append, List.head?_cons]
    intro hhead
    have hunit := congrArg UInt16.toNat (Option.some.inj hhead)
    rw [Nat.toUInt16_eq, UInt16.toNat_ofNat', Nat.mod_eq_of_lt (by omega)] at hunit
    have hgarbage : replacement.toNat = 0xFFFD := rfl
    omega

/-- A cut inside a character is seen, whatever cuts come after it. -/
theorem ne_of_goesOn {st : Utf8State} (hst : st.Continues) {rest : List (List UInt8)}
    (h : st.GoesOn rest.flatten) :
    utf8DecodeFrom st rest.flatten ≠ st.flush ++ decodeChunks rest := by
  intro heq
  have hlength := length_utf8Decode_flatten_le rest
  have heqLength := congrArg List.length heq
  have hhead := congrArg List.head? heq
  cases hbytes : rest.flatten with
  | nil =>
      rw [hbytes] at h
      exact nomatch h.2
  | cons b bytes =>
      rw [hbytes] at h hlength heqLength hhead
      obtain ⟨hdecode, hflush, hread⟩ := utf8DecodeFrom_goesOn hst h
      rw [hdecode, List.length_cons] at hlength
      rw [hflush, List.singleton_append] at heqLength hhead
      rw [List.length_cons] at heqLength
      rcases hread with ⟨hread, hpoint⟩ | ⟨st', hst', hread⟩
      · rw [hread, List.length_append] at heqLength
        rw [hread, List.head?_cons] at hhead
        rcases pointUnits_length (st.point * 0x40 + (b.toNat - 0x80)) with hone | htwo
        · omega
        · exact pointUnits_head htwo hpoint _ hhead
      · have hshort := utf8DecodeFrom_length_le_flush bytes st' hst'
        have hone := flush_length_le st'
        rw [hread] at heqLength
        omega

end

/-- **Chunks are read as the stream is just when no cut is inside a character.** -/
theorem decodeChunks_eq_iff (chunks : List (List UInt8)) :
    decodeChunks chunks = utf8Decode chunks.flatten ↔ CleanCuts chunks := by
  induction chunks with
  | nil => exact iff_of_true rfl trivial
  | cons chunk rest ih =>
      have hcontinues := utf8After_continues chunk
      rw [CleanCuts, List.flatten_cons, utf8Decode_append, decodeChunks, List.flatMap_cons,
        utf8Decode_eq chunk, List.append_assoc, List.append_cancel_left_eq]
      show _ ++ decodeChunks rest = _ ↔ _
      by_cases hgoes : (utf8After .between chunk).GoesOn rest.flatten
      · refine iff_of_false ?_ fun h => h.1 hgoes
        exact fun heq => ne_of_goesOn hcontinues hgoes heq.symm
      · rw [utf8DecodeFrom_of_not_goesOn hgoes, List.append_cancel_left_eq, ih]
        exact (and_iff_right hgoes).symm

end HuginAgent
