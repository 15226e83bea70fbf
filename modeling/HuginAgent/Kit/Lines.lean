/-
Lines out of a stream that comes in chunks.

A reader keeps what it has of the line it is in, adds each chunk to it and takes off the
lines that are complete.  `splitLines` is that cut, and a `Pipe` is one direction of a
connection with the reader's buffer at its end.  However the text of one line is chunked,
the reader has either no line yet, or the line and nothing left.
-/
import Mathlib.Data.List.Basic

namespace HuginAgent

variable {α : Type} [DecidableEq α]

/-- The complete lines of a text, without their separator, and what is left. -/
def splitLines (sep : α) : List α → List (List α) × List α
  | [] => ([], [])
  | u :: text =>
      if u = sep then ([] :: (splitLines sep text).1, (splitLines sep text).2)
      else
        match (splitLines sep text).1 with
        | [] => ([], u :: (splitLines sep text).2)
        | line :: lines => ((u :: line) :: lines, (splitLines sep text).2)

variable {sep : α} {line text : List α}

theorem splitLines_of_notMem (h : sep ∉ text) : splitLines sep text = ([], text) := by
  induction text with
  | nil => rfl
  | cons u rest ih =>
      rw [List.mem_cons, not_or] at h
      rw [splitLines, if_neg (Ne.symm h.1), ih h.2]

/-- A text without a complete line has no separator. -/
theorem notMem_of_splitLines (h : (splitLines sep text).1 = []) : sep ∉ text := by
  induction text with
  | nil => exact List.not_mem_nil
  | cons u rest ih =>
      rw [splitLines] at h
      split at h
      · exact nomatch h
      · rename_i hu
        split at h
        · rename_i hnil
          exact List.not_mem_cons_of_ne_of_not_mem (Ne.symm hu) (ih hnil)
        · exact nomatch h

theorem splitLines_line (h : sep ∉ line) (rest : List α) :
    splitLines sep (line ++ sep :: rest) =
      (line :: (splitLines sep rest).1, (splitLines sep rest).2) := by
  induction line with
  | nil => rw [List.nil_append, splitLines, if_pos rfl]
  | cons u more ih =>
      rw [List.mem_cons, not_or] at h
      rw [List.cons_append, splitLines, if_neg (Ne.symm h.1), ih h.2]

/-- A text is cut at its first separator in one way only. -/
theorem append_sep_inj {a b r s : List α} (ha : sep ∉ a) (hb : sep ∉ b)
    (h : a ++ sep :: r = b ++ sep :: s) : a = b ∧ r = s := by
  have hcut := congrArg (fun text => (splitLines sep text).1) h
  rw [splitLines_line ha, splitLines_line hb] at hcut
  obtain rfl := (List.cons.inj hcut).1
  exact ⟨rfl, (List.cons.inj (List.append_cancel_left h)).2⟩

/-- And at its last. -/
theorem append_sep_inj_last {a b r s : List α} (hr : sep ∉ r) (hs : sep ∉ s)
    (h : a ++ sep :: r = b ++ sep :: s) : a = b ∧ r = s := by
  have hreverse := congrArg List.reverse h
  simp only [List.reverse_append, List.reverse_cons, List.append_assoc, List.singleton_append]
    at hreverse
  obtain ⟨hrs, hab⟩ := append_sep_inj (mt List.mem_reverse.mp hr) (mt List.mem_reverse.mp hs) hreverse
  exact ⟨List.reverse_injective hab, List.reverse_injective hrs⟩

/-- A text that ends with the separator has a line, and nothing is left of it. -/
theorem splitLines_ended (text : List α) :
    (splitLines sep (text ++ [sep])).1 ≠ [] ∧ (splitLines sep (text ++ [sep])).2 = [] := by
  induction text with
  | nil =>
      rw [List.nil_append, splitLines, if_pos rfl]
      exact ⟨List.cons_ne_nil _ _, rfl⟩
  | cons u text ih =>
      rw [List.cons_append, splitLines]
      split
      · exact ⟨List.cons_ne_nil _ _, ih.2⟩
      · split
        · rename_i hnil
          exact absurd hnil ih.1
        · exact ⟨List.cons_ne_nil _ _, ih.2⟩

/-- What follows a text is cut with what is left of it. -/
theorem splitLines_add (text more : List α) :
    splitLines sep (text ++ more) =
      ((splitLines sep text).1 ++ (splitLines sep ((splitLines sep text).2 ++ more)).1,
        (splitLines sep ((splitLines sep text).2 ++ more)).2) := by
  induction text with
  | nil => rfl
  | cons u text ih =>
      rw [List.cons_append, splitLines]
      by_cases hu : u = sep
      · rw [if_pos hu, ih, splitLines, if_pos hu]
        rfl
      · rw [if_neg hu, ih]
        cases hlines : (splitLines sep text).1 with
        | nil =>
            have hleft : (splitLines sep (u :: text)) = ([], u :: (splitLines sep text).2) := by
              rw [splitLines, if_neg hu, hlines]
            rw [hleft, List.nil_append, List.nil_append, List.cons_append, splitLines, if_neg hu]
        | cons line lines =>
            have hleft : (splitLines sep (u :: text)) =
                ((u :: line) :: lines, (splitLines sep text).2) := by
              rw [splitLines, if_neg hu, hlines]
            rw [hleft]
            rfl

/-- A text and what waits of it go on in the same way. -/
theorem splitLines_go_on {buf : List α} {taken : List (List α)}
    (hlines : (splitLines sep text).1 = taken ++ (splitLines sep buf).1)
    (hrest : (splitLines sep text).2 = (splitLines sep buf).2) (more : List α) :
    (splitLines sep (text ++ more)).1 = taken ++ (splitLines sep (buf ++ more)).1 ∧
      (splitLines sep (text ++ more)).2 = (splitLines sep (buf ++ more)).2 := by
  rw [splitLines_add, splitLines_add buf, hlines, hrest]
  exact ⟨List.append_assoc _ _ _, rfl⟩

/-- Where nothing is left of a text, what follows it is cut by itself. -/
theorem splitLines_append {text : List α} (h : (splitLines sep text).2 = []) (more : List α) :
    splitLines sep (text ++ more) =
      ((splitLines sep text).1 ++ (splitLines sep more).1, (splitLines sep more).2) := by
  rw [splitLines_add, h, List.nil_append]

/-- A line leaves room in the text for the separators of all of them. -/
theorem splitLines_room (sep : α) (text : List α) :
    (∀ line ∈ (splitLines sep text).1,
        line.length + (splitLines sep text).1.length ≤ text.length) ∧
      (splitLines sep text).2.length + (splitLines sep text).1.length ≤ text.length := by
  induction text with
  | nil => exact ⟨fun _ h => absurd h List.not_mem_nil, Nat.le_refl _⟩
  | cons u text ih =>
      obtain ⟨hlines, hrest⟩ := ih
      rw [splitLines, List.length_cons]
      split
      · rw [List.length_cons]
        refine ⟨List.forall_mem_cons.mpr ⟨?_, ?_⟩, Nat.succ_le_succ hrest⟩
        · rw [List.length_nil]
          omega
        · exact fun line hline => Nat.succ_le_succ (hlines line hline)
      · split
        · rename_i hnil
          rw [hnil] at hrest
          exact ⟨fun _ h => absurd h List.not_mem_nil, Nat.succ_le_succ hrest⟩
        · rename_i line lines hcut
          rw [hcut, List.length_cons] at hlines hrest
          rw [List.length_cons]
          obtain ⟨hline, hmore⟩ := List.forall_mem_cons.mp hlines
          refine ⟨List.forall_mem_cons.mpr ⟨?_, ?_⟩, Nat.le_succ_of_le hrest⟩
          · rw [List.length_cons]
            omega
          · exact fun more hmem => Nat.le_succ_of_le (hmore more hmem)

/-- **A reader of a stream of one line has either no line yet, or the line and nothing left.** -/
theorem splitLines_part (h : sep ∉ line) {more : List α} (hsplit : text ++ more = line ++ [sep]) :
    splitLines sep text = ([], text) ∨ more = [] ∧ splitLines sep text = ([line], []) := by
  rcases List.eq_nil_or_concat more with rfl | ⟨init, last, rfl⟩
  · rw [List.append_nil] at hsplit
    refine Or.inr ⟨rfl, ?_⟩
    rw [hsplit, splitLines_line h]
    rfl
  · rw [List.concat_eq_append, ← List.append_assoc] at hsplit
    obtain ⟨hline, -⟩ := List.append_inj' hsplit rfl
    refine Or.inl (splitLines_of_notMem ?_)
    exact fun hmem => h (hline ▸ List.mem_append_left _ hmem)

/-! ### All the pieces of a text -/

/-- `text.split(sep)`. -/
def splitAll (sep : α) (text : List α) : List (List α) :=
  (splitLines sep text).1 ++ [(splitLines sep text).2]

theorem splitAll_of_notMem (h : sep ∉ text) : splitAll sep text = [text] := by
  rw [splitAll, splitLines_of_notMem h]
  rfl

theorem splitAll_append (h : sep ∉ line) (rest : List α) :
    splitAll sep (line ++ sep :: rest) = line :: splitAll sep rest := by
  rw [splitAll, splitLines_line h]
  rfl

/-- A separator is nothing more to a text than where it is cut. -/
theorem splitAll_ind {motive : List α → List (List α) → Prop}
    (last : ∀ text, sep ∉ text → motive text [text])
    (cut : ∀ line rest, sep ∉ line → motive rest (splitAll sep rest) →
      motive (line ++ sep :: rest) (line :: splitAll sep rest)) (text : List α) :
    motive text (splitAll sep text) := by
  by_cases h : sep ∈ text
  · obtain ⟨line, rest, htext, hline⟩ := List.eq_append_cons_of_mem h
    have hlength : rest.length < text.length := by
      rw [htext, List.length_append, List.length_cons]
      omega
    rw [htext, splitAll_append hline]
    exact cut line rest hline (splitAll_ind last cut rest)
  · rw [splitAll_of_notMem h]
    exact last text h
termination_by text.length

/-- The pieces, joined again. -/
theorem intercalate_splitAll (text : List α) : [sep].intercalate (splitAll sep text) = text := by
  refine splitAll_ind (motive := fun text pieces => [sep].intercalate pieces = text)
    (fun text _ => List.intercalate_singleton) ?_ text
  intro line rest _ ih
  have hne : splitAll sep rest ≠ [] := List.append_ne_nil_of_right_ne_nil _ (List.cons_ne_nil _ _)
  obtain ⟨piece, pieces, hpieces⟩ := List.exists_cons_of_ne_nil hne
  rw [hpieces] at ih ⊢
  rw [List.intercalate_cons_cons, ih, List.append_assoc]
  rfl

/-- A text is in the pieces, but for the separators. -/
theorem mem_splitAll (text : List α) : ∀ u,
    u ∈ text ↔ (∃ piece ∈ splitAll sep text, u ∈ piece) ∨ u = sep ∧ 1 < (splitAll sep text).length := by
  refine splitAll_ind (motive := fun text pieces => ∀ u,
    u ∈ text ↔ (∃ piece ∈ pieces, u ∈ piece) ∨ u = sep ∧ 1 < pieces.length) ?_ ?_ text
  · intro text _ u
    simp only [List.mem_singleton, exists_eq_left, List.length_singleton, Nat.lt_irrefl, and_false,
      or_false]
  · intro line rest _ ih u
    have hne : splitAll sep rest ≠ [] := List.append_ne_nil_of_right_ne_nil _ (List.cons_ne_nil _ _)
    have hlength := List.length_pos_of_ne_nil hne
    simp only [List.mem_append, List.mem_cons, ih, List.length_cons, exists_eq_or_imp]
    constructor
    · rintro (h | h | h | h)
      · exact Or.inl (Or.inl h)
      · exact Or.inr ⟨h, Nat.succ_lt_succ hlength⟩
      · exact Or.inl (Or.inr h)
      · exact Or.inr ⟨h.1, Nat.succ_lt_succ hlength⟩
    · rintro ((h | h) | h)
      · exact Or.inl h
      · exact Or.inr (Or.inr (Or.inl h))
      · exact Or.inr (Or.inl h.1)

theorem notMem_of_mem_splitAll (text : List α) : ∀ piece ∈ splitAll sep text, sep ∉ piece := by
  refine splitAll_ind (motive := fun _ pieces => ∀ piece ∈ pieces, sep ∉ piece) ?_ ?_ text
  · intro text h
    exact List.forall_mem_singleton.mpr h
  · intro line rest hline ih
    exact List.forall_mem_cons.mpr ⟨hline, ih⟩

/-- No line has the separator in it, and what is left has not either. -/
theorem notMem_splitLines (text : List α) :
    (∀ line ∈ (splitLines sep text).1, sep ∉ line) ∧ sep ∉ (splitLines sep text).2 := by
  have hall : ∀ piece ∈ splitAll sep text, sep ∉ piece := notMem_of_mem_splitAll text
  exact ⟨fun line h => hall line (List.mem_append_left _ h),
    hall _ (List.mem_append_right _ (List.mem_singleton.mpr rfl))⟩

/-- Lines, each with its separator, before what is left. -/
def joinLines (sep : α) (lines : List (List α)) (rest : List α) : List α :=
  lines.flatMap (fun line => line ++ [sep]) ++ rest

theorem splitLines_joinLines {lines : List (List α)} {rest : List α}
    (hlines : ∀ line ∈ lines, sep ∉ line) (hrest : sep ∉ rest) :
    splitLines sep (joinLines sep lines rest) = (lines, rest) := by
  unfold joinLines
  induction lines with
  | nil => exact splitLines_of_notMem hrest
  | cons line lines ih =>
      obtain ⟨hline, hmore⟩ := List.forall_mem_cons.mp hlines
      rw [List.flatMap_cons, List.append_assoc, List.append_assoc, List.singleton_append,
        splitLines_line hline, ih hmore]

theorem splitAll_map {β : Type} [DecidableEq β] {f : α → β} (hf : Function.Injective f)
    (text : List α) : splitAll (f sep) (text.map f) = (splitAll sep text).map (List.map f) := by
  refine splitAll_ind (motive := fun text pieces =>
    splitAll (f sep) (text.map f) = pieces.map (List.map f)) ?_ ?_ text
  · intro text h
    rw [splitAll_of_notMem fun hmem => h ((List.mem_map_of_injective hf).mp hmem)]
    rfl
  · intro line rest hline ih
    rw [List.map_append, List.map_cons,
      splitAll_append fun hmem => hline ((List.mem_map_of_injective hf).mp hmem), ih]
    rfl

/-! ### One direction of a connection -/

structure Pipe (α : Type) where
  /-- What has been read and is not a line yet. -/
  buf : List α
  /-- What has been written and not been read. -/
  sent : List α

namespace Pipe

variable {p : Pipe α}

def empty : Pipe α := ⟨[], []⟩

/-- All that has been written and is not part of a line that was read. -/
def content (p : Pipe α) : List α := p.buf ++ p.sent

def write (sep : α) (p : Pipe α) (line : List α) : Pipe α :=
  { p with sent := p.sent ++ (line ++ [sep]) }

/-- The next `n` units come in one chunk. -/
def read (sep : α) (p : Pipe α) (n : Nat) : List (List α) × Pipe α :=
  let cut := splitLines sep (p.buf ++ p.sent.take n)
  (cut.1, ⟨cut.2, p.sent.drop n⟩)

omit [DecidableEq α] in
theorem content_write (h : p.content = []) : (p.write sep line).content = line ++ [sep] := by
  obtain ⟨hbuf, hsent⟩ := List.append_eq_nil_iff.mp h
  rw [write, content, hbuf, hsent]
  rfl

theorem read_nil (sep : α) (n : Nat) (h : p.content = []) : (p.read sep n).1 = [] ∧ (p.read sep n).2.content = [] := by
  obtain ⟨hbuf, hsent⟩ := List.append_eq_nil_iff.mp h
  rw [read, hbuf, hsent, List.take_nil, List.drop_nil]
  exact ⟨rfl, rfl⟩

theorem read_line (n : Nat) (h : sep ∉ line) (hcontent : p.content = line ++ [sep]) :
    ((p.read sep n).1 = [] ∧ (p.read sep n).2.content = line ++ [sep]) ∨
      ((p.read sep n).1 = [line] ∧ (p.read sep n).2.content = []) := by
  have hsplit : (p.buf ++ p.sent.take n) ++ p.sent.drop n = line ++ [sep] := by
    rw [List.append_assoc, List.take_append_drop]
    exact hcontent
  rw [read]
  rcases splitLines_part h hsplit with hcut | ⟨hmore, hcut⟩
  · rw [hcut]
    exact Or.inl ⟨rfl, hsplit⟩
  · rw [hcut, hmore]
    exact Or.inr ⟨rfl, rfl⟩

end Pipe

end HuginAgent
