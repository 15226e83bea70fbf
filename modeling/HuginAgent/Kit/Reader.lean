/-
A reader of a stream of lines.

What the reader makes of a line may be any number of things, or the line may break it, and then it
reads no more.  Behind each chunk it has made all it can of the lines that are complete, so only
the text counts, and not how it was chunked (`reads_chunks`).
-/
import HuginAgent.Kit.Lines

namespace HuginAgent

variable {α β : Type} [DecidableEq α]

/-- What is made of lines, up to one that breaks the reader, and whether one does. -/
def readLines (f : List α → Option (List β)) : List (List α) → List β × Bool
  | [] => ([], false)
  | line :: lines =>
      match f line with
      | none => ([], true)
      | some made => (made ++ (readLines f lines).1, (readLines f lines).2)

/-- What a reader keeps of the line it is in, what it has made so far, and whether it is broken. -/
structure Reader (α β : Type) where
  buf : List α
  out : List β
  broken : Bool

namespace Reader

def empty : Reader α β := ⟨[], [], false⟩

/-- A chunk of text comes. -/
def feed (sep : α) (f : List α → Option (List β)) (r : Reader α β) (text : List α) : Reader α β :=
  if r.broken then r
  else
    let cut := splitLines sep (r.buf ++ text)
    ⟨cut.2, r.out ++ (readLines f cut.1).1, (readLines f cut.1).2⟩

/-- The reader has read this text. -/
structure Reads (sep : α) (f : List α → Option (List β)) (text : List α) (r : Reader α β) :
    Prop where
  out : r.out = (readLines f (splitLines sep text).1).1
  broken : r.broken = (readLines f (splitLines sep text).1).2
  buf : r.broken = false → r.buf = (splitLines sep text).2

variable {sep : α} {f : List α → Option (List β)} {r : Reader α β} {text : List α}

omit [DecidableEq α] in
theorem readLines_append (lines more : List (List α)) :
    readLines f (lines ++ more) =
      if (readLines f lines).2 then readLines f lines
      else ((readLines f lines).1 ++ (readLines f more).1, (readLines f more).2) := by
  induction lines with
  | nil => rfl
  | cons line lines ih =>
      rw [List.cons_append, readLines, readLines, ih]
      cases f line with
      | none => rfl
      | some made =>
          dsimp only
          split
          · rfl
          · rw [List.append_assoc]

theorem reads_empty : Reads sep f [] empty := ⟨rfl, rfl, fun _ => rfl⟩

/-- **What has been read goes on with the next chunk.** -/
theorem Reads.feed (h : Reads sep f text r) (more : List α) :
    Reads sep f (text ++ more) (r.feed sep f more) := by
  unfold Reader.feed
  by_cases hbroken : r.broken = true
  · have hlines := readLines_append (f := f) (splitLines sep text).1
      (splitLines sep ((splitLines sep text).2 ++ more)).1
    rw [← h.broken, if_pos hbroken] at hlines
    rw [if_pos hbroken]
    refine ⟨?_, ?_, fun hsound => ?_⟩
    · rw [splitLines_add text more, hlines]
      exact h.out
    · rw [splitLines_add text more, hlines]
      exact h.broken
    · rw [hsound] at hbroken
      exact nomatch hbroken
  · have hsound : r.broken = false := Bool.eq_false_iff.mpr hbroken
    have hlines := readLines_append (f := f) (splitLines sep text).1
      (splitLines sep ((splitLines sep text).2 ++ more)).1
    rw [← h.broken, if_neg hbroken, ← h.out] at hlines
    rw [if_neg hbroken, h.buf hsound]
    refine ⟨?_, ?_, fun _ => ?_⟩
    · rw [splitLines_add text more, hlines]
    · rw [splitLines_add text more, hlines]
    · rw [splitLines_add text more]

/-- **However a text is chunked, it is read.** -/
theorem reads_chunks (h : Reads sep f text r) (chunks : List (List α)) :
    Reads sep f (text ++ chunks.flatten) (chunks.foldl (Reader.feed sep f) r) := by
  induction chunks generalizing text r with
  | nil =>
      rw [List.flatten_nil, List.append_nil]
      exact h
  | cons chunk rest ih =>
      rw [List.flatten_cons, ← List.append_assoc]
      exact ih (h.feed chunk)

/-- What two readers have made of one text is the same, and so is what they keep. -/
theorem Reads.unique {r' : Reader α β} (h : Reads sep f text r) (h' : Reads sep f text r') :
    r.out = r'.out ∧ r.broken = r'.broken ∧ (r.broken = false → r.buf = r'.buf) := by
  have hbroken : r.broken = r'.broken := h.broken.trans h'.broken.symm
  refine ⟨h.out.trans h'.out.symm, hbroken, fun hsound => ?_⟩
  rw [h.buf hsound, h'.buf (hbroken ▸ hsound)]

end Reader

end HuginAgent
