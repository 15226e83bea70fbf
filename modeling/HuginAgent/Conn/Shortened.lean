/-
What is shortened for the wire.

The daemon cuts texts by their length in UTF-16 units: what a turn of a history says, what goes
in and out of its tools, the title of a session, the summary of what is to be approved, and the
errors of a session that said nothing else.  A cut inside a pair leaves half of it.  The byte
limit on the entries of a history is the one place where this does not happen.
-/
import HuginAgent.Conn.Outbound
import HuginAgent.History.Cut
import HuginAgent.Listing.Sessions
import HuginAgent.Sessions.Tail

namespace HuginAgent

/-! ### Titles -/

/-- The text of which a title is made. -/
def titleLabel (text : JsString) : JsString := trim (collapseWhite false text)

theorem startsLow_collapse (text : JsString) :
    startsLow (collapseWhite false text) = startsLow text := by
  cases text with
  | nil => rfl
  | cons u text =>
      rw [collapseWhite]
      split
      · rename_i hwhite
        rw [if_neg Bool.false_ne_true, startsLow_cons, startsLow_cons, (isWhite_surrogate hwhite).2]
        decide
      · rfl

/-- One space for each stretch of white space neither joins nor parts a pair. -/
theorem loneFrom_collapse {text : JsString} {afterWhite p : Bool} (hp : afterWhite = true → p = false)
    (h : loneFrom p text = false) : loneFrom p (collapseWhite afterWhite text) = false := by
  induction text generalizing afterWhite p with
  | nil => rfl
  | cons u text ih =>
      rw [loneFrom, Bool.or_eq_false_iff] at h
      rw [collapseWhite]
      split
      · rename_i hwhite
        rw [(isWhite_surrogate hwhite).1] at h
        have hrest := @ih true false (fun _ => rfl) h.2
        split
        · rename_i hafter
          rw [hp hafter]
          exact hrest
        · rw [loneFrom, isLone_white (by decide)]
          exact hrest
      · rw [loneFrom, isLone_eq, startsLow_collapse, ← isLone_eq, h.1]
        exact ih (by intro hfalse; cases hfalse) h.2

theorem titleLabel_whole {text : JsString} (h : hasLoneSurrogate text = false) :
    hasLoneSurrogate (titleLabel text) = false := by
  rw [titleLabel, hasLone_trim]
  exact loneFrom_collapse (fun hfalse => nomatch hfalse) h

/-- A title is the label, or the start of it with three dots. -/
theorem cleanLabel_eq (text : JsString) :
    (cleanLabel (some text)).getD [] =
      if (titleLabel text).length ≤ titleMax then titleLabel text
      else ((titleLabel text).take (titleMax - 3)).rdropWhile isWhite ++ js "..." := by
  unfold cleanLabel
  rw [Option.map_some, ← titleLabel]
  by_cases hnil : titleLabel text = []
  · rw [hnil]
    rfl
  · have hfilled : nonEmpty (some (titleLabel text)) = some (titleLabel text) := by
      simp [nonEmpty, hnil]
    rw [hfilled]
    dsimp only
    split <;> rfl

/-! ### What is shortened -/

/-- A text that is shortened. -/
inductive Shortening
  /-- What a turn says. -/
  | content (text : JsString)
  /-- What goes in or out of a tool. -/
  | toolIo (text : JsString)
  /-- An entry that is over the byte limit.  Only a text that was cut has a mark. -/
  | bytes (entry : SessionHistoryEntry) (long : historyEntryByteMax < historyEntryBytes entry)
      (mark : entry.contentTruncated ≠ some false)
  | title (text : JsString)
  | approval (ctx : AttemptCtx) (args : ApprovalRequestArgs) (e : Envelope)
  /-- A resumed session without an answer. -/
  | stderr (env : RunnerEnv) (inputs : List RunnerInput)
      (silent : (ResumeRun.run env inputs).finalAssistantText = [])

namespace Shortening

def source : Shortening → JsString
  | content text | toolIo text | title text => text
  | bytes entry _ _ => entry.content
  | approval _ args _ => args.inputSummary
  | stderr env inputs _ => ResumeRun.complaints env inputs

/-- What is sent.  An empty text may be left out. -/
def sent : Shortening → JsString
  | content text => (capContent text).content
  | toolIo text => (ioFields text).1.getD []
  | bytes entry _ _ => (truncateEntryContentToByteLimit entry).content
  | title text => (cleanLabel (some text)).getD []
  | approval ctx args e => (stringField (approvalRequestMsg ctx args e) "input_summary").getD []
  | stderr env inputs _ => (ResumeRun.run env inputs).fallbackText

/-- The mark that the text was cut, where the message has one. -/
def mark : Shortening → Option Bool
  | content text => some ((capContent text).contentTruncated = some true)
  | toolIo text => some ((ioFields text).2 = some true)
  | bytes entry _ _ => some ((truncateEntryContentToByteLimit entry).contentTruncated = some true)
  | approval ctx args e =>
      some (isTrue (fieldOf (objectField (approvalRequestMsg ctx args e) "redaction") "truncated"))
  | title _ | stderr _ _ _ => none

/-- What is sent of the source. -/
def IsPart (c : Shortening) : Prop :=
  match c with
  | title text => c.sent = titleLabel text ∨
      ∃ kept, kept <+: titleLabel text ∧ c.sent = kept ++ js "..."
  | stderr _ _ _ => c.sent <:+ c.source
  | _ => c.sent <+: c.source

structure KeepsText (c : Shortening) : Prop where
  whole : hasLoneSurrogate c.sent = false
  part : c.IsPart
  marked : ∀ m ∈ c.mark, m = true ↔ c.sent ≠ c.source

/-- The cut is inside a pair; or an entry over the byte limit, with no text to cut, is marked. -/
def Spoils : Shortening → Bool
  | content text => splitsPair text historyContentCap
  | toolIo text => splitsPair text historyToolIoCap
  | bytes entry _ _ => entry.content = []
  | title text => titleMax < (titleLabel text).length && splitsPair (titleLabel text) (titleMax - 3)
  | approval _ args _ => splitsPair args.inputSummary inputSummaryMax
  | stderr env inputs _ =>
      let text := ResumeRun.complaints env inputs
      splitsPair text (text.length - ResumeRun.stderrTailUnits)

/-! ### When the text is kept -/

theorem capString_eq (value : JsString) (cap : Nat) :
    capString value cap = (value.take cap, decide (cap < value.length)) := by
  unfold capString
  split
  · rename_i hlong
    rw [decide_eq_true hlong]
  · rename_i hshort
    rw [decide_eq_false hshort, List.take_of_length_le (Nat.not_lt.mp hshort)]

/-- A text cut to a length. -/
theorem keepsText_take {c : Shortening} {n : Nat} (h : hasLoneSurrogate c.source = false)
    (hpart : c.IsPart ↔ c.sent <+: c.source) (hsent : c.sent = c.source.take n)
    (hmark : c.mark = some (decide (n < c.source.length))) :
    c.KeepsText ↔ splitsPair c.source n = false := by
  have hwhole : hasLoneSurrogate c.sent = splitsPair c.source n := by
    rw [hsent, hasLone_take h]
  constructor
  · intro hkeeps
    rw [← hwhole]
    exact hkeeps.whole
  · intro hsplits
    refine ⟨hwhole.trans hsplits, hpart.mpr (hsent ▸ List.take_prefix _ _), ?_⟩
    intro m hm
    rw [hmark] at hm
    rw [← Option.some.inj hm, decide_eq_true_iff, hsent, Ne, List.take_eq_self_iff, Nat.not_le]

theorem keepsText_title {text : JsString} (h : hasLoneSurrogate text = false) :
    (title text).KeepsText ↔ (title text).Spoils = false := by
  have hsent : (title text).sent = _ := cleanLabel_eq text
  have hlabel := titleLabel_whole h
  have hmarked : ∀ m ∈ (title text).mark, m = true ↔ (title text).sent ≠ (title text).source :=
    fun m hm => nomatch hm
  by_cases hshort : (titleLabel text).length ≤ titleMax
  · rw [if_pos hshort] at hsent
    have hspoils : (title text).Spoils = false := by
      rw [Spoils, decide_eq_false (Nat.not_lt.mpr hshort), Bool.false_and]
    exact iff_of_true ⟨hsent ▸ hlabel, Or.inl hsent, hmarked⟩ hspoils
  · rw [if_neg hshort] at hsent
    have hdots : startsLow (js "...") = false := by decide
    have hwhole : hasLoneSurrogate (title text).sent = (title text).Spoils := by
      rw [hsent, hasLone_append hdots, hasLone_rdropWhile, hasLone_take hlabel, Spoils,
        decide_eq_true (Nat.not_le.mp hshort), Bool.true_and]
      exact Bool.or_false _
    constructor
    · intro hkeeps
      rw [← hwhole]
      exact hkeeps.whole
    · intro hspoils
      refine ⟨hwhole.trans hspoils, Or.inr ⟨_, ?_, hsent⟩, hmarked⟩
      exact (List.rdropWhile_prefix _ _).trans (List.take_prefix _ _)

theorem keepsText_stderr {env : RunnerEnv} {inputs : List RunnerInput}
    {silent : (ResumeRun.run env inputs).finalAssistantText = []}
    (h : hasLoneSurrogate (ResumeRun.complaints env inputs) = false) :
    (stderr env inputs silent).KeepsText ↔ (stderr env inputs silent).Spoils = false := by
  have hsent : (stderr env inputs silent).sent =
      lastUnits ResumeRun.stderrTailUnits (ResumeRun.complaints env inputs) := by
    rw [sent, ResumeRun.fallbackText, if_pos silent, ResumeRun.stderrTail_run]
  have hwhole : hasLoneSurrogate (stderr env inputs silent).sent =
      (stderr env inputs silent).Spoils := by
    rw [hsent, lastUnits, hasLone_drop h, Spoils]
  constructor
  · intro hkeeps
    rw [← hwhole]
    exact hkeeps.whole
  · intro hspoils
    refine ⟨hwhole.trans hspoils, ?_, by intro m hm; cases hm⟩
    show (stderr env inputs silent).sent <:+ _
    rw [hsent]
    exact List.drop_suffix _ _

theorem keepsText_bytes {entry : SessionHistoryEntry}
    {long : historyEntryByteMax < historyEntryBytes entry}
    {mark : entry.contentTruncated ≠ some false} (h : hasLoneSurrogate entry.content = false) :
    (bytes entry long mark).KeepsText ↔ (bytes entry long mark).Spoils = false := by
  obtain ⟨n, hresult, hsplits, hcut⟩ := truncateEntryContentToByteLimit_cuts long mark
  have hsent : (bytes entry long mark).sent = entry.content.take n := by
    rw [sent, hresult]
    rfl
  have hmark : (bytes entry long mark).mark = some true := by
    rw [Shortening.mark, hresult]
    rfl
  have hmarked : (∀ m ∈ (bytes entry long mark).mark,
      m = true ↔ (bytes entry long mark).sent ≠ (bytes entry long mark).source) ↔
      entry.content ≠ [] := by
    have hsame : entry.content.take n ≠ entry.content ↔ entry.content ≠ [] := by
      rw [Ne, List.take_eq_self_iff, Nat.not_le]
      rcases hcut with hlt | hnil
      · exact iff_of_true hlt (List.ne_nil_of_length_pos (by omega))
      · rw [hnil]
        simp
    rw [hmark, hsent, ← hsame]
    constructor
    · intro hall
      exact (hall true rfl).mp rfl
    · intro hne m hm
      exact iff_of_true (Option.some.inj hm).symm hne
  have hspoils : (bytes entry long mark).Spoils = false ↔ entry.content ≠ [] :=
    decide_eq_false_iff_not
  rw [hspoils, ← hmarked]
  constructor
  · exact fun hkeeps => hkeeps.marked
  · intro hall
    refine ⟨?_, ?_, hall⟩
    · rw [hsent, hasLone_take h, hsplits]
    · show (bytes entry long mark).sent <+: _
      rw [hsent]
      exact List.take_prefix _ _

/-- **What is shortened stays a text, a part of its source and marked when it was cut, but for a
cut inside a pair and for an entry without a text.** -/
theorem keepsText_iff (c : Shortening) (h : hasLoneSurrogate c.source = false) :
    c.KeepsText ↔ c.Spoils = false := by
  cases c with
  | content text =>
      refine keepsText_take h Iff.rfl ?_ ?_
      · rw [sent, capContent, capString_eq]
        rfl
      · rw [mark, capContent, capString_eq]
        by_cases hlong : historyContentCap < text.length <;> simp [hlong, source]
  | toolIo text =>
      refine keepsText_take h Iff.rfl ?_ ?_
      · rw [sent, ioFields, capString_eq]
        by_cases hnil : text.take historyToolIoCap = [] <;> simp [hnil, source]
      · rw [mark, ioFields, capString_eq]
        by_cases hlong : historyToolIoCap < text.length <;> simp [hlong, source]
  | bytes entry long mark => exact keepsText_bytes h
  | title text => exact keepsText_title h
  | approval ctx args e =>
      have hsummary : (approval ctx args e).sent =
          if decide (args.inputSummary.length > inputSummaryMax) then
            args.inputSummary.take inputSummaryMax else args.inputSummary := rfl
      refine keepsText_take h Iff.rfl ?_ ?_
      · rw [hsummary]
        by_cases hlong : args.inputSummary.length > inputSummaryMax
        · simp [hlong, source]
        · rw [if_neg (by simp [hlong]), source, List.take_of_length_le (Nat.not_lt.mp hlong)]
      · have hmark : (approval ctx args e).mark =
            some (isTrue (.bool (decide (args.inputSummary.length > inputSummaryMax)))) := rfl
        rw [hmark]
        by_cases hlong : args.inputSummary.length > inputSummaryMax <;> simp [hlong, source, isTrue]
  | stderr env inputs silent => exact keepsText_stderr h

/-- A title whose cut at 77 units falls into an emoji. -/
def astralTitle : Shortening := title (List.replicate 76 (unit 'a') ++ js "😀 and more")

theorem title_cut_in_pair :
    ¬ ∀ c : Shortening, hasLoneSurrogate c.source = false → c.KeepsText := by
  intro hall
  have hlone : hasLoneSurrogate astralTitle.sent = true := by decide +kernel
  rw [(hall astralTitle (by decide +kernel)).whole] at hlone
  exact Bool.false_ne_true hlone

/-- A title whose cut at 77 units falls behind an emoji. -/
def emojiTitle : Shortening := title (List.replicate 75 (unit 'a') ++ js "😀 and more")

theorem emoji_kept : emojiTitle.KeepsText ∧
    emojiTitle.sent = List.replicate 75 (unit 'a') ++ js "😀..." :=
  ⟨(keepsText_iff emojiTitle (by decide +kernel)).mpr (by decide +kernel), by decide +kernel⟩

end Shortening

end HuginAgent
