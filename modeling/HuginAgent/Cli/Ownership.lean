/-
Whose process it is, `src/cli.ts`.

`stop` asks `ps` for the command line of the recorded process and looks for one token of the
recorded command line in it.  The recorded line is split at white space, so the token is the first
of the longest absolute words (`distinctiveTokens_cases`), which need not be a path of the command: a
path with a space in it is cut.  An answer `yes` therefore tells the daemon exactly when that word
has the whole path in it (`ownershipVerified_iff`).
-/
import HuginAgent.Js.Strings
import HuginAgent.Protocol.Schema
import Mathlib.Data.List.Infix
import Mathlib.Data.List.Sort

namespace HuginAgent

/-! ### The daemon's command -/

structure DaemonCommand where
  command : JsString
  args : List JsString
deriving DecidableEq

/-- `s.split(/\s+/)`. -/
def splitWhite : JsString → List JsString
  | [] => [[]]
  | u :: rest =>
      if isWhite u then
        if rest.head?.any isWhite then splitWhite rest else [] :: splitWhite rest
      else
        match splitWhite rest with
        | [] => [[u]]
        | piece :: pieces => (u :: piece) :: pieces

/-- It throws on what is no JSON array of strings. -/
def parseDaemonArgs (raw : Option JsString) : Option (List JsString) :=
  match raw.map trim with
  | none | some [] => some []
  | some (u :: rest) =>
      if u = unit '[' then
        match parse (u :: rest) with
        | some (.arr items) =>
            items.mapM fun item =>
              match item with
              | .str s => some s
              | _ => none
        | _ => none
      else some (splitWhite (u :: rest))

/-- `HUGIND_DAEMON_CMD` and `HUGIND_DAEMON_ARGS`, `process.execPath` and `daemonEntryPath()`. -/
structure DaemonEnv where
  daemonCmd : Option JsString
  daemonArgs : Option JsString
  execPath : JsString
  entry : JsString

/-- The override, unless it is empty. -/
def DaemonEnv.override (env : DaemonEnv) : Option JsString :=
  (env.daemonCmd.map trim).filter fun cmd => cmd ≠ []

def daemonCommand (env : DaemonEnv) : Option DaemonCommand :=
  match env.override with
  | some command => (parseDaemonArgs env.daemonArgs).map fun args => ⟨command, args⟩
  | none =>
      if (js ".js").isSuffixOf env.entry then some ⟨env.execPath, [env.entry]⟩
      else some ⟨env.execPath, [js "--import", js "tsx", env.entry]⟩

def daemonCommandLine (cmd : DaemonCommand) : JsString := join ' ' (cmd.command :: cmd.args)

/-! ### Tokens -/

def isPathSeparator (u : UInt16) : Bool := u = unit '\\' || u = unit '/'

/-- `token.split(/[\\/]/).pop()`. -/
def tokenBasename (token : JsString) : JsString := token.rtakeWhile fun u => !isPathSeparator u

def isAbsolutePathLike (token : JsString) : Bool :=
  (js "/").isPrefixOf token ||
    (token.head?.any (fun u => (65 ≤ u && u ≤ 90) || (97 ≤ u && u ≤ 122)) &&
      token[1]? = some (unit ':') && token[2]?.any isPathSeparator) ||
    (js "\\\\").isPrefixOf token

def isQuote (u : UInt16) : Bool := u = unit '"' || u = unit '\''

/-- `part.replace(/^["']|["']$/g, "")`. -/
def stripQuotes (part : JsString) : JsString :=
  let part := if part.head?.any isQuote then part.tail else part
  if part.getLast?.any isQuote then part.dropLast else part

/-- The words of a command line. -/
def partsOf (cmd : JsString) : List JsString :=
  ((splitWhite cmd).map fun part => stripQuotes (trim part)).filter fun part => part ≠ []

def commonNames : List JsString :=
  [js "node", js "node.exe", js "tsx", js "--import", js "-e", js "env"]

/-- The base name tells the daemon from other programs. -/
def isDistinctive (part : JsString) : Bool :=
  let base := toLowerCase (tokenBasename part)
  4 ≤ part.length && !commonNames.contains base && !(base ≠ [] && base.all isDigit)

def absoluteTokens (cmd : JsString) : List JsString :=
  (partsOf cmd).filter fun part => isAbsolutePathLike part && isDistinctive part

def distinctiveTokens (cmd : JsString) : List JsString :=
  match (absoluteTokens cmd).insertionSort fun a b => b.length ≤ a.length with
  | token :: _ => [token]
  | [] => if trim cmd = [] then [] else [trim cmd]

/-! ### `processMatches` and `stop` -/

inductive ProcessMatch
  | yes
  | no
  | unknown
deriving DecidableEq

/-- What `processMatches` asks: `HUGIND_FORCE_MATCH`, the platform, and `ps`, which may fail. -/
structure ProcessHost where
  forced : Option ProcessMatch
  win32 : Bool
  ps : Nat → Option JsString

def processMatches (host : ProcessHost) (pid : Nat) (cmd : JsString) : ProcessMatch :=
  match host.forced with
  | some forced => forced
  | none =>
      if host.win32 = true ∨ trim cmd = [] then .unknown
      else
        match host.ps pid with
        | none => .unknown
        | some raw =>
            let actual := trim raw
            if actual = [] then .unknown
            else if distinctiveTokens cmd = [] then .unknown
            else if ∃ token ∈ distinctiveTokens cmd, token <:+: actual then .yes
            else .no

inductive PidfileState
  | running
  | starting
  | stale
  | none
deriving DecidableEq

structure PidRecord where
  pid : Nat
  cmd : JsString

structure Inspection where
  state : PidfileState
  record : Option PidRecord
  ownership : Option ProcessMatch
  legacy : Bool

def isLegacyRecord (record : PidRecord) : Bool := trim record.cmd = []

/-- What `inspectPidfile` makes of a record. -/
def inspectRecord (host : ProcessHost) (alive : Nat → Bool) (record : PidRecord) : Inspection :=
  if !alive record.pid then ⟨.stale, some record, none, isLegacyRecord record⟩
  else
    let ownership := if isLegacyRecord record then .unknown else processMatches host record.pid record.cmd
    ⟨if ownership = .no then .stale else .running, some record, some ownership, isLegacyRecord record⟩

inductive StopDecision
  | kill
  | refuseUnverified
  | stale
  | notRunning
  | starting
deriving DecidableEq

def stopDecision (inspection : Inspection) (force : Bool) : StopDecision :=
  if inspection.state = .none then .notRunning
  else if inspection.state = .starting then .starting
  else if inspection.state = .stale ∨ inspection.record.isNone ∨ inspection.ownership = some .no then
    .stale
  else if (inspection.legacy || inspection.ownership ≠ some .yes) && !force then .refuseUnverified
  else .kill

/-! ### What tells the daemon -/

/-- The whole paths that tell the daemon: its entry, or for an overridden command the absolute
paths of the command, and where none is absolute the whole command line. -/
def entryPaths (env : DaemonEnv) (cmd : DaemonCommand) : List JsString :=
  let named := if env.override.isSome then cmd.command :: cmd.args else [env.entry]
  let absolute := named.filter isAbsolutePathLike
  if absolute = [] then [trim (daemonCommandLine cmd)] else absolute

/-- The printed line has the whole of a path in it. -/
def Tells (env : DaemonEnv) (cmd : DaemonCommand) (raw : JsString) : Prop :=
  ∃ path ∈ entryPaths env cmd, path <:+: trim raw

structure VerifiesOwner (env : DaemonEnv) (cmd : DaemonCommand) : Prop where
  /-- No guess. -/
  yes : ∀ (host : ProcessHost) pid, host.forced = none →
    processMatches host pid (daemonCommandLine cmd) = .yes →
      ∃ raw, host.ps pid = some raw ∧ Tells env cmd raw
  /-- `stop` without `--force` signals no other process. -/
  kill : ∀ (host : ProcessHost) alive pid, host.forced = none →
    stopDecision (inspectRecord host alive ⟨pid, daemonCommandLine cmd⟩) false = .kill →
      ∃ raw, host.ps pid = some raw ∧ Tells env cmd raw
  /-- The daemon's own line. -/
  own : ∀ (host : ProcessHost) pid raw, host.forced = none → host.win32 = false →
    host.ps pid = some raw → trim raw = trim (daemonCommandLine cmd) →
      processMatches host pid (daemonCommandLine cmd) = .yes

/-- For every command that `startDaemon` records. -/
def OwnershipVerified (env : DaemonEnv) : Prop :=
  ∀ cmd, daemonCommand env = some cmd → VerifiesOwner env cmd

/-- The first of the longest words. -/
def IsFirstLongest (words : List JsString) (word : JsString) : Prop :=
  ∃ before after, words = before ++ word :: after ∧ (∀ w ∈ before, w.length < word.length) ∧
    ∀ w ∈ after, w.length ≤ word.length

/-- The first of the longest absolute words of the recorded line has the whole of a path in it; where
there is no such word, the whole line has. -/
def WordTells (env : DaemonEnv) (cmd : DaemonCommand) : Prop :=
  let line := daemonCommandLine cmd
  (∃ word, IsFirstLongest (absoluteTokens line) word ∧ ∃ path ∈ entryPaths env cmd, path <:+: word) ∨
    absoluteTokens line = [] ∧ ∃ path ∈ entryPaths env cmd, path <:+: trim line

/-! ### The first of the longest -/

section

variable {words : List JsString} {a word : JsString}

theorem isFirstLongest_cons : IsFirstLongest (a :: words) word ↔
    (word = a ∧ ∀ w ∈ words, w.length ≤ a.length) ∨
      (a.length < word.length ∧ IsFirstLongest words word) := by
  constructor
  · rintro ⟨before, after, hsplit, hbefore, hafter⟩
    cases before with
    | nil =>
        obtain ⟨rfl, rfl⟩ := List.cons.inj hsplit
        exact Or.inl ⟨rfl, hafter⟩
    | cons b before =>
        obtain ⟨rfl, hrest⟩ := List.cons.inj hsplit
        obtain ⟨hlt, hbefore⟩ := List.forall_mem_cons.mp hbefore
        exact Or.inr ⟨hlt, before, after, hrest, hbefore, hafter⟩
  · rintro (⟨rfl, hafter⟩ | ⟨hlt, before, after, rfl, hbefore, hafter⟩)
    · exact ⟨[], words, rfl, nofun, hafter⟩
    · exact ⟨a :: before, after, rfl, List.forall_mem_cons.mpr ⟨hlt, hbefore⟩, hafter⟩

theorem IsFirstLongest.mem (h : IsFirstLongest words word) : word ∈ words := by
  obtain ⟨before, after, rfl, -, -⟩ := h
  exact List.mem_append_right _ List.mem_cons_self

theorem IsFirstLongest.le (h : IsFirstLongest words word) : ∀ w ∈ words, w.length ≤ word.length := by
  obtain ⟨before, after, rfl, hbefore, hafter⟩ := h
  intro w hw
  rcases List.mem_append.mp hw with hw | hw
  · exact Nat.le_of_lt (hbefore w hw)
  · rcases List.mem_cons.mp hw with rfl | hw
    · exact Nat.le_refl _
    · exact hafter w hw

/-- **A stable sort by length brings the first of the longest to the front.** -/
theorem head?_insertionSort_iff (words : List JsString) : ∀ {word : JsString},
    (words.insertionSort fun a b => b.length ≤ a.length).head? = some word ↔
      IsFirstLongest words word := by
  induction words with
  | nil =>
      intro word
      refine iff_of_false (fun h => nomatch h) ?_
      rintro ⟨before, after, hsplit, -⟩
      exact List.append_ne_nil_of_right_ne_nil _ (List.cons_ne_nil _ _) hsplit.symm
  | cons a words ih =>
      intro word
      rw [isFirstLongest_cons, List.insertionSort_cons]
      cases hsorted : words.insertionSort fun a b => b.length ≤ a.length with
      | nil =>
          have hlength := congrArg List.length hsorted
          rw [List.length_insertionSort] at hlength
          have hnil : words = [] := List.length_eq_zero_iff.mp hlength
          rw [hnil, List.orderedInsert_nil, List.head?_cons, Option.some_inj, eq_comm]
          refine ⟨fun h => Or.inl ⟨h, nofun⟩, ?_⟩
          rintro (⟨h, -⟩ | ⟨-, h⟩)
          · exact h
          · exact nomatch h.mem
      | cons first rest =>
          have hfirst : IsFirstLongest words first := by
            rw [← ih, hsorted]
            rfl
          have hunique : ∀ {w}, IsFirstLongest words w ↔ w = first := by
            intro w
            rw [← ih, hsorted, List.head?_cons, Option.some_inj, eq_comm]
          by_cases hle : first.length ≤ a.length
          · rw [List.orderedInsert, if_pos hle, List.head?_cons, Option.some_inj, eq_comm]
            refine ⟨fun h => Or.inl ⟨h, fun w hw => Nat.le_trans (hfirst.le w hw) hle⟩, ?_⟩
            rintro (⟨h, -⟩ | ⟨hlt, h⟩)
            · exact h
            · rw [hunique.mp h] at hlt
              omega
          · rw [List.orderedInsert, if_neg hle, List.head?_cons, Option.some_inj, eq_comm]
            constructor
            · rintro rfl
              exact Or.inr ⟨Nat.lt_of_not_le hle, hfirst⟩
            · rintro (⟨-, hall⟩ | ⟨-, h⟩)
              · exact absurd (hall first hfirst.mem) hle
              · exact hunique.mp h

end

/-! ### Words of a line -/

section

variable {s word : JsString}

/-- The pieces are parts of the text without white space, and the first begins it. -/
theorem splitWhite_spec (s : JsString) :
    ∃ rest, splitWhite s = s.takeWhile (fun u => !isWhite u) :: rest ∧
      ∀ piece ∈ rest, piece <:+: s ∧ ∀ u ∈ piece, isWhite u = false := by
  induction s with
  | nil => exact ⟨[], rfl, nofun⟩
  | cons u s ih =>
      obtain ⟨rest, hsplit, hrest⟩ := ih
      have hlater : ∀ {piece}, piece <:+: s → piece <:+: u :: s := by
        intro piece hpiece
        exact hpiece.trans (List.suffix_cons u s).isInfix
      have hmore : ∀ piece ∈ rest, piece <:+: u :: s ∧ ∀ v ∈ piece, isWhite v = false :=
        fun piece hpiece => ⟨hlater (hrest piece hpiece).1, (hrest piece hpiece).2⟩
      have hfirst : s.takeWhile (fun u => !isWhite u) <:+: u :: s :=
        hlater (List.takeWhile_prefix _).isInfix
      have hunits : ∀ v ∈ s.takeWhile (fun u => !isWhite u), isWhite v = false := by
        intro v hv
        have hnot := List.mem_takeWhile_imp hv
        rwa [Bool.not_eq_true'] at hnot
      rw [splitWhite]
      cases hu : isWhite u with
      | true =>
          have hcut : (u :: s).takeWhile (fun u => !isWhite u) = [] := by
            rw [List.takeWhile_cons_of_neg]
            rw [hu]
            decide
          rw [if_pos rfl, hcut]
          by_cases hnext : s.head?.any isWhite = true
          · have hnone : s.takeWhile (fun u => !isWhite u) = [] := by
              cases s with
              | nil => rfl
              | cons v s =>
                  have hv : isWhite v = true := hnext
                  rw [List.takeWhile_cons_of_neg]
                  rw [hv]
                  decide
            rw [if_pos hnext, hsplit, hnone]
            exact ⟨rest, rfl, hmore⟩
          · rw [if_neg hnext, hsplit]
            exact ⟨_, rfl, List.forall_mem_cons.mpr ⟨⟨hfirst, hunits⟩, hmore⟩⟩
      | false =>
          rw [if_neg Bool.false_ne_true, hsplit, List.takeWhile_cons_of_pos (by rw [hu]; rfl)]
          exact ⟨rest, rfl, hmore⟩

theorem mem_splitWhite (h : word ∈ splitWhite s) :
    word <:+: s ∧ ∀ u ∈ word, isWhite u = false := by
  obtain ⟨rest, hsplit, hrest⟩ := splitWhite_spec s
  rw [hsplit] at h
  rcases List.mem_cons.mp h with rfl | h
  · refine ⟨(List.takeWhile_prefix _).isInfix, fun u hu => ?_⟩
    have hnot := List.mem_takeWhile_imp hu
    rwa [Bool.not_eq_true'] at hnot
  · exact hrest word h

theorem trim_within (s : JsString) : trim s <:+: s :=
  (List.rdropWhile_prefix isWhite (s.dropWhile isWhite)).isInfix.trans
    (List.dropWhile_suffix _).isInfix

theorem stripQuotes_within (part : JsString) : stripQuotes part <:+: part := by
  have hopen : (if part.head?.any isQuote then part.tail else part) <:+: part := by
    split
    · exact (List.tail_suffix part).isInfix
    · exact List.infix_rfl
  have hclose : ∀ t : JsString, (if t.getLast?.any isQuote then t.dropLast else t) <:+: t := by
    intro t
    split
    · exact (List.dropLast_prefix t).isInfix
    · exact List.infix_rfl
  exact (hclose _).trans hopen

/-- A word stands in the line and has no white space. -/
theorem mem_partsOf (h : word ∈ partsOf s) :
    word ≠ [] ∧ word <:+: s ∧ ∀ u ∈ word, isWhite u = false := by
  obtain ⟨hmem, hne⟩ := List.mem_filter.mp h
  obtain ⟨part, hpart, rfl⟩ := List.mem_map.mp hmem
  obtain ⟨hinside, hunits⟩ := mem_splitWhite hpart
  have hword : stripQuotes (trim part) <:+: part := (stripQuotes_within _).trans (trim_within part)
  exact ⟨of_decide_eq_true hne, hword.trans hinside, fun u hu => hunits u (hword.subset hu)⟩

theorem mem_absoluteTokens (h : word ∈ absoluteTokens s) :
    word ≠ [] ∧ word <:+: s ∧ ∀ u ∈ word, isWhite u = false := mem_partsOf (List.mem_of_mem_filter h)

/-- What has no white space is not trimmed away. -/
theorem infix_dropWhile (hne : word ≠ []) (hunits : ∀ u ∈ word, isWhite u = false)
    (h : word <:+: s) : word <:+: s.dropWhile isWhite := by
  obtain ⟨before, after, rfl⟩ := h
  obtain ⟨u, rest, rfl⟩ := List.exists_cons_of_ne_nil hne
  have hstop : ¬ isWhite u = true := by
    rw [hunits u List.mem_cons_self]
    decide
  rw [List.append_assoc, List.dropWhile_append]
  split
  · rw [List.cons_append, List.dropWhile_cons_of_neg hstop]
    exact (List.prefix_append (u :: rest) after).isInfix
  · rw [← List.append_assoc]
    exact List.infix_append _ _ _

theorem infix_trim (hne : word ≠ []) (hunits : ∀ u ∈ word, isWhite u = false) (h : word <:+: s) :
    word <:+: trim s := by
  have hfront := infix_dropWhile hne hunits h
  have hback : word.reverse <:+: (s.dropWhile isWhite).reverse.dropWhile isWhite := by
    refine infix_dropWhile (fun hnil => hne (List.reverse_eq_nil_iff.mp hnil)) ?_ ?_
    · exact fun u hu => hunits u (List.mem_reverse.mp hu)
    · exact List.reverse_infix.mpr hfront
  rw [← List.reverse_infix, trim, List.rdropWhile, List.reverse_reverse]
  exact hback

theorem trim_of_noWhite (hunits : ∀ u ∈ word, isWhite u = false) : trim word = word := by
  by_cases hne : word = []
  · rw [hne]
    rfl
  · exact ((trim_within word).sublist.antisymm (infix_trim hne hunits List.infix_rfl).sublist)

end

/-! ### Tokens -/

section

variable {cmd : JsString}

theorem distinctiveTokens_some {word : JsString} (h : IsFirstLongest (absoluteTokens cmd) word) :
    distinctiveTokens cmd = [word] := by
  rw [← head?_insertionSort_iff] at h
  rw [distinctiveTokens]
  cases hsorted : (absoluteTokens cmd).insertionSort fun a b => b.length ≤ a.length with
  | nil =>
      rw [hsorted] at h
      exact nomatch h
  | cons first rest =>
      rw [hsorted] at h
      rw [Option.some.inj h]

theorem distinctiveTokens_none (h : absoluteTokens cmd = []) (hcmd : trim cmd ≠ []) :
    distinctiveTokens cmd = [trim cmd] := by
  rw [distinctiveTokens, h, List.insertionSort_nil]
  exact if_neg hcmd

theorem exists_firstLongest (h : absoluteTokens cmd ≠ []) :
    ∃ word, IsFirstLongest (absoluteTokens cmd) word := by
  cases hsorted : (absoluteTokens cmd).insertionSort fun a b => b.length ≤ a.length with
  | nil =>
      have hlength := congrArg List.length hsorted
      rw [List.length_insertionSort] at hlength
      exact absurd (List.length_eq_zero_iff.mp hlength) h
  | cons first rest =>
      refine ⟨first, (head?_insertionSort_iff _).mp ?_⟩
      rw [hsorted]
      rfl

/-- **There is one token: the first of the longest absolute words, or the whole line.** -/
theorem distinctiveTokens_cases (hcmd : trim cmd ≠ []) :
    ∃ token, distinctiveTokens cmd = [token] ∧ token ≠ [] ∧ token <:+: trim cmd ∧
      (∃ raw, trim raw = token) ∧
      (IsFirstLongest (absoluteTokens cmd) token ∨ absoluteTokens cmd = [] ∧ token = trim cmd) := by
  by_cases hnone : absoluteTokens cmd = []
  · exact ⟨trim cmd, distinctiveTokens_none hnone hcmd, hcmd, List.infix_rfl, ⟨cmd, rfl⟩,
      Or.inr ⟨hnone, rfl⟩⟩
  · obtain ⟨word, hword⟩ := exists_firstLongest hnone
    obtain ⟨hne, hinside, hunits⟩ := mem_absoluteTokens hword.mem
    exact ⟨word, distinctiveTokens_some hword, hne, infix_trim hne hunits hinside,
      ⟨word, trim_of_noWhite hunits⟩, Or.inl hword⟩

end

/-! ### The recorded line -/

section

variable {env : DaemonEnv} {cmd : DaemonCommand}

theorem infix_join {part : JsString} {parts : List JsString} (h : part ∈ parts) :
    part <:+: join ' ' parts := by
  induction parts with
  | nil => exact nomatch h
  | cons first rest ih =>
      cases rest with
      | nil =>
          rw [List.mem_singleton.mp h, join, List.intercalate_singleton]
      | cons second rest =>
          rw [join, List.intercalate_cons_cons]
          rcases List.mem_cons.mp h with rfl | h
          · rw [List.append_assoc]
            exact (List.prefix_append _ _).isInfix
          · exact (ih h).trans (List.suffix_append _ _).isInfix

theorem trim_ne_nil {s : JsString} {u : UInt16} (hmem : u ∈ s) (hu : isWhite u = false) :
    trim s ≠ [] := by
  have hword : [u] <:+: s := by
    obtain ⟨before, after, rfl⟩ := List.append_of_mem hmem
    exact ⟨before, after, by rw [List.append_assoc, List.singleton_append]⟩
  have hinside : [u] <:+: trim s := by
    refine infix_trim (List.cons_ne_nil _ _) ?_ hword
    intro v hv
    rw [List.mem_singleton.mp hv]
    exact hu
  intro hnil
  rw [hnil] at hinside
  exact nomatch List.infix_nil.mp hinside

theorem exists_nonWhite {s : JsString} (h : trim s ≠ []) : ∃ u ∈ trim s, isWhite u = false :=
  ⟨(trim s).getLast h, List.getLast_mem h, Bool.eq_false_iff.mpr (List.rdropWhile_last_not _ _ h)⟩

/-- A recorded line is not blank. -/
theorem trim_daemonCommandLine (h : daemonCommand env = some cmd) :
    trim (daemonCommandLine cmd) ≠ [] := by
  obtain ⟨part, hpart, u, hu, hwhite⟩ :
      ∃ part ∈ cmd.command :: cmd.args, ∃ u ∈ part, isWhite u = false := by
    rw [daemonCommand] at h
    cases hover : env.override with
    | some command =>
        rw [hover] at h
        obtain ⟨args, -, rfl⟩ := Option.map_eq_some_iff.mp h
        obtain ⟨hmap, hne⟩ := Option.filter_eq_some_iff.mp hover
        obtain ⟨raw, -, rfl⟩ := Option.map_eq_some_iff.mp hmap
        exact ⟨_, List.mem_cons_self, exists_nonWhite (of_decide_eq_true hne)⟩
    | none =>
        rw [hover] at h
        dsimp only at h
        by_cases hjs : (js ".js").isSuffixOf env.entry = true
        · rw [if_pos hjs] at h
          obtain rfl := Option.some.inj h
          refine ⟨env.entry, List.mem_cons_of_mem _ List.mem_cons_self, unit '.', ?_, by decide⟩
          have hsuffix := List.isSuffixOf_iff_suffix.mp hjs
          exact hsuffix.subset (by decide)
        · rw [if_neg hjs] at h
          obtain rfl := Option.some.inj h
          exact ⟨js "--import", List.mem_cons_of_mem _ List.mem_cons_self, unit '-', by decide,
            by decide⟩
  exact trim_ne_nil ((infix_join hpart).subset hu) hwhite

end

/-! ### The main result -/

section

variable {host : ProcessHost} {pid : Nat} {cmd : JsString}

theorem processMatches_eq_yes_iff (hforced : host.forced = none) (hcmd : trim cmd ≠ []) :
    processMatches host pid cmd = .yes ↔ host.win32 = false ∧ ∃ raw, host.ps pid = some raw ∧
      ∃ token ∈ distinctiveTokens cmd, token <:+: trim raw := by
  obtain ⟨token, htokens, hne, -⟩ := distinctiveTokens_cases hcmd
  rw [processMatches, hforced]
  dsimp only
  cases hwin : host.win32 with
  | true =>
      rw [if_pos (Or.inl rfl)]
      exact iff_of_false (fun h => nomatch h) fun h => nomatch h.1
  | false =>
      rw [if_neg (not_or.mpr ⟨Bool.false_ne_true, hcmd⟩)]
      cases hps : host.ps pid with
      | none => exact iff_of_false (fun h => nomatch h) fun ⟨_, _, h, _⟩ => nomatch h
      | some raw =>
          dsimp only
          by_cases hempty : trim raw = []
          · rw [if_pos hempty]
            refine iff_of_false (fun h => nomatch h) ?_
            rintro ⟨-, raw', hraw, token', htoken, hinside⟩
            rw [← Option.some.inj hraw, hempty, List.infix_nil] at hinside
            rw [htokens, List.mem_singleton] at htoken
            exact hne (htoken.symm.trans hinside)
          · have hsome : distinctiveTokens cmd ≠ [] := by
              rw [htokens]
              exact List.cons_ne_nil _ _
            rw [if_neg hempty, if_neg hsome]
            by_cases htoken : ∃ token ∈ distinctiveTokens cmd, token <:+: trim raw
            · rw [if_pos htoken]
              exact iff_of_true rfl ⟨rfl, raw, rfl, htoken⟩
            · rw [if_neg htoken]
              refine iff_of_false (fun h => nomatch h) ?_
              rintro ⟨-, raw', hraw, hinside⟩
              rw [← Option.some.inj hraw] at hinside
              exact htoken hinside

/-- **Without `--force` only a process that matches is signalled.** -/
theorem processMatches_of_kill {alive : Nat → Bool}
    (h : stopDecision (inspectRecord host alive ⟨pid, cmd⟩) false = .kill) :
    processMatches host pid cmd = .yes := by
  rw [inspectRecord] at h
  cases halive : alive pid with
  | false =>
      simp [stopDecision, halive] at h
  | true =>
      cases hlegacy : isLegacyRecord ⟨pid, cmd⟩ with
      | true => simp [stopDecision, halive, hlegacy] at h
      | false =>
          cases hmatch : processMatches host pid cmd with
          | yes => rfl
          | no => simp [stopDecision, halive, hlegacy, hmatch] at h
          | unknown => simp [stopDecision, halive, hlegacy, hmatch] at h

variable {env : DaemonEnv} {command : DaemonCommand}

/-- The recorded line has one token, and the word tells the daemon just where the token does. -/
theorem wordTells_iff {token : JsString} (htoken : distinctiveTokens (daemonCommandLine command) = [token])
    (hcmd : trim (daemonCommandLine command) ≠ []) :
    WordTells env command ↔ ∃ path ∈ entryPaths env command, path <:+: token := by
  obtain ⟨token', htoken', -, -, -, hcases⟩ := distinctiveTokens_cases hcmd
  obtain rfl := (List.cons.inj (htoken.symm.trans htoken')).1
  constructor
  · rintro (⟨word, hword, hpath⟩ | ⟨hnone, hpath⟩)
    · obtain rfl := (List.cons.inj (htoken.symm.trans (distinctiveTokens_some hword))).1
      exact hpath
    · rcases hcases with hfirst | ⟨-, rfl⟩
      · rw [hnone] at hfirst
        exact nomatch hfirst.mem
      · exact hpath
  · intro hpath
    rcases hcases with hfirst | ⟨hnone, rfl⟩
    · exact Or.inl ⟨token, hfirst, hpath⟩
    · exact Or.inr ⟨hnone, hpath⟩

theorem verifiesOwner_iff (h : daemonCommand env = some command) :
    VerifiesOwner env command ↔ WordTells env command := by
  have hcmd := trim_daemonCommandLine h
  obtain ⟨token, htokens, -, hinside, ⟨raw, hraw⟩, -⟩ := distinctiveTokens_cases hcmd
  rw [wordTells_iff htokens hcmd]
  constructor
  · intro hverifies
    -- a process whose whole line is the token
    have hyes : processMatches ⟨none, false, fun _ => some raw⟩ 1 (daemonCommandLine command) = .yes := by
      rw [processMatches_eq_yes_iff rfl hcmd, htokens]
      exact ⟨rfl, raw, rfl, token, List.mem_singleton_self _, hraw ▸ List.infix_rfl⟩
    obtain ⟨raw', hps, path, hpath, hin⟩ := hverifies.yes _ 1 rfl hyes
    rw [← Option.some.inj hps, hraw] at hin
    exact ⟨path, hpath, hin⟩
  · rintro ⟨path, hpath, hin⟩
    have hyes : ∀ (host : ProcessHost) pid, host.forced = none →
        processMatches host pid (daemonCommandLine command) = .yes →
          ∃ raw, host.ps pid = some raw ∧ Tells env command raw := by
      intro host pid hforced hmatch
      obtain ⟨-, raw', hps, token', htoken, hprinted⟩ :=
        (processMatches_eq_yes_iff hforced hcmd).mp hmatch
      rw [htokens, List.mem_singleton] at htoken
      rw [htoken] at hprinted
      exact ⟨raw', hps, path, hpath, hin.trans hprinted⟩
    refine ⟨hyes, ?_, ?_⟩
    · intro host alive pid hforced hkill
      exact hyes host pid hforced (processMatches_of_kill hkill)
    · intro host pid raw' hforced hwin hps hown
      rw [processMatches_eq_yes_iff hforced hcmd, htokens]
      rw [← hown] at hinside
      exact ⟨hwin, raw', hps, token, List.mem_singleton_self _, hinside⟩

end

/-- **An answer `yes` is no guess exactly when the word that is looked for has a whole path of the
daemon in it.** -/
theorem ownershipVerified_iff (env : DaemonEnv) :
    OwnershipVerified env ↔ ∀ cmd, daemonCommand env = some cmd → WordTells env cmd :=
  forall₂_congr fun _ h => verifiesOwner_iff h

/-- An entry path with a space in it. -/
def spacedEnv : DaemonEnv where
  daemonCmd := none
  daemonArgs := none
  execPath := js "/usr/bin/node"
  entry := js "/home/me/my agent/index.js"

/-- An editor on a file beside it is taken for the daemon. -/
theorem editor_taken_for_daemon :
    processMatches ⟨none, false, fun _ => some (js "vim /home/me/my notes.txt")⟩ 7
        (js "/usr/bin/node /home/me/my agent/index.js") = .yes ∧
      ¬ OwnershipVerified spacedEnv := by
  have hyes : processMatches ⟨none, false, fun _ => some (js "vim /home/me/my notes.txt")⟩ 7
      (js "/usr/bin/node /home/me/my agent/index.js") = .yes := by decide +kernel
  refine ⟨hyes, fun hverified => ?_⟩
  have hcmd : daemonCommand spacedEnv =
      some ⟨js "/usr/bin/node", [js "/home/me/my agent/index.js"]⟩ := by decide +kernel
  have hline : daemonCommandLine ⟨js "/usr/bin/node", [js "/home/me/my agent/index.js"]⟩ =
      js "/usr/bin/node /home/me/my agent/index.js" := by decide +kernel
  have howner := hverified _ hcmd
  obtain ⟨raw, hps, path, hpath, hin⟩ := howner.yes _ 7 rfl (by rw [hline]; exact hyes)
  have hentry : entryPaths spacedEnv ⟨js "/usr/bin/node", [js "/home/me/my agent/index.js"]⟩ =
      [js "/home/me/my agent/index.js"] := by decide +kernel
  rw [hentry, List.mem_singleton] at hpath
  rw [hpath, ← Option.some.inj hps] at hin
  revert hin
  decide +kernel

end HuginAgent
