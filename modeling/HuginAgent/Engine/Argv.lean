/-
The command lines of the children: `src/engine/claude.ts`, `src/sessions/resume.ts` and
`src/workspace/worktree.ts`.

A child may read an element as an option when it begins with a dash and no `--` comes before it.
Each command line has elements of its own and texts that come from the remote side: the prompt
of a job, the session id and the message of a turn, the commit of a workspace.  None of the four
puts a `--` before them, so such a text is an option as soon as it begins with a dash, and the
options are the same for two texts just when the texts agree on that (`options_same_iff`).
-/
import HuginAgent.Js.Text
import HuginAgent.Protocol.Messages

namespace HuginAgent

/-! ### Options -/

/-- The text, where it begins with a dash. -/
def dashText (s : JsString) : Option JsString := if s.head? = some (unit '-') then some s else none

/-- What a child can read as options, from place `i` on, each with its place. -/
def optionsFrom : (i : Nat) → List JsString → List (Nat × JsString)
  | _, [] => []
  | i, s :: argv =>
      match dashText s with
      | none => optionsFrom (i + 1) argv
      | some s => (i, s) :: if s = js "--" then [] else optionsFrom (i + 1) argv

theorem optionsFrom_le {i : Nat} {argv : List JsString} : ∀ o ∈ optionsFrom i argv, i ≤ o.1 := by
  induction argv generalizing i with
  | nil => exact nofun
  | cons s argv ih =>
      intro o ho
      unfold optionsFrom at ho
      split at ho
      · exact Nat.le_of_succ_le (ih o ho)
      · rcases List.mem_cons.mp ho with rfl | ho
        · exact Nat.le_refl i
        · split at ho
          · exact nomatch ho
          · exact Nat.le_of_succ_le (ih o ho)

/-- Nothing further on is an option at this place. -/
theorem cons_ne_optionsFrom {i : Nat} {s : JsString} {l : List (Nat × JsString)}
    {argv : List JsString} : (i, s) :: l ≠ optionsFrom (i + 1) argv := by
  intro h
  have hle : i + 1 ≤ i := optionsFrom_le (i, s) (h ▸ List.mem_cons_self)
  omega

/-- **Two command lines give the same options just when they do so at each place.** -/
theorem optionsFrom_cons_iff {i : Nat} {s t : JsString} {argv argv' : List JsString} :
    optionsFrom i (s :: argv) = optionsFrom i (t :: argv') ↔
      dashText s = dashText t ∧
        (s = js "--" ∨ optionsFrom (i + 1) argv = optionsFrom (i + 1) argv') := by
  have hterminator : ∀ {u : JsString}, dashText u = none → u ≠ js "--" := by
    rintro u hu rfl
    exact absurd hu (by decide)
  have hsame : ∀ {u v : JsString}, dashText u = some v → v = u := by
    intro u v hu
    unfold dashText at hu
    split at hu
    · exact (Option.some.inj hu).symm
    · exact nomatch hu
  rw [optionsFrom, optionsFrom]
  cases hs : dashText s with
  | none =>
      cases ht : dashText t with
      | none => simp only [true_and, hterminator hs, false_or]
      | some t' =>
          refine iff_of_false (fun h => cons_ne_optionsFrom h.symm) ?_
          exact fun h => nomatch h.1
  | some s' =>
      obtain rfl := hsame hs
      cases ht : dashText t with
      | none =>
          refine iff_of_false cons_ne_optionsFrom ?_
          exact fun h => nomatch h.1
      | some t' =>
          obtain rfl := hsame ht
          simp only [List.cons.injEq, Prod.mk.injEq, true_and, Option.some.injEq]
          refine and_congr_right ?_
          rintro rfl
          by_cases hend : s' = js "--"
          · rw [if_pos hend, if_pos hend]
            exact iff_of_true rfl (Or.inl hend)
          · rw [if_neg hend, if_neg hend, or_iff_right hend]

theorem optionsFrom_cons_same {i : Nat} {s : JsString} {argv argv' : List JsString}
    (hs : s ≠ js "--") : optionsFrom i (s :: argv) = optionsFrom i (s :: argv') ↔
      optionsFrom (i + 1) argv = optionsFrom (i + 1) argv' := by
  rw [optionsFrom_cons_iff]
  exact ⟨fun h => h.2.resolve_left hs, fun h => ⟨rfl, Or.inr h⟩⟩

/-- A text and then the same on both sides. -/
theorem optionsFrom_text_iff {i : Nat} {s t : JsString} {argv : List JsString} :
    optionsFrom i (s :: argv) = optionsFrom i (t :: argv) ↔ dashText s = dashText t := by
  rw [optionsFrom_cons_iff]
  exact ⟨fun h => h.1, fun h => ⟨h, Or.inr rfl⟩⟩

/-- `options(argv)`: what a child can read as options. -/
def options (argv : List JsString) : List (Nat × JsString) := optionsFrom 0 argv

/-! ### The command lines -/

/-- `args.push("--disallowedTools", …)`. -/
def toolRestriction : List JsString :=
  [js "--disallowedTools", js "Write", js "Edit", js "MultiEdit", js "NotebookEdit", js "Bash"]

def permissionPromptTool : JsString := js "mcp__hugin__permission_prompt"

/-- `args` of `ClaudeEngine.run`; with the approval bridge there is a configuration for it. -/
def claudeArgs (prompt : JsString) (sandbox : Option Sandbox) (mcpConfigPath : Option JsString) :
    List JsString :=
  [js "-p", prompt, js "--output-format", js "stream-json", js "--verbose", js "--permission-mode",
      js "default"] ++
    (if sandbox.getD .readOnly = .readOnly then toolRestriction else []) ++
    match mcpConfigPath with
    | some path =>
        [js "--mcp-config", path, js "--strict-mcp-config", js "--permission-prompt-tool",
          permissionPromptTool]
    | none => []

/-- `args` of `ClaudeResumeRunner.run`. -/
def claudeResumeArgs (sessionId message : JsString) (fork : Bool) (sandbox : Sandbox) :
    List JsString :=
  [js "--resume", sessionId] ++ (if fork then [js "--fork-session"] else []) ++
    [js "-p", message, js "--output-format", js "stream-json", js "--verbose"] ++
    if sandbox = .readOnly then toolRestriction else []

/-- `args` of `CodexResumeRunner.run`, where it does not throw. -/
def codexResumeArgs (engine : EngineName) (sessionId message : JsString) (fork : Bool)
    (sandbox : Sandbox) (outputFile : JsString) : Except JsString (List JsString) :=
  if engine ≠ .codex then .error (js "CodexResumeRunner only supports codex sessions")
  else if fork then .error (js "codex resume is continue-only and cannot fork")
  else if sandbox ≠ .readOnly then .error (js "codex resume requires read_only sandbox")
  else .ok
    [js "exec", js "-s", js "read-only", js "resume", sessionId, message, js "--json",
      js "--skip-git-repo-check", js "-o", outputFile]

/-- What `validateWorkspace` gives, as far as `git` is told of it: both paths are absolute. -/
structure Validated where
  root : JsString
  wtDir : JsString
  rootAbsolute : root.head? = some (unit '/')
  wtDirAbsolute : wtDir.head? = some (unit '/')

/-- The `git worktree add` of `createWorktree`. -/
def worktreeArgs (v : Validated) (baseSha : Option JsString) : List JsString :=
  [js "-C", v.root, js "worktree", js "add", js "--detach", v.wtDir, baseSha.getD (js "HEAD")]

/-! ### What the remote side has a hand in -/

/-- The texts that come from the remote side. -/
structure RemoteTexts where
  prompt : JsString
  sessionId : JsString
  message : JsString
  baseSha : Option JsString

/-- The rest of what the command lines are made of. -/
structure Launch where
  sandbox : Option Sandbox
  mcpConfigPath : Option JsString
  turnEngine : EngineName
  turnFork : Bool
  turnSandbox : Sandbox
  outputFile : JsString
  workspace : Validated

/-- The options of each of the four children are the same for both. -/
structure Launch.OptionsSame (l : Launch) (v v' : RemoteTexts) : Prop where
  claude : options (claudeArgs v.prompt l.sandbox l.mcpConfigPath) =
    options (claudeArgs v'.prompt l.sandbox l.mcpConfigPath)
  claudeResume : options (claudeResumeArgs v.sessionId v.message l.turnFork l.turnSandbox) =
    options (claudeResumeArgs v'.sessionId v'.message l.turnFork l.turnSandbox)
  codexResume :
    (codexResumeArgs l.turnEngine v.sessionId v.message l.turnFork l.turnSandbox l.outputFile).map
        options =
      (codexResumeArgs l.turnEngine v'.sessionId v'.message l.turnFork l.turnSandbox
        l.outputFile).map options
  worktree : options (worktreeArgs l.workspace v.baseSha) =
    options (worktreeArgs l.workspace v'.baseSha)

/-- A text that begins with a dash is in both; after a session id that ends the options the
message does not matter. -/
structure RemoteTexts.Agrees (v v' : RemoteTexts) : Prop where
  prompt : dashText v.prompt = dashText v'.prompt
  sessionId : dashText v.sessionId = dashText v'.sessionId
  message : v.sessionId = js "--" ∨ dashText v.message = dashText v'.message
  baseSha : v.baseSha.bind dashText = v'.baseSha.bind dashText

theorem claude_options_iff {prompt prompt' : JsString} {sandbox : Option Sandbox}
    {path : Option JsString} :
    options (claudeArgs prompt sandbox path) = options (claudeArgs prompt' sandbox path) ↔
      dashText prompt = dashText prompt' := by
  unfold options claudeArgs
  simp only [List.cons_append]
  rw [optionsFrom_cons_same (by decide)]
  exact optionsFrom_text_iff

/-- A session id, and the message further on. -/
theorem turn_options_iff {i : Nat} {sessionId sessionId' message message' : JsString}
    {between argv : List JsString} (hbetween : ∀ s ∈ between, s ≠ js "--") :
    optionsFrom i (sessionId :: (between ++ message :: argv)) =
        optionsFrom i (sessionId' :: (between ++ message' :: argv)) ↔
      dashText sessionId = dashText sessionId' ∧
        (sessionId = js "--" ∨ dashText message = dashText message') := by
  have htail : ∀ k, optionsFrom k (between ++ message :: argv) =
      optionsFrom k (between ++ message' :: argv) ↔ dashText message = dashText message' := by
    induction between with
    | nil => exact fun _ => optionsFrom_text_iff
    | cons s between ih =>
        intro k
        rw [List.cons_append, List.cons_append,
          optionsFrom_cons_same (hbetween s List.mem_cons_self)]
        exact ih (fun t ht => hbetween t (List.mem_cons_of_mem _ ht)) (k + 1)
  rw [optionsFrom_cons_iff, htail]

theorem claudeResume_options_iff {sessionId sessionId' message message' : JsString} {fork : Bool}
    {sandbox : Sandbox} :
    options (claudeResumeArgs sessionId message fork sandbox) =
        options (claudeResumeArgs sessionId' message' fork sandbox) ↔
      dashText sessionId = dashText sessionId' ∧
        (sessionId = js "--" ∨ dashText message = dashText message') := by
  have hbetween : ∀ s ∈ (if fork then [js "--fork-session"] else []) ++ [js "-p"], s ≠ js "--" := by
    cases fork <;> decide
  have h := fun i argv => @turn_options_iff i sessionId sessionId' message message' _ argv hbetween
  unfold options claudeResumeArgs
  simp only [List.cons_append, List.nil_append, List.append_assoc] at h ⊢
  rw [optionsFrom_cons_same (by decide)]
  exact h _ _

theorem codexResume_options_iff {sessionId sessionId' message message' outputFile : JsString} :
    (codexResumeArgs .codex sessionId message false .readOnly outputFile).map options =
        (codexResumeArgs .codex sessionId' message' false .readOnly outputFile).map options ↔
      dashText sessionId = dashText sessionId' ∧
        (sessionId = js "--" ∨ dashText message = dashText message') := by
  have hok : ∀ id text : JsString,
      (codexResumeArgs .codex id text false .readOnly outputFile).map options =
        .ok (options ([js "exec", js "-s", js "read-only", js "resume"] ++ id ::
          ([] ++ text :: [js "--json", js "--skip-git-repo-check", js "-o", outputFile]))) :=
    fun _ _ => rfl
  rw [hok, hok, Except.ok.injEq]
  unfold options
  simp only [List.cons_append, List.nil_append]
  rw [optionsFrom_cons_same (by decide), optionsFrom_cons_same (by decide),
    optionsFrom_cons_same (by decide), optionsFrom_cons_same (by decide)]
  exact @turn_options_iff _ _ _ _ _ [] _ (fun _ hs => absurd hs List.not_mem_nil)

theorem worktree_options_iff {v : Validated} {baseSha baseSha' : Option JsString} :
    options (worktreeArgs v baseSha) = options (worktreeArgs v baseSha') ↔
      baseSha.bind dashText = baseSha'.bind dashText := by
  have hpath : ∀ {path : JsString}, path.head? = some (unit '/') → path ≠ js "--" := by
    rintro path h rfl
    exact absurd h (by decide)
  have hbase : ∀ base : Option JsString, dashText (base.getD (js "HEAD")) = base.bind dashText := by
    intro base
    cases base with
    | none => decide
    | some sha => rfl
  unfold options worktreeArgs
  rw [optionsFrom_cons_same (by decide), optionsFrom_cons_same (hpath v.rootAbsolute),
    optionsFrom_cons_same (by decide), optionsFrom_cons_same (by decide),
    optionsFrom_cons_same (by decide), optionsFrom_cons_same (hpath v.wtDirAbsolute),
    optionsFrom_text_iff, hbase, hbase]

/-- **The options are the same just when the texts that begin with a dash are.** -/
theorem options_same_iff (l : Launch) (v v' : RemoteTexts) : l.OptionsSame v v' ↔ v.Agrees v' := by
  constructor
  · intro h
    obtain ⟨hid, hmessage⟩ := claudeResume_options_iff.mp h.claudeResume
    refine ⟨claude_options_iff.mp h.claude, hid, hmessage, ?_⟩
    exact worktree_options_iff.mp h.worktree
  · intro h
    refine ⟨claude_options_iff.mpr h.prompt, ?_, ?_, worktree_options_iff.mpr h.baseSha⟩
    · exact claudeResume_options_iff.mpr ⟨h.sessionId, h.message⟩
    · -- where the runner throws there is no command line
      by_cases hengine : l.turnEngine = .codex
      · cases hfork : l.turnFork with
        | true =>
            unfold codexResumeArgs
            rw [if_neg (not_not_intro hengine), if_neg (not_not_intro hengine)]
            rfl
        | false =>
            by_cases hsandbox : l.turnSandbox = .readOnly
            · rw [hengine, hsandbox]
              exact codexResume_options_iff.mpr ⟨h.sessionId, h.message⟩
            · unfold codexResumeArgs
              rw [if_neg (not_not_intro hengine), if_neg (not_not_intro hengine), if_pos hsandbox,
                if_pos hsandbox]
      · unfold codexResumeArgs
        rw [if_pos hengine, if_pos hengine]

/-! ### A prompt that is an option -/

def readOnlyLaunch : Launch where
  sandbox := some .readOnly
  mcpConfigPath := some (js "/tmp/run/mcp.json")
  turnEngine := .claude
  turnFork := true
  turnSandbox := .readOnly
  outputFile := js "/tmp/run/last-message.txt"
  workspace := ⟨js "/w", js "/s/worktrees/a", rfl, rfl⟩

/-- The prompt of a job lifts the permissions of the engine. -/
theorem prompt_becomes_option :
    ¬ readOnlyLaunch.OptionsSame ⟨js "hello", js "s", js "m", none⟩
      ⟨js "--dangerously-skip-permissions", js "s", js "m", none⟩ := by
  intro h
  exact absurd h.claude (by decide +kernel)

end HuginAgent
