import LineShell.Proofs.Carrying
import Mathlib.Data.List.Chain

-- When a stage of the shell's own comes to its turn, what it writes to takes all of it, unless it writes into a pipe and
-- the stage behind it is one of the shell's own too.
namespace LineShell
open World Engine
variable {w opened ready : World} {p : Pipeline}

-- Messages go into no pipe: that slot is filled by redirections only, with what they open.

namespace Session

variable {turn outer : Turn}

-- What the stages of a line are, if it gets as far as that.
def Turn.kinds (turn : Turn) : List StageKind :=
  match compile turn.session.expand (trimmed turn.line) turn.world with
  | (.error _, _) => []
  | (.ok p, _) => (p.classify Builtin.isBuiltin).stages.map (·.kind)

end Session
end LineShell
