import Stepwise.Code.Emission
import Stepwise.Program.Parser
import Stepwise.Token.Lexer

/-!
# Compilation

From source text to a module: tokens, program tree, annotated tree, code. The first fault of any
stage is the outcome.
-/

set_option autoImplicit false

namespace Stepwise

/-- The program of a source text. -/
def Program.ofSource (source : String) : Diagnosed Program := do
  let ts ← tokens source
  Program.ofTokens ts

/-- The module of a source text, compiled against the functions of a host. -/
def compile {σ : Type} (source : String) (host : HostTable σ) : Diagnosed (Module σ) := do
  let program ← Program.ofSource source
  let checked ← checkProgram program.records program.allFunctions host
  emitModule checked.functions checked.environment

end Stepwise
