import LineShell.Bytes

namespace LineShell

structure Event where
  kind : Bytes
  line : Bytes := []
  command : List Bytes := []
  status : Int := 0
  error : Bytes := []
  deriving DecidableEq, Repr

namespace Event

-- The kinds of events a shell records.
def runCommand : Bytes := ascii "run_command"
def unknownCommand : Bytes := ascii "unknown_command"
def syntaxError : Bytes := ascii "syntax_error"
def resourceError : Bytes := ascii "resource_error"
def spawnError : Bytes := ascii "spawn_error"

def name (e : Event) : Bytes := e.command.headD []

end Event

end LineShell
