import LineShell.Engine
import LineShell.Journal.Entry
import LineShell.Settings.Basic
import LineShell.World.Log

namespace LineShell

structure Recorder where
  session : Bytes := []
  file : FileId
  deriving DecidableEq, Repr

structure Session where
  settings : Settings := {}
  locals : Variables := {}
  env : Variables := {}
  lastStatus : Int := 0
  searchPath : List Bytes := []
  storage : Storage := .disk
  std : Triple (Option FileId)
  -- The engine's copy of the standard files.
  engineStd : Triple (Option FileId) := std
  messages : Option FileId := none
  recorder : Option Recorder := none
  debug : Option DebugSink := none
  exited : Bool := false
  fatal : Option Fault := none
  depth : Nat := 0

namespace Session
open Bytes

-- The variables with a meaning of their own.
def homeVar : Bytes := ascii "HOME"
def pwdVar : Bytes := ascii "PWD"
def pathVar : Bytes := ascii "PATH"
def userVar : Bytes := ascii "USER"
def statusVar : Bytes := ascii "?"

-- Programs are searched in `PATH`, then beside the shell's own executable, then in the configured
-- directories; later changes of `PATH` do not matter.
def create (settings : Settings) (std : Triple (Option FileId)) (environ : List Bytes) (w : World) : Session :=
  let env := Variables.ofEnviron environ
  { settings := settings, env := env, std := std, engineStd := std, messages := std.error.or w.stderr
    searchPath := LineShell.searchPath (env.get pathVar) (Path.directory w.executable :: settings.extraPath) }

def lookupStatus (s : Session) (name : Bytes) : Option Bytes :=
  if name = statusVar then some (decimalInt s.lastStatus) else none

def lookups (s : Session) : List Line.Lookup := [s.lookupStatus, s.locals.lookup, s.env.lookup]

def expand (s : Session) (word : Bytes) : Bytes := Line.expand s.lookups word

def engine (s : Session) : Engine :=
  { name := s.settings.shellName, searchPath := s.searchPath, std := s.engineStd, debug := s.debug }

-- An empty table stands for the shell's own environment.
def environ (s : Session) : Option (List Bytes) :=
  if s.env.entries.isEmpty then none else some s.env.environ

-- A name that is exported keeps one value in both tables.
def assignVariable (s : Session) (name value : Bytes) : Session :=
  { s with
    locals := s.locals.set name value
    env := if s.env.contains name then s.env.set name value else s.env }

def assign (text : Bytes) (streams : Streams) (s : Session) (w : World) : Int × Session × World :=
  match Variables.parseAssignment text with
  | some (name, value) => (0, s.assignVariable name value, w)
  | none =>
    (1, s, w.emit streams.channels.error
      (s.settings.shellName ++ ascii ": invalid assignment: " ++ Quoted.encode text ++ [newline]))

def shownDirectory (s : Session) (w : World) : Bytes :=
  let pwd := (w.workingDirectory).toOption.getD []
  let home := s.env.get homeVar
  if !home.isEmpty && home.isPrefixOf pwd then ascii "~" ++ pwd.drop home.length else pwd

def colored (text : Bytes) : Bytes := [0x1B] ++ ascii "[34;1m" ++ text ++ [0x1B] ++ ascii "[0m"

def sigil (w : World) : Bytes := if w.user = 0 then ascii "#" else ascii "$"

-- User, host, directory and sigil are put in one after the other, so what one of them inserts is
-- searched for the next.
def prompt (s : Session) (w : World) : Bytes :=
  let directory := s.shownDirectory w
  let directory := if s.settings.color = Settings.colorAlways then colored directory else directory
  let text := replace (ascii "\\u") (s.env.get userVar) s.settings.prompt
  let text := replace (ascii "\\h") w.host text
  let text := replace (ascii "\\w") directory text
  replace (ascii "\\$") (sigil w) text

end Session
end LineShell
