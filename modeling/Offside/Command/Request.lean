import Offside.Command.Prompt

/-!
# `Offside.Command.Request`: the command line

A command line names a configuration file or none, and one of two modes: `file` scans a
source file and prints its tokens, `repl` scans lines as they are typed. In file mode nothing
is printed unless the whole source can be scanned.
-/

set_option autoImplicit false

namespace Offside.Command

/-- What to do. -/
inductive Mode where
  /-- Scan a source file. -/
  | file (path : String)
  /-- Scan lines as they are typed. -/
  | repl
deriving DecidableEq, Repr

/-- What a command line asks for. -/
structure Request where
  /-- The configuration file. -/
  config : Option String := none
  /-- What to do. -/
  mode : Mode
deriving DecidableEq, Repr

namespace Request

/-- The mode that some arguments name. -/
def mode? : List String → Option Mode
  | ["file", path] => some (.file path)
  | ["repl"] => some .repl
  | _ => none

/-- The value behind the equals sign of an argument that begins with the given option. -/
def optionValue? (option argument : String) : Option String :=
  let start := option.toList ++ ['=']
  if start.isPrefixOf argument.toList then
    some (String.ofList (argument.toList.drop start.length))
  else none

/-- The request that a command line makes, if it is well formed. -/
def ofArguments? : List String → Option Request
  | [] => none
  | first :: rest =>
    if first = "--config" then
      match rest with
      | path :: rest => (mode? rest).map (fun mode => { config := some path, mode })
      | [] => none
    else
      match optionValue? "--config" first with
      | some path => (mode? rest).map (fun mode => { config := some path, mode })
      | none => (mode? (first :: rest)).map (fun mode => { mode })

/-- The files that a request may read. -/
def paths (r : Request) : List String :=
  r.config.toList ++ match r.mode with
    | .file path => [path]
    | .repl => []

end Request

/-- What a command leaves behind when it ends. -/
structure Ending where
  /-- Zero for success. -/
  exit : Nat
  /-- What it wrote. -/
  output : Output
deriving DecidableEq, Repr

/-- The end of a command that failed. -/
def failed (attempt : String) (f : Failure) : Ending :=
  ⟨1, { err := attempt ++ ": " ++ f.text ++ "\n" }⟩

/-- File mode. -/
def runFile (files : Files) (settings : Settings) (path : String) : Ending :=
  match tokenizeFile files settings path with
  | .error f => failed "Failed run file" f
  | .ok tokens => ⟨0, { out := listing tokens }⟩

/-- Everything that a request does, given what it will find in files and on its input. -/
def run (files : Files) (input : List UInt8) (r : Request) : Ending :=
  match configuration files r.config with
  | .error f => failed "Failed load config" f
  | .ok c =>
    match r.mode with
    | .file path => runFile files c.settings path
    | .repl => ⟨0, session c.settings input⟩

/-- How the command line has to look. -/
def usage : String := "Usage: scriptlang [--config FILE] (file PATH | repl)\n"

end Offside.Command
