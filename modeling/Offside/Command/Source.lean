import Offside.Command.Failure
import Offside.Command.Files
import Offside.Configuration
import Offside.Scan.Program

/-!
# `Offside.Command.Source`: configurations and sources from files

The two things that a command reads are its configuration, if it is given one, and a source.
Both readings explain their failures from the file inwards.
-/

set_option autoImplicit false

namespace Offside.Command

/-- The configuration in a file. -/
def loadConfiguration (files : Files) (path : String) : Except Failure Configuration :=
  match files.text path with
  | .error e => .error (.internal ["reading configuration from " ++ path, e.text])
  | .ok document =>
    match Configuration.parse document with
    | some c => .ok c
    | none => .error (.internal ["parsing configuration " ++ path, "invalid document"])

/-- The configuration in a file, or the standard one without a file. -/
def configuration (files : Files) : Option String → Except Failure Configuration
  | some path => loadConfiguration files path
  | none => .ok {}

/-- The tokens of a source file. -/
def tokenizeFile (files : Files) (settings : Settings) (path : String) :
    Except Failure (List Token) :=
  match files.text path with
  | .error e => .error (.internal ["Failed open source file " ++ path, e.text])
  | .ok source =>
    match Scan.scanSource settings source with
    | .error e => .error (.scan e)
    | .ok tokens => .ok tokens

/-- Tokens as text, one on a line. -/
def listing (tokens : List Token) : String :=
  String.join (tokens.map (fun t => t.text ++ "\n"))

end Offside.Command
