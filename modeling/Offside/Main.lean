import Offside.Command.Request

/-!
# `Offside.Main`: the command

Only reading and writing happen here. The files that a request names are read first, and
`Command.run` decides what becomes of them; the prompt is written before each line is waited
for, which is the one thing that a session as a whole does not show.
-/

set_option autoImplicit false

namespace Offside.Command

/-- The reason that an error number of the system stands for. The number may come negated. -/
def ReadError.ofCode (code : UInt32) : ReadError :=
  match min code (0 - code) with
  | 2 => .notFound
  | 20 => .notDirectory
  | 21 => .isDirectory
  | 36 => .nameTooLong
  | 13 => .other "Permission denied (os error 13)"
  | 40 => .other "Too many levels of symbolic links (os error 40)"
  | number => .other ("Unreadable (os error " ++ toString number ++ ")")

/-- The bytes of a file, or the reason why there are none. -/
def readPath (path : String) : IO (Except ReadError ByteArray) := do
  if path.isEmpty then return .error .notFound
  try
    return .ok (← IO.FS.readBinFile path)
  catch
    | .noFileOrDirectory .. => return .error .notFound
    | .inappropriateType _ code _ | .invalidArgument _ code _ | .permissionDenied _ code _ =>
      return .error (.ofCode code)
    | e => return .error (.other (toString e))

/-- The part of the file system that a request may see. -/
def readAll (r : Request) : IO Files := do
  let found ← r.paths.mapM (fun path => do return (path, ← readPath path))
  return fun path =>
    match found.find? (fun e => e.1 == path) with
    | some e => e.2
    | none => .error .notFound

/-- Write what a command has to say. -/
def Output.write (o : Output) : IO Unit := do
  IO.print o.out
  (← IO.getStdout).flush
  IO.eprint o.err

/-- One line of the input, without its line break; nothing at the end of the input. -/
partial def readLine (input : IO.FS.Stream) (line : List UInt8 := []) :
    IO (Option (List UInt8)) := do
  match (← input.read 1).toList with
  | [] => return if line.isEmpty then none else some line.reverse
  | byte :: _ =>
    if byte = 10 then return (inputLines (line.reverse ++ [10])).head?
    else readLine input (byte :: line)

/-- The session at the prompt. -/
partial def prompts (settings : Settings) : IO Unit := do
  Output.write { out := prompt }
  match ← readLine (← IO.getStdin) with
  | some line =>
    (reply settings line).write
    prompts settings
  | none => Output.write { out := farewell }

/-- Do what is asked for, and answer the exit code. -/
def execute (r : Request) : IO Nat := do
  let files ← readAll r
  match configuration files r.config, r.mode with
  | .ok c, .repl =>
    prompts c.settings
    return 0
  | _, _ =>
    let ending := run files [] r
    ending.output.write
    return ending.exit

end Offside.Command

/-- The command. -/
def main (arguments : List String) : IO UInt32 := do
  match Offside.Command.Request.ofArguments? arguments with
  | some r => return (← Offside.Command.execute r).toUInt32
  | none =>
    IO.eprint Offside.Command.usage
    return 2
