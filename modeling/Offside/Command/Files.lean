import Offside.Scope.Directory

/-!
# `Offside.Command.Files`: reading texts from files

What a command sees of the file system is the function that answers a path with the bytes
behind it or with the reason why there are none. `Folder` is the smallest file system that
gives every answer: a working directory with some files, somewhere below the root of a tree
of which only the standard directories are known. A path is followed one part at a time, and
the first part that leads nowhere decides the answer.
-/

set_option autoImplicit false

namespace Offside.Command

/-- Why a text cannot be read. -/
inductive ReadError where
  /-- Nothing has this path. -/
  | notFound
  /-- The path goes through something that is no directory. -/
  | notDirectory
  /-- The path leads to a directory. -/
  | isDirectory
  /-- The path or one of the names in it is longer than a file system takes. -/
  | nameTooLong
  /-- No path holds a NUL character. -/
  | badName
  /-- The bytes are no text. -/
  | notText
  /-- Anything else, in the words of the system. -/
  | other (text : String)
deriving DecidableEq, Repr

/-- The wording of a reason. -/
def ReadError.text : ReadError → String
  | notFound => "No such file or directory (os error 2)"
  | notDirectory => "Not a directory (os error 20)"
  | isDirectory => "Is a directory (os error 21)"
  | nameTooLong => "File name too long (os error 36)"
  | badName => "file name contained an unexpected NUL byte"
  | notText => "stream did not contain valid UTF-8"
  | other text => text

/-- What a command sees of the file system. -/
abbrev Files : Type := String → Except ReadError ByteArray

/-- The text of a file. -/
def Files.text (files : Files) (path : String) : Except ReadError String :=
  match files path with
  | .error e => .error e
  | .ok bytes =>
    match String.fromUTF8? bytes with
    | some s => .ok s
    | none => .error .notText

/-- A working directory with some files. -/
structure Folder where
  /-- The names of the files with their contents. -/
  contents : List (String × ByteArray) := []

/-- The bytes of a file in the folder. -/
def Folder.file? (f : Folder) (name : String) : Option ByteArray :=
  (f.contents.find? (fun e => e.1 == name)).map Prod.snd

/-- What the parts of a path have led to so far. -/
inductive Place where
  /-- The working directory. -/
  | folder
  /-- A directory above the working directory; nothing is known about what else it holds. -/
  | beyond
  /-- The root of the tree. -/
  | root
  /-- A standard directory below the root; nothing is known about what it holds. -/
  | standard
  /-- A file. -/
  | file (bytes : ByteArray)

/-- The directories that stand below the root of every system. -/
def standardDirectories : List String :=
  ["bin", "dev", "etc", "lib", "proc", "tmp", "usr", "var"]

/-- The most bytes in the name of a file or directory. -/
def nameLimit : Nat := 255

/-- The most bytes in a path. -/
def pathLimit : Nat := 4095

/-- Where a name leads from a place. A file holds no names, whatever the name is; a directory
refuses one that is too long before it looks for it. -/
def Folder.descend (f : Folder) (place : Place) (name : String) : Except ReadError Place :=
  match place with
  | .file _ => .error .notDirectory
  | directory =>
    if nameLimit < name.utf8ByteSize then .error .nameTooLong
    else
      match directory with
      | .folder =>
        match f.file? name with
        | some bytes => .ok (.file bytes)
        | none => .error .notFound
      | .root => if name ∈ standardDirectories then .ok .standard else .error .notFound
      | _ => .error .notFound

/-- The directory above a place. The root is above itself. -/
def Place.above : Place → Except ReadError Place
  | .file _ => .error .notDirectory
  | .folder | .beyond => .ok .beyond
  | .root | .standard => .ok .root

/-- The place itself, for a part that is empty or `.`: only a directory is followed by one. -/
def Place.here : Place → Except ReadError Place
  | .file _ => .error .notDirectory
  | directory => .ok directory

/-- Where one part of a path leads from a place. -/
def Folder.follow (f : Folder) (place : Place) (part : List Char) : Except ReadError Place :=
  if part = [] ∨ part = ['.'] then place.here
  else if part = ['.', '.'] then place.above
  else f.descend place (String.ofList part)

/-- The place where a path starts. -/
def Place.start (path : List Char) : Place :=
  if path.head? = some '/' then .root else .folder

/-- What a path leads to, as a file. The text as a whole is looked at first: it holds no NUL,
is not empty and not too long. -/
def Folder.files (f : Folder) : Files := fun path =>
  let text := path.toList
  if text.contains '\x00' then .error .badName
  else if text = [] then .error .notFound
  else if pathLimit < path.utf8ByteSize then .error .nameTooLong
  else
    match (Scope.Directory.parts text).foldlM f.follow (Place.start text) with
    | .error e => .error e
    | .ok (.file bytes) => .ok bytes
    | .ok _ => .error .isDirectory

end Offside.Command
