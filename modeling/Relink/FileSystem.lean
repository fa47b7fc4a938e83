import Relink.Text.Lossy

/-!
# Files

A path is a sequence of bytes, and need not be a text; messages show it as one
(`FilePath.display`). Files are known by what comes of reading them. Which paths lead
to a file is for the system to say, so nothing is laid down about it: a
`FileSystem` is any function from paths to contents or faults, and the files become
others when it is replaced by another function, whichever that is.
-/

namespace Relink

/-- The path of a file, absolute or not. -/
structure FilePath where
  /-- The bytes of the path. -/
  bytes : Bytes
deriving DecidableEq

namespace FilePath

/-- The path that a text is. -/
def ofString (s : String) : FilePath := ⟨Text.encode s⟩

instance : Coe String FilePath := ⟨ofString⟩

/-- The path as it is shown. -/
def display (p : FilePath) : String := Text.decodeLossy p.bytes

@[simp] theorem display_ofString (s : String) : (ofString s).display = s :=
  Text.decodeLossy_encode s

/-- The path is a text. -/
def IsText (p : FilePath) : Prop := ∃ s, p = ofString s

/-- The bytes between the slashes of a path. -/
def split (bs : Bytes) : List Bytes :=
  bs.foldr (fun b ns =>
    if b = 0x2f then [] :: ns
    else match ns with
      | [] => [[b]]
      | n :: ns => (b :: n) :: ns) [[]]

/-- The last name of a path. Empty names and single dots count for nothing, and two
dots are no name. -/
def fileName? (p : FilePath) : Option Bytes :=
  match ((split p.bytes).filter fun n => !n.isEmpty && n != [0x2e]).getLast? with
  | some n => if n = [0x2e, 0x2e] then none else some n
  | none => none

/-- What follows the last dot of the last name, if something comes before the dot. -/
def extension? (p : FilePath) : Option Bytes :=
  p.fileName?.bind fun name =>
    let last := (name.reverse.takeWhile (· != 0x2e)).reverse
    if last.length + 1 < name.length then some last else none

end FilePath

/-- Why a file could not be read. -/
inductive ReadFault where
  /-- There is nothing at the path. -/
  | notFound
  /-- There is a directory at the path. -/
  | isDirectory
  /-- The path goes through a file. -/
  | notDirectory
  /-- The path cannot be a path. -/
  | invalidPath
  /-- The path, or a name in it, is too long. -/
  | nameTooLong
  /-- The file may not be read. -/
  | permissionDenied
  /-- The bytes of the file are no text. -/
  | notText
  /-- Something else, as the system puts it. -/
  | other (reason : String)
deriving DecidableEq

/-- The files as they are at some time. -/
structure FileSystem where
  /-- What comes of reading the file at a path. -/
  read : FilePath → Except ReadFault Bytes

namespace FileSystem

/-- The text of the file at a path. -/
def readText (files : FileSystem) (path : FilePath) : Except ReadFault String :=
  match files.read path with
  | .error f => .error f
  | .ok content =>
    match Text.decode content with
    | some s => .ok s
    | none => .error .notText

/-- No files. -/
def empty : FileSystem := ⟨fun _ => .error .notFound⟩

/-- The files when there is one more, or another one, at a path. -/
def put (files : FileSystem) (path : FilePath) (content : Bytes) : FileSystem :=
  ⟨fun p => if p = path then .ok content else files.read p⟩

end FileSystem

end Relink
