/-!
# Files

The files from which the body of a request may be taken, and what reading one of them by its path
gives.
-/

namespace ApplianceRest

/-- A file, or a folder of named entries. -/
inductive FileTree where
  | file (data : List UInt8)
  | folder (entries : List (String × FileTree))

/-- Why a file cannot be read. -/
inductive FileFault where
  | notFound
  | notDirectory
  | isDirectory
  | nameTooLong
  /-- the path holds a character that ends it -/
  | badName
deriving DecidableEq, Repr

/-- The wording of the operating system. -/
def FileFault.message : FileFault → String
  | .notFound => "No such file or directory (os error 2)"
  | .notDirectory => "Not a directory (os error 20)"
  | .isDirectory => "Is a directory (os error 21)"
  | .nameTooLong => "File name too long (os error 36)"
  | .badName => "file name contained an unexpected NUL byte"

namespace FileTree

/-- The entry of a folder. -/
def entry? (name : String) : FileTree → Except FileFault FileTree
  | .file _ => .error .notDirectory
  | .folder entries =>
    if 255 < name.utf8ByteSize then .error .nameTooLong
    else
      match entries.lookup name with
      | some tree => .ok tree
      | none => .error .notFound

/-- Follows the parts of a path from a place whose ancestors are known, nearest first. The root is
its own ancestor, and an empty part, like `.`, stays in a folder. -/
def follow (ancestors : List FileTree) (here : FileTree) :
    List String → Except FileFault FileTree
  | [] => .ok here
  | part :: rest =>
    match here with
    | .file _ => .error .notDirectory
    | .folder _ =>
      if part = "" ∨ part = "." then follow ancestors here rest
      else if part = ".." then
        match ancestors with
        | [] => follow [] here rest
        | parent :: above => follow above parent rest
      else
        match here.entry? part with
        | .ok next => follow (here :: ancestors) next rest
        | .error fault => .error fault

/-- Reads the file at a path; a path without a slash in front starts in the folder `current`. -/
def read (root : FileTree) (current : List String) (path : String) :
    Except FileFault (List UInt8) :=
  if path.toList.contains '\x00' then .error .badName
  else if path = "" then .error .notFound
  else if 4096 ≤ path.utf8ByteSize then .error .nameTooLong
  else
    let parts := (path.toList.splitOn '/').map String.ofList
    let start := if path.toList.head? = some '/' then [] else current
    match follow [] root (start ++ parts) with
    | .ok (.file data) => .ok data
    | .ok (.folder _) => .error .isDirectory
    | .error fault => .error fault

end FileTree

end ApplianceRest
