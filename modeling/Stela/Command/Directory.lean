import Stela.Source.Path

/-!
# Reading files from a directory

A directory is given by the files in it and below it. A path is followed step by
step: a step out of a file, a missing step, and an end at a directory are errors,
and so is an overlong name.
-/

namespace Stela

/-- Why a file cannot be read. -/
inductive ReadError where
  | notFound
  | notADirectory
  | isADirectory
  | nameTooLong
  | other (reason : String)
deriving Repr, DecidableEq

def ReadError.message : ReadError → String
  | .notFound => "No such file or directory (os error 2)"
  | .notADirectory => "Not a directory (os error 20)"
  | .isADirectory => "Is a directory (os error 21)"
  | .nameTooLong => "File name too long (os error 36)"
  | .other reason => reason

/-- A file by its path from the directory. -/
structure DirectoryFile where
  path : String
  text : String
deriving Repr, DecidableEq

/-- The files of a directory; a later file replaces an earlier one of its path. -/
structure Directory where
  files : List DirectoryFile
deriving Repr, DecidableEq

namespace Directory

/-- Most bytes in one step of a path. -/
def maxStep : Nat := 255

/-- Most bytes in a path. -/
def maxPath : Nat := 4095

/-- The steps of a path that lead somewhere. -/
def stepsOf (path : String) : List (List Char) :=
  (Path.parts path.toList).filter fun part => !Path.isIdle part

/-- What stands at a place in the directory. -/
inductive Entry where
  | file (text : String)
  | directory
  | missing
deriving Repr, DecidableEq

/-- What is reached by steps from the directory. -/
def entry (d : Directory) (steps : List (List Char)) : Entry :=
  match d.files.reverse.find? fun f => stepsOf f.path == steps with
  | some file => .file file.text
  | none =>
    if d.files.any fun f => steps.isPrefixOf (stepsOf f.path) then .directory else .missing

/-- Follows the parts of a path from a place, which is `none` outside of the
directory; nothing can be found there. -/
def follow (d : Directory) :
    Option (List (List Char)) → List (List Char) → Except ReadError String
  | _, [] => .error .isADirectory
  | place, part :: rest =>
    if Path.isIdle part then d.follow place rest
    else if part == ['.', '.'] then
      match place with
      | some (_ :: _) => d.follow (place.map List.dropLast) rest
      | _ => d.follow none rest
    else if maxStep < (String.ofList part).utf8ByteSize then .error .nameTooLong
    else
      match place with
      | none => .error .notFound
      | some steps =>
        match d.entry (steps ++ [part]) with
        | .file text => if rest.isEmpty then .ok text else .error .notADirectory
        | .directory => d.follow (some (steps ++ [part])) rest
        | .missing => .error .notFound

/-- The text of the file that a path names. -/
def read (d : Directory) (path : String) : Except ReadError String :=
  if maxPath < path.utf8ByteSize then .error .nameTooLong
  else
    let start := if path.toList.head? == some '/' then none else some []
    d.follow start (Path.parts path.toList)

end Directory

end Stela
