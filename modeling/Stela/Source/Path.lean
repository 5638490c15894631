/-!
# File names in paths

A module without a header is named after its file: the last part of the path,
without its last extension.
-/

namespace Stela.Path

/-- The parts of a path between slashes. -/
def parts : List Char → List (List Char)
  | [] => [[]]
  | c :: rest =>
    if c = '/' then [] :: parts rest
    else
      match parts rest with
      | first :: others => (c :: first) :: others
      | [] => [[c]]

/-- Parts that name no step: nothing between two slashes, and a single dot. -/
def isIdle (part : List Char) : Bool := part == [] || part == ['.']

/-- The last step of a path, unless it leads to a parent or there is none. -/
def fileName? (path : List Char) : Option (List Char) :=
  match (parts path).reverse.dropWhile isIdle with
  | last :: _ => if last == ['.', '.'] then none else some last
  | [] => none

/-- A file name without its last extension. A leading dot starts no extension. -/
def dropExtension (name : List Char) : List Char :=
  match name.reverse.dropWhile (· != '.') with
  | [] | [_] => name
  | _ :: stem => stem.reverse

/-- The stem of the file that a path names; a path that names none is kept whole. -/
def stem (path : String) : String :=
  match fileName? path.toList with
  | some name => String.ofList (dropExtension name)
  | none => path

end Stela.Path
