/-!
# Paths

A path is a text.  Its parts stand between slashes; empty ones lead nowhere, `.` names the directory
itself and `..` the one above.  A path that starts with a slash starts at the root of all directories.

Main definitions: `Path.parts`, `Path.parent`, `Path.ancestors`.
-/

namespace ProcProfile

namespace Path

/-- Splits at slashes; `current` is the piece read so far, in reverse. -/
def splitPieces (current : List Char) : List Char → List (List Char)
  | [] => [current.reverse]
  | '/' :: rest => current.reverse :: splitPieces [] rest
  | c :: rest => splitPieces (c :: current) rest

/-- The pieces of a text between its slashes; an empty text has none. -/
def pieces (text : List Char) : List String :=
  if text.isEmpty then [] else (splitPieces [] text).map String.ofList

/-- The parts of a path. -/
def parts (path : String) : List String := (pieces path.toList).filter fun part => part != ""

/-- Whether a path starts at the root. -/
def isAbsolute (path : String) : Bool := path.toList.head? == some '/'

/-- A path that ends in a slash names a directory. -/
def namesDirectory (path : String) : Bool := path.toList.getLast? == some '/'

/-- Leaves out the pieces at the end of a path that do not change where it leads. -/
def trimEnd (pieces : List String) : List String :=
  (pieces.reverse.dropWhile fun piece => piece == "" || piece == ".").reverse

/-- How a path starts: the root's slash, or a dot that stands for the working directory. -/
def splitStart : List Char → List Char × List Char
  | '/' :: rest => (['/'], rest)
  | ['.'] => (['.'], [])
  | '.' :: '/' :: rest => (['.'], '/' :: rest)
  | text => ([], text)

/-- A path without its last part.  The root has none, nor has the empty path. -/
def parent (path : String) : Option String :=
  let (start, body) := splitStart path.toList
  match trimEnd (pieces body) with
  | [] => if start = ['.'] then some "" else none
  | parts => some (String.ofList start ++ "/".intercalate (trimEnd parts.dropLast))

/-- A path, its parent, the parent of that, and so on, `n` of them at most. -/
def ancestorsUpTo : (n : Nat) → (path : String) → List String
  | 0, _ => []
  | n + 1, path =>
    path ::
      match parent path with
      | none => []
      | some above => ancestorsUpTo n above

/-- A path and all its parents; each is shorter than the one before. -/
def ancestors (path : String) : List String := ancestorsUpTo (path.length + 1) path

end Path

end ProcProfile
