/-!
# Paths

A path names a file by the way to it, from the working directory or from the root. `..` leads out
of a directory; from the working directory it leads to directories about which nothing else is
known than that they are there.
-/

namespace Flipbook.Studio

/-- A path by its parts, without empty ones and `.`. -/
structure Path where
  absolute : Bool
  parts : List String
  /-- Whether the text of the path says that it leads to a directory. -/
  isDirectory : Bool
  deriving DecidableEq, Repr

namespace Path

def pieces : List Char → List (List Char)
  | [] => [[]]
  | '/' :: rest => [] :: pieces rest
  | c :: rest =>
    match pieces rest with
    | [] => [[c]]
    | p :: more => (c :: p) :: more

def ofText (text : String) : Path :=
  let all := (pieces text.toList).map String.ofList
  { absolute := text.toList.head? = some '/'
    parts := all.filter fun p => p ≠ "" ∧ p ≠ "."
    isDirectory := match all.getLast? with
      | some last => last = "" ∨ last = "." ∨ last = ".."
      | none => true }

/-- The text of the directory that holds a file, without the slashes and the `.` at its end. It is
empty if the file stands in the working directory or at the root. -/
def directoryText (text : String) : String :=
  let outer := (pieces text.toList).dropLast
  let named := (outer.reverse.dropWhile fun p => p = [] ∨ p = ['.']).reverse
  "/".intercalate (named.map String.ofList)

/-- The text of a file in a directory. A file that is named from the root stands where it says. -/
def join (directory file : String) : String :=
  match file.toList, directory.toList.getLast? with
  | '/' :: _, _ => file
  | _, none | _, some '/' => directory ++ file
  | _, some _ => directory ++ "/" ++ file

/-- The part of the last name behind its last point. A point at the start of the name does not
count, and neither does `..`. -/
def extension? (p : Path) : Option String :=
  match p.parts.getLast? with
  | none => none
  | some name =>
    let reversed := name.toList.reverse
    match reversed.dropWhile (· ≠ '.') with
    | '.' :: _ :: _ =>
      if name = ".." then none
      else some (.ofList (reversed.takeWhile (· ≠ '.')).reverse)
    | _ => none

end Path

end Flipbook.Studio
