import Flipbook.Error
import Flipbook.Studio.Path

/-!
# File trees

The files and directories below a working directory, and what is made outside of it. A path is
followed name by name, and every name but the last has to be a directory.
-/

namespace Flipbook.Studio

/-- A place in the file system: some directories above the working directory or at the root, and
then down by name, the last name first. -/
structure Location where
  absolute : Bool
  above : Nat
  names : List String
  deriving DecidableEq, Repr

def Location.outside (l : Location) : Location :=
  match l.names with
  | _ :: rest => { l with names := rest }
  | [] => if l.absolute then l else { l with above := l.above + 1 }

def Location.child (l : Location) (name : String) : Location :=
  { l with names := name :: l.names }

/-- What stands at a place. -/
inductive Entry
  | directory
  | file (content : List UInt8)
  deriving DecidableEq

/-- What is known of a file system. -/
structure FileTree where
  entries : List (Location × Entry)
  deriving DecidableEq

namespace FileTree

/-- The greatest length of a name in bytes. -/
def maxName : Nat := 255

/-- The length in bytes from which a path is too long. -/
def maxPath : Nat := 4096

/-- What stands at a place. Where no name leads, there is a directory. -/
def entry? (t : FileTree) (l : Location) : Option Entry :=
  if l.names = [] then some .directory else t.entries.lookup l

/-- The tree with one entry replaced or added. -/
def put (t : FileTree) (l : Location) (e : Entry) : FileTree :=
  ⟨(l, e) :: t.entries.filter fun (other, _) => other ≠ l⟩

/-- A step by name from a directory: the new place and what stands there. -/
def look (t : FileTree) (l : Location) (name : String) :
    Except StorageError (Location × Option Entry) :=
  if name = ".." then .ok (l.outside, some .directory)
  else if maxName < name.utf8ByteSize then .error .invalidFilename
  else .ok (l.child name, t.entry? (l.child name))

/-- The place to which names lead from a directory, and what stands there. -/
def follow (t : FileTree) (l : Location) : List String →
    Except StorageError (Location × Option Entry)
  | [] => .ok (l, some .directory)
  | [name] => t.look l name
  | name :: rest => do
    match ← t.look l name with
    | (l, some .directory) => t.follow l rest
    | (_, some (.file _)) => .error .notADirectory
    | (_, none) => .error .notFound

/-- The place to which a path leads, and what stands there. -/
def resolve (t : FileTree) (path : Path) : Except StorageError (Location × Option Entry) :=
  t.follow ⟨path.absolute, 0, []⟩ path.parts

/-- A text as a path. Texts that the file system cannot take are refused. -/
def readPath (text : String) : Except StorageError Path :=
  if text.toList.contains '\x00' then .error .invalidInput
  else if text = "" then .error .notFound
  else if maxPath ≤ text.utf8ByteSize then .error .invalidFilename
  else .ok (.ofText text)

/-! ### Files -/

/-- Makes an empty file, over an old one if there is one. Its place is where it can be written. -/
def create (t : FileTree) (text : String) : Except StorageError (FileTree × Location) := do
  let path ← readPath text
  match ← t.resolve path with
  | (_, some .directory) => .error .isADirectory
  | (l, _) => if path.isDirectory then .error .isADirectory else .ok (t.put l (.file []), l)

/-- Writes bytes at the end of the file at a place. -/
def append (t : FileTree) (l : Location) (bytes : List UInt8) : FileTree :=
  match t.entry? l with
  | some (.file content) => t.put l (.file (content ++ bytes))
  | _ => t

def read (t : FileTree) (text : String) : Except StorageError (List UInt8) := do
  let path ← readPath text
  match ← t.resolve path with
  | (_, some .directory) => .error .isADirectory
  | (_, some (.file content)) => if path.isDirectory then .error .notADirectory else .ok content
  | (_, none) => .error .notFound

/-! ### Directories -/

def isDirectory (t : FileTree) (path : Path) : Bool :=
  match t.resolve path with
  | .ok (_, some .directory) => true
  | _ => false

def makeDirectory (t : FileTree) (path : Path) : Except StorageError FileTree := do
  match ← t.resolve path with
  | (_, some _) => .error .alreadyExists
  | (l, none) => .ok (t.put l .directory)

/-- Makes a directory and, where they are missing, those that hold it. The parts of the path are
given from its end. Directories made before a failure stay. -/
def makeParts (absolute : Bool) : List String → FileTree → FileTree × Except StorageError Unit
  | [], t => (t, .ok ())
  | name :: outer, t =>
    let path : Path := ⟨absolute, (name :: outer).reverse, true⟩
    let finish (t : FileTree) : FileTree × Except StorageError Unit :=
      match t.makeDirectory path with
      | .ok t => (t, .ok ())
      | .error e => (t, if t.isDirectory path then .ok () else .error e)
    match t.makeDirectory path with
    | .error .notFound =>
      match makeParts absolute outer t with
      | (t, .ok ()) => finish t
      | (t, .error e) => (t, .error e)
    | _ => finish t

/-- Makes the directories that hold a file. Only the text up to the innermost of them counts: what
is wrong with the rest of the path is found when the file is written. -/
def makeParents (t : FileTree) (text : String) : FileTree × Except StorageError Unit :=
  let path := Path.ofText text
  let directory := Path.directoryText text
  if directory.toList.contains '\x00' then (t, .error .invalidInput)
  else if maxPath ≤ directory.utf8ByteSize then (t, .error .invalidFilename)
  else makeParts path.absolute path.parts.dropLast.reverse t

end FileTree

end Flipbook.Studio
