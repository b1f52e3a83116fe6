import Flipbook.Text.CharClass

/-!
# Patterns

Each pattern gives the part of a text that it matches at the start, or the empty list if it does
not match. A match is never empty (`number`, `path`, `word` on `[]` are `[]`), so dropping it
shortens the text.
-/

namespace Flipbook.Script.Pattern

open Flipbook.Text

/-- Digits with at most one point, and at least one digit: `12`, `12.`, `12.5`, `.5`. -/
def magnitude (cs : List Char) : List Char :=
  let whole := cs.takeWhile isDigit
  match cs.dropWhile isDigit with
  | '.' :: rest =>
    let fraction := rest.takeWhile isDigit
    if whole = [] ∧ fraction = [] then [] else whole ++ '.' :: fraction
  | _ => whole

/-- A magnitude, possibly after a minus sign. -/
def number : List Char → List Char
  | '-' :: rest =>
    match magnitude rest with
    | [] => []
    | digits => '-' :: digits
  | cs => magnitude cs

/-- A name of file characters and the slash behind it. -/
def namedDirectory (cs : List Char) : List Char :=
  match cs.takeWhile isFileChar, cs.dropWhile isFileChar with
  | c :: name, '/' :: _ => c :: name ++ ['/']
  | _, _ => []

/-- One directory of a path: `./`, or a point, any character and a slash, or a name and a slash.
No path goes on with a slash, so `./` is no directory in front of one. -/
def directory : List Char → List Char
  | '.' :: '/' :: '/' :: _ => ['.', '/', '/']
  | '.' :: '/' :: _ => ['.', '/']
  | '.' :: c :: '/' :: _ => ['.', c, '/']
  | cs => namedDirectory cs

/-- A file name: file characters, a point, and letters or digits. -/
def fileName (cs : List Char) : List Char :=
  match cs.takeWhile isFileChar, cs.dropWhile isFileChar with
  | c :: stem, '.' :: rest =>
    match rest.takeWhile isAlphanumeric with
    | [] => []
    | extension => c :: stem ++ '.' :: extension
  | _, _ => []

def path (cs : List Char) : List Char :=
  match _h : directory cs with
  | [] => fileName cs
  | d :: ds =>
    match path (cs.drop (ds.length + 1)) with
    | [] => []
    | file => d :: ds ++ file
termination_by cs.length
decreasing_by
  cases cs with
  | nil => simp [directory, namedDirectory] at _h
  | cons c cs => rw [List.length_drop, List.length_cons]; omega

/-- A letter or `_`, then letters, digits and `_`. -/
def word : List Char → List Char
  | c :: rest => if isNameStart c then c :: rest.takeWhile isNameChar else []
  | [] => []

end Flipbook.Script.Pattern
