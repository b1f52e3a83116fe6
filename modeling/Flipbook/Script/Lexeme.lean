import Flipbook.Script.Pattern
import Flipbook.Script.Token
import Flipbook.Text.Lines

/-!
# From text to tokens

A line is read from left to right. `//` ends it, blanks are passed over, and otherwise the first
of the patterns number, path and word that matches gives a lexeme. A character at which none of
them starts is an error.
-/

namespace Flipbook.Script

open Flipbook.Text

/-- A part of a line that becomes a token. -/
structure Lexeme where
  kind : TokenKind
  text : List Char
  deriving DecidableEq, Repr

/-- The lexeme at the start of a text. -/
def Lexeme.first? (cs : List Char) : Option Lexeme :=
  match Pattern.number cs with
  | c :: text => some ⟨.number, c :: text⟩
  | [] =>
    match Pattern.path cs with
    | c :: text => some ⟨.path, c :: text⟩
    | [] =>
      match Pattern.word cs with
      | c :: text => some ⟨wordKind (.ofList (c :: text)), c :: text⟩
      | [] => none

theorem Lexeme.text_ne_nil {cs : List Char} {l : Lexeme} (h : first? cs = some l) :
    l.text ≠ [] := by
  unfold first? at h
  repeat' split at h
  all_goals first | (cases h; simp) | cases h

/-- The lexemes of a line, or its first character that starts none. -/
def lexemes (cs : List Char) : Except Char (List Lexeme) :=
  match cs with
  | [] => .ok []
  | '/' :: '/' :: _ => .ok []
  | c :: rest =>
    if isBlank c then lexemes rest
    else
      match _h : Lexeme.first? (c :: rest) with
      | some l => (lexemes ((c :: rest).drop l.text.length)).map (l :: ·)
      | none => .error c
termination_by cs.length
decreasing_by
  · simp
  · have := List.length_pos_iff.mpr (Lexeme.text_ne_nil _h)
    simp; omega

/-- A character that starts no token, and its line. -/
structure LexicalError where
  place : Place
  character : Char
  deriving DecidableEq, Repr

def lineTokens (place : Place) (line : List Char) : Except LexicalError (List Token) :=
  match lexemes (trim line) with
  | .ok ls => .ok (ls.map fun l => ⟨l.kind, .ofList l.text, place⟩)
  | .error c => .error ⟨place, c⟩

/-- The tokens of a script. `origin` is its name in the places of tokens. -/
def tokenize (origin source : String) : Except LexicalError (List Token) := do
  let rows ← ((lines source.toList).zipIdx 1).mapM fun (line, number) =>
    lineTokens ⟨origin, number⟩ line
  return rows.flatten

end Flipbook.Script
