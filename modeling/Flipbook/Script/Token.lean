/-!
# Tokens

A scene script is a row of tokens. A token keeps the line it stands on, because optional arguments
end with their line and because errors name it.
-/

namespace Flipbook.Script

/-- The words that start a statement. -/
inductive Keyword
  | display | save
  | push | pop | move | scale | rotate
  | line | box | sphere | torus
  | light | ambient | constants
  | basename | set | saveKnobs | tween | frames | vary | setKnobs
  deriving DecidableEq, Repr

/-- What a token is. -/
inductive TokenKind
  | command (keyword : Keyword)
  | axis
  | number
  | path
  | name
  | easing
  deriving DecidableEq, Repr

/-- A line of a script. -/
structure Place where
  origin : String
  /-- The number of the line, from 1. -/
  line : Nat
  deriving DecidableEq, Repr

/-- The text of a place, `scene.mdl:7`. -/
def Place.text (place : Place) : String :=
  s!"{place.origin}:{place.line}"

/-- A token with its text and its line. -/
structure Token where
  kind : TokenKind
  text : String
  place : Place
  deriving DecidableEq, Repr

def Token.isCommand (token : Token) : Bool :=
  match token.kind with
  | .command _ => true
  | _ => false

def reservedWords : List (String × TokenKind) :=
  [("display", .command .display), ("save", .command .save),
    ("push", .command .push), ("pop", .command .pop),
    ("move", .command .move), ("scale", .command .scale), ("rotate", .command .rotate),
    ("x", .axis), ("y", .axis), ("z", .axis),
    ("line", .command .line),
    ("box", .command .box), ("sphere", .command .sphere), ("torus", .command .torus),
    ("light", .command .light), ("ambient", .command .ambient),
    ("constants", .command .constants),
    ("basename", .command .basename), ("set", .command .set),
    ("save_knobs", .command .saveKnobs), ("tween", .command .tween),
    ("frames", .command .frames), ("vary", .command .vary), ("setknobs", .command .setKnobs),
    ("easeInCubic", .easing), ("easeOutCubic", .easing),
    ("easeInExpo", .easing), ("easeOutExpo", .easing)]

def wordKind (word : String) : TokenKind :=
  (reservedWords.lookup word).getD .name

end Flipbook.Script
