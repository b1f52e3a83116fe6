import Flipbook.Log
import Flipbook.Symbols
import Flipbook.Trace

/-!
# Statements

A statement is a keyword and its arguments. Which arguments a keyword takes is a row of slots. A
slot that has to be filled takes the next token, wherever it stands. An optional slot takes the
next token only if it is of the right kind and stands on the line of the keyword.
-/

namespace Flipbook.Script

/-- What a statement expects at one place. -/
inductive Slot
  | number
  /-- A number without its fraction. -/
  | integer
  | name
  | axis
  | optionalName
  /-- A number that has no effect. -/
  | optionalNumber
  | optionalEasing
  deriving DecidableEq, Repr

abbrev Slot.Value : Slot → Type
  | number => Float32
  | integer => Int
  | name => String
  | axis => Axis
  | optionalName => Option String
  | optionalNumber => Unit
  | optionalEasing => Option Easing

abbrev Arguments : List Slot → Type
  | [] => Unit
  | s :: rest => s.Value × Arguments rest

/-- A way to take an argument off a list of tokens. -/
abbrev Reader (α : Type) := List Token → Trace LogEntry GrammarError (α × List Token)

/-- Takes the next token, which has to be there. -/
def required {α : Type} (read : Token → Trace LogEntry GrammarError α) : Reader α
  | [] => .fail .scriptEnded
  | token :: rest => do return (← read token, rest)

/-- Takes the next token if it is of a kind and stands on a line. -/
def optional {α : Type} (kind : TokenKind) (place : Place)
    (read : Option Token → Except GrammarError α) : Reader α
  | token :: rest => do
    if token.kind = kind ∧ token.place = place then return (← Trace.ofExcept (read token), rest)
    else return (← Trace.ofExcept (read none), token :: rest)
  | [] => do return (← Trace.ofExcept (read none), [])

def Token.number (token : Token) : Except GrammarError Float32 :=
  if token.kind = .number then
    match Number.readDecimal token.text with
    | some x => .ok x
    | none => .error (.unreadableNumber token.place token.text)
  else .error (.notANumber token.place token.text)

/-- The name that a token stands for. Paths are names. -/
def Token.name (token : Token) : Except GrammarError String :=
  if token.kind = .name ∨ token.kind = .path then .ok token.text
  else .error (.notAName token.place token.text)

/-- The axis that a token stands for. Any other name than `x`, `y` and `z`, in small letters or
capitals, means the z axis and is reported. -/
def Token.axis (token : Token) : Trace LogEntry GrammarError Axis :=
  if token.kind = .axis ∨ token.kind = .name then
    match token.text.toLower with
    | "x" => .done .x
    | "y" => .done .y
    | "z" => .done .z
    | other => ⟨[.axisUnknown token.place other], .ok .z⟩
  else .fail (.notAnAxis token.place token.text)

/-- The easing that an optional token stands for. -/
def easingOf : Option Token → Except GrammarError (Option Easing)
  | none => .ok none
  | some token =>
    match Easing.ofName? token.text with
    | some easing => .ok (some easing)
    | none => .error (.unknownEasing token.text)

/-- Fills a slot of a statement whose keyword stands at `place`. -/
def readSlot (place : Place) : (slot : Slot) → Reader slot.Value
  | .number => required fun token => .ofExcept token.number
  | .integer => required fun token => .ofExcept (token.number.map GridNumber.toInt)
  | .name => required fun token => .ofExcept token.name
  | .axis => required Token.axis
  | .optionalName => optional .name place fun token? => .ok (token?.map (·.text))
  | .optionalNumber => optional .number place fun _ => .ok ()
  | .optionalEasing => optional .easing place easingOf

/-- Fills a row of slots from left to right. -/
def readSlots (place : Place) : (slots : List Slot) → Reader (Arguments slots)
  | [] => fun tokens => .done ((), tokens)
  | slot :: slots => fun tokens => do
    let (value, rest) ← readSlot place slot tokens
    let (values, rest) ← readSlots place slots rest
    return ((value, values), rest)

/-! ### The statements of the language -/

def Keyword.slots : Keyword → List Slot
  | display | push | pop => []
  | save | basename | saveKnobs => [.name]
  | move | scale => [.number, .number, .number, .optionalName]
  | rotate => [.axis, .number, .optionalName]
  | line =>
    [.optionalName, .number, .number, .number, .optionalName, .number, .number, .number,
      .optionalName]
  | box =>
    [.optionalName, .number, .number, .number, .number, .number, .number, .optionalName]
  | sphere => [.optionalName, .number, .number, .number, .number, .optionalName]
  | torus => [.optionalName, .number, .number, .number, .number, .number, .optionalName]
  | light => [.optionalName, .number, .number, .number, .number, .number, .number]
  | ambient => [.number, .number, .number]
  | constants =>
    [.name, .number, .number, .number, .number, .number, .number, .number, .number, .number,
      .optionalNumber, .optionalNumber, .optionalNumber]
  | set => [.name, .number]
  | tween => [.integer, .integer, .name, .name, .optionalEasing]
  | frames => [.integer]
  | vary => [.name, .integer, .integer, .number, .number, .optionalEasing]
  | setKnobs => [.number]

/-- A statement: a command, or a definition. -/
inductive Statement
  | command (c : Command)
  /-- A light, which may have no name. -/
  | light (name : Option String) (color position : Vec3 Float32)
  | ambient (color : Vec3 Float32)
  | material (name : String) (m : Material Float32)
  deriving DecidableEq

/-- The statement of a keyword and its arguments. A material is written channel by channel. -/
def Keyword.statement : (k : Keyword) → Arguments k.slots → Statement
  | .display, () => .command .display
  | .save, (path, ()) => .command (.save path)
  | .push, () => .command .push
  | .pop, () => .command .pop
  | .move, (x, y, z, knob, ()) => .command (.transform (.move ⟨x, y, z⟩) knob)
  | .scale, (x, y, z, knob, ()) => .command (.transform (.scale ⟨x, y, z⟩) knob)
  | .rotate, (axis, degrees, knob, ()) => .command (.transform (.rotate axis degrees) knob)
  | .line, (material, x, y, z, system, x', y', z', system', ()) =>
    .command (.line material ⟨x, y, z⟩ system ⟨x', y', z'⟩ system')
  | .box, (material, x, y, z, w, h, d, system, ()) =>
    .command (.solid (.box ⟨x, y, z⟩ ⟨w, h, d⟩) material system)
  | .sphere, (material, x, y, z, r, system, ()) =>
    .command (.solid (.sphere ⟨x, y, z⟩ r) material system)
  | .torus, (material, x, y, z, tube, ring, system, ()) =>
    .command (.solid (.torus ⟨x, y, z⟩ tube ring) material system)
  | .light, (name, r, g, b, x, y, z, ()) => .light name ⟨r, g, b⟩ ⟨x, y, z⟩
  | .ambient, (r, g, b, ()) => .ambient ⟨r, g, b⟩
  | .constants, (name, ar, dr, sr, ag, dg, sg, ab, db, sb, _) =>
    .material name ⟨⟨ar, ag, ab⟩, ⟨dr, dg, db⟩, ⟨sr, sg, sb⟩⟩
  | .basename, (name, ()) => .command (.basename name)
  | .set, (knob, value, ()) => .command (.set knob value)
  | .saveKnobs, (list, ()) => .command (.saveKnobs list)
  | .tween, (first, last, start, stop, easing, ()) =>
    .command (.tween ⟨first, last⟩ start stop easing)
  | .frames, (count, ()) => .command (.frames count)
  | .vary, (knob, first, last, start, stop, easing, ()) =>
    .command (.vary knob ⟨first, last⟩ start stop easing)
  | .setKnobs, (value, ()) => .command (.setKnobs value)

end Flipbook.Script
