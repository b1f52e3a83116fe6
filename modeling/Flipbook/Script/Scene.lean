import Flipbook.Script.Outline

/-!
# Scenes

A scene is a script whose names are bound: its commands, and the table of everything it names.
Statements are taken in order. A definition replaces what its name stood for, and a command that
names a knob declares it.
-/

namespace Flipbook

open Script

/-- The commands of a script and the names it defines. -/
structure Scene where
  commands : List Command
  symbols : SymbolTable
  deriving DecidableEq

/-- The knob that a command declares. -/
def Command.declaredKnob? : Command → Option String
  | .transform _ knob => knob
  | .set knob _ => some knob
  | .vary knob .. => some knob
  | _ => none

namespace Scene

/-- A scene up to some statement, and the number of lights without a name so far. -/
structure Draft where
  symbols : SymbolTable
  unnamedLights : Nat
  deriving DecidableEq

def Draft.start : Draft := ⟨.empty, 0⟩

/-- The name of the `n`th light that has none of its own. -/
def lightName (n : Nat) : String := s!"light_{n}"

/-- The draft after one more statement, and the command that the statement gives. -/
def Draft.add (d : Draft) : Statement → Except Error (Draft × Option Command)
  | .command c =>
    match c.declaredKnob? with
    | none => .ok (d, some c)
    | some knob =>
      match d.symbols.declareKnob knob with
      | .ok symbols => .ok ({ d with symbols }, some c)
      | .error e => .error e
  | .light (some name) color position =>
    .ok ({ d with symbols := SymbolTable.defineLight d.symbols name color position }, none)
  | .light none color position =>
    let n := d.unnamedLights + 1
    .ok (⟨SymbolTable.defineLight d.symbols (lightName n) color position, n⟩, none)
  | .ambient color => .ok ({ d with symbols := SymbolTable.setAmbient d.symbols color }, none)
  | .material name m =>
    .ok ({ d with symbols := SymbolTable.defineMaterial d.symbols name m }, none)

/-- The commands of the items that follow a draft, and the table after the last of them. -/
def ofItems (d : Draft) : List Item → Trace LogEntry Error Scene
  | [] => .done ⟨[], d.symbols⟩
  | .log entry :: rest => do
    Trace.report entry
    ofItems d rest
  | .statement s :: rest => do
    let (d, command?) ← Trace.ofExcept (d.add s)
    let scene ← ofItems d rest
    return { scene with commands := command?.toList ++ scene.commands }

/-- The scene of a row of tokens. An error in binding a name comes before an error in a later
statement. -/
def ofTokens (tokens : List Token) : Trace LogEntry Error Scene := do
  let o := outline tokens
  let scene ← ofItems .start o.events
  match o.outcome with
  | .ok () => return scene
  | .error e => Trace.fail (.grammar e)

def ofSource (origin source : String) : Trace LogEntry Error Scene :=
  match tokenize origin source with
  | .ok tokens => ofTokens tokens
  | .error e => .fail (.lexical e)

end Scene

end Flipbook
