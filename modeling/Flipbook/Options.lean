import Flipbook.Raster.Fragment

/-!
# Command line options

`flipbook [SCRIPTS]... [--frame-dir DIR] [--delay-ms N] [--width W] [--height H]`. Options and
scripts may be mixed, and `--` ends the options. The value of an option may be attached, as in
`--width=5`. A value that stands apart is read when the next option, the next script or the end of
the arguments is met, so its errors are found only then; an argument that nobody knows comes before
them.
-/

namespace Flipbook

/-- What to run, and how. -/
structure Options where
  scripts : List String
  size : Size
  /-- The directory of the numbered frames of an animation. -/
  frameDirectory : String
  /-- How long each frame of an animation is shown, in milliseconds. -/
  delay : Nat
  deriving DecidableEq, Repr

/-- Why arguments are not understood, or what they ask for instead of a run. -/
inductive UsageError
  | valueMissing
  /-- The value of an option is no number of its type. -/
  | invalidValue
  | unknownArgument
  | repeatedOption
  /-- A value is given where none is taken. -/
  | tooManyValues
  | help
  | version
  deriving DecidableEq, Repr

namespace Options

def standard : Options where
  scripts := []
  size := ⟨500, 500⟩
  frameDirectory := "anim"
  delay := 20

/-- The options that take a value. -/
inductive Name
  | frameDir | delayMs | width | height
  deriving DecidableEq, Repr

def names : List (String × Name) :=
  [("frame-dir", .frameDir), ("delay-ms", .delayMs), ("width", .width), ("height", .height)]

/-! ### Numbers -/

/-- The number that ASCII digits denote. There has to be one. -/
def readDigits (digits : List Char) : Option Nat :=
  if digits ≠ [] ∧ digits.all Char.isDigit then
    some (digits.foldl (fun n c => 10 * n + (c.toNat - '0'.toNat)) 0)
  else none

/-- A number of at most `greatest`, possibly after a plus sign. -/
def readUnsigned (greatest : Nat) (text : String) : Option Nat :=
  let digits := match text.toList with
    | '+' :: rest => rest
    | cs => cs
  (readDigits digits).filter (· ≤ greatest)

/-- A number of at most `greatest`, possibly after a sign. Minus zero is zero. -/
def readSigned (greatest : Nat) (text : String) : Option Nat :=
  match text.toList with
  | '-' :: rest => (readDigits rest).filter (· = 0)
  | _ => readUnsigned greatest text

/-! ### Arguments -/

/-- What the arguments so far say. -/
structure State where
  options : Options
  given : List Name
  /-- An option that waits, with the value that it took. -/
  pending : Option (Name × Option String)

def State.start : State := ⟨standard, [], none⟩

def set (o : Options) (name : Name) (value : String) : Option Options :=
  match name with
  | .frameDir => some { o with frameDirectory := value }
  | .delayMs => (readSigned 0xFFFFFFFF value).map fun n => { o with delay := n }
  | .width => (readUnsigned 0xFFFFFFFFFFFFFFFF value).map fun n =>
      { o with size := { o.size with width := n } }
  | .height => (readUnsigned 0xFFFFFFFFFFFFFFFF value).map fun n =>
      { o with size := { o.size with height := n } }

def State.give (s : State) (name : Name) (value : String) : Except UsageError State :=
  if name ∈ s.given then .error .repeatedOption
  else
    match set s.options name value with
    | some options => .ok { s with options, given := name :: s.given }
    | none => .error .invalidValue

/-- Reads the value of the option that waits. -/
def State.settle (s : State) : Except UsageError State :=
  match s.pending with
  | none => .ok s
  | some (_, none) => .error .valueMissing
  | some (name, some value) => { s with pending := none }.give name value

def State.script (s : State) (path : String) : Except UsageError State := do
  let s ← s.settle
  return { s with options := { s.options with scripts := s.options.scripts ++ [path] } }

def State.long (s : State) (name : String) (value? : Option String) : Except UsageError State :=
  match names.lookup name, value? with
  | some name, some value => do (← s.settle).give name value
  | some name, none => do return { ← s.settle with pending := some (name, none) }
  | none, _ =>
    if name = "help" ∨ name = "version" then
      match value? with
      | some _ => .error .tooManyValues
      | none => do
        let _ ← s.settle
        .error (if name = "help" then .help else .version)
    else .error .unknownArgument

/-- Takes an argument `-abc` of short options, of which there are `h` and `V`. -/
def State.short (s : State) (letter : Char) : Except UsageError State :=
  if letter = 'h' ∨ letter = 'V' then do
    let _ ← s.settle
    .error (if letter = 'h' then .help else .version)
  else .error .unknownArgument

/-- Takes an argument that is neither an option nor `--`: the value of the option that waits for
one, or a script. -/
def State.plain (s : State) (text : String) : Except UsageError State :=
  match s.pending with
  | some (name, none) => .ok { s with pending := some (name, some text) }
  | _ => s.script text

def State.takeAll (s : State) : List String → Except UsageError State
  | [] => s.settle
  | text :: rest => do
    match text.toList with
    | ['-', '-'] =>
      -- All that follows is scripts. An option that waits gets no value from it.
      (← rest.foldlM State.script s).settle
    | '-' :: '-' :: cs =>
      let value? := match cs.dropWhile (· ≠ '=') with
        | _ :: value => some (String.ofList value)
        | [] => none
      (← s.long (.ofList (cs.takeWhile (· ≠ '='))) value?).takeAll rest
    | '-' :: letter :: _ => (← s.short letter).takeAll rest
    | _ => (← s.plain text).takeAll rest

def ofArguments (arguments : List String) : Except UsageError Options :=
  (State.start.takeAll arguments).map State.options

end Options

end Flipbook
