import Flipbook.Script.Lexeme

/-!
# Errors

Why a script cannot be read, run or stored. `Error.message` is the text of each cause.
-/

namespace Flipbook

open Script (Place LexicalError)

/-- Why tokens are no script. -/
inductive GrammarError
  /-- A token was expected after the last one. -/
  | scriptEnded
  | notANumber (place : Place) (found : String)
  /-- A number in digits other than the ASCII ones. -/
  | unreadableNumber (place : Place) (text : String)
  | notAName (place : Place) (found : String)
  | notAnAxis (place : Place) (found : String)
  | unknownEasing (name : String)
  deriving DecidableEq, Repr

/-- Why the file system refuses an operation. -/
inductive StorageError
  | notFound
  | alreadyExists
  | isADirectory
  | notADirectory
  | invalidFilename
  | invalidInput
  | other
  deriving DecidableEq, Repr

/-- Why an image cannot be written or read. -/
inductive ImageError
  /-- The extension of the file stands for no image format that can be written. -/
  | unsupported
  | storage (error : StorageError)
  | decoding
  | encoding
  /-- The format has no room for the size of the image. -/
  | parameter
  /-- There is not enough memory for the image. -/
  | limits
  deriving DecidableEq, Repr

/-- Why a script cannot be loaded. -/
inductive ReadError
  | storage (error : StorageError)
  | notUtf8
  deriving DecidableEq, Repr

/-- Why a run fails. -/
inductive Error
  /-- A knob changes over frames, but the number of frames is not set. -/
  | framesNotSet
  | unknownKnobList (list : String)
  | frameRange (name : String) (first last : Int) (frames : Nat)
  | stackUnderflow
  | undefinedSymbol (name : String)
  | notAKnob (name : String)
  | notAMaterial (name : String)
  | lexical (error : LexicalError)
  | grammar (error : GrammarError)
  | unreadableScript (path : String) (error : ReadError)
  | display (reason : String)
  | image (error : ImageError)
  | storage (error : StorageError)
  deriving DecidableEq, Repr

/-- The name that an error finds bound to nothing or to the wrong thing. -/
def Error.symbol? : Error → Option String
  | undefinedSymbol name | notAKnob name | notAMaterial name => some name
  | _ => none

def GrammarError.message : GrammarError → String
  | scriptEnded => "Expected token but the script ended."
  | notANumber place found => s!"{place.text} -> Expected a number but found '{found}'"
  | unreadableNumber place text => s!"{place.text} -> Error parsing f32: {text}"
  | notAName place found => s!"{place.text} -> Expected a name but found '{found}'"
  | notAnAxis place found => s!"{place.text} -> Invalid rotation axis: {found}"
  | unknownEasing name => s!"Easing function {name} not recognized."

def StorageError.message : StorageError → String
  | notFound => "No such file or directory (os error 2)"
  | alreadyExists => "File exists (os error 17)"
  | isADirectory => "Is a directory (os error 21)"
  | notADirectory => "Not a directory (os error 20)"
  | invalidFilename => "File name too long (os error 36)"
  | invalidInput => "file name contained an unexpected NUL byte"
  | other => "other error"

def ImageError.message : ImageError → String
  | unsupported => "The image format could not be determined"
  | storage error => error.message
  | decoding => "Format error decoding an image"
  | encoding => "Format error encoding an image"
  | parameter => "The dimensions of the image do not fit its format"
  | limits => "Memory limit exceeded"

def ReadError.message : ReadError → String
  | storage error => error.message
  | notUtf8 => "stream did not contain valid UTF-8"

def Error.message : Error → String
  | framesNotSet =>
    "configuration error: Animation was detected but the number of frames wasn't set."
  | unknownKnobList list => s!"configuration error: Knoblist '{list}' not found"
  | frameRange name first last frames =>
    s!"invalid frame range for '{name}': {first} to {last} with {frames} frames"
  | stackUnderflow => "stack underflow: pop without a matching push"
  | undefinedSymbol name => s!"undefined symbol '{name}'"
  | notAKnob name => s!"symbol '{name}' is not a knob"
  | notAMaterial name => s!"symbol '{name}' is not lighting constants"
  | lexical error => s!"{error.place.text} token not recognized: {error.character}"
  | grammar error => s!"parse error: {error.message}"
  | unreadableScript path error =>
    s!"parse error: Script '{path}' could not be read: {error.message}"
  | display reason => s!"display error: {reason}"
  | image error => error.message
  | storage error => error.message

end Flipbook
