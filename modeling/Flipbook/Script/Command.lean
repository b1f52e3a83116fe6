import Flipbook.Animation.Easing
import Flipbook.Geometry.Mesh

/-!
# Commands

What a scene script does, in order, once its names are bound.
-/

namespace Flipbook

/-- A change of the coordinate system. -/
inductive Motion
  | move (v : Vec3 Float32)
  | scale (v : Vec3 Float32)
  | rotate (axis : Axis) (degrees : Float32)
  deriving DecidableEq

/-- A solid with a surface. -/
inductive Solid
  | box (corner size : Vec3 Float32)
  | sphere (center : Vec3 Float32) (radius : Float32)
  | torus (center : Vec3 Float32) (tube ring : Float32)
  deriving DecidableEq

/-- Frames `first` to `last` over which a value changes. -/
structure FrameRange where
  first : Int
  last : Int
  deriving DecidableEq, Repr

/-- A command. Names that may be left out are optional. -/
inductive Command
  | display
  | save (path : String)
  /-- Opens a coordinate system inside the current one. -/
  | push
  | pop
  /-- Changes the coordinate system, as far as a knob is turned. -/
  | transform (motion : Motion) (knob : Option String)
  /-- Draws a line. The material and the coordinate systems have no effect. -/
  | line (material : Option String) (start : Vec3 Float32) (startSystem : Option String)
      (stop : Vec3 Float32) (stopSystem : Option String)
  /-- Draws a solid. The coordinate system has no effect. -/
  | solid (shape : Solid) (material : Option String) (system : Option String)
  | basename (name : String)
  | frames (count : Int)
  /-- Turns a knob from one value to another. -/
  | vary (knob : String) (range : FrameRange) (start stop : Float32) (easing : Option Easing)
  | set (knob : String) (value : Float32)
  | setKnobs (value : Float32)
  /-- Remembers the values of all knobs under a name. -/
  | saveKnobs (list : String)
  /-- Turns all knobs from one remembered list to another. -/
  | tween (range : FrameRange) (start stop : String) (easing : Option Easing)
  deriving DecidableEq

def Solid.points : Solid → List (Point Float32)
  | box corner size => Mesh.box corner size
  | sphere center radius => Mesh.sphere center radius
  | torus center tube ring => Mesh.torus center tube ring

/-- The transform of a motion with its knob turned to `factor`. -/
def Motion.matrix (factor : Float32) : Motion → Matrix Float32
  | move v => .translation (v.scale factor)
  | scale v => .dilation (v.scale factor)
  | rotate axis degrees => .turn axis (degrees * factor)

end Flipbook
