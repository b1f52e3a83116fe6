import Flipbook.Geometry.Vector

/-!
# Lighting

A surface has one color: what it reflects of the ambient light, of each point light by the angle
to its normal, and of each highlight towards the viewer, who looks along the z axis.
-/

namespace Flipbook

/-- A color by its three channels. -/
structure Color where
  red : Nat
  green : Nat
  blue : Nat
  deriving DecidableEq, Repr

/-- A light so far away that its direction is the same everywhere. -/
structure PointLight (α : Type) where
  color : Vec3 α
  /-- The direction towards the light, of length 1. -/
  direction : Vec3 α
  deriving DecidableEq, Repr

/-- All light that falls on a scene. -/
structure Lighting (α : Type) where
  ambient : Vec3 α
  lights : List (PointLight α)
  deriving DecidableEq, Repr

/-- The part of each kind of light that a surface reflects, by channel. -/
structure Material (α : Type) where
  ambient : Vec3 α
  diffuse : Vec3 α
  specular : Vec3 α
  deriving DecidableEq, Repr

section

variable {α : Type} [Add α] [Sub α] [Mul α] [Div α] [OfNat α 0] [OfNat α 2] [BEq α]
variable [LT α] [LE α] [DecidableLT α] [DecidableLE α] [ShadingNumber α] [GridNumber α]

/-- The light of a color that comes from a position. -/
def PointLight.at (color position : Vec3 α) : PointLight α :=
  ⟨color, position.normalize⟩

def Lighting.ambientPart (ambient reflected : Vec3 α) : Vec3 α :=
  ambient.hadamard reflected

/-- How squarely a light falls on a surface. From behind it does not fall on it. -/
def PointLight.incidence (normal : Vec3 α) (light : PointLight α) : α :=
  greater 0 (normal.dot light.direction)

/-- How much of a light is mirrored to the viewer. -/
def PointLight.highlight (normal : Vec3 α) (light : PointLight α) : α :=
  ShadingNumber.fifthPower
    (greater 0 (2 * normal.z * light.incidence normal - light.direction.z))

/-- The light of several lamps, each dimmed by its reflection and a factor of its own. -/
def Lighting.gather (factor : PointLight α → α) (lights : List (PointLight α))
    (reflected : Vec3 α) : Vec3 α :=
  lights.foldl
    (fun sum light => sum.add ((light.color.hadamard reflected).scale (factor light))) ⟨0, 0, 0⟩

def Lighting.diffusePart (normal : Vec3 α) (lights : List (PointLight α)) (reflected : Vec3 α) :
    Vec3 α :=
  gather (·.incidence normal) lights reflected

def Lighting.specularPart (normal : Vec3 α) (lights : List (PointLight α)) (reflected : Vec3 α) :
    Vec3 α :=
  gather (·.highlight normal) lights reflected

/-- A channel of at most 255, without its fraction. -/
def channel [OfNat α 255] (x : α) : Nat :=
  (GridNumber.toInt (clamp 0 255 x)).toNat

/-- The color of a surface that faces along `normal`. -/
def Lighting.shade [OfNat α 255] (lighting : Lighting α) (material : Material α)
    (normal : Vec3 α) : Color :=
  let normal := normal.normalize
  let light := (ambientPart lighting.ambient material.ambient).add
    (diffusePart normal lighting.lights material.diffuse)
  let light := light.add (specularPart normal lighting.lights material.specular)
  ⟨channel light.x, channel light.y, channel light.z⟩

end

/-- What a surface reflects if its script does not say. -/
def Material.standard : Material Float32 :=
  ⟨⟨0.1, 0.1, 0.1⟩, ⟨0.5, 0.5, 0.5⟩, ⟨0.5, 0.5, 0.5⟩⟩

/-- The ambient light of a script that sets none. -/
def Lighting.standardAmbient : Vec3 Float32 :=
  ⟨50, 50, 50⟩

/-- The lamp of a script that sets none. -/
def PointLight.standard : PointLight Float32 :=
  .at ⟨0, 255, 255⟩ ⟨0.5, 0.75, 1⟩

end Flipbook
