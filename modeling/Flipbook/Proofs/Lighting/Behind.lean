import Flipbook.Lighting
import Flipbook.Proofs.Geometry.Vector
import Flipbook.Proofs.Number.Exact
import Flipbook.Proofs.Number.Real
import Mathlib.Tactic.Linarith
import Mathlib.Tactic.NormNum

/-!
# Light from behind

Shading read over the real numbers. A light behind a surface adds nothing to the diffuse light, as
it does not fall on the surface. What is mirrored of it is then the light itself, turned around, so
it adds no highlight if it does not come from behind the picture too (`light_behind_adds`), and
otherwise shines through the surface (`light_shines_through`).
-/

namespace Flipbook.Lighting

variable {normal : Vec3 ℝ} {light : PointLight ℝ} {before after : List (PointLight ℝ)}

/-! ### One light more -/

/-- Each light adds its own part, wherever it stands in the list. -/
theorem gather_middle (factor : PointLight ℝ → ℝ) (before after : List (PointLight ℝ))
    (light : PointLight ℝ) (reflected : Vec3 ℝ) :
    gather factor (before ++ light :: after) reflected =
      (gather factor (before ++ after) reflected).add
        ((light.color.hadamard reflected).scale (factor light)) := by
  have order : (before ++ light :: after).Perm ((before ++ after) ++ [light]) :=
    List.perm_middle.trans (List.perm_append_singleton light _).symm
  rw [gather, order.foldl_eq' fun _ _ _ _ _ => Vec3.add_right_comm _ _ _, List.foldl_append]
  rfl

/-! ### A light behind the surface -/

/-- Which lights are behind a surface does not depend on the length of its normal. -/
theorem behind_normalize (behind : normal.dot light.direction ≤ 0) :
    normal.normalize.dot light.direction ≤ 0 := by
  unfold Vec3.normalize
  dsimp only
  split
  · simp [Vec3.dot]
  · have scaled (length : ℝ) : (⟨normal.x / length, normal.y / length, normal.z / length⟩ : Vec3 ℝ) =
        normal.scale length⁻¹ := rfl
    rw [scaled, Vec3.dot_scale]
    exact mul_nonpos_of_nonpos_of_nonneg behind (inv_nonneg.mpr (Real.sqrt_nonneg _))

section

variable (behind : normal.dot light.direction ≤ 0)
include behind

theorem incidence_behind : light.incidence normal = 0 :=
  (Number.greater_eq_max _ _).trans (max_eq_left behind)

/-- What the back of the surface lets through is the light itself. -/
theorem highlight_behind : light.highlight normal = max 0 (-light.direction.z) ^ 5 := by
  rw [PointLight.highlight, incidence_behind behind, mul_zero, zero_sub,
    Number.greater_eq_max]
  rfl

theorem diffusePart_behind (reflected : Vec3 ℝ) :
    diffusePart normal (before ++ light :: after) reflected =
      diffusePart normal (before ++ after) reflected := by
  rw [diffusePart, gather_middle, incidence_behind behind, Vec3.scale_zero, Vec3.add_zero]
  rfl

theorem specularPart_behind (reflected : Vec3 ℝ) :
    specularPart normal (before ++ light :: after) reflected =
      (specularPart normal (before ++ after) reflected).add
        ((light.color.hadamard reflected).scale (max 0 (-light.direction.z) ^ 5)) := by
  rw [specularPart, gather_middle, highlight_behind behind]
  rfl

theorem specularPart_behind_eq_iff (reflected : Vec3 ℝ) :
    specularPart normal (before ++ light :: after) reflected =
        specularPart normal (before ++ after) reflected ↔
      0 ≤ light.direction.z ∨ light.color.hadamard reflected = Vec3.zero := by
  rw [specularPart_behind behind, Vec3.add_eq_self_iff, Vec3.scale_eq_zero_iff, or_comm,
    pow_eq_zero_iff (by decide), max_eq_left_iff, neg_nonpos]

theorem shade_behind (ambient : Vec3 ℝ) {material : Material ℝ}
    (dark : 0 ≤ light.direction.z ∨ light.color.hadamard material.specular = Vec3.zero) :
    shade ⟨ambient, before ++ light :: after⟩ material normal =
      shade ⟨ambient, before ++ after⟩ material normal := by
  have behind := behind_normalize behind
  unfold shade
  dsimp only
  rw [diffusePart_behind behind, (specularPart_behind_eq_iff behind _).mpr dark]

end

/-- A light behind a surface adds nothing to the diffuse light. To the highlight it adds what it would
send through the surface: nothing exactly if it does not come from behind the picture, or has no
color that the surface mirrors. The surface then has the color that it has without this light. -/
theorem light_behind_adds (normal ambient : Vec3 ℝ) (material : Material ℝ)
    (before after : List (PointLight ℝ)) (light : PointLight ℝ)
    (behind : normal.dot light.direction ≤ 0) :
    let all := before ++ light :: after
    let others := before ++ after
    let mirrored := light.color.hadamard material.specular
    diffusePart normal all material.diffuse = diffusePart normal others material.diffuse ∧
    specularPart normal all material.specular =
      (specularPart normal others material.specular).add
        (mirrored.scale (max 0 (-light.direction.z) ^ 5)) ∧
    (specularPart normal all material.specular = specularPart normal others material.specular ↔
      0 ≤ light.direction.z ∨ mirrored = Vec3.zero) ∧
    (0 ≤ light.direction.z ∨ mirrored = Vec3.zero →
      shade ⟨ambient, all⟩ material normal = shade ⟨ambient, others⟩ material normal) :=
  ⟨diffusePart_behind behind _, specularPart_behind behind _, specularPart_behind_eq_iff behind _,
    shade_behind behind ambient⟩

/-- The color of a surface that faces to the right does not depend on a light from the left. -/
theorem light_from_side_adds_nothing :
    let normal : Vec3 ℝ := ⟨3 / 5, 0, 4 / 5⟩
    let left : PointLight ℝ := ⟨⟨255, 0, 0⟩, ⟨-1, 0, 0⟩⟩
    let front : PointLight ℝ := ⟨⟨0, 0, 255⟩, ⟨0, 0, 1⟩⟩
    let material : Material ℝ := ⟨⟨0, 0, 0⟩, ⟨1, 1, 1⟩, ⟨1, 1, 1⟩⟩
    normal.dot normal = 1 ∧ normal.dot left.direction ≤ 0 ∧
      shade ⟨⟨0, 0, 0⟩, [left, front]⟩ material normal =
        shade ⟨⟨0, 0, 0⟩, [front]⟩ material normal := by
  intro normal left front material
  have behind : normal.dot left.direction ≤ 0 := by norm_num [normal, left, Vec3.dot]
  obtain ⟨-, -, -, same⟩ := light_behind_adds normal ⟨0, 0, 0⟩ material [] [front] left behind
  exact ⟨by norm_num [normal, Vec3.dot], behind, same (.inl le_rfl)⟩

theorem normalize_of_unit (unit : normal.dot normal = 1) : normal.normalize = normal := by
  have length : ShadingNumber.sqrt (normal.dot normal) = (1 : ℝ) := by
    rw [unit]
    exact Real.sqrt_one
  simp [Vec3.normalize, length]

theorem channel_natCast {n : Nat} (low : n ≤ 255) : channel (n : ℝ) = n := by
  have clamped : clamp 0 255 (n : ℝ) = n := by
    have high : (n : ℝ) ≤ 255 := mod_cast low
    rw [clamp, if_neg (not_lt.mpr n.cast_nonneg), if_neg (not_lt.mpr high)]
  rw [channel, clamped]
  exact congrArg Int.toNat (Number.wholeReal_natCast n)

/-- A light right behind a surface makes it as bright as a light right in front of it. -/
theorem light_shines_through :
    let normal : Vec3 ℝ := ⟨0, 0, 1⟩
    let light : PointLight ℝ := ⟨⟨255, 255, 255⟩, ⟨0, 0, -1⟩⟩
    let material : Material ℝ := ⟨⟨0, 0, 0⟩, ⟨0, 0, 0⟩, ⟨1, 1, 1⟩⟩
    normal.dot normal = 1 ∧ normal.dot light.direction ≤ 0 ∧
      specularPart normal [light] material.specular = ⟨255, 255, 255⟩ ∧
      specularPart normal [] material.specular = ⟨0, 0, 0⟩ ∧
      shade ⟨⟨0, 0, 0⟩, [light]⟩ material normal = ⟨255, 255, 255⟩ ∧
      shade ⟨⟨0, 0, 0⟩, []⟩ material normal = ⟨0, 0, 0⟩ := by
  intro normal light material
  have behind : normal.dot light.direction ≤ 0 := by norm_num [normal, light, Vec3.dot]
  have unit : normal.dot normal = 1 := by norm_num [normal, Vec3.dot]
  have bright : specularPart normal [light] material.specular = ⟨255, 255, 255⟩ := by
    rw [← List.nil_append [light], specularPart_behind behind, List.nil_append]
    norm_num [specularPart, gather, light, material, Vec3.add, Vec3.scale, Vec3.hadamard]
  refine ⟨unit, behind, bright, rfl, ?_, ?_⟩
  · rw [shade, normalize_of_unit unit]
    have full : channel (255 : ℝ) = 255 := mod_cast channel_natCast (n := 255) le_rfl
    dsimp only
    rw [bright]
    norm_num [ambientPart, diffusePart, gather, material, Vec3.add, Vec3.hadamard, Vec3.scale, full]
  · rw [shade, normalize_of_unit unit]
    have dark : channel (0 : ℝ) = 0 := mod_cast channel_natCast (n := 0) (Nat.zero_le _)
    dsimp only
    norm_num [ambientPart, diffusePart, specularPart, gather, Vec3.add, Vec3.hadamard, dark]

end Flipbook.Lighting
