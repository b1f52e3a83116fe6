import Flipbook.Raster.Picture

/-!
# The store of a picture

A picture stores its pixels in a row from the top, while fragments count rows from below. Each
pixel has a place of its own and each place belongs to a pixel, so plotting a fragment touches the
pixel below it and no other. The colors and the depths lie in the store in that order
(`stored_of_pixel?`).
-/

namespace Flipbook

/-- The fragment lies over the pixel in column `x` and row `y`. -/
def Fragment.Over (f : Fragment Float32) (x y : Int) : Prop :=
  f.x = x ∧ f.y = y

def Rgb.channels (c : Rgb) : List UInt8 :=
  [c.red, c.green, c.blue]

namespace Picture

variable {size : Size} {p q : Picture} {f : Fragment Float32} {x y : Int} {old : Pixel}
variable {fragments : List (Fragment Float32)}

/-! ### Places in the store -/

theorem index?_eq_some_iff {i : Fin (size.width * size.height)} :
    index? size x y = some i ↔
      (0 ≤ x ∧ x < size.width ∧ 0 ≤ y ∧ y < size.height) ∧
        i.val = (size.height - 1 - y.toNat) * size.width + x.toNat := by
  unfold index?
  split
  · next inside => simp [inside, Fin.ext_iff, eq_comm]
  · next outside => simp [outside]

/-- No two pixels are stored in one place. -/
theorem index?_inj {x' y' : Int} {i : Fin (size.width * size.height)}
    (here : index? size x y = some i) (there : index? size x' y' = some i) : x = x' ∧ y = y' := by
  obtain ⟨⟨hx, hxw, hy, hyh⟩, hi⟩ := index?_eq_some_iff.mp here
  obtain ⟨⟨hx', hxw', hy', hyh'⟩, hi'⟩ := index?_eq_some_iff.mp there
  have column : i.val % size.width = x.toNat := by
    rw [hi, Nat.mul_comm, Nat.mul_add_mod, Nat.mod_eq_of_lt (by omega)]
  have column' : i.val % size.width = x'.toNat := by
    rw [hi', Nat.mul_comm, Nat.mul_add_mod, Nat.mod_eq_of_lt (by omega)]
  have row : i.val / size.width = size.height - 1 - y.toNat := by
    rw [hi, Nat.mul_comm, Nat.mul_add_div (by omega), Nat.div_eq_of_lt (by omega), Nat.add_zero]
  have row' : i.val / size.width = size.height - 1 - y'.toNat := by
    rw [hi', Nat.mul_comm, Nat.mul_add_div (by omega), Nat.div_eq_of_lt (by omega), Nat.add_zero]
  omega

/-- Every place in the store is that of a pixel. -/
theorem exists_index? (i : Fin (size.width * size.height)) :
    ∃ (x : Fin size.width) (y : Fin size.height), index? size x y = some i := by
  have width : 0 < size.width := Nat.pos_of_mul_pos_right (Nat.zero_lt_of_lt i.isLt)
  have row : i.val / size.width < size.height := Nat.div_lt_of_lt_mul i.isLt
  have column : i.val % size.width < size.width := Nat.mod_lt _ width
  have whole : i.val / size.width * size.width + i.val % size.width = i.val := Nat.div_add_mod' ..
  generalize i.val / size.width = r at row whole
  generalize i.val % size.width = c at column whole
  refine ⟨⟨c, column⟩, ⟨size.height - 1 - r, by omega⟩, ?_⟩
  have flipped : size.height - 1 - (size.height - 1 - r) = r := by omega
  rw [index?_eq_some_iff, Int.toNat_natCast, Int.toNat_natCast, flipped]
  exact ⟨by omega, whole.symm⟩

theorem exists_index (x : Fin size.width) (y : Fin size.height) :
    ∃ i, index? size x y = some i ∧ i.val = (size.height - 1 - y) * size.width + x := by
  have inside : (0 : Int) ≤ x.val ∧ (x.val : Int) < size.width ∧ (0 : Int) ≤ y.val ∧
      (y.val : Int) < size.height := by omega
  refine ⟨_, dif_pos inside, ?_⟩
  simp

/-! ### One fragment -/

theorem size_plot : (p.plot f).size = p.size := by
  unfold plot
  repeat' split
  all_goals rfl

theorem maxColor_plot : (p.plot f).maxColor = p.maxColor := by
  unfold plot
  repeat' split
  all_goals rfl

theorem background_plot : (p.plot f).background = p.background := by
  unfold plot
  repeat' split
  all_goals rfl

/-- The pixel of a picture that shows a color at a depth. -/
def painted (p : Picture) (color : Color) (depth : Float32) : Pixel :=
  ⟨store p.maxColor color, depth⟩

theorem pixel?_plot_of_over (shown : p.pixel? x y = some old) (covers : f.Over x y)
    (nearest : ¬ f.depth < old.depth) :
    (p.plot f).pixel? x y = some (p.painted f.color f.depth) := by
  obtain ⟨rfl, rfl⟩ := covers
  obtain ⟨i, here, rfl⟩ := Option.map_eq_some_iff.mp shown
  have plotted : p.plot f = { p with pixels := p.pixels.set i (p.painted f.color f.depth) } := by
    unfold plot
    rw [here]
    exact if_neg nearest
  rw [plotted, pixel?]
  dsimp only
  rw [here]
  simp

theorem pixel?_plot_of_farther (shown : p.pixel? x y = some old)
    (farther : f.Over x y → f.depth < old.depth) : (p.plot f).pixel? x y = some old := by
  obtain ⟨j, here, rfl⟩ := Option.map_eq_some_iff.mp shown
  unfold plot
  split
  · exact shown
  next i there =>
    split
    · exact shown
    next nearest =>
      have apart : i.val ≠ j.val := by
        intro same
        obtain rfl : i = j := Fin.ext same
        exact nearest (farther (index?_inj there here))
      rw [pixel?]
      dsimp only
      rw [here]
      simp [Vector.getElem_set_ne, apart]

/-! ### Many fragments -/

theorem plotAll_append (before after : List (Fragment Float32)) :
    p.plotAll (before ++ after) = (p.plotAll before).plotAll after :=
  List.foldl_append

theorem size_plotAll : (p.plotAll fragments).size = p.size := by
  induction fragments generalizing p with
  | nil => rfl
  | cons f rest ih => exact ih.trans size_plot

theorem maxColor_plotAll : (p.plotAll fragments).maxColor = p.maxColor := by
  induction fragments generalizing p with
  | nil => rfl
  | cons f rest ih => exact ih.trans maxColor_plot

theorem background_plotAll : (p.plotAll fragments).background = p.background := by
  induction fragments generalizing p with
  | nil => rfl
  | cons f rest ih => exact ih.trans background_plot

theorem clear_plotAll : (p.plotAll fragments).clear = p.clear := by
  rw [clear, size_plotAll, maxColor_plotAll, background_plotAll]
  rfl

/-- Pictures that differ in nothing but their pixels are equal if these are. -/
theorem eq_of_pixels (alike : p.clear = q.clear)
    (same : ∀ (x : Fin p.size.width) (y : Fin p.size.height), p.pixel? x y = q.pixel? x y) :
    p = q := by
  obtain ⟨size, maxColor, background, pixels⟩ := p
  obtain ⟨size', maxColor', background', pixels'⟩ := q
  obtain rfl : size = size' := congrArg Picture.size alike
  obtain rfl : maxColor = maxColor' := congrArg Picture.maxColor alike
  obtain rfl : background = background' := congrArg Picture.background alike
  suffices equal : pixels = pixels' by rw [equal]
  refine Vector.ext fun i inside => ?_
  obtain ⟨x, y, here⟩ := exists_index? ⟨i, inside⟩
  have equal := same x y
  rw [pixel?, pixel?] at equal
  dsimp only at equal
  rw [here] at equal
  exact Option.some.inj equal

/-! ### Drawings -/

theorem drawAll_eq_plotAll (p : Picture) (drawings : List Drawing) :
    drawings.foldl draw p = p.plotAll (drawings.flatMap (Drawing.fragments p.size)) := by
  induction drawings generalizing p with
  | nil => rfl
  | cons d rest ih =>
    have same : (p.draw d).size = p.size := by
      rw [draw_eq_plotAll]
      exact size_plotAll
    rw [List.foldl_cons, ih, same, List.flatMap_cons, plotAll_append, draw_eq_plotAll]

/-! ### Colors and depths in the store -/

/-- The stored channels: three for each pixel, row by row from the top. -/
def bytes (p : Picture) : List UInt8 :=
  p.colors.flatMap Rgb.channels

/-- The stored depths, row by row from the top. -/
def depths (p : Picture) : List Float32 :=
  p.pixels.toList.map (·.depth)

theorem length_flatMap_channels (colors : List Rgb) :
    (colors.flatMap Rgb.channels).length = 3 * colors.length := by
  induction colors with
  | nil => rfl
  | cons c rest ih =>
    rw [List.flatMap_cons, List.length_append, ih, Rgb.channels]
    simp only [List.length_cons, List.length_nil]
    omega

theorem length_bytes (p : Picture) : p.bytes.length = 3 * p.size.width * p.size.height := by
  rw [bytes, length_flatMap_channels, colors, List.length_map, Vector.length_toList, Nat.mul_assoc]

theorem length_depths (p : Picture) : p.depths.length = p.size.width * p.size.height := by
  rw [depths, List.length_map, Vector.length_toList]

/-- The channels that are stored for the pixel at a place. -/
def bytesAt (p : Picture) (place : Nat) : List UInt8 :=
  (p.bytes.drop (3 * place)).take 3

theorem channels_at {colors : List Rgb} {c : Rgb} {place : Nat} (stands : colors[place]? = some c) :
    ((colors.flatMap Rgb.channels).drop (3 * place)).take 3 = c.channels := by
  induction colors generalizing place with
  | nil => cases stands
  | cons first rest ih =>
    cases place with
    | zero =>
      cases stands
      rfl
    | succ place =>
      have further : 3 * (place + 1) = 3 * place + 3 := by omega
      rw [List.flatMap_cons, further]
      exact ih stands

theorem stored_of_pixel? {pixel : Pixel} (here : p.pixel? x y = some pixel) :
    let place := (p.size.height - 1 - y.toNat) * p.size.width + x.toNat
    p.bytesAt place = pixel.color.channels ∧ p.depths[place]? = some pixel.depth := by
  obtain ⟨i, place, rfl⟩ := Option.map_eq_some_iff.mp here
  rw [← (index?_eq_some_iff.mp place).2]
  have stands : p.pixels.toList[i.val]? = some p.pixels[i] := by simp
  constructor
  · refine channels_at ?_
    rw [colors, List.getElem?_map, stands]
    rfl
  · rw [depths, List.getElem?_map, stands]
    rfl

/-- The channels of a color, cut at the greatest value of the picture and at 255. -/
def capped (maxColor : Nat) (c : Color) : List Nat :=
  [c.red, c.green, c.blue].map (min · (min maxColor 255))

theorem store_capped (maxColor : Nat) (c : Color) :
    (store maxColor c).channels.map UInt8.toNat = capped maxColor c := by
  have cut (n : Nat) : (min n (min maxColor 255)).toUInt8.toNat = min n (min maxColor 255) :=
    UInt8.toNat_ofNat_of_lt (by simp only [UInt8.size]; omega)
  simp [store, Rgb.channels, capped, cut]

end Picture

end Flipbook
