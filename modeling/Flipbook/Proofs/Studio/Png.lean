import Flipbook.Studio.Encoding.Png

/-!
# Reading back a PNG file

Every part of a file has a length that follows from the sides of the image. So each part is found at
its place, and a file is read back as the image it was made of (`read_file`).
-/

namespace Flipbook.Studio.Encoding

variable {α β : Type} {size count start n : Nat} {image : Image}

/-! ### Words -/

@[simp] theorem length_littleEndian (count n : Nat) : (littleEndian count n).length = count := by
  induction count generalizing n with
  | zero => rfl
  | succ count ih => rw [littleEndian, List.length_cons, ih]

theorem fromLittleEndian_littleEndian (small : n < Nat.pow 256 count) :
    fromLittleEndian (littleEndian count n) = n := by
  induction count generalizing n with
  | zero =>
    obtain rfl : n = 0 := Nat.lt_one_iff.mp small
    rfl
  | succ count ih =>
    have rest : n / 256 < Nat.pow 256 count :=
      Nat.div_lt_of_lt_mul (Nat.mul_comm 256 _ ▸ small)
    rw [littleEndian, fromLittleEndian, ih rest]
    exact Nat.mod_add_div n 256

@[simp] theorem length_bigEndian (count n : Nat) : (bigEndian count n).length = count := by
  rw [bigEndian, List.length_reverse, length_littleEndian]

theorem fromBigEndian_word (w : UInt32) : (fromBigEndian (bigEndian 4 w.toNat)).toUInt32 = w := by
  unfold fromBigEndian bigEndian
  rw [List.reverse_reverse, fromLittleEndian_littleEndian w.toNat_lt]
  exact UInt32.ofNat_toNat

/-! ### Parts -/

theorem slice_middle {before middle after : List UInt8} (starts : before.length = start)
    (counts : middle.length = count) : slice start count (before ++ (middle ++ after)) = middle := by
  unfold slice
  rw [List.drop_left' starts, List.take_left' counts]

theorem flatten_pieces {all : List α} (fills : all.length = size * count) :
    (pieces size count all).flatten = all := by
  induction count generalizing all with
  | zero => exact (List.length_eq_zero_iff.mp fills).symm
  | succ count ih =>
    have rest : (all.drop size).length = size * count := by
      rw [List.length_drop, fills, Nat.mul_succ, Nat.add_sub_cancel]
    rw [pieces, List.flatten_cons, ih rest, List.take_append_drop]

theorem length_of_mem_pieces {all piece : List α} (fills : all.length = size * count)
    (member : piece ∈ pieces size count all) : piece.length = size := by
  induction count generalizing all with
  | zero => cases member
  | succ count ih =>
    rw [Nat.mul_succ] at fills
    rcases List.mem_cons.mp member with rfl | later
    · rw [List.length_take]
      omega
    · apply ih _ later
      rw [List.length_drop]
      omega

/-- Lists of one length are found again in what they make together. -/
theorem pieces_flatMap {parts : List α} {f : α → List β} (even : ∀ part ∈ parts, (f part).length = size) :
    pieces size parts.length (parts.flatMap f) = parts.map f := by
  induction parts with
  | nil => rfl
  | cons part rest ih =>
    rw [List.forall_mem_cons] at even
    rw [List.length_cons, List.flatMap_cons, List.map_cons, pieces, List.take_left' even.1,
      List.drop_left' even.1, ih even.2]

theorem length_flatMap_of_even {parts : List α} {f : α → List β}
    (even : ∀ part ∈ parts, (f part).length = size) :
    (parts.flatMap f).length = parts.length * size := by
  rw [List.length_flatMap, List.map_congr_left even, List.map_const', List.sum_replicate_nat]

/-! ### Rows -/

theorem rows_fill (sized : image.Sized) :
    image.colors.length = image.width.toNat * (image.colors.length / image.width.toNat) :=
  (Nat.mul_div_cancel' ⟨_, sized⟩).symm

theorem flatten_rows (sized : image.Sized) : (rows image).flatten = image.colors :=
  flatten_pieces (rows_fill sized)

theorem length_of_mem_rows {row : List Rgb} (sized : image.Sized) (member : row ∈ rows image) :
    row.length = image.width.toNat :=
  length_of_mem_pieces (rows_fill sized) member

namespace Png

theorem length_row (cs : List Rgb) : (row cs).length = 3 * cs.length + 1 := by
  have even : ∀ c ∈ cs, [c.red, c.green, c.blue].length = 3 := fun _ _ => rfl
  rw [row, List.length_cons, length_flatMap_of_even even, Nat.mul_comm]

theorem colors_row (cs : List Rgb) : colors ((row cs).drop 1) = cs := by
  induction cs with
  | nil => rfl
  | cons c rest ih =>
    show c :: colors ((row rest).drop 1) = c :: rest
    rw [ih]

theorem rows_payload (sized : image.Sized) :
    let rowSize := 3 * image.width.toNat + 1
    (pieces rowSize ((payload image).length / rowSize) (payload image)).flatMap
      (fun row => colors (row.drop 1)) = image.colors := by
  intro rowSize
  have even : ∀ r ∈ rows image, (row r).length = rowSize := by
    intro r member
    rw [length_row, length_of_mem_rows sized member]
  have full : (payload image).length / rowSize = (rows image).length := by
    rw [payload, length_flatMap_of_even even, Nat.mul_div_cancel _ (Nat.succ_pos _)]
  rw [full, payload, pieces_flatMap even, List.flatMap_map]
  simp only [colors_row]
  rw [List.flatMap_id', flatten_rows sized]

/-! ### Blocks -/

variable {full : Nat} {bytes : List UInt8}

theorem length_block (final : Bool) (bytes : List UInt8) :
    (block final bytes).length = blockHeaderSize + bytes.length := by
  simp [block, blockHeaderSize]
  omega

theorem length_blocks (fits : full * maxBlock ≤ bytes.length) :
    (blocks full bytes).length = (full + 1) * blockHeaderSize + bytes.length := by
  induction full generalizing bytes with
  | zero =>
    rw [blocks, length_block]
    omega
  | succ full ih =>
    rw [Nat.succ_mul] at fits
    have rest : full * maxBlock ≤ (bytes.drop maxBlock).length := by
      rw [List.length_drop]
      omega
    rw [blocks, List.length_append, length_block, ih rest, List.length_take, List.length_drop,
      Nat.succ_mul (full + 1)]
    omega

theorem unblock_blocks (fits : full * maxBlock ≤ bytes.length) :
    unblock full (blocks full bytes) = bytes := by
  induction full generalizing bytes with
  | zero => rfl
  | succ full ih =>
    rw [Nat.succ_mul] at fits
    have first : (bytes.take maxBlock).length = maxBlock := by
      rw [List.length_take]
      omega
    have rest : full * maxBlock ≤ (bytes.drop maxBlock).length := by
      rw [List.length_drop]
      omega
    have behind : (block false (bytes.take maxBlock)).length = blockHeaderSize + maxBlock := by
      rw [length_block, first]
    have stored : slice blockHeaderSize maxBlock (block false (bytes.take maxBlock) ++
        blocks full (bytes.drop maxBlock)) = bytes.take maxBlock := by
      rw [block, List.append_assoc]
      exact slice_middle rfl first
    rw [blocks, unblock, List.drop_left' behind, ih rest, stored, List.take_append_drop]

theorem full_mul_le (bytes : List UInt8) :
    (bytes.length - 1) / maxBlock * maxBlock ≤ bytes.length :=
  Nat.le_trans (Nat.div_mul_le_self _ _) (Nat.sub_le _ _)

/-- The number of full blocks is found again in the length of all blocks. -/
theorem full_of_length (counted : full = (bytes.length - 1) / maxBlock) :
    ((blocks full bytes).length - 1) / (blockHeaderSize + maxBlock) = full := by
  have fits : full * maxBlock ≤ bytes.length := counted ▸ full_mul_le bytes
  have rest : bytes.length - 1 < (full + 1) * 65535 := by
    rw [counted]
    exact (Nat.div_lt_iff_lt_mul (by decide)).mp (Nat.lt_succ_self _)
  -- Only the two bounds count for `omega`, not the quotient.
  clear counted
  rw [length_blocks fits]
  have least : full * 65535 ≤ bytes.length := fits
  show ((full + 1) * 5 + bytes.length - 1) / 65540 = full
  omega

/-! ### Files -/

theorem file_sides (image : Image) :
    ∃ before after, before.length = widthPlace ∧
      file image = before ++ (bigEndian 4 image.width.toNat ++
        (bigEndian 4 image.height.toNat ++ after)) := by
  refine ⟨signature ++ bigEndian 4 (sides image).length ++ sidesKind, [8, 2, 0, 0, 0] ++
    bigEndian 4 (crc (sidesKind ++ sides image)).toNat ++ chunk pixelsKind (stream image) ++
    chunk endKind [], ?_, ?_⟩
  · simp [signature, sidesKind, widthPlace]
  · rw [file, chunk.eq_def sidesKind]
    simp only [sides, List.append_assoc]

theorem file_blocks (image : Image) :
    ∃ before after, before.length = blocksPlace ∧ after.length = trailerSize ∧
      file image = before ++
        (blocks (((payload image).length - 1) / maxBlock) (payload image) ++ after) := by
  refine ⟨signature ++ chunk sidesKind (sides image) ++ bigEndian 4 (stream image).length ++
    pixelsKind ++ [0x78, 0x01], bigEndian 4 (adler (payload image)) ++
    bigEndian 4 (crc (pixelsKind ++ stream image)).toNat ++ chunk endKind [], ?_, ?_, ?_⟩
  · simp [chunk, sides, signature, sidesKind, pixelsKind, blocksPlace]
  · simp [chunk, endKind, trailerSize]
  · rw [file, chunk.eq_def pixelsKind]
    simp only [stream, List.append_assoc]

/-- A file is read back as the image it was made of. -/
theorem read_file (sized : image.Sized) : read (file image) = .ok image := by
  obtain ⟨before, after, starts, parts⟩ := file_sides image
  obtain ⟨before', after', starts', ends, parts'⟩ := file_blocks image
  have width : (fromBigEndian (slice widthPlace 4 (file image))).toUInt32 = image.width := by
    rw [parts, slice_middle starts (length_bigEndian _ _), fromBigEndian_word]
  have height : (fromBigEndian (slice heightPlace 4 (file image))).toUInt32 = image.height := by
    have starts : (before ++ bigEndian 4 image.width.toNat).length = heightPlace := by
      rw [List.length_append, starts, length_bigEndian]
      rfl
    rw [parts, ← List.append_assoc, slice_middle starts (length_bigEndian _ _), fromBigEndian_word]
  have stored : slice blocksPlace ((file image).length - (blocksPlace + trailerSize)) (file image) =
      blocks (((payload image).length - 1) / maxBlock) (payload image) := by
    rw [parts']
    refine slice_middle starts' ?_
    simp only [List.length_append, starts', ends]
    omega
  unfold read
  dsimp only
  rw [width, height, stored, full_of_length rfl, unblock_blocks (full_mul_le _), rows_payload sized,
    if_pos rfl]

end Png

end Flipbook.Studio.Encoding
