import ChipEight.Desktop.Texture
import ChipEight.Proofs.Bare.Frame

/-!
The upload of a frame with plain numbers and slices. The bytes of the frame are tripled and each
is multiplied to an intensity that has to be a byte again; the result is cut into lines, and
each line is copied to its row of a buffer. If the rows are long enough for the lines and the
buffer holds all rows, then nothing of this breaks down, and the buffer is that of the surface
after the upload.
-/
namespace ChipEight

namespace Bare

/-- Bytes that can be reached at all, so they fit into one allocation. -/
structure Slice where
  bytes : Array UInt8
  size_le : bytes.size ≤ maxAllocation

namespace Texture

def intensity (pixel : UInt8) : Guarded UInt8 := do
  let value ← fit 8 (pixel.toNat * 255)
  return UInt8.ofNat value

def picture (f : Frame) : Guarded (List UInt8) := do
  let bytes ← (f.pixels.toList.flatMap (List.replicate 3)).mapM intensity
  allocate bytes.length
  return bytes

def lines (f : Frame) : Guarded (List (List UInt8)) := do
  let bytes ← picture f
  let length ← fit wordBits (f.width * 3)
  chunks length bytes

def copyLines (pitch row : Nat) : List (List UInt8) → Array UInt8 → Guarded (Array UInt8)
  | [], buffer => return buffer
  | line :: rest, buffer => do
    let start ← fit wordBits (row * pitch)
    let buffer ← copy buffer start line
    copyLines pitch (row + 1) rest buffer

def upload (f : Frame) (pitch : Nat) (buffer : Array UInt8) : Guarded (Array UInt8) := do
  let lines ← lines f
  copyLines pitch 0 lines buffer

end Texture

end Bare

namespace Desktop

namespace Surface

/-- The rows are long enough for those of the frame, and there are enough of them. -/
structure Fits (s : Surface) (f : Frame) : Prop where
  pitch : 3 * f.width ≤ s.pitch
  room : s.pitch * f.height ≤ s.bytes.size

namespace Fits

variable {s : Surface} {f : Frame} (h : s.Fits f)
include h

theorem row_le {y : Nat} (hy : y < f.height) : y * s.pitch + 3 * f.width ≤ s.bytes.size := by
  have hend : (y + 1) * s.pitch ≤ s.bytes.size := by
    rw [Nat.mul_comm]
    exact Nat.le_trans (Nat.mul_le_mul_left _ hy) h.room
  have hpitch := h.pitch
  rw [Nat.succ_mul] at hend
  omega

/-- The picture without gaps is no longer than the surface. -/
theorem picture_le : 3 * f.width * f.height ≤ s.bytes.size :=
  Nat.le_trans (Nat.mul_le_mul_right _ h.pitch) h.room

end Fits
end Surface

namespace Texture

open Bare

section Picture

variable {f : Frame}

theorem toList_picture (f : Frame) :
    (picture f).toList = f.pixels.toList.flatMap fun on => List.replicate 3 (intensity on) := by
  rw [picture, Array.toList_flatMap]
  rfl

theorem length_picture (f : Frame) : (picture f).toList.length = 3 * f.width * f.height := by
  rw [toList_picture, List.length_flatMap]
  simp only [List.length_replicate, List.map_const', List.sum_replicate_nat, Array.length_toList,
    f.size_pixels]
  rw [Nat.mul_comm, Nat.mul_assoc]

/-- A row of the picture is one of the lines that it is cut into. -/
theorem pictureRow_eq (f : Frame) (y : Nat) :
    pictureRow f y = ((picture f).toList.drop (y * (3 * f.width))).take (3 * f.width) := by
  rw [pictureRow, Array.toList_extract, List.extract_eq_take_drop, Nat.succ_mul,
    Nat.add_sub_cancel_left]

theorem length_pictureRow {y : Nat} (hy : y < f.height) :
    (pictureRow f y).length = 3 * f.width := by
  have hroom : (y + 1) * (3 * f.width) ≤ 3 * f.width * f.height := by
    rw [Nat.mul_comm]
    exact Nat.mul_le_mul_left _ hy
  rw [Nat.succ_mul] at hroom
  rw [pictureRow_eq, List.length_take, List.length_drop, length_picture]
  omega

/-- The product is a byte because a pixel is a zero or a one. -/
theorem intensity_eq_ok {pixel : UInt8} (h : pixel = 0 ∨ pixel = 1) :
    Bare.Texture.intensity pixel = .ok (pixel * 255) := by
  rcases h with rfl | rfl
  · rw [Bare.Texture.intensity, fit_eq_ok (by decide)]
    rfl
  · rw [Bare.Texture.intensity, fit_eq_ok (by decide)]
    rfl

theorem toList_picture_bare (f : Frame) :
    (f.bare.pixels.toList.flatMap (List.replicate 3)).map (· * 255) = (picture f).toList := by
  have hintensity : ∀ on : Bool, on.toUInt8 * 255 = intensity on := by decide
  rw [toList_picture, Frame.bare, Array.toList_map, List.flatMap_map, List.map_flatMap]
  simp only [List.map_replicate, hintensity]

theorem picture_bare (h : 3 * f.width * f.height ≤ maxAllocation) :
    Bare.Texture.picture f.bare = .ok (picture f).toList := by
  have hbytes : (f.bare.pixels.toList.flatMap (List.replicate 3)).mapM Bare.Texture.intensity =
      .ok (picture f).toList := by
    rw [← toList_picture_bare]
    apply mapM_eq_ok
    intro byte hbyte
    obtain ⟨pixel, hpixel, htriple⟩ := List.mem_flatMap.mp hbyte
    rw [List.eq_of_mem_replicate htriple]
    exact intensity_eq_ok (f.pixel_bare (Array.mem_toList_iff.mp hpixel))
  rw [Bare.Texture.picture, hbytes, ok_bind, length_picture, allocate_eq_ok h]
  rfl

theorem lines_bare (h : 3 * f.width * f.height ≤ maxAllocation) :
    Bare.Texture.lines f.bare = .ok ((List.range f.height).map (pictureRow f)) := by
  have hwidth := f.width_pos
  have hle : 3 * f.width ≤ 3 * f.width * f.height := Nat.le_mul_of_pos_right _ f.height_pos
  have hword : f.width * 3 < 2 ^ wordBits := by
    rw [Nat.mul_comm]
    exact lt_wordBits_of_le (Nat.le_trans hle h)
  rw [Bare.Texture.lines, picture_bare h, ok_bind, Frame.width_bare, fit_eq_ok hword, ok_bind,
    Nat.mul_comm, chunks_eq_ok (by omega) (length_picture f)]
  congr 1
  apply List.map_congr_left
  intro y _
  rw [pictureRow_eq]

end Picture

section Copy

variable {bytes : Array UInt8} {place : Nat} {source : List UInt8}

theorem size_copyTo (bytes : Array UInt8) (place : Nat) (source : List UInt8) :
    (copyTo bytes place source).size = bytes.size := by
  induction source generalizing bytes place with
  | nil => rfl
  | cons byte rest ih => rw [copyTo, ih, Array.size_setIfInBounds]

theorem getElem_copyTo {k : Nat} (hk : k < bytes.size)
    (hcopy : k < (copyTo bytes place source).size) :
    (copyTo bytes place source)[k] =
      if place ≤ k then source[k - place]?.getD bytes[k] else bytes[k] := by
  induction source generalizing bytes place with
  | nil => simp [copyTo]
  | cons byte rest ih =>
    have hset : k < (bytes.setIfInBounds place byte).size := by rwa [Array.size_setIfInBounds]
    simp only [copyTo]
    rw [ih hset, Array.getElem_setIfInBounds hk]
    by_cases hafter : place + 1 ≤ k
    · have hne : place ≠ k := by omega
      have hle : place ≤ k := Nat.le_of_succ_le hafter
      have hstep : k - place = k - (place + 1) + 1 := by omega
      rw [if_pos hafter, if_pos hle, if_neg hne, hstep, List.getElem?_cons_succ]
    · by_cases hplace : place = k
      · rw [if_neg hafter, if_pos hplace, if_pos (by omega), hplace, Nat.sub_self]
        rfl
      · rw [if_neg hafter, if_neg hplace, if_neg (by omega)]

theorem copyTo_eq_splice (h : place + source.length ≤ bytes.size) :
    copyTo bytes place source = splice bytes place source := by
  apply Array.ext
  · rw [size_copyTo, size_splice h]
  · intro k hcopy hsplice
    have hk : k < bytes.size := by rwa [size_copyTo] at hcopy
    rw [getElem_copyTo hk, getElem_splice h hk]

end Copy

section Upload

variable {f : Frame} {pitch : Nat}

/-- The lines from one row on go to their rows. -/
theorem copyLines_bare {row count : Nat} (hrows : row + count ≤ f.height) {buffer : Array UInt8}
    (hfits : Surface.Fits ⟨pitch, buffer⟩ f) (hsize : buffer.size ≤ maxAllocation) :
    Bare.Texture.copyLines pitch row ((List.range' row count).map (pictureRow f)) buffer =
      .ok ((List.range' row count).foldl
        (fun bytes y => copyTo bytes (y * pitch) (pictureRow f y)) buffer) := by
  induction count generalizing row buffer with
  | zero => rfl
  | succ count ih =>
    have hy : row < f.height := by omega
    have hline : row * pitch + (pictureRow f row).length ≤ buffer.size := by
      rw [length_pictureRow hy]
      exact hfits.row_le hy
    have hword := lt_wordBits_of_le (Nat.le_trans hline hsize)
    have hcopied := size_copyTo buffer (row * pitch) (pictureRow f row)
    rw [List.range'_succ, List.map_cons, Bare.Texture.copyLines, fit_eq_ok (by omega), ok_bind,
      copy_eq_ok hline hword, ok_bind, ← copyTo_eq_splice hline, List.foldl_cons]
    exact ih (by omega) ⟨hfits.pitch, hcopied ▸ hfits.room⟩ (hcopied ▸ hsize)

theorem upload_bare {buffer : Slice} (hfits : Surface.Fits ⟨pitch, buffer.bytes⟩ f) :
    Bare.Texture.upload f.bare pitch buffer.bytes =
      .ok (upload f ⟨pitch, buffer.bytes⟩).bytes := by
  have hlines := lines_bare (Nat.le_trans hfits.picture_le buffer.size_le)
  rw [Bare.Texture.upload, hlines, ok_bind, List.range_eq_range',
    copyLines_bare (Nat.le_of_eq (Nat.zero_add _)) hfits buffer.size_le, ← List.range_eq_range']
  rfl

end Upload

end Texture
end Desktop
end ChipEight
