import Studkurator.Library.Plane

/-!
# Drawing an image upright

`fixOrientation` draws the stored pixels through an affine map into a context of the
size that the image has when it is shown.
-/

namespace Studkurator

open Plane

set_option autoImplicit false

universe u v

inductive ImageOrientation where
  | up
  | down
  | left
  | right
  | upMirrored
  | downMirrored
  | leftMirrored
  | rightMirrored
  deriving DecidableEq

def ImageOrientation.mirrored : ImageOrientation → Bool
  | .up | .down | .left | .right => false
  | .upMirrored | .downMirrored | .leftMirrored | .rightMirrored => true

structure CGSize (K : Type u) where
  width : K
  height : K
  deriving DecidableEq

namespace CGAffineTransform

variable {K : Type u} [CommRing K]

/-- As the two below, the new operation comes before the transform. -/
def translatedBy (transform : Affine K) (x y : K) : Affine K :=
  (Affine.translation x y).andThen transform

/-- The angle is counted in quarter turns: `.pi` is 2 and `-.pi/2` is -1. -/
def rotated (transform : Affine K) (quarters : ℤ) : Affine K :=
  (Affine.rotation quarters).andThen transform

def scaledBy (transform : Affine K) (x y : K) : Affine K :=
  (Affine.scaling x y).andThen transform

end CGAffineTransform

/-- What is needed of the context: the drawing that `makeImage()` is asked for. -/
structure Drawing (K : Type u) (Pixels : Type v) where
  canvas : CGSize K
  transform : Affine K
  rect : Rect K
  cgImage : Pixels

structure UIImage (K : Type u) (Pixels : Type v) where
  imageOrientation : ImageOrientation
  size : CGSize K
  cgImage : Option Pixels

namespace UIImage

open CGAffineTransform

variable {K : Type u} {Pixels : Type v} [CommRing K]

def transform (imageOrientation : ImageOrientation) (size : CGSize K) : Affine K :=
  match imageOrientation with
  | .down | .downMirrored =>
    rotated (translatedBy Affine.identity size.width size.height) 2
  | .left | .leftMirrored => rotated (translatedBy Affine.identity size.width 0) 2
  | .right | .rightMirrored => rotated (translatedBy Affine.identity 0 size.height) (-1)
  | .upMirrored => scaledBy (translatedBy Affine.identity size.width 0) (-1) 1
  | .up => Affine.identity

def rect (imageOrientation : ImageOrientation) (size : CGSize K) : Rect K :=
  match imageOrientation with
  | .left | .leftMirrored | .right | .rightMirrored => ⟨0, 0, size.height, size.width⟩
  | _ => ⟨0, 0, size.width, size.height⟩

def drawing (image : UIImage K Pixels) (cgImage : Pixels) : Drawing K Pixels where
  canvas := image.size
  transform := transform image.imageOrientation image.size
  rect := rect image.imageOrientation image.size
  cgImage := cgImage

/-- `makeImage` is `none` where CoreGraphics gives no colour space, context or image. -/
def fixOrientation (makeImage : Drawing K Pixels → Option Pixels) (image : UIImage K Pixels) :
    UIImage K Pixels :=
  if image.imageOrientation = .up then image
  else
    match image.cgImage.bind fun cgImage => makeImage (image.drawing cgImage) with
    | none => image
    | some cgImage => ⟨.up, image.size, some cgImage⟩

/-- An image that was drawn is upright, one that could not be drawn fails again. -/
theorem fixOrientation_fixOrientation (makeImage : Drawing K Pixels → Option Pixels)
    (image : UIImage K Pixels) :
    fixOrientation makeImage (fixOrientation makeImage image) = fixOrientation makeImage image := by
  by_cases hup : image.imageOrientation = .up
  · simp [fixOrientation, hup]
  · cases hmade : image.cgImage.bind fun cgImage => makeImage (image.drawing cgImage) with
    | none => simp only [fixOrientation, if_neg hup, hmade]
    | some cgImage => simp only [fixOrientation, if_neg hup, hmade, if_true]

end UIImage

def Drawing.canvasRect {K : Type u} {Pixels : Type v} [Zero K] (drawing : Drawing K Pixels) :
    Rect K :=
  ⟨0, 0, drawing.canvas.width, drawing.canvas.height⟩

/-- The pixels land exactly on the canvas, and change sides as the orientation says. -/
def Drawing.Faithful {K : Type u} {Pixels : Type v} [CommRing K] [LinearOrder K]
    (drawing : Drawing K Pixels) (imageOrientation : ImageOrientation) : Prop :=
  drawing.transform.apply '' drawing.rect.region = drawing.canvasRect.region ∧
    (drawing.transform.det = -1 ↔ imageOrientation.mirrored = true)

namespace UIImage

open CGAffineTransform

section maps

variable {K : Type u} [CommRing K] (size : CGSize K) (p : K × K)

theorem apply_transform_down :
    (transform .down size).apply p = (size.width - p.1, size.height - p.2) := by
  simp [transform, rotated, translatedBy, sub_eq_neg_add]

theorem apply_transform_left :
    (transform .left size).apply p = (size.width - p.1, -p.2) := by
  simp [transform, rotated, translatedBy, sub_eq_neg_add]

theorem apply_transform_right :
    (transform .right size).apply p = (p.2, size.height - p.1) := by
  simp [transform, rotated, translatedBy, sub_eq_neg_add]

theorem apply_transform_upMirrored :
    (transform .upMirrored size).apply p = (size.width - p.1, p.2) := by
  simp [transform, scaledBy, translatedBy, sub_eq_neg_add]

theorem det_transform (imageOrientation : ImageOrientation) :
    (transform imageOrientation size).det =
      if imageOrientation = .upMirrored then -1 else 1 := by
  cases imageOrientation <;> simp [transform, rotated, translatedBy, scaledBy]

end maps

section regions

variable {K : Type u} [CommRing K] [LinearOrder K] [IsStrictOrderedRing K] (size : CGSize K)

theorem image_transform_down : (transform .down size).apply '' (rect .down size).region =
    Rect.region ⟨0, 0, size.width, size.height⟩ := by
  apply Affine.image_region_eq fun p => (size.width - p.1, size.height - p.2)
  · simp [apply_transform_down]
  · simp [apply_transform_down]
  · intro p
    simp only [rect, Rect.mem_region, mirrored_side_iff]

/-- The rectangle lies on its side, the quarter turn puts it upright. -/
theorem image_transform_right : (transform .right size).apply '' (rect .right size).region =
    Rect.region ⟨0, 0, size.width, size.height⟩ := by
  apply Affine.image_region_eq fun p => (size.height - p.2, p.1)
  · simp [apply_transform_right]
  · simp [apply_transform_right]
  · intro p
    simp only [rect, Rect.mem_region, mirrored_side_iff]
    exact and_comm

theorem image_transform_upMirrored :
    (transform .upMirrored size).apply '' (rect .upMirrored size).region =
      Rect.region ⟨0, 0, size.width, size.height⟩ := by
  apply Affine.image_region_eq fun p => (size.width - p.1, p.2)
  · simp [apply_transform_upMirrored]
  · simp [apply_transform_upMirrored]
  · intro p
    simp only [rect, Rect.mem_region, mirrored_side_iff]

/-- After half a turn about (w, 0) the drawn rectangle lies below the canvas. -/
theorem image_transform_left_ne (hwidth : 0 < size.width) (hheight : 0 < size.height) :
    (transform .left size).apply '' (rect .left size).region ≠
      Rect.region ⟨0, 0, size.width, size.height⟩ := by
  intro heq
  have hcorner : ((0, size.width) : K × K) ∈ (rect .left size).region := by
    rw [Rect.mem_region]
    refine ⟨⟨?_, ?_⟩, ?_, ?_⟩ <;> simp [rect, hwidth.le, hheight.le]
  have himage := Set.mem_image_of_mem (transform .left size).apply hcorner
  rw [heq, apply_transform_left, Rect.mem_region] at himage
  have hlow : 0 ≤ -size.width := himage.2.1
  linarith

theorem covers_iff (imageOrientation : ImageOrientation) (hwidth : 0 < size.width)
    (hheight : 0 < size.height) :
    (transform imageOrientation size).apply '' (rect imageOrientation size).region =
        Rect.region ⟨0, 0, size.width, size.height⟩ ↔
      imageOrientation ∉ [.left, .leftMirrored] := by
  have hleft := image_transform_left_ne size hwidth hheight
  cases imageOrientation with
  | up => simp [transform, rect]
  | down => exact iff_of_true (image_transform_down size) (by decide)
  | left => exact iff_of_false hleft (by decide)
  | right => exact iff_of_true (image_transform_right size) (by decide)
  | upMirrored => exact iff_of_true (image_transform_upMirrored size) (by decide)
  | downMirrored => exact iff_of_true (image_transform_down size) (by decide)
  | leftMirrored => exact iff_of_false hleft (by decide)
  | rightMirrored => exact iff_of_true (image_transform_right size) (by decide)

/-- Only the mirrored upright image is mirrored back. -/
theorem handed_iff (imageOrientation : ImageOrientation) :
    ((transform imageOrientation size).det = -1 ↔ imageOrientation.mirrored = true) ↔
      imageOrientation ∉ [.downMirrored, .leftMirrored, .rightMirrored] := by
  have hone : (1 : K) ≠ -1 := by
    intro h
    linarith [zero_lt_one (α := K)]
  rw [det_transform]
  cases imageOrientation <;> simp [ImageOrientation.mirrored, hone]

end regions

section drawings

variable {K : Type u} {Pixels : Type v} [CommRing K] [LinearOrder K] [IsStrictOrderedRing K]

/-- Of the turned orientations three are drawn faithfully. -/
theorem drawing_faithful_iff (image : UIImage K Pixels) (cgImage : Pixels)
    (hup : image.imageOrientation ≠ .up) (hwidth : 0 < image.size.width)
    (hheight : 0 < image.size.height) :
    (image.drawing cgImage).Faithful image.imageOrientation ↔
      image.imageOrientation ∈ [.down, .right, .upMirrored] := by
  have hcovers := covers_iff image.size image.imageOrientation hwidth hheight
  have hhanded := handed_iff image.size image.imageOrientation
  refine (and_congr hcovers hhanded).trans ?_
  cases horientation : image.imageOrientation <;> simp_all

theorem drawing_faithful_iff_portrait :
    ((⟨.right, ⟨3, 4⟩, some ()⟩ : UIImage ℤ Unit).drawing ()).Faithful .right ↔
      .right ∈ [ImageOrientation.down, .right, .upMirrored] :=
  drawing_faithful_iff (⟨.right, ⟨3, 4⟩, some ()⟩ : UIImage ℤ Unit) () (by decide) (by decide)
    (by decide)

/-- The left lower corner of a unit image goes below the canvas. -/
theorem not_drawing_faithful_left :
    ¬ ((⟨.left, ⟨1, 1⟩, some ()⟩ : UIImage ℤ Unit).drawing ()).Faithful .left := by
  intro h
  exact image_transform_left_ne (⟨1, 1⟩ : CGSize ℤ) (by decide) (by decide) h.1

end drawings

end UIImage

end Studkurator
