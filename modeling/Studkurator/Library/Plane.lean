import Mathlib.Analysis.SpecialFunctions.Trigonometric.Basic
import Mathlib.Tactic.LinearCombination

/-!
# Affine maps of the plane

A map is given by its six entries, the linear part and the shift. Rotations are by
quarter turns, which are exact over any ring.
-/

namespace Plane

set_option autoImplicit false

universe u

structure Affine (K : Type u) where
  a : K
  b : K
  c : K
  d : K
  tx : K
  ty : K
  deriving DecidableEq

structure Rect (K : Type u) where
  x : K
  y : K
  width : K
  height : K
  deriving DecidableEq

variable {K : Type u}

section quarters

variable [Ring K]

/-- The cosine of a number of quarter turns. -/
def quarterCos (quarters : ℤ) : K :=
  if quarters % 4 = 0 then 1 else if quarters % 4 = 2 then -1 else 0

def quarterSin (quarters : ℤ) : K := quarterCos (quarters - 1)

theorem emod_four_cases (n : ℤ) : n % 4 = 0 ∨ n % 4 = 1 ∨ n % 4 = 2 ∨ n % 4 = 3 := by
  omega

theorem quarterCos_real (quarters : ℤ) :
    (quarterCos quarters : ℝ) = Real.cos (quarters * (Real.pi / 2)) := by
  have hturns : Real.cos (quarters * (Real.pi / 2)) =
      Real.cos ((quarters % 4 : ℤ) * (Real.pi / 2)) := by
    have hsplit : (quarters : ℝ) = 4 * (quarters / 4 : ℤ) + (quarters % 4 : ℤ) := by
      exact_mod_cast (Int.mul_ediv_add_emod quarters 4).symm
    rw [← Real.cos_add_int_mul_two_pi ((quarters % 4 : ℤ) * (Real.pi / 2)) (quarters / 4)]
    congr 1
    linear_combination (Real.pi / 2) * hsplit
  rw [hturns, quarterCos]
  obtain h | h | h | h := emod_four_cases quarters
  · simp [h]
  · simp [h]
  · simp [h, mul_div_cancel₀]
  · have hthree : (3 : ℝ) * (Real.pi / 2) = Real.pi / 2 + Real.pi := by ring
    simp [h, hthree, Real.cos_add_pi]

theorem quarterSin_real (quarters : ℤ) :
    (quarterSin quarters : ℝ) = Real.sin (quarters * (Real.pi / 2)) := by
  rw [quarterSin, quarterCos_real, ← Real.cos_sub_pi_div_two]
  congr 1
  push_cast
  ring

end quarters

namespace Affine

variable [CommRing K] (s t : Affine K)

def apply (p : K × K) : K × K :=
  (t.a * p.1 + t.c * p.2 + t.tx, t.b * p.1 + t.d * p.2 + t.ty)

def det : K := t.a * t.d - t.b * t.c

def identity : Affine K := ⟨1, 0, 0, 1, 0, 0⟩

def translation (x y : K) : Affine K := ⟨1, 0, 0, 1, x, y⟩

def scaling (x y : K) : Affine K := ⟨x, 0, 0, y, 0, 0⟩

def rotation (quarters : ℤ) : Affine K :=
  ⟨quarterCos quarters, quarterSin quarters, -quarterSin quarters, quarterCos quarters, 0, 0⟩

/-- First `s`, then `t`. -/
def andThen : Affine K where
  a := t.a * s.a + t.c * s.b
  b := t.b * s.a + t.d * s.b
  c := t.a * s.c + t.c * s.d
  d := t.b * s.c + t.d * s.d
  tx := t.a * s.tx + t.c * s.ty + t.tx
  ty := t.b * s.tx + t.d * s.ty + t.ty

@[simp] theorem apply_andThen (p : K × K) : (s.andThen t).apply p = t.apply (s.apply p) := by
  simp only [apply, andThen, Prod.mk.injEq]
  constructor <;> ring

@[simp] theorem det_andThen : (s.andThen t).det = t.det * s.det := by
  simp only [det, andThen]
  ring

@[simp] theorem apply_identity (p : K × K) : (identity : Affine K).apply p = p := by
  simp [apply, identity]

@[simp] theorem det_identity : (identity : Affine K).det = 1 := by
  simp [det, identity]

@[simp] theorem apply_translation (x y : K) (p : K × K) :
    (translation x y).apply p = (p.1 + x, p.2 + y) := by
  simp [apply, translation]

@[simp] theorem det_translation (x y : K) : (translation x y).det = 1 := by
  simp [det, translation]

@[simp] theorem apply_scaling (x y : K) (p : K × K) :
    (scaling x y).apply p = (x * p.1, y * p.2) := by
  simp [apply, scaling]

@[simp] theorem det_scaling (x y : K) : (scaling x y).det = x * y := by
  simp [det, scaling]

/-- A rotation keeps handedness. -/
@[simp] theorem det_rotation (quarters : ℤ) : (rotation quarters : Affine K).det = 1 := by
  simp only [det, rotation, quarterSin, quarterCos]
  obtain h | h | h | h := emod_four_cases quarters
  · simp [h, show (quarters - 1) % 4 = 3 by omega]
  · simp [h, show (quarters - 1) % 4 = 0 by omega]
  · simp [h, show (quarters - 1) % 4 = 1 by omega]
  · simp [h, show (quarters - 1) % 4 = 2 by omega]

@[simp] theorem apply_rotation_two (p : K × K) :
    (rotation 2 : Affine K).apply p = (-p.1, -p.2) := by
  simp [apply, rotation, quarterSin, quarterCos]

@[simp] theorem apply_rotation_neg_one (p : K × K) :
    (rotation (-1) : Affine K).apply p = (p.2, -p.1) := by
  simp [apply, rotation, quarterSin, quarterCos]

end Affine

section region

variable [CommRing K] [LinearOrder K]

def Rect.region (rect : Rect K) : Set (K × K) :=
  Set.Icc (rect.x, rect.y) (rect.x + rect.width, rect.y + rect.height)

theorem Rect.mem_region (rect : Rect K) (p : K × K) :
    p ∈ rect.region ↔ (rect.x ≤ p.1 ∧ p.1 ≤ rect.x + rect.width) ∧
      rect.y ≤ p.2 ∧ p.2 ≤ rect.y + rect.height := by
  simp only [region, Set.mem_Icc, Prod.le_def]
  tauto

/-- A side from 0 to `length` is its own mirror image. -/
theorem mirrored_side_iff [IsStrictOrderedRing K] (length x : K) :
    (0 ≤ length - x ∧ length - x ≤ 0 + length) ↔ 0 ≤ x ∧ x ≤ 0 + length := by
  constructor
  · intro ⟨hlow, hhigh⟩
    constructor <;> linarith
  · intro ⟨hlow, hhigh⟩
    constructor <;> linarith

/-- A map with an inverse covers exactly the target of a rectangle. -/
theorem Affine.image_region_eq {t : Affine K} (back : K × K → K × K)
    (hleft : ∀ p, back (t.apply p) = p) (hright : ∀ p, t.apply (back p) = p)
    {source target : Rect K} (htarget : ∀ p, back p ∈ source.region ↔ p ∈ target.region) :
    t.apply '' source.region = target.region := by
  rw [Set.image_eq_preimage_of_inverse hleft hright]
  ext p
  exact htarget p

end region

end Plane
