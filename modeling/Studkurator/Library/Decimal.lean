import Mathlib.Algebra.Group.Nat.Defs
import Mathlib.Data.Int.Basic
import Mathlib.Data.Nat.Log
import Std.Data.String.ToInt

/-!
# Decimal numerals as keys

Facts about the printed form of an integer: it determines the integer, also with
a suffix behind it, and its first character is a digit unless the integer is
negative. Only a one-digit numeral can be recovered from its first character.
-/

namespace Decimal

set_option autoImplicit false

theorem toString_append_injective (suffix : String) :
    Function.Injective fun n : ℤ => toString n ++ suffix := by
  intro m n h
  exact Int.repr_injective ((String.append_left_inj suffix).mp h)

theorem toString_natCast (n : ℕ) : toString (n : ℤ) = n.repr := by
  rw [Int.toString_eq_repr, Int.repr_eq_if]
  simp

theorem toList_toString (n : ℕ) : (toString (n : ℤ)).toList = Nat.toDigits 10 n := by
  rw [toString_natCast, Nat.toList_repr]

theorem toList_toString_of_lt {n : ℕ} (h : n < 10) :
    (toString (n : ℤ)).toList = [n.digitChar] := by
  rw [toList_toString, Nat.toDigits_of_lt_base h]

/-- The first digit of the decimal numeral. -/
def leadingDigit (n : ℕ) : ℕ := n / 10 ^ Nat.log 10 n

theorem leadingDigit_of_lt {n : ℕ} (h : n < 10) : leadingDigit n = n := by
  rw [leadingDigit, Nat.log_of_lt h, pow_zero, Nat.div_one]

theorem leadingDigit_of_le {n : ℕ} (h : 10 ≤ n) : leadingDigit n = leadingDigit (n / 10) := by
  rw [leadingDigit, leadingDigit, Nat.log_of_one_lt_of_le (by decide) h, pow_succ',
    Nat.div_div_eq_div_mul]

theorem head_toDigits (n : ℕ) :
    (Nat.toDigits 10 n).head? = some (Nat.digitChar (leadingDigit n)) := by
  induction n using Nat.strongRecOn with
  | ind n ih =>
    by_cases h : n < 10
    · rw [Nat.toDigits_of_lt_base h, leadingDigit_of_lt h]
      rfl
    · have hle : 10 ≤ n := by omega
      have hdiv : n / 10 < n := Nat.div_lt_self (by omega) (by decide)
      rw [Nat.toDigits_of_base_le (by decide) hle, List.head?_append, ih _ hdiv,
        leadingDigit_of_le hle]
      rfl

theorem leadingDigit_lt (n : ℕ) : leadingDigit n < 10 := by
  induction n using Nat.strongRecOn with
  | ind n ih =>
    by_cases h : n < 10
    · rwa [leadingDigit_of_lt h]
    · rw [leadingDigit_of_le (by omega)]
      exact ih _ (Nat.div_lt_self (by omega) (by decide))

end Decimal
