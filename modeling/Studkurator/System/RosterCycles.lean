import Studkurator.Controller.GroupReload
import Studkurator.System.RosterDeletions
import Studkurator.System.RosterSafety

/-!
# Rosters changed on what was just fetched

One device fetches the roster and then adds a student or deletes a listed one. An addition
stores the whole list again, so every index becomes its leading digit; a deletion removes
the one key that the shown number stands for and leaves longer keys where they are.
-/

namespace Studkurator

open Decimal Dictionary Transition

set_option autoImplicit false

variable {lower : Char → List Char}

inductive CycleAction where
  | add (student : Student)
  | delete (student : Student)

/-- The index in the key of a student. -/
def Student.index (student : Student) : ℕ := (student.number - 1).toNat

/-- What a cycle makes of the indices of the roster. -/
def CycleAction.indices (indices : Finset ℕ) : CycleAction → Finset ℕ
  | add student => insert student.index (indices.image leadingDigit)
  | delete student => indices.erase student.index

theorem key_eq_indexKey_index {s : Student} (h : 1 ≤ s.number) :
    Parser.key s = indexKey s.index := by
  rw [indexKey_eq, Parser.key, Student.index, Int.toNat_of_nonneg (by omega)]

namespace Indexed
variable {indices : Finset ℕ} {node : Node} {order : List (String × Record)}
variable {data : List Student}

theorem image_leadingDigit_image (indices : Finset ℕ) :
    (indices.image leadingDigit).image leadingDigit = indices.image leadingDigit := by
  rw [Finset.image_image]
  apply Finset.image_congr
  intro i _
  exact leadingDigit_of_lt (leadingDigit_lt i)

/-- Storing it with one more student. -/
theorem append (h : Indexed indices (Parser.unparse data)) {student : Student}
    (hnumber : 1 ≤ student.number) :
    Indexed (insert student.index indices) (Parser.unparse (data ++ [student])) := by
  constructor
  · rw [Parser.unparse, keys_encode_append_singleton, key_eq_indexKey_index hnumber,
      Finset.image_insert, ← h.keys]
    rfl
  · exact entries_encode fun s _ => Parser.keys_record s

theorem erase (h : Indexed indices node) (i : ℕ) :
    Indexed (indices.erase i) (node.erase (indexKey i)) := by
  constructor
  · rw [Finmap.keys_erase, h.keys, Finset.image_erase indexKey_injective]
  · intro k r hr
    exact h.fields k r (lookup_erase_eq_some_iff.mp hr).2

end Indexed

end Studkurator
