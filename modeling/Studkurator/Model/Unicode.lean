import Mathlib.Data.List.Infix
import Mathlib.Order.Basic

/-!
# Characters of a text

A Swift text is a sequence of characters, each a cluster of Unicode scalars, and two
characters are equal when they are canonically equivalent. How a text falls into clusters
and how they are decomposed is a matter of the Unicode tables.
-/

namespace Studkurator

set_option autoImplicit false

/-- A `Character`: a cluster of scalars in canonical decomposition, so that equivalent
clusters are equal. -/
@[ext] structure Character where
  scalars : List Char
  ne_nil : scalars ≠ []
  deriving DecidableEq

namespace Character

def single (c : Char) : Character := ⟨[c], List.cons_ne_nil c []⟩

/-- A digit of ASCII, with nothing combined with it. -/
def isDigit (char : Character) : Bool :=
  match char.scalars with
  | [c] => c.isDigit
  | _ => false

theorem isDigit_eq_true_iff {char : Character} :
    char.isDigit = true ↔ ∃ c, char = single c ∧ c.isDigit = true := by
  constructor
  · intro h
    obtain ⟨scalars, hne⟩ := char
    unfold isDigit at h
    split at h
    next c hc =>
      exact ⟨c, Character.ext hc, h⟩
    next => cases h
  · rintro ⟨c, rfl, hc⟩
    exact hc

end Character

def isPrintingASCII (c : Char) : Bool := decide (' ' ≤ c) && decide (c ≤ '~')

/-- The text that the characters make up, in canonical decomposition. -/
def textOf (chars : List Character) : String := String.ofList (chars.flatMap Character.scalars)

/-- What the program relies on in the Unicode tables: in a text of printing ASCII characters
each is a character of its own, and only the empty text has none. -/
class Unicode where
  characters : String → List Character
  characters_of_ascii : ∀ text : String, (∀ c ∈ text.toList, isPrintingASCII c = true) →
    characters text = text.toList.map Character.single
  eq_empty_of_characters : ∀ text, characters text = [] → text = ""

export Unicode (characters characters_of_ascii)

theorem characters_empty [Unicode] : characters "" = [] :=
  characters_of_ascii "" (by simp)

theorem characters_eq_nil_iff [Unicode] {text : String} : characters text = [] ↔ text = "" := by
  constructor
  · exact Unicode.eq_empty_of_characters text
  · rintro rfl
    exact characters_empty

theorem textOf_append (chars chars' : List Character) :
    textOf (chars ++ chars') = textOf chars ++ textOf chars' := by
  rw [textOf, List.flatMap_append, String.ofList_append, textOf, textOf]

theorem textOf_eq_empty_iff {chars : List Character} : textOf chars = "" ↔ chars = [] := by
  rw [textOf, String.ofList_eq_empty_iff, List.flatMap_eq_nil_iff, List.eq_nil_iff_forall_not_mem]
  constructor
  · intro h char hchar
    exact char.ne_nil (h char hchar)
  · intro h char hchar
    exact absurd hchar (h char)

theorem isPrintingASCII_of_isDigit {c : Char} (h : c.isDigit = true) :
    isPrintingASCII c = true := by
  have hbounds := Char.isDigit_iff_toNat.mp h
  simp only [isPrintingASCII, Char.le_def, UInt32.le_iff_toNat_le, Bool.and_eq_true,
    decide_eq_true_eq]
  simp only [Char.reduceToNat] at hbounds
  have hto : c.val.toNat = c.toNat := rfl
  rw [hto]
  constructor
  · exact le_trans (by decide) hbounds.1
  · exact le_trans hbounds.2 (by decide)

theorem scalars_of_digits {chars : List Character} (h : ∀ char ∈ chars, char.isDigit = true) :
    ∃ digits : List Char, chars = digits.map Character.single ∧
      (∀ c ∈ digits, c.isDigit = true) ∧ chars.flatMap Character.scalars = digits := by
  induction chars with
  | nil => exact ⟨[], rfl, by simp, rfl⟩
  | cons char chars ih =>
    obtain ⟨c, rfl, hc⟩ := Character.isDigit_eq_true_iff.mp (h char List.mem_cons_self)
    obtain ⟨digits, rfl, hdigits, hscalars⟩ := ih fun d hd => h d (List.mem_cons_of_mem _ hd)
    refine ⟨c :: digits, rfl, ?_, ?_⟩
    · simpa [hc] using hdigits
    · rw [List.flatMap_cons, hscalars]
      rfl

/-- Digits stay apart when they are put into one text. -/
theorem characters_textOf_digits [Unicode] {chars : List Character}
    (h : ∀ char ∈ chars, char.isDigit = true) : characters (textOf chars) = chars := by
  obtain ⟨digits, hchars, hdigits, hscalars⟩ := scalars_of_digits h
  rw [textOf, hscalars, characters_of_ascii, String.toList_ofList, hchars]
  intro c hc
  rw [String.toList_ofList] at hc
  exact isPrintingASCII_of_isDigit (hdigits c hc)

/-- Combining diacritical marks and those for symbols. -/
def isMark (c : Char) : Bool :=
  (decide ('\u0300' ≤ c) && decide (c ≤ '\u036f')) ||
    (decide ('\u20d0' ≤ c) && decide (c ≤ '\u20f0'))

/-- A scalar in front of a text that was divided already. -/
def attach (c : Char) : List Character → List Character
  | [] => [.single c]
  | char :: chars =>
    if isMark (char.scalars.head char.ne_nil) then
      ⟨c :: char.scalars, List.cons_ne_nil _ _⟩ :: chars
    else .single c :: char :: chars

theorem attach_ne_nil (c : Char) (chars : List Character) : attach c chars ≠ [] := by
  cases chars with
  | nil => simp [attach]
  | cons char chars =>
    simp only [attach]
    split <;> simp

theorem attach_of_ascii (c : Char) {text : List Char} (h : ∀ d ∈ text, isPrintingASCII d = true) :
    attach c (text.map .single) = .single c :: text.map .single := by
  cases text with
  | nil => rfl
  | cons d text =>
    have hmark : isMark d = false := by
      have hd := h d List.mem_cons_self
      simp only [isPrintingASCII, Bool.and_eq_true, decide_eq_true_eq, Char.le_def,
        UInt32.le_iff_toNat_le] at hd
      simp only [isMark, Char.le_def, UInt32.le_iff_toNat_le]
      have htop : '~'.val.toNat = 126 := by decide
      have hlow : '\u0300'.val.toNat = 768 := by decide
      have hlow' : '\u20d0'.val.toNat = 8400 := by decide
      simp only [Bool.or_eq_false_iff, Bool.and_eq_false_iff, decide_eq_false_iff_not]
      omega
    simp [attach, Character.single, hmark]

theorem foldr_attach_of_ascii {text : List Char} (h : ∀ c ∈ text, isPrintingASCII c = true) :
    text.foldr attach [] = text.map .single := by
  induction text with
  | nil => rfl
  | cons c text ih =>
    have htext : ∀ d ∈ text, isPrintingASCII d = true :=
      fun d hd => h d (List.mem_cons_of_mem _ hd)
    rw [List.foldr_cons, ih htext, attach_of_ascii c htext, List.map_cons]

/-- Texts whose only clusters are those of combining marks. -/
instance Unicode.combining : Unicode where
  characters text := text.toList.foldr attach []
  characters_of_ascii _ h := foldr_attach_of_ascii h
  eq_empty_of_characters text h := by
    cases htext : text.toList with
    | nil => exact String.toList_eq_nil_iff.mp htext
    | cons c text =>
      rw [htext, List.foldr_cons] at h
      exact absurd h (attach_ne_nil c _)

/-- The keycap of a digit is one character, and no digit. -/
example : (characters "1\u20e32").map Character.isDigit = [false, true] := by decide

end Studkurator
