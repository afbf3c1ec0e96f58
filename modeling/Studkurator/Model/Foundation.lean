import Studkurator.Library.Decimal
import Studkurator.Model.Unicode

/-!
# Strings of the standard library

The conversions the program applies to single characters and to flags, and the
substring test of its searches.
-/

namespace Studkurator

set_option autoImplicit false

/-- `Int(String(char))`: a single sign is no number, and neither is a digit with a mark. -/
def intOfCharacter (char : Character) : Option ℤ :=
  match char.scalars with
  | [c] => if c.isDigit then some ((c.toNat - '0'.toNat : ℕ) : ℤ) else none
  | _ => none

def StartsWithDigit [Unicode] (key : String) : Prop :=
  ∃ char, (characters key).head? = some char ∧ char.isDigit = true

/-- `Bool(text)`. -/
def boolOfString (text : String) : Option Bool :=
  if text = "true" then some true else if text = "false" then some false else none

/-- `text.contains(part)`: a search for equal characters, without success for an empty part. -/
def contains [Unicode] (text part : String) : Bool :=
  part ≠ "" && decide (characters part <:+: characters text)

/-- `text.lowercased()`, for a table of the lowercase forms of the scalars. -/
def lowercased (lower : Char → List Char) (text : String) : String :=
  String.ofList (text.toList.flatMap lower)

/-- The lowercase forms of the Latin letters. -/
def latinLower (c : Char) : List Char := [c.toLower]

theorem latinLower_ne_nil (c : Char) : latinLower c ≠ [] := List.cons_ne_nil _ _

theorem boolOfString_toString (flag : Bool) : boolOfString (toString flag) = some flag := by
  cases flag <;> decide

theorem isSome_intOfCharacter (char : Character) :
    (intOfCharacter char).isSome = char.isDigit := by
  obtain ⟨scalars, hne⟩ := char
  match scalars with
  | [] => exact absurd rfl hne
  | [c] =>
    change (if c.isDigit then some _ else none).isSome = c.isDigit
    cases c.isDigit <;> rfl
  | _ :: _ :: _ => rfl

theorem intOfCharacter_isSome {char : Character} (h : char.isDigit = true) :
    (intOfCharacter char).isSome := by
  rw [isSome_intOfCharacter, h]

theorem isDigit_of_intOfCharacter {char : Character} {n : ℤ} (h : intOfCharacter char = some n) :
    char.isDigit = true := by
  rw [← isSome_intOfCharacter, h]
  rfl

theorem intOfCharacter_single {c : Char} (h : c.isDigit = true) :
    intOfCharacter (.single c) = some ((c.toNat - '0'.toNat : ℕ) : ℤ) :=
  if_pos h

theorem intOfCharacter_bounds {char : Character} {n : ℤ} (h : intOfCharacter char = some n) :
    0 ≤ n ∧ n ≤ 9 := by
  obtain ⟨c, rfl, hdigit⟩ := Character.isDigit_eq_true_iff.mp (isDigit_of_intOfCharacter h)
  rw [intOfCharacter_single hdigit] at h
  have hn := Option.some.inj h
  have hle := Char.isDigit_iff_toNat.mp hdigit
  simp only [Char.reduceToNat] at hn hle
  omega

theorem intOfCharacter_digitChar :
    ∀ n < 10, intOfCharacter (.single (Nat.digitChar n)) = some (n : ℤ) := by
  decide

theorem digitChar_toNat_sub {char : Char} (h : char.isDigit = true) :
    Nat.digitChar (char.toNat - '0'.toNat) = char := by
  have hbounds := Char.isDigit_iff_toNat.mp h
  simp only [Char.reduceToNat] at hbounds ⊢
  apply Char.toNat_inj.mp
  rw [Nat.toNat_digitChar_of_lt_ten (by omega)]
  omega

theorem isPrintingASCII_of_mem_toString {n : ℤ} {c : Char} (h : c ∈ (toString n).toList) :
    isPrintingASCII c = true := by
  have hdigits : ∀ m : ℕ, ∀ d ∈ (toString (m : ℤ)).toList, isPrintingASCII d = true := by
    intro m d hd
    rw [Decimal.toList_toString] at hd
    exact isPrintingASCII_of_isDigit (Nat.isDigit_of_mem_toDigits (by decide) (by decide) hd)
  obtain ⟨m, rfl | rfl⟩ := n.eq_nat_or_neg
  · exact hdigits m c h
  · rw [Int.toString_eq_repr, Int.repr_eq_if] at h
    split at h
    next =>
      apply hdigits (-(m : ℤ)).toNat
      rwa [Decimal.toString_natCast]
    next =>
      rw [String.toList_append, List.mem_append] at h
      rcases h with hsign | h
      · obtain rfl : c = '-' := by simpa using hsign
        decide
      · apply hdigits (-(-(m : ℤ))).toNat
        rwa [Decimal.toString_natCast]

/-- A printed number is made of characters of one scalar each. -/
theorem characters_toString [Unicode] (n : ℤ) :
    characters (toString n) = (toString n).toList.map .single :=
  characters_of_ascii _ fun _ hc => isPrintingASCII_of_mem_toString hc

theorem characters_key [Unicode] (n : ℤ) :
    characters (toString n ++ "k") = (toString n).toList.map .single ++ [.single 'k'] := by
  rw [characters_of_ascii, String.toList_append, List.map_append]
  · rfl
  · intro c hc
    rw [String.toList_append, List.mem_append] at hc
    rcases hc with hc | hc
    · exact isPrintingASCII_of_mem_toString hc
    · obtain rfl : c = 'k' := by simpa using hc
      decide

/-- A digit is printed as it was read. -/
theorem characters_toString_of_intOfCharacter [Unicode] {char : Character} {n : ℤ}
    (h : intOfCharacter char = some n) : characters (toString n) = [char] := by
  obtain ⟨c, rfl, hdigit⟩ := Character.isDigit_eq_true_iff.mp (isDigit_of_intOfCharacter h)
  rw [intOfCharacter_single hdigit] at h
  have hbounds := Char.isDigit_iff_toNat.mp hdigit
  rw [← Option.some.inj h, characters_toString, Decimal.toList_toString_of_lt,
    digitChar_toNat_sub hdigit]
  · rfl
  · simp only [Char.reduceToNat] at hbounds ⊢
    omega

/-- The form of the keys that both parsers write. -/
def indexKey (n : ℕ) : String := toString n ++ "k"

theorem indexKey_eq (n : ℕ) : indexKey n = toString (n : ℤ) ++ "k" := by
  rw [indexKey, Decimal.toString_natCast, Nat.toString_eq_repr]

theorem indexKey_injective : Function.Injective indexKey := by
  intro m n h
  rw [indexKey_eq, indexKey_eq] at h
  exact Int.ofNat_inj.mp (Decimal.toString_append_injective "k" h)

/-- The decoder takes the leading digit for the number. -/
theorem head_indexKey [Unicode] (n : ℕ) : ∃ char, (characters (indexKey n)).head? = some char ∧
    intOfCharacter char = some (Decimal.leadingDigit n : ℤ) := by
  refine ⟨.single (Nat.digitChar (Decimal.leadingDigit n)), ?_,
    intOfCharacter_digitChar _ (Decimal.leadingDigit_lt n)⟩
  rw [indexKey_eq, characters_key, Decimal.toList_toString, List.head?_append, List.head?_map,
    Decimal.head_toDigits]
  rfl

theorem startsWithDigit_indexKey [Unicode] (n : ℕ) : StartsWithDigit (indexKey n) := by
  obtain ⟨char, hchar, hnumber⟩ := head_indexKey n
  exact ⟨char, hchar, isDigit_of_intOfCharacter hnumber⟩

theorem startsWithDigit_of_nonneg [Unicode] {n : ℤ} (h : 0 ≤ n) :
    StartsWithDigit (toString n ++ "k") := by
  obtain ⟨m, rfl⟩ := Int.eq_ofNat_of_zero_le h
  rw [← indexKey_eq]
  exact startsWithDigit_indexKey m

theorem intOfCharacter_head [Unicode] {n : ℤ} (h₀ : 0 ≤ n) (h₉ : n ≤ 9) :
    ∃ char, (characters (toString n ++ "k")).head? = some char ∧ intOfCharacter char = some n := by
  obtain ⟨m, rfl⟩ := Int.eq_ofNat_of_zero_le h₀
  have hhead := head_indexKey m
  rwa [Decimal.leadingDigit_of_lt (by omega), indexKey_eq] at hhead

/-- The first character of the key is read as the number. -/
def KeyReads [Unicode] (number : ℤ) (k : String) : Prop :=
  ∃ char, (characters k).head? = some char ∧ intOfCharacter char = some number

theorem keyReads_iff [Unicode] {k : String} {n : ℤ} (number : ℤ) (h : KeyReads n k) :
    KeyReads number k ↔ n = number := by
  obtain ⟨char, hchar, hn⟩ := h
  constructor
  · intro hreads
    obtain ⟨char', hchar', hn'⟩ := hreads
    obtain rfl := Option.some.inj (hchar.symm.trans hchar')
    exact Option.some.inj (hn.symm.trans hn')
  · intro hnumber
    exact ⟨char, hchar, hnumber ▸ hn⟩

theorem keyReads_toString_iff [Unicode] {n : ℤ} (h₀ : 0 ≤ n) (h₉ : n ≤ 9) (number : ℤ) :
    KeyReads number (toString n ++ "k") ↔ n = number :=
  keyReads_iff number (intOfCharacter_head h₀ h₉)

end Studkurator
