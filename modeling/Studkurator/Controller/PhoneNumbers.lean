import Studkurator.Controller.StudentForms

/-!
# What the phone test of the student forms accepts

The pattern is searched in the text and is not anchored, and its zero may repeat. A
text is accepted when an international number stands somewhere in it.
-/

namespace Studkurator

set_option autoImplicit false

/-- '+380' and nine decimal digits, nothing else. -/
def InternationalNumber (text : List Char) : Prop :=
  text.take 4 = ['+', '3', '8', '0'] ∧ (text.drop 4).length = 9 ∧
    (text.drop 4).all isDecimalDigit = true

instance : DecidablePred InternationalNumber := fun text =>
  inferInstanceAs (Decidable (text.take 4 = _ ∧ (text.drop 4).length = 9 ∧ _ = true))

namespace InternationalNumber

theorem of_digits {digits : List Char} (hlength : digits.length = 9)
    (hdigits : ∀ c ∈ digits, isDecimalDigit c = true) :
    InternationalNumber ('+' :: '3' :: '8' :: '0' :: digits) :=
  ⟨rfl, hlength, List.all_eq_true.mpr hdigits⟩

theorem exists_digits {text : List Char} (h : InternationalNumber text) :
    ∃ digits, text = '+' :: '3' :: '8' :: '0' :: digits ∧ digits.length = 9 ∧
      ∀ c ∈ digits, isDecimalDigit c = true := by
  obtain ⟨hcode, hlength, hdigits⟩ := h
  refine ⟨text.drop 4, ?_, hlength, List.all_eq_true.mp hdigits⟩
  calc text = text.take 4 ++ text.drop 4 := (List.take_append_drop 4 text).symm
    _ = '+' :: '3' :: '8' :: '0' :: text.drop 4 := by rw [hcode]; rfl

theorem length_eq {text : List Char} (h : InternationalNumber text) : text.length = 13 := by
  obtain ⟨digits, rfl, hlength, -⟩ := h.exists_digits
  simp [hlength]

/-- Further zeros after '+380' are read as the first of the nine digits. -/
theorem of_zeros {zeros digits : List Char} (hzeros : ∀ c ∈ zeros, c = '0')
    (hlength : digits.length = 9) (hdigits : ∀ c ∈ digits, isDecimalDigit c = true) :
    InternationalNumber ('+' :: '3' :: '8' :: '0' :: (zeros ++ digits).take 9) := by
  apply of_digits
  · simp [hlength]
  · intro c hc
    rcases List.mem_append.mp (List.mem_of_mem_take hc) with h | h
    · rw [hzeros c h]
      decide
    · exact hdigits c h

end InternationalNumber

theorem mem_rests_phonePattern {text rest : List Char} :
    rest ∈ phonePattern.rests text ↔
      ∃ zeros digits, text = '+' :: '3' :: '8' :: '0' :: (zeros ++ digits ++ rest) ∧
        (∀ c ∈ zeros, c = '0') ∧ digits.length = 9 ∧
        ∀ c ∈ digits, isDecimalDigit c = true := by
  simp only [phonePattern, Regex.mem_rests_seq, Regex.mem_rests_lit,
    Regex.mem_rests_greedy_lit, Regex.mem_rests_greedy]
  constructor
  · intro h
    obtain ⟨_, rfl, _, rfl, _, rfl, afterZeros, ⟨zeros, rfl, hzeros, hone, -⟩, digits, rfl,
      hdigits, hnine, hmost⟩ := h
    obtain _ | ⟨zero, zeros⟩ := zeros
    · simp at hone
    have hzero : zero = '0' := hzeros zero List.mem_cons_self
    subst hzero
    refine ⟨zeros, digits, by simp, ?_, ?_, hdigits⟩
    · intro c hc
      exact hzeros c (List.mem_cons_of_mem _ hc)
    · exact le_antisymm (hmost 9 rfl) hnine
  · intro h
    obtain ⟨zeros, digits, rfl, hzeros, hlength, hdigits⟩ := h
    refine ⟨_, rfl, _, rfl, _, rfl, digits ++ rest, ⟨'0' :: zeros, by simp, ?_, by simp, ?_⟩,
      digits, rfl, hdigits, hlength.ge, ?_⟩
    · simpa using hzeros
    · simp
    · intro most hmost
      obtain rfl := Option.some.inj hmost
      exact hlength.le

/-- The search accepts a text exactly when some part of it is an international number. -/
theorem matchesPhone_iff (text : String) :
    matchesPhone text = true ↔
      ∃ part, part <:+: text.toList ∧ InternationalNumber part := by
  rw [matchesPhone, Regex.hasMatch_iff]
  constructor
  · intro h
    obtain ⟨start, found, htext, rest, hrest⟩ := h
    obtain ⟨zeros, digits, rfl, hzeros, hlength, hdigits⟩ := mem_rests_phonePattern.mp hrest
    refine ⟨_, ?_, .of_zeros hzeros hlength hdigits⟩
    rw [htext]
    refine ⟨start, (zeros ++ digits).drop 9 ++ rest, ?_⟩
    have := List.take_append_drop 9 (zeros ++ digits)
    rw [List.append_assoc, List.cons_append, List.cons_append, List.cons_append,
      List.cons_append, ← List.append_assoc (List.take _ _), this]
  · intro h
    obtain ⟨part, ⟨start, rest, htext⟩, hpart⟩ := h
    obtain ⟨digits, rfl, hlength, hdigits⟩ := hpart.exists_digits
    refine ⟨start, _, ?_, rest, mem_rests_phonePattern.mpr ⟨[], digits, rfl, ?_, hlength, hdigits⟩⟩
    · rw [← htext, List.append_assoc]
      rfl
    · simp

/-- Both forms pass when no field is blank and each phone field has a number in it. -/
theorem StudentForm.check_iff (form : StudentForm) :
    form.check = true ↔ (∀ field ∈ form.textFieldArray, field ≠ "") ∧
      ∀ phone ∈ [form.text2, form.text6, form.text8],
        ∃ part, part <:+: phone.toList ∧ InternationalNumber part := by
  simp only [check, Bool.and_eq_true, List.all_eq_true, matchesPhone_iff, decide_eq_true_eq]

/-- The test agrees with the format exactly on the texts that hold no number as a part
of something longer. -/
theorem matchesPhone_exact_iff (text : String) :
    (matchesPhone text = true ↔ InternationalNumber text.toList) ↔
      ∀ part, part <:+: text.toList → InternationalNumber part → part = text.toList := by
  rw [matchesPhone_iff]
  constructor
  · intro hexact part hpart hnumber
    have htext : InternationalNumber text.toList := hexact.mp ⟨part, hpart, hnumber⟩
    apply hpart.eq_of_length
    rw [hnumber.length_eq, htext.length_eq]
  · intro hwhole
    constructor
    · intro h
      obtain ⟨part, hpart, hnumber⟩ := h
      rwa [← hwhole part hpart hnumber]
    · intro htext
      exact ⟨text.toList, List.infix_refl _, htext⟩

theorem matchesPhone_tenth_digit :
    ¬ (matchesPhone "+3805012345678" = true ↔
      InternationalNumber "+3805012345678".toList) := by
  decide

end Studkurator
