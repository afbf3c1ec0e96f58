import Mathlib.Algebra.BigOperators.Group.List.Basic
import Mathlib.Computability.Language
import Studkurator.Library.Regex

/-!
# The language of a regular expression

The language says which words an expression stands for, without an order of attempts. The
backtracking matcher leaves a remainder only behind a word of the language, and without
possessive repetitions it leaves every such remainder.
-/

set_option autoImplicit false

namespace Regex

variable {text rest : List Char}

/-- The word is made of between `min` and `max` words of `D`. -/
def Repeats (D : Language Char) (min : ℕ) (max : Option ℕ) (word : List Char) : Prop :=
  ∃ parts : List (List Char), word = parts.flatten ∧ (∀ part ∈ parts, part ∈ D) ∧
    min ≤ parts.length ∧ ∀ most ∈ max, parts.length ≤ most

def language : Regex → Language Char
  | char accepts => {word | ∃ c, accepts c = true ∧ word = [c]}
  | seq first second => first.language * second.language
  | repeated body min max _ => {word | Repeats body.language min max word}

/-- No repetition in the expression is possessive. -/
def Greedy : Regex → Prop
  | char _ => True
  | seq first second => first.Greedy ∧ second.Greedy
  | repeated body _ _ mode => body.Greedy ∧ mode = .greedy

theorem exists_chars_of_parts {accepts : Char → Bool} {parts : List (List Char)}
    (h : ∀ part ∈ parts, part ∈ (char accepts).language) :
    (∀ c ∈ parts.flatten, accepts c = true) ∧ parts.flatten.length = parts.length := by
  induction parts with
  | nil => simp
  | cons part parts ih =>
    obtain ⟨c, hc, rfl⟩ := h part List.mem_cons_self
    obtain ⟨haccepts, hlength⟩ := ih fun p hp => h p (List.mem_cons_of_mem _ hp)
    constructor
    · simpa [hc] using haccepts
    · simp [hlength]

/-- The words of a repeated character class, whatever the mode. -/
theorem mem_language_repeated_char {accepts : Char → Bool} {min : ℕ} {max : Option ℕ}
    {mode : Repetition} {word : List Char} :
    word ∈ (repeated (char accepts) min max mode).language ↔
      (∀ c ∈ word, accepts c = true) ∧ min ≤ word.length ∧ ∀ most ∈ max, word.length ≤ most := by
  constructor
  · rintro ⟨parts, rfl, hparts, hmin, hmost⟩
    obtain ⟨haccepts, hlength⟩ := exists_chars_of_parts hparts
    rw [hlength]
    exact ⟨haccepts, hmin, hmost⟩
  · rintro ⟨haccepts, hmin, hmost⟩
    refine ⟨word.map fun c => [c], ?_, ?_, by simpa using hmin, by simpa using hmost⟩
    · exact (List.flatMap_singleton' word).symm
    · intro part hpart
      obtain ⟨c, hc, rfl⟩ := List.mem_map.mp hpart
      exact ⟨c, haccepts c hc, rfl⟩

section rounds
variable {once : List Char → List (List Char)} {D : Language Char}

theorem Repeats.cons {min : ℕ} {max : Option ℕ} {part word : List Char} (hmax : max ≠ some 0)
    (hpart : part ∈ D) (h : Repeats D (min - 1) (max.map (· - 1)) word) :
    Repeats D min max (part ++ word) := by
  obtain ⟨parts, rfl, hparts, hmin, hmost⟩ := h
  refine ⟨part :: parts, rfl, by simpa using ⟨hpart, hparts⟩, ?_, ?_⟩
  · rw [List.length_cons]
    omega
  · intro most hmem
    have hle := hmost (most - 1) (by simpa using ⟨most, hmem, rfl⟩)
    have hpos : most ≠ 0 := by
      rintro rfl
      exact hmax hmem
    rw [List.length_cons]
    omega

theorem repeats_of_mem_rounds
    (honce : ∀ text rest, rest ∈ once text → ∃ word, text = word ++ rest ∧ word ∈ D)
    {fuel min : ℕ} {max : Option ℕ} (h : rest ∈ rounds once fuel min max text) :
    ∃ word, text = word ++ rest ∧ Repeats D min max word := by
  induction fuel generalizing min max text with
  | zero =>
    simp only [rounds, List.mem_ite_nil_right, List.mem_singleton] at h
    obtain ⟨rfl, rfl⟩ := h
    exact ⟨[], rfl, [], rfl, by simp, le_rfl, by simp⟩
  | succ fuel ih =>
    simp only [rounds, List.mem_append, List.mem_ite_nil_left, List.mem_ite_nil_right,
      List.mem_flatMap, List.mem_singleton] at h
    rcases h with ⟨hmax, between, hbetween, -, hrest⟩ | ⟨rfl, rfl⟩
    · obtain ⟨part, rfl, hpart⟩ := honce text between hbetween
      obtain ⟨word, rfl, hword⟩ := ih hrest
      exact ⟨part ++ word, by simp, hword.cons hmax hpart⟩
    · exact ⟨[], rfl, [], rfl, by simp, le_rfl, by simp⟩

/-- The matcher finds every sequence of words whose surplus words consume something. -/
theorem mem_rounds_of_parts
    (honce : ∀ text rest word, text = word ++ rest → word ∈ D → rest ∈ once text)
    {fuel min : ℕ} {max : Option ℕ} {parts : List (List Char)} (hfuel : parts.length ≤ fuel)
    (hparts : ∀ part ∈ parts, part ∈ D) (hmin : min ≤ parts.length)
    (hmost : ∀ most ∈ max, parts.length ≤ most) (hsurplus : ∀ part ∈ parts.drop min, part ≠ []) :
    rest ∈ rounds once fuel min max (parts.flatten ++ rest) := by
  induction parts generalizing fuel min max with
  | nil =>
    obtain rfl : min = 0 := by simpa using hmin
    cases fuel <;> simp [rounds]
  | cons part parts ih =>
    obtain _ | fuel := fuel
    · simp at hfuel
    rw [List.length_cons] at hfuel hmin
    have hmax : max ≠ some 0 := by
      rintro rfl
      simpa using hmost 0 rfl
    have hpart : parts.flatten ++ rest ∈ once ((part :: parts).flatten ++ rest) :=
      honce _ _ part (by simp) (hparts part List.mem_cons_self)
    have hconsumes : ¬ (min = 0 ∧
        (parts.flatten ++ rest).length = ((part :: parts).flatten ++ rest).length) := by
      rintro ⟨rfl, hlength⟩
      have hne : part ≠ [] := hsurplus part List.mem_cons_self
      have hpos := List.length_pos_iff.mpr hne
      simp only [List.flatten_cons, List.length_append] at hlength
      omega
    have hrest : rest ∈ rounds once fuel (min - 1) (max.map (· - 1)) (parts.flatten ++ rest) := by
      apply ih (by omega) (fun p hp => hparts p (List.mem_cons_of_mem part hp)) (by omega)
      · intro most hmem
        obtain ⟨bound, hbound, rfl⟩ := Option.map_eq_some_iff.mp hmem
        have hle := hmost bound hbound
        rw [List.length_cons] at hle
        omega
      · obtain _ | min := min
        · exact fun p hp => hsurplus p (List.mem_cons_of_mem part (List.mem_of_mem_drop hp))
        · exact hsurplus
    simp only [rounds, List.mem_append, List.mem_ite_nil_left, List.mem_flatMap]
    exact Or.inl ⟨hmax, _, hpart, hconsumes, hrest⟩

/-- Empty words beyond the required ones can be left out. -/
theorem Repeats.exists_surplus {min : ℕ} {max : Option ℕ} {word : List Char}
    (h : Repeats D min max word) : ∃ parts : List (List Char), word = parts.flatten ∧
      (∀ part ∈ parts, part ∈ D) ∧ min ≤ parts.length ∧ (∀ most ∈ max, parts.length ≤ most) ∧
      (∀ part ∈ parts.drop min, part ≠ []) ∧ parts.length ≤ min + word.length := by
  obtain ⟨parts, rfl, hparts, hmin, hmost⟩ := h
  have hrequired : (parts.take min).length = min := by simpa using hmin
  have hsplit : parts.flatten = (parts.take min).flatten ++ (parts.drop min).flatten := by
    rw [← List.flatten_append, List.take_append_drop]
  have hkept : ((parts.drop min).filter (· ≠ [])).length ≤ (parts.drop min).flatten.length := by
    rw [← List.flatten_filter_ne_nil, List.length_flatten, ← List.length_map List.length]
    apply List.length_le_sum_of_one_le
    intro n hn
    obtain ⟨part, hpart, rfl⟩ := List.mem_map.mp hn
    exact List.length_pos_iff.mpr (by simpa using (List.mem_filter.mp hpart).2)
  have hfewer := List.length_filter_le (· ≠ []) (parts.drop min)
  rw [List.length_drop] at hfewer
  refine ⟨parts.take min ++ (parts.drop min).filter (· ≠ []), ?_, ?_, ?_, ?_, ?_, ?_⟩
  · rw [List.flatten_append, List.flatten_filter_ne_nil, hsplit]
  · intro part hpart
    rcases List.mem_append.mp hpart with hpart | hpart
    · exact hparts part (List.mem_of_mem_take hpart)
    · exact hparts part (List.mem_of_mem_drop (List.mem_of_mem_filter hpart))
  · rw [List.length_append, hrequired]
    omega
  · intro most hmem
    have hle := hmost most hmem
    rw [List.length_append, hrequired]
    omega
  · intro part hpart
    rw [List.drop_append_of_le_length hrequired.ge, List.drop_of_length_le hrequired.le,
      List.nil_append] at hpart
    simpa using (List.mem_filter.mp hpart).2
  · rw [List.length_append, hrequired, hsplit, List.length_append]
    omega

theorem mem_rounds_iff
    (honce : ∀ text rest, rest ∈ once text ↔ ∃ word, text = word ++ rest ∧ word ∈ D)
    {min : ℕ} {max : Option ℕ} :
    rest ∈ rounds once (min + text.length) min max text ↔
      ∃ word, text = word ++ rest ∧ Repeats D min max word := by
  constructor
  · exact repeats_of_mem_rounds fun text rest => (honce text rest).mp
  · rintro ⟨word, rfl, hword⟩
    obtain ⟨parts, rfl, hparts, hmin, hmost, hsurplus, hlength⟩ := hword.exists_surplus
    apply mem_rounds_of_parts _ _ hparts hmin hmost hsurplus
    · exact fun text rest word htext hword => (honce text rest).mpr ⟨word, htext, hword⟩
    · rw [List.length_append]
      omega

end rounds

/-- Whatever the matcher takes is a word of the language. -/
theorem exists_word_of_mem_rests {pattern : Regex} (h : rest ∈ pattern.rests text) :
    ∃ word, text = word ++ rest ∧ word ∈ pattern.language := by
  induction pattern generalizing text rest with
  | char accepts =>
    obtain ⟨c, hc, rfl⟩ := mem_rests_char.mp h
    exact ⟨[c], rfl, c, hc, rfl⟩
  | seq first second ihFirst ihSecond =>
    obtain ⟨between, hbetween, hrest⟩ := mem_rests_seq.mp h
    obtain ⟨u, rfl, hu⟩ := ihFirst hbetween
    obtain ⟨v, rfl, hv⟩ := ihSecond hrest
    exact ⟨u ++ v, by simp, Language.mem_mul.mpr ⟨u, hu, v, hv, rfl⟩⟩
  | repeated body min max mode ih =>
    have hrounds : rest ∈ rounds (rests body) (min + text.length) min max text := by
      cases mode with
      | greedy => exact h
      | possessive => exact List.mem_of_mem_take h
    exact repeats_of_mem_rounds (fun _ _ => ih) hrounds

/-- Without possessive repetitions the matcher can take every word of the language. -/
theorem mem_rests_iff_of_greedy {pattern : Regex} (hgreedy : pattern.Greedy) :
    rest ∈ pattern.rests text ↔ ∃ word, text = word ++ rest ∧ word ∈ pattern.language := by
  refine ⟨exists_word_of_mem_rests, ?_⟩
  induction pattern generalizing text rest with
  | char accepts =>
    rintro ⟨_, rfl, c, hc, rfl⟩
    exact mem_rests_char.mpr ⟨c, hc, rfl⟩
  | seq first second ihFirst ihSecond =>
    rintro ⟨word, rfl, hword⟩
    obtain ⟨u, hu, v, hv, rfl⟩ := Language.mem_mul.mp hword
    exact mem_rests_seq.mpr ⟨v ++ rest, ihFirst hgreedy.1 ⟨u, by simp, hu⟩,
      ihSecond hgreedy.2 ⟨v, rfl, hv⟩⟩
  | repeated body min max mode ih =>
    obtain ⟨hbody, rfl⟩ := hgreedy
    intro h
    exact (mem_rounds_iff fun _ _ => ⟨exists_word_of_mem_rests, ih hbody⟩).mpr h

/-- The search finds a match exactly when some part of the text is a word. -/
theorem hasMatch_iff_of_greedy {pattern : Regex} (hgreedy : pattern.Greedy) :
    pattern.hasMatch text = true ↔ ∃ part, part <:+: text ∧ part ∈ pattern.language := by
  rw [hasMatch_iff]
  constructor
  · rintro ⟨start, suffix, rfl, rest, hrest⟩
    obtain ⟨part, rfl, hpart⟩ := (mem_rests_iff_of_greedy hgreedy).mp hrest
    exact ⟨part, ⟨start, rest, by simp⟩, hpart⟩
  · rintro ⟨part, ⟨start, rest, rfl⟩, hpart⟩
    exact ⟨start, part ++ rest, by simp, rest,
      (mem_rests_iff_of_greedy hgreedy).mpr ⟨part, rfl, hpart⟩⟩

/-- Giving characters back is of no use where the next expression cannot begin with them. -/
theorem mem_rests_seq_possessive {accepts : Char → Bool} {min : ℕ} {next : Regex}
    (hnext : ∀ c text, accepts c = true → next.rests (c :: text) = []) :
    rest ∈ (seq (repeated (char accepts) min none .possessive) next).rests text ↔
      rest ∈ (seq (repeated (char accepts) min none .greedy) next).rests text := by
  simp only [mem_rests_seq, mem_rests_possessive, mem_rests_greedy]
  constructor
  · rintro ⟨_, ⟨hmin, rfl⟩, hrest⟩
    refine ⟨_, ⟨_, List.takeWhile_append_dropWhile.symm, ?_, hmin, by simp⟩, hrest⟩
    exact fun c hc => List.all_eq_true.mp List.all_takeWhile c hc
  · rintro ⟨between, ⟨taken, rfl, htaken, hmin, -⟩, hrest⟩
    -- The whole run was taken, since the next expression does not begin inside of it.
    have hend : ∀ c ∈ between.head?, accepts c = false := by
      intro c hc
      obtain ⟨tail, rfl⟩ := List.head?_eq_some_iff.mp hc
      by_contra haccepts
      rw [hnext c tail (by simpa using haccepts)] at hrest
      simp at hrest
    have hrun : (taken ++ between).takeWhile accepts = taken := by
      rw [List.takeWhile_append_of_pos htaken]
      cases between <;> simp_all
    have hafter : (taken ++ between).dropWhile accepts = between := by
      rw [List.dropWhile_append_of_pos htaken]
      cases between <;> simp_all
    exact ⟨between, ⟨by rwa [hrun], hafter.symm⟩, hrest⟩

end Regex
