import Mathlib.Data.List.Infix

/-!
# Backtracking regular expressions

A matcher returns the remainders it can leave, in the order in which a
backtracking engine tries them; a possessive repetition keeps the first only.
-/

set_option autoImplicit false

inductive Repetition where
  | greedy
  | possessive
  deriving DecidableEq

inductive Regex where
  | char (accepts : Char → Bool)
  | seq (first second : Regex)
  | repeated (body : Regex) (min : ℕ) (max : Option ℕ) (mode : Repetition)

namespace Regex

/-- Between `min` and `max` rounds of `once`, the longest attempts first. A round beyond
the required ones has to consume something, so `fuel` rounds are enough. -/
def rounds (once : List Char → List (List Char)) :
    ℕ → ℕ → Option ℕ → List Char → List (List Char)
  | 0, min, _, text => if min = 0 then [text] else []
  | fuel + 1, min, max, text =>
    let more :=
      if max = some 0 then []
      else (once text).flatMap fun rest =>
        if min = 0 ∧ rest.length = text.length then []
        else rounds once fuel (min - 1) (max.map (· - 1)) rest
    more ++ (if min = 0 then [text] else [])

def rests : Regex → List Char → List (List Char)
  | char _, [] => []
  | char accepts, c :: text => if accepts c then [text] else []
  | seq first second, text => (rests first text).flatMap (rests second)
  | repeated body min max mode, text =>
    let all := rounds (rests body) (min + text.length) min max text
    match mode with
    | .greedy => all
    | .possessive => all.take 1

/-- A match starting at some position, as `firstMatch(in:)` finds it. -/
def hasMatch (pattern : Regex) (text : List Char) : Bool :=
  text.tails.any fun rest => !(pattern.rests rest).isEmpty

def lit (c : Char) : Regex := char fun d => d == c

theorem hasMatch_iff (pattern : Regex) (text : List Char) :
    pattern.hasMatch text = true ↔
      ∃ start rest, text = start ++ rest ∧ ∃ rest', rest' ∈ pattern.rests rest := by
  simp only [hasMatch, List.any_eq_true, List.mem_tails, Bool.not_eq_true',
    List.isEmpty_eq_false_iff_exists_mem]
  constructor
  · intro h
    obtain ⟨rest, ⟨start, rfl⟩, hrest⟩ := h
    exact ⟨start, rest, rfl, hrest⟩
  · intro h
    obtain ⟨start, rest, rfl, hrest⟩ := h
    exact ⟨rest, List.suffix_append start rest, hrest⟩

section rests

variable {accepts : Char → Bool} {text rest : List Char}

theorem mem_rests_char :
    rest ∈ (char accepts).rests text ↔ ∃ c, accepts c = true ∧ text = c :: rest := by
  cases text with
  | nil => simp [rests]
  | cons c text =>
    by_cases hc : accepts c = true
    · simp only [rests, if_pos hc, List.mem_singleton, List.cons.injEq]
      constructor
      · intro h
        exact ⟨c, hc, rfl, h.symm⟩
      · intro h
        obtain ⟨d, -, -, h⟩ := h
        exact h.symm
    · simp only [rests, if_neg hc, List.not_mem_nil, false_iff, List.cons.injEq]
      intro h
      obtain ⟨d, hd, rfl, -⟩ := h
      exact hc hd

theorem mem_rests_lit {c : Char} : rest ∈ (lit c).rests text ↔ text = c :: rest := by
  simp [lit, mem_rests_char]

theorem mem_rests_seq {first second : Regex} :
    rest ∈ (seq first second).rests text ↔
      ∃ between ∈ first.rests text, rest ∈ second.rests between := by
  simp only [rests, List.mem_flatMap]

/-- One round over a character: its successor is tried first, then the text as it stands. -/
theorem rounds_char_cons (fuel min : ℕ) (max : Option ℕ) (c : Char) (text : List Char) :
    rounds (rests (char accepts)) (fuel + 1) min max (c :: text) =
      (if max ≠ some 0 ∧ accepts c = true then
        rounds (rests (char accepts)) fuel (min - 1) (max.map (· - 1)) text else []) ++
      (if min = 0 then [c :: text] else []) := by
  have hless : ¬ (min = 0 ∧ text.length = (c :: text).length) := by
    simp
  by_cases hmax : max = some 0
  · simp [rounds, hmax]
  · by_cases hc : accepts c = true
    · rw [if_pos ⟨hmax, hc⟩]
      simp only [rounds, if_neg hmax, rests, if_pos hc, List.flatMap_singleton, if_neg hless]
    · simp [rounds, rests, hmax, hc]

theorem rounds_char_nil (fuel min : ℕ) (max : Option ℕ) :
    rounds (rests (char accepts)) fuel min max [] = if min = 0 then [[]] else [] := by
  cases fuel with
  | zero => rfl
  | succ fuel => simp [rounds, rests]

/-- Between `min` and `max` accepted characters lead from `text` to `rest`. -/
def Takes (accepts : Char → Bool) (min : ℕ) (max : Option ℕ) (text rest : List Char) : Prop :=
  ∃ taken, text = taken ++ rest ∧ (∀ c ∈ taken, accepts c = true) ∧
    min ≤ taken.length ∧ ∀ most ∈ max, taken.length ≤ most

theorem takes_nil_iff {min : ℕ} {max : Option ℕ} :
    Takes accepts min max [] rest ↔ min = 0 ∧ rest = [] := by
  constructor
  · intro h
    obtain ⟨taken, htaken, -, hmin, -⟩ := h
    obtain ⟨rfl, rfl⟩ := List.append_eq_nil_iff.mp htaken.symm
    exact ⟨by simpa using hmin, rfl⟩
  · intro h
    exact ⟨[], by simp [h.2], by simp, by simp [h.1], by simp⟩

theorem Takes.cons {min : ℕ} {max : Option ℕ} {c : Char} (hmax : max ≠ some 0)
    (hc : accepts c = true) (h : Takes accepts (min - 1) (max.map (· - 1)) text rest) :
    Takes accepts min max (c :: text) rest := by
  obtain ⟨taken, rfl, haccepts, hmin, hmost⟩ := h
  refine ⟨c :: taken, rfl, by simpa [hc] using haccepts, ?_, ?_⟩
  · rw [List.length_cons]
    omega
  · intro most hmem
    have hle := hmost (most - 1) (by simpa using ⟨most, hmem, rfl⟩)
    have hpos : most ≠ 0 := by
      intro hzero
      exact hmax (hzero ▸ hmem)
    rw [List.length_cons]
    omega

/-- A first character is taken, or nothing is. -/
theorem takes_cons_iff {min : ℕ} {max : Option ℕ} {c : Char} :
    Takes accepts min max (c :: text) rest ↔
      ((max ≠ some 0 ∧ accepts c = true) ∧
        Takes accepts (min - 1) (max.map (· - 1)) text rest) ∨
      min = 0 ∧ rest = c :: text := by
  constructor
  · intro h
    obtain ⟨_ | ⟨d, taken⟩, heq, haccepts, hmin, hmost⟩ := h
    · exact .inr ⟨by simpa using hmin, heq.symm⟩
    · obtain ⟨rfl, rfl⟩ := List.cons.inj heq
      rw [List.length_cons] at hmin
      refine .inl ⟨⟨?_, haccepts c List.mem_cons_self⟩, taken, rfl,
        fun d hd => haccepts d (List.mem_cons_of_mem c hd), by omega, ?_⟩
      · intro hmax
        exact absurd (hmost 0 hmax) (by simp)
      · intro most hmem
        obtain ⟨bound, hbound, rfl⟩ := Option.map_eq_some_iff.mp hmem
        have := hmost bound hbound
        rw [List.length_cons] at this
        omega
  · intro h
    rcases h with ⟨⟨hmax, hc⟩, h⟩ | ⟨hmin, rfl⟩
    · exact h.cons hmax hc
    · exact ⟨[], rfl, by simp, by simp [hmin], by simp⟩

theorem mem_rounds_char {fuel min : ℕ} {max : Option ℕ} (hfuel : text.length ≤ fuel) :
    rest ∈ rounds (rests (char accepts)) fuel min max text ↔
      Takes accepts min max text rest := by
  induction text generalizing fuel min max with
  | nil =>
    rw [rounds_char_nil, takes_nil_iff, List.mem_ite_nil_right, List.mem_singleton]
  | cons c text ih =>
    obtain _ | fuel := fuel
    · simp at hfuel
    rw [rounds_char_cons, takes_cons_iff, List.mem_append, List.mem_ite_nil_right,
      List.mem_ite_nil_right, List.mem_singleton, ih (by simpa using hfuel)]

/-- A greedy repetition of a character may leave any remainder within its bounds. -/
theorem mem_rests_greedy {min : ℕ} {max : Option ℕ} :
    rest ∈ (repeated (char accepts) min max .greedy).rests text ↔
      ∃ taken, text = taken ++ rest ∧ (∀ c ∈ taken, accepts c = true) ∧
        min ≤ taken.length ∧ ∀ most ∈ max, taken.length ≤ most := by
  simp only [rests]
  exact mem_rounds_char (Nat.le_add_left _ _)

theorem exists_mem_rests_greedy {min : ℕ} :
    (∃ rest, rest ∈ (repeated (char accepts) min none .greedy).rests text) ↔
      min ≤ (text.takeWhile accepts).length := by
  simp only [mem_rests_greedy]
  constructor
  · intro h
    obtain ⟨rest, taken, rfl, haccepts, hmin, -⟩ := h
    rw [List.takeWhile_append_of_pos haccepts, List.length_append]
    omega
  · intro hmin
    refine ⟨text.dropWhile accepts, text.takeWhile accepts, ?_, ?_, hmin, by simp⟩
    · exact List.takeWhile_append_dropWhile.symm
    · intro c hc
      exact List.all_eq_true.mp List.all_takeWhile c hc

theorem mem_rests_greedy_lit {c : Char} {min : ℕ} {max : Option ℕ} :
    rest ∈ (repeated (lit c) min max .greedy).rests text ↔
      ∃ taken, text = taken ++ rest ∧ (∀ d ∈ taken, d = c) ∧
        min ≤ taken.length ∧ ∀ most ∈ max, taken.length ≤ most := by
  simp only [lit, mem_rests_greedy, beq_iff_eq]

theorem head?_rounds_char {fuel min : ℕ} (hfuel : text.length ≤ fuel) :
    (rounds (rests (char accepts)) fuel min none text).head? =
      if min ≤ (text.takeWhile accepts).length then some (text.dropWhile accepts)
      else none := by
  induction text generalizing fuel min with
  | nil =>
    rw [rounds_char_nil]
    by_cases hmin : min = 0 <;> simp [hmin]
  | cons c text ih =>
    obtain _ | fuel := fuel
    · simp at hfuel
    rw [rounds_char_cons, List.head?_append]
    by_cases hc : accepts c = true
    · have hrest : (rounds (rests (char accepts)) fuel (min - 1) none text).head? = _ :=
        ih (by simpa using hfuel)
      simp only [ne_eq, reduceCtorEq, not_false_eq_true, hc, and_self, if_true, Option.map_none,
        hrest, List.takeWhile_cons_of_pos, List.dropWhile_cons_of_pos, List.length_cons]
      by_cases hmin : min ≤ (text.takeWhile accepts).length + 1
      · rw [if_pos hmin, if_pos (by omega)]
        rfl
      · rw [if_neg hmin, if_neg (by omega), if_neg (by omega)]
        rfl
    · by_cases hmin : min = 0 <;> simp [hc, hmin]

/-- A possessive repetition of a character takes the whole run and gives nothing back. -/
theorem mem_rests_possessive {min : ℕ} :
    rest ∈ (repeated (char accepts) min none .possessive).rests text ↔
      min ≤ (text.takeWhile accepts).length ∧ rest = text.dropWhile accepts := by
  have hhead : (rounds (rests (char accepts)) (min + text.length) min none text).head? = _ :=
    head?_rounds_char (Nat.le_add_left _ _)
  simp only [rests, List.take_one, hhead]
  by_cases hmin : min ≤ (text.takeWhile accepts).length <;> simp [hmin]

end rests

end Regex
