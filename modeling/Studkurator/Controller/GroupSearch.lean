import Studkurator.Controller.GroupVC
import Studkurator.Library.KeyedSort

/-!
# The search of the student table

A query is split into its digits and what remains without the ignored characters. Each
digit collects the students whose number has it, the rest collects those whose name has
it, and `sort` puts the students found in the order of their numbers.
-/

namespace Studkurator.GroupVC

open Dictionary

set_option autoImplicit false

variable {lower : Char → List Char} {dataBase dataBase' : List Student} {text text' : String}

def digitsOf [Unicode] (text : String) : List Character :=
  (characters text).filter Character.isDigit

def remaining [Unicode] (text : String) : List Character :=
  (characters text).filter fun char => !char.isDigit && decide (char ∉ ignored)

theorem splitQuery_eq [Unicode] (text : String) :
    splitQuery text = (textOf (digitsOf text), textOf (remaining text)) := by
  unfold splitQuery digitsOf remaining
  induction characters text using List.reverseRecOn with
  | nil => rfl
  | append_singleton line char ih =>
    rw [List.foldl_append, ih, List.filter_append, List.filter_append, textOf_append,
      textOf_append, List.foldl_cons, List.foldl_nil]
    simp only [isSome_intOfCharacter]
    have hempty : textOf [] = "" := rfl
    cases hdigit : char.isDigit with
    | true => simp [hdigit, hempty]
    | false =>
      by_cases hignored : char ∈ ignored
      · simp [hdigit, hignored, hempty]
      · simp [hdigit, hignored, hempty]

theorem characters_digitsOf [Unicode] (text : String) :
    characters (textOf (digitsOf text)) = digitsOf text :=
  characters_textOf_digits fun _ hchar => (List.mem_filter.mp hchar).2

/-- A character of the printed number. -/
def InNumber [Unicode] (char : Character) (student : Student) : Prop :=
  char ∈ characters (toString student.number)

instance [Unicode] (char : Character) (student : Student) : Decidable (InNumber char student) :=
  inferInstanceAs (Decidable (_ ∈ _))

/-- What is left of the query occurs in the name; nothing occurs nowhere. -/
def nameMatches [Unicode] (lower : Char → List Char) (text : String) (student : Student) : Bool :=
  contains (lowercased lower student.fullName) (lowercased lower (textOf (remaining text)))

theorem matchesOfDigit_eq [Unicode] {char : Character} (h : char.isDigit = true) :
    matchesOfDigit dataBase char = some (dataBase.filter fun student => InNumber char student) := by
  obtain ⟨n, hn⟩ := Option.isSome_iff_exists.mp (intOfCharacter_isSome h)
  have htext := characters_toString_of_intOfCharacter hn
  have hne : toString n ≠ "" := by
    intro hempty
    rw [hempty, characters_empty] at htext
    cases htext
  simp only [matchesOfDigit, hn, Option.bind_eq_bind, Option.bind_some, Option.pure_def,
    contains, htext, List.singleton_infix_iff, ne_eq, hne, not_false_eq_true, decide_true,
    Bool.true_and, InNumber]
  rfl

/-- The students that the two loops find, once for each match. -/
def collected [Unicode] (lower : Char → List Char) (dataBase : List Student) (text : String) :
    List Student :=
  if digitsOf text = [] ∧ remaining text = [] then dataBase
  else (digitsOf text).flatMap (fun char => dataBase.filter fun student => InNumber char student)
    ++ dataBase.filter (nameMatches lower text)

theorem collect_eq [Unicode] (lower : Char → List Char) (dataBase : List Student) (text : String) :
    collect lower dataBase text = some (collected lower dataBase text) := by
  have hdigits : (digitsOf text).mapM (matchesOfDigit dataBase) =
      some ((digitsOf text).map fun char =>
        dataBase.filter fun student => InNumber char student) := by
    have hchar : ∀ char ∈ digitsOf text, matchesOfDigit dataBase char =
        some (dataBase.filter fun student => InNumber char student) :=
      fun char hmem => matchesOfDigit_eq (List.mem_filter.mp hmem).2
    rw [mapM_eq_some_iff]
    constructor
    · intro char hmem
      simp [hchar char hmem]
    · rw [List.filterMap_congr hchar, List.filterMap_eq_map']
  unfold collect collected
  split
  next hempty =>
    subst hempty
    simp [digitsOf, remaining, characters_empty]
  next =>
    simp only [splitQuery_eq, characters_digitsOf, hdigits, Option.bind_eq_bind, Option.bind_some,
      List.length_eq_zero_iff, characters_eq_nil_iff, textOf_eq_empty_iff,
      and_comm (a := remaining text = [])]
    split
    · rfl
    · rw [List.flatMap_def]
      rfl

theorem sort_eq (filteredResults : List Student) :
    sort filteredResults = sortByKey Student.number filteredResults := rfl

/-- `sort` keeps one student for each number, as often as the number occurs. -/
theorem sort_exact (filteredResults : List Student) :
    ∃ sorted, sort filteredResults = some sorted ∧
      sorted.length = filteredResults.length ∧
      sorted.Pairwise (fun s t => s.number ≤ t.number) ∧
      (sorted.map Student.number).Perm (filteredResults.map Student.number) ∧
      (∀ s ∈ sorted, s ∈ filteredResults) ∧
      (sorted.Perm filteredResults ↔
        ∀ s ∈ filteredResults, ∀ t ∈ filteredResults, s.number = t.number → s = t) ∧
      sort sorted = some sorted := by
  obtain ⟨sorted, hsorted⟩ := exists_sortByKey Student.number filteredResults
  refine ⟨sorted, hsorted, ?_, ?_, ?_, ?_, ?_, ?_⟩
  · exact length_of_sortByKey _ hsorted
  · exact pairwise_of_sortByKey _ hsorted
  · exact perm_map_key_of_sortByKey _ hsorted
  · exact fun s hs => mem_of_sortByKey _ hsorted hs
  · exact perm_iff_determined hsorted
  · exact sortByKey_sortByKey hsorted

/-- The search never traps. -/
theorem exists_updateSearchResults [Unicode] (lower : Char → List Char) (vc : GroupVC)
    (text : String) :
    ∃ filteredResults,
      sortByKey Student.number (collected lower vc.dataBase text) = some filteredResults ∧
      updateSearchResults lower vc text = some { vc with filteredResults := filteredResults } := by
  obtain ⟨filteredResults, hsorted⟩ :=
    exists_sortByKey Student.number (collected lower vc.dataBase text)
  refine ⟨filteredResults, hsorted, ?_⟩
  simp only [updateSearchResults, collect_eq, sort_eq, hsorted, Option.bind_eq_bind,
    Option.bind_some, Option.pure_def]

/-- The query is empty or has only characters that the search ignores. -/
def IgnoredOnly [Unicode] (text : String) : Prop := ∀ char ∈ characters text, char ∈ ignored

theorem ignoredOnly_iff [Unicode] : IgnoredOnly text ↔ digitsOf text = [] ∧ remaining text =
    [] := by
  have hdigit : ∀ char ∈ ignored, char.isDigit = false := by decide
  simp only [digitsOf, remaining, List.filter_eq_nil_iff]
  constructor
  · intro h
    constructor
    · intro char hchar
      simp [hdigit char (h char hchar)]
    · intro char hchar
      simp [h char hchar]
  · intro h char hchar
    have hdigits := h.1 char hchar
    have hremaining := h.2 char hchar
    simp_all

theorem mem_collected_iff [Unicode] (s : Student) :
    s ∈ collected lower dataBase text ↔ s ∈ dataBase ∧
      (IgnoredOnly text ∨ (∃ char ∈ digitsOf text, InNumber char s) ∨
        nameMatches lower text s = true) := by
  rw [ignoredOnly_iff, collected]
  split
  next hempty => simp [hempty]
  next hempty =>
    simp only [hempty, false_or, List.mem_append, List.mem_flatMap, List.mem_filter,
      decide_eq_true_eq]
    constructor
    · rintro (⟨char, hchar, hs, hnumber⟩ | ⟨hs, hname⟩)
      · exact ⟨hs, Or.inl ⟨char, hchar, hnumber⟩⟩
      · exact ⟨hs, Or.inr hname⟩
    · rintro ⟨hs, ⟨char, hchar, hnumber⟩ | hname⟩
      · exact Or.inl ⟨char, hchar, hs, hnumber⟩
      · exact Or.inr ⟨hs, hname⟩

theorem determined_collected [Unicode] (hnodup : (dataBase.map Student.number).Nodup)
    (lower : Char → List Char) (text : String) :
    Determined Student.number (collected lower dataBase text) :=
  (determined_of_nodup hnodup).of_subset fun _ hs => (mem_collected_iff _).mp hs |>.1

/-- The text is a contiguous part of the full name, in lower case. -/
def PartOfName [Unicode] (lower : Char → List Char) (part : String) (student : Student) : Prop :=
  characters (lowercased lower part) <:+: characters (lowercased lower student.fullName)

instance [Unicode] (lower : Char → List Char) (part : String) (student : Student) :
    Decidable (PartOfName lower part student) :=
  inferInstanceAs (Decidable (_ <:+: _))

/-- No scalar loses everything when it is put into lower case. -/
theorem lowercased_eq_empty_iff (hlower : ∀ c, lower c ≠ []) :
    lowercased lower text = "" ↔ text = "" := by
  rw [lowercased, String.ofList_eq_empty_iff, List.flatMap_eq_nil_iff,
    ← String.toList_eq_nil_iff, List.eq_nil_iff_forall_not_mem]
  simp [hlower]

theorem nameMatches_iff [Unicode] (hlower : ∀ c, lower c ≠ []) (s : Student) :
    nameMatches lower text s = true ↔
      remaining text ≠ [] ∧ PartOfName lower (textOf (remaining text)) s := by
  simp only [nameMatches, contains, PartOfName, Bool.and_eq_true, decide_eq_true_eq, ne_eq,
    lowercased_eq_empty_iff hlower, textOf_eq_empty_iff]

/-- What the search is for: a digit of the number, or a part of the name. -/
def Found [Unicode] (lower : Char → List Char) (text : String) (student : Student) : Prop :=
  IgnoredOnly text ∨
    (∃ char ∈ characters text, char.isDigit = true ∧ InNumber char student) ∨
    (remaining text ≠ [] ∧ PartOfName lower (textOf (remaining text)) student)

theorem mem_collected_iff_found [Unicode] (hlower : ∀ c, lower c ≠ []) (s : Student) :
    s ∈ collected lower dataBase text ↔ s ∈ dataBase ∧ Found lower text s := by
  rw [mem_collected_iff, nameMatches_iff hlower, Found]
  simp only [digitsOf, List.mem_filter, and_assoc]

theorem search_sound_complete_ordered [Unicode] (hlower : ∀ c, lower c ≠ []) (vc : GroupVC)
    (hnodup : (vc.dataBase.map Student.number).Nodup) (text : String) :
    ∃ filteredResults,
      updateSearchResults lower vc text = some { vc with filteredResults := filteredResults } ∧
      filteredResults.Pairwise (fun s t => s.number ≤ t.number) ∧
      ∀ s, s ∈ filteredResults ↔ s ∈ vc.dataBase ∧ Found lower text s := by
  obtain ⟨filteredResults, hsorted, hsearch⟩ := exists_updateSearchResults lower vc text
  have hperm := (determined_collected hnodup lower text).perm_of_sortByKey hsorted
  refine ⟨filteredResults, hsearch, pairwise_of_sortByKey Student.number hsorted, ?_⟩
  intro s
  rw [hperm.mem_iff, mem_collected_iff_found hlower]

theorem search_sound_complete_ordered_pair : ∃ filteredResults,
    updateSearchResults latinLower
        ⟨[sampleStudent "Olena" 12, sampleStudent "Ivan" 1], []⟩ "2, iv" =
      some ⟨[sampleStudent "Olena" 12, sampleStudent "Ivan" 1], filteredResults⟩ ∧
    filteredResults.Pairwise (fun s t => s.number ≤ t.number) ∧
    ∀ s, s ∈ filteredResults ↔ s ∈ [sampleStudent "Olena" 12, sampleStudent "Ivan" 1] ∧
      Found latinLower "2, iv" s :=
  search_sound_complete_ordered latinLower_ne_nil
    ⟨[sampleStudent "Olena" 12, sampleStudent "Ivan" 1], []⟩
    (by decide) "2, iv"

/-- How often the loops find a student: once for each digit of the query that the number
has, and once for the name. -/
def hits [Unicode] (lower : Char → List Char) (text : String) (student : Student) : ℕ :=
  (digitsOf text).countP (fun char => InNumber char student) +
    (if nameMatches lower text student then 1 else 0)

theorem count_filter_of_nodup {α : Type*} [DecidableEq α] {l : List α} (h : l.Nodup) {a : α}
    (ha : a ∈ l) (p : α → Bool) : (l.filter p).count a = if p a then 1 else 0 := by
  split
  next hp => rw [List.count_filter hp, List.count_eq_one_of_mem h ha]
  next hp =>
    apply List.count_eq_zero_of_not_mem
    intro hmem
    exact hp (List.mem_filter.mp hmem).2

theorem count_flatMap_filter {α β : Type*} [DecidableEq α] {l : List α} (h : l.Nodup) {a : α}
    (ha : a ∈ l) (p : β → α → Bool) (chars : List β) :
    (chars.flatMap fun char => l.filter (p char)).count a = chars.countP fun char => p char a := by
  induction chars with
  | nil => rfl
  | cons char chars ih =>
    rw [List.flatMap_cons, List.count_append, count_filter_of_nodup h ha, ih, List.countP_cons]
    omega

theorem count_collected [Unicode] (hnodup : dataBase.Nodup) (hquery : ¬ IgnoredOnly text)
    {s : Student}
    (hs : s ∈ dataBase) : (collected lower dataBase text).count s = hits lower text s := by
  rw [ignoredOnly_iff] at hquery
  rw [collected, if_neg hquery, List.count_append, count_flatMap_filter hnodup hs,
    count_filter_of_nodup hnodup hs, hits]

/-- No student is collected twice exactly when none has two matches. -/
theorem nodup_collected_iff [Unicode] (hnodup : dataBase.Nodup) :
    (collected lower dataBase text).Nodup ↔ ∀ s ∈ dataBase, hits lower text s ≤ 1 := by
  by_cases hquery : IgnoredOnly text
  · have hempty := ignoredOnly_iff.mp hquery
    rw [collected, if_pos hempty]
    refine ⟨fun _ s _ => ?_, fun _ => hnodup⟩
    rw [hits, hempty.1, List.countP_nil]
    split <;> omega
  · rw [List.nodup_iff_count_le_one]
    constructor
    · intro h s hs
      rw [← count_collected hnodup hquery hs]
      exact h s
    · intro h s
      by_cases hs : s ∈ dataBase
      · rw [count_collected hnodup hquery hs]
        exact h s hs
      · rw [List.count_eq_zero_of_not_mem fun hmem => hs ((mem_collected_iff s).mp hmem).1]
        omega

theorem shown_once_iff_of_search [Unicode] {vc vc' : GroupVC}
    (hnodup : (vc.dataBase.map Student.number).Nodup)
    (h : updateSearchResults lower vc text = some vc') :
    (vc'.filteredResults.Nodup ∧ numberOfRowsInSection vc' ≤ vc'.dataBase.length) ↔
      ∀ s ∈ vc.dataBase, hits lower text s ≤ 1 := by
  obtain ⟨filteredResults, hsorted, hsearch⟩ := exists_updateSearchResults lower vc text
  rw [h] at hsearch
  cases hsearch
  have hperm := (determined_collected hnodup lower text).perm_of_sortByKey hsorted
  rw [← nodup_collected_iff (.of_map _ hnodup), ← hperm.nodup_iff]
  refine ⟨And.left, fun hrows => ⟨hrows, ?_⟩⟩
  apply hrows.length_le_of_subset
  intro s hs
  exact ((mem_collected_iff s).mp (hperm.mem_iff.mp hs)).1

/-- The table shows nobody twice exactly when no student has two matches. -/
theorem shown_once_iff [Unicode] (lower : Char → List Char) (vc : GroupVC)
    (hnodup : (vc.dataBase.map Student.number).Nodup) (text : String) :
    ∃ vc', updateSearchResults lower vc text = some vc' ∧ vc'.dataBase = vc.dataBase ∧
      ((vc'.filteredResults.Nodup ∧ numberOfRowsInSection vc' ≤ vc'.dataBase.length) ↔
        ∀ s ∈ vc.dataBase, hits lower text s ≤ 1) := by
  obtain ⟨filteredResults, -, hsearch⟩ := exists_updateSearchResults lower vc text
  exact ⟨_, hsearch, rfl, shown_once_iff_of_search hnodup hsearch⟩

theorem shown_once_iff_pair :
    ∃ vc', updateSearchResults latinLower
        ⟨[sampleStudent "Olena" 12, sampleStudent "Ivan" 1], []⟩ "2" = some vc' ∧
      vc'.dataBase = [sampleStudent "Olena" 12, sampleStudent "Ivan" 1] ∧
      ((vc'.filteredResults.Nodup ∧ numberOfRowsInSection vc' ≤ vc'.dataBase.length) ↔
        ∀ s ∈ [sampleStudent "Olena" 12, sampleStudent "Ivan" 1],
          hits latinLower "2" s ≤ 1) :=
  shown_once_iff _ ⟨[sampleStudent "Olena" 12, sampleStudent "Ivan" 1], []⟩ (by decide) "2"

/-- The query `11` finds number 1 twice. -/
theorem not_shown_once : ¬ ∀ (lower : Char → List Char) (vc vc' : GroupVC) (text : String),
    (vc.dataBase.map Student.number).Nodup → updateSearchResults lower vc text = some vc' →
    vc'.filteredResults.Nodup ∧ numberOfRowsInSection vc' ≤ vc'.dataBase.length := by
  intro h
  have hnodup : ([sampleStudent "Ivan" 1].map Student.number).Nodup := by decide
  obtain ⟨filteredResults, -, hsearch⟩ :=
    exists_updateSearchResults latinLower ⟨[sampleStudent "Ivan" 1], []⟩ "11"
  have honce := (shown_once_iff_of_search hnodup hsearch).mp (h _ _ _ _ hnodup hsearch)
  have hhits := honce (sampleStudent "Ivan" 1) List.mem_cons_self
  revert hhits
  decide

theorem found_iff_of_no_digits [Unicode] {query : String} (s : Student)
    (hdigits : ∀ char ∈ characters query, char.isDigit = false) :
    Found lower query s ↔ PartOfName lower (textOf (remaining query)) s := by
  have hnone : digitsOf query = [] := by simpa [digitsOf] using hdigits
  have hnot : ¬ ∃ char ∈ characters query, char.isDigit = true ∧ InNumber char s := by
    rintro ⟨char, hchar, hdigit, -⟩
    rw [hdigits char hchar] at hdigit
    cases hdigit
  rw [Found, ignoredOnly_iff, hnone]
  by_cases hempty : remaining query = []
  · simp [hempty, PartOfName, textOf, lowercased, characters_empty]
  · simp [hempty, hnot]

/-- A student is found by a query without digits exactly when the query is still a part of
the name after the ignored characters are dropped from it. -/
theorem found_by_part_iff [Unicode] (hlower : ∀ c, lower c ≠ []) (vc : GroupVC)
    (hnodup : (vc.dataBase.map Student.number).Nodup) {s : Student} (hs : s ∈ vc.dataBase)
    {query : String} (hdigits : ∀ char ∈ characters query, char.isDigit = false) :
    ∃ filteredResults,
      updateSearchResults lower vc query = some { vc with filteredResults := filteredResults } ∧
      (s ∈ filteredResults ↔ PartOfName lower (textOf (remaining query)) s) := by
  obtain ⟨filteredResults, hsorted, hsearch⟩ := exists_updateSearchResults lower vc query
  have hperm := (determined_collected hnodup lower query).perm_of_sortByKey hsorted
  refine ⟨filteredResults, hsearch, ?_⟩
  rw [hperm.mem_iff, mem_collected_iff_found hlower, found_iff_of_no_digits s hdigits]
  exact and_iff_right hs

theorem found_by_part_iff_first_name : ∃ filteredResults,
    updateSearchResults latinLower
        ⟨[sampleStudent "Olena" 2, sampleStudent "Ivan Franko" 1], []⟩ "fraNK" =
      some ⟨[sampleStudent "Olena" 2, sampleStudent "Ivan Franko" 1], filteredResults⟩ ∧
    (sampleStudent "Ivan Franko" 1 ∈ filteredResults ↔
      PartOfName latinLower (textOf (remaining "fraNK")) (sampleStudent "Ivan Franko" 1)) :=
  found_by_part_iff latinLower_ne_nil
    ⟨[sampleStudent "Olena" 2, sampleStudent "Ivan Franko" 1], []⟩ (by decide) (by decide)
    (by decide)

/-- The space is dropped from the query but not from the name. -/
theorem not_found_by_part : ¬ ∀ (lower : Char → List Char) (vc vc' : GroupVC) (s : Student)
    (query : String), (∀ c, lower c ≠ []) → (vc.dataBase.map Student.number).Nodup →
    s ∈ vc.dataBase → query ≠ "" → (∀ char ∈ characters query, char.isDigit = false) →
    PartOfName lower query s → updateSearchResults lower vc query = some vc' →
    s ∈ vc'.filteredResults := by
  intro h
  have hnodup : ([sampleStudent "Ivan Franko" 1].map Student.number).Nodup := by decide
  obtain ⟨filteredResults, hsorted, hsearch⟩ := exists_updateSearchResults latinLower
    ⟨[sampleStudent "Ivan Franko" 1], []⟩ "Ivan F"
  have hperm := (determined_collected hnodup latinLower "Ivan F").perm_of_sortByKey hsorted
  have hdigits : ∀ char ∈ characters "Ivan F", char.isDigit = false := by decide
  have hfound := h _ _ _ (sampleStudent "Ivan Franko" 1) _ latinLower_ne_nil hnodup
    List.mem_cons_self (by decide) hdigits (by decide) hsearch
  have hcollected := (mem_collected_iff_found latinLower_ne_nil _).mp (hperm.mem_iff.mp hfound)
  have hpart := (found_iff_of_no_digits _ hdigits).mp hcollected.2
  revert hpart
  decide

/-- The same digits, as often, and the same rest: what the search makes of a query. -/
structure SameQuery [Unicode] (text text' : String) : Prop where
  digits : (digitsOf text).Perm (digitsOf text')
  remaining : GroupVC.remaining text = GroupVC.remaining text'

theorem perm_collected [Unicode] (lower : Char → List Char) (hperm : dataBase.Perm dataBase')
    (h : SameQuery text text') :
    (collected lower dataBase text).Perm (collected lower dataBase' text') := by
  have hempty : digitsOf text = [] ↔ digitsOf text' = [] := by
    rw [← List.length_eq_zero_iff, h.digits.length_eq, List.length_eq_zero_iff]
  have hname : nameMatches lower text = nameMatches lower text' := by
    funext s
    rw [nameMatches, nameMatches, h.remaining]
  simp only [collected, hempty, h.remaining, hname]
  split
  · exact hperm
  · apply List.Perm.append _ (hperm.filter _)
    exact h.digits.flatMap fun char _ => hperm.filter _

/-- The result depends on neither the order of the list nor the arrangement of the query. -/
theorem search_eq_of_sameQuery [Unicode] (lower : Char → List Char) {vc vc' : GroupVC}
    (hnodup : (vc.dataBase.map Student.number).Nodup) (hperm : vc.dataBase.Perm vc'.dataBase)
    (h : SameQuery text text') :
    ∃ filteredResults,
      updateSearchResults lower vc text = some { vc with filteredResults := filteredResults } ∧
      updateSearchResults lower vc' text' =
        some { vc' with filteredResults := filteredResults } := by
  obtain ⟨filteredResults, hsorted, hsearch⟩ := exists_updateSearchResults lower vc text
  obtain ⟨filteredResults', hsorted', hsearch'⟩ := exists_updateSearchResults lower vc' text'
  have heq := (determined_collected hnodup lower text).sortByKey_eq_of_perm
    (perm_collected lower hperm h)
  have hsame : filteredResults = filteredResults' := by
    rw [hsorted, hsorted'] at heq
    exact Option.some.inj heq
  rw [← hsame] at hsearch'
  exact ⟨filteredResults, hsearch, hsearch'⟩

theorem search_eq_of_sameQuery_pair : ∃ filteredResults,
    updateSearchResults latinLower
        ⟨[sampleStudent "Olena" 12, sampleStudent "Ivan" 1], []⟩ "1v, 2" =
      some ⟨[sampleStudent "Olena" 12, sampleStudent "Ivan" 1], filteredResults⟩ ∧
    updateSearchResults latinLower
        ⟨[sampleStudent "Ivan" 1, sampleStudent "Olena" 12], []⟩ "21v" =
      some ⟨[sampleStudent "Ivan" 1, sampleStudent "Olena" 12], filteredResults⟩ :=
  @search_eq_of_sameQuery "1v, 2" "21v" _ _
    ⟨[sampleStudent "Olena" 12, sampleStudent "Ivan" 1], []⟩
    ⟨[sampleStudent "Ivan" 1, sampleStudent "Olena" 12], []⟩
    (by decide) (List.Perm.swap _ _ []) ⟨by decide, by decide⟩

end Studkurator.GroupVC
