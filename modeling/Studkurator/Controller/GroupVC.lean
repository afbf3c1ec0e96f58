import Mathlib.Data.List.Sort
import Studkurator.Library.Transition
import Studkurator.Model.Student

/-!
# The list of students

`dataBase` keeps the order in which the dictionary was iterated, `filteredResults`
is what the table shows: searched and sorted by number. A row index comes from the
table, so it counts in `filteredResults`.
-/

namespace Studkurator

open Dictionary Transition

set_option autoImplicit false

structure GroupVC where
  dataBase : List Student
  filteredResults : List Student
  deriving DecidableEq

namespace GroupVC

/-- `sort()`: the students by number, looked up in a dictionary keyed by number. -/
def sort (filteredResults : List Student) : Option (List Student) :=
  let dict : Dict ℤ Student := encode Student.number id filteredResults
  let keyArray := (filteredResults.map Student.number).insertionSort (· ≤ ·)
  keyArray.mapM fun el => dict.lookup el

/-- The completion of `fetch`, for a snapshot that has a `groupDataBase`. -/
def fetchCompletion [Unicode] (response : List (String × Record)) : Option (Outcome GroupVC) := do
  let dataBase ← Parser.parse response
  let filteredResults ← sort dataBase
  return {
    controller := ⟨dataBase, filteredResults⟩
    cached := some (Parser.unparse dataBase)
    writes := [] }

def ignored : List Character := [' ', ',', ':', ';', '/', '?', '!', '.'].map Character.single

/-- The first loop of the search: the texts `numberLine` and `charsLine`. -/
def splitQuery [Unicode] (text : String) : String × String :=
  (characters text).foldl (fun lines char =>
    if (intOfCharacter char).isSome then (lines.1 ++ textOf [char], lines.2)
    else if char ∈ ignored then lines
    else (lines.1, lines.2 ++ textOf [char])) ("", "")

def matchesOfDigit [Unicode] (dataBase : List Student) (char : Character) :
    Option (List Student) := do
  let number ← intOfCharacter char
  return dataBase.filter fun student => contains (toString student.number) (toString number)

/-- `filteredResults` before `sort()`; a student is appended once for each match. -/
def collect [Unicode] (lower : Char → List Char) (dataBase : List Student) (text : String) :
    Option (List Student) :=
  if text = "" then some dataBase
  else do
    let (numberLine, charsLine) := splitQuery text
    let byNumber ← (characters numberLine).mapM (matchesOfDigit dataBase)
    let byName := dataBase.filter fun student =>
      contains (lowercased lower student.fullName) (lowercased lower charsLine)
    if (characters charsLine).length = 0 ∧ (characters numberLine).length = 0 then some dataBase
    else some (byNumber.flatten ++ byName)

def updateSearchResults [Unicode] (lower : Char → List Char) (vc : GroupVC) (text : String) :
    Option GroupVC := do
  let collected ← collect lower vc.dataBase text
  let filteredResults ← sort collected
  return { vc with filteredResults := filteredResults }

def numberOfRowsInSection (vc : GroupVC) : ℕ := vc.filteredResults.length

/-- `prepare(for:)` after a row was selected. -/
def didSelectRow (vc : GroupVC) (row : ℕ) : Option Student := vc.filteredResults[row]?

/-- The swipe-to-delete action; `none` is an index out of range. -/
def delete (vc : GroupVC) (row : ℕ) : Option (Outcome GroupVC) := do
  let student ← vc.dataBase[row]?
  let _ ← vc.filteredResults[row]?
  let dataBase := vc.dataBase.eraseIdx row
  return {
    controller := ⟨dataBase, vc.filteredResults.eraseIdx row⟩
    cached := some (Parser.unparse dataBase)
    writes := [.removeValue (Parser.key student)] }

theorem updateSearchResults_dataBase [Unicode] {lower : Char → List Char} {vc vc' : GroupVC}
    {text : String} (h : updateSearchResults lower vc text = some vc') :
    vc'.dataBase = vc.dataBase := by
  simp only [updateSearchResults, Option.bind_eq_bind, Option.bind_eq_some_iff,
    Option.pure_def, Option.some.injEq] at h
  obtain ⟨_, _, _, _, rfl⟩ := h
  rfl

theorem mem_of_mem_sort {collected sorted : List Student} (h : sort collected = some sorted)
    {s : Student} (hs : s ∈ sorted) : s ∈ collected := by
  obtain ⟨number, -, hlookup⟩ := (mem_iff_of_mapM h s).mp hs
  obtain ⟨t, ht, -, rfl⟩ := exists_of_lookup_encode _ _ hlookup
  exact ht

theorem mem_of_mem_matchesOfDigit [Unicode] {dataBase found : List Student} {char : Character}
    (h : matchesOfDigit dataBase char = some found) {s : Student} (hs : s ∈ found) :
    s ∈ dataBase := by
  simp only [matchesOfDigit, Option.bind_eq_bind, Option.bind_eq_some_iff, Option.pure_def,
    Option.some.injEq] at h
  obtain ⟨number, -, rfl⟩ := h
  exact (List.mem_filter.mp hs).1

theorem mem_of_mem_collect [Unicode] {lower : Char → List Char} {dataBase collected : List Student}
    {text : String} (h : collect lower dataBase text = some collected) {s : Student}
    (hs : s ∈ collected) : s ∈ dataBase := by
  unfold collect at h
  split at h
  · cases h
    exact hs
  · simp only [Option.bind_eq_bind, Option.bind_eq_some_iff] at h
    obtain ⟨byNumber, hbyNumber, h⟩ := h
    split at h
    · cases h
      exact hs
    · cases h
      rcases List.mem_append.mp hs with hs | hs
      · obtain ⟨found, hfound, hs⟩ := List.mem_flatten.mp hs
        obtain ⟨char, -, hmatch⟩ := (mem_iff_of_mapM hbyNumber found).mp hfound
        exact mem_of_mem_matchesOfDigit hmatch hs
      · exact (List.mem_filter.mp hs).1

theorem mem_dataBase_of_updateSearchResults [Unicode] {lower : Char → List Char} {vc vc' : GroupVC}
    {text : String} (h : updateSearchResults lower vc text = some vc') {s : Student}
    (hs : s ∈ vc'.filteredResults) : s ∈ vc.dataBase := by
  simp only [updateSearchResults, Option.bind_eq_bind, Option.bind_eq_some_iff,
    Option.pure_def, Option.some.injEq] at h
  obtain ⟨collected, hcollect, filteredResults, hsort, rfl⟩ := h
  exact mem_of_mem_collect hcollect (mem_of_mem_sort hsort hs)

theorem fetchCompletion_of_parse [Unicode] {response : List (String × Record)}
    {dataBase filteredResults : List Student} (hparse : Parser.parse response = some dataBase)
    (hsort : sort dataBase = some filteredResults) :
    fetchCompletion response =
      some ⟨⟨dataBase, filteredResults⟩, some (Parser.unparse dataBase), [], []⟩ := by
  simp only [fetchCompletion, hparse, hsort, Option.bind_eq_bind, Option.bind_some,
    Option.pure_def]

theorem fetchCompletion_eq_some [Unicode] {response : List (String × Record)}
    {outcome : Outcome GroupVC} (h : fetchCompletion response = some outcome) :
    Parser.parse response = some outcome.controller.dataBase ∧
      sort outcome.controller.dataBase = some outcome.controller.filteredResults ∧
      outcome.cached = some (Parser.unparse outcome.controller.dataBase) ∧
      outcome.writes = [] := by
  simp only [fetchCompletion, Option.bind_eq_bind, Option.bind_eq_some_iff,
    Option.pure_def, Option.some.injEq] at h
  obtain ⟨dataBase, hparse, filteredResults, hsort, rfl⟩ := h
  exact ⟨hparse, hsort, rfl, rfl⟩

theorem delete_eq_some_iff {vc : GroupVC} {row : ℕ} {outcome : Outcome GroupVC} :
    delete vc row = some outcome ↔ ∃ student displayed,
      vc.dataBase[row]? = some student ∧ vc.filteredResults[row]? = some displayed ∧
      outcome = {
        controller := ⟨vc.dataBase.eraseIdx row, vc.filteredResults.eraseIdx row⟩
        cached := some (Parser.unparse (vc.dataBase.eraseIdx row))
        writes := [.removeValue (Parser.key student)] } := by
  simp only [delete, Option.bind_eq_bind, Option.bind_eq_some_iff, Option.pure_def,
    Option.some.injEq]
  constructor
  · intro h
    obtain ⟨student, hstudent, displayed, hdisplayed, rfl⟩ := h
    exact ⟨student, displayed, hstudent, hdisplayed, rfl⟩
  · intro h
    obtain ⟨student, displayed, hstudent, hdisplayed, rfl⟩ := h
    exact ⟨student, hstudent, displayed, hdisplayed, rfl⟩

end GroupVC

end Studkurator
