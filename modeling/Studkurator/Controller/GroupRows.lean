import Studkurator.Controller.GroupVC

/-!
# Rows of the student table

The delete action removes row `row` of `dataBase`, while the table shows row `row`
of `filteredResults`. After a fetch the two lists are the same students in two
orders, so the action is right exactly where both lists agree.
-/

namespace Studkurator.GroupVC

open Dictionary Transition

set_option autoImplicit false

inductive TableAction where
  | search (text : String)
  | delete (row : ℕ)

inductive TableStep [Unicode] (lower : Char → List Char) :
    Session GroupVC → TableAction → Session GroupVC → Prop where
  | search {s : Session GroupVC} {text : String} {vc : GroupVC} :
      updateSearchResults lower s.controller text = some vc →
      TableStep lower s (.search text) { s with controller := vc }
  | delete {s : Session GroupVC} {row : ℕ} {outcome : Outcome GroupVC} :
      delete s.controller row = some outcome →
      TableStep lower s (.delete row) (s.perform outcome)

def Fetched [Unicode] (node : Node) (s : Session GroupVC) : Prop :=
  ∃ response vc cached outcome, Iterates response node ∧
    fetchCompletion response = some outcome ∧
    s = (⟨vc, node, cached⟩ : Session GroupVC).perform outcome

/-- `displayed`, and nobody else, is gone from everything it was in. -/
structure Deleted [Unicode] (displayed : Student) (s s' : Session GroupVC) : Prop where
  remote_key : Parser.key displayed ∉ s'.remote
  remote_record : ∀ k r, s'.remote.lookup k = some r → Parser.student (k, r) ≠ some displayed
  remote_others : ∀ k, k ≠ Parser.key displayed → s'.remote.lookup k = s.remote.lookup k
  dataBase_gone : displayed ∉ s'.controller.dataBase
  dataBase_others : ∀ t ∈ s.controller.dataBase, t ≠ displayed → t ∈ s'.controller.dataBase
  filtered_gone : displayed ∉ s'.controller.filteredResults
  filtered_others : ∀ t ∈ s.controller.filteredResults, t ≠ displayed →
    t ∈ s'.controller.filteredResults
  cached_gone : Parser.key displayed ∉ s'.cached
  cached_others : ∀ k, k ≠ Parser.key displayed → s'.cached.lookup k = s.cached.lookup k

def DeletesShown [Unicode] (s : Session GroupVC) (row : ℕ) : Prop :=
  ∃ displayed outcome, s.controller.filteredResults[row]? = some displayed ∧
    delete s.controller row = some outcome ∧ Deleted displayed s (s.perform outcome)

/-- Row `row` shows, and shows only there, the student that `dataBase` has in that row,
and no remote record of that student lies under another key. -/
def ShownInPlace [Unicode] (s : Session GroupVC) (row : ℕ) : Prop :=
  ∃ displayed, s.controller.filteredResults[row]? = some displayed ∧
    s.controller.dataBase[row]? = some displayed ∧
    s.controller.filteredResults.count displayed = 1 ∧
    ∀ k r, s.remote.lookup k = some r → Parser.student (k, r) = some displayed →
      k = Parser.key displayed

structure TableInv (s : Session GroupVC) : Prop where
  nodup : (s.controller.dataBase.map Student.number).Nodup
  cached : s.cached = Parser.unparse s.controller.dataBase

theorem tableInv_of_fetched [Unicode] {node : Node} {s : Session GroupVC} (h : Fetched node s)
    (hnodup : (s.controller.dataBase.map Student.number).Nodup) : TableInv s := by
  obtain ⟨response, vc, cached, outcome, -, hfetch, rfl⟩ := h
  have hcached := (fetchCompletion_eq_some hfetch).2.2.1
  refine ⟨hnodup, ?_⟩
  simp [Session.perform, hcached]

theorem tableInv_step [Unicode] {lower : Char → List Char} (s : Session GroupVC) (a : TableAction)
    (s' : Session GroupVC) (hinv : TableInv s) (h : TableStep lower s a s') : TableInv s' := by
  cases h with
  | search hsearch =>
    have hsame := updateSearchResults_dataBase hsearch
    exact ⟨by rw [hsame]; exact hinv.nodup, by rw [hsame]; exact hinv.cached⟩
  | @delete row outcome hdelete =>
    obtain ⟨student, displayed, -, -, rfl⟩ := delete_eq_some_iff.mp hdelete
    refine ⟨?_, rfl⟩
    have hsub : (s.controller.dataBase.eraseIdx row).Sublist s.controller.dataBase :=
      List.eraseIdx_sublist _ _
    exact (hsub.map Student.number).nodup hinv.nodup

theorem mem_eraseIdx_iff_of_nodup {α : Type*} [DecidableEq α] {l : List α} (h : l.Nodup)
    {i : ℕ} {a : α} (ha : l[i]? = some a) (b : α) : b ∈ l.eraseIdx i ↔ b ≠ a ∧ b ∈ l := by
  obtain ⟨hi, rfl⟩ := List.getElem?_eq_some_iff.mp ha
  rw [← h.erase_getElem i hi, h.mem_erase_iff]

theorem mem_eraseIdx_of_ne {α : Type*} {l : List α} {i : ℕ} {a b : α} (ha : l[i]? = some a)
    (hb : b ∈ l) (hne : b ≠ a) : b ∈ l.eraseIdx i := by
  obtain ⟨hi, rfl⟩ := List.getElem?_eq_some_iff.mp ha
  have hperm := List.getElem_cons_eraseIdx_perm hi
  rcases List.mem_cons.mp (hperm.mem_iff.mpr hb) with heq | hmem
  · exact absurd heq hne
  · exact hmem

theorem not_mem_eraseIdx_iff {α : Type*} [DecidableEq α] {l : List α} {i : ℕ} {a : α}
    (ha : l[i]? = some a) : a ∉ l.eraseIdx i ↔ l.count a = 1 := by
  obtain ⟨hi, rfl⟩ := List.getElem?_eq_some_iff.mp ha
  have hcount := (List.getElem_cons_eraseIdx_perm hi).count_eq l[i]
  rw [List.count_cons_self] at hcount
  rw [← hcount, ← List.count_eq_zero]
  omega

theorem deleted_of_shownInPlace [Unicode] {s : Session GroupVC} (hinv : TableInv s) {row : ℕ}
    (h : ShownInPlace s row) : DeletesShown s row := by
  obtain ⟨displayed, hfiltered, hdataBase, hcount, hrecord⟩ := h
  refine ⟨displayed, _, hfiltered, delete_eq_some_iff.mpr
    ⟨displayed, displayed, hdataBase, hfiltered, rfl⟩, ?_⟩
  have hnodup : s.controller.dataBase.Nodup := .of_map _ hinv.nodup
  obtain ⟨hrow, hget⟩ := List.getElem?_eq_some_iff.mp hdataBase
  have hcached : Parser.unparse (s.controller.dataBase.eraseIdx row) =
      s.cached.erase (Parser.key displayed) := by
    rw [hinv.cached, ← hget]
    exact (erase_encode _ _ (Parser.nodup_keys hinv.nodup) hrow).symm
  constructor
  · exact Finmap.notMem_erase_self
  · intro k r hr hstudent
    obtain ⟨hk, hr'⟩ := lookup_erase_eq_some_iff.mp hr
    exact hk (hrecord k r hr' hstudent)
  · intro k hk
    exact Finmap.lookup_erase_ne hk
  · intro hmem
    exact ((mem_eraseIdx_iff_of_nodup hnodup hdataBase displayed).mp hmem).1 rfl
  · intro t ht hne
    exact mem_eraseIdx_of_ne hdataBase ht hne
  · exact (not_mem_eraseIdx_iff hfiltered).mpr hcount
  · intro t ht hne
    exact mem_eraseIdx_of_ne hfiltered ht hne
  · simp only [Session.perform, Option.getD_some, hcached]
    exact Finmap.notMem_erase_self
  · intro k hk
    simp only [Session.perform, Option.getD_some, hcached]
    exact Finmap.lookup_erase_ne hk

theorem shownInPlace_of_deleted [Unicode] {s : Session GroupVC} (hinv : TableInv s) {row : ℕ}
    (h : DeletesShown s row) : ShownInPlace s row := by
  obtain ⟨displayed, outcome, hfiltered, hdelete, hdeleted⟩ := h
  obtain ⟨student, displayed', hdataBase, -, rfl⟩ := delete_eq_some_iff.mp hdelete
  have hnodup : s.controller.dataBase.Nodup := .of_map _ hinv.nodup
  have heq : student = displayed := by
    by_contra hne
    have hmem := hdeleted.dataBase_others student (List.mem_of_getElem? hdataBase) hne
    exact ((mem_eraseIdx_iff_of_nodup hnodup hdataBase student).mp hmem).1 rfl
  subst heq
  refine ⟨student, hfiltered, hdataBase, (not_mem_eraseIdx_iff hfiltered).mp
    hdeleted.filtered_gone, ?_⟩
  intro k r hr hstudent
  by_contra hk
  have hr' := hdeleted.remote_others k hk
  exact hdeleted.remote_record k r (hr'.trans hr) hstudent

/-- In every state of the table the action is right for exactly the rows in place. -/
theorem deletesShown_iff [Unicode] (lower : Char → List Char) {node : Node} {s₀ s : Session GroupVC}
    {path : List (Taken (Session GroupVC) TableAction)} (hfetched : Fetched node s₀)
    (hnodup : (s₀.controller.dataBase.map Student.number).Nodup)
    (hpath : Path (TableStep lower) s₀ path s) (row : ℕ) :
    DeletesShown s row ↔ ShownInPlace s row := by
  have hinv := hpath.invariant tableInv_step (tableInv_of_fetched hfetched hnodup)
  exact ⟨shownInPlace_of_deleted hinv, deleted_of_shownInPlace hinv⟩

def fetchedPair (dataBase : List Student) : Session GroupVC :=
  ⟨⟨dataBase, [sampleStudent "Ivan" 1, sampleStudent "Olena" 2]⟩,
    Parser.unparse dataBase, Parser.unparse dataBase⟩

theorem fetched_fetchedPair [Unicode] {dataBase : List Student} {response : List (String × Record)}
    (horder : Iterates response (Parser.unparse dataBase))
    (hparse : Parser.parse response = some dataBase)
    (hsort : sort dataBase = some [sampleStudent "Ivan" 1, sampleStudent "Olena" 2]) :
    Fetched (Parser.unparse dataBase) (fetchedPair dataBase) :=
  ⟨response, ⟨[], []⟩, ∅, _, horder, fetchCompletion_of_parse hparse hsort, rfl⟩

theorem fetched_inOrder :
    Fetched (Parser.unparse [sampleStudent "Ivan" 1, sampleStudent "Olena" 2])
      (fetchedPair [sampleStudent "Ivan" 1, sampleStudent "Olena" 2]) :=
  @fetched_fetchedPair _ _ [("0k", Parser.record (sampleStudent "Ivan" 1)),
    ("1k", Parser.record (sampleStudent "Olena" 2))] ⟨by decide, rfl⟩ (by decide) (by decide)

theorem fetched_outOfOrder :
    Fetched (Parser.unparse [sampleStudent "Olena" 2, sampleStudent "Ivan" 1])
      (fetchedPair [sampleStudent "Olena" 2, sampleStudent "Ivan" 1]) :=
  @fetched_fetchedPair _ _ [("1k", Parser.record (sampleStudent "Olena" 2)),
    ("0k", Parser.record (sampleStudent "Ivan" 1))] ⟨by decide, rfl⟩ (by decide) (by decide)

/-- The search leaves the first row in its place. -/
theorem deletesShown_iff_pair : ∃ path s,
    path.map Taken.act = [.search "IV"] ∧
    Path (TableStep latinLower) (fetchedPair [sampleStudent "Ivan" 1, sampleStudent "Olena" 2])
      path s ∧ DeletesShown s 0 := by
  have hfound : updateSearchResults latinLower
      (fetchedPair [sampleStudent "Ivan" 1, sampleStudent "Olena" 2]).controller "IV" =
        some ⟨[sampleStudent "Ivan" 1, sampleStudent "Olena" 2], [sampleStudent "Ivan" 1]⟩ := by
    decide
  have hsearch : TableStep latinLower _ (.search "IV") _ := .search hfound
  have hpath := Path.single hsearch
  refine ⟨_, _, rfl, hpath, ?_⟩
  apply (deletesShown_iff latinLower fetched_inOrder (by decide) hpath 0).mpr
  refine ⟨sampleStudent "Ivan" 1, rfl, rfl, by decide, ?_⟩
  intro k r hr hstudent
  obtain ⟨s, hs, rfl, rfl⟩ := exists_of_lookup_encode _ _ hr
  revert hstudent
  rcases List.mem_pair.mp hs with rfl | rfl <;> decide

/-- The first row shows Ivan, but Olena's record is removed. -/
theorem not_deletesShown :
    ¬ ∀ (lower : Char → List Char) (node : Node) (s₀ s : Session GroupVC)
      (path : List (Taken (Session GroupVC) TableAction)), Fetched node s₀ →
      (s₀.controller.dataBase.map Student.number).Nodup → Path (TableStep lower) s₀ path s →
      ∀ row < s.controller.filteredResults.length, DeletesShown s row := by
  intro h
  have hnodup : ([sampleStudent "Olena" 2, sampleStudent "Ivan" 1].map Student.number).Nodup := by
    decide
  have hshown := h latinLower _ _ _ [] fetched_outOfOrder hnodup .nil 0 (by decide)
  have hinv := tableInv_of_fetched fetched_outOfOrder hnodup
  obtain ⟨displayed, hfiltered, hdataBase, -⟩ := shownInPlace_of_deleted hinv hshown
  rw [← hfiltered] at hdataBase
  revert hdataBase
  decide

end Studkurator.GroupVC
