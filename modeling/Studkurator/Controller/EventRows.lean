import Mathlib.Data.List.NodupEquivFin
import Studkurator.Controller.IncrementalUpdate

/-!
# Rows of the event table

The table shows row `row` of `filteredDataBase` with its picture; selecting and deleting
the row take row `row` of `dataBase` and the picture of its number. After a search that
leaves an earlier event out the two are different events.
-/

namespace Studkurator.EventsVC

open Dictionary Transition

set_option autoImplicit false

/-- The screen shows the whole list, and the cache holds it. -/
structure Opened (s : Session EventsVC) : Prop where
  all_shown : s.controller.filteredDataBase = s.controller.dataBase
  cached : ∃ clock, s.cached = EventParser.unparse clock s.controller.dataBase

theorem opened_of_fetchCompletion [Unicode] {formatter : DateFormatter} {clock : Event → Date}
    {response : List (String × Record)} {outcome : Outcome EventsVC}
    (h : fetchCompletion formatter clock response = some outcome) (s : Session EventsVC) :
    Opened (s.perform outcome) := by
  simp only [fetchCompletion, Option.bind_eq_bind, Option.bind_eq_some_iff, Option.pure_def,
    Option.some.injEq] at h
  obtain ⟨dataBase, -, rfl⟩ := h
  exact ⟨rfl, clock, rfl⟩

/-- The path that `fetchImage` loads for the cell of an event. -/
def picture (event : Event) : String := "imgs/" ++ event.image ++ ".jpg"

/-- `displayed`, and no other event, is gone from everything it was in. -/
structure Deleted [Unicode] (formatter : DateFormatter) (clock : Event → Date) (displayed : Event)
    (s s' : Session EventsVC) : Prop where
  remote_key : EventParser.key displayed ∉ s'.remote
  remote_record : ∀ k r, s'.remote.lookup k = some r →
    EventParser.event formatter (k, r) ≠ some displayed
  remote_others : ∀ k, k ≠ EventParser.key displayed → s'.remote.lookup k = s.remote.lookup k
  dataBase : s'.controller.dataBase = s.controller.dataBase.filter (· ≠ displayed)
  filtered : s'.controller.filteredDataBase = s.controller.filteredDataBase.filter (· ≠ displayed)
  cached_keys : s'.cached.keys = s.cached.keys.erase (EventParser.key displayed)
  cached_others : ∀ e ∈ s.controller.dataBase, e ≠ displayed →
    s'.cached.lookup (EventParser.key e) = some (EventParser.record clock e)
  cached_same : ∀ e ∈ s.controller.dataBase, e ≠ displayed → e.date.isSome →
    s'.cached.lookup (EventParser.key e) = s.cached.lookup (EventParser.key e)

/-- Both actions on a row concern the event that the row shows. -/
def ActsOnShown [Unicode] (formatter : DateFormatter) (s : Session EventsVC) (row : ℕ) : Prop :=
  ∃ displayed, s.controller.filteredDataBase[row]? = some displayed ∧
    didSelectRow s.controller row = some displayed ∧
    ∀ clock, ∃ outcome, delete clock s.controller row = some outcome ∧
      Deleted formatter clock displayed s (s.perform outcome) ∧
      outcome.storage = [.delete (picture displayed)]

/-- Both lists have the event in this row, its picture is named after its number, and no
remote record of it lies under another key. -/
structure ShownInPlace [Unicode] (formatter : DateFormatter) (s : Session EventsVC) (row : ℕ)
    (displayed : Event) : Prop where
  filtered : s.controller.filteredDataBase[row]? = some displayed
  dataBase : s.controller.dataBase[row]? = some displayed
  image : displayed.image = "event" ++ toString displayed.number
  record : ∀ k r, s.remote.lookup k = some r →
    EventParser.event formatter (k, r) = some displayed → k = EventParser.key displayed

structure RowsInv (s : Session EventsVC) : Prop where
  nodup : (s.controller.dataBase.map Event.number).Nodup
  shown : s.controller.filteredDataBase.Nodup
  cached : ∃ clock, s.cached = EventParser.unparse clock s.controller.dataBase

theorem rowsInv_of_opened {s : Session EventsVC} (h : Opened s)
    (hnodup : (s.controller.dataBase.map Event.number).Nodup) : RowsInv s := by
  refine ⟨hnodup, ?_, h.cached⟩
  rw [h.all_shown]
  exact .of_map _ hnodup

theorem nodup_updateSearchResults [Unicode] (lower : Char → List Char) {vc : EventsVC}
    (h : vc.dataBase.Nodup) (text : String) :
    (updateSearchResults lower vc text).filteredDataBase.Nodup := by
  unfold updateSearchResults
  split
  · exact h
  · exact h.filter _

theorem rowsInv_step [Unicode] {lower : Char → List Char} (s : Session EventsVC) (a : TableAction)
    (s' : Session EventsVC) (hinv : RowsInv s) (h : TableStep lower s a s') : RowsInv s' := by
  cases h with
  | @search text =>
    have hsame := updateSearchResults_dataBase lower s.controller text
    constructor
    · rw [hsame]
      exact hinv.nodup
    · exact nodup_updateSearchResults lower (.of_map _ hinv.nodup) text
    · rw [hsame]
      exact hinv.cached
  | @delete clock row outcome hdelete =>
    obtain ⟨event, displayed, -, -, rfl⟩ := delete_eq_some_iff.mp hdelete
    constructor
    · exact nodup_map_eraseIdx hinv.nodup row
    · exact (List.eraseIdx_sublist _ row).nodup hinv.shown
    · exact ⟨clock, rfl⟩

theorem eraseIdx_eq_filter {α : Type*} [DecidableEq α] {l : List α} (h : l.Nodup) {i : ℕ} {a : α}
    (ha : l[i]? = some a) : l.eraseIdx i = l.filter (· ≠ a) := by
  obtain ⟨hi, rfl⟩ := List.getElem?_eq_some_iff.mp ha
  rw [← h.erase_getElem i hi, h.erase_eq_filter]
  apply List.filter_congr
  intro b _
  by_cases hb : b = l[i] <;> simp [hb]

theorem picture_eq_iff (event : Event) :
    "imgs/event" ++ toString event.number ++ ".jpg" = picture event ↔
      event.image = "event" ++ toString event.number := by
  have hsplit : "imgs/event" = "imgs/" ++ "event" := rfl
  rw [picture, String.append_left_inj, hsplit, String.append_assoc, String.append_right_inj,
    eq_comm]

section cached

variable {s : Session EventsVC} {row : ℕ} {displayed : Event}

theorem keys_unparse_eraseIdx (hinv : RowsInv s)
    (hdataBase : s.controller.dataBase[row]? = some displayed) (clock : Event → Date) :
    (EventParser.unparse clock (s.controller.dataBase.eraseIdx row)).keys =
      s.cached.keys.erase (EventParser.key displayed) := by
  obtain ⟨clock', hcached⟩ := hinv.cached
  obtain ⟨hrow, rfl⟩ := List.getElem?_eq_some_iff.mp hdataBase
  rw [hcached, EventParser.unparse,
    ← erase_encode _ _ (EventParser.nodup_keys hinv.nodup) hrow, Finmap.keys_erase,
    EventParser.unparse, keys_encode, keys_encode]

theorem lookup_unparse_eraseIdx (hinv : RowsInv s)
    (hdataBase : s.controller.dataBase[row]? = some displayed) (clock : Event → Date)
    {e : Event} (he : e ∈ s.controller.dataBase) (hne : e ≠ displayed) :
    (EventParser.unparse clock (s.controller.dataBase.eraseIdx row)).lookup
        (EventParser.key e) = some (EventParser.record clock e) := by
  apply lookup_encode_of_mem
  · exact EventParser.nodup_keys (nodup_map_eraseIdx hinv.nodup row)
  · rw [eraseIdx_eq_filter (.of_map _ hinv.nodup) hdataBase]
    exact List.mem_filter.mpr ⟨he, by simpa using hne⟩

theorem lookup_cached (hinv : RowsInv s) (clock : Event → Date) {e : Event}
    (he : e ∈ s.controller.dataBase) (hdate : e.date.isSome) :
    s.cached.lookup (EventParser.key e) = some (EventParser.record clock e) := by
  obtain ⟨clock', hcached⟩ := hinv.cached
  have hrecord : EventParser.record clock e = EventParser.record clock' e :=
    EventParser.record_eq_of_date hdate
  rw [hcached, hrecord]
  exact lookup_encode_of_mem _ _ (EventParser.nodup_keys hinv.nodup) he

end cached

theorem actsOnShown_of_shownInPlace [Unicode] {formatter : DateFormatter} {s : Session EventsVC}
    (hinv : RowsInv s) {row : ℕ} {displayed : Event}
    (h : ShownInPlace formatter s row displayed) : ActsOnShown formatter s row := by
  refine ⟨displayed, h.filtered, h.dataBase, ?_⟩
  intro clock
  refine ⟨_, delete_eq_some_iff.mpr ⟨displayed, displayed, h.dataBase, h.filtered, rfl⟩, ?_, ?_⟩
  · constructor
    · exact Finmap.notMem_erase_self
    · intro k r hr hevent
      obtain ⟨hk, hr'⟩ := lookup_erase_eq_some_iff.mp hr
      exact hk (h.record k r hr' hevent)
    · intro k hk
      exact Finmap.lookup_erase_ne hk
    · exact eraseIdx_eq_filter (.of_map _ hinv.nodup) h.dataBase
    · exact eraseIdx_eq_filter hinv.shown h.filtered
    · exact keys_unparse_eraseIdx hinv h.dataBase clock
    · intro e he hne
      exact lookup_unparse_eraseIdx hinv h.dataBase clock he hne
    · intro e he hne hdate
      rw [lookup_cached hinv clock he hdate]
      exact lookup_unparse_eraseIdx hinv h.dataBase clock he hne
  · rw [(picture_eq_iff displayed).mpr h.image]

theorem shownInPlace_of_actsOnShown [Unicode] {formatter : DateFormatter} {s : Session EventsVC}
    {row : ℕ}
    (h : ActsOnShown formatter s row) : ∃ displayed, ShownInPlace formatter s row displayed := by
  obtain ⟨displayed, hfiltered, hdataBase, hdelete⟩ := h
  obtain ⟨outcome, houtcome, hdeleted, hstorage⟩ := hdelete fun _ => newYear
  obtain ⟨event, displayed', hevent, -, rfl⟩ := delete_eq_some_iff.mp houtcome
  obtain rfl : event = displayed := Option.some.inj (hevent.symm.trans hdataBase)
  refine ⟨event, hfiltered, hdataBase, ?_, ?_⟩
  · apply (picture_eq_iff event).mp
    simpa using hstorage
  · intro k r hr hrecord
    by_contra hk
    exact hdeleted.remote_record k r ((hdeleted.remote_others k hk).trans hr) hrecord

/-- In every state of the table the two actions are right for exactly the rows in place. -/
theorem actsOnShown_iff [Unicode] (formatter : DateFormatter) (lower : Char → List Char)
    {s₀ s : Session EventsVC} {path : List (Taken (Session EventsVC) TableAction)}
    (hopened : Opened s₀) (hnodup : (s₀.controller.dataBase.map Event.number).Nodup)
    (hpath : Path (TableStep lower) s₀ path s) (row : ℕ) :
    ActsOnShown formatter s row ↔ ∃ displayed, ShownInPlace formatter s row displayed := by
  have hinv := hpath.invariant rowsInv_step (rowsInv_of_opened hopened hnodup)
  constructor
  · exact shownInPlace_of_actsOnShown
  · intro ⟨displayed, hdisplayed⟩
    exact actsOnShown_of_shownInPlace hinv hdisplayed

/-- Of a list without repetitions, filtering leaves a row where it is exactly when it takes
nothing out up to that row. -/
theorem getElem?_filter_eq_iff {α : Type*} {l : List α} (h : l.Nodup) (p : α → Bool) {i : ℕ}
    {a : α} (ha : l[i]? = some a) :
    (l.filter p)[i]? = some a ↔ ∀ b ∈ l.take (i + 1), p b = true := by
  induction l generalizing i with
  | nil => simp at ha
  | cons c l ih =>
    obtain ⟨hc, hl⟩ := List.nodup_cons.mp h
    by_cases hp : p c = true
    · obtain _ | i := i
      · obtain rfl : c = a := by simpa using ha
        simp [hp]
      · have hrest := ih hl (by simpa using ha)
        simpa [hp] using hrest
    · have hfalse : ¬ ∀ b ∈ (c :: l).take (i + 1), p b = true := by
        intro hall
        exact hp (hall c (by simp))
      rw [List.filter_cons_of_neg hp]
      refine iff_of_false ?_ hfalse
      intro hfound
      -- A filtered element stands no later than it did before.
      obtain ⟨f, hf⟩ := List.sublist_iff_exists_orderEmbedding_getElem?_eq.mp
        (List.filter_sublist (p := p) (l := l))
      rw [hf] at hfound
      have hle : i ≤ f i := f.strictMono.le_apply
      have hlater : (c :: l)[f i + 1]? = some a := by simpa using hfound
      have hi : i < (c :: l).length := (List.getElem?_eq_some_iff.mp ha).1
      have hsame := (List.getElem?_inj hi h).mp (ha.trans hlater.symm)
      omega

/-- What the search asks of an event. -/
def nameMatches [Unicode] (lower : Char → List Char) (text : String) (event : Event) : Bool :=
  decide (text = "") || contains (lowercased lower event.name) (lowercased lower text)

/-- A search keeps a row in place exactly when it hides no event up to that row. -/
theorem search_keeps_row_iff [Unicode] (lower : Char → List Char) (vc : EventsVC) (text : String)
    (h : vc.dataBase.Nodup) {row : ℕ} {event : Event} (hevent : vc.dataBase[row]? = some event) :
    (updateSearchResults lower vc text).filteredDataBase[row]? = some event ↔
      ∀ e ∈ vc.dataBase.take (row + 1), nameMatches lower text e = true := by
  have hfiltered : (updateSearchResults lower vc text).filteredDataBase =
      vc.dataBase.filter (nameMatches lower text) := by
    unfold updateSearchResults
    split
    next htext =>
      exact (List.filter_eq_self.mpr fun e _ => by simp [nameMatches, htext]).symm
    next htext =>
      exact List.filter_congr fun e _ => by simp [nameMatches, htext]
  rw [hfiltered]
  exact getElem?_filter_eq_iff h _ hevent

theorem opened_openedPair : Opened openedPair := ⟨rfl, _, rfl⟩

theorem nodup_openedPair : (openedPair.controller.dataBase.map Event.number).Nodup := by
  decide

def searched (filteredDataBase : List Event) : Session EventsVC :=
  { openedPair with controller := ⟨[exam, trip], filteredDataBase⟩ }

theorem step_searched [Unicode] {lower : Char → List Char} {text : String}
    {filteredDataBase : List Event}
    (h : updateSearchResults lower ⟨[exam, trip], [exam, trip]⟩ text =
      ⟨[exam, trip], filteredDataBase⟩) :
    TableStep lower openedPair (.search text) (searched filteredDataBase) := by
  have hstep : TableStep lower openedPair (.search text) _ := .search
  rw [show openedPair.controller = ⟨[exam, trip], [exam, trip]⟩ from rfl, h] at hstep
  exact hstep

/-- The search leaves the exam in its row. -/
theorem actsOnShown_iff_pair :
    TableStep latinLower openedPair (.search "EX") (searched [exam]) ∧
      ActsOnShown .gregorian (searched [exam]) 0 := by
  have hstep : TableStep latinLower openedPair (.search "EX") (searched [exam]) :=
    step_searched (by decide)
  refine ⟨hstep, (actsOnShown_iff .gregorian latinLower opened_openedPair nodup_openedPair
    (.single hstep) 0).mpr ⟨exam, rfl, rfl, by decide, ?_⟩⟩
  intro k r hr hevent
  obtain ⟨e, he, rfl, rfl⟩ := exists_of_lookup_encode _ _ hr
  revert hevent
  rcases List.mem_pair.mp he with rfl | rfl <;> decide

/-- The search shows the trip in the first row, which selects and deletes the exam. -/
theorem not_actsOnShown :
    ¬ ∀ (formatter : DateFormatter) (lower : Char → List Char) (s₀ s : Session EventsVC)
      (path : List (Taken (Session EventsVC) TableAction)), Opened s₀ →
      (s₀.controller.dataBase.map Event.number).Nodup → Path (TableStep lower) s₀ path s →
      ∀ row < s.controller.filteredDataBase.length, ActsOnShown formatter s row := by
  intro h
  have hstep : TableStep latinLower openedPair (.search "TR") (searched [trip]) :=
    step_searched (by decide)
  obtain ⟨displayed, hplace⟩ := shownInPlace_of_actsOnShown
    (h .gregorian _ _ _ _ opened_openedPair nodup_openedPair (.single hstep) 0 (by decide))
  have hrows := hplace.filtered.trans hplace.dataBase.symm
  revert hrows
  decide

end Studkurator.EventsVC
