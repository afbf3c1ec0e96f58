import Studkurator.System.EventCompleteness

/-!
# What the event screens can always do

The rows of the table never outnumber the list behind it, and whatever is cached was encoded
from decoded numbers. So selecting and deleting a shown row, and opening either form on the
cache, never traps; only the answer to a fetch can be undecodable.
-/

namespace Studkurator

open Dictionary Transition

set_option autoImplicit false

variable {formatter : DateFormatter} {lower : Char → List Char}

def EventsVC.numberOfRowsInSection (vc : EventsVC) : ℕ := vc.filteredDataBase.length

/-- The handlers that a user reaches from the screens of a device have a result. -/
structure NeverTraps [Unicode] (formatter : DateFormatter) (device : EventDevice) : Prop where
  select : ∀ screen ∈ device.screens, ∀ row < screen.vc.numberOfRowsInSection,
    ∃ event, screen.vc.didSelectRow row = some event
  delete : ∀ screen ∈ device.screens, ∀ row < screen.vc.numberOfRowsInSection, ∀ clock,
    ∃ outcome, screen.vc.delete clock row = some outcome
  newEvent : ∀ value, Reading (device.defaults.lookup "eventDataBase") value →
    ∃ vc, NewEventTVC.viewDidLoad formatter value = some vc
  detail : ∀ event value, Reading (device.defaults.lookup "eventDataBase") value →
    ∃ vc, DetailEventTVC.viewDidLoad formatter event value = some vc
  fetch : ∀ screen ∈ device.screens, ∀ snapshot, screen.fetch = .answered snapshot →
    ∀ clock order, Iterates order snapshot →
      ((EventsVC.fetchCompletion formatter clock order).isSome ↔
        Entries (fun k r => StartsWithDigit k ∧ EventParser.Complete r) snapshot)

structure RowsWithin [Unicode] (device : EventDevice) : Prop where
  cached : ∀ dict, device.defaults.lookup "eventDataBase" = some dict →
    Entries (fun k r => StartsWithDigit k ∧ EventParser.Complete r) dict
  screens : ∀ screen ∈ device.screens,
    screen.vc.filteredDataBase.length ≤ screen.vc.dataBase.length ∧
      ∀ e ∈ screen.vc.dataBase, 0 ≤ e.number
  details : ∀ vc ∈ device.details, ∀ e ∈ vc.dataBase, 0 ≤ e.number

theorem rowsWithin_of_idle [Unicode] {device : EventDevice} (h : device.Idle)
    (hcached : ∀ dict, device.defaults.lookup "eventDataBase" = some dict →
      Entries (fun k r => StartsWithDigit k ∧ EventParser.Complete r) dict) :
    RowsWithin device := by
  refine ⟨hcached, ?_, ?_⟩
  · simp [h.1]
  · simp [h.2.2]

theorem RowsWithin.store [Unicode] {device : EventDevice} (h : RowsWithin device) {dict : Node}
    (hdict : Entries (fun k r => StartsWithDigit k ∧ EventParser.Complete r) dict) :
    RowsWithin { device with
      defaults := device.defaults.store "eventDataBase" (some dict) } := by
  refine { h with cached := ?_ }
  intro value hvalue
  rw [UserDefaults.lookup_store_some] at hvalue
  cases hvalue
  exact hdict

theorem RowsWithin.set_screen [Unicode] {device : EventDevice} (h : RowsWithin device) (i : ℕ)
    (screen : Screen EventsVC)
    (hrows : screen.vc.filteredDataBase.length ≤ screen.vc.dataBase.length ∧
      ∀ e ∈ screen.vc.dataBase, 0 ≤ e.number) :
    RowsWithin { device with screens := device.screens.set i screen } :=
  { h with screens := forall_mem_set h.screens hrows }

theorem forall_number_nonneg_markDone (number : ℤ) {data : List Event}
    (h : ∀ e ∈ data, 0 ≤ e.number) : ∀ e ∈ DetailEventTVC.markDone number data, 0 ≤ e.number := by
  intro e he
  obtain ⟨e', he', rfl⟩ := List.mem_map.mp he
  have hnumber := h e' he'
  split <;> exact hnumber

theorem EventsVC.length_updateSearchResults_le [Unicode] (lower : Char → List Char) (vc : EventsVC)
    (text : String) : (updateSearchResults lower vc text).filteredDataBase.length ≤
      (updateSearchResults lower vc text).dataBase.length := by
  unfold updateSearchResults
  split
  · exact le_rfl
  · exact List.length_filter_le _ _

theorem rowsWithin_step [Unicode] (s : Node × EventDevice) (a : EventAction)
    (t : Node × EventDevice)
    (hdevice : RowsWithin s.2) (h : EventDevice.Step formatter lower s a t) : RowsWithin t.2 := by
  cases h with
  | loginLoad => exact { hdevice with cached := by simp }
  | launch => exact rowsWithin_of_idle ⟨rfl, rfl, rfl⟩ (by simp)
  | eventsLoad =>
    exact { hdevice with screens := forall_mem_concat hdevice.screens (by simp) }
  | answer hscreen =>
    have hrows := hdevice.screens _ (List.mem_of_getElem? hscreen)
    exact hdevice.set_screen _ _ hrows
  | @complete remote device i screen snapshot response clock outcome hscreen hfetch hfound horder
      hcompletion =>
    simp only [EventsVC.fetchCompletion, Option.bind_eq_bind, Option.bind_eq_some_iff,
      Option.pure_def, Option.some.injEq] at hcompletion
    obtain ⟨dataBase, hparse, rfl⟩ := hcompletion
    have hnumbers := forall_number_nonneg_of_parse hparse
    exact (hdevice.set_screen i ⟨⟨dataBase, dataBase⟩, .done⟩ ⟨le_rfl, hnumbers⟩).store
      (recorded_decodable.unparse clock hnumbers)
  | giveUp hscreen =>
    have hrows := hdevice.screens _ (List.mem_of_getElem? hscreen)
    exact hdevice.set_screen _ _ hrows
  | @search remote device i screen text hscreen =>
    have hnumbers := (hdevice.screens _ (List.mem_of_getElem? hscreen)).2
    rw [← EventsVC.updateSearchResults_dataBase lower screen.vc text] at hnumbers
    exact hdevice.set_screen _ _
      ⟨EventsVC.length_updateSearchResults_le lower screen.vc text, hnumbers⟩
  | @delete remote device i row screen clock outcome hscreen hdelete =>
    obtain ⟨hrows, hnumbers⟩ := hdevice.screens _ (List.mem_of_getElem? hscreen)
    obtain ⟨event, displayed, hevent, hdisplayed, rfl⟩ := EventsVC.delete_eq_some_iff.mp hdelete
    have hrow := (List.getElem?_eq_some_iff.mp hevent).1
    have hshown := (List.getElem?_eq_some_iff.mp hdisplayed).1
    have hrest : ∀ e ∈ screen.vc.dataBase.eraseIdx row, 0 ≤ e.number :=
      fun e he => hnumbers e (List.mem_of_mem_eraseIdx he)
    refine (hdevice.set_screen i ⟨⟨screen.vc.dataBase.eraseIdx row,
      screen.vc.filteredDataBase.eraseIdx row⟩, screen.fetch⟩ ⟨?_, hrest⟩).store
        (recorded_decodable.unparse clock hrest)
    simp only [List.length_eraseIdx_of_lt hrow, List.length_eraseIdx_of_lt hshown]
    omega
  | openNew => exact { hdevice with }
  | save hvc hsave =>
    obtain ⟨event, -, rfl⟩ := NewEventTVC.saveBtnPressed_eq_some_iff.mp hsave
    exact { hdevice with }
  | openDetail hscreen hrow hreading hload =>
    refine { hdevice with details := forall_mem_concat hdevice.details ?_ }
    rcases (DetailEventTVC.viewDidLoad_eq_some hload).2 with ⟨-, hnil⟩ | ⟨order, -, hparse⟩
    · simp [hnil]
    · exact forall_number_nonneg_of_parse hparse
  | @mark remote device i vc clock hvc =>
    have hnumbers := forall_number_nonneg_markDone vc.event.number
      (hdevice.details _ (List.mem_of_getElem? hvc))
    have hset : RowsWithin
        { device with details := device.details.set i (vc.markBtnPressed clock).controller } :=
      { hdevice with details := forall_mem_set hdevice.details hnumbers }
    exact hset.store (recorded_decodable.unparse clock hnumbers)

theorem EventParser.isSome_parse_iff [Unicode] (formatter : DateFormatter) {node : Node}
    {order : List (String × Record)} (horder : Iterates order node) :
    (EventParser.parse formatter order).isSome ↔
      Entries (fun k r => StartsWithDigit k ∧ EventParser.Complete r) node := by
  rw [EventParser.parse, horder.isSome_mapM_iff]
  exact ⟨fun h k r hr => (EventParser.isSome_event_iff k r).mp (h k r hr),
    fun h k r hr => (EventParser.isSome_event_iff k r).mpr (h k r hr)⟩

theorem EventsVC.isSome_fetchCompletion [Unicode] (clock : Event → Date)
    (order : List (String × Record)) :
    (fetchCompletion formatter clock order).isSome ↔
      (EventParser.parse formatter order).isSome := by
  cases hparse : EventParser.parse formatter order <;> simp [fetchCompletion, hparse]

/-- What is cached can be decoded, in whatever order. -/
theorem exists_parse_of_reading [Unicode] (formatter : DateFormatter) {device : EventDevice}
    (hrows : RowsWithin device) {order : List (String × Record)}
    (hreading : Reading (device.defaults.lookup "eventDataBase") (some order)) :
    ∃ data, EventParser.parse formatter order = some data := by
  obtain ⟨dict, hdict, horder⟩ := exists_of_reading hreading
  apply Option.isSome_iff_exists.mp
  exact (EventParser.isSome_parse_iff formatter horder).mpr (hrows.cached dict hdict)

theorem neverTraps_of_rowsWithin [Unicode] {device : EventDevice} (hrows : RowsWithin device) :
    NeverTraps formatter device := by
  have hlisted : ∀ screen ∈ device.screens, ∀ row < screen.vc.numberOfRowsInSection,
      ∃ event displayed, screen.vc.dataBase[row]? = some event ∧
        screen.vc.filteredDataBase[row]? = some displayed := by
    intro screen hscreen row hrow
    have hle := (hrows.screens screen hscreen).1
    unfold EventsVC.numberOfRowsInSection at hrow
    exact ⟨_, _, List.getElem?_eq_getElem (by omega), List.getElem?_eq_getElem hrow⟩
  constructor
  · intro screen hscreen row hrow
    obtain ⟨event, displayed, hevent, -⟩ := hlisted screen hscreen row hrow
    exact ⟨event, hevent⟩
  · intro screen hscreen row hrow clock
    obtain ⟨event, displayed, hevent, hdisplayed⟩ := hlisted screen hscreen row hrow
    exact ⟨_, EventsVC.delete_eq_some_iff.mpr ⟨event, displayed, hevent, hdisplayed, rfl⟩⟩
  · intro value hreading
    cases value with
    | none => exact ⟨_, rfl⟩
    | some order =>
      obtain ⟨data, hdata⟩ := exists_parse_of_reading formatter hrows hreading
      exact ⟨⟨data⟩, by simp [NewEventTVC.viewDidLoad, hdata]⟩
  · intro event value hreading
    cases value with
    | none => exact ⟨_, rfl⟩
    | some order =>
      obtain ⟨data, hdata⟩ := exists_parse_of_reading formatter hrows hreading
      exact ⟨⟨event, data⟩, by simp [DetailEventTVC.viewDidLoad, hdata]⟩
  · intro screen _ snapshot _ clock order horder
    rw [← EventParser.isSome_parse_iff formatter horder]
    exact EventsVC.isSome_fetchCompletion clock order

section Runs
variable {ι : Type} [DecidableEq ι] {s₀ s : Shared ι Node EventDevice}
variable {path : List (Taken (Shared ι Node EventDevice) (ι × EventAction))}

/-- On every device of a run that starts from decodable caches all handlers work, and a fetch
traps on nothing but an answer with an undecodable record. -/
theorem neverTraps_of_path [Unicode] (formatter : DateFormatter) (lower : Char → List Char)
    (hidle : ∀ i, (s₀.party i).Idle)
    (hcached : ∀ i dict, (s₀.party i).defaults.lookup "eventDataBase" = some dict →
      Entries (fun k r => StartsWithDigit k ∧ EventParser.Complete r) dict)
    (hpath : Path (Interleave (EventDevice.Step formatter lower)) s₀ path s) :
    ∀ i, NeverTraps formatter (s.party i) := by
  have hinv : Everywhere (fun _ => True) RowsWithin s := by
    refine hpath.invariant (everywhere_step ?_)
      ⟨trivial, fun i => rowsWithin_of_idle (hidle i) (hcached i)⟩
    exact fun s a t _ hdevice h => ⟨trivial, rowsWithin_step s a t hdevice h⟩
  exact fun i => neverTraps_of_rowsWithin (hinv.2 i)

end Runs

theorem neverTraps_of_path_fetched : ∃ path s,
    Path (Interleave (EventDevice.Step .gregorian latinLower))
      ⟨examNode, fun _ : Bool => launchedEvents⟩ path s ∧
    path.map Taken.act = openActs.map (fun a => (true, a)) ∧
    ∀ i, NeverTraps .gregorian (s.party i) := by
  obtain ⟨path, hpath, hacts⟩ := exists_path_opened .gregorian latinLower
  obtain ⟨path', hpath', hacts'⟩ := exists_path_interleave_acts
    (s := ⟨examNode, fun _ : Bool => launchedEvents⟩) (i := true) hpath
  refine ⟨path', _, hpath', ?_, neverTraps_of_path .gregorian latinLower
    (fun _ => ⟨rfl, rfl, rfl⟩) (by simp [launchedEvents]) hpath'⟩
  rw [hacts', ← hacts, List.map_map]
  rfl

end Studkurator
