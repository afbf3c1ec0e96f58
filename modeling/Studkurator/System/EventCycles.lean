import Studkurator.Model.EventReload
import Studkurator.System.EventDevice

/-!
# Events added one after another

Each cycle fetches the events, caches them, opens the form on the cache and saves. The
numbers grow up to 10; from then on the tenth event is read back as a second number 1,
one of the two is lost in the cache, and the next event takes number 10 again.
-/

namespace Studkurator

open Dictionary Transition

set_option autoImplicit false

variable {formatter : DateFormatter}

/-- What the cache holds after the fetch of `EventsVC`. -/
inductive Refreshed [Unicode] (formatter : DateFormatter) (remote : Node) (cached : Option Node) :
    Option Node → Prop where
  | missing : remote = ∅ → Refreshed formatter remote cached cached
  | found {response : List (String × Record)} {clock : Event → Date} {outcome : Outcome EventsVC} :
      remote ≠ ∅ → Iterates response remote →
      EventsVC.fetchCompletion formatter clock response = some outcome →
      Refreshed formatter remote cached outcome.cached

/-- One add from the fetch to the save, on the server and the cache. -/
inductive AddCycle [Unicode] (formatter : DateFormatter) :
    Node × Option Node → EventForm → Node × Option Node → Prop where
  | add {remote : Node} {cached refreshed : Option Node} {value : Option (List (String × Record))}
      {vc : NewEventTVC} {form : EventForm} {clock : Event → Date}
      {outcome : Outcome NewEventTVC} :
      Refreshed formatter remote cached refreshed → Reading refreshed value →
      NewEventTVC.viewDidLoad formatter value = some vc →
      vc.saveBtnPressed formatter clock form = some outcome →
      AddCycle formatter (remote, cached) form
        (outcome.writes.foldl RemoteWrite.apply remote, refreshed)

def upTo (m : ℕ) : List ℤ := (List.range m).map fun i : ℕ => (i : ℤ) + 1

theorem mem_upTo_iff (m : ℕ) (n : ℤ) : n ∈ upTo m ↔ 1 ≤ n ∧ n ≤ m := by
  simp only [upTo, List.mem_map, List.mem_range]
  constructor
  · intro h
    obtain ⟨i, hi, rfl⟩ := h
    omega
  · intro h
    exact ⟨(n - 1).toNat, by omega, by omega⟩

theorem nodup_upTo (m : ℕ) : (upTo m).Nodup := by
  apply List.Nodup.map _ List.nodup_range
  intro i j h
  simp only at h
  omega

theorem upTo_succ (m : ℕ) : upTo (m + 1) = upTo m ++ [(m : ℤ) + 1] := by
  simp [upTo, List.range_succ]

theorem length_upTo (m : ℕ) : (upTo m).length = m := by simp [upTo]

theorem maxNumber_of_perm {data : List Event} {m : ℕ}
    (h : (data.map Event.number).Perm (upTo m)) : NewEventTVC.maxNumber data = m := by
  have hle : NewEventTVC.maxNumber data ≤ m := by
    rcases NewEventTVC.maxNumber_eq_zero_or_mem data with hzero | ⟨e, he, hmax⟩
    · omega
    · have hmem := h.mem_iff.mp (List.mem_map_of_mem he)
      rw [mem_upTo_iff] at hmem
      omega
  have hge : (m : ℤ) ≤ NewEventTVC.maxNumber data := by
    have hnonneg := NewEventTVC.maxNumber_nonneg data
    by_cases hm : m = 0
    · omega
    · have hmem : (m : ℤ) ∈ data.map Event.number :=
        h.mem_iff.mpr ((mem_upTo_iff m m).mpr (by omega))
      obtain ⟨e, he, hnumber⟩ := List.mem_map.mp hmem
      have hmax := NewEventTVC.le_maxNumber he
      omega
  omega

/-- What is left of the added events: the numbers up to 10 and, as long as there were no
more than ten, the names. -/
structure Accumulated (forms : List EventForm) (data : List Event) : Prop where
  numbers : (data.map Event.number).Perm (upTo (min forms.length 10))
  names : forms.length ≤ 10 → (data.map Event.name).Perm (forms.map EventForm.name)

structure AddedEvents (forms : List EventForm) (s : Node × Option Node) : Prop where
  remote : ∃ clock data, s.1 = EventParser.unparse clock data ∧ Accumulated forms data
  cached : forms = [] → s.2 = none

/-- The list of the form: the numbers are distinct again, and up to nine events are whole. -/
structure Reloaded (forms : List EventForm) (data : List Event) : Prop where
  numbers : (data.map Event.number).Perm (upTo (min forms.length 9))
  names : forms.length ≤ 9 → (data.map Event.name).Perm (forms.map EventForm.name)

theorem Accumulated.bounds {forms : List EventForm} {data : List Event}
    (h : Accumulated forms data) : ∀ e ∈ data, 0 ≤ e.number ∧ e.number ≤ 10 := by
  intro e he
  have hmem := h.numbers.mem_iff.mp (List.mem_map_of_mem he)
  rw [mem_upTo_iff] at hmem
  omega

/-- Number 10 is read as 1, the smaller ones as they are. -/
theorem Accumulated.exists_firstDigit_iff {forms : List EventForm} {data : List Event}
    (h : Accumulated forms data) (n : ℤ) :
    (∃ a ∈ data, EventParser.firstDigit a.number = n) ↔ n ∈ upTo (min forms.length 9) := by
  have hmem : ∀ m : ℤ, (∃ a ∈ data, a.number = m) ↔ 1 ≤ m ∧ m ≤ min forms.length 10 := by
    intro m
    rw [← List.mem_map, h.numbers.mem_iff, mem_upTo_iff]
  rw [mem_upTo_iff]
  constructor
  · intro hn
    obtain ⟨a, ha, rfl⟩ := hn
    have hbounds := (hmem a.number).mp ⟨a, ha, rfl⟩
    unfold EventParser.firstDigit
    split <;> omega
  · intro hn
    obtain ⟨a, ha, hnumber⟩ := (hmem n).mpr (by omega)
    refine ⟨a, ha, ?_⟩
    unfold EventParser.firstDigit
    split <;> omega

structure Fetched (forms : List EventForm) (result : List Event) : Prop where
  inRange : InRange result
  numbers : ∀ n, n ∈ result.map Event.number ↔ n ∈ upTo (min forms.length 9)
  nodup : forms.length ≤ 9 → (result.map Event.number).Nodup
  names : forms.length ≤ 9 → (result.map Event.name).Perm (forms.map EventForm.name)

theorem map_name_of_perm {data result : List Event} {clock : Event → Date}
    (h : result.Perm (data.map (EventParser.stored clock))) :
    (result.map Event.name).Perm (data.map Event.name) := by
  have hmap := h.map Event.name
  rwa [List.map_map] at hmap

theorem fetched_of_parse [Unicode] {forms : List EventForm} {data result : List Event}
    {clock : Event → Date} (hdata : Accumulated forms data) {order : List (String × Record)}
    (horder : Iterates order (EventParser.unparse clock data))
    (hresult : EventParser.parse formatter order = some result) : Fetched forms result := by
  have hperm : forms.length ≤ 9 → result.Perm (data.map (EventParser.stored clock)) := by
    intro hlength
    have hrange : InRange data := by
      intro e he
      have hmem := hdata.numbers.mem_iff.mp (List.mem_map_of_mem he)
      rw [mem_upTo_iff] at hmem
      omega
    have hnodup := hdata.numbers.nodup_iff.mpr (nodup_upTo _)
    obtain ⟨result', hresult', hperm⟩ :=
      EventParser.parse_unparse formatter hnodup hrange horder
    rw [hresult] at hresult'
    rwa [Option.some.inj hresult']
  refine ⟨EventParser.inRange_of_parse hresult, ?_, ?_, ?_⟩
  · intro n
    rw [EventParser.mem_numbers_of_parse_iff hdata.bounds horder hresult,
      hdata.exists_firstDigit_iff]
  · intro hlength
    have hnumbers := (hperm hlength).map Event.number
    rw [List.map_map] at hnumbers
    exact hnumbers.nodup_iff.mpr (hdata.numbers.nodup_iff.mpr (nodup_upTo _))
  · intro hlength
    exact (map_name_of_perm (hperm hlength)).trans (hdata.names (by omega))

theorem reloaded_of_parse [Unicode] {forms : List EventForm} {data result : List Event}
    {clock : Event → Date} (hdata : Fetched forms data) {order : List (String × Record)}
    (horder : Iterates order (EventParser.unparse clock data))
    (hresult : EventParser.parse formatter order = some result) : Reloaded forms result := by
  constructor
  · have hnodup := EventParser.nodup_numbers_of_parse
      (EventParser.oneDigit_unparse clock hdata.inRange) horder hresult
    apply (List.perm_ext_iff_of_nodup hnodup (nodup_upTo _)).mpr
    intro n
    rw [EventParser.mem_numbers_of_reload_iff hdata.inRange horder hresult, hdata.numbers]
  · intro hlength
    obtain ⟨result', hresult', hperm⟩ :=
      EventParser.parse_unparse formatter (hdata.nodup hlength) hdata.inRange horder
    rw [hresult] at hresult'
    cases hresult'
    exact (map_name_of_perm hperm).trans (hdata.names hlength)

theorem refreshed_cases [Unicode] {forms : List EventForm} {s : Node × Option Node}
    {refreshed : Option Node} (hs : AddedEvents forms s)
    (h : Refreshed formatter s.1 s.2 refreshed) :
    forms = [] ∧ refreshed = none ∨
      ∃ clock result, refreshed = some (EventParser.unparse clock result) ∧
        Fetched forms result := by
  obtain ⟨⟨clock, data, hremote, hdata⟩, hcached⟩ := hs
  cases h with
  | missing hempty =>
    have hforms : forms = [] := by
      cases data with
      | nil =>
        have hlength := hdata.numbers.length_eq
        rw [length_upTo] at hlength
        simp only [List.map_nil, List.length_nil] at hlength
        exact List.length_eq_zero_iff.mp (by omega)
      | cons e data =>
        have hmem : EventParser.key e ∈ s.1 := by
          rw [hremote, EventParser.unparse, mem_encode_iff]
          exact List.mem_cons_self
        rw [hempty] at hmem
        exact absurd hmem (Finmap.notMem_empty)
    exact Or.inl ⟨hforms, hcached hforms⟩
  | @found response clock' outcome _ horder hcompletion =>
    obtain ⟨hparse, hstored, -⟩ := EventsVC.fetchCompletion_eq_some hcompletion
    rw [hremote] at horder
    exact Or.inr ⟨clock', _, hstored, fetched_of_parse hdata horder hparse⟩

theorem reloaded_of_viewDidLoad [Unicode] {forms : List EventForm} {s : Node × Option Node}
    {refreshed : Option Node} {value : Option (List (String × Record))} {vc : NewEventTVC}
    (hs : AddedEvents forms s) (hrefreshed : Refreshed formatter s.1 s.2 refreshed)
    (hreading : Reading refreshed value)
    (hload : NewEventTVC.viewDidLoad formatter value = some vc) : Reloaded forms vc.dataBase := by
  rcases refreshed_cases hs hrefreshed with ⟨rfl, rfl⟩ | ⟨clock, result, rfl, hresult⟩
  · cases hreading
    cases hload
    exact ⟨List.Perm.refl _, fun _ => List.Perm.refl _⟩
  · rcases NewEventTVC.viewDidLoad_eq_some hload with ⟨rfl, -⟩ | ⟨order, rfl, hparse⟩
    · cases hreading
    · obtain ⟨dict, hdict, horder⟩ := exists_of_reading hreading
      cases hdict
      exact reloaded_of_parse hresult horder hparse

theorem accumulated_append {forms : List EventForm} {form : EventForm} {vc : NewEventTVC}
    {event : Event} (hvc : Reloaded forms vc.dataBase)
    (hevent : NewEventTVC.newEvent formatter vc form = some event) :
    Accumulated (forms ++ [form]) (vc.dataBase ++ [event]) := by
  have hnumber : event.number = (min forms.length 9 : ℕ) + 1 := by
    rw [NewEventTVC.number_newEvent hevent, maxNumber_of_perm hvc.numbers]
  have hmin : min (forms ++ [form]).length 10 = min forms.length 9 + 1 := by
    rw [List.length_append, List.length_singleton]
    omega
  constructor
  · rw [hmin, upTo_succ, List.map_append, List.map_singleton, hnumber]
    exact hvc.numbers.append_right _
  · intro hlength
    obtain ⟨-, date, -, rfl⟩ := NewEventTVC.newEvent_eq_some_iff.mp hevent
    rw [List.length_append, List.length_singleton] at hlength
    rw [List.map_append, List.map_append]
    exact (hvc.names (by omega)).append_right _

theorem addedEvents_step [Unicode] {forms : List EventForm} {form : EventForm}
    {s t : Node × Option Node}
    (hs : AddedEvents forms s) (h : AddCycle formatter s form t) :
    AddedEvents (forms ++ [form]) t := by
  cases h with
  | @add remote cached refreshed value vc _ clock outcome hrefreshed hreading hload hsave =>
    obtain ⟨event, hevent, rfl⟩ := NewEventTVC.saveBtnPressed_eq_some_iff.mp hsave
    have hvc := reloaded_of_viewDidLoad hs hrefreshed hreading hload
    exact ⟨⟨clock, _, rfl, accumulated_append hvc hevent⟩, by simp⟩

theorem exists_refreshed [Unicode] (formatter : DateFormatter) {forms : List EventForm}
    {s : Node × Option Node} (hs : AddedEvents forms s) :
    ∃ refreshed, Refreshed formatter s.1 s.2 refreshed := by
  by_cases hempty : s.1 = ∅
  · exact ⟨s.2, .missing hempty⟩
  · obtain ⟨⟨clock, data, hremote, hdata⟩, -⟩ := hs
    obtain ⟨order, horder⟩ := exists_iterates s.1
    have hparse : ∃ result, EventParser.parse formatter order = some result := by
      rw [hremote] at horder
      exact EventParser.exists_parse_unparse formatter (fun e he => (hdata.bounds e he).1) horder
    obtain ⟨result, hresult⟩ := hparse
    have hcompletion : EventsVC.fetchCompletion formatter clock order =
        some ⟨⟨result, result⟩, some (EventParser.unparse clock result), [], []⟩ := by
      simp only [EventsVC.fetchCompletion, hresult, Option.bind_eq_bind, Option.bind_some,
        Option.pure_def]
    exact ⟨_, .found hempty horder hcompletion⟩

theorem exists_viewDidLoad [Unicode] {forms : List EventForm} {s : Node × Option Node}
    {refreshed : Option Node} (hs : AddedEvents forms s)
    (hrefreshed : Refreshed formatter s.1 s.2 refreshed)
    {value : Option (List (String × Record))} (hreading : Reading refreshed value) :
    ∃ vc, NewEventTVC.viewDidLoad formatter value = some vc := by
  rcases refreshed_cases hs hrefreshed with ⟨-, rfl⟩ | ⟨clock, result, rfl, hresult⟩
  · cases hreading
    exact ⟨⟨[]⟩, rfl⟩
  · cases hreading with
    | @some _ order horder =>
      obtain ⟨dataBase, hparse⟩ := EventParser.exists_parse_unparse formatter
        (fun e he => (hresult.inRange e he).1) horder
      exact ⟨⟨dataBase⟩, by simp only [NewEventTVC.viewDidLoad, hparse, Option.bind_eq_bind,
        Option.bind_some, Option.pure_def]⟩

theorem exists_addCycle [Unicode] {forms : List EventForm} {s : Node × Option Node}
    (hs : AddedEvents forms s) {form : EventForm} (hform : form.Valid formatter) :
    ∃ t, AddCycle formatter s form t := by
  obtain ⟨refreshed, hrefreshed⟩ := exists_refreshed formatter hs
  obtain ⟨value, hreading⟩ := exists_reading refreshed
  obtain ⟨vc, hload⟩ := exists_viewDidLoad hs hrefreshed hreading
  obtain ⟨event, hevent⟩ := NewEventTVC.exists_newEvent vc hform
  have hsave : vc.saveBtnPressed formatter (fun _ => newYear) form = some _ :=
    NewEventTVC.saveBtnPressed_eq_some_iff.mpr ⟨event, hevent, rfl⟩
  exact ⟨_, .add hrefreshed hreading hload hsave⟩

theorem addedEvents_of_path [Unicode] {path : List (Taken (Node × Option Node) EventForm)}
    {s : Node × Option Node} (hpath : Path (AddCycle formatter) (∅, none) path s) :
    AddedEvents (path.map Taken.act) s := by
  induction hpath with
  | nil =>
    have hnone : Accumulated [] [] := ⟨List.Perm.refl _, fun _ => List.Perm.refl _⟩
    exact ⟨⟨fun _ => newYear, [], rfl, hnone⟩, fun _ => rfl⟩
  | snoc _ hcycle ih =>
    rw [List.map_append]
    exact addedEvents_step ih hcycle

theorem exists_path_of_valid [Unicode] {forms : List EventForm}
    (h : ∀ form ∈ forms, form.Valid formatter) :
    ∃ s path, Path (AddCycle formatter) (∅, none) path s ∧ path.map Taken.act = forms := by
  induction forms using List.reverseRecOn with
  | nil => exact ⟨_, [], .nil, rfl⟩
  | append_singleton forms form ih =>
    obtain ⟨s, path, hpath, hforms⟩ :=
      ih fun form' hform' => h form' (List.mem_append_left _ hform')
    have hform : form.Valid formatter := h form (by simp)
    obtain ⟨t, ht⟩ := exists_addCycle (addedEvents_of_path hpath) hform
    refine ⟨t, _, hpath.snoc ht, ?_⟩
    rw [List.map_append, hforms]
    rfl

/-- The server holds one record for each of the forms, with the name that was entered. -/
def Accumulates (forms : List EventForm) (remote : Node) : Prop :=
  ∃ order, Iterates order remote ∧
    (order.map fun entry => entry.2.lookup "name").Perm (forms.map fun form => some form.name)

theorem accumulates_of_addedEvents_iff {forms : List EventForm} {s : Node × Option Node}
    (hs : AddedEvents forms s) : Accumulates forms s.1 ↔ forms.length ≤ 10 := by
  obtain ⟨⟨clock, data, hremote, hdata⟩, -⟩ := hs
  have hkeys := EventParser.nodup_keys (hdata.numbers.nodup_iff.mpr (nodup_upTo _))
  rw [hremote]
  constructor
  · intro h
    obtain ⟨order, horder, hnames⟩ := h
    have hentries := (horder.perm_map hkeys).length_eq
    have hnumbers := hdata.numbers.length_eq
    have hforms := hnames.length_eq
    simp only [List.length_map, length_upTo] at hentries hnumbers hforms
    omega
  · intro hlength
    obtain ⟨order, horder⟩ := exists_iterates (EventParser.unparse clock data)
    refine ⟨order, horder, ?_⟩
    have hname : ∀ e, (EventParser.record clock e).lookup "name" = some e.name :=
      fun e => (EventParser.lookup_record clock e).1
    have hentries := (horder.perm_map hkeys).map fun entry => entry.2.lookup "name"
    have hnames := (hdata.names hlength).map some
    rw [List.map_map] at hentries hnames
    rw [List.map_map] at hnames
    simp only [Function.comp_def, hname] at hentries hnames
    exact hentries.trans hnames

/-- Any number of valid forms can be added in complete cycles; afterwards the server has
them all exactly when there were no more than ten. -/
theorem accumulates_iff [Unicode] (formatter : DateFormatter) {forms : List EventForm}
    (hvalid : ∀ form ∈ forms, form.Valid formatter) :
    (∃ s path, Path (AddCycle formatter) (∅, none) path s ∧ path.map Taken.act = forms) ∧
      ∀ s path, Path (AddCycle formatter) (∅, none) path s → path.map Taken.act = forms →
        (Accumulates forms s.1 ↔ forms.length ≤ 10) := by
  refine ⟨exists_path_of_valid hvalid, ?_⟩
  intro s path hpath hforms
  rw [← hforms]
  exact accumulates_of_addedEvents_iff (addedEvents_of_path hpath)

def meetingForm : EventForm := ⟨"Meeting", DateFormatter.string .HH newYear, true, none⟩

theorem valid_meetingForm (formatter : DateFormatter) : meetingForm.Valid formatter := by
  refine ⟨by decide, ?_⟩
  simp [meetingForm, formatter.date_string]

theorem accumulates_iff_ten : ∃ s path, Path (AddCycle .gregorian) (∅, none) path s ∧
    path.map Taken.act = List.replicate 10 meetingForm ∧
    (Accumulates (List.replicate 10 meetingForm) s.1 ↔
      (List.replicate 10 meetingForm).length ≤ 10) := by
  have hvalid : ∀ form ∈ List.replicate 10 meetingForm, form.Valid .gregorian := by
    intro form hform
    rw [List.eq_of_mem_replicate hform]
    exact valid_meetingForm _
  obtain ⟨⟨s, path, hpath, hforms⟩, hiff⟩ := accumulates_iff .gregorian hvalid
  exact ⟨s, path, hpath, hforms, hiff s path hpath hforms⟩

/-- The eleventh event replaces the tenth. -/
theorem not_accumulates_eleven : ¬ ∀ (formatter : DateFormatter) (forms : List EventForm),
    (∀ form ∈ forms, form.Valid formatter) →
    ∀ s path, Path (AddCycle formatter) (∅, none) path s → path.map Taken.act = forms →
      Accumulates forms s.1 := by
  intro h
  have hvalid : ∀ form ∈ List.replicate 11 meetingForm, form.Valid .gregorian := by
    intro form hform
    rw [List.eq_of_mem_replicate hform]
    exact valid_meetingForm _
  obtain ⟨s, path, hpath, hforms⟩ := exists_path_of_valid hvalid
  have hadded := addedEvents_of_path hpath
  rw [hforms] at hadded
  have hlength := (accumulates_of_addedEvents_iff hadded).mp (h _ _ hvalid s path hpath hforms)
  rw [List.length_replicate] at hlength
  omega

section Device

def EventDevice.showing (device : EventDevice) (screen : Screen EventsVC) : EventDevice :=
  { device with screens := device.screens ++ [screen] }

theorem EventDevice.getElem?_showing (device : EventDevice) (screen : Screen EventsVC) :
    (device.showing screen).screens[device.screens.length]? = some screen := by
  simp [showing]

theorem EventDevice.set_showing (device : EventDevice) (screen screen' : Screen EventsVC) :
    (device.showing screen).screens.set device.screens.length screen' =
      (device.showing screen').screens := by
  simp [showing]

theorem exists_path_of_refreshed [Unicode] (lower : Char → List Char) {remote : Node}
    {device : EventDevice} {refreshed : Option Node}
    (h : Refreshed formatter remote (device.defaults.lookup "eventDataBase") refreshed) :
    ∃ path device', Path (EventDevice.Step formatter lower) (remote, device) path
        (remote, device') ∧ device'.defaults.lookup "eventDataBase" = refreshed := by
  have hload : EventDevice.Step formatter lower (remote, device) .eventsLoad
      (remote, device.showing ⟨⟨[], []⟩, .started⟩) := .eventsLoad
  have hanswer : EventDevice.Step formatter lower (remote, device.showing ⟨⟨[], []⟩, .started⟩)
      (.answer device.screens.length) _ :=
    .answer (device.getElem?_showing ⟨⟨[], []⟩, .started⟩) rfl
  rw [device.set_showing] at hanswer
  have hasked := Path.snoc (Path.single hload) hanswer
  have hanswered := device.getElem?_showing ⟨⟨[], []⟩, .answered remote⟩
  cases h with
  | missing hempty =>
    subst hempty
    exact ⟨_, _, hasked.snoc (.giveUp hanswered rfl), rfl⟩
  | found hfound horder hcompletion =>
    obtain ⟨-, hcached, hwrites⟩ := EventsVC.fetchCompletion_eq_some hcompletion
    have hcomplete : EventDevice.Step formatter lower
        (remote, device.showing ⟨⟨[], []⟩, .answered remote⟩)
        (.complete device.screens.length _) _ :=
      .complete hanswered rfl hfound horder hcompletion
    rw [EventDevice.issue, hwrites, hcached] at hcomplete
    refine ⟨_, _, hasked.snoc hcomplete, ?_⟩
    rw [UserDefaults.lookup_store_some, hcached]

/-- A cycle is a run of the device, with the form on what the fetch has cached. -/
theorem exists_path_of_addCycle [Unicode] (lower : Char → List Char) {s t : Node × Option Node}
    {form : EventForm}
    (h : AddCycle formatter s form t) {device : EventDevice}
    (hdevice : device.defaults.lookup "eventDataBase" = s.2) :
    ∃ path device', Path (EventDevice.Step formatter lower) (s.1, device) path
        (t.1, device') ∧ device'.defaults.lookup "eventDataBase" = t.2 := by
  cases h with
  | @add remote cached refreshed value vc _ clock outcome hrefreshed hreading hload hsave =>
    have hcurrent : device.defaults.lookup "eventDataBase" = cached := hdevice
    rw [← hcurrent] at hrefreshed
    obtain ⟨path, device', hpath, hcached⟩ := exists_path_of_refreshed lower hrefreshed
    rw [← hcached] at hreading
    have hopen := hpath.snoc (.openNew hreading hload)
    have hform : (device'.forms ++ [vc])[device'.forms.length]? = some vc := by simp
    have hsaved := hopen.snoc (.save hform hsave)
    obtain ⟨event, -, rfl⟩ := NewEventTVC.saveBtnPressed_eq_some_iff.mp hsave
    exact ⟨_, _, hsaved, hcached⟩

end Device

end Studkurator
