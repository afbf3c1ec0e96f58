import Studkurator.System.EventDevice

/-!
# Completeness of the event records

A save stores whole records and a deletion removes one, but a mark writes a single leaf.
Where the record is gone by then, the leaf becomes a record of its own, on which every
client traps. All other steps keep the records complete.
-/

namespace Studkurator

open Dictionary Transition

set_option autoImplicit false

variable {formatter : DateFormatter} {lower : Char → List Char}
variable {P : String → Record → Prop}

structure Recorded (P : String → Record → Prop) : Prop where
  record : ∀ clock e, 0 ≤ e.number → P (EventParser.key e) (EventParser.record clock e)
  mark : ∀ k r, P k r → P k (r.insert "isDone" "true")

theorem Recorded.unparse (h : Recorded P) (clock : Event → Date) {data : List Event}
    (hdata : ∀ e ∈ data, 0 ≤ e.number) : Entries P (EventParser.unparse clock data) :=
  entries_encode fun e he => h.record clock e (hdata e he)

theorem complete_insert_isDone {r : Record} (h : EventParser.Complete r) :
    EventParser.Complete (r.insert "isDone" "true") := by
  have hother : ∀ field, field ≠ "isDone" →
      (r.insert "isDone" "true").lookup field = r.lookup field :=
    fun _ hfield => Finmap.lookup_insert_of_ne _ hfield
  obtain ⟨hname, hdate, -, hnotify, himage⟩ := h
  refine ⟨?_, ?_, Or.inl (Finmap.lookup_insert _), ?_, ?_⟩
  · rwa [hother "name" (by decide)]
  · rwa [hother "date" (by decide)]
  · rwa [hother "notify" (by decide)]
  · rwa [hother "image" (by decide)]

theorem recorded_complete : Recorded fun _ r => EventParser.Complete r where
  record clock e _ := EventParser.complete_record clock e
  mark _ _ h := complete_insert_isDone h

theorem recorded_decodable [Unicode] :
    Recorded fun k r => StartsWithDigit k ∧ EventParser.Complete r where
  record clock e h := ⟨EventParser.startsWithDigit_key h, EventParser.complete_record clock e⟩
  mark _ _ h := ⟨h.1, complete_insert_isDone h.2⟩

/-- The numbers in every list come from decoding or from a new event; a snapshot on its way
meets the condition. -/
structure EventsHold (P : String → Record → Prop) (device : EventDevice) : Prop where
  screens : ∀ screen ∈ device.screens, (∀ e ∈ screen.vc.dataBase, 0 ≤ e.number) ∧
    ∀ snapshot, screen.fetch = .answered snapshot → Entries P snapshot
  forms : ∀ vc ∈ device.forms, ∀ e ∈ vc.dataBase, 0 ≤ e.number

theorem eventsHold_of_idle {device : EventDevice} (h : device.Idle) : EventsHold P device := by
  obtain ⟨hscreens, hforms, -⟩ := h
  constructor
  · simp [hscreens]
  · simp [hforms]

theorem EventsHold.set_screen {device : EventDevice} (h : EventsHold P device) (i : ℕ)
    (screen : Screen EventsVC) (hnumbers : ∀ e ∈ screen.vc.dataBase, 0 ≤ e.number)
    (hfetch : ∀ snapshot, screen.fetch = .answered snapshot → Entries P snapshot) :
    EventsHold P { device with screens := device.screens.set i screen } :=
  { h with screens := forall_mem_set h.screens ⟨hnumbers, hfetch⟩ }

namespace EventAction

def MarksPresent (s : Node × EventDevice) : EventAction → Prop
  | mark i _ => ∀ vc, s.2.details[i]? = some vc → EventParser.key vc.event ∈ s.1
  | _ => True

end EventAction

theorem forall_number_nonneg_of_parse [Unicode] {order : List (String × Record)} {data : List Event}
    (h : EventParser.parse formatter order = some data) : ∀ e ∈ data, 0 ≤ e.number :=
  fun _ he => (EventParser.parse_bounds h he).1

theorem forall_number_nonneg_of_save {clock : Event → Date} {vc : NewEventTVC}
    {entered : EventForm} {outcome : Outcome NewEventTVC}
    (hsave : vc.saveBtnPressed formatter clock entered = some outcome)
    (hvc : ∀ e ∈ vc.dataBase, 0 ≤ e.number) :
    (∀ e ∈ outcome.controller.dataBase, 0 ≤ e.number) ∧
      outcome.cached = none ∧
      outcome.writes = [.setValue (EventParser.unparse clock outcome.controller.dataBase)] := by
  obtain ⟨event, hevent, rfl⟩ := NewEventTVC.saveBtnPressed_eq_some_iff.mp hsave
  have hnumber := NewEventTVC.number_newEvent hevent
  have hmax := NewEventTVC.maxNumber_nonneg vc.dataBase
  exact ⟨forall_mem_concat hvc (by omega), rfl, rfl⟩

theorem entries_setLeaf (hP : Recorded P) {node : Node} (hnode : Entries P node) {k : String}
    (hk : k ∈ node) : Entries P (RemoteWrite.apply node (.setLeaf k "isDone" "true")) := by
  obtain ⟨r, hr⟩ := Finmap.mem_iff.mp hk
  rw [RemoteWrite.apply, hr, Option.getD_some]
  exact hnode.insert (hP.mark k r (hnode k r hr))

theorem eventsHold_step [Unicode] (hP : Recorded P) (s : Node × EventDevice) (a : EventAction)
    (t : Node × EventDevice) (hremote : Entries P s.1) (hdevice : EventsHold P s.2)
    (hmarks : a.MarksPresent s) (h : EventDevice.Step formatter lower s a t) :
    Entries P t.1 ∧ EventsHold P t.2 := by
  cases h with
  | loginLoad => exact ⟨hremote, { hdevice with }⟩
  | launch => exact ⟨hremote, eventsHold_of_idle ⟨rfl, rfl, rfl⟩⟩
  | eventsLoad =>
    refine ⟨hremote, { hdevice with screens := forall_mem_concat hdevice.screens ?_ }⟩
    simp
  | answer hscreen hfetch =>
    have hholds := hdevice.screens _ (List.mem_of_getElem? hscreen)
    refine ⟨hremote, hdevice.set_screen _ _ hholds.1 ?_⟩
    intro snapshot hsnapshot
    cases hsnapshot
    exact hremote
  | @complete remote device i screen snapshot response clock outcome hscreen hfetch hfound horder
      hcompletion =>
    obtain ⟨hparse, -, hwrites⟩ := EventsVC.fetchCompletion_eq_some hcompletion
    have hset := hdevice.set_screen i ⟨outcome.controller, .done⟩
      (forall_number_nonneg_of_parse hparse) (by simp)
    exact ⟨by simpa [EventDevice.issue, hwrites] using hremote, { hset with }⟩
  | giveUp hscreen hfetch =>
    have hholds := hdevice.screens _ (List.mem_of_getElem? hscreen)
    exact ⟨hremote, hdevice.set_screen _ _ hholds.1 (by simp)⟩
  | @search remote device i screen text hscreen =>
    have hholds := hdevice.screens _ (List.mem_of_getElem? hscreen)
    refine ⟨hremote, hdevice.set_screen i _ ?_ hholds.2⟩
    rw [EventsVC.updateSearchResults_dataBase]
    exact hholds.1
  | @delete remote device i row screen clock outcome hscreen hdelete =>
    have hholds := hdevice.screens _ (List.mem_of_getElem? hscreen)
    obtain ⟨event, displayed, -, -, rfl⟩ := EventsVC.delete_eq_some_iff.mp hdelete
    have hrest : ∀ e ∈ screen.vc.dataBase.eraseIdx row, 0 ≤ e.number :=
      fun e he => hholds.1 e (List.mem_of_mem_eraseIdx he)
    have hset := hdevice.set_screen i ⟨⟨screen.vc.dataBase.eraseIdx row,
      screen.vc.filteredDataBase.eraseIdx row⟩, screen.fetch⟩ hrest hholds.2
    exact ⟨hremote.erase _, { hset with }⟩
  | openNew hreading hload =>
    refine ⟨hremote, { hdevice with forms := forall_mem_concat hdevice.forms ?_ }⟩
    rcases NewEventTVC.viewDidLoad_eq_some hload with ⟨-, hnil⟩ | ⟨order, -, hparse⟩
    · simp [hnil]
    · exact forall_number_nonneg_of_parse hparse
  | save hvc hsave =>
    obtain ⟨hlisted, hcached, hwrites⟩ :=
      forall_number_nonneg_of_save hsave (hdevice.forms _ (List.mem_of_getElem? hvc))
    refine ⟨?_, { hdevice with forms := forall_mem_set hdevice.forms hlisted }⟩
    simpa [EventDevice.issue, hwrites, RemoteWrite.apply] using hP.unparse _ hlisted
  | openDetail => exact ⟨hremote, { hdevice with }⟩
  | mark hvc =>
    exact ⟨entries_setLeaf hP hremote (hmarks _ hvc), { hdevice with }⟩

/-- A leaf written next to nothing makes a record without a name. -/
theorem mem_of_complete_setLeaf {node : Node} {k : String}
    (h : Entries (fun _ r => EventParser.Complete r)
      (RemoteWrite.apply node (.setLeaf k "isDone" "true"))) : k ∈ node := by
  by_contra hk
  have hnone : node.lookup k = none := Finmap.lookup_eq_none.mpr hk
  have hpartial := h k (Finmap.insert "isDone" "true" ∅) (by simp [RemoteWrite.apply, hnone])
  obtain ⟨v, hv⟩ := hpartial.name
  rw [Finmap.lookup_insert_of_ne _ (by decide)] at hv
  simp at hv

theorem marksPresent_of_complete [Unicode] {s t : Node × EventDevice} {a : EventAction}
    (h : EventDevice.Step formatter lower s a t)
    (hcomplete : Entries (fun _ r => EventParser.Complete r) t.1) : a.MarksPresent s := by
  cases h with
  | @mark remote device i vc clock hvc =>
    intro vc' hvc'
    have hsame : vc' = vc := Option.some.inj (hvc'.symm.trans hvc)
    rw [hsame]
    exact mem_of_complete_setLeaf hcomplete
  | _ => exact trivial

section Runs
variable {ι : Type} [DecidableEq ι] {s₀ s : Shared ι Node EventDevice}
variable {path : List (Taken (Shared ι Node EventDevice) (ι × EventAction))}

def Fetchable (s : Shared ι Node EventDevice) (snapshot : Node) : Prop :=
  snapshot = s.shared ∨
    ∃ i, ∃ screen ∈ (s.party i).screens, screen.fetch = .answered snapshot

/-- Every mark of the run finds the record of its event on the server. -/
def MarksFindRecords (path : List (Taken (Shared ι Node EventDevice) (ι × EventAction))) : Prop :=
  ∀ k ∈ path, k.act.2.MarksPresent (k.pre.shared, k.pre.party k.act.1)

theorem everywhere_eventsHold_step [Unicode] (hP : Recorded P)
    (s : Shared ι Node EventDevice) (a : ι × EventAction) (t : Shared ι Node EventDevice)
    (hs : Everywhere (Entries P) (EventsHold P) s)
    (hmarks : a.2.MarksPresent (s.shared, s.party a.1))
    (h : Interleave (EventDevice.Step formatter lower) s a t) :
    Everywhere (Entries P) (EventsHold P) t :=
  everywhere_step_of_guard (fun s a => a.MarksPresent s) (eventsHold_step hP) s a t hs hmarks h

omit [DecidableEq ι] in
theorem entries_of_fetchable (hs : Everywhere (Entries P) (EventsHold P) s) {snapshot : Node}
    (h : Fetchable s snapshot) : Entries P snapshot := by
  rcases h with rfl | ⟨i, screen, hscreen, hfetch⟩
  · exact hs.1
  · exact ((hs.2 i).screens screen hscreen).2 snapshot hfetch

theorem parse_isSome_of_fetchable [Unicode] (hidle : ∀ i, (s₀.party i).Idle)
    (hremote : Entries (fun k r => StartsWithDigit k ∧ EventParser.Complete r) s₀.shared)
    (hpath : Path (Interleave (EventDevice.Step formatter lower)) s₀ path s)
    (hmarks : MarksFindRecords path) {snapshot : Node} (hsnapshot : Fetchable s snapshot)
    {order : List (String × Record)} (horder : Iterates order snapshot) :
    (EventParser.parse formatter order).isSome := by
  have hinv := hpath.invariant_of_guard (everywhere_eventsHold_step recorded_decodable) hmarks
    ⟨hremote, fun i => eventsHold_of_idle (hidle i)⟩
  apply horder.isSome_mapM_iff.mpr
  intro k r hr
  exact (EventParser.isSome_event_iff k r).mpr (entries_of_fetchable hinv hsnapshot k r hr)

/-- The records stay complete throughout a run exactly when every mark of it finds the
record of its event; then every snapshot of digit keys can be decoded. -/
theorem complete_iff_marksFindRecords [Unicode] (formatter : DateFormatter)
    (lower : Char → List Char)
    (hidle : ∀ i, (s₀.party i).Idle)
    (hremote : Entries (fun _ r => EventParser.Complete r) s₀.shared)
    (hpath : Path (Interleave (EventDevice.Step formatter lower)) s₀ path s) :
    ((∀ k ∈ path, Entries (fun _ r => EventParser.Complete r) k.post.shared) ↔
        MarksFindRecords path) ∧
      (Entries (fun k _ => StartsWithDigit k) s₀.shared → MarksFindRecords path →
        ∀ snapshot, Fetchable s snapshot → ∀ order, Iterates order snapshot →
          (EventParser.parse formatter order).isSome) := by
  constructor
  · apply hpath.forall_good_iff (fun _ hs => hs.1)
      (everywhere_eventsHold_step recorded_complete) _
      ⟨hremote, fun i => eventsHold_of_idle (hidle i)⟩
    intro s a t _ hstep hgood
    cases hstep with
    | act hlocal => exact marksPresent_of_complete hlocal hgood
  · intro hdigits hmarks snapshot hsnapshot order horder
    have hboth : Entries (fun k r => StartsWithDigit k ∧ EventParser.Complete r) s₀.shared :=
      fun k r hr => ⟨hdigits k r hr, hremote k r hr⟩
    exact parse_isSome_of_fetchable hidle hboth hpath hmarks hsnapshot horder

end Runs

section Race

def examNode : Node := EventParser.unparse (fun _ => newYear) [exam]

def launchedEvents : EventDevice := ⟨∅, [], [], []⟩

def listingEvents (fetch : Fetch) : EventDevice :=
  { launchedEvents with screens := [⟨⟨[], []⟩, fetch⟩] }

def fetchedEvents : EventDevice :=
  ⟨UserDefaults.store ∅ "eventDataBase" examNode, [⟨⟨[exam], [exam]⟩, .done⟩], [], []⟩

theorem iterates_examNode :
    Iterates [(EventParser.key exam, EventParser.record (fun _ => newYear) exam)] examNode :=
  ⟨by decide, rfl⟩

theorem event_exam [Unicode] (formatter : DateFormatter) : EventParser.event formatter
    (EventParser.key exam, EventParser.record (fun _ => newYear) exam) = some exam := by
  have hstored : EventParser.stored (fun _ => newYear) exam = exam :=
    EventParser.stored_eq_self rfl rfl (by decide) rfl
  rw [EventParser.event_key_record (by decide) (by decide), hstored]

theorem parse_exam [Unicode] (formatter : DateFormatter) : EventParser.parse formatter
    [(EventParser.key exam, EventParser.record (fun _ => newYear) exam)] = some [exam] := by
  simp only [EventParser.parse, List.mapM_cons, List.mapM_nil, Option.bind_eq_bind, event_exam,
    Option.bind_some, Option.pure_def]

/-- The fetch of the exam, step by step. -/
theorem steps_fetched [Unicode] (formatter : DateFormatter) (lower : Char → List Char) :
    EventDevice.Step formatter lower (examNode, launchedEvents) .eventsLoad
        (examNode, listingEvents .started) ∧
      EventDevice.Step formatter lower (examNode, listingEvents .started) (.answer 0)
        (examNode, listingEvents (.answered examNode)) ∧
      EventDevice.Step formatter lower (examNode, listingEvents (.answered examNode))
        (.complete 0 fun _ => newYear) (examNode, fetchedEvents) := by
  have hstarted : (listingEvents .started).screens[0]? = some ⟨⟨[], []⟩, .started⟩ := rfl
  have hanswered : (listingEvents (.answered examNode)).screens[0]? =
      some ⟨⟨[], []⟩, .answered examNode⟩ := rfl
  have hcompletion : EventsVC.fetchCompletion formatter (fun _ => newYear)
      [(EventParser.key exam, EventParser.record (fun _ => newYear) exam)] =
        some ⟨⟨[exam], [exam]⟩, some examNode, [], []⟩ := by
    simp [EventsVC.fetchCompletion, parse_exam, examNode]
  exact ⟨.eventsLoad, .answer hstarted rfl,
    .complete hanswered rfl (by decide) iterates_examNode hcompletion⟩

def fetchActs : List EventAction := [.eventsLoad, .answer 0, .complete 0 fun _ => newYear]

def openActs : List EventAction := fetchActs ++ [.openDetail 0 0]

theorem exists_path_fetched [Unicode] (formatter : DateFormatter) (lower : Char → List Char) :
    ∃ path, Path (EventDevice.Step formatter lower) (examNode, launchedEvents) path
      (examNode, fetchedEvents) ∧ path.map Taken.act = fetchActs := by
  obtain ⟨hload, hanswer, hcomplete⟩ := steps_fetched formatter lower
  exact ⟨_, .snoc (.snoc (.single hload) hanswer) hcomplete, rfl⟩

theorem exists_path_opened [Unicode] (formatter : DateFormatter) (lower : Char → List Char) :
    ∃ path, Path (EventDevice.Step formatter lower) (examNode, launchedEvents) path
      (examNode, { fetchedEvents with details := [⟨exam, [exam]⟩] }) ∧
      path.map Taken.act = openActs := by
  obtain ⟨path, hpath, hacts⟩ := exists_path_fetched formatter lower
  have hscreen : fetchedEvents.screens[0]? = some ⟨⟨[exam], [exam]⟩, .done⟩ := rfl
  have hreading : Reading (fetchedEvents.defaults.lookup "eventDataBase")
      (some [(EventParser.key exam, EventParser.record (fun _ => newYear) exam)]) := by
    rw [fetchedEvents, UserDefaults.lookup_store_some]
    exact .some iterates_examNode
  have hload : DetailEventTVC.viewDidLoad formatter exam
      (some [(EventParser.key exam, EventParser.record (fun _ => newYear) exam)]) =
        some ⟨exam, [exam]⟩ := by
    simp [DetailEventTVC.viewDidLoad, parse_exam]
  have hopen : EventDevice.Step formatter lower (examNode, fetchedEvents) (.openDetail 0 0)
      (examNode, { fetchedEvents with details := [⟨exam, [exam]⟩] }) :=
    .openDetail hscreen rfl hreading hload
  exact ⟨_, .snoc hpath hopen, by simp [hacts, openActs]⟩

theorem exists_path_deleted [Unicode] (formatter : DateFormatter) (lower : Char → List Char) :
    ∃ path device, Path (EventDevice.Step formatter lower) (examNode, launchedEvents) path
      (examNode.erase (EventParser.key exam), device) := by
  obtain ⟨path, hpath, -⟩ := exists_path_fetched formatter lower
  have hscreen : fetchedEvents.screens[0]? = some ⟨⟨[exam], [exam]⟩, .done⟩ := rfl
  have hdeleted : EventsVC.delete (fun _ => newYear) ⟨[exam], [exam]⟩ 0 = some _ := rfl
  exact ⟨_, _, .snoc hpath (.delete hscreen hdeleted)⟩

def markActs : List EventAction := openActs ++ [.mark 0 fun _ => newYear]

/-- Both clients fetch the exam, and one of them marks it. -/
theorem complete_iff_marksFindRecords_opened : ∃ path s,
    Path (Interleave (EventDevice.Step .gregorian latinLower))
      ⟨examNode, fun _ : Bool => launchedEvents⟩ path s ∧
    path.map Taken.act =
      fetchActs.map (fun a => (false, a)) ++ markActs.map (fun a => (true, a)) ∧
    ((∀ k ∈ path, Entries (fun _ r => EventParser.Complete r) k.post.shared) ↔
      MarksFindRecords path) := by
  obtain ⟨fetching, hfetching, hfetchActs⟩ := exists_path_fetched .gregorian latinLower
  obtain ⟨opening, hopening, hopenActs⟩ := exists_path_opened .gregorian latinLower
  have hmark : EventDevice.Step .gregorian latinLower
      (examNode, { fetchedEvents with details := [⟨exam, [exam]⟩] }) (.mark 0 fun _ => newYear) _ :=
    .mark rfl
  obtain ⟨path, hpath, hacts, -⟩ := exists_path_two
    (s := ⟨examNode, fun _ : Bool => launchedEvents⟩) (i := false) (j := true) (by decide)
    hfetching (hopening.snoc hmark)
  refine ⟨path, _, hpath, ?_, (complete_iff_marksFindRecords .gregorian latinLower
    (fun _ => ⟨rfl, rfl, rfl⟩) (recorded_complete.unparse _ (by decide)) hpath).1⟩
  rw [hacts, markActs, ← hfetchActs, ← hopenActs]
  simp only [List.map_append, List.map_cons, List.map_nil, List.map_map, Function.comp_def]

/-- One client marks the event that the other has deleted since. -/
theorem not_complete : ¬ ∀ (formatter : DateFormatter) (lower : Char → List Char)
    (s₀ s : Shared Bool Node EventDevice)
    (path : List (Taken (Shared Bool Node EventDevice) (Bool × EventAction))),
    (∀ i, (s₀.party i).Idle) → Entries (fun _ r => EventParser.Complete r) s₀.shared →
    Path (Interleave (EventDevice.Step formatter lower)) s₀ path s →
    Entries (fun _ r => EventParser.Complete r) s.shared := by
  intro h
  obtain ⟨opening, hopening, -⟩ := exists_path_opened .gregorian latinLower
  obtain ⟨deleting, device, hdeleting⟩ := exists_path_deleted .gregorian latinLower
  obtain ⟨first, hfirst⟩ := exists_path_interleave
    (s := ⟨examNode, fun _ : Bool => launchedEvents⟩) (i := true) hopening
  obtain ⟨second, hsecond⟩ := exists_path_interleave
    (s := ⟨examNode, Function.update (fun _ : Bool => launchedEvents) true
      { fetchedEvents with details := [⟨exam, [exam]⟩] }⟩) (i := false) hdeleting
  have hmark : EventDevice.Step .gregorian latinLower
      (examNode.erase (EventParser.key exam),
        { fetchedEvents with details := [⟨exam, [exam]⟩] }) (.mark 0 fun _ => newYear) _ :=
    .mark rfl
  have hpath := Path.snoc (hfirst.trans hsecond) (Interleave.act (i := true) hmark)
  have hcomplete := h _ _ _ _ _ (fun _ => ⟨rfl, rfl, rfl⟩)
    (recorded_complete.unparse _ (by decide)) hpath
  have hpresent : EventParser.key exam ∈ examNode.erase (EventParser.key exam) :=
    mem_of_complete_setLeaf hcomplete
  exact Finmap.notMem_erase_self hpresent

end Race

end Studkurator
