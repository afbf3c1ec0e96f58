import Studkurator.System.EventSaves

/-!
# Events that every device knows

A form that is opened without a cache has an empty list, and a save stores the whole list of
its form. An event that the server and all caches have is in every list that is decoded from
them, so it stays as long as nothing is opened without a cache, nobody deletes it, and no new
event takes a number that begins with its digit.
-/

namespace Studkurator

open Dictionary Transition

set_option autoImplicit false

variable {formatter : DateFormatter} {lower : Char → List Char} {event : Event}

/-- As it is read from a record, with a date that is printed without losing anything. -/
structure Event.Settled (event : Event) : Prop where
  number : 0 ≤ event.number ∧ event.number ≤ 9
  date : ∃ d, event.date = some d ∧ DateFormatter.readBack .hh d = d

/-- The same event; its picture may be named anew, and it may be marked. -/
structure Event.Remains (event e : Event) : Prop where
  number : e.number = event.number
  name : e.name = event.name
  date : e.date = event.date
  notify : e.notify = event.notify
  isDone : event.isDone = true → e.isDone = true

/-- The event is stored, and no other key is read as its number. -/
structure KnownEvent [Unicode] (formatter : DateFormatter) (event : Event) (node : Node) :
    Prop where
  stored : ∃ e, HasEvent formatter node (EventParser.key event) e ∧ event.Remains e
  alone : ∀ k ∈ node, KeyReads event.number k → k = EventParser.key event

structure ListedEvent [Unicode] (event : Event) (data : List Event) : Prop where
  mem : ∃ e ∈ data, event.Remains e
  alone : ∀ e ∈ data, KeyReads event.number (EventParser.key e) → event.Remains e

theorem keyReads_key_iff [Unicode] {e : Event} (h : 0 ≤ e.number ∧ e.number ≤ 9) (number : ℤ) :
    KeyReads number (EventParser.key e) ↔ e.number = number :=
  keyReads_toString_iff h.1 h.2 number

theorem Event.Remains.stored {e : Event} (hevent : event.Settled) (h : event.Remains e)
    (clock : Event → Date) : event.Remains (EventParser.stored clock e) := by
  obtain ⟨d, hd, hprinted⟩ := hevent.date
  refine ⟨h.number, h.name, ?_, h.notify, h.isDone⟩
  rw [EventParser.stored, h.date, hd, Option.getD_some, hprinted]

theorem Event.Remains.done {e : Event} (h : event.Remains e) :
    event.Remains { e with isDone := true } :=
  ⟨h.number, h.name, h.date, h.notify, fun _ => rfl⟩

namespace ListedEvent
variable {data : List Event}

theorem unparse [Unicode] (hevent : event.Settled) (h : ListedEvent event data)
    (clock : Event → Date) : KnownEvent formatter event (EventParser.unparse clock data) := by
  have hreads : KeyReads event.number (EventParser.key event) :=
    (keyReads_key_iff hevent.number _).mpr rfl
  obtain ⟨e, he, hremains⟩ := h.mem
  have hmem : EventParser.key event ∈ EventParser.unparse clock data := by
    rw [← EventParser.key_eq_of_number hremains.number]
    exact (mem_encode_iff _ _ _ _).mpr (List.mem_map_of_mem he)
  obtain ⟨r, hr⟩ := Finmap.mem_iff.mp hmem
  obtain ⟨e', he', hkey, rfl⟩ := exists_of_lookup_encode _ _ hr
  have hsame := h.alone e' he' (hkey ▸ hreads)
  have hread : EventParser.event formatter (EventParser.key event, EventParser.record clock e') =
      some (EventParser.stored clock e') := by
    rw [← hkey]
    exact EventParser.event_key_record (hsame.number ▸ hevent.number.1)
      (hsame.number ▸ hevent.number.2)
  refine ⟨⟨_, ⟨_, hr, hread⟩, hsame.stored hevent clock⟩, ?_⟩
  intro k hk hreads
  obtain ⟨e'', he'', rfl⟩ := List.mem_map.mp ((mem_encode_iff _ _ _ _).mp hk)
  exact EventParser.key_eq_of_number (h.alone e'' he'' hreads).number

theorem concat [Unicode] (h : ListedEvent event data) {e : Event}
    (he : ¬ KeyReads event.number (EventParser.key e)) : ListedEvent event (data ++ [e]) := by
  obtain ⟨e₀, he₀, hremains⟩ := h.mem
  refine ⟨⟨e₀, List.mem_append_left _ he₀, hremains⟩, ?_⟩
  exact forall_mem_concat h.alone fun hreads => absurd hreads he

theorem eraseIdx [Unicode] (h : ListedEvent event data) {row : ℕ} {e : Event}
    (hrow : data[row]? = some e) (he : e.number ≠ event.number) :
    ListedEvent event (data.eraseIdx row) := by
  obtain ⟨e₀, he₀, hremains⟩ := h.mem
  refine ⟨⟨e₀, ?_, hremains⟩, fun e he => h.alone e (List.mem_of_mem_eraseIdx he)⟩
  obtain ⟨i, hi⟩ := List.mem_iff_getElem?.mp he₀
  refine List.mem_eraseIdx_iff_getElem?.mpr ⟨i, ?_, hi⟩
  intro hi'
  subst hi'
  obtain rfl := Option.some.inj (hrow.symm.trans hi)
  exact he hremains.number

theorem markDone [Unicode] (h : ListedEvent event data) (number : ℤ) :
    ListedEvent event (DetailEventTVC.markDone number data) := by
  have hmark : ∀ e, event.Remains e →
      event.Remains (if e.number = number then { e with isDone := true } else e) := by
    intro e he
    split
    · exact he.done
    · exact he
  obtain ⟨e₀, he₀, hremains⟩ := h.mem
  refine ⟨⟨_, List.mem_map_of_mem he₀, hmark e₀ hremains⟩, ?_⟩
  intro e he hreads
  obtain ⟨e', he', rfl⟩ := List.mem_map.mp he
  apply hmark e' (h.alone e' he' _)
  split at hreads
  · exact hreads
  · exact hreads

end ListedEvent

namespace KnownEvent
variable {node : Node}

theorem parse [Unicode] (h : KnownEvent formatter event node) {order : List (String × Record)}
    (horder : Iterates order node) {data : List Event}
    (hdata : EventParser.parse formatter order = some data) : ListedEvent event data := by
  obtain ⟨e, ⟨r, hr, he⟩, hremains⟩ := h.stored
  refine ⟨⟨e, (horder.mem_decoded_iff hdata e).mpr ⟨_, r, hr, he⟩, hremains⟩, ?_⟩
  intro e' he' hreads
  have hnumber := (keyReads_key_iff (EventParser.parse_bounds hdata he') _).mp hreads
  obtain ⟨k, r', hr', hread⟩ := (horder.mem_decoded_iff hdata e').mp he'
  have hkey := h.alone k (Finmap.mem_of_lookup_eq_some hr')
    ((keyReads_iff _ ((EventParser.event_eq_some_iff _ _ _).mp hread).1).mpr hnumber)
  subst hkey
  obtain rfl := Option.some.inj (hr.symm.trans hr')
  obtain rfl := Option.some.inj (he.symm.trans hread)
  exact hremains

theorem erase [Unicode] (h : KnownEvent formatter event node) {key : String}
    (hkey : key ≠ EventParser.key event) : KnownEvent formatter event (node.erase key) := by
  obtain ⟨e, ⟨r, hr, he⟩, hremains⟩ := h.stored
  refine ⟨⟨e, ⟨r, by rw [Finmap.lookup_erase_ne hkey.symm, hr], he⟩, hremains⟩, ?_⟩
  exact fun k hk => h.alone k (Finmap.mem_erase.mp hk).2

/-- A mark of another event leaves the record alone, one of this event sets its flag. -/
theorem mark [Unicode] (h : KnownEvent formatter event node) {e : Event}
    (he : 0 ≤ e.number ∧ e.number ≤ 9) : KnownEvent formatter event
      (RemoteWrite.apply node (.setLeaf (EventParser.key e) "isDone" "true")) := by
  obtain ⟨e₀, ⟨r, hr, hread⟩, hremains⟩ := h.stored
  rw [RemoteWrite.apply]
  constructor
  · by_cases hkey : EventParser.key event = EventParser.key e
    · rw [← hkey, hr]
      obtain ⟨hnumber, hname, hdate, -, hnotify, himage⟩ :=
        (EventParser.event_eq_some_iff _ _ _).mp hread
      have hother : ∀ field, field ≠ "isDone" →
          (r.insert "isDone" "true").lookup field = r.lookup field :=
        fun _ hfield => Finmap.lookup_insert_of_ne _ hfield
      refine ⟨_, ⟨_, Finmap.lookup_insert _, ?_⟩, hremains.done⟩
      apply (EventParser.event_eq_some_iff _ _ _).mpr
      simp only [Option.getD_some, hother "name" (by decide), hother "date" (by decide),
        hother "notify" (by decide), hother "image" (by decide)]
      exact ⟨hnumber, hname, hdate, ⟨"true", Finmap.lookup_insert _, rfl⟩, hnotify, himage⟩
    · exact ⟨e₀, ⟨r, by rw [Finmap.lookup_insert_of_ne _ hkey, hr], hread⟩, hremains⟩
  · intro k hk hreads
    rcases Finmap.mem_insert.mp hk with rfl | hk
    · exact EventParser.key_eq_of_number ((keyReads_key_iff he _).mp hreads)
    · exact h.alone k hk hreads

end KnownEvent

/-- The event is in all lists of the device but those of screens without an answer, and in
the dictionaries that are cached or on their way. -/
structure DeviceKnowsEvent [Unicode] (formatter : DateFormatter) (event : Event)
    (device : EventDevice) : Prop where
  cached : ∀ dict, device.defaults.lookup "eventDataBase" = some dict →
    KnownEvent formatter event dict
  screens : ∀ screen ∈ device.screens,
    (screen.vc.dataBase = [] ∨ ListedEvent event screen.vc.dataBase) ∧
      ∀ snapshot, screen.fetch = .answered snapshot → KnownEvent formatter event snapshot
  rows : ∀ screen ∈ device.screens, InRange screen.vc.dataBase
  forms : ∀ vc ∈ device.forms, ListedEvent event vc.dataBase
  details : ∀ vc ∈ device.details,
    (0 ≤ vc.event.number ∧ vc.event.number ≤ 9) ∧ ListedEvent event vc.dataBase

theorem deviceKnowsEvent_of_idle [Unicode] {device : EventDevice} (h : device.Idle)
    (hcached : ∀ dict, device.defaults.lookup "eventDataBase" = some dict →
      KnownEvent formatter event dict) : DeviceKnowsEvent formatter event device := by
  obtain ⟨hscreens, hforms, hdetails⟩ := h
  refine ⟨hcached, ?_, ?_, ?_, ?_⟩
  · simp [hscreens]
  · simp [hscreens]
  · simp [hforms]
  · simp [hdetails]

namespace DeviceKnowsEvent
variable {device : EventDevice}

theorem set_screen [Unicode] (h : DeviceKnowsEvent formatter event device) (i : ℕ)
    (screen : Screen EventsVC)
    (hlist : screen.vc.dataBase = [] ∨ ListedEvent event screen.vc.dataBase)
    (hsnapshot : ∀ snapshot, screen.fetch = .answered snapshot →
      KnownEvent formatter event snapshot)
    (hrows : InRange screen.vc.dataBase) :
    DeviceKnowsEvent formatter event { device with screens := device.screens.set i screen } :=
  { h with
    screens := forall_mem_set h.screens ⟨hlist, hsnapshot⟩
    rows := forall_mem_set h.rows hrows }

theorem store [Unicode] (h : DeviceKnowsEvent formatter event device) {dict : Node}
    (hdict : KnownEvent formatter event dict) : DeviceKnowsEvent formatter event { device with
      defaults := device.defaults.store "eventDataBase" (some dict) } := by
  refine { h with cached := ?_ }
  intro value hvalue
  rw [UserDefaults.lookup_store_some] at hvalue
  cases hvalue
  exact hdict

theorem read_cached [Unicode] (h : DeviceKnowsEvent formatter event device)
    {order : List (String × Record)} {data : List Event}
    (hreading : Reading (device.defaults.lookup "eventDataBase") (some order))
    (hparse : EventParser.parse formatter order = some data) : ListedEvent event data := by
  obtain ⟨dict, hdict, horder⟩ := exists_of_reading hreading
  exact (h.cached dict hdict).parse horder hparse

end DeviceKnowsEvent

/-- An action that does not delete the event, stores no new event whose number begins with
its digit, and opens nothing without a cache. -/
def EventAction.Spares (event : Event) (s : Node × EventDevice) : EventAction → Prop
  | delete i row _ => ∀ screen e, s.2.screens[i]? = some screen →
      screen.vc.dataBase[row]? = some e → e.number ≠ event.number
  | save i _ _ => ∀ vc, s.2.forms[i]? = some vc →
      (Decimal.leadingDigit (NewEventTVC.maxNumber vc.dataBase + 1).toNat : ℤ) ≠ event.number
  | openNew | openDetail _ _ => s.2.defaults.lookup "eventDataBase" ≠ none
  | _ => True

theorem not_keyReads_newEvent [Unicode] {vc : NewEventTVC} {form : EventForm} {e : Event}
    (hnew : NewEventTVC.newEvent formatter vc form = some e)
    (hdigit : (Decimal.leadingDigit (NewEventTVC.maxNumber vc.dataBase + 1).toNat : ℤ) ≠
      event.number) : ¬ KeyReads event.number (EventParser.key e) := by
  have hnumber := NewEventTVC.number_newEvent hnew
  have hmax := NewEventTVC.maxNumber_nonneg vc.dataBase
  have hhead := head_indexKey e.number.toNat
  rw [indexKey_eq, Int.toNat_of_nonneg (by omega)] at hhead
  rw [EventParser.key, keyReads_iff _ hhead, hnumber]
  exact hdigit

theorem knownEvent_step [Unicode] (hevent : event.Settled) (s : Node × EventDevice)
    (a : EventAction) (t : Node × EventDevice) (hremote : KnownEvent formatter event s.1)
    (hdevice : DeviceKnowsEvent formatter event s.2) (hspares : a.Spares event s)
    (h : EventDevice.Step formatter lower s a t) :
    KnownEvent formatter event t.1 ∧ DeviceKnowsEvent formatter event t.2 := by
  cases h with
  | loginLoad => exact ⟨hremote, { hdevice with cached := by simp }⟩
  | launch => exact ⟨hremote, deviceKnowsEvent_of_idle ⟨rfl, rfl, rfl⟩ (by simp)⟩
  | eventsLoad =>
    exact ⟨hremote, { hdevice with
      screens := forall_mem_concat hdevice.screens ⟨Or.inl rfl, by simp⟩
      rows := forall_mem_concat hdevice.rows (by simp [InRange]) }⟩
  | answer hscreen hfetch =>
    have hmem := List.mem_of_getElem? hscreen
    have hrows := hdevice.rows _ hmem
    refine ⟨hremote, hdevice.set_screen _ _ (hdevice.screens _ hmem).1 ?_ hrows⟩
    intro snapshot hsnapshot
    cases hsnapshot
    exact hremote
  | @complete remote device i screen snapshot response clock outcome hscreen hfetch hfound horder
      hcompletion =>
    have hmem := List.mem_of_getElem? hscreen
    simp only [EventsVC.fetchCompletion, Option.bind_eq_bind, Option.bind_eq_some_iff,
      Option.pure_def, Option.some.injEq] at hcompletion
    obtain ⟨dataBase, hparse, rfl⟩ := hcompletion
    have hlisted := ((hdevice.screens _ hmem).2 snapshot hfetch).parse horder hparse
    have hset := hdevice.set_screen i ⟨⟨dataBase, dataBase⟩, .done⟩ (Or.inr hlisted) (by simp)
      (EventParser.inRange_of_parse hparse)
    exact ⟨hremote, hset.store (hlisted.unparse hevent clock)⟩
  | giveUp hscreen =>
    have hmem := List.mem_of_getElem? hscreen
    have hrows := hdevice.rows _ hmem
    exact ⟨hremote, hdevice.set_screen _ _ (hdevice.screens _ hmem).1 (by simp) hrows⟩
  | @search remote device i screen text hscreen =>
    have hmem := List.mem_of_getElem? hscreen
    obtain ⟨hlist, hsnapshot⟩ := hdevice.screens _ hmem
    have hrows := hdevice.rows _ hmem
    apply And.intro hremote
    apply hdevice.set_screen
    · rw [EventsVC.updateSearchResults_dataBase]
      exact hlist
    · exact hsnapshot
    · rw [EventsVC.updateSearchResults_dataBase]
      exact hrows
  | @delete remote device i row screen clock outcome hscreen hdelete =>
    have hmem := List.mem_of_getElem? hscreen
    obtain ⟨e, displayed, hrow, -, rfl⟩ := EventsVC.delete_eq_some_iff.mp hdelete
    have hother := hspares screen e hscreen hrow
    obtain ⟨hlist, hsnapshot⟩ := hdevice.screens _ hmem
    rcases hlist with hnil | hlisted
    · simp [hnil] at hrow
    · have hrest := hlisted.eraseIdx hrow hother
      have hrows : InRange (screen.vc.dataBase.eraseIdx row) :=
        fun e he => hdevice.rows _ hmem e (List.mem_of_mem_eraseIdx he)
      have hset := hdevice.set_screen i ⟨⟨screen.vc.dataBase.eraseIdx row,
        screen.vc.filteredDataBase.eraseIdx row⟩, screen.fetch⟩ (Or.inr hrest) hsnapshot hrows
      exact ⟨hremote.erase fun hkey => hother (EventParser.key_injective hkey),
        hset.store (hrest.unparse hevent clock)⟩
  | openNew hreading hload =>
    rcases NewEventTVC.viewDidLoad_eq_some hload with ⟨rfl, -⟩ | ⟨order, rfl, hparse⟩
    · exact absurd (eq_none_of_reading hreading) hspares
    · exact ⟨hremote, { hdevice with
        forms := forall_mem_concat hdevice.forms (hdevice.read_cached hreading hparse) }⟩
  | @save remote device i vc entered clock outcome hvc hsave =>
    obtain ⟨e, hnew, rfl⟩ := NewEventTVC.saveBtnPressed_eq_some_iff.mp hsave
    have hlisted := (hdevice.forms vc (List.mem_of_getElem? hvc)).concat
      (not_keyReads_newEvent hnew (hspares vc hvc))
    exact ⟨hlisted.unparse hevent clock,
      { hdevice with forms := forall_mem_set hdevice.forms hlisted }⟩
  | @openDetail remote device i row screen e value vc hscreen hselect hreading hload =>
    obtain ⟨rfl, hlist⟩ := DetailEventTVC.viewDidLoad_eq_some hload
    rcases hlist with ⟨rfl, -⟩ | ⟨order, rfl, hparse⟩
    · exact absurd (eq_none_of_reading hreading) hspares
    · have hrow := hdevice.rows _ (List.mem_of_getElem? hscreen) vc.event
        (List.mem_of_getElem? hselect)
      exact ⟨hremote, { hdevice with
        details :=
          forall_mem_concat hdevice.details ⟨hrow, hdevice.read_cached hreading hparse⟩ }⟩
  | @mark remote device i vc clock hvc =>
    obtain ⟨hnumber, hlist⟩ := hdevice.details vc (List.mem_of_getElem? hvc)
    have hlisted := hlist.markDone vc.event.number
    have hset : DeviceKnowsEvent formatter event
        { device with details := device.details.set i (vc.markBtnPressed clock).controller } :=
      { hdevice with details := forall_mem_set hdevice.details ⟨hnumber, hlisted⟩ }
    exact ⟨hremote.mark hnumber, hset.store (hlisted.unparse hevent clock)⟩

section Runs
variable {ι : Type} [DecidableEq ι] {s₀ s : Shared ι Node EventDevice}
variable {path : List (Taken (Shared ι Node EventDevice) (ι × EventAction))}

/-- The event is known wherever a device can read events from. -/
structure KnownEverywhere [Unicode] (formatter : DateFormatter) (event : Event)
    (s : Shared ι Node EventDevice) : Prop where
  fetchable : ∀ node, Fetchable s node → KnownEvent formatter event node
  cached : ∀ i dict, (s.party i).defaults.lookup "eventDataBase" = some dict →
    KnownEvent formatter event dict

omit [DecidableEq ι] in
theorem knownEverywhere_of_everywhere [Unicode]
    (h : Everywhere (KnownEvent formatter event) (DeviceKnowsEvent formatter event) s) :
    KnownEverywhere formatter event s := by
  obtain ⟨hremote, hdevice⟩ := h
  refine ⟨?_, fun i => (hdevice i).cached⟩
  intro node hnode
  rcases hnode with rfl | ⟨i, screen, hscreen, hfetch⟩
  · exact hremote
  · exact ((hdevice i).screens screen hscreen).2 node hfetch

/-- An event that the server and all caches know is known to them after any run in which
nobody deletes it or saves another under its digit, and in which forms and details are opened
on a cache only, however old the lists are that are saved. -/
theorem knownEverywhere_of_path [Unicode] (formatter : DateFormatter) (lower : Char → List Char)
    (hevent : event.Settled) (hidle : ∀ i, (s₀.party i).Idle)
    (hknown : KnownEverywhere formatter event s₀)
    (hpath : Path (Interleave (EventDevice.Step formatter lower)) s₀ path s)
    (hspares : ∀ k ∈ path, k.act.2.Spares event (k.pre.shared, k.pre.party k.act.1)) :
    KnownEverywhere formatter event s := by
  have hstep : ∀ (s : Shared ι Node EventDevice) (a : ι × EventAction)
      (t : Shared ι Node EventDevice),
      Everywhere (KnownEvent formatter event) (DeviceKnowsEvent formatter event) s →
      EventAction.Spares event (s.shared, s.party a.1) a.2 →
      Interleave (EventDevice.Step formatter lower) s a t →
        Everywhere (KnownEvent formatter event) (DeviceKnowsEvent formatter event) t :=
    fun s a t hs hspares h => everywhere_step_of_guard (fun s a => EventAction.Spares event s a)
      (knownEvent_step hevent) s a t hs hspares h
  have hstart : Everywhere (KnownEvent formatter event) (DeviceKnowsEvent formatter event) s₀ :=
    ⟨hknown.fetchable _ (Or.inl rfl), fun i =>
      deviceKnowsEvent_of_idle (hidle i) (hknown.cached i)⟩
  exact knownEverywhere_of_everywhere (hpath.invariant_of_guard hstep hspares hstart)

end Runs

theorem settled_exam : exam.Settled := ⟨by decide, _, rfl, rfl⟩

theorem knownEvent_examNode [Unicode] (formatter : DateFormatter) :
    KnownEvent formatter exam examNode := by
  have hlisted : ListedEvent exam [exam] := by
    have hremains : exam.Remains exam := ⟨rfl, rfl, rfl, rfl, id⟩
    refine ⟨⟨exam, List.mem_cons_self, hremains⟩, ?_⟩
    intro e he _
    rw [List.mem_singleton.mp he]
    exact hremains
  exact hlisted.unparse settled_exam fun _ => newYear

def formActs : List EventAction := fetchActs ++ [.openNew]

def saveActs : List EventAction := formActs ++ [.save 0 concertForm fun _ => newYear]

def openedForm : EventDevice := { fetchedEvents with forms := [⟨[exam]⟩] }

theorem spares_save (remote : Node) :
    EventAction.Spares exam (remote, openedForm) (.save 0 concertForm fun _ => newYear) := by
  intro vc hvc
  cases hvc
  have htwo : (NewEventTVC.maxNumber [exam] + 1).toNat = 2 := rfl
  rw [htwo, Decimal.leadingDigit_of_lt (by decide)]
  decide

/-- The exam is fetched, and a form is opened on the cache. -/
theorem exists_path_openedForm [Unicode] (formatter : DateFormatter) (lower : Char → List Char) :
    ∃ path, Path (EventDevice.Step formatter lower) (examNode, launchedEvents) path
        (examNode, openedForm) ∧
      path.map Taken.act = formActs ∧ ∀ k ∈ path, k.act.Spares exam k.pre := by
  obtain ⟨path, hpath, hacts⟩ := exists_path_fetched formatter lower
  have hfetches : ∀ a ∈ fetchActs, ∀ s, a.Spares exam s := by
    simp [fetchActs, EventAction.Spares]
  refine ⟨_, hpath.snoc (step_openExam formatter lower), by simp [formActs, hacts], ?_⟩
  apply forall_mem_concat
  · intro k hk
    exact hfetches k.act (by rw [← hacts]; exact List.mem_map_of_mem hk) _
  · simp [EventAction.Spares, fetchedEvents]

/-- The second of two clients to save takes the event of the first away, but not the exam. -/
theorem knownEverywhere_of_path_two_saves : ∃ path s,
    path.map Taken.act = formActs.map (fun a => (true, a)) ++
      saveActs.map (fun a => (false, a)) ++ [(true, .save 0 concertForm fun _ => newYear)] ∧
    Path (Interleave (EventDevice.Step .gregorian latinLower))
      ⟨examNode, fun _ : Bool => launchedEvents⟩ path s ∧
    KnownEverywhere .gregorian exam s := by
  obtain ⟨opening, hopening, hactsOpening, hsparesOpening⟩ :=
    exists_path_openedForm .gregorian latinLower
  obtain ⟨t, hsave⟩ := exists_step_save latinLower examNode
  obtain ⟨path, hpath, hacts, hstates⟩ := exists_path_two
    (s := ⟨examNode, fun _ : Bool => launchedEvents⟩) (i := true) (j := false) (by decide)
    hopening (hopening.snoc hsave)
  obtain ⟨t', hlast⟩ := exists_step_save latinLower t.1
  have hrun := hpath.snoc (.act (i := true) hlast)
  have hlocal : ∀ k ∈ opening ++ (opening ++ [⟨(examNode, openedForm),
      .save 0 concertForm fun _ => newYear, t⟩]), k.act.Spares exam k.pre :=
    List.forall_mem_append.mpr
      ⟨hsparesOpening, forall_mem_concat hsparesOpening (spares_save examNode)⟩
  refine ⟨_, _, ?_, hrun, knownEverywhere_of_path .gregorian latinLower settled_exam
    (fun _ => ⟨rfl, rfl, rfl⟩) ?_ hrun (forall_mem_concat ?_ (spares_save t.1))⟩
  · rw [List.map_append, hacts, saveActs, ← hactsOpening]
    simp only [List.map_append, List.map_cons, List.map_nil, List.map_map, Function.comp_def]
  · refine ⟨?_, fun i dict hdict => by cases hdict⟩
    intro node hnode
    rcases hnode with rfl | ⟨i, screen, hscreen, -⟩
    · exact knownEvent_examNode .gregorian
    · cases hscreen
  · intro k hk
    obtain ⟨k', hk', hact, hpre⟩ := hstates k hk
    rw [hact, hpre]
    exact hlocal k' hk'

end Studkurator
