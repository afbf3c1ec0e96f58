import Studkurator.System.EventChanges
import Studkurator.System.RosterOrigins

/-!
# Where the records of the events come from

Decoding an event and storing it again keeps its texts together, under the key of the digit
that was read; its date is printed again and its picture named after the digit. An event
becomes done by a mark alone. A mark that finds no record leaves its bare flag, which nobody
can decode, so nothing else comes of it.
-/

namespace Studkurator

open Dictionary Transition

set_option autoImplicit false

variable {formatter : DateFormatter} {lower : Char → List Char}
variable {M : String → Prop} {F Q : Event → Prop} {R E : String → Record → Prop}

/-- `R` is asked of the entries on the server, `E` of those that are encoded and `Q` of the
events of a list. The marked keys meet `M`, the new events `F`. -/
structure EventsCarried [Unicode] (formatter : DateFormatter) (M : String → Prop) (F : Event → Prop)
    (R E : String → Record → Prop) (Q : Event → Prop) : Prop where
  read : ∀ k r e, R k r → EventParser.event formatter (k, r) = some e → Q e
  write : ∀ clock e, Q e → E (EventParser.key e) (EventParser.record clock e)
  weaken : ∀ k r, E k r → R k r
  new : ∀ e, F e → Q e
  done : ∀ e, M (EventParser.key e) → Q e → Q { e with isDone := true }
  mark : ∀ k r, M k → R k r → R k (r.insert "isDone" "true")
  orphan : ∀ k, M k → R k (Finmap.insert "isDone" "true" ∅)

namespace EventsCarried

theorem parse [Unicode] (h : EventsCarried formatter M F R E Q) {node : Node}
    (hnode : Entries R node)
    {order : List (String × Record)} (horder : Iterates order node) {data : List Event}
    (hparse : EventParser.parse formatter order = some data) : ∀ e ∈ data, Q e := by
  intro e he
  obtain ⟨k, r, hr, hevent⟩ := (horder.mem_decoded_iff hparse e).mp he
  exact h.read k r e (hnode k r hr) hevent

theorem unparse [Unicode] (h : EventsCarried formatter M F R E Q) (clock : Event → Date)
    {data : List Event}
    (hdata : ∀ e ∈ data, Q e) : Entries E (EventParser.unparse clock data) :=
  entries_encode fun e he => h.write clock e (hdata e he)

theorem setLeaf [Unicode] (h : EventsCarried formatter M F R E Q) {node : Node}
    (hnode : Entries R node)
    {k : String} (hk : M k) : Entries R (RemoteWrite.apply node (.setLeaf k "isDone" "true")) := by
  rw [RemoteWrite.apply]
  apply hnode.insert
  cases hr : node.lookup k with
  | none => exact h.orphan k hk
  | some r => exact h.mark k r hk (hnode k r hr)

theorem markDone [Unicode] (h : EventsCarried formatter M F R E Q) {event : Event}
    (hmark : M (EventParser.key event)) {data : List Event} (hdata : ∀ e ∈ data, Q e) :
    ∀ e ∈ DetailEventTVC.markDone event.number data, Q e := by
  intro e he
  obtain ⟨e₀, he₀, rfl⟩ := List.mem_map.mp he
  split
  · have hkey : EventParser.key e₀ = EventParser.key event :=
      EventParser.key_eq_of_number (by assumption)
    exact h.done e₀ (hkey ▸ hmark) (hdata e₀ he₀)
  · exact hdata e₀ he₀

end EventsCarried

structure EventScreenHolds (R : String → Record → Prop) (Q : Event → Prop)
    (screen : Screen EventsVC) : Prop where
  dataBase : ∀ e ∈ screen.vc.dataBase, Q e
  filteredDataBase : ∀ e ∈ screen.vc.filteredDataBase, Q e
  snapshot : ∀ snapshot, screen.fetch = .answered snapshot → Entries R snapshot

structure DetailHolds (Q : Event → Prop) (vc : DetailEventTVC) : Prop where
  event : Q vc.event
  dataBase : ∀ e ∈ vc.dataBase, Q e

structure EventDeviceHolds (R E : String → Record → Prop) (Q : Event → Prop)
    (device : EventDevice) : Prop where
  cached : ∀ dict, device.defaults.lookup "eventDataBase" = some dict → Entries E dict
  screens : ∀ screen ∈ device.screens, EventScreenHolds R Q screen
  forms : ∀ vc ∈ device.forms, ∀ e ∈ vc.dataBase, Q e
  details : ∀ vc ∈ device.details, DetailHolds Q vc

namespace EventAction

/-- The event that a save adds to the list of its form. -/
def saved (formatter : DateFormatter) (s : Node × EventDevice) : EventAction → Option Event
  | save i entered _ => (s.2.forms[i]?).bind fun vc => NewEventTVC.newEvent formatter vc entered
  | _ => none

/-- What an action marks meets `M`, and what it adds meets `F`. -/
structure Within (formatter : DateFormatter) (M : String → Prop) (F : Event → Prop)
    (s : Node × EventDevice) (a : EventAction) : Prop where
  marks : ∀ k, (k, RecordChange.marked) ∈ a.changes s → M k
  saves : ∀ e, a.saved formatter s = some e → F e

end EventAction

theorem eventDeviceHolds_of_idle {device : EventDevice} (h : device.Idle)
    (hcached : ∀ dict, device.defaults.lookup "eventDataBase" = some dict → Entries E dict) :
    EventDeviceHolds R E Q device := by
  obtain ⟨hscreens, hforms, hdetails⟩ := h
  refine ⟨hcached, ?_, ?_, ?_⟩
  · simp [hscreens]
  · simp [hforms]
  · simp [hdetails]

namespace EventDeviceHolds
variable {device : EventDevice}

theorem set_screen (h : EventDeviceHolds R E Q device) (i : ℕ) {screen : Screen EventsVC}
    (hscreen : EventScreenHolds R Q screen) :
    EventDeviceHolds R E Q { device with screens := device.screens.set i screen } :=
  { h with screens := forall_mem_set h.screens hscreen }

theorem store (h : EventDeviceHolds R E Q device) {dict : Node} (hdict : Entries E dict) :
    EventDeviceHolds R E Q { device with
      defaults := device.defaults.store "eventDataBase" (some dict) } := by
  refine { h with cached := ?_ }
  intro value hvalue
  rw [UserDefaults.lookup_store_some] at hvalue
  cases hvalue
  exact hdict

/-- The list that a form or a detail screen decodes from the cache. -/
theorem read_cached [Unicode] (h : EventDeviceHolds R E Q device)
    (hcarried : EventsCarried formatter M F R E Q) {order : List (String × Record)}
    {data : List Event}
    (hreading : Reading (device.defaults.lookup "eventDataBase") (some order))
    (hparse : EventParser.parse formatter order = some data) : ∀ e ∈ data, Q e := by
  obtain ⟨dict, hdict, horder⟩ := exists_of_reading hreading
  exact hcarried.parse ((h.cached dict hdict).mono hcarried.weaken) horder hparse

end EventDeviceHolds

theorem eventScreenHolds_search [Unicode] {screen : Screen EventsVC}
    (h : EventScreenHolds R Q screen)
    (lower : Char → List Char) (text : String) :
    EventScreenHolds R Q { screen with
      vc := EventsVC.updateSearchResults lower screen.vc text } := by
  refine ⟨?_, ?_, h.snapshot⟩
  · rw [EventsVC.updateSearchResults_dataBase]
    exact h.dataBase
  · intro e he
    unfold EventsVC.updateSearchResults at he
    split at he
    · exact h.dataBase e he
    · exact h.dataBase e (List.mem_of_mem_filter he)

theorem eventsCarried_step [Unicode] (hcarried : EventsCarried formatter M F R E Q)
    (s : Node × EventDevice)
    (a : EventAction) (t : Node × EventDevice) (hremote : Entries R s.1)
    (hdevice : EventDeviceHolds R E Q s.2) (hwithin : a.Within formatter M F s)
    (h : EventDevice.Step formatter lower s a t) :
    Entries R t.1 ∧ EventDeviceHolds R E Q t.2 := by
  cases h with
  | loginLoad => exact ⟨hremote, { hdevice with cached := by simp }⟩
  | launch => exact ⟨hremote, eventDeviceHolds_of_idle ⟨rfl, rfl, rfl⟩ (by simp)⟩
  | eventsLoad =>
    refine ⟨hremote, { hdevice with screens := forall_mem_concat hdevice.screens ?_ }⟩
    constructor <;> simp
  | answer hscreen hfetch =>
    have hholds := hdevice.screens _ (List.mem_of_getElem? hscreen)
    refine ⟨hremote, hdevice.set_screen _ ⟨hholds.dataBase, hholds.filteredDataBase, ?_⟩⟩
    intro snapshot hsnapshot
    cases hsnapshot
    exact hremote
  | @complete remote device i screen snapshot response clock outcome hscreen hfetch hfound horder
      hcompletion =>
    simp only [EventsVC.fetchCompletion, Option.bind_eq_bind, Option.bind_eq_some_iff,
      Option.pure_def, Option.some.injEq] at hcompletion
    obtain ⟨dataBase, hparse, rfl⟩ := hcompletion
    have hholds := hdevice.screens _ (List.mem_of_getElem? hscreen)
    have hlisted := hcarried.parse (hholds.snapshot snapshot hfetch) horder hparse
    exact ⟨hremote, (hdevice.set_screen i ⟨hlisted, hlisted, by simp⟩).store
      (hcarried.unparse clock hlisted)⟩
  | giveUp hscreen hfetch =>
    have hholds := hdevice.screens _ (List.mem_of_getElem? hscreen)
    exact ⟨hremote, hdevice.set_screen _ ⟨hholds.dataBase, hholds.filteredDataBase, by simp⟩⟩
  | @search remote device i screen text hscreen =>
    have hholds := hdevice.screens _ (List.mem_of_getElem? hscreen)
    exact ⟨hremote, hdevice.set_screen _ (eventScreenHolds_search hholds lower text)⟩
  | @delete remote device i row screen clock outcome hscreen hdelete =>
    have hholds := hdevice.screens _ (List.mem_of_getElem? hscreen)
    obtain ⟨event, displayed, -, -, rfl⟩ := EventsVC.delete_eq_some_iff.mp hdelete
    have hscreen : EventScreenHolds R Q ⟨⟨screen.vc.dataBase.eraseIdx row,
        screen.vc.filteredDataBase.eraseIdx row⟩, screen.fetch⟩ := by
      refine ⟨?_, ?_, hholds.snapshot⟩
      · exact fun e he => hholds.dataBase e (List.mem_of_mem_eraseIdx he)
      · exact fun e he => hholds.filteredDataBase e (List.mem_of_mem_eraseIdx he)
    exact ⟨hremote.erase _, (hdevice.set_screen i hscreen).store
      (hcarried.unparse clock hscreen.dataBase)⟩
  | openNew hreading hload =>
    refine ⟨hremote, { hdevice with forms := forall_mem_concat hdevice.forms ?_ }⟩
    rcases NewEventTVC.viewDidLoad_eq_some hload with ⟨-, hnil⟩ | ⟨order, rfl, hparse⟩
    · simp [hnil]
    · exact hdevice.read_cached hcarried hreading hparse
  | @save remote device i vc entered clock outcome hvc hsave =>
    obtain ⟨event, hevent, rfl⟩ := NewEventTVC.saveBtnPressed_eq_some_iff.mp hsave
    have hnew : F event := hwithin.saves event (by simp [EventAction.saved, hvc, hevent])
    have hlisted := forall_mem_concat (hdevice.forms vc (List.mem_of_getElem? hvc))
      (hcarried.new event hnew)
    exact ⟨(hcarried.unparse clock hlisted).mono hcarried.weaken,
      { hdevice with forms := forall_mem_set hdevice.forms hlisted }⟩
  | @openDetail remote device i row screen event value vc hscreen hselect hreading hload =>
    have hholds := hdevice.screens _ (List.mem_of_getElem? hscreen)
    obtain ⟨rfl, hlist⟩ := DetailEventTVC.viewDidLoad_eq_some hload
    refine ⟨hremote, { hdevice with details := forall_mem_concat hdevice.details ⟨?_, ?_⟩ }⟩
    · exact hholds.dataBase _ (List.mem_of_getElem? hselect)
    · rcases hlist with ⟨-, hnil⟩ | ⟨order, rfl, hparse⟩
      · simp [hnil]
      · exact hdevice.read_cached hcarried hreading hparse
  | @mark remote device i vc clock hvc =>
    have hholds := hdevice.details vc (List.mem_of_getElem? hvc)
    have hmark : M (EventParser.key vc.event) :=
      hwithin.marks _ (by simp [EventAction.changes, hvc])
    have hlisted := hcarried.markDone hmark hholds.dataBase
    have hset : EventDeviceHolds R E Q
        { device with details := device.details.set i (vc.markBtnPressed clock).controller } :=
      { hdevice with details := forall_mem_set hdevice.details ⟨hholds.event, hlisted⟩ }
    exact ⟨hcarried.setLeaf hremote hmark, hset.store (hcarried.unparse clock hlisted)⟩

/-- `k` is `k₀` or the key under which an event is stored that was read under `k₀`. -/
def KeptAs [Unicode] (k₀ k : String) : Prop := k = k₀ ∨ ReadAs k₀ k

theorem KeptAs.read [Unicode] {k₀ k k' : String} (h : KeptAs k₀ k) (h' : ReadAs k k') :
    KeptAs k₀ k' := by
  rcases h with rfl | h
  · exact Or.inr h'
  · exact Or.inr (h.trans h')

/-- The date of a record, where its text can be read. -/
def readDate (formatter : DateFormatter) (r : Record) : Option Date :=
  (r.lookup "date").bind (formatter.date .hh)

/-- The record tells the same event as `r₀`, stored again under `k` any number of times and
perhaps marked. A date is printed once more; the clock stands in for one that nobody reads. -/
structure Continues [Unicode] (formatter : DateFormatter) (M : String → Prop) (r₀ : Record)
    (k : String)
    (r : Record) : Prop where
  name : r.lookup "name" = r₀.lookup "name"
  date : r.lookup "date" = r₀.lookup "date" ∨
    ∃ d, r.lookup "date" = some (DateFormatter.string .hh d) ∧ ∀ d₀ ∈ readDate formatter r₀, d₀ = d
  isDone : r.lookup "isDone" = r₀.lookup "isDone" ∨
    r.lookup "isDone" = some "true" ∧ ∃ marked, M marked ∧ KeptAs marked k
  notify : r.lookup "notify" = r₀.lookup "notify"
  image : r.lookup "image" = r₀.lookup "image" ∨
    ∃ number : ℤ, k = toString number ++ "k" ∧
      r.lookup "image" = some ("event" ++ toString number)

/-- The record continues one of `O`, under its key or the one under which it is read. -/
def Drawn [Unicode] (formatter : DateFormatter) (O : String → Record → Prop) (M : String → Prop)
    (k : String) (r : Record) : Prop :=
  ∃ k₀ r₀, O k₀ r₀ ∧ KeptAs k₀ k ∧ Continues formatter M r₀ k r

/-- A record that continues one of `O`, or the flag of a mark that found no record. -/
def DrawnOrBare [Unicode] (formatter : DateFormatter) (O : String → Record → Prop)
    (M : String → Prop)
    (k : String) (r : Record) : Prop :=
  Drawn formatter O M k r ∨ M k ∧ r = Finmap.insert "isDone" "true" ∅

/-- An event of a list, at whatever time it is encoded. -/
def DrawnEvent [Unicode] (formatter : DateFormatter) (O : String → Record → Prop)
    (M : String → Prop)
    (e : Event) : Prop :=
  ∀ clock, Drawn formatter O M (EventParser.key e) (EventParser.record clock e)

section Drawn
variable {O : String → Record → Prop} {clock : Event → Date}

theorem drawn_self [Unicode] {k : String} {r : Record} (h : O k r) : Drawn formatter O M k r :=
  ⟨k, r, h, Or.inl rfl, rfl, Or.inl rfl, Or.inl rfl, rfl, Or.inl rfl⟩

theorem readAs_key_event [Unicode] {k : String} {r : Record} {e : Event}
    (h : EventParser.event formatter (k, r) = some e) : ReadAs k (EventParser.key e) := by
  obtain ⟨⟨c, hc, hn⟩, -⟩ := (EventParser.event_eq_some_iff k r e).mp h
  exact ⟨c, e.number, hc, hn, rfl⟩

theorem eq_toString_of_boolOfString {text : String} {flag : Bool}
    (h : boolOfString text = some flag) : text = toString flag := by
  rcases EventParser.eq_true_or_false_of_boolOfString h with rfl | rfl
  · cases h
    rfl
  · cases h
    rfl

theorem fields_of_event [Unicode] {k : String} {r : Record} {e : Event}
    (h : EventParser.event formatter (k, r) = some e) :
    r.lookup "name" = some e.name ∧ readDate formatter r = e.date ∧
      r.lookup "isDone" = some (toString e.isDone) ∧
      r.lookup "notify" = some (toString e.notify) := by
  obtain ⟨-, hname, ⟨date, hdate, hread⟩, ⟨done, hdone, hisDone⟩, ⟨note, hnote, hnotify⟩, -⟩ :=
    (EventParser.event_eq_some_iff k r e).mp h
  refine ⟨hname, ?_, ?_, ?_⟩
  · rw [readDate, hdate, Option.bind_some, hread]
  · rw [hdone, eq_toString_of_boolOfString hisDone]
  · rw [hnote, eq_toString_of_boolOfString hnotify]

/-- Reading a date and printing it again changes it no more than once. -/
theorem Continues.date_event [Unicode] {r₀ r : Record} {k : String} {e : Event}
    (h : Continues formatter M r₀ k r) (hread : readDate formatter r = e.date) :
    ∃ d, (EventParser.record clock e).lookup "date" = some (DateFormatter.string .hh d) ∧
      ∀ d₀ ∈ readDate formatter r₀, d₀ = d := by
  have hdate := (EventParser.lookup_record clock e).2.1
  rcases h.date with hkept | ⟨d, hd, horigin⟩
  · refine ⟨_, hdate, ?_⟩
    intro d₀ hd₀
    have hsame : readDate formatter r = readDate formatter r₀ := by
      rw [readDate, readDate, hkept]
    rw [← hread, hsame, Option.mem_def.mp hd₀, Option.getD_some]
  · refine ⟨d, ?_, horigin⟩
    rw [readDate, hd, Option.bind_some, formatter.date_string] at hread
    rw [hdate, ← hread, Option.getD_some, DateFormatter.string_hh_readBack]

theorem Continues.event [Unicode] {r₀ r : Record} {k : String} {e : Event}
    (h : Continues formatter M r₀ k r) (hevent : EventParser.event formatter (k, r) = some e)
    (clock : Event → Date) :
    Continues formatter M r₀ (EventParser.key e) (EventParser.record clock e) := by
  obtain ⟨hname, hread, hisDone, hnotify⟩ := fields_of_event hevent
  obtain ⟨hname', -, hisDone', hnotify', himage'⟩ := EventParser.lookup_record clock e
  refine ⟨?_, Or.inr (h.date_event hread), ?_, ?_, Or.inr ⟨e.number, rfl, himage'⟩⟩
  · rw [hname', ← hname, h.name]
  · rw [hisDone', ← hisDone]
    rcases h.isDone with hkept | ⟨htrue, marked, hmarked, hkey⟩
    · exact Or.inl hkept
    · exact Or.inr ⟨htrue, marked, hmarked, hkey.read (readAs_key_event hevent)⟩
  · rw [hnotify', ← hnotify, h.notify]

theorem Continues.mark [Unicode] {r₀ r : Record} {k : String} (h : Continues formatter M r₀ k r)
    (hk : M k) : Continues formatter M r₀ k (r.insert "isDone" "true") := by
  have hother : ∀ field, field ≠ "isDone" →
      (r.insert "isDone" "true").lookup field = r.lookup field :=
    fun _ hfield => Finmap.lookup_insert_of_ne _ hfield
  refine ⟨?_, ?_, Or.inr ⟨Finmap.lookup_insert _, k, hk, Or.inl rfl⟩, ?_, ?_⟩
  · rw [hother "name" (by decide), h.name]
  · rw [hother "date" (by decide)]
    exact h.date
  · rw [hother "notify" (by decide), h.notify]
  · rw [hother "image" (by decide)]
    exact h.image

theorem drawnEvent_of_event [Unicode] {k : String} {r : Record} {e : Event}
    (h : DrawnOrBare formatter O M k r)
    (hevent : EventParser.event formatter (k, r) = some e) : DrawnEvent formatter O M e := by
  intro clock
  rcases h with ⟨k₀, r₀, horigin, hkey, hsame⟩ | ⟨-, rfl⟩
  · exact ⟨k₀, r₀, horigin, hkey.read (readAs_key_event hevent), hsame.event hevent clock⟩
  · -- A bare flag has no name to decode.
    have hname := (fields_of_event hevent).1
    rw [Finmap.lookup_insert_of_ne _ (by decide)] at hname
    cases hname

theorem drawnEvent_done [Unicode] {e : Event} (hmark : M (EventParser.key e))
    (h : DrawnEvent formatter O M e) : DrawnEvent formatter O M { e with isDone := true } := by
  intro clock
  -- The clock may tell the marked event another time than the event before.
  obtain ⟨k₀, r₀, horigin, hkey, hsame⟩ := h fun _ => clock { e with isDone := true }
  obtain ⟨hname, hdate, -, hnotify, -⟩ :=
    EventParser.lookup_record (fun _ => clock { e with isDone := true }) e
  obtain ⟨hname', hdate', hisDone', hnotify', himage'⟩ :=
    EventParser.lookup_record clock { e with isDone := true }
  refine ⟨k₀, r₀, horigin, hkey, ?_, ?_, Or.inr ⟨hisDone', _, hmark, Or.inl rfl⟩, ?_,
    Or.inr ⟨e.number, rfl, himage'⟩⟩
  · rw [hname', ← hsame.name, hname]
  · rw [hdate', ← hdate]
    exact hsame.date
  · rw [hnotify', ← hsame.notify, hnotify]

theorem eventsCarried_drawn [Unicode]
    (h : ∀ e, F e → ∀ clock, O (EventParser.key e) (EventParser.record clock e)) :
    EventsCarried formatter M F (DrawnOrBare formatter O M) (Drawn formatter O M)
      (DrawnEvent formatter O M) where
  read _ _ _ hr hevent := drawnEvent_of_event hr hevent
  write clock _ he := he clock
  weaken _ _ hr := Or.inl hr
  new e he clock := drawn_self (h e he clock)
  done _ hmark he := drawnEvent_done hmark he
  mark := by
    rintro k r hk (⟨k₀, r₀, horigin, hkey, hsame⟩ | ⟨-, rfl⟩)
    · exact Or.inl ⟨k₀, r₀, horigin, hkey, hsame.mark hk⟩
    · exact Or.inr ⟨hk, Finmap.insert_insert ∅⟩
  orphan _ hk := Or.inr ⟨hk, rfl⟩

end Drawn

section Runs
variable {ι : Type}

/-- The events that the saves of a run add to their lists. -/
def savedIn (formatter : DateFormatter)
    (path : List (Taken (Shared ι Node EventDevice) (ι × EventAction))) : List Event :=
  path.flatMap fun k => (k.act.2.saved formatter (k.pre.shared, k.pre.party k.act.1)).toList

def MarkedIn (path : List (Taken (Shared ι Node EventDevice) (ι × EventAction)))
    (k : String) : Prop :=
  (k, RecordChange.marked) ∈ changesOf path

/-- What the server and the caches held at the start, and what was saved since. -/
inductive EventOrigin (formatter : DateFormatter) (s₀ : Shared ι Node EventDevice)
    (path : List (Taken (Shared ι Node EventDevice) (ι × EventAction))) :
    String → Record → Prop where
  | remote {k : String} {r : Record} : s₀.shared.lookup k = some r →
      EventOrigin formatter s₀ path k r
  | cached {i : ι} {dict : Node} {k : String} {r : Record} :
      (s₀.party i).defaults.lookup "eventDataBase" = some dict → dict.lookup k = some r →
      EventOrigin formatter s₀ path k r
  | saved {event : Event} {clock : Event → Date} : event ∈ savedIn formatter path →
      EventOrigin formatter s₀ path (EventParser.key event) (EventParser.record clock event)

structure EventsTraceable [Unicode] (formatter : DateFormatter) (O : String → Record → Prop)
    (M : String → Prop) (s : Shared ι Node EventDevice) : Prop where
  entries : ∀ node, Fetchable s node → Entries (DrawnOrBare formatter O M) node
  cached : ∀ i dict, (s.party i).defaults.lookup "eventDataBase" = some dict →
    Entries (Drawn formatter O M) dict
  listed : ∀ i, ∀ screen ∈ (s.party i).screens, ∀ e ∈ screen.vc.filteredDataBase,
    DrawnEvent formatter O M e
  opened : ∀ i, ∀ vc ∈ (s.party i).details, ∀ e ∈ vc.event :: vc.dataBase,
    DrawnEvent formatter O M e
  forms : ∀ i, ∀ vc ∈ (s.party i).forms, ∀ e ∈ vc.dataBase, DrawnEvent formatter O M e

theorem eventsTraceable_of_everywhere [Unicode] {O : String → Record → Prop}
    {s : Shared ι Node EventDevice}
    (h : Everywhere (Entries (DrawnOrBare formatter O M))
      (EventDeviceHolds (DrawnOrBare formatter O M) (Drawn formatter O M)
        (DrawnEvent formatter O M)) s) :
    EventsTraceable formatter O M s := by
  obtain ⟨hremote, hdevice⟩ := h
  refine ⟨?_, fun i => (hdevice i).cached, ?_, ?_, fun i => (hdevice i).forms⟩
  · rintro node (rfl | ⟨i, screen, hscreen, hfetch⟩)
    · exact hremote
    · exact ((hdevice i).screens screen hscreen).snapshot node hfetch
  · intro i screen hscreen
    exact ((hdevice i).screens screen hscreen).filteredDataBase
  · intro i vc hvc
    have hdetail := (hdevice i).details vc hvc
    exact List.forall_mem_cons.mpr ⟨hdetail.event, hdetail.dataBase⟩

variable [DecidableEq ι] {s₀ s : Shared ι Node EventDevice}
variable {path : List (Taken (Shared ι Node EventDevice) (ι × EventAction))}

omit [DecidableEq ι] in
theorem within_of_mem {k : Taken (Shared ι Node EventDevice) (ι × EventAction)} (hk : k ∈ path) :
    k.act.2.Within formatter (MarkedIn path) (· ∈ savedIn formatter path)
      (k.pre.shared, k.pre.party k.act.1) := by
  constructor
  · intro key hmark
    exact List.mem_flatMap.mpr ⟨k, hk, hmark⟩
  · intro e he
    exact List.mem_flatMap.mpr ⟨k, hk, by simp [he]⟩

/-- No event is made up and none becomes done by itself: whatever a client of a run stores,
caches, fetches or shows continues one record from the start or from a save, or is the bare
flag of a mark that came too late. -/
theorem eventsTraceable_of_path [Unicode] (formatter : DateFormatter) (lower : Char → List Char)
    (hidle : ∀ i, (s₀.party i).Idle)
    (hpath : Path (Interleave (EventDevice.Step formatter lower)) s₀ path s) :
    EventsTraceable formatter (EventOrigin formatter s₀ path) (MarkedIn path) s := by
  apply eventsTraceable_of_everywhere
  have hsaved : ∀ e ∈ savedIn formatter path, ∀ clock,
      EventOrigin formatter s₀ path (EventParser.key e) (EventParser.record clock e) :=
    fun e he clock => .saved he
  have hcarried : EventsCarried formatter (MarkedIn path) (· ∈ savedIn formatter path) _ _ _ :=
    eventsCarried_drawn hsaved
  refine hpath.invariant_of_guard (fun s a t hs hwithin h => everywhere_step_of_guard
    (fun s a => EventAction.Within formatter _ _ s a) (eventsCarried_step hcarried)
    s a t hs hwithin h) (fun k hk => within_of_mem hk) ⟨?_, ?_⟩
  · intro k r hr
    exact Or.inl (drawn_self (.remote hr))
  · intro i
    refine eventDeviceHolds_of_idle (hidle i) ?_
    intro dict hdict k r hr
    exact drawn_self (.cached hdict hr)

end Runs

/-- One client fetches the exam, opens it and marks it. -/
theorem exists_path_marked [Unicode] : ∃ path s,
    Path (Interleave (EventDevice.Step .gregorian latinLower))
      ⟨examNode, fun _ : Bool => launchedEvents⟩ path s ∧
      MarkedIn path (EventParser.key exam) := by
  obtain ⟨opening, hopening, -⟩ := exists_path_opened .gregorian latinLower
  have hmark : EventDevice.Step .gregorian latinLower
      (examNode, { fetchedEvents with details := [⟨exam, [exam]⟩] })
      (.mark 0 fun _ => newYear) _ := .mark rfl
  obtain ⟨path, hpath⟩ := exists_path_interleave
    (s := ⟨examNode, fun _ : Bool => launchedEvents⟩) (i := true) hopening
  have hlast : Path (Interleave (EventDevice.Step .gregorian latinLower)) _ _ _ :=
    hpath.snoc (Interleave.act (i := true) (by simpa using hmark))
  refine ⟨_, _, hlast, ?_⟩
  simp [MarkedIn, changesOf, EventAction.changes]

theorem eventsTraceable_of_path_marked : ∃ path s,
    Path (Interleave (EventDevice.Step .gregorian latinLower))
      ⟨examNode, fun _ : Bool => launchedEvents⟩ path s ∧ MarkedIn path (EventParser.key exam) ∧
      EventsTraceable .gregorian
        (EventOrigin .gregorian ⟨examNode, fun _ : Bool => launchedEvents⟩ path)
        (MarkedIn path) s := by
  obtain ⟨path, s, hpath, hmarked⟩ := exists_path_marked
  exact ⟨path, s, hpath, hmarked,
    eventsTraceable_of_path .gregorian latinLower (fun _ => ⟨rfl, rfl, rfl⟩) hpath⟩

end Studkurator
