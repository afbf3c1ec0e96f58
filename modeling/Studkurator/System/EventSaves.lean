import Studkurator.Model.EventReload
import Studkurator.System.EventCompleteness

/-!
# Saving a new event next to the others

A save replaces the whole `eventDataBase` by the list of its form. The number of the new
event is free in that list, so the other events stay exactly when the list has them all;
a form that was opened without a cache has none. An event is what is read from a record: its
number, name, date and flags, while its picture may be named anew.
-/

namespace Studkurator

open Dictionary Transition

set_option autoImplicit false

variable {formatter : DateFormatter} {lower : Char → List Char}

/-- The cache has keys of one digit only, whatever the server has; so the lists that are
decoded from it have distinct numbers. -/
structure CachesOneDigit (device : EventDevice) : Prop where
  cached : ∀ dict, device.defaults.lookup "eventDataBase" = some dict →
    Entries (fun k _ => OneDigit k) dict
  screens : ∀ screen ∈ device.screens, InRange screen.vc.dataBase
  details : ∀ vc ∈ device.details, InRange vc.dataBase
  forms : ∀ vc ∈ device.forms,
    (vc.dataBase.map Event.number).Nodup ∧ ∀ e ∈ vc.dataBase, 0 ≤ e.number

theorem cachesOneDigit_of_idle {device : EventDevice} (h : device.Idle)
    (hcached : ∀ dict, device.defaults.lookup "eventDataBase" = some dict →
      Entries (fun k _ => OneDigit k) dict) : CachesOneDigit device := by
  obtain ⟨hscreens, hforms, hdetails⟩ := h
  refine ⟨hcached, ?_, ?_, ?_⟩
  · simp [hscreens]
  · simp [hdetails]
  · simp [hforms]

theorem CachesOneDigit.store {device : EventDevice} (h : CachesOneDigit device) {dict : Node}
    (hdict : Entries (fun k _ => OneDigit k) dict) :
    CachesOneDigit { device with
      defaults := device.defaults.store "eventDataBase" (some dict) } := by
  refine { h with cached := ?_ }
  intro value hvalue
  rw [UserDefaults.lookup_store_some] at hvalue
  cases hvalue
  exact hdict

theorem CachesOneDigit.set_screen {device : EventDevice} (h : CachesOneDigit device) (i : ℕ)
    (screen : Screen EventsVC) (hscreen : InRange screen.vc.dataBase) :
    CachesOneDigit { device with screens := device.screens.set i screen } :=
  { h with screens := forall_mem_set h.screens hscreen }

theorem inRange_markDone (number : ℤ) {data : List Event} (h : InRange data) :
    InRange (DetailEventTVC.markDone number data) := by
  intro e he
  obtain ⟨e', he', rfl⟩ := List.mem_map.mp he
  have hbounds := h e' he'
  split <;> exact hbounds

theorem numbers_newEvent {vc : NewEventTVC} {form : EventForm} {event : Event}
    (hvc : (vc.dataBase.map Event.number).Nodup ∧ ∀ e ∈ vc.dataBase, 0 ≤ e.number)
    (h : NewEventTVC.newEvent formatter vc form = some event) :
    ((vc.dataBase ++ [event]).map Event.number).Nodup ∧
      ∀ e ∈ vc.dataBase ++ [event], 0 ≤ e.number := by
  have hnumber := NewEventTVC.number_newEvent h
  have hmax := NewEventTVC.maxNumber_nonneg vc.dataBase
  refine ⟨?_, forall_mem_concat hvc.2 (by omega)⟩
  rw [List.map_append, List.nodup_append]
  refine ⟨hvc.1, by simp, ?_⟩
  intro n hn m hm
  obtain ⟨e, he, rfl⟩ := List.mem_map.mp hn
  have hlt := NewEventTVC.lt_number_newEvent h he
  simp only [List.map_cons, List.map_nil, List.mem_singleton] at hm
  omega

theorem cachesOneDigit_step [Unicode] (s : Node × EventDevice) (a : EventAction)
    (t : Node × EventDevice)
    (hdevice : CachesOneDigit s.2) (h : EventDevice.Step formatter lower s a t) :
    CachesOneDigit t.2 := by
  cases h with
  | loginLoad => exact { hdevice with cached := by simp }
  | launch => exact cachesOneDigit_of_idle ⟨rfl, rfl, rfl⟩ (by simp)
  | eventsLoad =>
    exact { hdevice with screens := forall_mem_concat hdevice.screens (by simp [InRange]) }
  | answer hscreen =>
    have hrange := hdevice.screens _ (List.mem_of_getElem? hscreen)
    exact hdevice.set_screen _ _ hrange
  | @complete remote device i screen snapshot response clock outcome hscreen hfetch hfound horder
      hcompletion =>
    obtain ⟨hparse, hcached, -⟩ := EventsVC.fetchCompletion_eq_some hcompletion
    have hrange := EventParser.inRange_of_parse hparse
    simp only [EventDevice.issue, hcached]
    exact (hdevice.set_screen i ⟨outcome.controller, .done⟩ hrange).store
      (EventParser.oneDigit_unparse clock hrange)
  | giveUp hscreen =>
    have hrange := hdevice.screens _ (List.mem_of_getElem? hscreen)
    exact hdevice.set_screen _ _ hrange
  | @search remote device i screen text hscreen =>
    have hrange := hdevice.screens _ (List.mem_of_getElem? hscreen)
    apply hdevice.set_screen
    rw [EventsVC.updateSearchResults_dataBase]
    exact hrange
  | @delete remote device i row screen clock outcome hscreen hdelete =>
    have hrange := hdevice.screens _ (List.mem_of_getElem? hscreen)
    obtain ⟨event, displayed, -, -, rfl⟩ := EventsVC.delete_eq_some_iff.mp hdelete
    have hrest : InRange (screen.vc.dataBase.eraseIdx row) :=
      fun e he => hrange e (List.mem_of_mem_eraseIdx he)
    exact (hdevice.set_screen i _ hrest).store (EventParser.oneDigit_unparse clock hrest)
  | openNew hreading hload =>
    refine { hdevice with forms := forall_mem_concat hdevice.forms ?_ }
    rcases NewEventTVC.viewDidLoad_eq_some hload with ⟨-, hnil⟩ | ⟨order, rfl, hparse⟩
    · simp [hnil]
    · obtain ⟨dict, hdict, horder⟩ := exists_of_reading hreading
      exact ⟨EventParser.nodup_numbers_of_parse (hdevice.cached dict hdict) horder hparse,
        forall_number_nonneg_of_parse hparse⟩
  | save hvc hsave =>
    obtain ⟨event, hevent, rfl⟩ := NewEventTVC.saveBtnPressed_eq_some_iff.mp hsave
    have hnumbers := hdevice.forms _ (List.mem_of_getElem? hvc)
    exact { hdevice with
      forms := forall_mem_set hdevice.forms (numbers_newEvent hnumbers hevent) }
  | openDetail hscreen hrow hreading hload =>
    refine { hdevice with details := forall_mem_concat hdevice.details ?_ }
    rcases (DetailEventTVC.viewDidLoad_eq_some hload).2 with ⟨-, hnil⟩ | ⟨order, -, hparse⟩
    · simp [hnil, InRange]
    · exact EventParser.inRange_of_parse hparse
  | @mark remote device i vc clock hvc =>
    have hrange := inRange_markDone vc.event.number
      (hdevice.details _ (List.mem_of_getElem? hvc))
    have hset : CachesOneDigit
        { device with details := device.details.set i (vc.markBtnPressed clock).controller } :=
      { hdevice with details := forall_mem_set hdevice.details hrange }
    exact hset.store (EventParser.oneDigit_unparse clock hrange)

/-- The same event, whatever its picture is called. -/
structure Event.SameAs (e e' : Event) : Prop where
  number : e.number = e'.number
  name : e.name = e'.name
  date : e.date = e'.date
  isDone : e.isDone = e'.isDone
  notify : e.notify = e'.notify

/-- An event of a list that is stored so that it is read as `e'`: its number begins with the
digit of `e'`, and its date is printed as that of `e'`. -/
structure Event.StandsFor (clock : Event → Date) (e e' : Event) : Prop where
  number : (Decimal.leadingDigit e.number.toNat : ℤ) = e'.number
  name : e.name = e'.name
  date : some (DateFormatter.readBack .hh (e.date.getD (clock e))) = e'.date
  isDone : e.isDone = e'.isDone
  notify : e.notify = e'.notify

/-- The record of `node` under `k` is read as `e`. -/
def HasEvent [Unicode] (formatter : DateFormatter) (node : Node) (k : String) (e : Event) : Prop :=
  ∃ r, node.lookup k = some r ∧ EventParser.event formatter (k, r) = some e

theorem HasEvent.eq [Unicode] {node : Node} {k : String} {e e' : Event}
    (h : HasEvent formatter node k e)
    (h' : HasEvent formatter node k e') : e = e' := by
  obtain ⟨r, hr, he⟩ := h
  obtain ⟨r', hr', he'⟩ := h'
  obtain rfl := Option.some.inj (hr.symm.trans hr')
  exact Option.some.inj (he.symm.trans he')

namespace EventAction

/-- After a save every event that was on the server is there, each under a key of its own
other than that of the new event. -/
def KeepsOthers [Unicode] (formatter : DateFormatter) (s : Node × EventDevice) (t : Node) :
    EventAction → Prop
  | save i _ _ => ∀ vc, s.2.forms[i]? = some vc →
      ∃ f : String → String, Set.InjOn f {k | ∃ e, HasEvent formatter s.1 k e} ∧
        ∀ k e, HasEvent formatter s.1 k e →
          f k ≠ toString (NewEventTVC.maxNumber vc.dataBase + 1) ++ "k" ∧
            ∃ e', e.SameAs e' ∧ HasEvent formatter t (f k) e'
  | _ => True

/-- When an event is saved, the list of the form has an event for every one on the server. -/
def Covers [Unicode] (formatter : DateFormatter) (s : Node × EventDevice) : EventAction → Prop
  | save i _ clock => ∀ vc, s.2.forms[i]? = some vc →
      ∃ f : String → Event, Set.InjOn f {k | ∃ e, HasEvent formatter s.1 k e} ∧
        ∀ k e, HasEvent formatter s.1 k e → f k ∈ vc.dataBase ∧ (f k).StandsFor clock e
  | _ => True

end EventAction

/-- A stored event is read with the first digit of its number. -/
theorem exists_event_record [Unicode] (formatter : DateFormatter) (clock : Event → Date)
    {e : Event} (h : 0 ≤ e.number) :
    ∃ e', EventParser.event formatter (EventParser.key e, EventParser.record clock e) = some e' ∧
      ∀ e₀ : Event, e₀.SameAs e' ↔ e.StandsFor clock e₀ := by
  obtain ⟨hname, hdate, hisDone, hnotify, himage⟩ := EventParser.lookup_record clock e
  obtain ⟨c, hc, hn⟩ := head_indexKey e.number.toNat
  rw [indexKey_eq, Int.toNat_of_nonneg h] at hc
  refine ⟨⟨e.name, some (DateFormatter.readBack .hh (e.date.getD (clock e))), e.isDone, e.notify,
    "event" ++ toString e.number, Decimal.leadingDigit e.number.toNat⟩,
    (EventParser.event_eq_some_iff _ _ _).mpr ⟨⟨c, hc, hn⟩, hname,
      ⟨_, hdate, formatter.date_string .hh _⟩, ⟨_, hisDone, boolOfString_toString _⟩,
      ⟨_, hnotify, boolOfString_toString _⟩, himage⟩, ?_⟩
  intro e₀
  constructor
  · rintro ⟨hnumber, hname, hdate, hisDone, hnotify⟩
    exact ⟨hnumber.symm, hname.symm, hdate.symm, hisDone.symm, hnotify.symm⟩
  · rintro ⟨hnumber, hname, hdate, hisDone, hnotify⟩
    exact ⟨hnumber.symm, hname.symm, hdate.symm, hisDone.symm, hnotify.symm⟩

theorem exists_sameAs_unparse_iff [Unicode] (clock : Event → Date) {data : List Event}
    (hdata : (data.map Event.number).Nodup ∧ ∀ e ∈ data, 0 ≤ e.number) (e : Event) (k : String) :
    (∃ e', e.SameAs e' ∧ HasEvent formatter (EventParser.unparse clock data) k e') ↔
      ∃ a ∈ data, EventParser.key a = k ∧ a.StandsFor clock e := by
  have hlookup : ∀ k r, (EventParser.unparse clock data).lookup k = some r ↔
      ∃ a ∈ data, EventParser.key a = k ∧ EventParser.record clock a = r :=
    lookup_encode_eq_some_iff _ _ (EventParser.nodup_keys hdata.1)
  constructor
  · rintro ⟨e', hsame, r, hr, he'⟩
    obtain ⟨a, ha, rfl, rfl⟩ := (hlookup k r).mp hr
    obtain ⟨e'', he'', hstands⟩ := exists_event_record formatter clock (hdata.2 a ha)
    obtain rfl : e' = e'' := Option.some.inj (he'.symm.trans he'')
    exact ⟨a, ha, rfl, (hstands e).mp hsame⟩
  · rintro ⟨a, ha, rfl, hstands⟩
    obtain ⟨e', he', hiff⟩ := exists_event_record formatter clock (hdata.2 a ha)
    exact ⟨e', (hiff e).mpr hstands, _, (hlookup _ _).mpr ⟨a, ha, rfl, rfl⟩, he'⟩

theorem exists_injOn_saved_iff [Unicode] (node : Node) (clock : Event → Date) {vc : NewEventTVC}
    {form : EventForm} {event : Event}
    (hvc : (vc.dataBase.map Event.number).Nodup ∧ ∀ e ∈ vc.dataBase, 0 ≤ e.number)
    (hevent : NewEventTVC.newEvent formatter vc form = some event) :
    (∃ f : String → String, Set.InjOn f {k | ∃ e, HasEvent formatter node k e} ∧
      ∀ k ∈ {k | ∃ e, HasEvent formatter node k e}, ∀ e, HasEvent formatter node k e →
        f k ≠ EventParser.key event ∧ ∃ e', e.SameAs e' ∧
          HasEvent formatter (EventParser.unparse clock (vc.dataBase ++ [event])) (f k) e') ↔
      ∃ f : String → Event, Set.InjOn f {k | ∃ e, HasEvent formatter node k e} ∧
        ∀ k ∈ {k | ∃ e, HasEvent formatter node k e},
          f k ∈ vc.dataBase ∧ ∀ e, HasEvent formatter node k e → (f k).StandsFor clock e := by
  have : Nonempty Event := ⟨event⟩
  have hkeys : Set.InjOn EventParser.key {e | e ∈ vc.dataBase} := fun b hb b' hb' hkey =>
    List.inj_on_of_nodup_map hvc.1 hb hb' (EventParser.key_injective hkey)
  -- only the new event of the stored list has the new key
  have hlisted : ∀ k e, (k ≠ EventParser.key event ∧ ∃ e', e.SameAs e' ∧
      HasEvent formatter (EventParser.unparse clock (vc.dataBase ++ [event])) k e') ↔
      ∃ b ∈ vc.dataBase, EventParser.key b = k ∧ b.StandsFor clock e := by
    intro k e
    rw [exists_sameAs_unparse_iff clock (numbers_newEvent hvc hevent)]
    constructor
    · rintro ⟨hne, b, hb, rfl, hstands⟩
      rcases List.mem_append.mp hb with hb | hb
      · exact ⟨b, hb, rfl, hstands⟩
      · rw [List.mem_singleton.mp hb] at hne
        exact absurd rfl hne
    · rintro ⟨b, hb, rfl, hstands⟩
      refine ⟨?_, b, List.mem_append_left _ hb, rfl, hstands⟩
      intro hkey
      have hlt := NewEventTVC.lt_number_newEvent hevent hb
      have heq := EventParser.key_injective hkey
      omega
  apply exists_injOn_key_iff hkeys
    (P := fun k k' => ∀ e, HasEvent formatter node k e → k' ≠ EventParser.key event ∧
      ∃ e', e.SameAs e' ∧ HasEvent formatter
        (EventParser.unparse clock (vc.dataBase ++ [event])) k' e')
    (Q := fun k b => ∀ e, HasEvent formatter node k e → b.StandsFor clock e)
  rintro k ⟨e, he⟩ k'
  constructor
  · intro hkept
    obtain ⟨b, hb, hkey, hstands⟩ := (hlisted k' e).mp (hkept e he)
    exact ⟨b, hb, hkey, fun e' he' => he.eq he' ▸ hstands⟩
  · rintro ⟨b, hb, hkey, hstands⟩ e' he'
    exact (hlisted k' e').mpr ⟨b, hb, hkey, hstands e' he'⟩

theorem keepsOthers_iff_covers [Unicode] {s t : Node × EventDevice} {a : EventAction}
    (hdevice : CachesOneDigit s.2) (h : EventDevice.Step formatter lower s a t) :
    a.KeepsOthers formatter s t.1 ↔ a.Covers formatter s := by
  cases h with
  | @save remote device i vc entered clock outcome hvc hsave =>
    obtain ⟨event, hevent, rfl⟩ := NewEventTVC.saveBtnPressed_eq_some_iff.mp hsave
    have hiff := exists_injOn_saved_iff remote clock
      (hdevice.forms _ (List.mem_of_getElem? hvc)) hevent
    rw [EventParser.key, NewEventTVC.number_newEvent hevent] at hiff
    constructor
    · intro hkeeps vc' hvc'
      obtain rfl : vc' = vc := Option.some.inj (hvc'.symm.trans hvc)
      obtain ⟨f, hinj, hf⟩ := hkeeps vc' hvc'
      obtain ⟨g, hg, hcovers⟩ := hiff.mp ⟨f, hinj, fun k _ e he => hf k e he⟩
      exact ⟨g, hg, fun k e he => ⟨(hcovers k ⟨e, he⟩).1, (hcovers k ⟨e, he⟩).2 e he⟩⟩
    · intro hcovers vc' hvc'
      obtain rfl : vc' = vc := Option.some.inj (hvc'.symm.trans hvc)
      obtain ⟨g, hg, hlisted⟩ := hcovers vc' hvc'
      have hevents : ∀ k ∈ {k | ∃ e, HasEvent formatter remote k e}, g k ∈ vc'.dataBase ∧
          ∀ e, HasEvent formatter remote k e → (g k).StandsFor clock e := by
        rintro k ⟨e, he⟩
        exact ⟨(hlisted k e he).1, fun e' he' => (hlisted k e' he').2⟩
      obtain ⟨f, hinj, hf⟩ := hiff.mpr ⟨g, hg, hevents⟩
      exact ⟨f, hinj, fun k e he => hf k ⟨e, he⟩ e he⟩
  | _ => exact Iff.rfl

/-- In any run, the saves that keep the other events are those whose list covers them. -/
theorem savesKeepOthers_iff [Unicode] (formatter : DateFormatter) (lower : Char → List Char)
    {s₀ s : Node × EventDevice} {path : List (Taken (Node × EventDevice) EventAction)}
    (hidle : s₀.2.Idle)
    (hcached : ∀ dict, s₀.2.defaults.lookup "eventDataBase" = some dict →
      Entries (fun k _ => OneDigit k) dict)
    (hpath : Path (EventDevice.Step formatter lower) s₀ path s) :
    (∀ k ∈ path, k.act.KeepsOthers formatter k.pre k.post.1) ↔
      ∀ k ∈ path, k.act.Covers formatter k.pre := by
  have hinv : ∀ k ∈ path, CachesOneDigit k.pre.2 := by
    intro k hk
    have hboth := hpath.invariant_of_mem (fun s a t hs h => cachesOneDigit_step s a t hs h)
      (cachesOneDigit_of_idle hidle hcached) hk
    exact hboth.1
  constructor
  · intro h k hk
    exact (keepsOthers_iff_covers (hinv k hk) (hpath.step_of_mem hk)).mp (h k hk)
  · intro h k hk
    exact (keepsOthers_iff_covers (hinv k hk) (hpath.step_of_mem hk)).mpr (h k hk)

def EventAction.ListsAdds : EventAction → Prop
  | loginLoad | eventsLoad | answer _ | complete _ _ | giveUp _ | openNew | save _ _ _ => True
  | _ => False

def concert : Event := ⟨"Concert", some newYear, false, true, "event1", 1⟩

theorem newEvent_concert (formatter : DateFormatter) :
    NewEventTVC.newEvent formatter ⟨[]⟩ concertForm = some concert := by
  apply NewEventTVC.newEvent_eq_some_iff.mpr
  exact ⟨by decide, _, formatter.date_string .HH newYear, rfl⟩

theorem exists_path_saved [Unicode] (formatter : DateFormatter) (lower : Char → List Char) :
    ∃ path k s, Path (EventDevice.Step formatter lower) (examNode, launchedEvents)
      (path ++ [k]) s ∧ (∀ k' ∈ path ++ [k], k'.act.ListsAdds) ∧ k.pre.1 = examNode ∧
      k.post.1 = EventParser.unparse (fun _ => newYear) [concert] := by
  have hlogin : EventDevice.Step formatter lower (examNode, launchedEvents) .loginLoad
      (examNode, { launchedEvents with defaults := LoginVC.viewDidLoad ∅ }) := .loginLoad
  have hreading : Reading ((LoginVC.viewDidLoad ∅).lookup "eventDataBase") none := by
    rw [LoginVC.lookup_eventDataBase_viewDidLoad]
    exact .none
  have hopen : EventDevice.Step formatter lower
      (examNode, { launchedEvents with defaults := LoginVC.viewDidLoad ∅ }) .openNew
      (examNode, ⟨LoginVC.viewDidLoad ∅, [], [⟨[]⟩], []⟩) := .openNew hreading rfl
  have hform : [NewEventTVC.mk []][0]? = some ⟨[]⟩ := rfl
  have hsave : EventDevice.Step formatter lower
      (examNode, ⟨LoginVC.viewDidLoad ∅, [], [⟨[]⟩], []⟩)
      (.save 0 concertForm fun _ => newYear) _ :=
    .save hform (NewEventTVC.saveBtnPressed_eq_some_iff.mpr ⟨concert, newEvent_concert _, rfl⟩)
  refine ⟨_, _, _, .snoc (.snoc (.single hlogin) hopen) hsave, ?_, rfl, rfl⟩
  simp [EventAction.ListsAdds]

/-- A form is opened on the cached exam. -/
theorem step_openExam [Unicode] (formatter : DateFormatter) (lower : Char → List Char) :
    EventDevice.Step formatter lower (examNode, fetchedEvents) .openNew
      (examNode, { fetchedEvents with forms := [⟨[exam]⟩] }) := by
  have hreading : Reading (fetchedEvents.defaults.lookup "eventDataBase")
      (some [(EventParser.key exam, EventParser.record (fun _ => newYear) exam)]) := by
    rw [fetchedEvents, UserDefaults.lookup_store_some]
    exact .some iterates_examNode
  have hload : NewEventTVC.viewDidLoad formatter
      (some [(EventParser.key exam, EventParser.record (fun _ => newYear) exam)]) =
        some ⟨[exam]⟩ := by
    simp [NewEventTVC.viewDidLoad, parse_exam]
  exact .openNew hreading hload

/-- The concert is saved from a form with the exam, whatever the server has by then. -/
theorem exists_step_save [Unicode] (lower : Char → List Char) (remote : Node) :
    ∃ t, EventDevice.Step .gregorian lower (remote, { fetchedEvents with forms := [⟨[exam]⟩] })
      (.save 0 concertForm fun _ => newYear) t := by
  obtain ⟨event, hevent⟩ := NewEventTVC.exists_newEvent ⟨[exam]⟩ valid_concertForm
  exact ⟨_, .save rfl (NewEventTVC.saveBtnPressed_eq_some_iff.mpr ⟨event, hevent, rfl⟩)⟩

/-- The exam is fetched, a form is opened on the cache, and the concert is saved. -/
theorem savesKeepOthers_iff_saved : ∃ path s,
    Path (EventDevice.Step .gregorian latinLower) (examNode, launchedEvents) path s ∧
      path.map Taken.act = fetchActs ++ [.openNew, .save 0 concertForm fun _ => newYear] ∧
      ((∀ k ∈ path, k.act.KeepsOthers .gregorian k.pre k.post.1) ↔
        ∀ k ∈ path, k.act.Covers .gregorian k.pre) := by
  obtain ⟨path, hpath, hacts⟩ := exists_path_fetched .gregorian latinLower
  obtain ⟨t, hsave⟩ := exists_step_save latinLower examNode
  have hrun := (hpath.snoc (step_openExam .gregorian latinLower)).snoc hsave
  refine ⟨_, _, hrun, by simp [hacts], savesKeepOthers_iff .gregorian latinLower ⟨rfl, rfl, rfl⟩
    (by simp [launchedEvents]) hrun⟩

/-- The saved concert takes the place of the exam. -/
theorem not_savesKeepOthers : ¬ ∀ (formatter : DateFormatter) (lower : Char → List Char)
    (s₀ s : Node × EventDevice) (path : List (Taken (Node × EventDevice) EventAction)),
    s₀.2.Idle → s₀.2.defaults.lookup "eventDataBase" = none →
    Entries (fun k r => StartsWithDigit k ∧ EventParser.Complete r) s₀.1 →
    Path (EventDevice.Step formatter lower) s₀ path s → (∀ k ∈ path, k.act.ListsAdds) →
    ∀ k ∈ path, ∀ key e, HasEvent formatter k.pre.1 key e →
      ∃ key' e', e.SameAs e' ∧ HasEvent formatter k.post.1 key' e' := by
  intro h
  obtain ⟨path, k, s, hpath, hacts, hpre, hpost⟩ := exists_path_saved .gregorian latinLower
  have hkeeps := h _ _ _ _ _ ⟨rfl, rfl, rfl⟩ rfl
    (recorded_decodable.unparse _ (by decide)) hpath hacts k (by simp)
  have hexam : HasEvent .gregorian examNode (EventParser.key exam) exam :=
    ⟨_, (iterates_examNode.mem_iff _ _).mp List.mem_cons_self, event_exam _⟩
  obtain ⟨key, hconcert⟩ := hkeeps _ _ (by rw [hpre]; exact hexam)
  rw [hpost, exists_sameAs_unparse_iff _ (by decide)] at hconcert
  obtain ⟨e, he, -, hstands⟩ := hconcert
  have hname := hstands.name
  rw [List.mem_singleton.mp he] at hname
  simp [exam, sampleEvent, concert] at hname

end Studkurator
