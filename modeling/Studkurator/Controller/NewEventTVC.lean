import Studkurator.Model.Event

/-!
# The form of a new event

The form takes its list from the cache, if there is one, and stores that list with the
new event behind it. Unlike the student forms it leaves the cache alone.
-/

namespace Studkurator

open Dictionary

set_option autoImplicit false

structure EventForm where
  name : String
  date : String
  notifying : Bool
  jpegData : Option (List UInt8)

/-- What `saveBtnPressed` asks of the entered texts. -/
def EventForm.Valid (formatter : DateFormatter) (form : EventForm) : Prop :=
  form.name ≠ "" ∧ (formatter.date .HH form.date).isSome

def concertForm : EventForm := ⟨"Concert", DateFormatter.string .HH newYear, true, none⟩

theorem valid_concertForm : concertForm.Valid .gregorian := by
  refine ⟨by decide, ?_⟩
  rw [concertForm, DateFormatter.date_string]
  rfl

/-- The five texts of a new event with this number. -/
structure EventForm.Stored (formatter : DateFormatter) (form : EventForm) (number : ℤ)
    (r : Record) : Prop where
  name : r.lookup "name" = some form.name
  date : ∃ date, formatter.date .HH form.date = some date ∧
    r.lookup "date" = some (DateFormatter.string .hh date)
  isDone : r.lookup "isDone" = some "false"
  notify : r.lookup "notify" = some (toString form.notifying)
  image : r.lookup "image" = some ("event" ++ toString number)

structure NewEventTVC where
  dataBase : List Event
  deriving DecidableEq

namespace NewEventTVC

/-- `viewDidLoad()` on what `UserDefaults` holds under `eventDataBase`. -/
def viewDidLoad [Unicode] (formatter : DateFormatter) :
    Option (List (String × Record)) → Option NewEventTVC
  | none => some ⟨[]⟩
  | some value => do
    let dataBase ← EventParser.parse formatter value
    return ⟨dataBase⟩

def maxNumber (dataBase : List Event) : ℤ :=
  dataBase.foldl (fun maxNumber event =>
    if event.number > maxNumber then event.number else maxNumber) 0

/-- The event that `saveBtnPressed` builds; `none` when an alert is all that happens. -/
def newEvent (formatter : DateFormatter) (vc : NewEventTVC) (form : EventForm) : Option Event :=
  if form.name = "" then none
  else do
    let date ← formatter.date .HH form.date
    let number := maxNumber vc.dataBase + 1
    return {
      name := form.name
      date := some date
      isDone := false
      notify := form.notifying
      image := "event" ++ toString number
      number := number }

def save (clock : Event → Date) (vc : NewEventTVC) (event : Event) (image : Option (List UInt8)) :
    Outcome NewEventTVC :=
  let dataBase := vc.dataBase ++ [event]
  { controller := ⟨dataBase⟩
    cached := none
    writes := [.setValue (EventParser.unparse clock dataBase)]
    storage := [.putData ("imgs/event" ++ toString event.number ++ ".jpg") (image.getD [])] }

def saveBtnPressed (formatter : DateFormatter) (clock : Event → Date) (vc : NewEventTVC)
    (form : EventForm) : Option (Outcome NewEventTVC) := do
  let event ← newEvent formatter vc form
  return vc.save clock event form.jpegData

theorem viewDidLoad_eq_some [Unicode] {formatter : DateFormatter}
    {value : Option (List (String × Record))} {vc : NewEventTVC}
    (h : viewDidLoad formatter value = some vc) :
    value = none ∧ vc.dataBase = [] ∨
      ∃ order, value = some order ∧ EventParser.parse formatter order = some vc.dataBase := by
  cases value with
  | none =>
    cases h
    exact Or.inl ⟨rfl, rfl⟩
  | some order =>
    simp only [viewDidLoad, Option.bind_eq_bind, Option.bind_eq_some_iff, Option.pure_def,
      Option.some.injEq] at h
    obtain ⟨dataBase, hparse, rfl⟩ := h
    exact Or.inr ⟨order, rfl, hparse⟩

theorem maxNumber_append_singleton (dataBase : List Event) (e : Event) :
    maxNumber (dataBase ++ [e]) =
      if e.number > maxNumber dataBase then e.number else maxNumber dataBase := by
  simp [maxNumber]

theorem maxNumber_nonneg (dataBase : List Event) : 0 ≤ maxNumber dataBase := by
  induction dataBase using List.reverseRecOn with
  | nil => simp [maxNumber]
  | append_singleton dataBase e ih =>
    rw [maxNumber_append_singleton]
    split <;> omega

theorem le_maxNumber {dataBase : List Event} {e : Event} (h : e ∈ dataBase) :
    e.number ≤ maxNumber dataBase := by
  induction dataBase using List.reverseRecOn with
  | nil => simp at h
  | append_singleton dataBase e' ih =>
    rw [maxNumber_append_singleton]
    rcases List.mem_append.mp h with h | h
    · have hle := ih h
      split <;> omega
    · rw [List.mem_singleton.mp h]
      split <;> omega

theorem maxNumber_eq_zero_or_mem (dataBase : List Event) :
    maxNumber dataBase = 0 ∨ ∃ e ∈ dataBase, e.number = maxNumber dataBase := by
  induction dataBase using List.reverseRecOn with
  | nil => exact Or.inl rfl
  | append_singleton dataBase e ih =>
    rw [maxNumber_append_singleton]
    split
    · exact Or.inr ⟨e, by simp, rfl⟩
    · rcases ih with hzero | ⟨e', he', hmax⟩
      · exact Or.inl hzero
      · exact Or.inr ⟨e', List.mem_append_left _ he', hmax⟩

theorem newEvent_eq_some_iff {formatter : DateFormatter} {vc : NewEventTVC} {form : EventForm}
    {event : Event} :
    newEvent formatter vc form = some event ↔
      form.name ≠ "" ∧ ∃ date, formatter.date .HH form.date = some date ∧
        event = ⟨form.name, some date, false, form.notifying,
          "event" ++ toString (maxNumber vc.dataBase + 1), maxNumber vc.dataBase + 1⟩ := by
  unfold newEvent
  split
  · simp [*]
  · simp only [Option.bind_eq_bind, Option.bind_eq_some_iff, Option.pure_def, Option.some.injEq,
      ne_eq, *, not_false_eq_true, true_and]
    simp only [eq_comm]

theorem exists_newEvent {formatter : DateFormatter} (vc : NewEventTVC) {form : EventForm}
    (h : form.Valid formatter) : ∃ event, newEvent formatter vc form = some event := by
  obtain ⟨date, hdate⟩ := Option.isSome_iff_exists.mp h.2
  exact ⟨_, newEvent_eq_some_iff.mpr ⟨h.1, date, hdate, rfl⟩⟩

theorem saveBtnPressed_eq_some_iff {formatter : DateFormatter} {clock : Event → Date}
    {vc : NewEventTVC} {form : EventForm} {outcome : Outcome NewEventTVC} :
    saveBtnPressed formatter clock vc form = some outcome ↔
      ∃ event, newEvent formatter vc form = some event ∧
        outcome = vc.save clock event form.jpegData := by
  simp only [saveBtnPressed, Option.bind_eq_bind, Option.bind_eq_some_iff, Option.pure_def,
    Option.some.injEq]
  simp only [eq_comm]

theorem number_newEvent {formatter : DateFormatter} {vc : NewEventTVC} {form : EventForm}
    {event : Event} (h : newEvent formatter vc form = some event) :
    event.number = maxNumber vc.dataBase + 1 := by
  obtain ⟨-, date, -, rfl⟩ := newEvent_eq_some_iff.mp h
  rfl

theorem lt_number_newEvent {formatter : DateFormatter} {vc : NewEventTVC} {form : EventForm}
    {event : Event} (h : newEvent formatter vc form = some event) {e : Event}
    (he : e ∈ vc.dataBase) : e.number < event.number := by
  have hle := le_maxNumber he
  rw [number_newEvent h]
  omega

theorem key_newEvent_notMem {formatter : DateFormatter} {vc : NewEventTVC} {form : EventForm}
    {event : Event} (h : newEvent formatter vc form = some event) (clock : Event → Date) :
    EventParser.key event ∉ EventParser.unparse clock vc.dataBase := by
  intro hmem
  obtain ⟨e, he, hkey⟩ := List.mem_map.mp ((mem_encode_iff _ _ _ _).mp hmem)
  have hnumber := EventParser.key_injective hkey
  have hlt := lt_number_newEvent h he
  omega

theorem stored_record {formatter : DateFormatter} {vc : NewEventTVC} {form : EventForm}
    {event : Event} (h : newEvent formatter vc form = some event) (clock : Event → Date) :
    form.Stored formatter event.number (EventParser.record clock event) := by
  obtain ⟨-, date, hdate, rfl⟩ := newEvent_eq_some_iff.mp h
  obtain ⟨hname, hstored, hisDone, hnotify, himage⟩ := EventParser.lookup_record clock
    ⟨form.name, some date, false, form.notifying,
      "event" ++ toString (maxNumber vc.dataBase + 1), maxNumber vc.dataBase + 1⟩
  exact ⟨hname, ⟨date, hdate, hstored⟩, hisDone, hnotify, himage⟩

/-- The greatest `Int` of a 64-bit device. -/
def intMax : ℤ := 9223372036854775807

theorem number_newEvent_le_intMax {formatter : DateFormatter} {vc : NewEventTVC}
    {form : EventForm} {event : Event} (h : newEvent formatter vc form = some event)
    (hbelow : ∀ e ∈ vc.dataBase, e.number < intMax) : event.number ≤ intMax := by
  have hnumber := number_newEvent h
  rcases maxNumber_eq_zero_or_mem vc.dataBase with hzero | ⟨e, he, hmax⟩
  · simp [hnumber, hzero, intMax]
  · have := hbelow e he
    omega

/-- The number of a new event exceeds every number of the list, duplicates and gaps
included, so its record comes on top of the encoded list. -/
theorem saveBtnPressed_fresh (formatter : DateFormatter) (clock : Event → Date)
    (vc : NewEventTVC) (form : EventForm) (hform : form.Valid formatter) :
    ∃ event outcome, saveBtnPressed formatter clock vc form = some outcome ∧
      outcome.writes = [.setValue (EventParser.unparse clock (vc.dataBase ++ [event]))] ∧
      (1 ≤ event.number ∧ (∀ e ∈ vc.dataBase, e.number < event.number) ∧
        ((∀ e ∈ vc.dataBase, e.number < intMax) → event.number ≤ intMax)) ∧
      (∀ key ∈ EventParser.unparse clock vc.dataBase,
        (EventParser.unparse clock (vc.dataBase ++ [event])).lookup key =
          (EventParser.unparse clock vc.dataBase).lookup key) ∧
      EventParser.key event ∉ EventParser.unparse clock vc.dataBase ∧
      (EventParser.unparse clock (vc.dataBase ++ [event])).keys =
        insert (EventParser.key event) (EventParser.unparse clock vc.dataBase).keys ∧
      (EventParser.unparse clock (vc.dataBase ++ [event])).lookup (EventParser.key event) =
        some (EventParser.record clock event) ∧
      form.Stored formatter event.number (EventParser.record clock event) ∧
      (event.name = form.name ∧ event.date = formatter.date .HH form.date ∧
        event.isDone = false ∧ event.notify = form.notifying ∧
        event.image = "event" ++ toString event.number) := by
  obtain ⟨event, hevent⟩ := exists_newEvent vc hform
  have hfresh := key_newEvent_notMem hevent clock
  have hnumber := number_newEvent hevent
  refine ⟨event, vc.save clock event form.jpegData,
    saveBtnPressed_eq_some_iff.mpr ⟨event, hevent, rfl⟩, rfl, ⟨?_, ?_, ?_⟩, ?_, hfresh, ?_,
    lookup_encode_append_singleton_self _ _ _ _, stored_record hevent clock, ?_⟩
  · have := maxNumber_nonneg vc.dataBase
    omega
  · exact fun e he => lt_number_newEvent hevent he
  · exact number_newEvent_le_intMax hevent
  · intro key hkey
    apply lookup_encode_append_singleton_of_ne
    rintro rfl
    exact hfresh hkey
  · exact keys_encode_append_singleton _ _ _ _
  · obtain ⟨-, date, hdate, rfl⟩ := newEvent_eq_some_iff.mp hevent
    exact ⟨rfl, hdate.symm, rfl, rfl, rfl⟩

theorem saveBtnPressed_fresh_concert :
    ∃ event outcome,
      saveBtnPressed .gregorian (fun _ => newYear) ⟨[lateExam, exam, lateExam]⟩ concertForm =
        some outcome ∧
      outcome.writes = [.setValue (EventParser.unparse (fun _ => newYear)
        ([lateExam, exam, lateExam] ++ [event]))] ∧ 1 ≤ event.number := by
  obtain ⟨event, outcome, houtcome, hwrites, ⟨hone, -⟩, -⟩ := saveBtnPressed_fresh .gregorian
    (fun _ => newYear) ⟨[lateExam, exam, lateExam]⟩ _ valid_concertForm
  exact ⟨event, outcome, houtcome, hwrites, hone⟩

end NewEventTVC

end Studkurator
