import Studkurator.Model.Date
import Studkurator.Model.Foundation
import Studkurator.Model.Store

/-!
# Events and their dictionary encoding

`EventParser` stores an event under its number followed by `k` and, like `Parser`,
recovers the number from the first character of the key. An event without a date
is stored with the clock reading of the moment.
-/

namespace Studkurator

open Dictionary

set_option autoImplicit false

structure Event where
  name : String
  date : Option Date
  isDone : Bool
  notify : Bool
  image : String
  number : ℤ
  deriving DecidableEq

def newYear : Date := ⟨⟨2020, 1, 1, by decide⟩, 0, 0, 0⟩

def sampleEvent (name : String) (number : ℤ) (hour : Fin 24) : Event :=
  ⟨name, some ⟨⟨2020, 1, 15, by decide⟩, hour, 30, 0⟩, false, false,
    "event" ++ toString number, number⟩

def exam : Event := sampleEvent "Exam" 1 9

def trip : Event := sampleEvent "Trip" 2 10

def lateExam : Event := sampleEvent "Exam" 12 13

namespace EventParser

/-- One turn of the loop in `parse`; `none` is a trap of a force unwrap. -/
def event [Unicode] (formatter : DateFormatter) (entry : String × Record) : Option Event := do
  let (key, value) := entry
  let name ← value.lookup "name"
  let date ← value.lookup "date"
  let isDone ← value.lookup "isDone"
  let isDone ← boolOfString isDone
  let notify ← value.lookup "notify"
  let notify ← boolOfString notify
  let image ← value.lookup "image"
  let first ← (characters key).head?
  let number ← intOfCharacter first
  return {
    name := name
    date := formatter.date .hh date
    isDone := isDone
    notify := notify
    image := image
    number := number }

/-- `parse(dict:)`, for the order in which the dictionary happens to be iterated. -/
def parse [Unicode] (formatter : DateFormatter) (dict : List (String × Record)) : Option
    (List Event) :=
  dict.mapM (event formatter)

def key (event : Event) : String := toString event.number ++ "k"

/-- The five texts of an event. `clock` gives what `Date()` returns while it is encoded. -/
def texts (clock : Event → Date) (event : Event) : List (String × String) :=
  [("name", event.name),
    ("date", DateFormatter.string .hh (event.date.getD (clock event))),
    ("isDone", toString event.isDone), ("notify", toString event.notify),
    ("image", "event" ++ toString event.number)]

def record (clock : Event → Date) (event : Event) : Record :=
  encode Prod.fst Prod.snd (texts clock event)

def unparse (clock : Event → Date) (data : List Event) : Node :=
  encode key (record clock) data

theorem key_injective {e e' : Event} (h : key e = key e') : e.number = e'.number :=
  Decimal.toString_append_injective "k" h

theorem key_eq_of_number {e e' : Event} (h : e.number = e'.number) : key e = key e' := by
  rw [key, key, h]

theorem nodup_keys {data : List Event} (h : (data.map Event.number).Nodup) :
    (data.map key).Nodup := by
  rw [List.nodup_iff_pairwise_ne, List.pairwise_map] at h ⊢
  exact h.imp fun hne hkey => hne (key_injective hkey)

theorem lookup_record_eq_some_iff (clock : Event → Date) (e : Event) (field value : String) :
    (record clock e).lookup field = some value ↔ (field, value) ∈ texts clock e := by
  have hnames : ((texts clock e).map Prod.fst).Nodup := by simp [texts]
  unfold record
  rw [lookup_encode_eq_some_iff _ _ hnames]
  constructor
  · intro h
    obtain ⟨⟨f, v⟩, hmem, rfl, rfl⟩ := h
    exact hmem
  · intro h
    exact ⟨(field, value), h, rfl, rfl⟩

structure Complete (r : Record) : Prop where
  name : ∃ v, r.lookup "name" = some v
  date : ∃ v, r.lookup "date" = some v
  isDone : r.lookup "isDone" = some "true" ∨ r.lookup "isDone" = some "false"
  notify : r.lookup "notify" = some "true" ∨ r.lookup "notify" = some "false"
  image : ∃ v, r.lookup "image" = some v

variable {formatter : DateFormatter} {clock : Event → Date}

theorem event_eq_some_iff [Unicode] (k : String) (r : Record) (e : Event) :
    event formatter (k, r) = some e ↔
      (∃ c, (characters k).head? = some c ∧ intOfCharacter c = some e.number) ∧
      r.lookup "name" = some e.name ∧
      (∃ v, r.lookup "date" = some v ∧ formatter.date .hh v = e.date) ∧
      (∃ v, r.lookup "isDone" = some v ∧ boolOfString v = some e.isDone) ∧
      (∃ v, r.lookup "notify" = some v ∧ boolOfString v = some e.notify) ∧
      r.lookup "image" = some e.image := by
  constructor
  · intro h
    simp only [event, Option.bind_eq_bind, Option.bind_eq_some_iff, Option.pure_def,
      Option.some.injEq] at h
    obtain ⟨name, hname, date, hdate, done, hdone, isDone, hisDone, note, hnote, notify,
      hnotify, image, himage, first, hfirst, number, hnumber, rfl⟩ := h
    exact ⟨⟨first, hfirst, hnumber⟩, hname, ⟨date, hdate, rfl⟩, ⟨done, hdone, hisDone⟩,
      ⟨note, hnote, hnotify⟩, himage⟩
  · intro h
    obtain ⟨⟨c, hc, hn⟩, hname, ⟨date, hdate, hread⟩, ⟨done, hdone, hisDone⟩,
      ⟨note, hnote, hnotify⟩, himage⟩ := h
    simp only [event, hc, hn, hname, hdate, hread, hdone, hisDone, hnote, hnotify, himage,
      Option.bind_eq_bind, Option.bind_some, Option.pure_def]

theorem eq_true_or_false_of_boolOfString {text : String} {flag : Bool}
    (h : boolOfString text = some flag) : text = "true" ∨ text = "false" := by
  unfold boolOfString at h
  split at h
  · exact Or.inl (by assumption)
  · split at h
    · exact Or.inr (by assumption)
    · cases h

theorem isSome_event_iff [Unicode] (k : String) (r : Record) :
    (event formatter (k, r)).isSome ↔ StartsWithDigit k ∧ Complete r := by
  constructor
  · intro h
    obtain ⟨e, he⟩ := Option.isSome_iff_exists.mp h
    obtain ⟨⟨c, hc, hn⟩, hname, ⟨date, hdate, -⟩, ⟨done, hdone, hisDone⟩,
      ⟨note, hnote, hnotify⟩, himage⟩ := (event_eq_some_iff k r e).mp he
    refine ⟨⟨c, hc, isDigit_of_intOfCharacter hn⟩, ⟨_, hname⟩, ⟨date, hdate⟩, ?_, ?_,
      ⟨_, himage⟩⟩
    · rcases eq_true_or_false_of_boolOfString hisDone with rfl | rfl
      · exact Or.inl hdone
      · exact Or.inr hdone
    · rcases eq_true_or_false_of_boolOfString hnotify with rfl | rfl
      · exact Or.inl hnote
      · exact Or.inr hnote
  · intro h
    obtain ⟨⟨c, hc, hdigit⟩, hcomplete⟩ := h
    obtain ⟨⟨name, hname⟩, ⟨date, hdate⟩, hdone, hnotify, ⟨image, himage⟩⟩ := hcomplete
    obtain ⟨n, hn⟩ := Option.isSome_iff_exists.mp (intOfCharacter_isSome hdigit)
    have hflag : ∀ field, r.lookup field = some "true" ∨ r.lookup field = some "false" →
        ∃ v flag, r.lookup field = some v ∧ boolOfString v = some flag := by
      intro field hfield
      rcases hfield with hfield | hfield
      · exact ⟨"true", true, hfield, by decide⟩
      · exact ⟨"false", false, hfield, by decide⟩
    obtain ⟨done, isDone, hdone, hisDone⟩ := hflag _ hdone
    obtain ⟨note, notify, hnote, hnotify⟩ := hflag _ hnotify
    apply Option.isSome_iff_exists.mpr
    exact ⟨⟨name, formatter.date .hh date, isDone, notify, image, n⟩,
      (event_eq_some_iff k r _).mpr ⟨⟨c, hc, hn⟩, hname, ⟨date, hdate, rfl⟩,
        ⟨done, hdone, hisDone⟩, ⟨note, hnote, hnotify⟩, himage⟩⟩

theorem number_bounds [Unicode] {entry : String × Record} {e : Event}
    (h : event formatter entry = some e) : 0 ≤ e.number ∧ e.number ≤ 9 := by
  obtain ⟨⟨c, -, hc⟩, -⟩ := (event_eq_some_iff entry.1 entry.2 e).mp h
  exact intOfCharacter_bounds hc

theorem parse_bounds [Unicode] {order : List (String × Record)} {data : List Event}
    (h : parse formatter order = some data) {e : Event} (he : e ∈ data) :
    0 ≤ e.number ∧ e.number ≤ 9 := by
  obtain ⟨entry, -, hentry⟩ := (mem_iff_of_mapM h e).mp he
  exact number_bounds hentry

theorem startsWithDigit_key [Unicode] {e : Event} (h : 0 ≤ e.number) : StartsWithDigit (key e) :=
  startsWithDigit_of_nonneg h

theorem toString_flag (flag : Bool) : toString flag = "true" ∨ toString flag = "false" := by
  cases flag
  · exact Or.inr rfl
  · exact Or.inl rfl

/-- The fields of an encoded event. -/
theorem lookup_record (clock : Event → Date) (e : Event) :
    (record clock e).lookup "name" = some e.name ∧
      (record clock e).lookup "date" =
        some (DateFormatter.string .hh (e.date.getD (clock e))) ∧
      (record clock e).lookup "isDone" = some (toString e.isDone) ∧
      (record clock e).lookup "notify" = some (toString e.notify) ∧
      (record clock e).lookup "image" = some ("event" ++ toString e.number) := by
  have hfield : ∀ p ∈ texts clock e, (record clock e).lookup p.1 = some p.2 :=
    fun p hp => (lookup_record_eq_some_iff clock e p.1 p.2).mpr hp
  simp only [texts, List.forall_mem_cons] at hfield
  obtain ⟨hname, hdate, hisDone, hnotify, himage, -⟩ := hfield
  exact ⟨hname, hdate, hisDone, hnotify, himage⟩

theorem complete_record (clock : Event → Date) (e : Event) : Complete (record clock e) := by
  obtain ⟨hname, hdate, hisDone, hnotify, himage⟩ := lookup_record clock e
  refine ⟨⟨_, hname⟩, ⟨_, hdate⟩, ?_, ?_, ⟨_, himage⟩⟩
  · rcases toString_flag e.isDone with h | h
    · exact Or.inl (h ▸ hisDone)
    · exact Or.inr (h ▸ hisDone)
  · rcases toString_flag e.notify with h | h
    · exact Or.inl (h ▸ hnotify)
    · exact Or.inr (h ▸ hnotify)

/-- The event that storing and loading makes of one with a one-digit number. -/
def stored (clock : Event → Date) (event : Event) : Event :=
  { event with
    date := some (DateFormatter.readBack .hh (event.date.getD (clock event)))
    image := "event" ++ toString event.number }

theorem event_key_record [Unicode] {e : Event} (h₀ : 0 ≤ e.number) (h₉ : e.number ≤ 9) :
    event formatter (key e, record clock e) = some (stored clock e) := by
  obtain ⟨hname, hdate, hisDone, hnotify, himage⟩ := lookup_record clock e
  apply (event_eq_some_iff _ _ _).mpr
  refine ⟨intOfCharacter_head h₀ h₉, hname, ⟨_, hdate, formatter.date_string .hh _⟩,
    ⟨_, hisDone, boolOfString_toString _⟩, ⟨_, hnotify, boolOfString_toString _⟩, himage⟩

theorem stored_eq_self {e : Event} {d : Date} (hdate : e.date = some d) (hbelow : d.below = 0)
    (hhour : d.hour.val < 12) (himage : e.image = "event" ++ toString e.number) :
    stored clock e = e := by
  have hsame : DateFormatter.readBack .hh d = d :=
    DateFormatter.readBack_hh_eq_self hhour hbelow
  unfold stored
  rw [hdate, Option.getD_some, hsame, ← himage, ← hdate]

end EventParser

end Studkurator
