import Studkurator.Model.Event

/-!
# The detail screen of an event

The screen marks an event as done by writing a single leaf on the server, and by
changing the flag in the list it took from the cache.
-/

namespace Studkurator

open Dictionary

set_option autoImplicit false

structure DetailEventTVC where
  event : Event
  dataBase : List Event
  deriving DecidableEq

namespace DetailEventTVC

/-- `viewDidLoad()`, for the event that the list hands over. -/
def viewDidLoad [Unicode] (formatter : DateFormatter) (event : Event) :
    Option (List (String × Record)) → Option DetailEventTVC
  | none => some ⟨event, []⟩
  | some value => do
    let dataBase ← EventParser.parse formatter value
    return ⟨event, dataBase⟩

def dateLabel (now : Date) (event : Event) : String :=
  DateFormatter.string .HH (event.date.getD now)

/-- The loop of `mark` over the list in memory. -/
def markDone (number : ℤ) (dataBase : List Event) : List Event :=
  dataBase.map fun ev => if ev.number = number then { ev with isDone := true } else ev

def mark (clock : Event → Date) (vc : DetailEventTVC) (event : Event) : Outcome DetailEventTVC :=
  let dataBase := markDone event.number vc.dataBase
  { controller := { vc with dataBase := dataBase }
    cached := some (EventParser.unparse clock dataBase)
    writes := [.setLeaf (EventParser.key event) "isDone" "true"] }

def markBtnPressed (clock : Event → Date) (vc : DetailEventTVC) : Outcome DetailEventTVC :=
  vc.mark clock vc.event

theorem viewDidLoad_eq_some [Unicode] {formatter : DateFormatter} {event : Event}
    {value : Option (List (String × Record))} {vc : DetailEventTVC}
    (h : viewDidLoad formatter event value = some vc) :
    vc.event = event ∧ (value = none ∧ vc.dataBase = [] ∨
      ∃ order, value = some order ∧ EventParser.parse formatter order = some vc.dataBase) := by
  cases value with
  | none =>
    cases h
    exact ⟨rfl, Or.inl ⟨rfl, rfl⟩⟩
  | some order =>
    simp only [viewDidLoad, Option.bind_eq_bind, Option.bind_eq_some_iff, Option.pure_def,
      Option.some.injEq] at h
    obtain ⟨dataBase, hparse, rfl⟩ := h
    exact ⟨rfl, Or.inr ⟨order, rfl, hparse⟩⟩

theorem map_number_markDone (number : ℤ) (dataBase : List Event) :
    (markDone number dataBase).map Event.number = dataBase.map Event.number := by
  rw [markDone, List.map_map]
  apply List.map_congr_left
  intro e _
  simp only [Function.comp_apply]
  split <;> rfl

theorem markDone_markDone (number : ℤ) (dataBase : List Event) :
    markDone number (markDone number dataBase) = markDone number dataBase := by
  rw [markDone, markDone, List.map_map]
  apply List.map_congr_left
  intro e _
  simp only [Function.comp_apply]
  split <;> simp [*]

inductive MarkStep : Session DetailEventTVC → Event → Session DetailEventTVC → Prop where
  | mark {s : Session DetailEventTVC} {clock : Event → Date} {event : Event} :
      event.number ∈ s.controller.dataBase.map Event.number →
      MarkStep s event (s.perform (s.controller.mark clock event))

end DetailEventTVC

end Studkurator
