import Studkurator.Model.Event

/-!
# The list of events

The table shows `filteredDataBase`; selecting and deleting a row take the event from
that row of `dataBase`.
-/

namespace Studkurator

open Dictionary

set_option autoImplicit false

structure EventsVC where
  dataBase : List Event
  filteredDataBase : List Event
  deriving DecidableEq

namespace EventsVC

/-- The completion of `fetch`, for a snapshot that has an `eventDataBase`. -/
def fetchCompletion [Unicode] (formatter : DateFormatter) (clock : Event → Date)
    (response : List (String × Record)) : Option (Outcome EventsVC) := do
  let dataBase ← EventParser.parse formatter response
  return {
    controller := ⟨dataBase, dataBase⟩
    cached := some (EventParser.unparse clock dataBase)
    writes := [] }

def updateSearchResults [Unicode] (lower : Char → List Char) (vc : EventsVC) (text : String) :
    EventsVC :=
  if text = "" then { vc with filteredDataBase := vc.dataBase }
  else { vc with
    filteredDataBase := vc.dataBase.filter fun event =>
      contains (lowercased lower event.name) (lowercased lower text) }

/-- The event that is handed to `DetailEventTVC`; `none` is an index out of range. -/
def didSelectRow (vc : EventsVC) (row : ℕ) : Option Event := vc.dataBase[row]?

/-- The swipe-to-delete action; `none` is an index out of range. -/
def delete (clock : Event → Date) (vc : EventsVC) (row : ℕ) : Option (Outcome EventsVC) := do
  let event ← vc.dataBase[row]?
  let _ ← vc.filteredDataBase[row]?
  let dataBase := vc.dataBase.eraseIdx row
  return {
    controller := ⟨dataBase, vc.filteredDataBase.eraseIdx row⟩
    cached := some (EventParser.unparse clock dataBase)
    writes := [.removeValue (EventParser.key event)]
    storage := [.delete ("imgs/event" ++ toString event.number ++ ".jpg")] }

theorem updateSearchResults_dataBase [Unicode] (lower : Char → List Char) (vc : EventsVC)
    (text : String) :
    (updateSearchResults lower vc text).dataBase = vc.dataBase := by
  unfold updateSearchResults
  split <;> rfl

theorem fetchCompletion_eq_some [Unicode] {formatter : DateFormatter} {clock : Event → Date}
    {response : List (String × Record)} {outcome : Outcome EventsVC}
    (h : fetchCompletion formatter clock response = some outcome) :
    EventParser.parse formatter response = some outcome.controller.dataBase ∧
      outcome.cached = some (EventParser.unparse clock outcome.controller.dataBase) ∧
      outcome.writes = [] := by
  simp only [fetchCompletion, Option.bind_eq_bind, Option.bind_eq_some_iff, Option.pure_def,
    Option.some.injEq] at h
  obtain ⟨dataBase, hparse, rfl⟩ := h
  exact ⟨hparse, rfl, rfl⟩

theorem delete_eq_some_iff {clock : Event → Date} {vc : EventsVC} {row : ℕ}
    {outcome : Outcome EventsVC} :
    delete clock vc row = some outcome ↔ ∃ event displayed,
      vc.dataBase[row]? = some event ∧ vc.filteredDataBase[row]? = some displayed ∧
      outcome = {
        controller := ⟨vc.dataBase.eraseIdx row, vc.filteredDataBase.eraseIdx row⟩
        cached := some (EventParser.unparse clock (vc.dataBase.eraseIdx row))
        writes := [.removeValue (EventParser.key event)]
        storage := [.delete ("imgs/event" ++ toString event.number ++ ".jpg")] } := by
  simp only [delete, Option.bind_eq_bind, Option.bind_eq_some_iff, Option.pure_def,
    Option.some.injEq]
  constructor
  · intro h
    obtain ⟨event, hevent, displayed, hdisplayed, rfl⟩ := h
    exact ⟨event, displayed, hevent, hdisplayed, rfl⟩
  · intro h
    obtain ⟨event, displayed, hevent, hdisplayed, rfl⟩ := h
    exact ⟨event, hevent, displayed, hdisplayed, rfl⟩

inductive TableAction where
  | search (text : String)
  | delete (row : ℕ)

inductive TableStep [Unicode] (lower : Char → List Char) :
    Session EventsVC → TableAction → Session EventsVC → Prop where
  | search {s : Session EventsVC} {text : String} :
      TableStep lower s (.search text)
        { s with controller := updateSearchResults lower s.controller text }
  | delete {s : Session EventsVC} {clock : Event → Date} {row : ℕ} {outcome : Outcome EventsVC} :
      delete clock s.controller row = some outcome →
      TableStep lower s (.delete row) (s.perform outcome)

end EventsVC

end Studkurator
