import Studkurator.Library.Cells
import Studkurator.System.EventSaves

/-!
# Deletions and marks of events

Between two saves the clients change single records: a deletion removes one, a mark sets one
flag. Only the order of the changes under one key matters, not how the clients mix their
changes under different keys.
-/

namespace Studkurator

open Cells Dictionary Transition

set_option autoImplicit false

variable {formatter : DateFormatter} {lower : Char → List Char}

inductive RecordChange where
  | removed
  | marked
  deriving DecidableEq

/-- What a change leaves under its key; a mark creates the record that it does not find. -/
def RecordChange.apply : RecordChange → Option Record → Option Record
  | removed, _ => none
  | marked, r => some ((r.getD ∅).insert "isDone" "true")

namespace EventAction

def SavesNothing : EventAction → Prop
  | save _ _ _ => False
  | _ => True

/-- The keys that an action changes on the server, when it is no save. -/
def changes (s : Node × EventDevice) : EventAction → List (String × RecordChange)
  | delete i row _ => ((s.2.screens[i]?).bind fun screen => screen.vc.dataBase[row]?).toList.map
      fun event => (EventParser.key event, .removed)
  | mark i _ => (s.2.details[i]?).toList.map fun vc => (EventParser.key vc.event, .marked)
  | _ => []

end EventAction

theorem performed_changes [Unicode] {s t : Node × EventDevice} {a : EventAction}
    (h : EventDevice.Step formatter lower s a t) (hact : a.SavesNothing) :
    Performed lookups RecordChange.apply (a.changes s) s.1 t.1 := by
  cases h with
  | loginLoad | launch | eventsLoad | answer | giveUp | search | openNew | openDetail =>
    exact performed_nil rfl
  | complete hscreen hfetch hfound horder hcompletion =>
    obtain ⟨-, -, hwrites⟩ := EventsVC.fetchCompletion_eq_some hcompletion
    exact performed_nil (by simp [EventDevice.issue, hwrites])
  | @delete remote device i row screen clock outcome hscreen hdelete =>
    obtain ⟨event, displayed, hevent, -, rfl⟩ := EventsVC.delete_eq_some_iff.mp hdelete
    have hchanges : EventAction.changes (remote, device) (.delete i row clock) =
        [(EventParser.key event, .removed)] := by
      simp [EventAction.changes, hscreen, hevent]
    rw [hchanges]
    apply performed_singleton
    · exact Finmap.lookup_erase _ _
    · intro k hk
      exact Finmap.lookup_erase_ne hk
  | save => exact hact.elim
  | @mark remote device i vc clock hvc =>
    have hchanges : EventAction.changes (remote, device) (.mark i clock) =
        [(EventParser.key vc.event, .marked)] := by
      simp [EventAction.changes, hvc]
    rw [hchanges]
    apply performed_singleton
    · exact Finmap.lookup_insert _
    · intro k hk
      exact Finmap.lookup_insert_of_ne _ hk

section Runs
variable {ι ι' : Type}

/-- The changes of a run, in their order. -/
def changesOf (path : List (Taken (Shared ι Node EventDevice) (ι × EventAction))) :
    List (String × RecordChange) :=
  path.flatMap fun k => k.act.2.changes (k.pre.shared, k.pre.party k.act.1)

variable [DecidableEq ι] [DecidableEq ι']
variable {s₀ s : Shared ι Node EventDevice} {s₀' s' : Shared ι' Node EventDevice}
variable {path : List (Taken (Shared ι Node EventDevice) (ι × EventAction))}
variable {path' : List (Taken (Shared ι' Node EventDevice) (ι' × EventAction))}

/-- What the server has under a key follows from the changes under that key alone. -/
theorem performed_changesOf [Unicode]
    (hpath : Path (Interleave (EventDevice.Step formatter lower)) s₀ path s)
    (hacts : ∀ k ∈ path, k.act.2.SavesNothing) :
    Performed (fun s : Shared ι Node EventDevice => lookups s.shared) RecordChange.apply
      (changesOf path) s₀ s := by
  apply performed_of_path _ hpath
  intro k hk
  exact performed_changes (hpath.step_of_mem hk).step_party (hacts k hk)

/-- Runs of any clients without saves that make the same changes under every single key end
with the same events on the server. -/
theorem shared_eq_of_changes [Unicode] (formatter : DateFormatter) (lower lower' : Char → List Char)
    (hstart : s₀.shared = s₀'.shared)
    (hpath : Path (Interleave (EventDevice.Step formatter lower)) s₀ path s)
    (hpath' : Path (Interleave (EventDevice.Step formatter lower')) s₀' path' s')
    (hacts : ∀ k ∈ path, k.act.2.SavesNothing) (hacts' : ∀ k ∈ path', k.act.2.SavesNothing)
    (hsame : ∀ k, operationsOn k (changesOf path) = operationsOn k (changesOf path')) :
    s.shared = s'.shared := by
  have hstart' : lookups s₀.shared = lookups s₀'.shared := congrArg lookups hstart
  have hcells := (performed_changesOf hpath hacts).congr (performed_changesOf hpath' hacts')
    hstart' hsame
  exact Finmap.ext_lookup (congrFun hcells)

end Runs

def markers : Shared Bool Node EventDevice :=
  ⟨examNode, fun i => { launchedEvents with details := [⟨if i then exam else lateExam, []⟩] }⟩

theorem operationsOn_pair_comm {k₁ k₂ : String} (h : k₁ ≠ k₂) (c : RecordChange) (k : String) :
    operationsOn k [(k₁, c), (k₂, c)] = operationsOn k [(k₂, c), (k₁, c)] := by
  by_cases h₁ : k₁ = k
  · have h₂ : k₂ ≠ k := fun h₂ => h (h₁.trans h₂.symm)
    simp [operationsOn, h₁, h₂]
  · by_cases h₂ : k₂ = k
    · simp [operationsOn, h₁, h₂]
    · simp [operationsOn, h₁, h₂]

/-- Two clients mark their events, one or the other of them first. -/
theorem shared_eq_of_changes_two_marks : ∃ path path' s s',
    Path (Interleave (EventDevice.Step .gregorian latinLower)) markers path s ∧
      Path (Interleave (EventDevice.Step .gregorian latinLower)) markers path' s' ∧
      path.map (fun k => k.act.1) = [true, false] ∧
      path'.map (fun k => k.act.1) = [false, true] ∧ s.shared = s'.shared := by
  have hmark : ∀ (i : Bool) (remote : Node), EventDevice.Step .gregorian latinLower
      (remote, markers.party i) (.mark 0 fun _ => newYear) _ :=
    fun _ _ => .mark rfl
  have hfirst := Path.single (Interleave.act (s := markers) (i := true) (hmark true _))
  have hpath := hfirst.snoc (Interleave.act (i := false) (hmark false _))
  have hsecond := Path.single (Interleave.act (s := markers) (i := false) (hmark false _))
  have hpath' := hsecond.snoc (Interleave.act (i := true) (hmark true _))
  refine ⟨_, _, _, _, hpath, hpath', rfl, rfl, ?_⟩
  refine shared_eq_of_changes .gregorian latinLower latinLower rfl hpath hpath' ?_ ?_ ?_
  · simp [EventAction.SavesNothing]
  · simp [EventAction.SavesNothing]
  · exact operationsOn_pair_comm (by decide) .marked

end Studkurator
