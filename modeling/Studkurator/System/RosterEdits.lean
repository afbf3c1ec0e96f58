import Studkurator.Controller.StudentSaves
import Studkurator.System.RosterSafety

/-!
# Edits that change nothing

The form of an edited student is opened with the fields of that student. Saved as it was
opened, it is accepted in every state that the clients can reach, and stores the list of the
form with that student in it.
-/

namespace Studkurator

open Dictionary Transition

set_option autoImplicit false

variable {lower : Char → List Char}

/-- The form is opened with its student, and saving it lays that student over the list. -/
structure SavesAsOpened (vc : EditTVC) (form : StudentForm) : Prop where
  opened : vc.opened = some form
  student : form.student = vc.student
  saved : ∀ s : Session EditTVC, s.controller = vc →
    (s.press (vc.saveBtnPressed form)).remote = vc.overlaid vc.student ∧
      (s.press (vc.saveBtnPressed form)).cached = vc.overlaid vc.student
  unchanged : vc.overlaid vc.student = Parser.unparse vc.dataBase ↔
    (Parser.unparse vc.dataBase).lookup (Parser.key vc.student) = some (Parser.record vc.student)

theorem insert_eq_self_iff {dict : Node} {k : String} {r : Record} :
    dict.insert k r = dict ↔ dict.lookup k = some r := by
  constructor
  · intro h
    rw [← h]
    exact Finmap.lookup_insert dict
  · intro h
    apply Finmap.ext_lookup
    intro k'
    by_cases hk : k' = k
    · rw [hk, h, Finmap.lookup_insert]
    · exact Finmap.lookup_insert_of_ne dict hk

theorem check_of_validStudent {form : StudentForm} (h : ValidStudent form.student) :
    form.check = true := by
  obtain ⟨-, hfields, hphones⟩ := h
  simp only [Parser.texts, StudentForm.student, List.forall_mem_cons] at hfields
  simp only [Parser.texts, StudentForm.student, phoneFields, List.forall_mem_cons] at hphones
  simp_all [StudentForm.check, StudentForm.textFieldArray]

theorem student_of_opened {vc : EditTVC} {form : StudentForm} (h : vc.opened = some form)
    (htyped : vc.student.WellTyped) : form.student = vc.student := by
  unfold EditTVC.opened at h
  split at h
  next hrow =>
    cases h
    obtain ⟨dataBase, name, number, address, ⟨mtype, mname, mphone⟩, ⟨ftype, fname, fphone⟩, home,
      phone⟩ := vc
    obtain ⟨rfl, rfl⟩ := htyped
    have hnumber : ((number - 1).toNat : ℤ) + 1 = number := by
      simp only [EditTVC.selectedRow] at hrow
      omega
    simpa [StudentForm.student, StudentForm.number, EditTVC.selectedRow] using hnumber
  next => cases h

theorem savesAsOpened_of_valid {vc : EditTVC} (hvalid : ValidStudent vc.student)
    (htyped : vc.student.WellTyped) : ∃ form, SavesAsOpened vc form := by
  have hrow : 0 ≤ vc.selectedRow ∧ vc.selectedRow < 50 := by
    have hnumber := hvalid.number
    unfold EditTVC.selectedRow
    omega
  obtain ⟨form, hform⟩ : ∃ form, vc.opened = some form := ⟨_, dif_pos hrow⟩
  have hstudent := student_of_opened hform htyped
  have haccepts : ¬ vc.Refuses form := by
    intro hrefuses
    rcases hrefuses with hcheck | ⟨t, -, hnumber, hother⟩
    · rw [check_of_validStudent (hstudent ▸ hvalid)] at hcheck
      cases hcheck
    · have hsame : form.number = vc.student.number := congrArg Student.number hstudent
      omega
  obtain ⟨outcome, hsave, -, hperform⟩ := EditTVC.saveBtnPressed_of_not_refuses haccepts
  refine ⟨form, hform, hstudent, ?_, insert_eq_self_iff⟩
  intro s _
  obtain ⟨hcached, hremote⟩ := hperform s
  rw [hsave, ← hstudent]
  exact ⟨hremote, hcached⟩

theorem carried_wellTyped [Unicode] :
    Carried (fun _ _ => True) (fun _ _ => True) Student.WellTyped where
  read _ _ _ _ h := Parser.wellTyped_of_student h
  write _ _ := trivial
  weaken _ _ _ := trivial
  form _ _ := ⟨rfl, rfl⟩

section Runs
variable {ι : Type} [DecidableEq ι] {s₀ s : Shared ι Node GroupDevice}
variable {path : List (Taken (Shared ι Node GroupDevice) (ι × GroupAction))}

/-- In every state that any number of clients reach, a form that is saved as it was opened
is accepted; the list it stores is its own exactly when that list has the student. -/
theorem savesAsOpened_of_path [Unicode] (lower : Char → List Char) (hidle : ∀ i, (s₀.party i).Idle)
    (hremote : Entries ValidEntry s₀.shared)
    (hcached : ∀ i dict, (s₀.party i).defaults.lookup "dataBase" = some dict →
      Entries ValidEntry dict)
    (hpath : Path (Interleave (GroupDevice.Step lower)) s₀ path s) :
    ∀ i, ∀ vc ∈ (s.party i).edits, ∃ form, SavesAsOpened vc form := by
  have hvalid := hpath.invariant (everywhere_step (carried_step carried_valid))
    ⟨hremote, fun i => deviceHolds_of_idle (hidle i) (hcached i)⟩
  have htyped := hpath.invariant (everywhere_step (carried_step carried_wellTyped))
    ⟨fun _ _ _ => trivial, fun i => deviceHolds_of_idle (hidle i) fun _ _ _ _ _ => trivial⟩
  intro i vc hvc
  exact savesAsOpened_of_valid ((hvalid.2 i).edits vc hvc).student
    ((htyped.2 i).edits vc hvc).student

end Runs

/-- Ivan is fetched, selected and opened, and saved as he is. -/
theorem savesAsOpened_of_path_ivan : ∃ path s,
    path.map Taken.act =
      [(true, .groupLoad), (true, .answer 0), (true, .complete 0), (true, .select 0 0),
        (true, .openEdit)] ∧
    Path (Interleave (GroupDevice.Step latinLower)) ⟨pairNode, fun _ : Bool => launchedDevice⟩
      path s ∧
    ∃ form, SavesAsOpened ⟨[ivan, olena], ivan⟩ form := by
  have hselect : GroupDevice.Step latinLower (pairNode, listed [ivan, olena]) (.select 0 0)
      (pairNode, { listed [ivan, olena] with details := [ivan] }) := .select rfl rfl
  have hopen : GroupDevice.Step latinLower
      (pairNode, { listed [ivan, olena] with details := [ivan] }) .openEdit _ :=
    GroupDevice.step_openEdit pairNode decodes_pair (UserDefaults.lookup_store_some _ _ _)
      List.mem_cons_self
  obtain ⟨path, hpath, hacts⟩ := exists_path_interleave_acts
    (s := ⟨pairNode, fun _ : Bool => launchedDevice⟩) (i := true)
    (((path_listed latinLower decodes_pair (by decide) (by decide)).snoc hselect).snoc hopen)
  refine ⟨path, _, hacts, hpath, savesAsOpened_of_path latinLower
    (fun _ => ⟨rfl, rfl, rfl, rfl, rfl⟩) entries_pairNode (by simp [launchedDevice]) hpath true _
    ?_⟩
  simp [listed, launchedDevice]

end Studkurator
