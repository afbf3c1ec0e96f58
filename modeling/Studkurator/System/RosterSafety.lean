import Studkurator.System.RosterInvariant

/-!
# Safety of the student store

Both forms refuse blank fields and malformed phone numbers, and every key that is
written starts with a digit. So no client ever sees an entry that it cannot decode,
however old the lists are from which the others write.
-/

namespace Studkurator

open Dictionary Transition

set_option autoImplicit false

def phoneFields : List String := ["phone", "motherPhone", "fatherPhone"]

structure ValidEntry [Unicode] (k : String) (r : Record) : Prop where
  digit : StartsWithDigit k
  fields : ∀ field ∈ Parser.fieldNames, ∃ v, r.lookup field = some v ∧ v ≠ ""
  phones : ∀ field ∈ phoneFields, ∃ v, r.lookup field = some v ∧ matchesPhone v = true

structure ValidStudent (s : Student) : Prop where
  number : 1 ≤ s.number ∧ s.number ≤ 50
  fields : ∀ p ∈ Parser.texts s, p.2 ≠ ""
  phones : ∀ p ∈ Parser.texts s, p.1 ∈ phoneFields → matchesPhone p.2 = true

theorem phoneFields_subset : ∀ field ∈ phoneFields, field ∈ Parser.fieldNames := by
  decide

theorem validStudent_of_student [Unicode] {k : String} {r : Record} {s : Student}
    (h : ValidEntry k r)
    (hstudent : Parser.student (k, r) = some s) : ValidStudent s := by
  obtain ⟨-, -, hlookup⟩ := (Parser.student_eq_some_iff k r s).mp hstudent
  have hbounds := Parser.number_bounds hstudent
  refine ⟨⟨hbounds.1, by omega⟩, ?_, ?_⟩
  · intro p hp
    obtain ⟨v, hv, hne⟩ := h.fields p.1 (Parser.fst_mem_fieldNames hp)
    rw [hlookup p hp] at hv
    cases hv
    exact hne
  · intro p hp hphone
    obtain ⟨v, hv, hmatch⟩ := h.phones p.1 hphone
    rw [hlookup p hp] at hv
    cases hv
    exact hmatch

theorem validEntry_record [Unicode] {s : Student} (h : ValidStudent s) :
    ValidEntry (Parser.key s) (Parser.record s) := by
  refine ⟨Parser.startsWithDigit_key h.number.1, ?_, ?_⟩
  · intro field hfield
    obtain ⟨p, hp, rfl⟩ := Parser.exists_text_of_mem_fieldNames s hfield
    exact ⟨p.2, (Parser.lookup_record_eq_some_iff s p.1 p.2).mpr hp, h.fields p hp⟩
  · intro field hfield
    obtain ⟨p, hp, rfl⟩ := Parser.exists_text_of_mem_fieldNames s (phoneFields_subset field hfield)
    exact ⟨p.2, (Parser.lookup_record_eq_some_iff s p.1 p.2).mpr hp, h.phones p hp hfield⟩

theorem isSome_student_of_validEntry [Unicode] {k : String} {r : Record} (h : ValidEntry k r) :
    (Parser.student (k, r)).isSome := by
  apply (Parser.isSome_student_iff k r).mpr
  refine ⟨h.digit, ?_⟩
  intro field hfield
  obtain ⟨v, hv, -⟩ := h.fields field hfield
  exact ⟨v, hv⟩

theorem validStudent_of_check {form : StudentForm} (h : form.check = true) :
    ValidStudent form.student := by
  simp only [StudentForm.check, Bool.and_eq_true, List.all_eq_true, decide_eq_true_eq] at h
  obtain ⟨hblank, hmatch⟩ := h
  simp only [StudentForm.textFieldArray, List.forall_mem_cons] at hblank hmatch
  obtain ⟨h1, h2, h3, h4, h5, h6, h7, h8, -⟩ := hblank
  obtain ⟨hphone, hmotherPhone, hfatherPhone, -⟩ := hmatch
  refine ⟨form.number_bounds, ?_, ?_⟩
  · simp [Parser.texts, StudentForm.student, *]
  · simp [Parser.texts, StudentForm.student, phoneFields, *]

theorem carried_valid [Unicode] : Carried ValidEntry ValidEntry ValidStudent where
  read _ _ _ h hstudent := validStudent_of_student h hstudent
  write _ h := validEntry_record h
  weaken _ _ h := h
  form _ h := validStudent_of_check h

/-- A dictionary that some client is about to decode: the shared one, the answer to a
fetch, or a cached one. -/
inductive Visible {ι : Type*} (s : Shared ι Node GroupDevice) : Node → Prop where
  | remote : Visible s s.shared
  | snapshot {i : ι} {screen : Screen GroupVC} {node : Node} :
      screen ∈ (s.party i).groups → screen.fetch = .answered node → Visible s node
  | cached {i : ι} {node : Node} :
      (s.party i).defaults.lookup "dataBase" = some node → Visible s node

structure Safe [Unicode] {ι : Type*} (s : Shared ι Node GroupDevice) : Prop where
  entries : ∀ node, Visible s node → Entries ValidEntry node
  parse : ∀ node, Visible s node → ∀ order, Iterates order node →
    ∃ data, Parser.parse order = some data ∧ ∀ student ∈ data,
      1 ≤ student.number ∧ student.number ≤ 10
  selectedRow : ∀ i, ∀ vc ∈ (s.party i).edits, 0 ≤ vc.selectedRow ∧ vc.selectedRow < 50

theorem safe_of_everywhere [Unicode] {ι : Type*} {s : Shared ι Node GroupDevice}
    (h : Everywhere (Entries ValidEntry) (DeviceHolds ValidEntry ValidEntry ValidStudent) s) :
    Safe s := by
  obtain ⟨hremote, hdevice⟩ := h
  have hentries : ∀ node, Visible s node → Entries ValidEntry node := by
    intro node hnode
    cases hnode with
    | remote => exact hremote
    | @snapshot i screen node hscreen hfetch =>
      exact ((hdevice i).groups screen hscreen).snapshot node hfetch
    | @cached i node hcached => exact (hdevice i).cached node hcached
  refine ⟨hentries, ?_, ?_⟩
  · intro node hnode order horder
    have hsome : (Parser.parse order).isSome :=
      horder.isSome_mapM_iff.mpr fun k r hr =>
        isSome_student_of_validEntry (hentries node hnode k r hr)
    obtain ⟨data, hdata⟩ := Option.isSome_iff_exists.mp hsome
    exact ⟨data, hdata, fun student hstudent => Parser.parse_bounds hdata hstudent⟩
  · intro i vc hvc
    have hnumber := ((hdevice i).edits vc hvc).student.number
    unfold EditTVC.selectedRow
    omega

/-- Any number of clients, in any order of their steps, keep the student store safe. -/
theorem safe_of_path [Unicode] {ι : Type} [DecidableEq ι] (lower : Char → List Char)
    {s₀ s : Shared ι Node GroupDevice}
    {path : List (Taken (Shared ι Node GroupDevice) (ι × GroupAction))}
    (hidle : ∀ i, (s₀.party i).Idle) (hremote : Entries ValidEntry s₀.shared)
    (hcached : ∀ i dict, (s₀.party i).defaults.lookup "dataBase" = some dict →
      Entries ValidEntry dict)
    (hpath : Path (Interleave (GroupDevice.Step lower)) s₀ path s) : Safe s := by
  apply safe_of_everywhere
  apply hpath.invariant (everywhere_step (carried_step carried_valid))
  exact ⟨hremote, fun i => deviceHolds_of_idle (hidle i) (hcached i)⟩

theorem validStudent_pair : ∀ s ∈ [ivan, olena], ValidStudent s := by
  simp only [List.forall_mem_cons]
  exact ⟨⟨by decide, by decide, by decide⟩, ⟨by decide, by decide, by decide⟩, by simp⟩

theorem entries_pairNode [Unicode] : Entries ValidEntry pairNode :=
  carried_valid.unparse validStudent_pair

/-- One client adds Olena; the other fetches both, puts Petro in Ivan's place and deletes
Olena. -/
theorem safe_of_path_two_clients : ∃ path s,
    path.map Taken.act =
      [(true, .groupLoad), (true, .answer 0), (true, .complete 0), (true, .openNew),
        (true, .addStudent 0 olena), (false, .groupLoad), (false, .answer 0),
        (false, .complete 0), (false, .select 0 0), (false, .openEdit),
        (false, .edit 0 (sampleForm "Petro" 0).student), (false, .write),
        (false, .delete 0 olena)] ∧
    Path (Interleave (GroupDevice.Step latinLower)) ⟨ivanNode, fun _ : Bool => launchedDevice⟩
      path s ∧ Safe s := by
  have hselect : GroupDevice.Step latinLower (pairNode, listed [ivan, olena]) (.select 0 0)
      (pairNode, { listed [ivan, olena] with details := [ivan] }) := .select rfl rfl
  have hopen : GroupDevice.Step latinLower
      (pairNode, { listed [ivan, olena] with details := [ivan] }) .openEdit _ :=
    GroupDevice.step_openEdit pairNode decodes_pair (UserDefaults.lookup_store_some _ _ _)
      List.mem_cons_self
  have hsave : EditTVC.saveBtnPressed ⟨[ivan, olena], ivan⟩ (sampleForm "Petro" 0) = some _ :=
    EditTVC.saveBtnPressed_eq_some_iff.mpr ⟨by decide, by decide, EditTVC.save_eq _ _⟩
  have hlast : GroupVC.delete ⟨[ivan, olena], [ivan, olena]⟩ 1 = some _ := rfl
  have hlocal := ((((path_listed latinLower decodes_pair (by decide) (by decide)).snoc
    hselect).snoc hopen).snoc (a := .edit 0 _) (.edit rfl hsave)).snoc (.write rfl)
  obtain ⟨path, hpath, hacts, -⟩ := exists_path_two
    (s := ⟨ivanNode, fun _ : Bool => launchedDevice⟩) (i := true) (j := false) (by decide)
    (path_addPath latinLower) (hlocal.snoc (a := .delete 0 _) (.delete rfl rfl hlast))
  exact ⟨path, _, hacts, hpath, safe_of_path latinLower (fun _ => ⟨rfl, rfl, rfl, rfl, rfl⟩)
    (carried_valid.unparse fun s hs => validStudent_pair s (by simp_all))
    (by simp [launchedDevice]) hpath⟩

end Studkurator
