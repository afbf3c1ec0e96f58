import Studkurator.System.RosterInvariant

/-!
# The cached roster behind the student forms

Both forms unwrap the dictionary that `UserDefaults` holds under `dataBase`. On a new
device only a fetch that finds a `groupDataBase` puts one there; `fetch` returns early
from any other snapshot. What is cached once is never removed and always decodes.
-/

namespace Studkurator

open Dictionary Transition

set_option autoImplicit false

variable {lower : Char → List Char}

namespace GroupDevice

/-- A student that a list or a detail screen shows. -/
def Listed (device : GroupDevice) (student : Student) : Prop :=
  (∃ screen ∈ device.groups, student ∈ screen.vc.filteredResults) ∨ student ∈ device.details

/-- The add button of a loaded `GroupVC` opens `NewStudentTVC` without a trap, and so does
the edit button of a listed student `EditTVC`. -/
structure FormsFindData [Unicode] (device : GroupDevice) : Prop where
  newStudent : device.groups ≠ [] → ∀ dict, Reading (device.defaults.lookup "dataBase") dict →
    (NewStudentTVC.viewDidLoad dict).isSome
  edit : ∀ student, device.Listed student →
    ∀ dict, Reading (device.defaults.lookup "dataBase") dict →
      (EditTVC.viewDidLoad student dict).isSome

structure Blank (device : GroupDevice) : Prop where
  groups : ∀ screen ∈ device.groups, screen.vc = ⟨[], []⟩
  details : device.details = []
  newStudents : device.newStudents = []
  edits : device.edits = []

theorem Blank.not_listed {device : GroupDevice} (h : device.Blank) (student : Student) :
    ¬ device.Listed student := by
  intro hlisted
  rcases hlisted with hlisted | hlisted
  · obtain ⟨screen, hscreen, hstudent⟩ := hlisted
    simp [h.groups screen hscreen] at hstudent
  · simp [h.details] at hlisted

theorem lookup_issue {σ : Type} (remote : Node) (device : GroupDevice) (outcome : Outcome σ) :
    (device.issue remote outcome).2.defaults.lookup "dataBase" =
        device.defaults.lookup "dataBase" ∨
      ((device.issue remote outcome).2.defaults.lookup "dataBase").isSome := by
  unfold issue
  cases outcome.cached with
  | none => exact Or.inl rfl
  | some dict => exact Or.inr (by simp)

theorem Step.lookup_dataBase [Unicode] {s t : Node × GroupDevice} {a : GroupAction}
    (h : Step lower s a t) :
    t.2.defaults.lookup "dataBase" = s.2.defaults.lookup "dataBase" ∨
      (t.2.defaults.lookup "dataBase").isSome := by
  cases h with
  | loginLoad => exact Or.inl (LoginVC.lookup_dataBase_viewDidLoad _)
  | launch => exact Or.inl (LoginVC.lookup_dataBase_viewDidLoad _)
  | complete => exact lookup_issue _ _ _
  | delete => exact lookup_issue _ _ _
  | addStudent => exact lookup_issue _ _ _
  | edit => exact lookup_issue _ _ _
  | _ => exact Or.inl rfl

theorem Step.lookup_dataBase_of_complete [Unicode] {s t : Node × GroupDevice} {i : ℕ}
    (h : Step lower s (.complete i) t) : (t.2.defaults.lookup "dataBase").isSome := by
  cases h with
  | complete hscreen hfetch hfound horder hcompletion =>
    obtain ⟨-, -, hcached, -⟩ := GroupVC.fetchCompletion_eq_some hcompletion
    simp [issue, hcached]

/-- Without a cached roster only the completion of a fetch brings anything onto the screen. -/
theorem Step.blank [Unicode] {s t : Node × GroupDevice} {a : GroupAction} (h : Step lower s a t)
    (hother : ∀ i, a ≠ .complete i) (hcached : s.2.defaults.lookup "dataBase" = none)
    (hblank : s.2.Blank) : t.2.defaults.lookup "dataBase" = none ∧ t.2.Blank := by
  cases h with
  | loginLoad => exact ⟨by simpa using hcached, { hblank with }⟩
  | launch => exact ⟨by simpa using hcached, ⟨by simp, rfl, rfl, rfl⟩⟩
  | groupLoad =>
    exact ⟨hcached, { hblank with groups := forall_mem_concat hblank.groups rfl }⟩
  | answer hscreen =>
    have hvc := hblank.groups _ (List.mem_of_getElem? hscreen)
    exact ⟨hcached, { hblank with groups := forall_mem_set hblank.groups hvc }⟩
  | complete => exact absurd rfl (hother _)
  | giveUp hscreen =>
    have hvc := hblank.groups _ (List.mem_of_getElem? hscreen)
    exact ⟨hcached, { hblank with groups := forall_mem_set hblank.groups hvc }⟩
  | @search remote device i screen text vc hscreen hsearch =>
    have hvc := hblank.groups _ (List.mem_of_getElem? hscreen)
    have hdataBase := GroupVC.updateSearchResults_dataBase hsearch
    have hfiltered : vc.filteredResults = [] := by
      rw [List.eq_nil_iff_forall_not_mem]
      intro student hstudent
      have hmem := GroupVC.mem_dataBase_of_updateSearchResults hsearch hstudent
      simp [hvc] at hmem
    refine ⟨hcached, { hblank with groups := forall_mem_set hblank.groups ?_ }⟩
    rw [hvc] at hdataBase
    cases vc
    simp_all
  | select hscreen hselect =>
    have hvc := hblank.groups _ (List.mem_of_getElem? hscreen)
    simp [GroupVC.didSelectRow, hvc] at hselect
  | delete hscreen hstudent hdelete =>
    have hvc := hblank.groups _ (List.mem_of_getElem? hscreen)
    simp [hvc] at hstudent
  | openNew hreading hload =>
    obtain ⟨order, rfl, -⟩ := NewStudentTVC.viewDidLoad_eq_some hload
    obtain ⟨dict, hdict, -⟩ := exists_of_reading hreading
    rw [hcached] at hdict
    cases hdict
  | addStudent hvc =>
    rw [hblank.newStudents] at hvc
    simp at hvc
  | openEdit hdetail =>
    rw [hblank.details] at hdetail
    simp at hdetail
  | edit hvc =>
    rw [hblank.edits] at hvc
    simp at hvc
  | write => exact ⟨hcached, { hblank with }⟩

end GroupDevice

/-- Some fetch of the run has found a `groupDataBase` and completed. -/
def FetchCompleted (path : List (Taken (Node × GroupDevice) GroupAction)) : Prop :=
  ∃ k ∈ path, ∃ i, k.act = .complete i

/-- The roster is cached from the first completed fetch on; until then nothing is shown. -/
theorem cached_iff_fetchCompleted [Unicode] {s₀ s : Node × GroupDevice}
    {path : List (Taken (Node × GroupDevice) GroupAction)} (hidle : s₀.2.Idle)
    (habsent : s₀.2.defaults.lookup "dataBase" = none)
    (hpath : Path (GroupDevice.Step lower) s₀ path s) :
    ((s.2.defaults.lookup "dataBase").isSome ↔ FetchCompleted path) ∧
      (s.2.defaults.lookup "dataBase" = none → s.2.Blank) := by
  induction hpath with
  | nil =>
    obtain ⟨hgroups, hdetails, hnew, hedits, -⟩ := hidle
    refine ⟨by simp [habsent, FetchCompleted], fun _ => ⟨by simp [hgroups], hdetails, hnew, hedits⟩⟩
  | @snoc t u path a _ hstep ih =>
    obtain ⟨ihcached, ihblank⟩ := ih
    have hlast : FetchCompleted (path ++ [⟨t, a, u⟩]) ↔
        FetchCompleted path ∨ ∃ i, a = .complete i := by
      simp [FetchCompleted, or_and_right, exists_or]
    rw [hlast, ← ihcached]
    by_cases hcomplete : ∃ i, a = .complete i
    · obtain ⟨i, rfl⟩ := hcomplete
      have hsome := hstep.lookup_dataBase_of_complete
      refine ⟨by simp [hsome], ?_⟩
      intro hnone
      simp [hnone] at hsome
    · have hother : ∀ i, a ≠ .complete i := fun i hi => hcomplete ⟨i, hi⟩
      cases hcached : t.2.defaults.lookup "dataBase" with
      | none =>
        obtain ⟨hnone, hblank⟩ := hstep.blank hother hcached (ihblank hcached)
        exact ⟨by simp [hnone, hcomplete], fun _ => hblank⟩
      | some dict =>
        have hsome : (u.2.defaults.lookup "dataBase").isSome := by
          rcases hstep.lookup_dataBase with hsame | hsome
          · simp [hsame, hcached]
          · exact hsome
        refine ⟨by simp [hsome], ?_⟩
        intro hnone
        simp [hnone] at hsome

def Decodable [Unicode] (k : String) (r : Record) : Prop := (Parser.student (k, r)).isSome

theorem carried_decodable [Unicode] : Carried
    (fun _ _ => True) Decodable fun s => 1 ≤ s.number where
  read _ _ _ _ hstudent := (Parser.number_bounds hstudent).1
  write _ hs := Parser.isSome_student_record hs
  weaken _ _ _ := trivial
  form form _ := by
    simp only [StudentForm.student, StudentForm.number]
    omega

/-- The cache and every list from which it is written decode again. -/
abbrev DecodesAgain [Unicode] (device : GroupDevice) : Prop :=
  DeviceHolds (fun _ _ => True) Decodable (fun s => 1 ≤ s.number) device

theorem decodesAgain_of_path [Unicode] {s₀ s : Node × GroupDevice}
    {path : List (Taken (Node × GroupDevice) GroupAction)} (hidle : s₀.2.Idle)
    (habsent : s₀.2.defaults.lookup "dataBase" = none)
    (hpath : Path (GroupDevice.Step lower) s₀ path s) : DecodesAgain s.2 := by
  have hstep : ∀ s a t, DecodesAgain s.2 → GroupDevice.Step lower s a t → DecodesAgain t.2 := by
    intro s a t hs h
    exact (carried_step carried_decodable s a t (fun _ _ _ => trivial) hs h).2
  have hfinal := hpath.invariant hstep (deviceHolds_of_idle hidle (by simp [habsent]))
  exact hfinal

theorem parse_isSome_of_cached [Unicode] {device : GroupDevice} {dict : Node}
    (h : DecodesAgain device)
    (hdict : device.defaults.lookup "dataBase" = some dict) {order : List (String × Record)}
    (horder : Iterates order dict) : (Parser.parse order).isSome :=
  horder.isSome_mapM_iff.mpr (h.cached dict hdict)

theorem formsFindData_of_cached [Unicode] {device : GroupDevice} {dict : Node}
    (h : DecodesAgain device)
    (hdict : device.defaults.lookup "dataBase" = some dict) : device.FormsFindData := by
  have hload : ∀ order, Reading (device.defaults.lookup "dataBase") order →
      ∃ entries data, order = some entries ∧ Parser.parse entries = some data := by
    intro order horder
    rw [hdict] at horder
    cases horder with
    | @some _ entries hentries =>
      obtain ⟨data, hdata⟩ := Option.isSome_iff_exists.mp (parse_isSome_of_cached h hdict hentries)
      exact ⟨entries, data, rfl, hdata⟩
  constructor
  · intro _ order horder
    obtain ⟨entries, data, rfl, hdata⟩ := hload order horder
    simp [NewStudentTVC.viewDidLoad, hdata]
  · intro student _ order horder
    obtain ⟨entries, data, rfl, hdata⟩ := hload order horder
    simp [EditTVC.viewDidLoad, hdata]

/-- A student can be edited wherever one is listed; adding one traps until a fetch that
found a `groupDataBase` has completed. -/
theorem formsFindData_iff [Unicode] (lower : Char → List Char) {s₀ s : Node × GroupDevice}
    {path : List (Taken (Node × GroupDevice) GroupAction)} (hidle : s₀.2.Idle)
    (habsent : s₀.2.defaults.lookup "dataBase" = none)
    (hpath : Path (GroupDevice.Step lower) s₀ path s) :
    s.2.FormsFindData ↔ (s.2.groups ≠ [] → FetchCompleted path) := by
  obtain ⟨hcached, hblank⟩ := cached_iff_fetchCompleted hidle habsent hpath
  rw [← hcached]
  constructor
  · intro h hgroups
    obtain ⟨order, horder⟩ := exists_reading (s.2.defaults.lookup "dataBase")
    obtain ⟨vc, hvc⟩ := Option.isSome_iff_exists.mp (h.newStudent hgroups order horder)
    obtain ⟨entries, rfl, -⟩ := NewStudentTVC.viewDidLoad_eq_some hvc
    obtain ⟨dict, hdict, -⟩ := exists_of_reading horder
    simp [hdict]
  · intro h
    cases hlookup : s.2.defaults.lookup "dataBase" with
    | none =>
      refine ⟨?_, fun student hlisted => absurd hlisted ((hblank hlookup).not_listed student)⟩
      intro hgroups
      have hsome := h hgroups
      simp [hlookup] at hsome
    | some dict =>
      exact formsFindData_of_cached (decodesAgain_of_path hidle habsent hpath) hlookup

def emptyRoster (fetch : Fetch) : GroupDevice :=
  { launchedDevice with groups := [⟨⟨[], []⟩, fetch⟩] }

def pathToEmptyRoster : List (Taken (Node × GroupDevice) GroupAction) :=
  [⟨(∅, launchedDevice), .groupLoad, (∅, emptyRoster .started)⟩,
    ⟨(∅, emptyRoster .started), .answer 0, (∅, emptyRoster (.answered ∅))⟩,
    ⟨(∅, emptyRoster (.answered ∅)), .giveUp 0, (∅, emptyRoster .done)⟩]

theorem path_emptyRoster [Unicode] : Path (GroupDevice.Step latinLower) (∅, launchedDevice)
    pathToEmptyRoster (∅, emptyRoster .done) := by
  have hload : GroupDevice.Step latinLower (∅, launchedDevice) .groupLoad
      (∅, emptyRoster .started) := .groupLoad
  have hanswer : GroupDevice.Step latinLower (∅, emptyRoster .started) (.answer 0)
      (∅, emptyRoster (.answered ∅)) :=
    @GroupDevice.Step.answer _ _ ∅ (emptyRoster .started) 0 ⟨⟨[], []⟩, .started⟩ rfl rfl
  have hgiveUp : GroupDevice.Step latinLower (∅, emptyRoster (.answered ∅)) (.giveUp 0)
      (∅, emptyRoster .done) :=
    @GroupDevice.Step.giveUp _ _ ∅ (emptyRoster (.answered ∅)) 0 ⟨⟨[], []⟩, .answered ∅⟩ rfl rfl
  exact .snoc (.snoc (.snoc .nil hload) hanswer) hgiveUp

theorem formsFindData_iff_emptyRoster : (emptyRoster .done).FormsFindData ↔
    ((emptyRoster .done).groups ≠ [] → FetchCompleted pathToEmptyRoster) :=
  formsFindData_iff latinLower ⟨rfl, rfl, rfl, rfl, rfl⟩ rfl path_emptyRoster

/-- On an account without students the add button traps. -/
theorem not_formsFindData : ¬ ∀ (lower : Char → List Char) (s₀ s : Node × GroupDevice)
    (path : List (Taken (Node × GroupDevice) GroupAction)), s₀.2.Idle →
    s₀.2.defaults.lookup "dataBase" = none → Path (GroupDevice.Step lower) s₀ path s →
    s.2.FormsFindData := by
  intro h
  have hopens := h _ _ _ _ ⟨rfl, rfl, rfl, rfl, rfl⟩ rfl path_emptyRoster
  have hload := hopens.newStudent (by simp [emptyRoster]) none .none
  cases hload

end Studkurator
