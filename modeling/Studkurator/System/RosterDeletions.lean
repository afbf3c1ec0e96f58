import Studkurator.Library.Cells
import Studkurator.System.RosterInvariant

/-!
# Deletions from the roster

As long as nobody saves a form, the server loses the students that are deleted and nothing
else, whoever deletes them and in whatever order. Every listed number was read off the
first digit of a key, so a record under a longer key is out of reach of the delete action.
-/

namespace Studkurator

open Cells Dictionary Transition

set_option autoImplicit false

variable {lower : Char → List Char}

/-- A run without accepted saves. -/
abbrev GroupAction.EntersNobody (a : GroupAction) : Prop := a.Enters fun _ => False

def GroupAction.deletions : GroupAction → List Student
  | delete _ student => [student]
  | _ => []

def keysOf (students : List Student) : List (String × Unit) :=
  students.map fun student => (Parser.key student, ())

/-- What a deletion leaves under its key. -/
def removed (_ : Unit) (_ : Option Record) : Option Record := none

theorem carriedFrom_listed [Unicode] : CarriedFrom (fun _ => False) (fun _ _ => True)
    (fun _ _ => True)
    fun s => 1 ≤ s.number ∧ s.number ≤ 10 where
  read _ _ _ _ h := Parser.number_bounds h
  write _ _ := trivial
  weaken _ _ h := h
  form _ _ h := h.elim

/-- All lists were decoded, and no write is on its way. -/
abbrev ListsOnly (device : GroupDevice) : Prop :=
  DeviceHolds (fun _ _ => True) (fun _ _ => True) (fun s => 1 ≤ s.number ∧ s.number ≤ 10) device ∧
    device.queue = []

theorem key_eq_indexKey {s : Student} (h : 1 ≤ s.number ∧ s.number ≤ 10) :
    ∃ digit < 10, Parser.key s = indexKey digit := by
  refine ⟨(s.number - 1).toNat, by omega, ?_⟩
  rw [indexKey_eq, Parser.key, Int.toNat_of_nonneg (by omega)]

theorem deletions_step [Unicode] {s t : Node × GroupDevice} {a : GroupAction}
    (h : GroupDevice.Step lower s a t) (hact : a.EntersNobody) (hdevice : ListsOnly s.2) :
    Performed lookups removed (keysOf a.deletions) s.1 t.1 ∧ t.2.queue = [] ∧
      ∀ student ∈ a.deletions, 1 ≤ student.number ∧ student.number ≤ 10 := by
  obtain ⟨hholds, hqueue⟩ := hdevice
  cases h with
  | loginLoad | groupLoad | answer | giveUp | search | select | openNew | openEdit =>
    exact ⟨performed_nil rfl, hqueue, by simp [GroupAction.deletions]⟩
  | launch => exact ⟨performed_nil rfl, rfl, by simp [GroupAction.deletions]⟩
  | complete hscreen hfetch hfound horder hcompletion =>
    obtain ⟨-, -, -, hwrites⟩ := GroupVC.fetchCompletion_eq_some hcompletion
    refine ⟨performed_nil ?_, ?_, by simp [GroupAction.deletions]⟩
    · simp [GroupDevice.issue, hwrites]
    · simpa [GroupDevice.issue, hwrites] using hqueue
  | @delete remote device i row screen student outcome hscreen hstudent hdelete =>
    obtain ⟨student', displayed, hstudent', -, rfl⟩ := GroupVC.delete_eq_some_iff.mp hdelete
    obtain rfl : student' = student := Option.some.inj (hstudent'.symm.trans hstudent)
    have hlisted := (hholds.groups screen (List.mem_of_getElem? hscreen)).dataBase student'
      (List.mem_of_getElem? hstudent)
    refine ⟨performed_singleton ?_ ?_, ?_, ?_⟩
    · simp [GroupDevice.issue, RemoteWrite.apply, lookups, removed]
    · intro k hk
      simp [GroupDevice.issue, RemoteWrite.apply, lookups, Finmap.lookup_erase_ne hk]
    · simpa [GroupDevice.issue] using hqueue
    · simpa [GroupAction.deletions] using hlisted
  | addStudent => exact hact.elim
  | edit => exact hact.elim
  | write hwaiting =>
    rw [hqueue] at hwaiting
    cases hwaiting

theorem foldl_removed (ops : List Unit) (v : Option Record) :
    ops.foldl (fun v op => removed op v) v = if ops = [] then v else none := by
  cases ops with
  | nil => rfl
  | cons op ops =>
    rw [List.foldl_cons, if_neg (by simp)]
    induction ops with
    | nil => rfl
    | cons op' ops ih => exact ih

theorem operationsOn_keysOf_eq_nil_iff (k : String) (students : List Student) :
    operationsOn k (keysOf students) = [] ↔ k ∉ students.map Parser.key := by
  rw [List.eq_nil_iff_forall_not_mem]
  simp only [mem_operationsOn_iff, keysOf, List.mem_map, Prod.mk.injEq, and_true]
  exact ⟨fun h hk => h () hk, fun h _ hk => h hk⟩

/-- `node'` is `node` without what stood under the keys of the students. These keys have one
digit, so a record under a longer key stays, whoever it is read as. -/
structure Thinned (node : Node) (students : List Student) (node' : Node) : Prop where
  lookup : ∀ k, node'.lookup k = if k ∈ students.map Parser.key then none else node.lookup k
  oneDigit : ∀ student ∈ students, ∃ digit < 10, Parser.key student = indexKey digit
  longer : ∀ k, (∀ digit < 10, k ≠ indexKey digit) → node'.lookup k = node.lookup k

section Runs
variable {ι : Type}

def deletionsOf (path : List (Taken (Shared ι Node GroupDevice) (ι × GroupAction))) :
    List Student :=
  path.flatMap fun k => k.act.2.deletions

theorem deletionsOf_eq (path : List (Taken (Shared ι Node GroupDevice) (ι × GroupAction))) :
    deletionsOf path = (path.map Taken.act).flatMap fun a => a.2.deletions := by
  rw [List.flatMap_map]
  rfl

variable [DecidableEq ι] {s₀ s : Shared ι Node GroupDevice}
variable {path : List (Taken (Shared ι Node GroupDevice) (ι × GroupAction))}

omit [DecidableEq ι] in
theorem everywhere_listsOnly (hidle : ∀ i, (s₀.party i).Idle) :
    Everywhere (fun _ => True) ListsOnly s₀ := by
  refine ⟨trivial, fun i => ⟨deviceHolds_of_idle (hidle i) ?_, (hidle i).2.2.2.2⟩⟩
  exact fun _ _ _ _ _ => trivial

theorem everywhere_listsOnly_step [Unicode] (s : Shared ι Node GroupDevice) (a : ι × GroupAction)
    (t : Shared ι Node GroupDevice) (hs : Everywhere (fun _ => True) ListsOnly s)
    (hact : a.2.EntersNobody) (h : Interleave (GroupDevice.Step lower) s a t) :
    Everywhere (fun _ => True) ListsOnly t := by
  refine everywhere_step_of_guard (fun _ a => GroupAction.EntersNobody a) ?_ s a t hs hact h
  intro s a t _ hdevice hact h
  have hholds := (carriedFrom_step carriedFrom_listed s a t (fun _ _ _ => trivial) hdevice.1
    hact h).2
  exact ⟨trivial, hholds, (deletions_step h hact hdevice).2.1⟩

theorem thinned_of_lookup {node node' : Node} {students : List Student}
    (hlookup : ∀ k, node'.lookup k =
      if k ∈ students.map Parser.key then none else node.lookup k)
    (honeDigit : ∀ student ∈ students, ∃ digit < 10, Parser.key student = indexKey digit) :
    Thinned node students node' := by
  refine ⟨hlookup, honeDigit, ?_⟩
  intro k hk
  rw [hlookup, if_neg]
  intro hmem
  obtain ⟨student, hstudent, rfl⟩ := List.mem_map.mp hmem
  obtain ⟨digit, hdigit, hkey⟩ := honeDigit student hstudent
  exact hk digit hdigit hkey

/-- Without saves, whatever the clients do, the server loses exactly what stands under the
keys of the students that the delete actions take from their lists. -/
theorem thinned_of_deletions [Unicode] (lower : Char → List Char) (hidle : ∀ i, (s₀.party i).Idle)
    (hpath : Path (Interleave (GroupDevice.Step lower)) s₀ path s)
    (hacts : ∀ k ∈ path, k.act.2.EntersNobody) :
    Thinned s₀.shared (deletionsOf path) s.shared := by
  have hsteps : ∀ k ∈ path, Performed (fun s : Shared ι Node GroupDevice => lookups s.shared)
      removed (keysOf k.act.2.deletions) k.pre k.post ∧
        ∀ student ∈ k.act.2.deletions, 1 ≤ student.number ∧ student.number ≤ 10 := by
    intro k hk
    have hinv := hpath.invariant_of_guard_of_mem everywhere_listsOnly_step hacts
      (everywhere_listsOnly hidle) hk
    obtain ⟨hperformed, -, hlisted⟩ :=
      deletions_step (hpath.step_of_mem hk).step_party (hacts k hk) (hinv.2 k.act.1)
    exact ⟨hperformed, hlisted⟩
  apply thinned_of_lookup
  · intro k
    have hcells := performed_of_path (fun k => keysOf k.act.2.deletions) hpath
      (fun k hk => (hsteps k hk).1) k
    have hkeys : path.flatMap (fun k => keysOf k.act.2.deletions) = keysOf (deletionsOf path) := by
      rw [keysOf, deletionsOf, List.map_flatMap]
      rfl
    rw [hkeys, foldl_removed] at hcells
    simpa only [operationsOn_keysOf_eq_nil_iff, ite_not] using hcells
  · intro student hstudent
    obtain ⟨k, hk, hmem⟩ := List.mem_flatMap.mp hstudent
    exact key_eq_indexKey ((hsteps k hk).2 student hmem)

end Runs

/-- Both clients delete Ivan, who is gone when the second does, and that one Olena, too. -/
theorem thinned_of_deletions_twice : ∃ path s,
    path.map Taken.act =
      [(false, .groupLoad), (false, .answer 0), (false, .complete 0), (true, .groupLoad),
        (true, .answer 0), (true, .complete 0), (true, .delete 0 ivan), (false, .delete 0 ivan),
        (false, .delete 0 olena)] ∧
    Path (Interleave (GroupDevice.Step latinLower)) ⟨pairNode, fun _ : Bool => launchedDevice⟩
      path s ∧
    Thinned pairNode [ivan, ivan, olena] s.shared := by
  have hfetch := path_listed latinLower decodes_pair (by decide) (by decide)
  have hdelete : GroupVC.delete ⟨[ivan, olena], [ivan, olena]⟩ 0 = some _ := rfl
  have hlast : GroupVC.delete ⟨[olena], [olena]⟩ 0 = some _ := rfl
  obtain ⟨path, hpath, hacts, -⟩ := exists_path_two
    (s := ⟨pairNode, fun _ : Bool => launchedDevice⟩) (i := false) (j := true) (by decide)
    hfetch (hfetch.snoc (a := .delete 0 ivan) (.delete rfl rfl hdelete))
  have hrun := (hpath.snoc (.act (i := false) (a := .delete 0 ivan) (.delete rfl rfl hdelete))).snoc
    (.act (i := false) (a := .delete 0 olena) (.delete rfl rfl hlast))
  obtain ⟨run, s, hrun, hrunActs⟩ : ∃ run s,
      Path (Interleave (GroupDevice.Step latinLower)) ⟨pairNode, fun _ : Bool => launchedDevice⟩
        run s ∧
      run.map Taken.act = _ := ⟨_, _, hrun, by rw [List.map_append, List.map_append, hacts]⟩
  have henters : ∀ a ∈ run.map Taken.act, a.2.EntersNobody := by
    rw [hrunActs]
    simp [GroupDevice.fetchPath, GroupAction.EntersNobody, GroupAction.Enters]
  have hthinned := thinned_of_deletions latinLower (fun _ => ⟨rfl, rfl, rfl, rfl, rfl⟩) hrun
    fun k hk => henters _ (List.mem_map_of_mem hk)
  rw [deletionsOf_eq, hrunActs] at hthinned
  exact ⟨run, s, hrunActs, hrun, hthinned⟩

end Studkurator
