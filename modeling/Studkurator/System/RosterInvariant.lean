import Studkurator.System.GroupDevice

/-!
# What decoding and encoding carry along

A condition on the students of a list and conditions on the entries of a store, such
that reading an entry and writing a student lead from one to the other. Whatever the
order of the steps, a device then holds only such lists and only such dictionaries.
-/

namespace Studkurator

open Dictionary Transition

set_option autoImplicit false

variable {R E : String → Record → Prop} {Q : Student → Prop} {lower : Char → List Char}

/-- `R` is asked of the entries on the server, `E` of those that the program writes. -/
structure Carried [Unicode] (R E : String → Record → Prop) (Q : Student → Prop) : Prop where
  read : ∀ k r s, R k r → Parser.student (k, r) = some s → Q s
  write : ∀ s, Q s → E (Parser.key s) (Parser.record s)
  weaken : ∀ k r, E k r → R k r
  form : ∀ form : StudentForm, form.check = true → Q form.student

/-- As `Carried`, where only students that meet `F` are entered into the forms. -/
structure CarriedFrom [Unicode] (F : Student → Prop) (R E : String → Record → Prop)
    (Q : Student → Prop) :
    Prop where
  read : ∀ k r s, R k r → Parser.student (k, r) = some s → Q s
  write : ∀ s, Q s → E (Parser.key s) (Parser.record s)
  weaken : ∀ k r, E k r → R k r
  form : ∀ form : StudentForm, form.check = true → F form.student → Q form.student

def GroupAction.Enters (F : Student → Prop) : GroupAction → Prop
  | addStudent _ student | edit _ student => F student
  | _ => True

theorem GroupAction.enters_true (a : GroupAction) : a.Enters fun _ => True := by
  cases a <;> trivial

namespace CarriedFrom
variable {F : Student → Prop}

theorem parse [Unicode] (h : CarriedFrom F R E Q) {node : Node} (hnode : Entries R node)
    {order : List (String × Record)} (horder : Iterates order node) {data : List Student}
    (hparse : Parser.parse order = some data) : ∀ s ∈ data, Q s := by
  intro s hs
  obtain ⟨k, r, hr, hstudent⟩ := (horder.mem_decoded_iff hparse s).mp hs
  exact h.read k r s (hnode k r hr) hstudent

theorem unparse [Unicode] (h : CarriedFrom F R E Q) {data : List Student}
    (hdata : ∀ s ∈ data, Q s) :
    Entries E (Parser.unparse data) :=
  entries_encode fun s hs => h.write s (hdata s hs)

end CarriedFrom

theorem Carried.entered [Unicode] (h : Carried R E Q) : CarriedFrom (fun _ => True) R E Q :=
  { h with form := fun form hcheck _ => h.form form hcheck }

theorem Carried.unparse [Unicode] (h : Carried R E Q) {data : List Student}
    (hdata : ∀ s ∈ data, Q s) :
    Entries E (Parser.unparse data) :=
  h.entered.unparse hdata

def Keeps (R : String → Record → Prop) (w : RemoteWrite) : Prop :=
  ∀ node, Entries R node → Entries R (w.apply node)

theorem keeps_setValue {value : Node} (h : Entries R value) : Keeps R (.setValue value) :=
  fun _ _ => h

theorem keeps_removeValue (key : String) : Keeps R (.removeValue key) :=
  fun _ hnode => hnode.erase key

structure ScreenHolds (R : String → Record → Prop) (Q : Student → Prop)
    (screen : Screen GroupVC) : Prop where
  dataBase : ∀ s ∈ screen.vc.dataBase, Q s
  filteredResults : ∀ s ∈ screen.vc.filteredResults, Q s
  snapshot : ∀ snapshot, screen.fetch = .answered snapshot → Entries R snapshot

structure EditHolds (Q : Student → Prop) (vc : EditTVC) : Prop where
  dataBase : ∀ s ∈ vc.dataBase, Q s
  student : Q vc.student

structure DeviceHolds (R E : String → Record → Prop) (Q : Student → Prop)
    (device : GroupDevice) : Prop where
  cached : ∀ dict, device.defaults.lookup "dataBase" = some dict → Entries E dict
  groups : ∀ screen ∈ device.groups, ScreenHolds R Q screen
  details : ∀ s ∈ device.details, Q s
  newStudents : ∀ vc ∈ device.newStudents, ∀ s ∈ vc.dataBase, Q s
  edits : ∀ vc ∈ device.edits, EditHolds Q vc
  queue : ∀ w ∈ device.queue, Keeps R w

theorem deviceHolds_of_idle {device : GroupDevice} (h : device.Idle)
    (hcached : ∀ dict, device.defaults.lookup "dataBase" = some dict → Entries E dict) :
    DeviceHolds R E Q device := by
  obtain ⟨hgroups, hdetails, hnew, hedits, hqueue⟩ := h
  refine ⟨hcached, ?_, ?_, ?_, ?_, ?_⟩ <;> simp [*]

theorem DeviceHolds.set_group {device : GroupDevice} (h : DeviceHolds R E Q device) {i : ℕ}
    {screen : Screen GroupVC} (hscreen : ScreenHolds R Q screen) :
    DeviceHolds R E Q { device with groups := device.groups.set i screen } :=
  { h with groups := forall_mem_set h.groups hscreen }

/-- A handler whose cached dictionary and writes are in order leaves everything in order. -/
theorem DeviceHolds.issue {σ : Type} {remote : Node} {device : GroupDevice}
    {outcome : Outcome σ} (hremote : Entries R remote) (h : DeviceHolds R E Q device)
    (hcached : ∀ dict, outcome.cached = some dict → Entries E dict)
    (hwrites : ∀ w ∈ outcome.writes, Keeps R w) :
    Entries R (device.issue remote outcome).1 ∧
      DeviceHolds R E Q (device.issue remote outcome).2 := by
  refine ⟨?_, { h with cached := ?_, queue := ?_ }⟩
  · unfold GroupDevice.issue
    cases hw : outcome.writes with
    | nil => exact hremote
    | cons w rest =>
      rw [hw] at hwrites
      exact hwrites w List.mem_cons_self remote hremote
  · intro dict hdict
    simp only [GroupDevice.issue] at hdict
    cases hc : outcome.cached with
    | none =>
      rw [hc, UserDefaults.store_none] at hdict
      exact h.cached dict hdict
    | some value =>
      rw [hc, UserDefaults.lookup_store_some] at hdict
      cases hdict
      exact hcached _ hc
  · intro w hw
    rcases List.mem_append.mp hw with hw | hw
    · exact h.queue w hw
    · exact hwrites w (List.mem_of_mem_drop hw)

/-- What a form decodes from the cache when it is opened. -/
theorem DeviceHolds.read_cached [Unicode] {F : Student → Prop} {device : GroupDevice}
    (h : DeviceHolds R E Q device) (hcarried : CarriedFrom F R E Q)
    {order : List (String × Record)} {data : List Student}
    (hreading : Reading (device.defaults.lookup "dataBase") (some order))
    (hparse : Parser.parse order = some data) : ∀ s ∈ data, Q s := by
  obtain ⟨cached, hcached, horder⟩ := exists_of_reading hreading
  have hentries : Entries R cached := (h.cached cached hcached).mono hcarried.weaken
  exact hcarried.parse hentries horder hparse

theorem carriedFrom_step [Unicode] {F : Student → Prop} (hcarried : CarriedFrom F R E Q)
    (s : Node × GroupDevice) (a : GroupAction) (t : Node × GroupDevice) (hremote : Entries R s.1)
    (hdevice : DeviceHolds R E Q s.2) (hact : a.Enters F) (h : GroupDevice.Step lower s a t) :
    Entries R t.1 ∧ DeviceHolds R E Q t.2 := by
  cases h with
  | loginLoad =>
    refine ⟨hremote, { hdevice with cached := ?_ }⟩
    simpa using hdevice.cached
  | @launch remote device =>
    refine ⟨hremote, deviceHolds_of_idle ⟨rfl, rfl, rfl, rfl, rfl⟩ ?_⟩
    simpa using hdevice.cached
  | groupLoad =>
    refine ⟨hremote, { hdevice with groups := forall_mem_concat hdevice.groups ?_ }⟩
    constructor <;> simp
  | @answer remote device i screen hscreen hfetch =>
    have hholds := hdevice.groups screen (List.mem_of_getElem? hscreen)
    refine ⟨hremote, hdevice.set_group { hholds with snapshot := ?_ }⟩
    intro snapshot hsnapshot
    cases hsnapshot
    exact hremote
  | @complete remote device i screen snapshot response outcome hscreen hfetch hfound horder
      hcompletion =>
    have hholds := hdevice.groups screen (List.mem_of_getElem? hscreen)
    obtain ⟨hparse, hsort, hcached, hwrites⟩ := GroupVC.fetchCompletion_eq_some hcompletion
    have hlisted := hcarried.parse (hholds.snapshot snapshot hfetch) horder hparse
    apply DeviceHolds.issue hremote
    · apply hdevice.set_group
      refine ⟨hlisted, fun s hs => hlisted s (GroupVC.mem_of_mem_sort hsort hs), ?_⟩
      simp
    · intro dict hdict
      rw [hcached] at hdict
      cases hdict
      exact hcarried.unparse hlisted
    · simp [hwrites]
  | @giveUp remote device i screen hscreen hfetch =>
    have hholds := hdevice.groups screen (List.mem_of_getElem? hscreen)
    refine ⟨hremote, hdevice.set_group { hholds with snapshot := ?_ }⟩
    simp
  | @search remote device i screen text vc hscreen hsearch =>
    have hholds := hdevice.groups screen (List.mem_of_getElem? hscreen)
    refine ⟨hremote, hdevice.set_group ⟨?_, ?_, hholds.snapshot⟩⟩
    · intro s hs
      rw [GroupVC.updateSearchResults_dataBase hsearch] at hs
      exact hholds.dataBase s hs
    · intro s hs
      exact hholds.dataBase s (GroupVC.mem_dataBase_of_updateSearchResults hsearch hs)
  | @select remote device i row screen student hscreen hselect =>
    have hholds := hdevice.groups screen (List.mem_of_getElem? hscreen)
    refine ⟨hremote, { hdevice with details := forall_mem_concat hdevice.details ?_ }⟩
    exact hholds.filteredResults student (List.mem_of_getElem? hselect)
  | @delete remote device i row screen student outcome hscreen hstudent hdelete =>
    have hholds := hdevice.groups screen (List.mem_of_getElem? hscreen)
    obtain ⟨student', displayed, -, -, rfl⟩ := GroupVC.delete_eq_some_iff.mp hdelete
    have hlisted : ∀ s ∈ screen.vc.dataBase.eraseIdx row, Q s :=
      fun s hs => hholds.dataBase s (List.mem_of_mem_eraseIdx hs)
    apply DeviceHolds.issue hremote
    · apply hdevice.set_group
      refine ⟨hlisted, ?_, hholds.snapshot⟩
      exact fun s hs => hholds.filteredResults s (List.mem_of_mem_eraseIdx hs)
    · intro dict hdict
      cases hdict
      exact hcarried.unparse hlisted
    · simp [keeps_removeValue]
  | @openNew remote device dict vc hreading hload =>
    refine ⟨hremote, { hdevice with newStudents := forall_mem_concat hdevice.newStudents ?_ }⟩
    obtain ⟨order, rfl, hparse⟩ := NewStudentTVC.viewDidLoad_eq_some hload
    exact hdevice.read_cached hcarried hreading hparse
  | @addStudent remote device i vc form outcome hvc hsave =>
    obtain ⟨hcheck, -, rfl⟩ := NewStudentTVC.saveBtnPressed_eq_some_iff.mp hsave
    have hlisted := forall_mem_concat
      (hdevice.newStudents vc (List.mem_of_getElem? hvc)) (hcarried.form form hcheck hact)
    have hencoded := hcarried.unparse hlisted
    apply DeviceHolds.issue hremote
    · exact { hdevice with newStudents := forall_mem_set hdevice.newStudents hlisted }
    · intro dict hdict
      cases hdict
      exact hencoded
    · simpa [NewStudentTVC.save] using keeps_setValue (hencoded.mono hcarried.weaken)
  | @openEdit remote device student dict vc hdetail hreading hload =>
    refine ⟨hremote, { hdevice with edits := forall_mem_concat hdevice.edits ?_ }⟩
    obtain ⟨order, rfl, hparse, rfl⟩ := EditTVC.viewDidLoad_eq_some hload
    exact ⟨hdevice.read_cached hcarried hreading hparse, hdevice.details _ hdetail⟩
  | @edit remote device i vc form outcome hvc hsave =>
    have hholds := hdevice.edits vc (List.mem_of_getElem? hvc)
    obtain ⟨hcheck, -, hsaved⟩ := EditTVC.saveBtnPressed_eq_some_iff.mp hsave
    rw [EditTVC.save_eq] at hsaved
    cases hsaved
    have hencoded := (hcarried.unparse hholds.dataBase).insert
      (hcarried.write _ (hcarried.form form hcheck hact))
    apply DeviceHolds.issue hremote
    · exact { hdevice with edits := forall_mem_set hdevice.edits hholds }
    · intro dict hdict
      cases hdict
      exact hencoded
    · simpa using ⟨keeps_removeValue _, keeps_setValue (hencoded.mono hcarried.weaken)⟩
  | @write remote device w rest hqueue =>
    refine ⟨hdevice.queue w (by simp [hqueue]) remote hremote, { hdevice with queue := ?_ }⟩
    intro w' hw'
    exact hdevice.queue w' (by simp [hqueue, hw'])

theorem carried_step [Unicode] (hcarried : Carried R E Q) (s : Node × GroupDevice) (a : GroupAction)
    (t : Node × GroupDevice) (hremote : Entries R s.1) (hdevice : DeviceHolds R E Q s.2)
    (h : GroupDevice.Step lower s a t) : Entries R t.1 ∧ DeviceHolds R E Q t.2 :=
  carriedFrom_step hcarried.entered s a t hremote hdevice a.enters_true h

theorem everywhere_carriedFrom_step [Unicode] {F : Student → Prop} {ι : Type} [DecidableEq ι]
    (hcarried : CarriedFrom F R E Q) (s : Shared ι Node GroupDevice) (a : ι × GroupAction)
    (t : Shared ι Node GroupDevice) (hs : Everywhere (Entries R) (DeviceHolds R E Q) s)
    (hact : a.2.Enters F) (h : Interleave (GroupDevice.Step lower) s a t) :
    Everywhere (Entries R) (DeviceHolds R E Q) t :=
  everywhere_step_of_guard (fun _ a => GroupAction.Enters F a) (carriedFrom_step hcarried)
    s a t hs hact h

end Studkurator
