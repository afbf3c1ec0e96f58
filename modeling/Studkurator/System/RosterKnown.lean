import Studkurator.System.RosterSafety

/-!
# Students whom every client knows

A save stores the list of its form, however long ago that list was read. A student whom all
caches know as well as the server is in every such list, so she stays until somebody deletes
her or enters a student under whose key she would be read.
-/

namespace Studkurator

open Dictionary Transition

set_option autoImplicit false

variable {lower : Char → List Char} {student : Student}

/-- A key that is read as the number of the student. -/
def ReadLike [Unicode] (student : Student) (k : String) : Prop := KeyReads (student.number - 1) k

/-- The record of the student is there, and no other that is read under the same number. -/
structure Known [Unicode] (student : Student) (node : Node) : Prop where
  stored : node.lookup (Parser.key student) = some (Parser.record student)
  alone : ∀ k ∈ node, ReadLike student k → k = Parser.key student

structure Enrolled [Unicode] (student : Student) (data : List Student) : Prop where
  mem : student ∈ data
  alone : ∀ s ∈ data, ReadLike student (Parser.key s) → s = student

theorem readLike_key_iff [Unicode] {s : Student} (hs : 1 ≤ s.number ∧ s.number ≤ 10) :
    ReadLike student (Parser.key s) ↔ s.number = student.number := by
  rw [ReadLike, Parser.key, keyReads_toString_iff (by omega) (by omega)]
  omega

theorem readLike_key_self [Unicode] (hstudent : Parser.Decodes [student]) :
    ReadLike student (Parser.key student) :=
  (readLike_key_iff (hstudent.numbers _ (List.mem_singleton_self student))).mpr rfl

theorem ne_key_of_not_readLike [Unicode] (hstudent : Parser.Decodes [student]) {k : String}
    (h : ¬ ReadLike student k) : Parser.key student ≠ k := by
  intro hkey
  subst hkey
  exact h (readLike_key_self hstudent)

namespace Enrolled
variable {data : List Student}

theorem unparse [Unicode] (hstudent : Parser.Decodes [student]) (h : Enrolled student data) :
    Known student (Parser.unparse data) := by
  have hmem : Parser.key student ∈ Parser.unparse data :=
    (mem_encode_iff _ _ _ _).mpr (List.mem_map_of_mem h.mem)
  obtain ⟨r, hr⟩ := Finmap.mem_iff.mp hmem
  obtain ⟨s, hs, hkey, rfl⟩ := exists_of_lookup_encode _ _ hr
  obtain rfl := h.alone s hs (hkey ▸ readLike_key_self hstudent)
  refine ⟨hr, ?_⟩
  intro k hk hread
  obtain ⟨s', hs', rfl⟩ := List.mem_map.mp ((mem_encode_iff _ _ _ _).mp hk)
  rw [h.alone s' hs' hread]

theorem concat [Unicode] (h : Enrolled student data) {s : Student}
    (hs : ¬ ReadLike student (Parser.key s)) : Enrolled student (data ++ [s]) := by
  refine ⟨List.mem_append_left _ h.mem, ?_⟩
  exact forall_mem_concat h.alone fun hread => absurd hread hs

theorem eraseIdx [Unicode] (h : Enrolled student data) {row : ℕ} {s : Student}
    (hrow : data[row]? = some s) (hs : Parser.key s ≠ Parser.key student) :
    Enrolled student (data.eraseIdx row) := by
  refine ⟨?_, fun s hs => h.alone s (List.mem_of_mem_eraseIdx hs)⟩
  obtain ⟨i, hi⟩ := List.mem_iff_getElem?.mp h.mem
  refine List.mem_eraseIdx_iff_getElem?.mpr ⟨i, ?_, hi⟩
  rintro rfl
  obtain rfl := Option.some.inj (hrow.symm.trans hi)
  exact hs rfl

end Enrolled

namespace Known
variable {node : Node}

theorem parse [Unicode] (hstudent : Parser.Decodes [student]) (h : Known student node)
    {order : List (String × Record)} (horder : Iterates order node) {data : List Student}
    (hdata : Parser.parse order = some data) : Enrolled student data := by
  have hself := List.mem_singleton_self student
  have hread : Parser.student (Parser.key student, Parser.record student) = some student :=
    Parser.student_key_record (hstudent.numbers _ hself).1 (hstudent.numbers _ hself).2
      (hstudent.wellTyped _ hself)
  refine ⟨(horder.mem_decoded_iff hdata _).mpr ⟨_, _, h.stored, hread⟩, ?_⟩
  intro s hs hlike
  obtain ⟨k, r, hr, hdecode⟩ := (horder.mem_decoded_iff hdata s).mp hs
  -- the key of `s` begins with the digit that `s` was read from
  have hnumber := (readLike_key_iff (Parser.parse_bounds hdata hs)).mp hlike
  have hkey : k = Parser.key student := by
    apply h.alone k (Finmap.mem_of_lookup_eq_some hr)
    rw [ReadLike, keyReads_iff _ ((Parser.student_eq_some_iff k r s).mp hdecode).1, hnumber]
  subst hkey
  obtain rfl := Option.some.inj (hr.symm.trans h.stored)
  exact Option.some.inj (hdecode.symm.trans hread)

theorem erase [Unicode] (h : Known student node) {key : String} (hkey : key ≠ Parser.key student) :
    Known student (node.erase key) := by
  refine ⟨by rw [Finmap.lookup_erase_ne hkey.symm, h.stored], ?_⟩
  exact fun k hk => h.alone k (Finmap.mem_erase.mp hk).2

theorem insert [Unicode] (hstudent : Parser.Decodes [student]) (h : Known student node)
    {key : String} (hkey : ¬ ReadLike student key) (r : Record) :
    Known student (node.insert key r) := by
  have hne := ne_key_of_not_readLike hstudent hkey
  refine ⟨by rw [Finmap.lookup_insert_of_ne _ hne, h.stored], ?_⟩
  intro k hk hread
  rcases Finmap.mem_insert.mp hk with rfl | hk
  · exact absurd hread hkey
  · exact h.alone k hk hread

end Known

/-- The student is in all lists of the device but those of screens without an answer, and in
the dictionaries that are cached or on their way. -/
structure DeviceKnows [Unicode] (student : Student) (device : GroupDevice) : Prop where
  cached : ∀ dict, device.defaults.lookup "dataBase" = some dict → Known student dict
  groups : ∀ screen ∈ device.groups,
    (screen.vc.dataBase = [] ∨ Enrolled student screen.vc.dataBase) ∧
      ∀ snapshot, screen.fetch = .answered snapshot → Known student snapshot
  newStudents : ∀ vc ∈ device.newStudents, Enrolled student vc.dataBase
  edits : ∀ vc ∈ device.edits, Enrolled student vc.dataBase
  queue : ∀ w ∈ device.queue, ∃ value, w = .setValue value ∧ Known student value

namespace DeviceKnows
variable {device : GroupDevice}

theorem set_group [Unicode] (h : DeviceKnows student device) (i : ℕ) (screen : Screen GroupVC)
    (hlist : screen.vc.dataBase = [] ∨ Enrolled student screen.vc.dataBase)
    (hsnapshot : ∀ snapshot, screen.fetch = .answered snapshot → Known student snapshot) :
    DeviceKnows student { device with groups := device.groups.set i screen } :=
  { h with groups := forall_mem_set h.groups ⟨hlist, hsnapshot⟩ }

theorem read_cached [Unicode] (hstudent : Parser.Decodes [student]) (h : DeviceKnows student device)
    {order : List (String × Record)} {data : List Student}
    (hreading : Reading (device.defaults.lookup "dataBase") (some order))
    (hparse : Parser.parse order = some data) : Enrolled student data := by
  obtain ⟨dict, hdict, horder⟩ := exists_of_reading hreading
  exact (h.cached dict hdict).parse hstudent horder hparse

theorem issue [Unicode] {σ : Type} (h : DeviceKnows student device) (remote : Node)
    {outcome : Outcome σ}
    {dict : Node} (hcached : outcome.cached = some dict) (hdict : Known student dict)
    (hwaiting : ∀ w ∈ outcome.writes.drop 1, w = .setValue dict) :
    DeviceKnows student (device.issue remote outcome).2 := by
  refine { h with cached := ?_, queue := ?_ }
  · intro value hvalue
    simp only [GroupDevice.issue, hcached, UserDefaults.lookup_store_some] at hvalue
    cases hvalue
    exact hdict
  · intro w hw
    rcases List.mem_append.mp hw with hw | hw
    · exact h.queue w hw
    · exact ⟨dict, hwaiting w hw, hdict⟩

end DeviceKnows

/-- An action that neither deletes the student nor enters one who is read under her number. -/
def GroupAction.Spares [Unicode] (student : Student) : GroupAction → Prop
  | delete _ s => Parser.key s ≠ Parser.key student
  | addStudent _ s | edit _ s => ¬ ReadLike student (Parser.key s)
  | _ => True

section Runs
variable {ι : Type} [DecidableEq ι] {s₀ s : Shared ι Node GroupDevice}
variable {path : List (Taken (Shared ι Node GroupDevice) (ι × GroupAction))}

end Runs

end Studkurator
