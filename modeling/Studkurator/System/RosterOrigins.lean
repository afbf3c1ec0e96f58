import Studkurator.System.RosterSerial
import Studkurator.System.RosterSafety

/-!
# Where the records of the roster come from

Decoding a record and storing it again keeps its eight texts together, under the key of the
digit that was read. So whatever the clients do and however stale their lists are, all that
they store, cache and show was on the server or in a cache at the start, or was entered.
-/

namespace Studkurator

open Dictionary Transition

set_option autoImplicit false

variable {lower : Char → List Char}

/-- `k` is the key under which a student is stored that was read under `k₀`. -/
def ReadAs [Unicode] (k₀ k : String) : Prop :=
  ∃ c n, (characters k₀).head? = some c ∧ intOfCharacter c = some n ∧ k = toString n ++ "k"

def SameTexts (r r₀ : Record) : Prop :=
  ∀ field ∈ Parser.fieldNames, r.lookup field = r₀.lookup field

/-- The texts of `r` are those of one record of `O`, and the key is that of the record or the
one under which it is read. -/
def Copied [Unicode] (O : String → Record → Prop) (k : String) (r : Record) : Prop :=
  ∃ k₀ r₀, O k₀ r₀ ∧ (k = k₀ ∨ ReadAs k₀ k) ∧ SameTexts r r₀

section Copied
variable {O : String → Record → Prop}

theorem copied_self [Unicode] {k : String} {r : Record} (h : O k r) : Copied O k r :=
  ⟨k, r, h, Or.inl rfl, fun _ _ => rfl⟩

theorem readAs_key [Unicode] {k : String} {r : Record} {s : Student}
    (h : Parser.student (k, r) = some s) :
    ReadAs k (Parser.key s) := by
  obtain ⟨⟨c, hc, hn⟩, -⟩ := (Parser.student_eq_some_iff k r s).mp h
  exact ⟨c, s.number - 1, hc, hn, rfl⟩

/-- A key that was read is read as itself. -/
theorem ReadAs.trans [Unicode] {k₀ k k' : String} (h : ReadAs k₀ k) (h' : ReadAs k k') :
    ReadAs k₀ k' := by
  obtain ⟨c, n, hc, hn, rfl⟩ := h
  obtain ⟨c', n', hc', hn', rfl⟩ := h'
  have hbounds := intOfCharacter_bounds hn
  obtain ⟨c'', hc'', hn''⟩ := intOfCharacter_head hbounds.1 hbounds.2
  obtain rfl : c' = c'' := Option.some.inj (hc'.symm.trans hc'')
  obtain rfl : n' = n := Option.some.inj (hn'.symm.trans hn'')
  exact ⟨c, n', hc, hn, rfl⟩

theorem sameTexts_record [Unicode] {k : String} {r : Record} {s : Student}
    (h : Parser.student (k, r) = some s) : SameTexts (Parser.record s) r := by
  obtain ⟨-, -, hlookup⟩ := (Parser.student_eq_some_iff k r s).mp h
  intro field hfield
  obtain ⟨p, hp, rfl⟩ := Parser.exists_text_of_mem_fieldNames s hfield
  rw [hlookup p hp]
  exact (Parser.lookup_record_eq_some_iff s p.1 p.2).mpr hp

theorem Copied.student [Unicode] {k : String} {r : Record} {s : Student} (h : Copied O k r)
    (hstudent : Parser.student (k, r) = some s) : Copied O (Parser.key s) (Parser.record s) := by
  obtain ⟨k₀, r₀, horigin, hkey, htexts⟩ := h
  have hread := readAs_key hstudent
  refine ⟨k₀, r₀, horigin, Or.inr ?_, ?_⟩
  · rcases hkey with rfl | hkey
    · exact hread
    · exact hkey.trans hread
  · intro field hfield
    rw [sameTexts_record hstudent field hfield]
    exact htexts field hfield

theorem carriedFrom_copied [Unicode] {F : Student → Prop}
    (h : ∀ s, F s → O (Parser.key s) (Parser.record s)) :
    CarriedFrom F (Copied O) (Copied O) fun s => Copied O (Parser.key s) (Parser.record s) where
  read _ _ _ hr hstudent := hr.student hstudent
  write _ hs := hs
  weaken _ _ hr := hr
  form form _ hF := copied_self (h form.student hF)

end Copied

def GroupAction.entered : GroupAction → List Student
  | addStudent _ student | edit _ student => [student]
  | _ => []

section Runs
variable {ι : Type}

def enteredIn (path : List (Taken (Shared ι Node GroupDevice) (ι × GroupAction))) :
    List Student :=
  path.flatMap fun k => k.act.2.entered

/-- What the server and the caches held at the start, and what was entered since. -/
inductive Origin (s₀ : Shared ι Node GroupDevice)
    (path : List (Taken (Shared ι Node GroupDevice) (ι × GroupAction))) :
    String → Record → Prop where
  | remote {k : String} {r : Record} : s₀.shared.lookup k = some r → Origin s₀ path k r
  | cached {i : ι} {dict : Node} {k : String} {r : Record} :
      (s₀.party i).defaults.lookup "dataBase" = some dict → dict.lookup k = some r →
      Origin s₀ path k r
  | entered {student : Student} : student ∈ enteredIn path →
      Origin s₀ path (Parser.key student) (Parser.record student)

structure Traceable [Unicode] (O : String → Record → Prop) (s : Shared ι Node GroupDevice) :
    Prop where
  entries : ∀ node, Visible s node → Entries (Copied O) node
  listed : ∀ i, ∀ screen ∈ (s.party i).groups, ∀ student ∈ screen.vc.filteredResults,
    Copied O (Parser.key student) (Parser.record student)
  opened : ∀ i, ∀ student ∈ (s.party i).details,
    Copied O (Parser.key student) (Parser.record student)
  newStudents : ∀ i, ∀ vc ∈ (s.party i).newStudents, ∀ student ∈ vc.dataBase,
    Copied O (Parser.key student) (Parser.record student)
  edits : ∀ i, ∀ vc ∈ (s.party i).edits, ∀ student ∈ vc.student :: vc.dataBase,
    Copied O (Parser.key student) (Parser.record student)

theorem traceable_of_everywhere [Unicode] {O : String → Record → Prop}
    {s : Shared ι Node GroupDevice}
    (h : Everywhere (Entries (Copied O)) (DeviceHolds (Copied O) (Copied O) fun student =>
      Copied O (Parser.key student) (Parser.record student)) s) : Traceable O s := by
  obtain ⟨hremote, hdevice⟩ := h
  refine ⟨?_, ?_, fun i => (hdevice i).details, fun i => (hdevice i).newStudents, ?_⟩
  · intro node hnode
    cases hnode with
    | remote => exact hremote
    | snapshot hscreen hfetch => exact ((hdevice _).groups _ hscreen).snapshot node hfetch
    | cached hcached => exact (hdevice _).cached node hcached
  · intro i screen hscreen
    exact ((hdevice i).groups screen hscreen).filteredResults
  · intro i vc hvc
    have hholds := (hdevice i).edits vc hvc
    exact List.forall_mem_cons.mpr ⟨hholds.student, hholds.dataBase⟩

variable [DecidableEq ι] {s₀ s : Shared ι Node GroupDevice}
variable {path : List (Taken (Shared ι Node GroupDevice) (ι × GroupAction))}

omit [DecidableEq ι] in
theorem enters_of_mem {k : Taken (Shared ι Node GroupDevice) (ι × GroupAction)} (hk : k ∈ path) :
    k.act.2.Enters (· ∈ enteredIn path) := by
  have hmem : ∀ student ∈ k.act.2.entered, student ∈ enteredIn path :=
    fun student hstudent => List.mem_flatMap.mpr ⟨k, hk, hstudent⟩
  obtain ⟨pre, ⟨i, a⟩, post⟩ := k
  cases a with
  | addStudent j student => exact hmem student List.mem_cons_self
  | edit j student => exact hmem student List.mem_cons_self
  | _ => trivial

/-- No student is made up: every record that a client of a run stores, caches, fetches or
shows has the texts of one record that was there at the start or was entered. -/
theorem traceable_of_path [Unicode] (lower : Char → List Char) (hidle : ∀ i, (s₀.party i).Idle)
    (hpath : Path (Interleave (GroupDevice.Step lower)) s₀ path s) :
    Traceable (Origin s₀ path) s := by
  apply traceable_of_everywhere
  have hcarried : CarriedFrom (· ∈ enteredIn path) (Copied (Origin s₀ path))
      (Copied (Origin s₀ path)) _ := carriedFrom_copied fun _ h => .entered h
  refine hpath.invariant_of_guard (everywhere_carriedFrom_step hcarried)
    (fun k hk => enters_of_mem hk) ⟨?_, ?_⟩
  · intro k r hr
    exact copied_self (.remote hr)
  · intro i
    refine deviceHolds_of_idle (hidle i) ?_
    intro dict hdict k r hr
    exact copied_self (.cached hdict hr)

end Runs

theorem traceable_of_path_one_add : ∃ path s,
    path.map Taken.act =
      [(true, .groupLoad), (true, .answer 0), (true, .complete 0), (true, .openNew),
        (true, .addStudent 0 olena)] ∧
    Path (Interleave (GroupDevice.Step latinLower)) ⟨ivanNode, fun _ : Bool => launchedDevice⟩
      path s ∧
    Traceable (Origin ⟨ivanNode, fun _ : Bool => launchedDevice⟩ path) s := by
  obtain ⟨path, hpath, hacts⟩ := exists_path_interleave_acts
    (s := ⟨ivanNode, fun _ : Bool => launchedDevice⟩) (i := true) (path_addPath latinLower)
  exact ⟨path, _, hacts, hpath,
    traceable_of_path latinLower (fun _ => ⟨rfl, rfl, rfl, rfl, rfl⟩) hpath⟩

end Studkurator
