import Studkurator.System.RosterDeletions
import Studkurator.System.RosterSafety

/-!
# How many students a roster can hold

The picker offers fifty numbers, but a list that was decoded has at most ten different
ones. A save adds one student to such a list, so eleven records are the most that any
number of clients can store.
-/

namespace Studkurator

open Dictionary Transition

set_option autoImplicit false

variable {lower : Char → List Char} {limit : ℕ}

abbrev Listed (data : List Student) : Prop := ∀ s ∈ data, 1 ≤ s.number ∧ s.number ≤ 10

theorem keys_unparse_subset {data : List Student} (h : Listed data) :
    (Parser.unparse data).keys ⊆ (Finset.range 10).image indexKey := by
  intro k hk
  rw [Parser.unparse, keys_encode, List.mem_toFinset, List.mem_map] at hk
  obtain ⟨s, hs, rfl⟩ := hk
  obtain ⟨digit, hdigit, hkey⟩ := key_eq_indexKey (h s hs)
  rw [hkey]
  exact Finset.mem_image_of_mem _ (Finset.mem_range.mpr hdigit)

theorem card_unparse_le_ten {data : List Student} (h : Listed data) :
    (Parser.unparse data).keys.card ≤ 10 := by
  have hcard := Finset.card_le_card (keys_unparse_subset h)
  rwa [Finset.card_image_of_injective _ indexKey_injective, Finset.card_range] at hcard

theorem card_insert_unparse_le {data : List Student} (h : Listed data) (k : String) (r : Record) :
    ((Parser.unparse data).insert k r).keys.card ≤ 11 := by
  have hten := card_unparse_le_ten h
  have hinsert := card_keys_insert_le (Parser.unparse data) k r
  omega

theorem card_unparse_append_le {data : List Student} (h : Listed data) (student : Student) :
    (Parser.unparse (data ++ [student])).keys.card ≤ 11 := by
  rw [Parser.unparse, encode_append_singleton]
  exact card_insert_unparse_le h _ _

/-- The lists were decoded, those of the form for a new student up to what was added there;
no dictionary is larger than the limit. -/
structure Bounded (limit : ℕ) (device : GroupDevice) : Prop where
  cached : ∀ dict, device.defaults.lookup "dataBase" = some dict → dict.keys.card ≤ limit
  groups : ∀ screen ∈ device.groups, Listed screen.vc.dataBase ∧
    ∀ snapshot, screen.fetch = .answered snapshot → snapshot.keys.card ≤ limit
  newStudents : ∀ vc ∈ device.newStudents, ∀ s ∈ vc.dataBase, 1 ≤ s.number
  edits : ∀ vc ∈ device.edits, Listed vc.dataBase
  queue : ∀ w ∈ device.queue, ∃ value : Node, w = .setValue value ∧ value.keys.card ≤ limit

theorem bounded_of_idle {device : GroupDevice} (h : device.Idle)
    (hcached : ∀ dict, device.defaults.lookup "dataBase" = some dict → dict.keys.card ≤ limit) :
    Bounded limit device := by
  obtain ⟨hgroups, -, hnew, hedits, hqueue⟩ := h
  refine ⟨hcached, ?_, ?_, ?_, ?_⟩ <;> simp [*]

theorem Bounded.set_group {device : GroupDevice} (h : Bounded limit device) (i : ℕ)
    {screen : Screen GroupVC} (hlisted : Listed screen.vc.dataBase)
    (hsnapshot : ∀ snapshot, screen.fetch = .answered snapshot → snapshot.keys.card ≤ limit) :
    Bounded limit { device with groups := device.groups.set i screen } :=
  { h with groups := forall_mem_set h.groups ⟨hlisted, hsnapshot⟩ }

/-- A handler that stores dictionaries within the limit keeps the device within it. -/
theorem Bounded.issue {σ : Type} {remote : Node} {device : GroupDevice} {outcome : Outcome σ}
    (h : Bounded limit device)
    (hcached : ∀ dict, outcome.cached = some dict → dict.keys.card ≤ limit)
    (hwrites : ∀ w ∈ outcome.writes.drop 1, ∃ value : Node, w = .setValue value ∧
      value.keys.card ≤ limit) : Bounded limit (device.issue remote outcome).2 := by
  refine { h with cached := ?_, queue := ?_ }
  · intro dict hdict
    simp only [GroupDevice.issue] at hdict
    cases hc : outcome.cached with
    | none =>
      rw [hc, UserDefaults.store_none] at hdict
      exact h.cached dict hdict
    | some value =>
      rw [hc, UserDefaults.lookup_store_some] at hdict
      cases hdict
      exact hcached _ hc
  · intro w hw
    rcases List.mem_append.mp hw with hw | hw
    · exact h.queue w hw
    · exact hwrites w hw

/-- A new student is saved with a list in which no number exceeds ten. -/
def GroupAction.AddsToDecoded (s : Node × GroupDevice) : GroupAction → Prop
  | addStudent i _ => ∀ vc, s.2.newStudents[i]? = some vc → ∀ t ∈ vc.dataBase, t.number ≤ 10
  | _ => True

/-- A list as it was decoded is such a list. -/
theorem addsToDecoded_of_parse [Unicode] {s : Node × GroupDevice} {i : ℕ} {student : Student}
    (h : ∀ vc, s.2.newStudents[i]? = some vc → ∃ order, Parser.parse order = some vc.dataBase) :
    GroupAction.AddsToDecoded s (.addStudent i student) := by
  intro vc hvc t ht
  obtain ⟨order, hparse⟩ := h vc hvc
  exact (Parser.parse_bounds hparse ht).2

theorem bounded_step [Unicode] (hlimit : 11 ≤ limit) (s : Node × GroupDevice) (a : GroupAction)
    (t : Node × GroupDevice) (hremote : s.1.keys.card ≤ limit) (hdevice : Bounded limit s.2)
    (hadds : a.AddsToDecoded s) (h : GroupDevice.Step lower s a t) :
    t.1.keys.card ≤ limit ∧ Bounded limit t.2 := by
  cases h with
  | loginLoad => exact ⟨hremote, { hdevice with cached := by simpa using hdevice.cached }⟩
  | launch =>
    refine ⟨hremote, bounded_of_idle ⟨rfl, rfl, rfl, rfl, rfl⟩ ?_⟩
    simpa using hdevice.cached
  | groupLoad =>
    exact ⟨hremote, { hdevice with
      groups := forall_mem_concat hdevice.groups (by simp [Listed]) }⟩
  | @answer remote device i screen hscreen hfetch =>
    have hholds := hdevice.groups screen (List.mem_of_getElem? hscreen)
    refine ⟨hremote, hdevice.set_group i hholds.1 ?_⟩
    intro snapshot hsnapshot
    cases hsnapshot
    exact hremote
  | @complete remote device i screen snapshot response outcome hscreen hfetch hfound horder
      hcompletion =>
    obtain ⟨hparse, -, hcached, hwrites⟩ := GroupVC.fetchCompletion_eq_some hcompletion
    have hlisted : Listed outcome.controller.dataBase := fun s hs => Parser.parse_bounds hparse hs
    have hten := card_unparse_le_ten hlisted
    have hset : Bounded limit
        { device with groups := device.groups.set i ⟨outcome.controller, .done⟩ } :=
      hdevice.set_group i hlisted (by simp)
    refine ⟨by simpa [GroupDevice.issue, hwrites] using hremote, ?_⟩
    refine hset.issue ?_ (by simp [hwrites])
    intro dict hdict
    rw [hcached] at hdict
    cases hdict
    omega
  | @giveUp remote device i screen hscreen hfetch =>
    have hholds := hdevice.groups screen (List.mem_of_getElem? hscreen)
    exact ⟨hremote, hdevice.set_group i hholds.1 (by simp)⟩
  | @search remote device i screen text vc hscreen hsearch =>
    have hholds := hdevice.groups screen (List.mem_of_getElem? hscreen)
    refine ⟨hremote, hdevice.set_group i ?_ hholds.2⟩
    rw [GroupVC.updateSearchResults_dataBase hsearch]
    exact hholds.1
  | select => exact ⟨hremote, { hdevice with }⟩
  | @delete remote device i row screen student outcome hscreen hstudent hdelete =>
    have hholds := hdevice.groups screen (List.mem_of_getElem? hscreen)
    obtain ⟨student', displayed, -, -, rfl⟩ := GroupVC.delete_eq_some_iff.mp hdelete
    have hlisted : Listed (screen.vc.dataBase.eraseIdx row) :=
      fun s hs => hholds.1 s (List.mem_of_mem_eraseIdx hs)
    have hten := card_unparse_le_ten hlisted
    have hset : Bounded limit { device with
        groups := device.groups.set i ⟨⟨screen.vc.dataBase.eraseIdx row,
          screen.vc.filteredResults.eraseIdx row⟩, screen.fetch⟩ } :=
      hdevice.set_group i hlisted hholds.2
    refine ⟨(card_keys_erase_le remote _).trans hremote, hset.issue ?_ (by simp)⟩
    intro dict hdict
    cases hdict
    omega
  | openNew hreading hload =>
    refine ⟨hremote, { hdevice with newStudents := forall_mem_concat hdevice.newStudents ?_ }⟩
    obtain ⟨order, rfl, hparse⟩ := NewStudentTVC.viewDidLoad_eq_some hload
    exact fun s hs => (Parser.parse_bounds hparse hs).1
  | @addStudent remote device i vc form outcome hvc hsave =>
    obtain ⟨-, -, rfl⟩ := NewStudentTVC.saveBtnPressed_eq_some_iff.mp hsave
    have hpositive := hdevice.newStudents vc (List.mem_of_getElem? hvc)
    have hlisted : Listed vc.dataBase := fun s hs => ⟨hpositive s hs, hadds vc hvc s hs⟩
    have heleven := card_unparse_append_le hlisted form.student
    have hadded : ∀ s ∈ vc.dataBase ++ [form.student], 1 ≤ s.number :=
      forall_mem_concat hpositive form.number_bounds.1
    have hset : Bounded limit { device with
        newStudents := device.newStudents.set i ⟨vc.dataBase ++ [form.student]⟩ } :=
      { hdevice with newStudents := forall_mem_set hdevice.newStudents hadded }
    refine ⟨heleven.trans hlimit, hset.issue ?_ (by simp [NewStudentTVC.save])⟩
    intro dict hdict
    cases hdict
    exact heleven.trans hlimit
  | openEdit hdetail hreading hload =>
    refine ⟨hremote, { hdevice with edits := forall_mem_concat hdevice.edits ?_ }⟩
    obtain ⟨order, rfl, hparse, rfl⟩ := EditTVC.viewDidLoad_eq_some hload
    exact fun s hs => Parser.parse_bounds hparse hs
  | @edit remote device i vc form outcome hvc hsave =>
    have hlisted := hdevice.edits vc (List.mem_of_getElem? hvc)
    obtain ⟨-, -, hsaved⟩ := EditTVC.saveBtnPressed_eq_some_iff.mp hsave
    rw [EditTVC.save_eq] at hsaved
    cases hsaved
    have hoverlaid := card_insert_unparse_le hlisted (Parser.key form.student)
      (Parser.record form.student)
    have hset : Bounded limit { device with edits := device.edits.set i vc } :=
      { hdevice with edits := forall_mem_set hdevice.edits hlisted }
    refine ⟨(card_keys_erase_le remote _).trans hremote, hset.issue ?_ ?_⟩
    · intro dict hdict
      cases hdict
      exact hoverlaid.trans hlimit
    · simpa using hoverlaid.trans hlimit
  | @write remote device w rest hwaiting =>
    obtain ⟨value, rfl, hvalue⟩ := hdevice.queue w (by simp [hwaiting])
    refine ⟨hvalue, { hdevice with queue := ?_ }⟩
    intro w' hw'
    exact hdevice.queue w' (by simp [hwaiting, hw'])

section Runs
variable {ι : Type} [DecidableEq ι] {s₀ s : Shared ι Node GroupDevice}
variable {path : List (Taken (Shared ι Node GroupDevice) (ι × GroupAction))}

theorem everywhere_bounded_step [Unicode] (hlimit : 11 ≤ limit) (s : Shared ι Node GroupDevice)
    (a : ι × GroupAction) (t : Shared ι Node GroupDevice)
    (hs : Everywhere (fun node : Node => node.keys.card ≤ limit) (Bounded limit) s)
    (hadds : a.2.AddsToDecoded (s.shared, s.party a.1))
    (h : Interleave (GroupDevice.Step lower) s a t) :
    Everywhere (fun node : Node => node.keys.card ≤ limit) (Bounded limit) t :=
  everywhere_step_of_guard (fun s a => GroupAction.AddsToDecoded s a) (bounded_step hlimit)
    s a t hs hadds h

/-- Neither the server nor a cache nor an answer ever holds more than eleven students,
unless there were more at the start. -/
theorem card_le_of_path [Unicode] (lower : Char → List Char) (hlimit : 11 ≤ limit)
    (hidle : ∀ i, (s₀.party i).Idle) (hremote : s₀.shared.keys.card ≤ limit)
    (hcached : ∀ i dict, (s₀.party i).defaults.lookup "dataBase" = some dict →
      dict.keys.card ≤ limit)
    (hpath : Path (Interleave (GroupDevice.Step lower)) s₀ path s)
    (hadds : ∀ k ∈ path, k.act.2.AddsToDecoded (k.pre.shared, k.pre.party k.act.1)) :
    ∀ node, Visible s node → node.keys.card ≤ limit := by
  have hinv := hpath.invariant_of_guard (everywhere_bounded_step hlimit) hadds
    ⟨hremote, fun i => bounded_of_idle (hidle i) (hcached i)⟩
  intro node hnode
  cases hnode with
  | remote => exact hinv.1
  | snapshot hscreen hfetch => exact ((hinv.2 _).groups _ hscreen).2 node hfetch
  | cached hdict => exact (hinv.2 _).cached node hdict

end Runs

theorem card_le_of_path_one_add : ∃ path s,
    path.map Taken.act =
      [(true, .groupLoad), (true, .answer 0), (true, .complete 0), (true, .openNew),
        (true, .addStudent 0 olena)] ∧
    Path (Interleave (GroupDevice.Step latinLower)) ⟨ivanNode, fun _ : Bool => launchedDevice⟩
      path s ∧
    ∀ node, Visible s node → node.keys.card ≤ 11 := by
  obtain ⟨path, hpath, hacts, hstates⟩ := exists_path_interleave_states
    (s := ⟨ivanNode, fun _ : Bool => launchedDevice⟩) (i := true) (path_addPath latinLower)
  have hadds : ∀ k ∈ addPath, k.act.AddsToDecoded k.pre := by
    simp only [addPath, openPath, GroupDevice.fetchPath, List.cons_append, List.nil_append,
      List.forall_mem_cons]
    refine ⟨trivial, trivial, trivial, trivial, addsToDecoded_of_parse ?_, by simp⟩
    intro vc hvc
    obtain rfl : vc = ⟨[ivan]⟩ := (Option.some.inj hvc).symm
    exact ⟨_, decodes_ivan.parse⟩
  refine ⟨path, _, hacts, hpath, card_le_of_path latinLower (by decide)
    (fun _ => ⟨rfl, rfl, rfl, rfl, rfl⟩) (by decide) (by simp [launchedDevice]) hpath ?_⟩
  intro k hk
  obtain ⟨k', hk', hact, hpre⟩ := hstates k hk
  rw [hact, hpre]
  exact hadds k' hk'

end Studkurator
