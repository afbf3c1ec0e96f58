import Studkurator.Controller.GroupReload
import Studkurator.System.AccountDevice

/-!
# Rosters of different accounts

The cache survives a login, so a form can hold the roster of one account while `id` names
another. As long as no form is saved then, the records of the accounts stay apart.
-/

namespace Studkurator

open Dictionary Transition

set_option autoImplicit false

namespace AccountDevice

variable {lower : Char → List Char} {s : AccountDevice}

/-- A save under the account whose roster the form holds; the student that an edit form was
opened with is of that account too. -/
def AtHome (s : AccountDevice) : AccountAction → Prop
  | .addStudent i _ => ∀ source vc, s.newStudents[i]? = some (source, vc) → s.id = source
  | .edit i _ => ∀ source account vc, s.edits[i]? = some (source, account, vc) →
      s.id = source ∧ s.id = some account
  | _ => True

section Owned
variable {origins : List (Account × Record)} {source : Option Account} {account : Account}

def Owned (origins : List (Account × Record)) (source : Option Account) (r : Record) : Prop :=
  ∃ account, source = some account ∧ (account, r) ∈ origins

/-- A roster of `source`, with records as the program writes them. -/
def OwnRoster (origins : List (Account × Record)) (source : Option Account) (dict : Node) : Prop :=
  Entries (fun _ r => r.keys = Parser.fieldNames.toFinset ∧ Owned origins source r) dict

theorem Owned.append {r : Record} (h : Owned origins source r)
    (added : List (Account × Record)) : Owned (origins ++ added) source r := by
  obtain ⟨account, hsource, hmem⟩ := h
  exact ⟨account, hsource, List.mem_append_left _ hmem⟩

theorem ownRoster_unparse {data : List Student}
    (h : ∀ student ∈ data, Owned origins source (Parser.record student)) :
    OwnRoster origins source (Parser.unparse data) :=
  entries_encode fun student hstudent => ⟨Parser.keys_record student, h student hstudent⟩

theorem owned_of_parse [Unicode] {dict : Node} (h : OwnRoster origins source dict)
    {order : List (String × Record)} (horder : Iterates order dict) {data : List Student}
    (hdata : Parser.parse order = some data) :
    ∀ student ∈ data, Owned origins source (Parser.record student) := by
  intro student hstudent
  obtain ⟨k, r, hr, hdecode⟩ := (horder.mem_decoded_iff hdata student).mp hstudent
  obtain ⟨hfields, howned⟩ := h k r hr
  rw [Parser.record_of_student hfields hdecode]
  exact howned

end Owned

/-- All lists on the device hold records of their own account only. -/
structure Sourced (s : AccountDevice) : Prop where
  groups : ∀ entry ∈ s.groups,
    ∀ student ∈ entry.2.vc.dataBase ++ entry.2.vc.filteredResults,
      Owned s.origins (some entry.1) (Parser.record student)
  details : ∀ entry ∈ s.details, Owned s.origins (some entry.1) (Parser.record entry.2)
  cached : ∀ dict, s.defaults.lookup "dataBase" = some dict → OwnRoster s.origins s.source dict
  newStudents : ∀ entry ∈ s.newStudents, ∀ student ∈ entry.2.dataBase,
    Owned s.origins entry.1 (Parser.record student)
  edits : ∀ entry ∈ s.edits, ∀ student ∈ entry.2.2.dataBase,
    Owned s.origins entry.1 (Parser.record student)
  edited : ∀ entry ∈ s.edits,
    Owned s.origins (some entry.2.1) (Parser.record entry.2.2.student)
  isolated : s.Isolated

theorem Fresh.sourced (h : s.Fresh) : s.Sourced := by
  refine ⟨?_, ?_, ?_, ?_, ?_, ?_, ?_⟩
  · simp [h.groups]
  · simp [h.details]
  · simp [h.cached]
  · simp [h.newStudents]
  · simp [h.edits]
  · simp [h.edits]
  · simp [Isolated, h.written]

theorem Sourced.originate (h : s.Sourced) (account : Account) (students : List Student) :
    (s.originate account students).Sourced where
  groups entry hentry student hstudent := (h.groups entry hentry student hstudent).append _
  details entry hentry := (h.details entry hentry).append _
  cached dict hdict := (h.cached dict hdict).mono fun _ _ hr => ⟨hr.1, hr.2.append _⟩
  newStudents entry hentry student hstudent :=
    (h.newStudents entry hentry student hstudent).append _
  edits entry hentry student hstudent := (h.edits entry hentry student hstudent).append _
  edited entry hentry := (h.edited entry hentry).append _
  isolated account dict hmem :=
    (h.isolated account dict hmem).mono fun _ _ hr => List.mem_append_left _ hr

theorem owned_originate {account : Account} {students : List Student} {student : Student}
    (h : student ∈ students) :
    Owned (s.originate account students).origins (some account) (Parser.record student) :=
  ⟨account, rfl, List.mem_append_right _ (List.mem_map_of_mem h)⟩

theorem Sourced.set_group (h : s.Sourced) (i : ℕ) {account : Account} {screen : Screen GroupVC}
    (hscreen : ∀ student ∈ screen.vc.dataBase ++ screen.vc.filteredResults,
      Owned s.origins (some account) (Parser.record student)) :
    Sourced { s with groups := s.groups.set i (account, screen) } :=
  { h with groups := forall_mem_set h.groups hscreen }

theorem Sourced.set_newStudent (h : s.Sourced) (i : ℕ) {source : Option Account}
    {vc : NewStudentTVC}
    (hvc : ∀ student ∈ vc.dataBase, Owned s.origins source (Parser.record student)) :
    Sourced { s with newStudents := s.newStudents.set i (source, vc) } :=
  { h with newStudents := forall_mem_set h.newStudents hvc }

theorem Sourced.set_edit (h : s.Sourced) (i : ℕ) {source : Option Account} {account : Account}
    {vc : EditTVC} (hvc : ∀ student ∈ vc.dataBase, Owned s.origins source (Parser.record student))
    (hstudent : Owned s.origins (some account) (Parser.record vc.student)) :
    Sourced { s with edits := s.edits.set i (source, account, vc) } :=
  { h with
    edits := forall_mem_set h.edits hvc
    edited := forall_mem_set h.edited hstudent }

/-- Storing a roster of `source` in the cache, and under `account` if that is `source`. -/
theorem Sourced.issue {σ : Type} (h : s.Sourced) {account : Account} {source : Option Account}
    {outcome : Outcome σ} {dict : Node} (hdict : OwnRoster s.origins source dict)
    (hcached : outcome.cached = some dict)
    (hwrites : ∀ value, .setValue value ∈ outcome.writes → value = dict ∧ source = some account) :
    (s.issue account source outcome).Sourced where
  groups := h.groups
  details := h.details
  cached := by
    intro value hvalue
    simp only [AccountDevice.issue, hcached, UserDefaults.lookup_store_some] at hvalue
    cases hvalue
    exact hdict
  newStudents := h.newStudents
  edits := h.edits
  edited := h.edited
  isolated := by
    intro account' value hmem
    rcases List.mem_append.mp hmem with hmem | hmem
    · exact h.isolated account' value hmem
    · obtain ⟨value', hvalue, heq⟩ := List.mem_map.mp hmem
      cases heq
      obtain ⟨write, hwrite, hdictionary⟩ := List.mem_filterMap.mp hvalue
      cases write with
      | setValue stored =>
        cases hdictionary
        obtain ⟨rfl, rfl⟩ := hwrites _ hwrite
        intro k r hr
        obtain ⟨-, account, hsame, hmem⟩ := hdict k r hr
        cases hsame
        exact hmem
      | _ => cases hdictionary

theorem Sourced.read_cached [Unicode] {s : AccountDevice} (hs : s.Sourced)
    {order : List (String × Record)}
    {data : List Student} (hreading : Reading (s.defaults.lookup "dataBase") (some order))
    (hparse : Parser.parse order = some data) :
    ∀ student ∈ data, Owned s.origins s.source (Parser.record student) := by
  obtain ⟨dict, hdict, horder⟩ := exists_of_reading hreading
  exact owned_of_parse (hs.cached dict hdict) horder hparse

theorem sourced_step [Unicode] (s : AccountDevice) (a : AccountAction) (t : AccountDevice)
    (hs : s.Sourced) (hhome : AtHome s a) (h : Step lower s a t) : t.Sourced := by
  cases h with
  | attempt => exact { hs with }
  | login => exact { hs with }
  | refuse => exact { hs with }
  | loginLoad => exact { hs with cached := by simpa using hs.cached }
  | launch =>
    exact { hs with
      groups := by simp
      details := by simp
      cached := by simpa using hs.cached
      newStudents := by simp
      edits := by simp
      edited := by simp }
  | groupLoad => exact { hs with groups := forall_mem_concat hs.groups (by simp) }
  | answer hscreen =>
    have hlist := hs.groups _ (List.mem_of_getElem? hscreen)
    exact hs.set_group _ hlist
  | @complete i account screen snapshot response outcome hscreen hfetch hfound horder
      hcompletion =>
    obtain ⟨-, hsort, hcached, -⟩ := GroupVC.fetchCompletion_eq_some hcompletion
    have horigin := hs.originate account outcome.controller.dataBase
    have howned : ∀ student ∈ outcome.controller.dataBase,
        Owned (s.originate account outcome.controller.dataBase).origins (some account)
          (Parser.record student) := fun student hstudent => owned_originate hstudent
    have hlisted := List.forall_mem_append.mpr
      ⟨howned, fun student hstudent => howned student (GroupVC.mem_of_mem_sort hsort hstudent)⟩
    refine { horigin with groups := forall_mem_set horigin.groups hlisted, cached := ?_ }
    intro value hvalue
    simp only [AccountDevice.originate, hcached, UserDefaults.lookup_store_some] at hvalue
    cases hvalue
    exact ownRoster_unparse howned
  | giveUp hscreen =>
    have hlist := hs.groups _ (List.mem_of_getElem? hscreen)
    exact hs.set_group _ hlist
  | @search i account screen text vc hscreen hsearch =>
    have hlist := (List.forall_mem_append.mp (hs.groups _ (List.mem_of_getElem? hscreen))).1
    refine hs.set_group _ (List.forall_mem_append.mpr ⟨?_, ?_⟩)
    · rw [GroupVC.updateSearchResults_dataBase hsearch]
      exact hlist
    · exact fun student hstudent =>
        hlist student (GroupVC.mem_dataBase_of_updateSearchResults hsearch hstudent)
  | select hscreen hselect =>
    have hlist := (List.forall_mem_append.mp (hs.groups _ (List.mem_of_getElem? hscreen))).2
    exact { hs with
      details := forall_mem_concat hs.details (hlist _ (List.mem_of_getElem? hselect)) }
  | @delete i row account current screen outcome hid hscreen hdelete =>
    obtain ⟨student, displayed, -, -, rfl⟩ := GroupVC.delete_eq_some_iff.mp hdelete
    obtain ⟨hlist, hdisplayed⟩ :=
      List.forall_mem_append.mp (hs.groups _ (List.mem_of_getElem? hscreen))
    have hrest : ∀ student ∈ screen.vc.dataBase.eraseIdx row,
        Owned s.origins (some account) (Parser.record student) :=
      fun student hstudent => hlist student (List.mem_of_mem_eraseIdx hstudent)
    have hshown : ∀ student ∈ screen.vc.filteredResults.eraseIdx row,
        Owned s.origins (some account) (Parser.record student) :=
      fun student hstudent => hdisplayed student (List.mem_of_mem_eraseIdx hstudent)
    exact (hs.set_group i (List.forall_mem_append.mpr ⟨hrest, hshown⟩)).issue
      (ownRoster_unparse hrest) rfl (by simp)
  | openNew hreading hload =>
    obtain ⟨order, rfl, hparse⟩ := NewStudentTVC.viewDidLoad_eq_some hload
    exact { hs with
      newStudents := forall_mem_concat hs.newStudents (hs.read_cached hreading hparse) }
  | @addStudent i current source vc form outcome hid hvc hsave =>
    obtain ⟨-, -, rfl⟩ := NewStudentTVC.saveBtnPressed_eq_some_iff.mp hsave
    have hsource : some current = source := hid.symm.trans (hhome source vc hvc)
    subst hsource
    have horigin := hs.originate current [form.student]
    have hlist := forall_mem_concat (horigin.newStudents _ (List.mem_of_getElem? hvc))
      (owned_originate (List.mem_singleton_self form.student))
    exact (horigin.set_newStudent i hlist).issue (ownRoster_unparse hlist) rfl
      (by simp [NewStudentTVC.save])
  | openEdit hdetail hreading hload =>
    obtain ⟨order, rfl, hparse, rfl⟩ := EditTVC.viewDidLoad_eq_some hload
    exact { hs with
      edits := forall_mem_concat hs.edits (hs.read_cached hreading hparse)
      edited := forall_mem_concat hs.edited (hs.details _ hdetail) }
  | @edit i account current source vc form outcome hid hvc hsave =>
    obtain ⟨-, -, houtcome⟩ := EditTVC.saveBtnPressed_eq_some_iff.mp hsave
    rw [EditTVC.save_eq, Option.some.injEq] at houtcome
    subst houtcome
    obtain ⟨hsource, haccount⟩ := hhome source account vc hvc
    obtain rfl : some current = source := hid.symm.trans hsource
    obtain rfl : current = account := Option.some.inj (hid.symm.trans haccount)
    have horigin := hs.originate current [form.student]
    have hmem := List.mem_of_getElem? hvc
    have hlist := horigin.edits _ hmem
    have hrecord : Owned (s.originate current [form.student]).origins (some current)
        (Parser.record form.student) := owned_originate List.mem_cons_self
    have hdict : OwnRoster (s.originate current [form.student]).origins (some current)
        ((Parser.unparse vc.dataBase).insert (Parser.key form.student)
          (Parser.record form.student)) :=
      Entries.insert (ownRoster_unparse hlist) ⟨Parser.keys_record form.student, hrecord⟩
    exact (horigin.set_edit i hlist (horigin.edited _ hmem)).issue hdict rfl (by simp)

/-- A run that saves every form under the account of its roster mixes no rosters. -/
theorem isolated_of_atHome [Unicode] (lower : Char → List Char) {s₀ s : AccountDevice}
    {path : List (Taken AccountDevice AccountAction)} (hfresh : s₀.Fresh)
    (hpath : Path (Step lower) s₀ path s) (hhome : ∀ k ∈ path, AtHome k.pre k.act) :
    s.Isolated :=
  (hpath.invariant_of_guard sourced_step hhome hfresh.sourced).isolated

section Overlap
variable (lower : Char → List Char)

def stepan : Student := sampleStudent "Stepan" 1

def stepanNode : Node := Parser.unparse [stepan]

theorem decodes_stepan : Parser.Decodes [stepan] := ⟨by decide, by decide, by decide⟩

def ivanFranko : Student := sampleStudent "Ivan Franko" 1

def loggedOut : AccountDevice where
  remote := fun account => if account = "first" then ivanNode else stepanNode
  id := none
  logins := []
  defaults := ∅
  source := none
  groups := []
  details := []
  newStudents := []
  edits := []
  origins := []
  written := []

theorem fresh_loggedOut : loggedOut.Fresh := ⟨rfl, rfl, rfl, rfl, rfl, rfl⟩

/-- The device after a screen has fetched the roster of these students, in their order. -/
def listed (account : Account) (data : List Student) (s : AccountDevice) : AccountDevice :=
  { s with
    groups := s.groups ++ [(account, ⟨⟨data, data⟩, .done⟩)]
    defaults := s.defaults.store "dataBase" (some (Parser.unparse data))
    source := some account
    origins := s.origins ++ data.map fun student => (account, Parser.record student) }

theorem exists_path_listed [Unicode] {account : Account} {data : List Student}
    (hid : s.id = some account) (hremote : s.remote account = Parser.unparse data)
    (hdata : Parser.Decodes data) (hsort : GroupVC.sort data = some data)
    (hfound : Parser.unparse data ≠ ∅) :
    ∃ path, Path (Step lower) s path (s.listed account data) ∧
      ∀ k ∈ path, AtHome k.pre k.act := by
  have hshown : ∀ screen, (s.groups ++ [(account, screen)])[s.groups.length]? =
      some (account, screen) := by simp
  have hset : ∀ screen screen', (s.groups ++ [(account, screen)]).set s.groups.length
      (account, screen') = s.groups ++ [(account, screen')] := by simp
  have hload : Step lower s .groupLoad _ := .groupLoad hid
  have hanswer : Step lower { s with groups := s.groups ++ [(account, ⟨⟨[], []⟩, .started⟩)] }
      (.answer s.groups.length) _ := .answer (hshown _) rfl
  simp only [hset, hremote] at hanswer
  have hcomplete : Step lower
      { s with groups := s.groups ++ [(account, ⟨⟨[], []⟩, .answered (Parser.unparse data)⟩)] }
      (.complete s.groups.length) _ :=
    .complete (hshown _) rfl hfound hdata.iterates
      (GroupVC.fetchCompletion_of_parse hdata.parse hsort)
  simp only [hset] at hcomplete
  refine ⟨_, .snoc (.snoc (.single hload) hanswer) hcomplete, ?_⟩
  simp [AtHome]

def loggedIn : AccountDevice := { loggedOut with id := some "first", logins := ["second"] }

def fetchedIvan : AccountDevice := loggedIn.listed "first" [ivan]

/-- Two attempts to log in; the first succeeds and its roster is fetched. -/
theorem exists_path_fetchedIvan [Unicode] :
    ∃ path, Path (Step lower) loggedOut path fetchedIvan ∧ ∀ k ∈ path, AtHome k.pre k.act := by
  have hfirst : Step lower loggedOut (.attempt "first") { loggedOut with logins := ["first"] } :=
    .attempt
  have hsecond : Step lower { loggedOut with logins := ["first"] } (.attempt "second")
      { loggedOut with logins := ["first", "second"] } := .attempt
  have hlogin : Step lower { loggedOut with logins := ["first", "second"] } (.login 0) loggedIn :=
    .login rfl
  have hlogins : ∃ path, Path (Step lower) loggedOut path loggedIn ∧
      ∀ k ∈ path, AtHome k.pre k.act :=
    ⟨_, ((Path.single hfirst).snoc hsecond).snoc hlogin, by simp [AtHome]⟩
  have hremote : loggedIn.remote "first" = Parser.unparse [ivan] := by
    simp [loggedIn, loggedOut, ivanNode]
  exact Path.exists_guarded_trans hlogins
    (exists_path_listed lower rfl hremote decodes_ivan (by decide) (by decide))

/-- Ivan is opened in an edit form and renamed. -/
theorem exists_path_renamed [Unicode] : ∃ s path, Path (Step lower) loggedOut path s ∧
    (∀ k ∈ path, AtHome k.pre k.act) ∧ s.logins = ["second"] ∧ s.remote "second" = stepanNode ∧
    s.written = [("first", Parser.unparse [ivanFranko])] := by
  have hselect : Step lower fetchedIvan (.select 0 0)
      { fetchedIvan with details := [("first", ivan)] } := .select rfl rfl
  have hcached : fetchedIvan.defaults.lookup "dataBase" = some (Parser.unparse [ivan]) :=
    UserDefaults.lookup_store_some _ _ _
  have hopen : Step lower { fetchedIvan with details := [("first", ivan)] } .openEdit
      { fetchedIvan with
        details := [("first", ivan)]
        edits := [(some "first", "first", ⟨[ivan], ivan⟩)] } :=
    .openEdit List.mem_cons_self (decodes_ivan.reading hcached)
      (EditTVC.viewDidLoad_of_parse ivan decodes_ivan.parse)
  have hpressed : EditTVC.saveBtnPressed ⟨[ivan], ivan⟩ (sampleForm "Ivan Franko" 0) = some _ :=
    EditTVC.saveBtnPressed_eq_some_iff.mpr ⟨by decide, by decide, EditTVC.save_eq _ _⟩
  have hedit : Step lower { fetchedIvan with
      details := [("first", ivan)]
      edits := [(some "first", "first", ⟨[ivan], ivan⟩)] }
      (.edit 0 (sampleForm "Ivan Franko" 0)) _ := .edit rfl rfl hpressed
  have hopened := Path.exists_guarded_snoc
    (Path.exists_guarded_snoc (exists_path_fetchedIvan lower) hselect trivial) hopen trivial
  obtain ⟨path, hpath, hhome⟩ := Path.exists_guarded_snoc hopened hedit (by
    rintro source account vc ⟨⟩
    exact ⟨rfl, rfl⟩)
  exact ⟨_, path, hpath, hhome, rfl, rfl, by decide⟩

/-- A form for a new student is opened on the cached roster, and Olena is saved. -/
theorem exists_path_added [Unicode] {current : Account} {data : List Student}
    (hid : s.id = some current) (hdata : Parser.Decodes data)
    (hcached : s.defaults.lookup "dataBase" = some (Parser.unparse data))
    (hfree : ∀ student ∈ data, student.number ≠ (sampleForm "Olena" 1).number) :
    ∃ t path, Path (Step lower) s path t ∧
      (s.source = some current → ∀ k ∈ path, AtHome k.pre k.act) ∧
      t.written = s.written ++ [(current, Parser.unparse (data ++ [olena]))] ∧
      t.origins = s.origins ++ [(current, Parser.record olena)] := by
  have hopen : Step lower s .openNew
      { s with newStudents := s.newStudents ++ [(s.source, ⟨data⟩)] } :=
    .openNew (hdata.reading hcached) (NewStudentTVC.viewDidLoad_of_parse hdata.parse)
  have hopened : (s.newStudents ++ [(s.source, (⟨data⟩ : NewStudentTVC))])[s.newStudents.length]? =
      some (s.source, ⟨data⟩) := by simp
  have hpressed : NewStudentTVC.saveBtnPressed ⟨data⟩ (sampleForm "Olena" 1) = some _ :=
    NewStudentTVC.saveBtnPressed_eq_some_iff.mpr ⟨by decide, hfree, rfl⟩
  have hsave : Step lower { s with newStudents := s.newStudents ++ [(s.source, ⟨data⟩)] }
      (.addStudent s.newStudents.length (sampleForm "Olena" 1)) _ :=
    .addStudent hid hopened hpressed
  refine ⟨_, _, (Path.single hopen).snoc hsave, fun hsource => ?_, rfl, rfl⟩
  simp only [List.forall_mem_append, List.forall_mem_singleton]
  refine ⟨trivial, ?_⟩
  intro source vc hvc
  obtain ⟨rfl, -⟩ := Prod.mk.inj (Option.some.inj (hopened.symm.trans hvc))
  exact hid.trans hsource.symm

/-- Ivan is renamed in the roster of the first account, then the second login succeeds and
Olena is added to the roster of the second. -/
theorem isolated_of_atHome_two_accounts : ∃ s path,
    Path (Step latinLower) loggedOut path s ∧
    s.written = [("first", Parser.unparse [ivanFranko]),
      ("second", Parser.unparse [stepan, olena])] ∧ s.Isolated := by
  obtain ⟨s, path, hpath, hhome, hlogins, hremote, hwritten⟩ :=
    exists_path_renamed latinLower
  have hlogin : Step latinLower s (.login 0)
      { s with logins := s.logins.eraseIdx 0, id := some "second" } := .login (by rw [hlogins]; rfl)
  obtain ⟨path', hpath', hhome'⟩ := Path.exists_guarded_trans
    (Path.exists_guarded_snoc ⟨path, hpath, hhome⟩ hlogin trivial)
    (exists_path_listed latinLower rfl hremote decodes_stepan (by decide) (by decide))
  obtain ⟨t, added, hadded, hhomeAdded, hwritten', -⟩ :=
    exists_path_added latinLower (s := AccountDevice.listed "second" [stepan] { s with
      logins := s.logins.eraseIdx 0
      id := some "second" }) rfl decodes_stepan (UserDefaults.lookup_store_some _ _ _) (by decide)
  have hpath := hpath'.trans hadded
  refine ⟨t, _, hpath, ?_, isolated_of_atHome latinLower fresh_loggedOut hpath
    (List.forall_mem_append.mpr ⟨hhome', hhomeAdded rfl⟩)⟩
  rw [hwritten']
  exact congrArg (· ++ _) hwritten

/-- Ivan, fetched from the first account, is stored under the second. -/
theorem not_isolated : ¬ ∀ (lower : Char → List Char) (s₀ s : AccountDevice)
    (path : List (Taken AccountDevice AccountAction)), s₀.Fresh →
    Path (Step lower) s₀ path s → s.Isolated := by
  intro h
  obtain ⟨path, hpath, -⟩ := exists_path_fetchedIvan latinLower
  have hlogin : Step latinLower fetchedIvan (.login 0)
      { fetchedIvan with logins := [], id := some "second" } := .login rfl
  obtain ⟨s, added, hadded, -, hwritten, horigins⟩ :=
    exists_path_added latinLower (s := { fetchedIvan with logins := [], id := some "second" }) rfl
      decodes_ivan (UserDefaults.lookup_store_some _ _ _) (by decide)
  have hisolated := h _ _ _ _ fresh_loggedOut ((hpath.snoc hlogin).trans hadded)
  have hivan : (Parser.unparse [ivan, olena]).lookup (Parser.key ivan) =
      some (Parser.record ivan) :=
    lookup_encode_of_mem _ _ (by decide) List.mem_cons_self
  have horigin := hisolated "second" _ (by rw [hwritten]; exact List.mem_cons_self) _ _ hivan
  rw [horigins] at horigin
  revert horigin
  decide

end Overlap

end AccountDevice

end Studkurator
