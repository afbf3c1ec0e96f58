import Studkurator.Controller.GroupRows
import Studkurator.Controller.LoginVC
import Studkurator.Controller.StudentForms

/-!
# The roster on a device

A device holds the controllers that are alive, its `UserDefaults`, and the writes it
has sent that have not reached the server yet. `GroupDevice.Step` is one step of one
device on the shared `groupDataBase`; several devices take turns by `Interleave`.
-/

namespace Studkurator

open Dictionary Transition

set_option autoImplicit false

structure GroupDevice where
  defaults : UserDefaults
  groups : List (Screen GroupVC)
  details : List Student
  newStudents : List NewStudentTVC
  edits : List EditTVC
  queue : List RemoteWrite

inductive GroupAction where
  | loginLoad
  | launch
  | groupLoad
  | answer (screen : ℕ)
  | complete (screen : ℕ)
  | giveUp (screen : ℕ)
  | search (screen : ℕ) (text : String)
  | select (screen row : ℕ)
  | delete (screen : ℕ) (student : Student)
  | openNew
  | addStudent (controller : ℕ) (student : Student)
  | openEdit
  | edit (controller : ℕ) (student : Student)
  | write

namespace GroupDevice

/-- The first write of a handler reaches the server at once, the rest has to wait. -/
def issue {σ : Type} (remote : Node) (device : GroupDevice) (outcome : Outcome σ) :
    Node × GroupDevice :=
  ((outcome.writes.take 1).foldl RemoteWrite.apply remote,
    { device with
      defaults := device.defaults.store "dataBase" outcome.cached
      queue := device.queue ++ outcome.writes.drop 1 })

inductive Step [Unicode] (lower : Char → List Char) :
    Node × GroupDevice → GroupAction → Node × GroupDevice → Prop where
  | loginLoad {remote : Node} {device : GroupDevice} :
      Step lower (remote, device) .loginLoad
        (remote, { device with defaults := LoginVC.viewDidLoad device.defaults })
  | launch {remote : Node} {device : GroupDevice} :
      Step lower (remote, device) .launch
        (remote, ⟨LoginVC.viewDidLoad device.defaults, [], [], [], [], []⟩)
  | groupLoad {remote : Node} {device : GroupDevice} :
      Step lower (remote, device) .groupLoad
        (remote, { device with groups := device.groups ++ [⟨⟨[], []⟩, .started⟩] })
  | answer {remote : Node} {device : GroupDevice} {i : ℕ} {screen : Screen GroupVC} :
      device.groups[i]? = some screen → screen.fetch = .started →
      Step lower (remote, device) (.answer i)
        (remote, { device with
          groups := device.groups.set i { screen with fetch := .answered remote } })
  | complete {remote : Node} {device : GroupDevice} {i : ℕ} {screen : Screen GroupVC}
      {snapshot : Node} {response : List (String × Record)} {outcome : Outcome GroupVC} :
      device.groups[i]? = some screen → screen.fetch = .answered snapshot → snapshot ≠ ∅ →
      Iterates response snapshot → GroupVC.fetchCompletion response = some outcome →
      Step lower (remote, device) (.complete i)
        (issue remote
          { device with groups := device.groups.set i ⟨outcome.controller, .done⟩ } outcome)
  | giveUp {remote : Node} {device : GroupDevice} {i : ℕ} {screen : Screen GroupVC} :
      device.groups[i]? = some screen → screen.fetch = .answered ∅ →
      Step lower (remote, device) (.giveUp i)
        (remote, { device with groups := device.groups.set i { screen with fetch := .done } })
  | search {remote : Node} {device : GroupDevice} {i : ℕ} {screen : Screen GroupVC}
      {text : String} {vc : GroupVC} :
      device.groups[i]? = some screen →
      GroupVC.updateSearchResults lower screen.vc text = some vc →
      Step lower (remote, device) (.search i text)
        (remote, { device with groups := device.groups.set i { screen with vc := vc } })
  | select {remote : Node} {device : GroupDevice} {i row : ℕ} {screen : Screen GroupVC}
      {student : Student} :
      device.groups[i]? = some screen → screen.vc.didSelectRow row = some student →
      Step lower (remote, device) (.select i row)
        (remote, { device with details := device.details ++ [student] })
  | delete {remote : Node} {device : GroupDevice} {i row : ℕ} {screen : Screen GroupVC}
      {student : Student} {outcome : Outcome GroupVC} :
      device.groups[i]? = some screen → screen.vc.dataBase[row]? = some student →
      screen.vc.delete row = some outcome →
      Step lower (remote, device) (.delete i student)
        (issue remote
          { device with groups := device.groups.set i { screen with vc := outcome.controller } }
          outcome)
  | openNew {remote : Node} {device : GroupDevice} {dict : Option (List (String × Record))}
      {vc : NewStudentTVC} :
      Reading (device.defaults.lookup "dataBase") dict →
      NewStudentTVC.viewDidLoad dict = some vc →
      Step lower (remote, device) .openNew
        (remote, { device with newStudents := device.newStudents ++ [vc] })
  | addStudent {remote : Node} {device : GroupDevice} {i : ℕ} {vc : NewStudentTVC}
      {form : StudentForm} {outcome : Outcome NewStudentTVC} :
      device.newStudents[i]? = some vc → vc.saveBtnPressed form = some outcome →
      Step lower (remote, device) (.addStudent i form.student)
        (issue remote
          { device with newStudents := device.newStudents.set i outcome.controller } outcome)
  | openEdit {remote : Node} {device : GroupDevice} {student : Student}
      {dict : Option (List (String × Record))} {vc : EditTVC} :
      student ∈ device.details → Reading (device.defaults.lookup "dataBase") dict →
      EditTVC.viewDidLoad student dict = some vc →
      Step lower (remote, device) .openEdit
        (remote, { device with edits := device.edits ++ [vc] })
  | edit {remote : Node} {device : GroupDevice} {i : ℕ} {vc : EditTVC} {form : StudentForm}
      {outcome : Outcome EditTVC} :
      device.edits[i]? = some vc → vc.saveBtnPressed form = some outcome →
      Step lower (remote, device) (.edit i form.student)
        (issue remote { device with edits := device.edits.set i outcome.controller } outcome)
  | write {remote : Node} {device : GroupDevice} {w : RemoteWrite} {rest : List RemoteWrite} :
      device.queue = w :: rest →
      Step lower (remote, device) .write (w.apply remote, { device with queue := rest })

/-- No controller is alive and nothing waits to be sent. -/
def Idle (device : GroupDevice) : Prop :=
  device.groups = [] ∧ device.details = [] ∧ device.newStudents = [] ∧ device.edits = [] ∧
    device.queue = []

section Fetch
variable {remote : Node} {device : GroupDevice} {order : List (String × Record)}
variable {outcome : Outcome GroupVC}

def showing (device : GroupDevice) (screen : Screen GroupVC) : GroupDevice :=
  { device with groups := device.groups ++ [screen] }

theorem getElem?_showing (device : GroupDevice) (screen : Screen GroupVC) :
    (device.showing screen).groups[device.groups.length]? = some screen := by
  simp [showing]

theorem set_showing (device : GroupDevice) (screen screen' : Screen GroupVC) :
    (device.showing screen).groups.set device.groups.length screen' =
      (device.showing screen').groups := by
  simp [showing]

/-- A screen is opened and shows what the server has. -/
def fetchPath (remote : Node) (device : GroupDevice) (outcome : Outcome GroupVC) :
    List (Taken (Node × GroupDevice) GroupAction) :=
  [⟨(remote, device), .groupLoad, (remote, device.showing ⟨⟨[], []⟩, .started⟩)⟩,
    ⟨(remote, device.showing ⟨⟨[], []⟩, .started⟩), .answer device.groups.length,
      (remote, device.showing ⟨⟨[], []⟩, .answered remote⟩)⟩,
    ⟨(remote, device.showing ⟨⟨[], []⟩, .answered remote⟩), .complete device.groups.length,
      (device.showing ⟨outcome.controller, .done⟩).issue remote outcome⟩]

theorem path_fetchPath [Unicode] (lower : Char → List Char) (device : GroupDevice)
    (hfound : remote ≠ ∅)
    (horder : Iterates order remote) (hcompletion : GroupVC.fetchCompletion order = some outcome) :
    Path (Step lower) (remote, device) (fetchPath remote device outcome)
      ((device.showing ⟨outcome.controller, .done⟩).issue remote outcome) := by
  have hload : Step lower (remote, device) .groupLoad
      (remote, device.showing ⟨⟨[], []⟩, .started⟩) := .groupLoad
  have hanswer : Step lower (remote, device.showing ⟨⟨[], []⟩, .started⟩)
      (.answer device.groups.length) _ :=
    .answer (device.getElem?_showing ⟨⟨[], []⟩, .started⟩) rfl
  have hcomplete : Step lower (remote, device.showing ⟨⟨[], []⟩, .answered remote⟩)
      (.complete device.groups.length) _ :=
    .complete (device.getElem?_showing ⟨⟨[], []⟩, .answered remote⟩) rfl hfound horder hcompletion
  rw [device.set_showing] at hanswer hcomplete
  exact .snoc (.snoc (.single hload) hanswer) hcomplete

end Fetch

section Forms
variable {lower : Char → List Char} {remote : Node} {device : GroupDevice} {data : List Student}

theorem step_openNew [Unicode] (remote : Node) (hdata : Parser.Decodes data)
    (hcached : device.defaults.lookup "dataBase" = some (Parser.unparse data)) :
    Step lower (remote, device) .openNew
      (remote, { device with newStudents := device.newStudents ++ [⟨data⟩] }) :=
  .openNew (hdata.reading hcached) (NewStudentTVC.viewDidLoad_of_parse hdata.parse)

theorem step_openEdit [Unicode] (remote : Node) (hdata : Parser.Decodes data)
    (hcached : device.defaults.lookup "dataBase" = some (Parser.unparse data))
    {student : Student} (hstudent : student ∈ device.details) :
    Step lower (remote, device) .openEdit
      (remote, { device with edits := device.edits ++ [⟨data, student⟩] }) :=
  .openEdit hstudent (hdata.reading hcached) (EditTVC.viewDidLoad_of_parse student hdata.parse)

end Forms

end GroupDevice

def launchedDevice : GroupDevice := ⟨∅, [], [], [], [], []⟩

section Sample
variable (lower : Char → List Char)

def ivan : Student := sampleStudent "Ivan" 1

def ivanNode : Node := Parser.unparse [ivan]

def olena : Student := (sampleForm "Olena" 1).student

def pairNode : Node := Parser.unparse [ivan, olena]

theorem decodes_ivan : Parser.Decodes [ivan] := ⟨by decide, by decide, by decide⟩

theorem decodes_pair : Parser.Decodes [ivan, olena] := ⟨by decide, by decide, by decide⟩

/-- The device after it has fetched the roster of these students, in their order. -/
def listed (data : List Student) : GroupDevice :=
  { launchedDevice with
    defaults := UserDefaults.store ∅ "dataBase" (some (Parser.unparse data))
    groups := [⟨⟨data, data⟩, .done⟩] }

def fetched (data : List Student) : Outcome GroupVC :=
  ⟨⟨data, data⟩, some (Parser.unparse data), [], []⟩

theorem path_listed [Unicode] {data : List Student} (hdata : Parser.Decodes data)
    (hsort : GroupVC.sort data = some data) (hfound : Parser.unparse data ≠ ∅) :
    Path (GroupDevice.Step lower) (Parser.unparse data, launchedDevice)
      (GroupDevice.fetchPath (Parser.unparse data) launchedDevice (fetched data))
      (Parser.unparse data, listed data) :=
  GroupDevice.path_fetchPath lower launchedDevice hfound hdata.iterates
    (GroupVC.fetchCompletion_of_parse hdata.parse hsort)

/-- Ivan's list is open in a form for a new student. -/
def ivanOpened : GroupDevice := { listed [ivan] with newStudents := [⟨[ivan]⟩] }

def olenaAdded : GroupDevice :=
  { ivanOpened with
    defaults := UserDefaults.store (listed [ivan]).defaults "dataBase" (some pairNode)
    newStudents := [⟨[ivan, olena]⟩] }

/-- A client fetches the roster with Ivan and opens the form. -/
def openPath : List (Taken (Node × GroupDevice) GroupAction) :=
  GroupDevice.fetchPath ivanNode launchedDevice (fetched [ivan]) ++
    [⟨(ivanNode, listed [ivan]), .openNew, (ivanNode, ivanOpened)⟩]

theorem path_openPath [Unicode] :
    Path (GroupDevice.Step lower) (ivanNode, launchedDevice) openPath (ivanNode, ivanOpened) := by
  have hopen : GroupDevice.Step lower (ivanNode, listed [ivan]) .openNew (ivanNode, ivanOpened) :=
    GroupDevice.step_openNew ivanNode decodes_ivan (UserDefaults.lookup_store_some _ _ _)
  exact (path_listed lower decodes_ivan (by decide) (by decide)).snoc hopen

/-- Then Olena is added. -/
def addPath : List (Taken (Node × GroupDevice) GroupAction) :=
  openPath ++ [⟨(ivanNode, ivanOpened), .addStudent 0 olena, (pairNode, olenaAdded)⟩]

theorem path_addPath [Unicode] :
    Path (GroupDevice.Step lower) (ivanNode, launchedDevice) addPath (pairNode, olenaAdded) := by
  have hsave : NewStudentTVC.saveBtnPressed ⟨[ivan]⟩ (sampleForm "Olena" 1) = some _ :=
    NewStudentTVC.saveBtnPressed_eq_some_iff.mpr ⟨by decide, by decide, rfl⟩
  have hadd : GroupDevice.Step lower (ivanNode, ivanOpened) (.addStudent 0 olena)
      (pairNode, olenaAdded) := .addStudent rfl hsave
  exact (path_openPath lower).snoc hadd

end Sample

end Studkurator
