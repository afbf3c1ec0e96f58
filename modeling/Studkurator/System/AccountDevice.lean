import Studkurator.System.GroupDevice

/-!
# One device and many accounts

`id` is set whenever an attempt to log in succeeds, and every write goes to the account
that it names then. The roster of a form comes from the cache, which some fetch has filled
for the account that was named when that fetch began, and the student of an edit form from a
list that was fetched so.
-/

namespace Studkurator

open Dictionary Transition

set_option autoImplicit false

/-- `user.uid`. -/
abbrev Account := String

/-- `source` is the account whose roster the cache holds; a form keeps the source it was
opened with, and a student on a detail screen the account of the list it was selected in.
`origins` and `written` are the history: under which account a record was fetched or typed,
and which dictionaries were stored as rosters. -/
structure AccountDevice where
  remote : Account → Node
  id : Option Account
  logins : List Account
  defaults : UserDefaults
  source : Option Account
  groups : List (Account × Screen GroupVC)
  details : List (Account × Student)
  newStudents : List (Option Account × NewStudentTVC)
  edits : List (Option Account × Account × EditTVC)
  origins : List (Account × Record)
  written : List (Account × Node)

inductive AccountAction where
  | attempt (account : Account)
  | login (attempt : ℕ)
  | refuse (attempt : ℕ)
  | loginLoad
  | launch
  | groupLoad
  | answer (screen : ℕ)
  | complete (screen : ℕ)
  | giveUp (screen : ℕ)
  | search (screen : ℕ) (text : String)
  | select (screen row : ℕ)
  | delete (screen row : ℕ)
  | openNew
  | addStudent (controller : ℕ) (form : StudentForm)
  | openEdit
  | edit (controller : ℕ) (form : StudentForm)

def RemoteWrite.dictionary : RemoteWrite → Option Node
  | setValue value => some value
  | _ => none

namespace AccountDevice

/-- The writes of a handler reach the account that `id` names, its dictionary the cache. -/
def issue {σ : Type} (s : AccountDevice) (account : Account) (source : Option Account)
    (outcome : Outcome σ) : AccountDevice :=
  { s with
    remote := Function.update s.remote account
      (outcome.writes.foldl RemoteWrite.apply (s.remote account))
    defaults := s.defaults.store "dataBase" outcome.cached
    source := source
    written := s.written ++
      (outcome.writes.filterMap RemoteWrite.dictionary).map fun dict => (account, dict) }

/-- `account` is from now on an origin of the records of `students`. -/
def originate (s : AccountDevice) (account : Account) (students : List Student) :
    AccountDevice :=
  { s with origins := s.origins ++ students.map fun student => (account, Parser.record student) }

inductive Step [Unicode] (lower : Char → List Char) :
    AccountDevice → AccountAction → AccountDevice → Prop where
  | attempt {s : AccountDevice} {account : Account} :
      Step lower s (.attempt account) { s with logins := s.logins ++ [account] }
  | login {s : AccountDevice} {i : ℕ} {account : Account} :
      s.logins[i]? = some account →
      Step lower s (.login i) { s with logins := s.logins.eraseIdx i, id := some account }
  | refuse {s : AccountDevice} {i : ℕ} {account : Account} :
      s.logins[i]? = some account →
      Step lower s (.refuse i) { s with logins := s.logins.eraseIdx i }
  | loginLoad {s : AccountDevice} :
      Step lower s .loginLoad { s with defaults := LoginVC.viewDidLoad s.defaults }
  | launch {s : AccountDevice} :
      Step lower s .launch { s with
        logins := []
        defaults := LoginVC.viewDidLoad s.defaults
        groups := []
        details := []
        newStudents := []
        edits := [] }
  | groupLoad {s : AccountDevice} {account : Account} :
      s.id = some account →
      Step lower s .groupLoad { s with
        groups := s.groups ++ [(account, ⟨⟨[], []⟩, .started⟩)] }
  | answer {s : AccountDevice} {i : ℕ} {account : Account} {screen : Screen GroupVC} :
      s.groups[i]? = some (account, screen) → screen.fetch = .started →
      Step lower s (.answer i) { s with
        groups := s.groups.set i
          (account, { screen with fetch := .answered (s.remote account) }) }
  | complete {s : AccountDevice} {i : ℕ} {account : Account} {screen : Screen GroupVC}
      {snapshot : Node} {response : List (String × Record)} {outcome : Outcome GroupVC} :
      s.groups[i]? = some (account, screen) → screen.fetch = .answered snapshot →
      snapshot ≠ ∅ → Iterates response snapshot →
      GroupVC.fetchCompletion response = some outcome →
      Step lower s (.complete i) ({ s with
        groups := s.groups.set i (account, ⟨outcome.controller, .done⟩)
        defaults := s.defaults.store "dataBase" outcome.cached
        source := some account }.originate account outcome.controller.dataBase)
  | giveUp {s : AccountDevice} {i : ℕ} {account : Account} {screen : Screen GroupVC} :
      s.groups[i]? = some (account, screen) → screen.fetch = .answered ∅ →
      Step lower s (.giveUp i) { s with
        groups := s.groups.set i (account, { screen with fetch := .done }) }
  | search {s : AccountDevice} {i : ℕ} {account : Account} {screen : Screen GroupVC}
      {text : String} {vc : GroupVC} :
      s.groups[i]? = some (account, screen) →
      GroupVC.updateSearchResults lower screen.vc text = some vc →
      Step lower s (.search i text) { s with
        groups := s.groups.set i (account, { screen with vc := vc }) }
  | select {s : AccountDevice} {i row : ℕ} {account : Account} {screen : Screen GroupVC}
      {student : Student} :
      s.groups[i]? = some (account, screen) → screen.vc.didSelectRow row = some student →
      Step lower s (.select i row) { s with details := s.details ++ [(account, student)] }
  | delete {s : AccountDevice} {i row : ℕ} {account current : Account} {screen : Screen GroupVC}
      {outcome : Outcome GroupVC} :
      s.id = some current → s.groups[i]? = some (account, screen) →
      screen.vc.delete row = some outcome →
      Step lower s (.delete i row) ({ s with
        groups := s.groups.set i (account, { screen with vc := outcome.controller }) }.issue
          current (some account) outcome)
  | openNew {s : AccountDevice} {dict : Option (List (String × Record))} {vc : NewStudentTVC} :
      Reading (s.defaults.lookup "dataBase") dict → NewStudentTVC.viewDidLoad dict = some vc →
      Step lower s .openNew { s with newStudents := s.newStudents ++ [(s.source, vc)] }
  | addStudent {s : AccountDevice} {i : ℕ} {current : Account} {source : Option Account}
      {vc : NewStudentTVC} {form : StudentForm} {outcome : Outcome NewStudentTVC} :
      s.id = some current → s.newStudents[i]? = some (source, vc) →
      vc.saveBtnPressed form = some outcome →
      Step lower s (.addStudent i form) (({ s with
        newStudents := s.newStudents.set i (source, outcome.controller) }.originate current
          [form.student]).issue current source outcome)
  | openEdit {s : AccountDevice} {account : Account} {student : Student}
      {dict : Option (List (String × Record))} {vc : EditTVC} :
      (account, student) ∈ s.details → Reading (s.defaults.lookup "dataBase") dict →
      EditTVC.viewDidLoad student dict = some vc →
      Step lower s .openEdit { s with edits := s.edits ++ [(s.source, account, vc)] }
  -- However many fields were retyped, the record stays one of the account it was fetched from.
  | edit {s : AccountDevice} {i : ℕ} {account current : Account} {source : Option Account}
      {vc : EditTVC} {form : StudentForm} {outcome : Outcome EditTVC} :
      s.id = some current → s.edits[i]? = some (source, account, vc) →
      vc.saveBtnPressed form = some outcome →
      Step lower s (.edit i form) (({ s with
        edits := s.edits.set i (source, account, outcome.controller) }.originate account
          [form.student]).issue current source outcome)

/-- A device without a cached roster, on which nothing has been opened yet. -/
structure Fresh (s : AccountDevice) : Prop where
  cached : s.defaults.lookup "dataBase" = none
  groups : s.groups = []
  details : s.details = []
  newStudents : s.newStudents = []
  edits : s.edits = []
  written : s.written = []

/-- Every record of a stored roster was fetched or typed under the account of the roster. -/
def Isolated (s : AccountDevice) : Prop :=
  ∀ account dict, (account, dict) ∈ s.written → Entries (fun _ r => (account, r) ∈ s.origins) dict

end AccountDevice

end Studkurator
