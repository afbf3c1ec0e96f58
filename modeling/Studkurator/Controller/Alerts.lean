import Studkurator.Controller.ContactTVC
import Studkurator.Controller.NewEventTVC
import Studkurator.Controller.StudentForms

/-!
# What the forms tell the user

A press that saves presents no alert, and one that does not save presents at least one. On
the login screen the return key repeats the checks of the button behind a test that leaves
one of them without work.
-/

namespace Studkurator

set_option autoImplicit false

def oops (message : String) : Alert := .message "Oops.." message

namespace StudentForm

/-- The alerts of `check()`, one for each field that it refuses. -/
def alerts (form : StudentForm) : List Alert :=
  (form.textFieldArray.filter (· = "")).map (fun _ => oops "Some of the fields are blank") ++
    ([form.text2, form.text6, form.text8].filter fun text => !matchesPhone text).map
      fun _ => oops "Invalid phone number"

theorem check_iff_alerts (form : StudentForm) : form.check = true ↔ form.alerts = [] := by
  simp only [check, alerts, Bool.and_eq_true, List.all_eq_true, decide_eq_true_eq,
    List.append_eq_nil_iff, List.map_eq_nil_iff, List.filter_eq_nil_iff, ne_eq,
    Bool.not_eq_true', Bool.not_eq_false]

end StudentForm

/-- One alert for each student whose number is the one of the form. -/
def takenAlerts (taken : List Student) : List Alert :=
  taken.map fun _ => oops "This number is already taken"

def NewStudentTVC.alerts (vc : NewStudentTVC) (form : StudentForm) : List Alert :=
  if check form then takenAlerts (vc.dataBase.filter (·.number = form.number)) else form.alerts

def EditTVC.alerts (vc : EditTVC) (form : StudentForm) : List Alert :=
  if check form then
    takenAlerts (vc.dataBase.filter fun student =>
      student.number = form.number ∧ student.number ≠ vc.student.number)
  else form.alerts

def NewEventTVC.alerts (formatter : DateFormatter) (form : EventForm) : List Alert :=
  if form.name = "" then [oops "Some of the fields are blank"]
  else match formatter.date .HH form.date with
    | none => [oops "Invalid date format. Please, follow the example"]
    | some _ => []

theorem NewStudentTVC.isSome_saveBtnPressed_iff (vc : NewStudentTVC) (form : StudentForm) :
    (vc.saveBtnPressed form).isSome ↔ vc.alerts form = [] := by
  by_cases hcheck : form.check = true
  · simp [saveBtnPressed, alerts, takenAlerts, check, hcheck]
  · have hrefused := mt (StudentForm.check_iff_alerts form).mpr hcheck
    simp [saveBtnPressed, alerts, check, hcheck, hrefused]

theorem EditTVC.isSome_saveBtnPressed_iff (vc : EditTVC) (form : StudentForm) :
    (vc.saveBtnPressed form).isSome ↔ vc.alerts form = [] := by
  by_cases hcheck : form.check = true
  · simp [saveBtnPressed, alerts, takenAlerts, check, hcheck, save_eq, imp_iff_not_or]
  · have hrefused := mt (StudentForm.check_iff_alerts form).mpr hcheck
    simp [saveBtnPressed, alerts, check, hcheck, hrefused]

theorem NewEventTVC.isSome_saveBtnPressed_iff (formatter : DateFormatter)
    (clock : Event → Date) (vc : NewEventTVC) (form : EventForm) :
    (vc.saveBtnPressed formatter clock form).isSome ↔ alerts formatter form = [] := by
  by_cases hname : form.name = ""
  · simp [saveBtnPressed, newEvent, alerts, hname]
  · cases hdate : formatter.date .HH form.date <;>
      simp [saveBtnPressed, newEvent, alerts, hname, hdate]

namespace LoginVC

inductive Response where
  | alert (alert : Alert)
  | login (email password : String)
  deriving DecidableEq

def loginBtnPressed (usernameField passwordField : Option String) : Response :=
  match usernameField, passwordField with
  | some username, some password =>
    if username = "" then .alert (oops "Username is empty")
    else if password = "" then .alert (oops "Password is empty")
    else .login username password
  | _, _ => .alert (oops "Something went wrong. Please check all fields")

/-- `none` where the return key only moves on to the next field. -/
def textFieldShouldReturn (tag : ℤ) (usernameField passwordField : Option String) :
    Option Response :=
  if tag = 2 ∧ usernameField ≠ some "" then
    match usernameField, passwordField with
    | some username, some password =>
      if username = "" then some (.alert (oops "Username is empty"))
      else if password = "" then some (.alert (oops "Password is empty"))
      else some (.login username password)
    | _, _ => some (.alert (oops "Something went wrong. Please check all fields"))
  else none

/-- The return key does what the button does, but says nothing about an empty name. -/
theorem textFieldShouldReturn_eq_some_iff (tag : ℤ) (usernameField passwordField : Option String)
    (response : Response) :
    textFieldShouldReturn tag usernameField passwordField = some response ↔
      tag = 2 ∧ usernameField ≠ some "" ∧
        loginBtnPressed usernameField passwordField = response := by
  by_cases htag : tag = 2
  · cases usernameField with
    | none => simp [textFieldShouldReturn, loginBtnPressed, htag]
    | some username =>
      cases passwordField with
      | none => simp [textFieldShouldReturn, loginBtnPressed, htag]
      | some password =>
        by_cases husername : username = ""
        · simp [textFieldShouldReturn, husername]
        · by_cases hpassword : password = "" <;>
            simp [textFieldShouldReturn, loginBtnPressed, htag, husername, hpassword]
  · simp [textFieldShouldReturn, htag]

end LoginVC

end Studkurator
