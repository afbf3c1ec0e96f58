import Studkurator.Library.Regex
import Studkurator.Model.Student

/-!
# The forms of a new and of an edited student

Both forms work on the list they decoded from the cache when they were opened,
and both store the whole list again.
-/

namespace Studkurator

set_option autoImplicit false

/-- The zeros of the decimal digits of Unicode, which `\d` matches. -/
def decimalZeros : List ℕ :=
  [0x30, 0x660, 0x6f0, 0x7c0, 0x966, 0x9e6, 0xa66, 0xae6, 0xb66, 0xbe6, 0xc66, 0xce6, 0xd66,
    0xde6, 0xe50, 0xed0, 0xf20, 0x1040, 0x1090, 0x17e0, 0x1810, 0x1946, 0x19d0, 0x1a80,
    0x1a90, 0x1b50, 0x1bb0, 0x1c40, 0x1c50, 0xa620, 0xa8d0, 0xa900, 0xa9d0, 0xa9f0, 0xaa50,
    0xabf0, 0xff10, 0x104a0, 0x10d30, 0x11066, 0x110f0, 0x11136, 0x111d0, 0x112f0, 0x11450,
    0x114d0, 0x11650, 0x116c0, 0x11730, 0x118e0, 0x11950, 0x11c50, 0x11d50, 0x11da0, 0x16a60,
    0x16ac0, 0x16b50, 0x1d7ce, 0x1d7d8, 0x1d7e2, 0x1d7ec, 0x1d7f6, 0x1e140, 0x1e2f0, 0x1e950,
    0x1fbf0]

def isDecimalDigit (c : Char) : Bool :=
  decimalZeros.any fun first => first ≤ c.toNat && c.toNat < first + 10

def phonePattern : Regex :=
  .seq (.lit '+') (.seq (.lit '3') (.seq (.lit '8')
    (.seq (.repeated (.lit '0') 1 none .greedy)
      (.repeated (.char isDecimalDigit) 9 (some 9) .greedy))))

def matchesPhone (text : String) : Bool := phonePattern.hasMatch text.toList

/-- The text fields and the selected row of the number picker, which offers 1 to 50. -/
structure StudentForm where
  text1 : String
  text2 : String
  text3 : String
  text4 : String
  text5 : String
  text6 : String
  text7 : String
  text8 : String
  row : Fin 50
  deriving DecidableEq

namespace StudentForm

def number (form : StudentForm) : ℤ := form.row.val + 1

theorem number_bounds (form : StudentForm) : 1 ≤ form.number ∧ form.number ≤ 50 := by
  have hrow := form.row.isLt
  unfold number
  omega

def textFieldArray (form : StudentForm) : List String :=
  [form.text1, form.text2, form.text3, form.text4, form.text5, form.text6, form.text7,
    form.text8]

/-- `check()`, which both forms have: no field is blank, the phone numbers match. -/
def check (form : StudentForm) : Bool :=
  form.textFieldArray.all (· ≠ "") && [form.text2, form.text6, form.text8].all matchesPhone

def student (form : StudentForm) : Student where
  fullName := form.text1
  number := form.number
  address := form.text3
  mother := ⟨.mother, form.text5, form.text6⟩
  father := ⟨.father, form.text7, form.text8⟩
  homeAddress := form.text4
  phoneNumber := form.text2

end StudentForm

def sampleForm (fullName : String) (row : Fin 50) : StudentForm :=
  ⟨fullName, "+380507778899", "Kyiv", "Lviv", "Olha", "+380501112233", "Petro",
    "+380504445566", row⟩

structure NewStudentTVC where
  dataBase : List Student
  deriving DecidableEq

namespace NewStudentTVC

/-- `viewDidLoad()` on what `UserDefaults` holds under `dataBase`; `none` is a trap. -/
def viewDidLoad [Unicode] (dict : Option (List (String × Record))) : Option NewStudentTVC := do
  let dataBase ← Parser.parse (← dict)
  return ⟨dataBase⟩

def check (form : StudentForm) : Bool := form.check

def save (vc : NewStudentTVC) (student : Student) : Outcome NewStudentTVC :=
  let dataBase := vc.dataBase ++ [student]
  { controller := ⟨dataBase⟩
    cached := some (Parser.unparse dataBase)
    writes := [.setValue (Parser.unparse dataBase)] }

def saveBtnPressed (vc : NewStudentTVC) (form : StudentForm) : Option (Outcome NewStudentTVC) :=
  if check form then
    let saveEnabled := vc.dataBase.all fun student => student.number ≠ form.number
    if saveEnabled then some (vc.save form.student) else none
  else none

end NewStudentTVC

structure EditTVC where
  dataBase : List Student
  student : Student
  deriving DecidableEq

namespace EditTVC

/-- `viewDidLoad()`, for the student that the detail screen hands over. -/
def viewDidLoad [Unicode] (student : Student) (dict : Option (List (String × Record))) :
    Option EditTVC := do
  let dataBase ← Parser.parse (← dict)
  return ⟨dataBase, student⟩

def selectedRow (vc : EditTVC) : ℤ := vc.student.number - 1

/-- The form as it is opened, when the picker has the row that `viewDidLoad` selects. -/
def opened (vc : EditTVC) : Option StudentForm :=
  if h : 0 ≤ vc.selectedRow ∧ vc.selectedRow < 50 then
    some {
      text1 := vc.student.fullName
      text2 := vc.student.phoneNumber
      text3 := vc.student.address
      text4 := vc.student.homeAddress
      text5 := vc.student.mother.fullName
      text6 := vc.student.mother.phoneNumber
      text7 := vc.student.father.fullName
      text8 := vc.student.father.phoneNumber
      row := ⟨vc.selectedRow.toNat, by omega⟩ }
  else none

def check (form : StudentForm) : Bool := form.check

/-- The edited record is laid over the encoded list; the second write follows the first. -/
def save (vc : EditTVC) (currentStudent : Student) : Option (Outcome EditTVC) := do
  let key := Parser.key currentStudent
  let record ← (Parser.unparse [currentStudent]).lookup key
  let unparsedDataBase := (Parser.unparse vc.dataBase).insert key record
  return {
    controller := vc
    cached := some unparsedDataBase
    writes := [.removeValue key, .setValue unparsedDataBase] }

def saveBtnPressed (vc : EditTVC) (form : StudentForm) : Option (Outcome EditTVC) :=
  if check form then
    let saveEnabled := vc.dataBase.all fun student =>
      !(student.number = form.number && student.number ≠ vc.student.number)
    if saveEnabled then vc.save form.student else none
  else none

theorem save_eq (vc : EditTVC) (student : Student) :
    vc.save student = some {
      controller := vc
      cached := some ((Parser.unparse vc.dataBase).insert (Parser.key student)
        (Parser.record student))
      writes := [.removeValue (Parser.key student),
        .setValue ((Parser.unparse vc.dataBase).insert (Parser.key student)
          (Parser.record student))] } := by
  have hlookup : (Parser.unparse [student]).lookup (Parser.key student) =
      some (Parser.record student) :=
    Dictionary.lookup_encode_of_mem _ _ (by simp) List.mem_cons_self
  simp only [save, hlookup, Option.bind_eq_bind, Option.bind_some, Option.pure_def]

end EditTVC

theorem NewStudentTVC.viewDidLoad_eq_some [Unicode] {dict : Option (List (String × Record))}
    {vc : NewStudentTVC} (h : NewStudentTVC.viewDidLoad dict = some vc) :
    ∃ order, dict = some order ∧ Parser.parse order = some vc.dataBase := by
  simp only [viewDidLoad, Option.bind_eq_bind, Option.bind_eq_some_iff, Option.pure_def,
    Option.some.injEq] at h
  obtain ⟨order, horder, dataBase, hparse, rfl⟩ := h
  exact ⟨order, horder, hparse⟩

theorem EditTVC.viewDidLoad_eq_some [Unicode] {student : Student}
    {dict : Option (List (String × Record))}
    {vc : EditTVC} (h : EditTVC.viewDidLoad student dict = some vc) :
    ∃ order, dict = some order ∧ Parser.parse order = some vc.dataBase ∧
      vc.student = student := by
  simp only [viewDidLoad, Option.bind_eq_bind, Option.bind_eq_some_iff, Option.pure_def,
    Option.some.injEq] at h
  obtain ⟨order, horder, dataBase, hparse, rfl⟩ := h
  exact ⟨order, horder, hparse, rfl⟩

section Load
variable {order : List (String × Record)} {data : List Student}

theorem NewStudentTVC.viewDidLoad_of_parse [Unicode] (h : Parser.parse order = some data) :
    NewStudentTVC.viewDidLoad (some order) = some ⟨data⟩ := by
  simp only [viewDidLoad, h, Option.bind_eq_bind, Option.bind_some, Option.pure_def]

theorem EditTVC.viewDidLoad_of_parse [Unicode] (student : Student)
    (h : Parser.parse order = some data) :
    EditTVC.viewDidLoad student (some order) = some ⟨data, student⟩ := by
  simp only [viewDidLoad, h, Option.bind_eq_bind, Option.bind_some, Option.pure_def]

end Load

theorem NewStudentTVC.saveBtnPressed_eq_some_iff {vc : NewStudentTVC} {form : StudentForm}
    {outcome : Outcome NewStudentTVC} :
    vc.saveBtnPressed form = some outcome ↔
      form.check = true ∧ (∀ s ∈ vc.dataBase, s.number ≠ form.number) ∧
        outcome = vc.save form.student := by
  simp only [saveBtnPressed, check, Option.ite_none_right_eq_some, Option.some.injEq,
    List.all_eq_true, decide_eq_true_eq]
  rw [eq_comm (a := outcome)]

theorem EditTVC.saveBtnPressed_eq_some_iff {vc : EditTVC} {form : StudentForm}
    {outcome : Outcome EditTVC} :
    vc.saveBtnPressed form = some outcome ↔
      form.check = true ∧
        (∀ s ∈ vc.dataBase, s.number = form.number → s.number = vc.student.number) ∧
        vc.save form.student = some outcome := by
  simp only [saveBtnPressed, check, Option.ite_none_right_eq_some, List.all_eq_true,
    Bool.not_eq_true', Bool.and_eq_false_imp, decide_eq_true_eq, decide_eq_false_iff_not,
    Decidable.not_not]

end Studkurator
