import Studkurator.Controller.StudentForms

/-!
# What the save buttons of the student forms do

Both forms refuse a number that another student of their list has, and store the list
with the entered student when they accept. The form of an edited student lays the new
record over the old ones; a record under the former number stays where it was.
-/

namespace Studkurator

open Dictionary

set_option autoImplicit false

theorem Parser.key_eq_of_number {s t : Student} (h : s.number = t.number) :
    Parser.key s = Parser.key t := by
  rw [Parser.key, Parser.key, h]

/-- Under the key of the picked number stands a record of the eight texts of the form. -/
def HoldsForm (node : Node) (form : StudentForm) : Prop :=
  ∃ r, node.lookup (toString form.row.val ++ "k") = some r ∧
    Parser.Holds r form.text1 form.text2 form.text3 form.text4 form.text5 form.text6 form.text7
      form.text8

/-- Under the key of the student stands the record of the student. -/
def HoldsStudent (node : Node) (student : Student) : Prop :=
  ∃ r, node.lookup (toString (student.number - 1) ++ "k") = some r ∧
    Parser.Holds r student.fullName student.phoneNumber student.address student.homeAddress
      student.mother.fullName student.mother.phoneNumber student.father.fullName
      student.father.phoneNumber

theorem holdsStudent_of_lookup {node : Node} {s : Student}
    (h : node.lookup (Parser.key s) = some (Parser.record s)) : HoldsStudent node s :=
  ⟨_, h, Parser.holds_record s⟩

theorem holdsForm_of_lookup {node : Node} {form : StudentForm}
    (h : node.lookup (Parser.key form.student) = some (Parser.record form.student)) :
    HoldsForm node form := by
  have hnumber : form.student.number - 1 = (form.row.val : ℤ) := Int.add_sub_cancel _ _
  refine ⟨_, ?_, Parser.holds_record form.student⟩
  rw [Parser.key, hnumber, Decimal.toString_natCast, ← Nat.toString_eq_repr] at h
  exact h

namespace NewStudentTVC

def Refuses (vc : NewStudentTVC) (form : StudentForm) : Prop :=
  form.check = false ∨ ∃ t ∈ vc.dataBase, t.number = form.number

/-- The dictionary that is written has the list and the entered student. -/
structure Stores (s s' : Session NewStudentTVC) (form : StudentForm) : Prop where
  cached : s'.cached = s'.remote
  added : HoldsForm s'.remote form
  kept : ∀ t ∈ s.controller.dataBase, HoldsStudent s'.remote t
  size : s'.remote.keys.card = s.controller.dataBase.length + 1

theorem saveBtnPressed_eq_none {vc : NewStudentTVC} {form : StudentForm}
    (h : vc.Refuses form) : vc.saveBtnPressed form = none := by
  rw [Option.eq_none_iff_forall_ne_some]
  intro outcome hsave
  obtain ⟨hcheck, hfree, -⟩ := saveBtnPressed_eq_some_iff.mp hsave
  rcases h with hinvalid | ⟨t, ht, hnumber⟩
  · rw [hcheck] at hinvalid
    cases hinvalid
  · exact hfree t ht hnumber

theorem saveBtnPressed_of_not_refuses {vc : NewStudentTVC} {form : StudentForm}
    (h : ¬ vc.Refuses form) :
    vc.saveBtnPressed form = some (vc.save form.student) ∧
      ∀ t ∈ vc.dataBase, t.number ≠ form.number := by
  obtain ⟨hcheck, hfree⟩ := not_or.mp h
  rw [Bool.not_eq_false] at hcheck
  have hnumbers : ∀ t ∈ vc.dataBase, t.number ≠ form.number :=
    fun t ht hnumber => hfree ⟨t, ht, hnumber⟩
  exact ⟨saveBtnPressed_eq_some_iff.mpr ⟨hcheck, hnumbers, rfl⟩, hnumbers⟩

theorem stores_of_save {s : Session NewStudentTVC} {form : StudentForm}
    (hnodup : (s.controller.dataBase.map Student.number).Nodup)
    (hfree : ∀ t ∈ s.controller.dataBase, t.number ≠ form.number) :
    Stores s (s.perform (s.controller.save form.student)) form := by
  have hkeys : ((s.controller.dataBase ++ [form.student]).map Parser.key).Nodup := by
    apply Parser.nodup_keys
    rw [List.map_append, List.nodup_append]
    refine ⟨hnodup, by simp, ?_⟩
    intro n hn m hm
    obtain ⟨t, ht, rfl⟩ := List.mem_map.mp hn
    rw [List.map_singleton, List.mem_singleton] at hm
    rw [hm]
    exact hfree t ht
  have hstored : ∀ t ∈ s.controller.dataBase ++ [form.student],
      (Parser.unparse (s.controller.dataBase ++ [form.student])).lookup (Parser.key t) =
        some (Parser.record t) := fun t ht => lookup_encode_of_mem _ _ hkeys ht
  refine ⟨rfl, holdsForm_of_lookup (hstored _ (by simp)),
    fun t ht => holdsStudent_of_lookup (hstored t (List.mem_append_left _ ht)), ?_⟩
  have hsize := card_keys_encode Parser.key Parser.record hkeys
  rw [List.length_append, List.length_singleton] at hsize
  exact hsize

end NewStudentTVC

/-- Ivan is edited in a list with Olena. -/
def editingIvan : Session EditTVC :=
  ⟨⟨[sampleStudent "Olena" 3, sampleStudent "Ivan" 1], sampleStudent "Ivan" 1⟩,
    Parser.unparse [sampleStudent "Olena" 3, sampleStudent "Ivan" 1],
    Parser.unparse [sampleStudent "Olena" 3, sampleStudent "Ivan" 1]⟩

namespace EditTVC

/-- The edited student is the one of the list that has the number of `student`. -/
def Refuses (vc : EditTVC) (form : StudentForm) : Prop :=
  form.check = false ∨ ∃ t ∈ vc.dataBase, t.number = form.number ∧ t.number ≠ vc.student.number

structure Stores (s s' : Session EditTVC) (form : StudentForm) : Prop where
  cached : s'.cached = s'.remote
  added : HoldsForm s'.remote form
  kept : ∀ t ∈ s.controller.dataBase, t.number ≠ s.controller.student.number →
    HoldsStudent s'.remote t

def overlaid (vc : EditTVC) (edited : Student) : Node :=
  (Parser.unparse vc.dataBase).insert (Parser.key edited) (Parser.record edited)

theorem saveBtnPressed_eq_none {vc : EditTVC} {form : StudentForm}
    (h : vc.Refuses form) : vc.saveBtnPressed form = none := by
  rw [Option.eq_none_iff_forall_ne_some]
  intro outcome hsave
  obtain ⟨hcheck, hown, -⟩ := saveBtnPressed_eq_some_iff.mp hsave
  rcases h with hinvalid | ⟨t, ht, hnumber, hother⟩
  · rw [hcheck] at hinvalid
    cases hinvalid
  · exact hother (hown t ht hnumber)

theorem saveBtnPressed_of_not_refuses {vc : EditTVC} {form : StudentForm}
    (h : ¬ vc.Refuses form) : ∃ outcome, vc.saveBtnPressed form = some outcome ∧
      outcome.writes ≠ [] ∧ ∀ s : Session EditTVC,
        (s.perform outcome).cached = vc.overlaid form.student ∧
        (s.perform outcome).remote = vc.overlaid form.student := by
  obtain ⟨hcheck, hfree⟩ := not_or.mp h
  rw [Bool.not_eq_false] at hcheck
  have hown : ∀ t ∈ vc.dataBase, t.number = form.number → t.number = vc.student.number := by
    intro t ht hnumber
    by_contra hother
    exact hfree ⟨t, ht, hnumber, hother⟩
  exact ⟨_, saveBtnPressed_eq_some_iff.mpr ⟨hcheck, hown, save_eq vc form.student⟩, by simp,
    fun s => ⟨rfl, rfl⟩⟩

theorem lookup_overlaid_of_ne {vc : EditTVC} {edited t : Student}
    (hnodup : (vc.dataBase.map Student.number).Nodup) (ht : t ∈ vc.dataBase)
    (hne : t.number ≠ edited.number) :
    (vc.overlaid edited).lookup (Parser.key t) = some (Parser.record t) := by
  rw [overlaid, Finmap.lookup_insert_of_ne _ fun hkey => hne (Parser.key_injective hkey)]
  exact lookup_encode_of_mem _ _ (Parser.nodup_keys hnodup) ht

theorem stores_of_overlaid {s s' : Session EditTVC} {form : StudentForm}
    (hnodup : (s.controller.dataBase.map Student.number).Nodup)
    (haccepts : ¬ s.controller.Refuses form)
    (hcached : s'.cached = s.controller.overlaid form.student)
    (hremote : s'.remote = s.controller.overlaid form.student) : Stores s s' form := by
  refine ⟨hcached.trans hremote.symm, ?_, ?_⟩
  · apply holdsForm_of_lookup
    rw [hremote]
    exact Finmap.lookup_insert _
  · intro t ht hother
    apply holdsStudent_of_lookup
    rw [hremote]
    apply lookup_overlaid_of_ne hnodup ht
    intro hnumber
    exact haccepts (Or.inr ⟨t, ht, hnumber, hother⟩)

/-- The roster with the edited student in the place of the one that was edited. -/
def replaced (vc : EditTVC) (edited : Student) : List Student :=
  vc.dataBase.map fun t => if t = vc.student then edited else t

/-- What is written is the roster with the edited student in the old one's place. -/
structure Replaces (s s' : Session EditTVC) (edited : Student) : Prop where
  cached : s'.cached = Parser.unparse (s.controller.replaced edited)
  remote : s'.remote = Parser.unparse (s.controller.replaced edited)
  size : s'.remote.keys.card = (Parser.unparse s.controller.dataBase).keys.card
  former : edited.number ≠ s.controller.student.number →
    Parser.key s.controller.student ∉ s'.remote
  others : ∀ t ∈ s.controller.dataBase, t ≠ s.controller.student →
    s'.remote.lookup (Parser.key t) = some (Parser.record t)

theorem overlaid_eq_unparse_replaced {vc : EditTVC} {edited : Student}
    (hnodup : (vc.dataBase.map Student.number).Nodup) (hstudent : vc.student ∈ vc.dataBase)
    (hnumber : edited.number = vc.student.number) :
    vc.overlaid edited = Parser.unparse (vc.replaced edited) := by
  have hkey : Parser.key edited = Parser.key vc.student := Parser.key_eq_of_number hnumber
  have hkeys : ∀ t ∈ vc.dataBase,
      Parser.key (if t = vc.student then edited else t) = Parser.key t := by
    intro t _
    split
    next heq => rw [heq, hkey]
    next => rfl
  have hothers : ∀ t ∈ vc.dataBase, Parser.key t ≠ Parser.key vc.student →
      Parser.record (if t = vc.student then edited else t) = Parser.record t := by
    intro t _ hne
    rw [if_neg fun heq => hne (by rw [heq])]
  have hlaid := insert_encode_eq_encode_map Parser.key Parser.record
    (Parser.nodup_keys hnodup) hkeys hstudent hothers
  rw [if_pos rfl, ← hkey] at hlaid
  exact hlaid

theorem mem_overlaid_of_mem {vc : EditTVC} {t : Student} (edited : Student)
    (ht : t ∈ vc.dataBase) : Parser.key t ∈ vc.overlaid edited :=
  Finmap.mem_insert.mpr (Or.inr ((mem_encode_iff _ _ _ _).mpr (List.mem_map_of_mem ht)))

theorem replaces_of_overlaid_iff {s s' : Session EditTVC} {edited : Student}
    (hnodup : (s.controller.dataBase.map Student.number).Nodup)
    (hstudent : s.controller.student ∈ s.controller.dataBase)
    (hcached : s'.cached = s.controller.overlaid edited)
    (hremote : s'.remote = s.controller.overlaid edited) :
    Replaces s s' edited ↔ edited.number = s.controller.student.number := by
  constructor
  · intro h
    by_contra hnumber
    apply h.former hnumber
    rw [hremote]
    exact mem_overlaid_of_mem edited hstudent
  · intro hnumber
    have hwritten := overlaid_eq_unparse_replaced hnodup hstudent hnumber
    have hnodup' : ((s.controller.replaced edited).map Student.number).Nodup := by
      have hsame : (s.controller.replaced edited).map Student.number =
          s.controller.dataBase.map Student.number := by
        rw [replaced, List.map_map]
        apply List.map_congr_left
        intro t _
        simp only [Function.comp_apply]
        split
        next heq => rw [hnumber, heq]
        next => rfl
      rwa [hsame]
    refine ⟨hcached.trans hwritten, hremote.trans hwritten, ?_, absurd hnumber, ?_⟩
    · rw [hremote, hwritten, Parser.unparse, card_keys_encode _ _ (Parser.nodup_keys hnodup'),
        Parser.unparse, card_keys_encode _ _ (Parser.nodup_keys hnodup), replaced,
        List.length_map]
    · intro t ht hne
      rw [hremote]
      apply lookup_overlaid_of_ne hnodup ht
      rw [hnumber]
      exact fun hsame => hne (List.inj_on_of_nodup_map hnodup ht hstudent hsame)

theorem not_refuses_of_free {vc : EditTVC} {form : StudentForm} (hcheck : form.check = true)
    (hfree : form.number = vc.student.number ∨ ∀ t ∈ vc.dataBase, t.number ≠ form.number) :
    ¬ vc.Refuses form := by
  rintro (hinvalid | ⟨t, ht, hnumber, hother⟩)
  · rw [hcheck] at hinvalid
    cases hinvalid
  · rcases hfree with hown | hfree
    · exact hother (hnumber.trans hown)
    · exact hfree t ht hnumber

/-- An accepted edit replaces the student exactly when the number stays the same. -/
theorem edit_replaces_iff {s : Session EditTVC} {form : StudentForm}
    (hnodup : (s.controller.dataBase.map Student.number).Nodup)
    (hstudent : s.controller.student ∈ s.controller.dataBase) (hcheck : form.check = true)
    (hfree : form.number = s.controller.student.number ∨
      ∀ t ∈ s.controller.dataBase, t.number ≠ form.number) :
    ∃ outcome, s.controller.saveBtnPressed form = some outcome ∧
      (Replaces s (s.perform outcome) form.student ↔
        form.number = s.controller.student.number) := by
  obtain ⟨outcome, hpressed, -, hwritten⟩ :=
    saveBtnPressed_of_not_refuses (not_refuses_of_free hcheck hfree)
  exact ⟨outcome, hpressed,
    replaces_of_overlaid_iff hnodup hstudent (hwritten s).1 (hwritten s).2⟩

theorem edit_replaces_iff_renamed :
    ∃ outcome, editingIvan.controller.saveBtnPressed (sampleForm "Petro" 0) = some outcome ∧
      (Replaces editingIvan (editingIvan.perform outcome) (sampleForm "Petro" 0).student ↔
        (sampleForm "Petro" 0).number = 1) :=
  edit_replaces_iff (by decide) (by decide) (by decide) (by decide)

/-- A student who moves from number 1 to number 2 is left under both. -/
theorem not_edit_replaces : ¬ ∀ (s : Session EditTVC) (form : StudentForm)
    (outcome : Outcome EditTVC), (s.controller.dataBase.map Student.number).Nodup →
    (∀ t ∈ s.controller.dataBase, 1 ≤ t.number ∧ t.number ≤ 50) →
    s.controller.student ∈ s.controller.dataBase → form.check = true →
    (form.number = s.controller.student.number ∨
      ∀ t ∈ s.controller.dataBase, t.number ≠ form.number) →
    s.controller.saveBtnPressed form = some outcome →
    Replaces s (s.perform outcome) form.student := by
  intro h
  have haccepts : ¬ editingIvan.controller.Refuses (sampleForm "Ivan" 1) :=
    not_refuses_of_free (by decide) (by decide)
  obtain ⟨outcome, hpressed, -, hwritten⟩ := saveBtnPressed_of_not_refuses haccepts
  have hreplaces := h editingIvan (sampleForm "Ivan" 1) outcome
    (by decide) (by decide) (by decide) (by decide) (by decide) hpressed
  have hnumber := (replaces_of_overlaid_iff (by decide) (by decide)
    (hwritten _).1 (hwritten _).2).mp hreplaces
  revert hnumber
  decide

end EditTVC

/-- A refused save changes nothing, an accepted one no other student. -/
theorem number_guard_protects :
    (∀ (s : Session NewStudentTVC) (form : StudentForm),
      (s.controller.dataBase.map Student.number).Nodup →
      (s.controller.Refuses form → s.controller.saveBtnPressed form = none ∧
        s.press (s.controller.saveBtnPressed form) = s) ∧
      (¬ s.controller.Refuses form → ∃ outcome,
        s.controller.saveBtnPressed form = some outcome ∧ outcome.writes ≠ [] ∧
        NewStudentTVC.Stores s (s.press (s.controller.saveBtnPressed form)) form)) ∧
    (∀ (s : Session EditTVC) (form : StudentForm),
      (s.controller.dataBase.map Student.number).Nodup →
      (s.controller.Refuses form → s.controller.saveBtnPressed form = none ∧
        s.press (s.controller.saveBtnPressed form) = s) ∧
      (¬ s.controller.Refuses form → ∃ outcome,
        s.controller.saveBtnPressed form = some outcome ∧ outcome.writes ≠ [] ∧
        EditTVC.Stores s (s.press (s.controller.saveBtnPressed form)) form)) := by
  constructor
  · intro s form hnodup
    constructor
    · intro hrefuses
      have hpressed := NewStudentTVC.saveBtnPressed_eq_none hrefuses
      exact ⟨hpressed, by rw [hpressed]; rfl⟩
    · intro haccepts
      obtain ⟨hpressed, hfree⟩ := NewStudentTVC.saveBtnPressed_of_not_refuses haccepts
      rw [hpressed]
      exact ⟨_, rfl, by simp [NewStudentTVC.save], NewStudentTVC.stores_of_save hnodup hfree⟩
  · intro s form hnodup
    constructor
    · intro hrefuses
      have hpressed := EditTVC.saveBtnPressed_eq_none hrefuses
      exact ⟨hpressed, by rw [hpressed]; rfl⟩
    · intro haccepts
      obtain ⟨outcome, hpressed, hwrites, hwritten⟩ :=
        EditTVC.saveBtnPressed_of_not_refuses haccepts
      rw [hpressed]
      exact ⟨outcome, rfl, hwrites, EditTVC.stores_of_overlaid hnodup haccepts
        (hwritten s).1 (hwritten s).2⟩

def adding : Session NewStudentTVC :=
  ⟨⟨[sampleStudent "Olena" 3, sampleStudent "Ivan" 1]⟩,
    Parser.unparse [sampleStudent "Olena" 3, sampleStudent "Ivan" 1],
    Parser.unparse [sampleStudent "Olena" 3, sampleStudent "Ivan" 1]⟩

theorem number_guard_protects_taken_and_free :
    (adding.press (adding.controller.saveBtnPressed (sampleForm "Petro" 0)) = adding) ∧
    ∃ outcome, editingIvan.controller.saveBtnPressed (sampleForm "Petro" 1) = some outcome ∧
      outcome.writes ≠ [] ∧ EditTVC.Stores editingIvan
        (editingIvan.press (editingIvan.controller.saveBtnPressed (sampleForm "Petro" 1)))
        (sampleForm "Petro" 1) := by
  constructor
  · exact ((number_guard_protects.1 adding (sampleForm "Petro" 0) (by decide)).1
      (Or.inr ⟨sampleStudent "Ivan" 1, by decide, by decide⟩)).2
  · have haccepts : ¬ editingIvan.controller.Refuses (sampleForm "Petro" 1) :=
      EditTVC.not_refuses_of_free (by decide) (Or.inr (by decide))
    exact (number_guard_protects.2 editingIvan (sampleForm "Petro" 1) (by decide)).2 haccepts

end Studkurator
