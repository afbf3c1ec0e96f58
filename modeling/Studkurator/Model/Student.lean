import Studkurator.Model.Foundation
import Studkurator.Model.Store

/-!
# Students and their dictionary encoding

`Parser.unparse` stores a student under its number less one followed by `k`;
`Parser.parse` recovers the number from the first character of the key only.
-/

namespace Studkurator

open Dictionary

set_option autoImplicit false

inductive ParentType where
  | mother
  | father
  deriving DecidableEq

structure Parent where
  type : ParentType
  fullName : String
  phoneNumber : String
  deriving DecidableEq

structure Student where
  fullName : String
  number : ℤ
  address : String
  mother : Parent
  father : Parent
  homeAddress : String
  phoneNumber : String
  deriving DecidableEq

/-- Every constructor call makes the first parent a mother and the second a father. -/
def Student.WellTyped (student : Student) : Prop :=
  student.mother.type = .mother ∧ student.father.type = .father

instance (student : Student) : Decidable student.WellTyped :=
  inferInstanceAs (Decidable (_ ∧ _))

def sampleStudent (fullName : String) (number : ℤ) : Student :=
  ⟨fullName, number, "Kyiv", ⟨.mother, "Olha", "+380501112233"⟩,
    ⟨.father, "Petro", "+380504445566"⟩, "Lviv", "+380507778899"⟩

namespace Parser

/-- One turn of the loop in `parse`; `none` is a trap of a force unwrap. -/
def student [Unicode] (entry : String × Record) : Option Student := do
  let (key, value) := entry
  let name ← value.lookup "name"
  let first ← (characters key).head?
  let index ← intOfCharacter first
  let address ← value.lookup "address"
  let motherName ← value.lookup "motherName"
  let motherPhone ← value.lookup "motherPhone"
  let fatherName ← value.lookup "fatherName"
  let fatherPhone ← value.lookup "fatherPhone"
  let homeAddress ← value.lookup "homeAddress"
  let phone ← value.lookup "phone"
  return {
    fullName := name
    number := index + 1
    address := address
    mother := ⟨.mother, motherName, motherPhone⟩
    father := ⟨.father, fatherName, fatherPhone⟩
    homeAddress := homeAddress
    phoneNumber := phone }

/-- `parse(dict:)`, for the order in which the dictionary happens to be iterated. -/
def parse [Unicode] (dict : List (String × Record)) : Option (List Student) := dict.mapM student

def key (student : Student) : String := toString (student.number - 1) ++ "k"

def texts (student : Student) : List (String × String) :=
  [("address", student.address), ("fatherName", student.father.fullName),
    ("fatherPhone", student.father.phoneNumber), ("name", student.fullName),
    ("homeAddress", student.homeAddress), ("motherName", student.mother.fullName),
    ("motherPhone", student.mother.phoneNumber), ("phone", student.phoneNumber)]

def fieldNames : List String :=
  ["address", "fatherName", "fatherPhone", "name", "homeAddress", "motherName", "motherPhone",
    "phone"]

def record (student : Student) : Record := encode Prod.fst Prod.snd (texts student)

def unparse (data : List Student) : Node := encode key record data

theorem key_injective {s t : Student} (h : key s = key t) : s.number = t.number := by
  have hnumber := Decimal.toString_append_injective "k" h
  omega

theorem nodup_keys {data : List Student} (h : (data.map Student.number).Nodup) :
    (data.map key).Nodup := by
  rw [List.nodup_iff_pairwise_ne, List.pairwise_map] at h ⊢
  exact h.imp fun hne hkey => hne (key_injective hkey)

theorem map_fst_texts (s : Student) : (texts s).map Prod.fst = fieldNames := rfl

theorem nodup_field_names (s : Student) : ((texts s).map Prod.fst).Nodup := by
  simp [texts]

theorem fst_mem_fieldNames {s : Student} {p : String × String} (h : p ∈ texts s) :
    p.1 ∈ fieldNames := by
  rw [← map_fst_texts s]
  exact List.mem_map_of_mem h

theorem exists_text_of_mem_fieldNames (s : Student) {field : String} (h : field ∈ fieldNames) :
    ∃ p ∈ texts s, p.1 = field := by
  rw [← map_fst_texts s] at h
  exact List.mem_map.mp h

theorem lookup_record_eq_some_iff (s : Student) (field value : String) :
    (record s).lookup field = some value ↔ (field, value) ∈ texts s := by
  unfold record
  rw [lookup_encode_eq_some_iff _ _ (nodup_field_names s)]
  constructor
  · intro h
    obtain ⟨⟨f, v⟩, hmem, rfl, rfl⟩ := h
    exact hmem
  · intro h
    exact ⟨(field, value), h, rfl, rfl⟩

theorem keys_record (s : Student) : (record s).keys = fieldNames.toFinset := by
  rw [record, keys_encode, map_fst_texts]

/-- A record of these eight texts and no other. -/
structure Holds (r : Record) (name number address homeAddress mother motherNumber father
    fatherNumber : String) : Prop where
  name : r.lookup "name" = some name
  phone : r.lookup "phone" = some number
  address : r.lookup "address" = some address
  homeAddress : r.lookup "homeAddress" = some homeAddress
  motherName : r.lookup "motherName" = some mother
  motherPhone : r.lookup "motherPhone" = some motherNumber
  fatherName : r.lookup "fatherName" = some father
  fatherPhone : r.lookup "fatherPhone" = some fatherNumber
  fields : r.keys = fieldNames.toFinset

theorem holds_record (s : Student) :
    Holds (record s) s.fullName s.phoneNumber s.address s.homeAddress s.mother.fullName
      s.mother.phoneNumber s.father.fullName s.father.phoneNumber := by
  have hfields : ∀ p ∈ texts s, (record s).lookup p.1 = some p.2 :=
    fun p hp => (lookup_record_eq_some_iff s p.1 p.2).mpr hp
  simp only [texts, List.forall_mem_cons] at hfields
  obtain ⟨haddress, hfatherName, hfatherPhone, hname, hhomeAddress, hmotherName,
    hmotherPhone, hphone, -⟩ := hfields
  exact ⟨hname, hphone, haddress, hhomeAddress, hmotherName, hmotherPhone, hfatherName,
    hfatherPhone, keys_record s⟩

theorem student_eq_some_iff [Unicode] (k : String) (r : Record) (s : Student) :
    student (k, r) = some s ↔
      (∃ c, (characters k).head? = some c ∧ intOfCharacter c = some (s.number - 1)) ∧
      s.WellTyped ∧ ∀ p ∈ texts s, r.lookup p.1 = some p.2 := by
  constructor
  · intro h
    simp only [student, Option.bind_eq_bind, Option.bind_eq_some_iff, Option.pure_def,
      Option.some.injEq] at h
    obtain ⟨name, hname, first, hfirst, index, hindex, address, haddress, motherName,
      hmotherName, motherPhone, hmotherPhone, fatherName, hfatherName, fatherPhone,
      hfatherPhone, homeAddress, hhomeAddress, phone, hphone, rfl⟩ := h
    refine ⟨⟨first, hfirst, ?_⟩, ⟨rfl, rfl⟩, ?_⟩
    · simpa using hindex
    · simp [texts, *]
  · intro h
    obtain ⟨⟨c, hc, hn⟩, ⟨hmother, hfather⟩, hfields⟩ := h
    simp only [texts, List.forall_mem_cons] at hfields
    obtain ⟨haddress, hfatherName, hfatherPhone, hname, hhomeAddress, hmotherName,
      hmotherPhone, hphone, -⟩ := hfields
    simp only [student, hc, hn, haddress, hfatherName, hfatherPhone, hname, hhomeAddress,
      hmotherName, hmotherPhone, hphone, Option.bind_eq_bind, Option.bind_some,
      Option.pure_def, Int.sub_add_cancel]
    rw [← hmother, ← hfather]

theorem isSome_student_iff [Unicode] (k : String) (r : Record) :
    (student (k, r)).isSome ↔ StartsWithDigit k ∧
      ∀ field ∈ fieldNames, ∃ v, r.lookup field = some v := by
  constructor
  · intro h
    obtain ⟨s, hs⟩ := Option.isSome_iff_exists.mp h
    obtain ⟨⟨c, hc, hn⟩, -, hfields⟩ := (student_eq_some_iff k r s).mp hs
    refine ⟨⟨c, hc, isDigit_of_intOfCharacter hn⟩, ?_⟩
    intro field hfield
    obtain ⟨p, hp, rfl⟩ := exists_text_of_mem_fieldNames s hfield
    exact ⟨p.2, hfields p hp⟩
  · intro h
    obtain ⟨⟨c, hc, hdigit⟩, hfields⟩ := h
    obtain ⟨n, hn⟩ := Option.isSome_iff_exists.mp (intOfCharacter_isSome hdigit)
    simp only [fieldNames, List.forall_mem_cons] at hfields
    obtain ⟨⟨address, haddress⟩, ⟨fatherName, hfatherName⟩, ⟨fatherPhone, hfatherPhone⟩,
      ⟨name, hname⟩, ⟨homeAddress, hhomeAddress⟩, ⟨motherName, hmotherName⟩,
      ⟨motherPhone, hmotherPhone⟩, ⟨phone, hphone⟩, -⟩ := hfields
    simp [student, *]

/-- Whatever the key, its first character yields a number between 1 and 10. -/
theorem number_bounds [Unicode] {entry : String × Record} {s : Student}
    (h : student entry = some s) :
    1 ≤ s.number ∧ s.number ≤ 10 := by
  obtain ⟨⟨c, -, hc⟩, -⟩ := (student_eq_some_iff entry.1 entry.2 s).mp h
  have hbounds := intOfCharacter_bounds hc
  omega

theorem wellTyped_of_student [Unicode] {entry : String × Record} {s : Student}
    (h : student entry = some s) : s.WellTyped :=
  ((student_eq_some_iff entry.1 entry.2 s).mp h).2.1

theorem parse_bounds [Unicode] {order : List (String × Record)} {data : List Student}
    (h : parse order = some data) {s : Student} (hs : s ∈ data) :
    1 ≤ s.number ∧ s.number ≤ 10 := by
  obtain ⟨entry, -, hentry⟩ := (mem_iff_of_mapM h s).mp hs
  exact number_bounds hentry

theorem startsWithDigit_key [Unicode] {s : Student} (h : 1 ≤ s.number) : StartsWithDigit (key s) :=
  startsWithDigit_of_nonneg (by omega)

theorem isSome_student_record [Unicode] {s : Student} (h : 1 ≤ s.number) :
    (student (key s, record s)).isSome := by
  apply (isSome_student_iff _ _).mpr
  refine ⟨startsWithDigit_key h, ?_⟩
  intro field hfield
  obtain ⟨p, hp, rfl⟩ := exists_text_of_mem_fieldNames s hfield
  exact ⟨p.2, (lookup_record_eq_some_iff s p.1 p.2).mpr hp⟩

theorem student_key_record [Unicode] {s : Student} (h₁ : 1 ≤ s.number) (h₂ : s.number ≤ 10)
    (htyped : s.WellTyped) : student (key s, record s) = some s := by
  apply (student_eq_some_iff _ _ _).mpr
  refine ⟨intOfCharacter_head (by omega) (by omega), htyped, ?_⟩
  intro p hp
  exact (lookup_record_eq_some_iff s p.1 p.2).mpr hp

/-- Students of different numbers that the decoder can read back. -/
structure Decodes (data : List Student) : Prop where
  nodup : (data.map Student.number).Nodup
  numbers : ∀ s ∈ data, 1 ≤ s.number ∧ s.number ≤ 10
  wellTyped : ∀ s ∈ data, s.WellTyped

theorem Decodes.iterates {data : List Student} (h : Decodes data) :
    Iterates (data.map fun s => (key s, record s)) (unparse data) :=
  iterates_map_encode (nodup_keys h.nodup)

theorem Decodes.reading {data : List Student} (h : Decodes data) {value : Option Node}
    (hvalue : value = some (unparse data)) :
    Reading value (some (data.map fun s => (key s, record s))) := by
  rw [hvalue]
  exact .some h.iterates

theorem Decodes.parse [Unicode] {data : List Student} (h : Decodes data) :
    parse (data.map fun s => (key s, record s)) = some data := by
  have hread : ∀ s ∈ data, student (key s, record s) = some s :=
    fun s hs => student_key_record (h.numbers s hs).1 (h.numbers s hs).2 (h.wellTyped s hs)
  rw [Parser.parse, mapM_eq_some_iff]
  constructor
  · intro entry hentry
    obtain ⟨s, hs, rfl⟩ := List.mem_map.mp hentry
    rw [hread s hs]
    rfl
  · rw [List.filterMap_map]
    have hid : data.filterMap (student ∘ fun s => (key s, record s)) = data.filterMap some :=
      List.filterMap_congr hread
    rw [hid, List.filterMap_some]

/-- Of the stored students the one under the key of `s` is read as `s`, and no other. -/
theorem Decodes.read_iff [Unicode] {data : List Student} (h : Decodes data) {s : Student}
    (hs : s ∈ data) {k : String} {r : Record} (hr : (unparse data).lookup k = some r) :
    student (k, r) = some s ↔ k = key s := by
  obtain ⟨t, ht, rfl, rfl⟩ := exists_of_lookup_encode _ _ hr
  rw [student_key_record (h.numbers t ht).1 (h.numbers t ht).2 (h.wellTyped t ht),
    Option.some.injEq]
  constructor
  · rintro rfl
    rfl
  · intro hkey
    exact List.inj_on_of_nodup_map h.nodup ht hs (key_injective hkey)

/-- `parse` inverts `unparse` on a list, whatever the iteration order. -/
def RoundTrips [Unicode] (data : List Student) : Prop :=
  ∀ order, Iterates order (unparse data) → ∃ result, parse order = some result ∧
    result.Perm data

/-- Storing a roster and loading it again returns it exactly when no number exceeds 10. -/
theorem roundTrips_iff [Unicode] {data : List Student} (hnodup : (data.map Student.number).Nodup)
    (hrange : ∀ s ∈ data, 1 ≤ s.number ∧ s.number ≤ 50) (htyped : ∀ s ∈ data, s.WellTyped) :
    RoundTrips data ↔ ∀ s ∈ data, s.number ≤ 10 := by
  constructor
  · intro h s hs
    obtain ⟨order, horder⟩ := exists_iterates (unparse data)
    obtain ⟨result, hresult, hperm⟩ := h order horder
    exact (parse_bounds hresult (hperm.mem_iff.mpr hs)).2
  · intro h order horder
    apply decode_encode (nodup_keys hnodup) _ horder
    intro s hs
    exact student_key_record (hrange s hs).1 (h s hs) (htyped s hs)

theorem roundTrips_iff_ten :
    RoundTrips [sampleStudent "Ivan" 10, sampleStudent "Olena" 2, sampleStudent "Petro" 7] :=
  (roundTrips_iff (by decide) (by decide) (by decide)).mpr (by decide)

/-- Number 11 is stored under `10k`, which is read as number 2. -/
theorem not_roundTrips_eleven :
    ¬ ∀ data : List Student, (data.map Student.number).Nodup →
      (∀ s ∈ data, 1 ≤ s.number ∧ s.number ≤ 50) → (∀ s ∈ data, s.WellTyped) →
      RoundTrips data := by
  intro h
  have hdata := h [sampleStudent "Ivan" 11] (by decide) (by decide) (by decide)
  obtain ⟨order, horder⟩ := exists_iterates (unparse [sampleStudent "Ivan" 11])
  obtain ⟨result, hresult, hperm⟩ := hdata order horder
  have hbound := (parse_bounds hresult (hperm.mem_iff.mpr List.mem_cons_self)).2
  simp [sampleStudent] at hbound

end Parser

end Studkurator
