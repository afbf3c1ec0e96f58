import Studkurator.Controller.GroupReload
import Studkurator.Controller.StudentSaves
import Studkurator.Library.Reload
import Studkurator.System.FormData
import Studkurator.System.RosterOrigins

/-!
# Clients that fetch the same roster

Every client decodes the roster in an order of its own. The clients end up with the same
cache and the same rows exactly when no two keys with the same first digit hold different
students.
-/

namespace Studkurator

open Dictionary Transition

set_option autoImplicit false

/-- The completions of two fetches of the roster cache the same and show the same. -/
def FetchersAgree [Unicode] (node : Node) : Prop :=
  ∀ order order' outcome outcome', Iterates order node → Iterates order' node →
    GroupVC.fetchCompletion order = some outcome →
    GroupVC.fetchCompletion order' = some outcome' →
    outcome.cached = outcome'.cached ∧
      outcome.controller.filteredResults = outcome'.controller.filteredResults

def SameDigitSameTexts [Unicode] (node : Node) : Prop :=
  ∀ k r k' r', node.lookup k = some r → node.lookup k' = some r' →
    (characters k).head? = (characters k').head? → SameTexts r r'

section Decoded
variable {k k' : String} {r r' : Record} {s s' : Student}

theorem key_eq_iff_of_student [Unicode] (h : Parser.student (k, r) = some s)
    (h' : Parser.student (k', r') = some s') :
    Parser.key s = Parser.key s' ↔ (characters k).head? = (characters k').head? := by
  obtain ⟨⟨c, hc, hn⟩, -⟩ := (Parser.student_eq_some_iff k r s).mp h
  obtain ⟨⟨c', hc', hn'⟩, -⟩ := (Parser.student_eq_some_iff k' r' s').mp h'
  rw [hc, hc', Option.some.injEq]
  constructor
  · intro hkey
    have hnumber := Parser.key_injective hkey
    have hprinted := characters_toString_of_intOfCharacter hn
    rw [hnumber, characters_toString_of_intOfCharacter hn'] at hprinted
    simpa using hprinted.symm
  · intro hsame
    rw [hsame, hn'] at hn
    apply Parser.key_eq_of_number
    have hnumber := Option.some.inj hn
    omega

theorem record_eq_iff_of_student [Unicode] (h : Parser.student (k, r) = some s)
    (h' : Parser.student (k', r') = some s') :
    Parser.record s = Parser.record s' ↔ SameTexts r r' := by
  have htexts := sameTexts_record h
  have htexts' := sameTexts_record h'
  constructor
  · intro hrecord field hfield
    rw [← htexts field hfield, hrecord, htexts' field hfield]
  · intro hsame
    apply Finmap.ext_lookup
    intro field
    by_cases hfield : field ∈ Parser.fieldNames
    · rw [htexts field hfield, hsame field hfield, ← htexts' field hfield]
    · have hwritten : ∀ s, (Parser.record s).lookup field = none := fun s =>
        lookup_encode_of_not_mem Prod.fst Prod.snd hfield
      rw [hwritten, hwritten]

end Decoded

theorem entriesAgree_iff [Unicode] {node : Node} (hall : Entries Decodable node) :
    EntriesAgree Parser.student Parser.key Parser.record node ↔ SameDigitSameTexts node := by
  constructor
  · intro h k r k' r' hr hr' hhead
    obtain ⟨s, hs⟩ := Option.isSome_iff_exists.mp (hall k r hr)
    obtain ⟨s', hs'⟩ := Option.isSome_iff_exists.mp (hall k' r' hr')
    have hkey := (key_eq_iff_of_student hs hs').mpr hhead
    exact (record_eq_iff_of_student hs hs').mp (h k r k' r' s s' hr hr' hs hs' hkey)
  · intro h k r k' r' s s' hr hr' hs hs' hkey
    have hhead := (key_eq_iff_of_student hs hs').mp hkey
    exact (record_eq_iff_of_student hs hs').mpr (h k r k' r' hr hr' hhead)

theorem eq_of_key_of_record {s t : Student} (hs : s.WellTyped) (ht : t.WellTyped)
    (hkey : Parser.key s = Parser.key t) (hrecord : Parser.record s = Parser.record t) :
    s = t := by
  have htexts : ∀ p ∈ Parser.texts s, p ∈ Parser.texts t := by
    intro p hp
    apply (Parser.lookup_record_eq_some_iff t p.1 p.2).mp
    rw [← hrecord]
    exact (Parser.lookup_record_eq_some_iff s p.1 p.2).mpr hp
  have hnumber := Parser.key_injective hkey
  obtain ⟨name, number, address, ⟨mtype, mname, mphone⟩, ⟨ftype, fname, fphone⟩, home, phone⟩ := s
  obtain ⟨name', number', address', ⟨mtype', mname', mphone'⟩, ⟨ftype', fname', fphone'⟩, home',
    phone'⟩ := t
  simp only [Student.WellTyped] at hs ht
  simp [Parser.texts] at htexts
  simp_all

theorem exists_fetchCompletion [Unicode] {order : List (String × Record)} {data : List Student}
    (hdata : Parser.parse order = some data) :
    ∃ filteredResults, GroupVC.fetchCompletion order =
      some ⟨⟨data, filteredResults⟩, some (Parser.unparse data), [], []⟩ := by
  obtain ⟨filteredResults, hsort⟩ := exists_sortByKey Student.number data
  rw [← GroupVC.sort_eq] at hsort
  exact ⟨filteredResults, GroupVC.fetchCompletion_of_parse hdata hsort⟩

/-- Decoded students that have one number and are stored alike are the same. -/
theorem determined_of_agree [Unicode] {order : List (String × Record)} {data : List Student}
    (hdata : Parser.parse order = some data)
    (h : Agree Parser.key Parser.record data) : Determined Student.number data := by
  have htyped : ∀ s ∈ data, s.WellTyped := by
    intro s hs
    obtain ⟨entry, -, hentry⟩ := (mem_iff_of_mapM hdata s).mp hs
    exact Parser.wellTyped_of_student hentry
  intro s hs t ht hnumber
  have hkey := Parser.key_eq_of_number hnumber
  exact eq_of_key_of_record (htyped s hs) (htyped t ht) hkey (h s hs t ht hkey)

/-- Clients agree on what they fetched exactly when the roster has no two different students
under keys with the same first digit. -/
theorem fetchersAgree_iff [Unicode] {node : Node} (hall : Entries Decodable node) :
    FetchersAgree node ↔ SameDigitSameTexts node := by
  rw [← entriesAgree_iff hall]
  constructor
  · intro h
    apply (orderIndependent_iff hall).mp
    intro order order' data data' horder horder' hdata hdata'
    obtain ⟨shown, hcompletion⟩ := exists_fetchCompletion hdata
    obtain ⟨shown', hcompletion'⟩ := exists_fetchCompletion hdata'
    have hcached := (h _ _ _ _ horder horder' hcompletion hcompletion').1
    exact Option.some.inj hcached
  · intro h order order' outcome outcome' horder horder' hcompletion hcompletion'
    obtain ⟨hparse, hsort, hcached, -⟩ := GroupVC.fetchCompletion_eq_some hcompletion
    obtain ⟨hparse', hsort', hcached', -⟩ := GroupVC.fetchCompletion_eq_some hcompletion'
    have hagree := h.agree horder hparse
    constructor
    · rw [hcached, hcached']
      exact congrArg some ((orderIndependent_iff hall).mpr h _ _ _ _ horder horder' hparse hparse')
    · obtain ⟨data, hdata, hperm⟩ := mapM_perm (horder.perm horder') hparse'
      obtain rfl := Option.some.inj (hparse.symm.trans hdata)
      have hsame := (determined_of_agree hparse hagree).sortByKey_eq_of_perm hperm
      rw [← GroupVC.sort_eq, ← GroupVC.sort_eq, hsort, hsort'] at hsame
      exact Option.some.inj hsame

/-- Numbers 2 and 11 are read as one, and each client keeps whom it happens to read last. -/
theorem not_fetchersAgree_crowdedNode : ¬ FetchersAgree GroupVC.crowdedNode := by
  have hall : Entries Decodable GroupVC.crowdedNode := by
    apply entries_encode
    simp only [List.forall_mem_cons]
    refine ⟨?_, ?_, by simp⟩
    · exact Parser.isSome_student_record (by decide)
    · exact Parser.isSome_student_record (by decide)
  intro h
  have htexts := (fetchersAgree_iff hall).mp h (indexKey 1)
    (Parser.record (sampleStudent "Olena" 2)) (indexKey 10)
    (Parser.record (sampleStudent "Ivan" 11)) (by decide) (by decide) (by decide) "name" (by decide)
  revert htexts
  decide

end Studkurator
