import Studkurator.Controller.GroupSearch

/-!
# What one fetch makes of a roster

A fetch decodes the dictionary of the server and caches it encoded again. Each entry moves
to the leading digit of its index; entries that meet there are lost but for one.
-/

namespace Studkurator

open Dictionary Decimal

set_option autoImplicit false

namespace Parser

/-- A record of exactly the eight fields comes back as it was. -/
theorem record_of_student [Unicode] {k : String} {r : Record} {s : Student}
    (hfields : r.keys = fieldNames.toFinset) (h : student (k, r) = some s) : record s = r := by
  obtain ⟨-, -, hlookup⟩ := (student_eq_some_iff k r s).mp h
  apply Finmap.ext_lookup
  intro field
  by_cases hfield : field ∈ fieldNames
  · obtain ⟨p, hp, rfl⟩ := exists_text_of_mem_fieldNames s hfield
    rw [hlookup p hp]
    exact (lookup_record_eq_some_iff s p.1 p.2).mpr hp
  · have habsent : field ∉ r := by
      rw [← Finmap.mem_keys, hfields, List.mem_toFinset]
      exact hfield
    have hwritten : field ∉ (texts s).map Prod.fst := hfield
    rw [Finmap.lookup_eq_none.mpr habsent, record, lookup_encode_of_not_mem _ _ hwritten]

theorem key_of_student [Unicode] {i : ℕ} {r : Record} {s : Student}
    (h : student (indexKey i, r) = some s) : key s = indexKey (leadingDigit i) := by
  obtain ⟨⟨c, hc, hnumber⟩, -⟩ := (student_eq_some_iff _ r s).mp h
  obtain ⟨c', hc', hdigit⟩ := head_indexKey i
  have hsame : c = c' := Option.some.inj (hc.symm.trans hc')
  rw [hsame, hdigit] at hnumber
  rw [key, ← Option.some.inj hnumber, indexKey_eq]

end Parser

/-- Keys `<i>k` for the given indices, and records of exactly the eight fields. -/
structure Indexed (indices : Finset ℕ) (node : Node) : Prop where
  keys : node.keys = indices.image indexKey
  fields : ∀ k r, node.lookup k = some r → r.keys = Parser.fieldNames.toFinset

namespace Indexed
variable {indices : Finset ℕ} {node : Node} {order : List (String × Record)}
variable {data : List Student}

theorem exists_index (h : Indexed indices node) {k : String} {r : Record}
    (hr : node.lookup k = some r) : ∃ i ∈ indices, indexKey i = k := by
  have hk : k ∈ node.keys := Finmap.mem_keys.mpr (Finmap.mem_of_lookup_eq_some hr)
  rw [h.keys] at hk
  exact Finset.mem_image.mp hk

theorem exists_record (h : Indexed indices node) {i : ℕ} (hi : i ∈ indices) :
    ∃ r, node.lookup (indexKey i) = some r := by
  have hmem : indexKey i ∈ node := by
    rw [← Finmap.mem_keys, h.keys]
    exact Finset.mem_image_of_mem _ hi
  exact Finmap.mem_iff.mp hmem

theorem exists_student [Unicode] (h : Indexed indices node) {k : String} {r : Record}
    (hr : node.lookup k = some r) : ∃ s, Parser.student (k, r) = some s := by
  obtain ⟨i, -, rfl⟩ := h.exists_index hr
  apply Option.isSome_iff_exists.mp
  refine (Parser.isSome_student_iff _ r).mpr ⟨startsWithDigit_indexKey i, ?_⟩
  intro field hfield
  have hmem : field ∈ r := by
    rw [← Finmap.mem_keys, h.fields _ r hr, List.mem_toFinset]
    exact hfield
  exact Finmap.mem_iff.mp hmem

theorem exists_parse [Unicode] (h : Indexed indices node) (horder : Iterates order node) :
    ∃ data, Parser.parse order = some data := by
  apply Option.isSome_iff_exists.mp
  apply horder.isSome_mapM_iff.mpr
  intro k r hr
  obtain ⟨s, hs⟩ := h.exists_student hr
  exact Option.isSome_of_mem hs

theorem exists_entry [Unicode] (h : Indexed indices node) (horder : Iterates order node)
    (hdata : Parser.parse order = some data) {s : Student} (hs : s ∈ data) :
    ∃ i ∈ indices, Parser.key s = indexKey (leadingDigit i) ∧
      node.lookup (indexKey i) = some (Parser.record s) := by
  obtain ⟨k, r, hr, hstudent⟩ := (horder.mem_decoded_iff hdata s).mp hs
  obtain ⟨i, hi, rfl⟩ := h.exists_index hr
  rw [Parser.record_of_student (h.fields _ r hr) hstudent]
  exact ⟨i, hi, Parser.key_of_student hstudent, hr⟩

theorem keys_unparse [Unicode] (h : Indexed indices node) (horder : Iterates order node)
    (hdata : Parser.parse order = some data) :
    (Parser.unparse data).keys = (indices.image leadingDigit).image indexKey := by
  ext k
  rw [Finmap.mem_keys, Parser.unparse, mem_encode_iff, List.mem_map]
  simp only [Finset.mem_image, exists_exists_and_eq_and]
  constructor
  · rintro ⟨s, hs, rfl⟩
    obtain ⟨i, hi, hkey, -⟩ := h.exists_entry horder hdata hs
    exact ⟨i, hi, hkey.symm⟩
  · rintro ⟨i, hi, rfl⟩
    obtain ⟨r, hr⟩ := h.exists_record hi
    obtain ⟨s, hs⟩ := h.exists_student hr
    exact ⟨s, (horder.mem_decoded_iff hdata s).mpr ⟨_, r, hr, hs⟩, Parser.key_of_student hs⟩

/-- What `node` becomes: one entry for each leading digit, taken from an entry with it. -/
structure Collapses (indices : Finset ℕ) (node reloaded : Node) : Prop where
  size : reloaded.keys.card = (indices.image leadingDigit).card
  atMostTen : reloaded.keys.card ≤ 10
  records : ∀ k r, reloaded.lookup k = some r → ∃ i ∈ indices,
    k = indexKey (leadingDigit i) ∧ node.lookup (indexKey i) = some r
  fixed : reloaded = node ↔ ∀ i ∈ indices, i < 10

theorem records_of_parse [Unicode] (h : Indexed indices node) (horder : Iterates order node)
    (hdata : Parser.parse order = some data) {k : String} {r : Record}
    (hr : (Parser.unparse data).lookup k = some r) :
    ∃ i ∈ indices, k = indexKey (leadingDigit i) ∧ node.lookup (indexKey i) = some r := by
  obtain ⟨s, hs, rfl, rfl⟩ := exists_of_lookup_encode _ _ hr
  exact h.exists_entry horder hdata hs

theorem unparse_eq_of_lt [Unicode] (h : Indexed indices node) (horder : Iterates order node)
    (hdata : Parser.parse order = some data) (hlt : ∀ i ∈ indices, i < 10) :
    Parser.unparse data = node := by
  have hback : ∀ k r, (Parser.unparse data).lookup k = some r → node.lookup k = some r := by
    intro k r hr
    obtain ⟨i, hi, rfl, hnode⟩ := h.records_of_parse horder hdata hr
    rwa [leadingDigit_of_lt (hlt i hi)]
  apply Finmap.ext_lookup
  intro k
  apply Option.ext
  intro r
  refine ⟨hback k r, ?_⟩
  intro hr
  obtain ⟨i, hi, rfl⟩ := h.exists_index hr
  have hmem : indexKey i ∈ Parser.unparse data := by
    rw [← Finmap.mem_keys, h.keys_unparse horder hdata, Finset.mem_image]
    exact ⟨i, Finset.mem_image.mpr ⟨i, hi, leadingDigit_of_lt (hlt i hi)⟩, rfl⟩
  obtain ⟨r', hr'⟩ := Finmap.mem_iff.mp hmem
  have hsame : r = r' := Option.some.inj (hr.symm.trans (hback _ _ hr'))
  rw [hsame]
  exact hr'

theorem collapses [Unicode] (h : Indexed indices node) (horder : Iterates order node)
    (hdata : Parser.parse order = some data) :
    Collapses indices node (Parser.unparse data) := by
  have hkeys := h.keys_unparse horder hdata
  have hsize : (Parser.unparse data).keys.card = (indices.image leadingDigit).card := by
    rw [hkeys, Finset.card_image_of_injective _ indexKey_injective]
  have hten : indices.image leadingDigit ⊆ Finset.range 10 := by
    intro digit hdigit
    obtain ⟨i, -, rfl⟩ := Finset.mem_image.mp hdigit
    exact Finset.mem_range.mpr (leadingDigit_lt i)
  refine ⟨hsize, ?_, fun k r hr => h.records_of_parse horder hdata hr, ?_,
    h.unparse_eq_of_lt horder hdata⟩
  · rw [hsize]
    simpa using Finset.card_le_card hten
  · intro hfixed i hi
    have hmem : indexKey i ∈ (Parser.unparse data).keys := by
      rw [hfixed, h.keys]
      exact Finset.mem_image_of_mem _ hi
    rw [hkeys] at hmem
    obtain ⟨digit, hdigit, hkey⟩ := Finset.mem_image.mp hmem
    rw [← indexKey_injective hkey]
    exact Finset.mem_range.mp (hten hdigit)

end Indexed

namespace GroupVC

/-- The completion of a fetch caches the collapsed dictionary, whatever the order in which
the dictionary of the server is iterated. -/
theorem fetch_collapses [Unicode] {indices : Finset ℕ} {node : Node} (h : Indexed indices node)
    {order : List (String × Record)} (horder : Iterates order node) :
    ∃ data outcome, Parser.parse order = some data ∧ fetchCompletion order = some outcome ∧
      outcome.cached = some (Parser.unparse data) ∧
      Indexed.Collapses indices node (Parser.unparse data) := by
  obtain ⟨data, hdata⟩ := h.exists_parse horder
  obtain ⟨filteredResults, hsort⟩ := exists_sortByKey Student.number data
  rw [← sort_eq] at hsort
  exact ⟨data, _, hdata, fetchCompletion_of_parse hdata hsort, rfl, h.collapses horder hdata⟩

def crowdedNode : Node :=
  encode Prod.fst Prod.snd [(indexKey 1, Parser.record (sampleStudent "Olena" 2)),
    (indexKey 10, Parser.record (sampleStudent "Ivan" 11))]

/-- Numbers 2 and 11 end up in one entry. -/
theorem fetch_collapses_crowded : ∃ data outcome,
    Parser.parse [(indexKey 10, Parser.record (sampleStudent "Ivan" 11)),
      (indexKey 1, Parser.record (sampleStudent "Olena" 2))] = some data ∧
    fetchCompletion [(indexKey 10, Parser.record (sampleStudent "Ivan" 11)),
      (indexKey 1, Parser.record (sampleStudent "Olena" 2))] = some outcome ∧
    outcome.cached = some (Parser.unparse data) ∧
    Indexed.Collapses {1, 10} crowdedNode (Parser.unparse data) := by
  refine fetch_collapses ⟨by decide, ?_⟩ ⟨by decide, by decide⟩
  intro k r hr
  obtain ⟨entry, hentry, -, rfl⟩ := exists_of_lookup_encode _ _ hr
  simp only [List.mem_cons, List.not_mem_nil, or_false] at hentry
  rcases hentry with rfl | rfl
  · exact Parser.keys_record _
  · exact Parser.keys_record _

end GroupVC

end Studkurator
