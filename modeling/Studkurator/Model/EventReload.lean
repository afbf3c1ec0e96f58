import Studkurator.Model.Event

/-!
# Loading what was stored

Keys of one digit determine the number, so an encoded list with such keys comes back
with the same numbers, each once. A list that was stored and loaded once does not change
any more.
-/

namespace Studkurator

open Dictionary

set_option autoImplicit false

/-- A key that `EventParser` decodes to the number it was made from. -/
def OneDigit (k : String) : Prop := ∃ n : ℤ, 0 ≤ n ∧ n ≤ 9 ∧ k = toString n ++ "k"

def InRange (data : List Event) : Prop := ∀ e ∈ data, 0 ≤ e.number ∧ e.number ≤ 9

namespace EventParser
variable {formatter : DateFormatter} {clock : Event → Date}

theorem oneDigit_key {e : Event} (h₀ : 0 ≤ e.number) (h₉ : e.number ≤ 9) : OneDigit (key e) :=
  ⟨e.number, h₀, h₉, rfl⟩

theorem inRange_of_parse [Unicode] {order : List (String × Record)} {data : List Event}
    (h : parse formatter order = some data) : InRange data :=
  fun _ he => parse_bounds h he

theorem oneDigit_unparse (clock : Event → Date) {data : List Event} (h : InRange data) :
    Entries (fun k _ => OneDigit k) (unparse clock data) :=
  entries_encode fun e he => oneDigit_key (h e he).1 (h e he).2

theorem key_of_event [Unicode] {k : String} {r : Record} {e : Event} (hk : OneDigit k)
    (h : event formatter (k, r) = some e) : key e = k := by
  obtain ⟨n, h₀, h₉, rfl⟩ := hk
  obtain ⟨⟨c, hc, hnumber⟩, -⟩ := (event_eq_some_iff _ r e).mp h
  obtain ⟨c', hc', hn⟩ := intOfCharacter_head h₀ h₉
  have hsame : c = c' := Option.some.inj (hc.symm.trans hc')
  rw [hsame, hn] at hnumber
  rw [key, ← Option.some.inj hnumber]

theorem map_key_of_parse [Unicode] {node : Node} (hnode : Entries (fun k _ => OneDigit k) node)
    {order : List (String × Record)} (horder : Iterates order node) {data : List Event}
    (hparse : parse formatter order = some data) : data.map key = order.map Prod.fst := by
  apply map_of_mapM hparse
  intro entry hentry e he
  exact key_of_event (hnode _ _ ((horder.mem_iff entry.1 entry.2).mp hentry)) he

theorem nodup_numbers_of_parse [Unicode] {node : Node}
    (hnode : Entries (fun k _ => OneDigit k) node)
    {order : List (String × Record)} (horder : Iterates order node) {data : List Event}
    (hparse : parse formatter order = some data) : (data.map Event.number).Nodup := by
  have hkeys : (data.map key).Nodup := by
    rw [map_key_of_parse hnode horder hparse]
    exact horder.1
  have hmap : data.map key = (data.map Event.number).map fun n => toString n ++ "k" := by
    rw [List.map_map]
    rfl
  rw [hmap] at hkeys
  exact .of_map _ hkeys

theorem key_stored (e : Event) : key (stored clock e) = key e := rfl

theorem record_stored (clock' : Event → Date) (e : Event) :
    record clock' (stored clock e) = record clock e := by
  have htexts : texts clock' (stored clock e) = texts clock e := by
    simp only [texts, stored, Option.getD_some, DateFormatter.string_hh_readBack]
  rw [record, record, htexts]

theorem stored_stored (clock' : Event → Date) (e : Event) :
    stored clock' (stored clock e) = stored clock e := by
  have hidem : ∀ d, DateFormatter.readBack .hh (DateFormatter.readBack .hh d) =
      DateFormatter.readBack .hh d :=
    fun d => DateFormatter.readBack_hh_eq_self (DateFormatter.readBack_hh_hour_lt d) rfl
  simp only [stored, Option.getD_some, hidem]

theorem unparse_map_stored (clock clock' : Event → Date) (data : List Event) :
    unparse clock' (data.map (stored clock)) = unparse clock data := by
  simp only [unparse, encode, List.foldl_map, key_stored, record_stored]

theorem parse_unparse [Unicode] (formatter : DateFormatter) {data : List Event}
    (hnodup : (data.map Event.number).Nodup) (hrange : InRange data)
    {order : List (String × Record)} (horder : Iterates order (unparse clock data)) :
    ∃ result, parse formatter order = some result ∧ result.Perm (data.map (stored clock)) := by
  rw [← unparse_map_stored clock clock data] at horder
  apply decode_encode _ _ horder
  · apply nodup_keys
    rw [List.map_map]
    exact hnodup
  · intro e he
    obtain ⟨a, ha, rfl⟩ := List.mem_map.mp he
    have hbounds : 0 ≤ (stored clock a).number ∧ (stored clock a).number ≤ 9 := hrange a ha
    rw [event_key_record hbounds.1 hbounds.2, stored_stored]

theorem exists_parse_unparse [Unicode] (formatter : DateFormatter) {data : List Event}
    (hdata : ∀ e ∈ data, 0 ≤ e.number) {order : List (String × Record)}
    (horder : Iterates order (unparse clock data)) :
    ∃ result, parse formatter order = some result := by
  apply Option.isSome_iff_exists.mp
  apply horder.isSome_mapM_iff.mpr
  apply entries_encode
  intro e he
  exact (isSome_event_iff _ _).mpr
    ⟨startsWithDigit_key (hdata e he), complete_record clock e⟩

theorem mem_result_iff [Unicode] {data result : List Event} (hdata : InRange data)
    {order : List (String × Record)} (horder : Iterates order (unparse clock data))
    (hresult : parse formatter order = some result) (a : Event) :
    a ∈ result ↔ ∃ b ∈ data, (unparse clock data).lookup (key b) = some (record clock b) ∧
      stored clock b = a := by
  rw [horder.mem_decoded_iff hresult a]
  constructor
  · rintro ⟨k, r, hr, ha⟩
    obtain ⟨b, hb, rfl, rfl⟩ := exists_of_lookup_encode _ _ hr
    rw [event_key_record (hdata b hb).1 (hdata b hb).2] at ha
    exact ⟨b, hb, hr, Option.some.inj ha⟩
  · rintro ⟨b, hb, hr, rfl⟩
    exact ⟨key b, record clock b, hr, event_key_record (hdata b hb).1 (hdata b hb).2⟩

/-- A list with one-digit numbers is stored a second time as it was the first time. -/
theorem unparse_of_parse_unparse [Unicode] {data result : List Event} (hdata : InRange data)
    {order : List (String × Record)} (horder : Iterates order (unparse clock data))
    (hresult : parse formatter order = some result) (clock' : Event → Date) :
    unparse clock' result = unparse clock data := by
  have hnodup : (result.map key).Nodup :=
    nodup_keys (nodup_numbers_of_parse (oneDigit_unparse clock hdata) horder hresult)
  apply Finmap.ext_lookup
  intro k
  apply Option.ext
  intro r
  rw [unparse, lookup_encode_eq_some_iff key _ hnodup]
  constructor
  · rintro ⟨a, ha, rfl, rfl⟩
    obtain ⟨b, -, hb, rfl⟩ := (mem_result_iff hdata horder hresult a).mp ha
    rw [key_stored, record_stored]
    exact hb
  · intro hr
    obtain ⟨b, hb, rfl, rfl⟩ := exists_of_lookup_encode _ _ hr
    have hstored : stored clock b ∈ result :=
      (mem_result_iff hdata horder hresult _).mpr ⟨b, hb, hr, rfl⟩
    exact ⟨stored clock b, hstored, key_stored b, record_stored clock' b⟩

/-- Loading and storing twice is loading and storing once, for any orders of iteration and
any clocks. -/
theorem reload_fixed_point [Unicode] (formatter : DateFormatter) {dict : Node}
    (hkeys : ∀ k ∈ dict, ∃ n : ℕ, k = indexKey n)
    (hcomplete : Entries (fun _ r => Complete r) dict) {order : List (String × Record)}
    (horder : Iterates order dict) (clock : Event → Date) :
    ∃ data, parse formatter order = some data ∧
      ∀ order', Iterates order' (unparse clock data) → ∀ clock' : Event → Date,
        ∃ data', parse formatter order' = some data' ∧
          unparse clock' data' = unparse clock data := by
  have hdecodes : Entries (fun k r => (event formatter (k, r)).isSome) dict := by
    intro k r hr
    obtain ⟨n, rfl⟩ := hkeys k (Finmap.mem_of_lookup_eq_some hr)
    exact (isSome_event_iff _ _).mpr ⟨startsWithDigit_indexKey n, hcomplete _ r hr⟩
  obtain ⟨data, hdata⟩ := Option.isSome_iff_exists.mp (horder.isSome_mapM_iff.mpr hdecodes)
  have hrange : InRange data := inRange_of_parse hdata
  refine ⟨data, hdata, ?_⟩
  intro order' horder' clock'
  obtain ⟨data', hdata'⟩ :=
    exists_parse_unparse formatter (fun e he => (hrange e he).1) horder'
  exact ⟨data', hdata', unparse_of_parse_unparse hrange horder' hdata' clock'⟩

def examPair : List (String × Record) :=
  [exam, lateExam].map fun e => (key e, record (fun _ => newYear) e)

/-- The two exams meet at key 1 after one cycle. -/
theorem reload_fixed_point_pair :
    ∃ data, parse DateFormatter.gregorian examPair = some data ∧
      ∀ order', Iterates order' (unparse (fun _ => newYear) data) → ∀ clock' : Event → Date,
        ∃ data', parse DateFormatter.gregorian order' = some data' ∧
          unparse clock' data' = unparse (fun _ => newYear) data := by
  have horder : Iterates examPair (unparse (fun _ => newYear) [exam, lateExam]) :=
    ⟨by decide, rfl⟩
  refine reload_fixed_point DateFormatter.gregorian ?_ ?_ horder _
  · intro k hk
    obtain ⟨e, he, rfl⟩ := List.mem_map.mp ((mem_encode_iff _ _ _ k).mp hk)
    rcases List.mem_pair.mp he with rfl | rfl
    · exact ⟨1, by decide⟩
    · exact ⟨12, by decide⟩
  · exact entries_encode fun e _ => complete_record _ e

/-- What the first character of a key keeps of a number up to 10. -/
def firstDigit (n : ℤ) : ℤ := if n = 10 then 1 else n

theorem number_of_event [Unicode] {a e : Event} {r : Record} (h₀ : 0 ≤ a.number)
    (h₁₀ : a.number ≤ 10)
    (h : event formatter (key a, r) = some e) : e.number = firstDigit a.number := by
  obtain ⟨⟨c, hc, hnumber⟩, -⟩ := (event_eq_some_iff _ r e).mp h
  unfold firstDigit
  split
  next hten =>
    have hhead : (characters (toString (10 : ℤ) ++ "k")).head? = some (.single '1') := by
      rw [characters_key]
      decide
    rw [key, hten, hhead] at hc
    cases hc
    exact (Option.some.inj hnumber).symm
  next hne =>
    obtain ⟨c', hc', hn⟩ := intOfCharacter_head h₀ (show a.number ≤ 9 by omega)
    have hsame : c = c' := Option.some.inj (hc.symm.trans hc')
    rw [hsame, hn] at hnumber
    exact (Option.some.inj hnumber).symm

/-- The numbers that come back when none exceeds 10; two events may share a number then. -/
theorem mem_numbers_of_parse_iff [Unicode] {data result : List Event}
    (hdata : ∀ e ∈ data, 0 ≤ e.number ∧ e.number ≤ 10) {order : List (String × Record)}
    (horder : Iterates order (unparse clock data))
    (hresult : parse formatter order = some result) (n : ℤ) :
    n ∈ result.map Event.number ↔ ∃ a ∈ data, firstDigit a.number = n := by
  constructor
  · intro hn
    obtain ⟨e, he, rfl⟩ := List.mem_map.mp hn
    obtain ⟨k, r, hr, hevent⟩ := (horder.mem_decoded_iff hresult e).mp he
    obtain ⟨a, ha, rfl, rfl⟩ := exists_of_lookup_encode _ _ hr
    exact ⟨a, ha, (number_of_event (hdata a ha).1 (hdata a ha).2 hevent).symm⟩
  · intro hn
    obtain ⟨a, ha, rfl⟩ := hn
    have hmem : key a ∈ unparse clock data :=
      (mem_encode_iff _ _ _ _).mpr (List.mem_map_of_mem ha)
    obtain ⟨r, hr⟩ := Finmap.mem_iff.mp hmem
    obtain ⟨b, -, -, hrecord⟩ := exists_of_lookup_encode _ _ hr
    have hsome : (event formatter (key a, r)).isSome := by
      rw [isSome_event_iff, ← hrecord]
      exact ⟨startsWithDigit_key (hdata a ha).1, complete_record clock b⟩
    obtain ⟨e, he⟩ := Option.isSome_iff_exists.mp hsome
    rw [← number_of_event (hdata a ha).1 (hdata a ha).2 he]
    exact List.mem_map_of_mem ((horder.mem_decoded_iff hresult e).mpr ⟨_, _, hr, he⟩)

theorem mem_numbers_of_reload_iff [Unicode] {data result : List Event} (hdata : InRange data)
    {order : List (String × Record)} (horder : Iterates order (unparse clock data))
    (hresult : parse formatter order = some result) (n : ℤ) :
    n ∈ result.map Event.number ↔ n ∈ data.map Event.number := by
  have hten : ∀ e ∈ data, 0 ≤ e.number ∧ e.number ≤ 10 := by
    intro e he
    have hbounds := hdata e he
    omega
  have hsame : ∀ e ∈ data, firstDigit e.number = e.number := by
    intro e he
    have hbounds := hdata e he
    exact if_neg (by omega)
  rw [mem_numbers_of_parse_iff hten horder hresult, List.mem_map]
  constructor
  · intro hn
    obtain ⟨a, ha, rfl⟩ := hn
    exact ⟨a, ha, (hsame a ha).symm⟩
  · intro hn
    obtain ⟨a, ha, rfl⟩ := hn
    exact ⟨a, ha, hsame a ha⟩

end EventParser

end Studkurator
