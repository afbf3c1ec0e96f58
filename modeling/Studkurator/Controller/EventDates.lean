import Studkurator.Controller.DetailEventTVC
import Studkurator.Controller.NewEventTVC

/-!
# The way of a date from the form to the detail screen

The form reads `HH`, the store keeps `hh`, and the detail screen prints `HH` again.
Nothing in the stored text says which half of the day was meant.
-/

namespace Studkurator.EventParser

open Dictionary

set_option autoImplicit false

variable {formatter : DateFormatter} {clock : Event → Date}

/-- Storing and loading returns the list, whatever the iteration order, and the detail
screen shows the date that was typed. -/
structure RoundTrips [Unicode] (formatter : DateFormatter) (data : List Event) : Prop where
  parse : ∀ clock order, Iterates order (unparse clock data) →
    ∃ result, parse formatter order = some result ∧ result.Perm data
  shown : ∀ clock order result, Iterates order (unparse clock data) →
    EventParser.parse formatter order = some result →
    ∀ e ∈ data, ∀ e' ∈ result, e'.number = e.number →
    ∀ typed now, formatter.date .HH (DateFormatter.string .HH typed) = e.date →
      DetailEventTVC.dateLabel now e' = DateFormatter.string .HH typed

theorem exists_readBack_of_mem [Unicode] {data result : List Event} {order : List (String × Record)}
    (horder : Iterates order (unparse clock data)) (hresult : parse formatter order = some result)
    {e : Event} (he : e ∈ result) : ∃ d, e.date = some (DateFormatter.readBack .hh d) := by
  obtain ⟨k, r, hr, hevent⟩ := (horder.mem_decoded_iff hresult e).mp he
  obtain ⟨a, ha, rfl, rfl⟩ := exists_of_lookup_encode key (record clock) hr
  obtain ⟨-, -, ⟨v, hv, hread⟩, -⟩ := (event_eq_some_iff _ _ e).mp hevent
  rw [(lookup_record clock a).2.1] at hv
  cases hv
  exact ⟨_, hread.symm.trans (formatter.date_string .hh _)⟩

theorem hour_lt_of_mem [Unicode] {data result : List Event} {order : List (String × Record)}
    (horder : Iterates order (unparse clock data)) (hresult : parse formatter order = some result)
    {e : Event} (he : e ∈ result) {d : Date} (hd : e.date = some d) : d.hour.val < 12 := by
  obtain ⟨d', hd'⟩ := exists_readBack_of_mem horder hresult he
  rw [hd] at hd'
  cases hd'
  exact DateFormatter.readBack_hh_hour_lt d'

theorem dateLabel_of_date {e : Event} {typed now : Date}
    (h : formatter.date .HH (DateFormatter.string .HH typed) = e.date) :
    DetailEventTVC.dateLabel now e = DateFormatter.string .HH typed := by
  rw [formatter.date_string] at h
  rw [DetailEventTVC.dateLabel, ← h]
  rfl

/-- A list of events survives storage exactly when its numbers have one digit and its
dates lie before noon. -/
theorem eventRoundTrips_iff [Unicode] (formatter : DateFormatter) {data : List Event}
    (hnodup : (data.map Event.number).Nodup) (hnumber : ∀ e ∈ data, 1 ≤ e.number)
    (himage : ∀ e ∈ data, e.image = "event" ++ toString e.number)
    (hdate : ∀ e ∈ data, ∃ d, e.date = some d ∧ d.below = 0) :
    RoundTrips formatter data ↔
      ∀ e ∈ data, e.number ≤ 9 ∧ ∀ d, e.date = some d → d.hour.val < 12 := by
  constructor
  · intro h e he
    obtain ⟨now, -⟩ := hdate e he
    obtain ⟨order, horder⟩ := exists_iterates (unparse (fun _ => now) data)
    obtain ⟨result, hresult, hperm⟩ := h.parse _ order horder
    have hmem : e ∈ result := hperm.mem_iff.mpr he
    exact ⟨(parse_bounds hresult hmem).2, fun d hd => hour_lt_of_mem horder hresult hmem hd⟩
  · intro h
    have hstored : ∀ clock, ∀ e ∈ data,
        event formatter (key e, record clock e) = some e := by
      intro clock e he
      obtain ⟨d, hd, hbelow⟩ := hdate e he
      obtain ⟨hnine, hhour⟩ := h e he
      have hpositive := hnumber e he
      rw [event_key_record (by omega) hnine,
        stored_eq_self hd hbelow (hhour d hd) (himage e he)]
    have hparse : ∀ clock order, Iterates order (unparse clock data) →
        ∃ result, parse formatter order = some result ∧ result.Perm data :=
      fun clock _ horder => decode_encode (nodup_keys hnodup) (hstored clock) horder
    refine ⟨hparse, ?_⟩
    intro clock order result horder hresult e he e' he' hsame typed now htyped
    obtain ⟨result', hresult', hperm⟩ := hparse clock order horder
    have heq : result = result' := Option.some.inj (hresult.symm.trans hresult')
    have hmem : e' ∈ data := hperm.mem_iff.mp (heq ▸ he')
    have hevent : e' = e := List.inj_on_of_nodup_map hnodup hmem he hsame
    rw [hevent]
    exact dateLabel_of_date htyped

theorem eventRoundTrips_iff_morning :
    RoundTrips .gregorian [sampleEvent "Concert" 9 0, exam, trip] := by
  have hmorning : ∀ e ∈ [sampleEvent "Concert" 9 0, exam, trip],
      e.number ≤ 9 ∧ ∀ d, e.date = some d → d.hour.val < 12 := by
    simp only [List.forall_mem_cons]
    refine ⟨⟨by decide, ?_⟩, ⟨by decide, ?_⟩, ⟨by decide, ?_⟩, by simp⟩
    all_goals
      intro d hd
      cases hd
      decide
  exact (eventRoundTrips_iff .gregorian (by decide) (by decide) (by decide)
    (by simp [exam, trip, sampleEvent])).mpr hmorning

/-- Half past one in the afternoon comes back as half past one at night. -/
theorem not_roundTrips_afternoon :
    ¬ ∀ (formatter : DateFormatter) (data : List Event), (data.map Event.number).Nodup →
      (∀ e ∈ data, 1 ≤ e.number) → (∀ e ∈ data, e.image = "event" ++ toString e.number) →
      (∀ e ∈ data, ∃ d, e.date = some d ∧ d.below = 0) → RoundTrips formatter data := by
  intro h
  have hdata := h .gregorian [sampleEvent "Exam" 1 13] (by decide) (by decide) (by decide)
    (by simp [sampleEvent])
  obtain ⟨now, hnow⟩ : ∃ now, (sampleEvent "Exam" 1 13).date = some now := ⟨_, rfl⟩
  obtain ⟨order, horder⟩ := exists_iterates (unparse (fun _ => now) [sampleEvent "Exam" 1 13])
  obtain ⟨result, hresult, hperm⟩ := hdata.parse _ order horder
  have hhour := hour_lt_of_mem horder hresult (hperm.mem_iff.mpr List.mem_cons_self) hnow
  cases hnow
  revert hhour
  decide

end Studkurator.EventParser
