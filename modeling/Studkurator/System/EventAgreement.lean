import Studkurator.Controller.IncrementalUpdate
import Studkurator.Library.Reload
import Studkurator.System.EventOrigins
import Studkurator.System.RosterAgreement

/-!
# Clients that fetch the same events

Every client decodes the events in an order of its own and stores them with a clock of its
own. The caches agree exactly when every date can be read and keys with the same first digit
hold the same event, up to what printing the date again forgets.
-/

namespace Studkurator

open Dictionary

set_option autoImplicit false

variable {formatter : DateFormatter} {clock clock' : Event → Date}

/-- The completions of two fetches of the events cache the same. -/
def EventFetchersAgree [Unicode] (formatter : DateFormatter) (node : Node) : Prop :=
  ∀ order order' clock clock' outcome outcome', Iterates order node → Iterates order' node →
    EventsVC.fetchCompletion formatter clock order = some outcome →
    EventsVC.fetchCompletion formatter clock' order' = some outcome' →
    outcome.cached = outcome'.cached

/-- Records that are stored alike under one key. -/
structure SameEvent (formatter : DateFormatter) (r r' : Record) : Prop where
  name : r.lookup "name" = r'.lookup "name"
  date : (readDate formatter r).map (DateFormatter.string .hh) =
    (readDate formatter r').map (DateFormatter.string .hh)
  isDone : r.lookup "isDone" = r'.lookup "isDone"
  notify : r.lookup "notify" = r'.lookup "notify"

structure SameDigitSameEvent [Unicode] (formatter : DateFormatter) (node : Node) : Prop where
  dates : ∀ k r, node.lookup k = some r → (readDate formatter r).isSome
  agree : ∀ k r k' r', node.lookup k = some r → node.lookup k' = some r' →
    (characters k).head? = (characters k').head? → SameEvent formatter r r'

section Decoded
variable {k k' : String} {r r' : Record} {e e' : Event}

theorem key_eq_iff_of_event [Unicode] (h : EventParser.event formatter (k, r) = some e)
    (h' : EventParser.event formatter (k', r') = some e') :
    EventParser.key e = EventParser.key e' ↔ (characters k).head? = (characters k').head? := by
  obtain ⟨⟨c, hc, hn⟩, -⟩ := (EventParser.event_eq_some_iff k r e).mp h
  obtain ⟨⟨c', hc', hn'⟩, -⟩ := (EventParser.event_eq_some_iff k' r' e').mp h'
  rw [hc, hc', Option.some.injEq]
  constructor
  · intro hkey
    have hprinted := characters_toString_of_intOfCharacter hn
    rw [EventParser.key_injective hkey, characters_toString_of_intOfCharacter hn'] at hprinted
    simpa using hprinted.symm
  · rintro rfl
    exact EventParser.key_eq_of_number (Option.some.inj (hn.symm.trans hn'))

theorem record_eq_of_sameEvent [Unicode] (h : EventParser.event formatter (k, r) = some e)
    (h' : EventParser.event formatter (k', r') = some e') (hdate : (readDate formatter r).isSome)
    (hnumber : e.number = e'.number) (hsame : SameEvent formatter r r') :
    EventParser.record clock e = EventParser.record clock e' := by
  obtain ⟨hname, hread, hdone, hnotify⟩ := fields_of_event h
  obtain ⟨hname', hread', hdone', hnotify'⟩ := fields_of_event h'
  obtain ⟨hsameName, hsameDate, hsameDone, hsameNotify⟩ := hsame
  rw [hname, hname', Option.some.injEq] at hsameName
  rw [hdone, hdone', Option.some.injEq] at hsameDone
  rw [hnotify, hnotify', Option.some.injEq] at hsameNotify
  rw [hread] at hdate
  obtain ⟨d, hd⟩ := Option.isSome_iff_exists.mp hdate
  rw [hread, hread', hd, Option.map_some] at hsameDate
  obtain ⟨d', hd', hprinted⟩ := Option.map_eq_some_iff.mp hsameDate.symm
  simp only [EventParser.record, EventParser.texts, hd, hd', Option.getD_some, hsameName,
    hsameDone, hsameNotify, hnumber, hprinted]

theorem sameEvent_of_record_eq [Unicode] (h : EventParser.event formatter (k, r) = some e)
    (h' : EventParser.event formatter (k', r') = some e') (hdate : (readDate formatter r).isSome)
    (hdate' : (readDate formatter r').isSome)
    (hrecord : EventParser.record clock e = EventParser.record clock e') :
    SameEvent formatter r r' := by
  obtain ⟨hname, hread, hdone, hnotify⟩ := fields_of_event h
  obtain ⟨hname', hread', hdone', hnotify'⟩ := fields_of_event h'
  obtain ⟨hstoredName, hstoredDate, hstoredDone, hstoredNotify, -⟩ :=
    EventParser.lookup_record clock e
  obtain ⟨hstoredName', hstoredDate', hstoredDone', hstoredNotify', -⟩ :=
    EventParser.lookup_record clock e'
  rw [hread] at hdate
  rw [hread'] at hdate'
  obtain ⟨d, hd⟩ := Option.isSome_iff_exists.mp hdate
  obtain ⟨d', hd'⟩ := Option.isSome_iff_exists.mp hdate'
  rw [hrecord] at hstoredName hstoredDate hstoredDone hstoredNotify
  constructor
  · rw [hname, hname', ← hstoredName, hstoredName']
  · rw [hread, hread', hd, hd', Option.map_some, Option.map_some]
    rw [hd, Option.getD_some] at hstoredDate
    rw [hd', Option.getD_some] at hstoredDate'
    rw [← hstoredDate, hstoredDate']
  · rw [hdone, hdone', ← hstoredDone, hstoredDone']
  · rw [hnotify, hnotify', ← hstoredNotify, hstoredNotify']

end Decoded

theorem exists_event_fetchCompletion [Unicode] (clock : Event → Date)
    {order : List (String × Record)}
    {data : List Event} (hdata : EventParser.parse formatter order = some data) :
    EventsVC.fetchCompletion formatter clock order =
      some ⟨⟨data, data⟩, some (EventParser.unparse clock data), [], []⟩ := by
  simp [EventsVC.fetchCompletion, hdata]

theorem string_hh_ne (formatter : DateFormatter) :
    ∃ d d', DateFormatter.string .hh d ≠ DateFormatter.string .hh d' := by
  refine ⟨newYear, { newYear with minute := 1 }, ?_⟩
  intro hsame
  have hread := formatter.date_string .hh newYear
  rw [hsame, formatter.date_string] at hread
  revert hread
  decide

/-- An event without a date is stored with the clock of the client that fetches it last. -/
theorem date_of_eventFetchersAgree [Unicode] {node : Node}
    (hall : Entries (fun k r => (EventParser.event formatter (k, r)).isSome) node)
    (h : EventFetchersAgree formatter node) {k : String} {r : Record}
    (hr : node.lookup k = some r) : (readDate formatter r).isSome := by
  obtain ⟨order, horder⟩ := exists_iterates_append hr
  obtain ⟨data, hdata⟩ := Option.isSome_iff_exists.mp (horder.isSome_mapM_iff.mpr hall)
  obtain ⟨e, he⟩ := Option.isSome_iff_exists.mp (hall k r hr)
  have hread := (fields_of_event he).2.1
  rw [Option.isSome_iff_ne_none, hread]
  intro hnone
  obtain ⟨d, d', hne⟩ := string_hh_ne formatter
  have hcached := h _ _ (fun _ => d) (fun _ => d') _ _ horder horder
    (exists_event_fetchCompletion _ hdata) (exists_event_fetchCompletion _ hdata)
  have hlast : ∀ clock, (EventParser.unparse clock data).lookup (EventParser.key e) =
      some (EventParser.record clock e) := fun clock => lookup_encode_of_mapM_append hdata he
  have hrecord := hlast fun _ => d
  rw [Option.some.inj hcached, hlast fun _ => d', Option.some.injEq] at hrecord
  have hdate := (EventParser.lookup_record (fun _ => d) e).2.1
  rw [← hrecord, (EventParser.lookup_record (fun _ => d') e).2.1, hnone, Option.getD_none,
    Option.getD_none, Option.some.injEq] at hdate
  exact hne hdate.symm

/-- Clients agree on what they cache exactly when every date can be read and no two keys with
the same first digit hold different events. -/
theorem eventFetchersAgree_iff [Unicode] (formatter : DateFormatter) {node : Node}
    (hall : Entries (fun k r => (EventParser.event formatter (k, r)).isSome) node) :
    EventFetchersAgree formatter node ↔ SameDigitSameEvent formatter node := by
  constructor
  · intro h
    have hdates : ∀ k r, node.lookup k = some r → (readDate formatter r).isSome :=
      fun k r hr => date_of_eventFetchersAgree hall h hr
    refine ⟨hdates, ?_⟩
    intro k r k' r' hr hr' hhead
    have horders : OrderIndependent (EventParser.event formatter) EventParser.key
        (EventParser.record fun _ => newYear) node := by
      intro order order' data data' horder horder' hdata hdata'
      exact Option.some.inj (h _ _ _ _ _ _ horder horder' (exists_event_fetchCompletion _ hdata)
        (exists_event_fetchCompletion _ hdata'))
    obtain ⟨e, he⟩ := Option.isSome_iff_exists.mp (hall k r hr)
    obtain ⟨e', he'⟩ := Option.isSome_iff_exists.mp (hall k' r' hr')
    have hrecord := (orderIndependent_iff hall).mp horders k r k' r' e e' hr hr' he he'
      ((key_eq_iff_of_event he he').mpr hhead)
    exact sameEvent_of_record_eq he he' (hdates k r hr) (hdates k' r' hr') hrecord
  · intro h order order' clock clock' outcome outcome' horder horder' hcompletion hcompletion'
    obtain ⟨hparse, hcached, -⟩ := EventsVC.fetchCompletion_eq_some hcompletion
    obtain ⟨hparse', hcached', -⟩ := EventsVC.fetchCompletion_eq_some hcompletion'
    have hagree : EntriesAgree (EventParser.event formatter) EventParser.key
        (EventParser.record clock) node := by
      intro k r k' r' e e' hr hr' he he' hkey
      have hhead := (key_eq_iff_of_event he he').mp hkey
      exact record_eq_of_sameEvent he he' (h.dates k r hr) (EventParser.key_injective hkey)
        (h.agree k r k' r' hr hr' hhead)
    have horders := (orderIndependent_iff hall).mpr hagree _ _ _ _ horder horder' hparse hparse'
    have hclocks : EventParser.unparse clock outcome'.controller.dataBase =
        EventParser.unparse clock' outcome'.controller.dataBase := by
      apply EventParser.unparse_eq_of_dates
      intro e he
      obtain ⟨k, r, hr, hevent⟩ := (horder'.mem_decoded_iff hparse' e).mp he
      rw [← (fields_of_event hevent).2.1]
      exact h.dates k r hr
    rw [hcached, hcached', ← hclocks]
    exact congrArg some horders

/-- Events 1 and 12 are read as one, and each client keeps the one it happens to read last. -/
theorem not_eventFetchersAgree_crowded : ¬ EventFetchersAgree .gregorian
    (EventParser.unparse (fun _ => newYear) [exam, sampleEvent "Concert" 12 13]) := by
  have hall : Entries (fun k r => (EventParser.event .gregorian (k, r)).isSome)
      (EventParser.unparse (fun _ => newYear) [exam, sampleEvent "Concert" 12 13]) := by
    apply entries_encode
    intro e he
    have hnumber : 0 ≤ e.number := by
      rcases List.mem_pair.mp he with rfl | rfl
      · decide
      · decide
    exact (EventParser.isSome_event_iff _ _).mpr
      ⟨EventParser.startsWithDigit_key hnumber, EventParser.complete_record _ e⟩
  have hstored : ∀ e ∈ [exam, sampleEvent "Concert" 12 13],
      (EventParser.unparse (fun _ => newYear) [exam, sampleEvent "Concert" 12 13]).lookup
        (EventParser.key e) = some (EventParser.record (fun _ => newYear) e) :=
    fun e he => lookup_encode_of_mem _ _ (by decide) he
  intro h
  have hsame := ((eventFetchersAgree_iff .gregorian hall).mp h).agree _ _ _ _
    (hstored exam (by simp)) (hstored (sampleEvent "Concert" 12 13) (by simp)) (by decide)
  have hname := hsame.name
  rw [(EventParser.lookup_record _ _).1, (EventParser.lookup_record _ _).1] at hname
  revert hname
  decide

end Studkurator
