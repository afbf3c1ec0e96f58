import Studkurator.Controller.DetailEventTVC
import Studkurator.Controller.EventsVC
import Studkurator.Controller.GroupRows

/-!
# Incremental writes and re-encoded lists

On the server a deletion removes one key and a mark sets one leaf, while the cached
dictionary is encoded anew from the list in memory. Both ways lead to the same
dictionary as long as the numbers in the list are distinct.
-/

namespace Studkurator

open Dictionary Transition

set_option autoImplicit false

/-- The server and the cache both hold the encoded list of the controller. -/
structure InStep {σ α : Type} (dataBase : σ → List α) (unparse : List α → Node)
    (s : Session σ) : Prop where
  remote : s.remote = unparse (dataBase s.controller)
  cached : s.cached = unparse (dataBase s.controller)

theorem nodup_map_eraseIdx {α β : Type*} {f : α → β} {l : List α} (h : (l.map f).Nodup) (i : ℕ) :
    ((l.eraseIdx i).map f).Nodup :=
  ((List.eraseIdx_sublist l i).map f).nodup h

namespace GroupVC

structure Synced (s : Session GroupVC) : Prop where
  nodup : (s.controller.dataBase.map Student.number).Nodup
  inStep : InStep GroupVC.dataBase Parser.unparse s

theorem synced_step [Unicode] {lower : Char → List Char} (s : Session GroupVC) (a : TableAction)
    (t : Session GroupVC) (hs : Synced s) (h : TableStep lower s a t) : Synced t := by
  obtain ⟨hnodup, hremote, hcached⟩ := hs
  cases h with
  | search hsearch =>
    have hsame := updateSearchResults_dataBase hsearch
    refine ⟨?_, ?_, ?_⟩ <;> rwa [hsame]
  | @delete row outcome hdelete =>
    obtain ⟨student, displayed, hstudent, -, rfl⟩ := delete_eq_some_iff.mp hdelete
    obtain ⟨hrow, rfl⟩ := List.getElem?_eq_some_iff.mp hstudent
    refine ⟨nodup_map_eraseIdx hnodup row, ?_, rfl⟩
    simp only [Session.perform, List.foldl_cons, List.foldl_nil, RemoteWrite.apply, hremote]
    exact erase_encode _ _ (Parser.nodup_keys hnodup) hrow

end GroupVC

namespace EventParser
variable {clock clock' : Event → Date}

theorem record_eq_of_date {e : Event} (h : e.date.isSome) : record clock e = record clock' e := by
  obtain ⟨d, hd⟩ := Option.isSome_iff_exists.mp h
  simp only [record, texts, hd, Option.getD_some]

theorem unparse_eq_of_dates {data : List Event} (h : ∀ e ∈ data, e.date.isSome) :
    unparse clock data = unparse clock' data :=
  encode_congr _ _ fun e he => record_eq_of_date (h e he)

theorem insert_isDone_record {e : Event} (h : e.date.isSome) :
    (record clock e).insert "isDone" "true" = record clock { e with isDone := true } := by
  obtain ⟨d, hd⟩ := Option.isSome_iff_exists.mp h
  apply Finmap.ext_lookup
  intro field
  apply Option.ext
  intro value
  by_cases hfield : field = "isDone"
  · subst hfield
    rw [Finmap.lookup_insert, lookup_record_eq_some_iff]
    simp only [texts, List.mem_cons, Prod.mk.injEq, String.reduceEq, false_and, true_and,
      false_or, or_false, List.not_mem_nil, Option.some.injEq]
    exact eq_comm
  · rw [Finmap.lookup_insert_of_ne _ hfield, lookup_record_eq_some_iff,
      lookup_record_eq_some_iff]
    simp [texts, hd, hfield]

end EventParser

structure SyncedEvents {σ : Type} (dataBase : σ → List Event) (s : Session σ) : Prop where
  nodup : ((dataBase s.controller).map Event.number).Nodup
  dates : ∀ e ∈ dataBase s.controller, e.date.isSome
  inStep : ∃ clock, InStep dataBase (EventParser.unparse clock) s

theorem SyncedEvents.inStep_at {σ : Type} {dataBase : σ → List Event} {s : Session σ}
    (h : SyncedEvents dataBase s) (clock : Event → Date) :
    InStep dataBase (EventParser.unparse clock) s := by
  obtain ⟨clock', hremote, hcached⟩ := h.inStep
  have hclock : EventParser.unparse clock' (dataBase s.controller) =
      EventParser.unparse clock (dataBase s.controller) :=
    EventParser.unparse_eq_of_dates h.dates
  exact ⟨hremote.trans hclock, hcached.trans hclock⟩

namespace EventsVC

theorem synced_step [Unicode] {lower : Char → List Char} (s : Session EventsVC) (a : TableAction)
    (t : Session EventsVC) (hs : SyncedEvents EventsVC.dataBase s) (h : TableStep lower s a t) :
    SyncedEvents EventsVC.dataBase t := by
  have hinStep := hs.inStep_at
  obtain ⟨hnodup, hdates, clock₀, hremote, hcached⟩ := hs
  cases h with
  | @search text =>
    have hsame := updateSearchResults_dataBase lower s.controller text
    refine ⟨by rwa [hsame], by rwa [hsame], clock₀, ?_, ?_⟩ <;> rwa [hsame]
  | @delete clock row outcome hdelete =>
    obtain ⟨event, displayed, hevent, -, rfl⟩ := delete_eq_some_iff.mp hdelete
    obtain ⟨hrow, rfl⟩ := List.getElem?_eq_some_iff.mp hevent
    have hnodup' := nodup_map_eraseIdx hnodup row
    have hdates' : ∀ e ∈ s.controller.dataBase.eraseIdx row, e.date.isSome :=
      fun e he => hdates e (List.mem_of_mem_eraseIdx he)
    refine ⟨hnodup', hdates', clock, ?_, rfl⟩
    simp only [Session.perform, List.foldl_cons, List.foldl_nil, RemoteWrite.apply,
      (hinStep clock).remote]
    exact erase_encode _ _ (EventParser.nodup_keys hnodup) hrow

end EventsVC

namespace DetailEventTVC

theorem dates_markDone {number : ℤ} {data : List Event} (h : ∀ e ∈ data, e.date.isSome) :
    ∀ e ∈ markDone number data, e.date.isSome := by
  intro e he
  obtain ⟨e', he', rfl⟩ := List.mem_map.mp he
  have hdate := h e' he'
  split <;> exact hdate

theorem setLeaf_unparse {clock : Event → Date} {data : List Event} {event : Event}
    (hnodup : (data.map Event.number).Nodup) (hdates : ∀ e ∈ data, e.date.isSome)
    (hevent : event.number ∈ data.map Event.number) :
    RemoteWrite.apply (EventParser.unparse clock data)
        (.setLeaf (EventParser.key event) "isDone" "true") =
      EventParser.unparse clock (markDone event.number data) := by
  obtain ⟨e, he, hnumber⟩ := List.mem_map.mp hevent
  have hkey : EventParser.key event = EventParser.key e :=
    EventParser.key_eq_of_number hnumber.symm
  have hlookup := lookup_encode_of_mem EventParser.key (EventParser.record clock)
    (EventParser.nodup_keys hnodup) he
  have hmarked : EventParser.record clock
      (if e.number = event.number then { e with isDone := true } else e) =
        (EventParser.record clock e).insert "isDone" "true" := by
    rw [if_pos hnumber, EventParser.insert_isDone_record (hdates e he)]
  rw [hkey, RemoteWrite.apply, EventParser.unparse, hlookup, Option.getD_some, ← hmarked]
  apply insert_encode_eq_encode_map _ _ (EventParser.nodup_keys hnodup) _ he
  · intro e' _ hne
    have hother : e'.number ≠ event.number :=
      fun heq => hne (EventParser.key_eq_of_number (heq.trans hnumber.symm))
    rw [if_neg hother]
  · intro e' _
    split <;> rfl

theorem synced_step (s : Session DetailEventTVC) (a : Event) (t : Session DetailEventTVC)
    (hs : SyncedEvents DetailEventTVC.dataBase s) (h : MarkStep s a t) :
    SyncedEvents DetailEventTVC.dataBase t := by
  have hinStep := hs.inStep_at
  obtain ⟨hnodup, hdates, -⟩ := hs
  cases h with
  | @mark clock _ hevent =>
    have hnodup' : ((markDone a.number s.controller.dataBase).map Event.number).Nodup := by
      rwa [map_number_markDone]
    have hdates' : ∀ e ∈ markDone a.number s.controller.dataBase, e.date.isSome :=
      dates_markDone hdates
    refine ⟨hnodup', hdates', clock, ?_, rfl⟩
    simp only [Session.perform, mark, List.foldl_cons, List.foldl_nil, (hinStep clock).remote]
    exact setLeaf_unparse hnodup hdates hevent

/-- On the server the mark sets one leaf of a record that is there; in memory it sets the
flag of the event with that number. -/
structure MarksOnly (event : Event) (s t : Session DetailEventTVC) : Prop where
  screen : t.controller.event = s.controller.event
  dataBase : t.controller.dataBase = s.controller.dataBase.map fun e =>
    if e.number = event.number then { e with isDone := true } else e
  record : ∃ r, s.remote.lookup (EventParser.key event) = some r ∧
    t.remote.lookup (EventParser.key event) = some (r.insert "isDone" "true")
  others : ∀ k, k ≠ EventParser.key event → t.remote.lookup k = s.remote.lookup k

theorem marksOnly_of_step {s t : Session DetailEventTVC} {event : Event}
    (hs : SyncedEvents DetailEventTVC.dataBase s) (h : MarkStep s event t) :
    MarksOnly event s t := by
  cases h with
  | @mark clock _ hevent =>
    obtain ⟨e, he, hnumber⟩ := List.mem_map.mp hevent
    have hlookup := lookup_encode_of_mem EventParser.key (EventParser.record clock)
      (EventParser.nodup_keys hs.nodup) he
    have hkey : EventParser.key event = EventParser.key e :=
      EventParser.key_eq_of_number hnumber.symm
    rw [← hkey] at hlookup
    have hremote : s.remote.lookup (EventParser.key event) =
        some (EventParser.record clock e) := by
      rw [(hs.inStep_at clock).remote]
      exact hlookup
    refine ⟨rfl, rfl, ⟨_, hremote, ?_⟩, ?_⟩
    · simp [Session.perform, mark, RemoteWrite.apply, hremote]
    · intro k hk
      exact Finmap.lookup_insert_of_ne _ hk

theorem mark_twice {s t u : Session DetailEventTVC} {event : Event}
    (hs : SyncedEvents DetailEventTVC.dataBase s) (ht : MarkStep s event t)
    (hu : MarkStep t event u) : u = t := by
  have hsynced := synced_step s event t hs ht
  have hsynced' := synced_step t event u hsynced hu
  have hcontroller : u.controller = t.controller := by
    cases ht with
    | mark =>
      cases hu with
      | mark => simp only [Session.perform, mark, markDone_markDone]
  obtain ⟨clock, hremote, hcached⟩ := hsynced.inStep
  have hinStep := hsynced'.inStep_at clock
  rw [← hcontroller] at hremote hcached
  exact Session.ext hcontroller (hinStep.remote.trans hremote.symm)
    (hinStep.cached.trans hcached.symm)

end DetailEventTVC

/-- After any sequence of mutations of any of the three controllers the server, the cache
and the encoded list are the same; a mark changes one flag, and no more the second time. -/
theorem incremental_eq_reencoded [Unicode] (lower : Char → List Char) :
    (∀ s path t, GroupVC.Synced s → Path (GroupVC.TableStep lower) s path t →
      InStep GroupVC.dataBase Parser.unparse t) ∧
    (∀ s path t, SyncedEvents EventsVC.dataBase s → Path (EventsVC.TableStep lower) s path t →
      ∀ clock, InStep EventsVC.dataBase (EventParser.unparse clock) t) ∧
    (∀ s path t, SyncedEvents DetailEventTVC.dataBase s →
      Path DetailEventTVC.MarkStep s path t →
      ∀ clock, InStep DetailEventTVC.dataBase (EventParser.unparse clock) t) ∧
    (∀ s event t, SyncedEvents DetailEventTVC.dataBase s → DetailEventTVC.MarkStep s event t →
      DetailEventTVC.MarksOnly event s t ∧ ∀ u, DetailEventTVC.MarkStep t event u → u = t) := by
  refine ⟨?_, ?_, ?_, ?_⟩
  · intro s path t hs hpath
    exact (hpath.invariant GroupVC.synced_step hs).inStep
  · intro s path t hs hpath
    exact (hpath.invariant EventsVC.synced_step hs).inStep_at
  · intro s path t hs hpath
    exact (hpath.invariant DetailEventTVC.synced_step hs).inStep_at
  · intro s event t hs hmark
    exact ⟨DetailEventTVC.marksOnly_of_step hs hmark,
      fun u hu => DetailEventTVC.mark_twice hs hmark hu⟩

def EventsVC.openedPair : Session EventsVC :=
  ⟨⟨[exam, trip], [exam, trip]⟩, EventParser.unparse (fun _ => newYear) [exam, trip],
    EventParser.unparse (fun _ => newYear) [exam, trip]⟩

/-- The detail screen of the exam, on the same list. -/
def DetailEventTVC.openedExam : Session DetailEventTVC :=
  { EventsVC.openedPair with controller := ⟨exam, [exam, trip]⟩ }

theorem incremental_eq_reencoded_pair :
    (∃ path t, path.map Taken.act = [.search "IV", .delete 0] ∧
      Path (GroupVC.TableStep latinLower)
        (GroupVC.fetchedPair [sampleStudent "Ivan" 1, sampleStudent "Olena" 2]) path t ∧
      InStep GroupVC.dataBase Parser.unparse t) ∧
    (∃ path t, path.map Taken.act = [.delete 1, .search "EX", .delete 0] ∧
      Path (EventsVC.TableStep latinLower) EventsVC.openedPair path t ∧
      InStep EventsVC.dataBase (EventParser.unparse fun _ => newYear) t) ∧
    (∃ path t, path.map Taken.act = [trip, exam] ∧
      Path DetailEventTVC.MarkStep DetailEventTVC.openedExam path t ∧
      InStep DetailEventTVC.dataBase (EventParser.unparse fun _ => newYear) t) ∧
    ∃ t, DetailEventTVC.MarkStep DetailEventTVC.openedExam exam t ∧
      DetailEventTVC.MarksOnly exam DetailEventTVC.openedExam t ∧
      ∀ u, DetailEventTVC.MarkStep t exam u → u = t := by
  obtain ⟨hroster, hevents, hmarks, hmark⟩ := incremental_eq_reencoded latinLower
  have hsynced : SyncedEvents DetailEventTVC.dataBase DetailEventTVC.openedExam :=
    ⟨by decide, by decide, _, rfl, rfl⟩
  have hstep : ∀ (s : Session DetailEventTVC) (event : Event),
      event.number ∈ s.controller.dataBase.map Event.number →
      DetailEventTVC.MarkStep s event (s.perform (s.controller.mark (fun _ => newYear) event)) :=
    fun _ _ hevent => .mark hevent
  refine ⟨?_, ?_, ?_, ?_⟩
  · have hfound : GroupVC.updateSearchResults latinLower
        ⟨[sampleStudent "Ivan" 1, sampleStudent "Olena" 2],
          [sampleStudent "Ivan" 1, sampleStudent "Olena" 2]⟩ "IV" =
          some ⟨[sampleStudent "Ivan" 1, sampleStudent "Olena" 2], [sampleStudent "Ivan" 1]⟩ := by
      decide
    have hsearch : GroupVC.TableStep latinLower (GroupVC.fetchedPair _) (.search "IV") _ :=
      .search hfound
    have hpath := (Path.single hsearch).snoc (a := .delete 0)
      (.delete (GroupVC.delete_eq_some_iff.mpr ⟨_, _, rfl, rfl, rfl⟩))
    exact ⟨_, _, rfl, hpath, hroster _ _ _ ⟨by decide, rfl, rfl⟩ hpath⟩
  · have hlast : EventsVC.delete (fun _ => newYear) ⟨[exam, trip], [exam, trip]⟩ 1 = some _ := rfl
    have hsearch : EventsVC.updateSearchResults latinLower ⟨[exam], [exam]⟩ "EX" =
        ⟨[exam], [exam]⟩ := by
      decide
    have hfirst : EventsVC.delete (fun _ => newYear) ⟨[exam], [exam]⟩ 0 = some _ := rfl
    rw [← hsearch] at hfirst
    have hdelete : EventsVC.TableStep latinLower EventsVC.openedPair (.delete 1) _ :=
      .delete hlast
    have hpath := ((Path.single hdelete).snoc (a := .search "EX") .search).snoc (.delete hfirst)
    exact ⟨_, _, rfl, hpath, hevents _ _ _ ⟨by decide, by decide, _, rfl, rfl⟩ hpath _⟩
  · have hpath := (Path.single (hstep DetailEventTVC.openedExam trip (by decide))).snoc
      (hstep _ exam (by decide))
    exact ⟨_, _, rfl, hpath, hmarks _ _ _ hsynced hpath _⟩
  · have hexam := hstep DetailEventTVC.openedExam exam (by decide)
    exact ⟨_, hexam, hmark _ _ _ hsynced hexam⟩

end Studkurator
