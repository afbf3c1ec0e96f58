import Mathlib.Order.Lattice.Nat
import Studkurator.System.EventCompleteness
import Studkurator.System.RosterCycles

/-!
# Events changed on what was just fetched

One device fetches the events and then saves a new one, deletes a listed one or marks it. A
save stores the whole list again, so every index becomes its leading digit, and adds the one
after the greatest; a deletion and a mark act on the key that the shown number stands for.
-/

namespace Studkurator

open Decimal Dictionary Transition

set_option autoImplicit false

variable {formatter : DateFormatter} {lower : Char → List Char}

inductive TurnAction where
  | save
  | delete (number : ℕ)
  | mark (number : ℕ)

/-- The screen that is opened shows what its fetch has found, or nothing if there is nothing. -/
inductive EventFetches [Unicode] (formatter : DateFormatter) (lower : Char → List Char) :
    Node × EventDevice → Node × EventDevice → Prop where
  | found {s s₁ s₂ t : Node × EventDevice} {clock : Event → Date} :
      EventDevice.Step formatter lower s .eventsLoad s₁ →
      EventDevice.Step formatter lower s₁ (.answer s.2.screens.length) s₂ →
      EventDevice.Step formatter lower s₂ (.complete s.2.screens.length clock) t →
      EventFetches formatter lower s t
  | missing {s s₁ s₂ t : Node × EventDevice} :
      EventDevice.Step formatter lower s .eventsLoad s₁ →
      EventDevice.Step formatter lower s₁ (.answer s.2.screens.length) s₂ →
      EventDevice.Step formatter lower s₂ (.giveUp s.2.screens.length) t →
      EventFetches formatter lower s t

inductive EventTurn [Unicode] (formatter : DateFormatter) (lower : Char → List Char) :
    Node × EventDevice → TurnAction → Node × EventDevice → Prop where
  | save {s fetched opened t : Node × EventDevice} {entered : EventForm} {clock : Event → Date} :
      EventFetches formatter lower s fetched →
      EventDevice.Step formatter lower fetched .openNew opened →
      EventDevice.Step formatter lower opened (.save s.2.forms.length entered clock) t →
      EventTurn formatter lower s .save t
  | delete {s fetched t : Node × EventDevice} {row : ℕ} {clock : Event → Date}
      {screen : Screen EventsVC} {event : Event} :
      EventFetches formatter lower s fetched →
      fetched.2.screens[s.2.screens.length]? = some screen →
      screen.vc.dataBase[row]? = some event →
      EventDevice.Step formatter lower fetched (.delete s.2.screens.length row clock) t →
      EventTurn formatter lower s (.delete event.number.toNat) t
  | mark {s fetched opened t : Node × EventDevice} {row : ℕ} {clock : Event → Date}
      {vc : DetailEventTVC} :
      EventFetches formatter lower s fetched →
      EventDevice.Step formatter lower fetched (.openDetail s.2.screens.length row) opened →
      opened.2.details[s.2.details.length]? = some vc →
      EventDevice.Step formatter lower opened (.mark s.2.details.length clock) t →
      EventTurn formatter lower s (.mark vc.event.number.toNat) t

/-- What a turn makes of the indices of the events. -/
def TurnAction.indices (indices : Finset ℕ) : TurnAction → Finset ℕ
  | save => insert ((indices.image leadingDigit).sup id + 1) (indices.image leadingDigit)
  | delete number => indices.erase number
  | mark number => insert number indices

def eventNumbers (data : List Event) : Finset ℕ := (data.map fun e => e.number.toNat).toFinset

section Numbers
variable {data : List Event} {clock : Event → Date} {indices : Finset ℕ}

theorem EventParser.key_eq_indexKey {e : Event} (h : 0 ≤ e.number) :
    EventParser.key e = indexKey e.number.toNat := by
  rw [indexKey_eq, EventParser.key, Int.toNat_of_nonneg h]

theorem keys_unparse_events (clock : Event → Date) (hdata : ∀ e ∈ data, 0 ≤ e.number) :
    (EventParser.unparse clock data).keys = (eventNumbers data).image indexKey := by
  have hkeys : data.map EventParser.key = (data.map fun e => e.number.toNat).map indexKey := by
    rw [List.map_map]
    exact List.map_congr_left fun e he => EventParser.key_eq_indexKey (hdata e he)
  rw [EventParser.unparse, keys_encode, hkeys]
  ext k
  simp [eventNumbers]

theorem maxNumber_eq_sup (data : List Event) :
    NewEventTVC.maxNumber data = ((eventNumbers data).sup id : ℕ) := by
  have hle : (eventNumbers data).sup id ≤ (NewEventTVC.maxNumber data).toNat := by
    apply Finset.sup_le
    intro n hn
    obtain ⟨e, he, rfl⟩ := List.mem_map.mp (List.mem_toFinset.mp hn)
    exact Int.toNat_le_toNat (NewEventTVC.le_maxNumber he)
  have hge : (NewEventTVC.maxNumber data).toNat ≤ (eventNumbers data).sup id := by
    rcases NewEventTVC.maxNumber_eq_zero_or_mem data with hzero | ⟨e, he, hmax⟩
    · simp [hzero]
    · rw [← hmax]
      exact Finset.le_sup (f := id) (List.mem_toFinset.mpr (List.mem_map_of_mem he))
  have hnonneg := NewEventTVC.maxNumber_nonneg data
  omega

theorem eventNumbers_append (data : List Event) (e : Event) :
    eventNumbers (data ++ [e]) = insert e.number.toNat (eventNumbers data) := by
  ext n
  simp [eventNumbers]

theorem numbers_of_newEvent {vc : NewEventTVC} {form : EventForm} {event : Event}
    (h : NewEventTVC.newEvent formatter vc form = some event) :
    0 ≤ event.number ∧ eventNumbers (vc.dataBase ++ [event]) =
      insert ((eventNumbers vc.dataBase).sup id + 1) (eventNumbers vc.dataBase) := by
  have hnumber := NewEventTVC.number_newEvent h
  rw [maxNumber_eq_sup] at hnumber
  refine ⟨by omega, ?_⟩
  have htoNat : event.number.toNat = (eventNumbers vc.dataBase).sup id + 1 := by omega
  rw [eventNumbers_append, htoNat]

theorem unparse_append_ne_empty (clock : Event → Date) (data : List Event) (e : Event) :
    EventParser.unparse clock (data ++ [e]) ≠ ∅ := by
  intro hempty
  have hmem : EventParser.key e ∈ EventParser.unparse clock (data ++ [e]) :=
    (mem_encode_iff _ _ _ _).mpr (by simp)
  rw [hempty] at hmem
  exact Finmap.notMem_empty hmem

/-- Decoding takes every index for its leading digit. -/
theorem eventNumbers_of_parse [Unicode] {node : Node} (hkeys : node.keys = indices.image indexKey)
    {order : List (String × Record)} (horder : Iterates order node)
    (hdata : EventParser.parse formatter order = some data) :
    eventNumbers data = indices.image leadingDigit := by
  have hdigit : ∀ i r e, EventParser.event formatter (indexKey i, r) = some e →
      e.number.toNat = leadingDigit i := by
    intro i r e he
    obtain ⟨⟨c, hc, hnumber⟩, -⟩ := (EventParser.event_eq_some_iff _ r e).mp he
    obtain ⟨c', hc', hread⟩ := head_indexKey i
    obtain rfl : c = c' := Option.some.inj (hc.symm.trans hc')
    rw [hread] at hnumber
    rw [← Option.some.inj hnumber, Int.toNat_natCast]
  ext n
  rw [eventNumbers, List.mem_toFinset, List.mem_map, Finset.mem_image]
  constructor
  · rintro ⟨e, he, rfl⟩
    obtain ⟨k, r, hr, hevent⟩ := (horder.mem_decoded_iff hdata e).mp he
    have hk : k ∈ node.keys := Finmap.mem_keys.mpr (Finmap.mem_of_lookup_eq_some hr)
    rw [hkeys] at hk
    obtain ⟨i, hi, rfl⟩ := Finset.mem_image.mp hk
    exact ⟨i, hi, (hdigit i r e hevent).symm⟩
  · rintro ⟨i, hi, rfl⟩
    have hmem : indexKey i ∈ node := by
      rw [← Finmap.mem_keys, hkeys]
      exact Finset.mem_image_of_mem _ hi
    obtain ⟨r, hr⟩ := Finmap.mem_iff.mp hmem
    have hall := horder.isSome_mapM_iff.mp (Option.isSome_of_mem hdata)
    obtain ⟨e, he⟩ := Option.isSome_iff_exists.mp (hall _ r hr)
    exact ⟨e, (horder.mem_decoded_iff hdata e).mpr ⟨_, r, hr, he⟩, hdigit i r e he⟩

end Numbers

/-- The keys on the server are those of the indices. Where there is nothing to fetch, nothing
but an empty dictionary is cached. -/
structure Turned (indices : Finset ℕ) (s : Node × EventDevice) : Prop where
  keys : s.1.keys = indices.image indexKey
  cached : s.1 = ∅ → ∀ dict, s.2.defaults.lookup "eventDataBase" = some dict → dict = ∅

/-- What a fetch leaves: the list of the new screen and the dictionary a form will read. -/
structure FetchedList (indices : Finset ℕ) (s t : Node × EventDevice) (data : List Event) :
    Prop where
  remote : t.1 = s.1
  screens : t.2.screens = s.2.screens ++ [⟨⟨data, data⟩, .done⟩]
  forms : t.2.forms = s.2.forms
  details : t.2.details = s.2.details
  length : data.length = s.1.keys.card
  nonneg : ∀ e ∈ data, 0 ≤ e.number
  numbers : eventNumbers data = indices.image leadingDigit
  cached : ∀ dict, t.2.defaults.lookup "eventDataBase" = some dict →
    dict.keys = (indices.image leadingDigit).image indexKey
  uncached : t.2.defaults.lookup "eventDataBase" = none → indices = ∅

theorem length_of_parse [Unicode] {node : Node} {order : List (String × Record)} {data : List Event}
    (horder : Iterates order node) (hdata : EventParser.parse formatter order = some data) :
    data.length = node.keys.card := by
  have hmap : data.map (fun _ => ()) = order.map fun _ => () :=
    map_of_mapM hdata fun _ _ _ _ => rfl
  have hlength := congrArg List.length hmap
  rw [List.length_map, List.length_map] at hlength
  rw [hlength, ← horder.2, card_keys_encode Prod.fst Prod.snd horder.1]

theorem turned_of_fetch [Unicode] {indices : Finset ℕ} {remote : Node} {device : EventDevice}
    (hs : Turned indices (remote, device)) {order : List (String × Record)} {data : List Event}
    (horder : Iterates order remote) (hdata : EventParser.parse formatter order = some data)
    (clock : Event → Date) :
    FetchedList indices (remote, device) (remote, { device with
      defaults := device.defaults.store "eventDataBase" (some (EventParser.unparse clock data))
      screens := device.screens ++ [⟨⟨data, data⟩, .done⟩] }) data := by
  have hnonneg := forall_number_nonneg_of_parse hdata
  have hnumbers := eventNumbers_of_parse hs.keys horder hdata
  refine ⟨rfl, rfl, rfl, rfl, length_of_parse horder hdata, hnonneg, hnumbers, ?_, ?_⟩
  · intro dict hdict
    rw [UserDefaults.lookup_store_some] at hdict
    rw [← Option.some.inj hdict, keys_unparse_events clock hnonneg, hnumbers]
  · intro hnone
    rw [UserDefaults.lookup_store_some] at hnone
    cases hnone

theorem fetchedList_missing {indices : Finset ℕ} {device : EventDevice}
    (hs : Turned indices (∅, device)) :
    FetchedList indices (∅, device) (∅, { device with
      screens := device.screens ++ [⟨⟨[], []⟩, .done⟩] }) [] := by
  have hnone : indices = ∅ := Finset.image_eq_empty.mp hs.keys.symm
  refine ⟨rfl, rfl, rfl, rfl, rfl, by simp, by simp [eventNumbers, hnone], ?_, fun _ => hnone⟩
  intro dict hdict
  rw [hs.cached rfl dict hdict, hnone]
  rfl

theorem EventFetches.exists_list [Unicode] {indices : Finset ℕ} {s t : Node × EventDevice}
    (hs : Turned indices s) (h : EventFetches formatter lower s t) :
    ∃ data, FetchedList indices s t data := by
  have hset : ∀ (screens : List (Screen EventsVC)) (screen screen' : Screen EventsVC),
      (screens ++ [screen]).set screens.length screen' = screens ++ [screen'] := by
    simp
  cases h with
  | found hload hanswer hcomplete =>
    cases hload with
    | @eventsLoad remote device =>
      cases hanswer with
      | @answer _ _ _ screen hscreen hfetch =>
        obtain rfl := Option.some.inj (hscreen.symm.trans List.getElem?_concat_length)
        rw [hset] at hcomplete
        cases hcomplete with
        | @complete _ _ _ screen snapshot response _ outcome hscreen hfetch hfound horder
            hcompletion =>
          obtain rfl := Option.some.inj (hscreen.symm.trans List.getElem?_concat_length)
          cases hfetch
          simp only [EventsVC.fetchCompletion, Option.bind_eq_bind, Option.bind_eq_some_iff,
            Option.pure_def, Option.some.injEq] at hcompletion
          obtain ⟨data, hparse, rfl⟩ := hcompletion
          simp only [hset]
          exact ⟨data, turned_of_fetch hs horder hparse _⟩
  | missing hload hanswer hgiveUp =>
    cases hload with
    | @eventsLoad remote device =>
      cases hanswer with
      | @answer _ _ _ screen hscreen hfetch =>
        obtain rfl := Option.some.inj (hscreen.symm.trans List.getElem?_concat_length)
        rw [hset] at hgiveUp
        cases hgiveUp with
        | @giveUp _ _ _ screen hscreen hfetch =>
          obtain rfl := Option.some.inj (hscreen.symm.trans List.getElem?_concat_length)
          simp only [hset]
          cases hfetch
          exact ⟨[], fetchedList_missing hs⟩

theorem image_leadingDigit_of_parse [Unicode] {indices : Finset ℕ} {dict : Node}
    (hkeys : dict.keys = (indices.image leadingDigit).image indexKey)
    {order : List (String × Record)} (horder : Iterates order dict) {data : List Event}
    (hdata : EventParser.parse formatter order = some data) :
    eventNumbers data = indices.image leadingDigit := by
  rw [eventNumbers_of_parse hkeys horder hdata, Indexed.image_leadingDigit_image]

/-- The list of a form that is opened right after a fetch. -/
theorem FetchedList.numbers_of_openNew [Unicode] {indices : Finset ℕ} {s t : Node × EventDevice}
    {data : List Event} (h : FetchedList indices s t data)
    {value : Option (List (String × Record))} {vc : NewEventTVC}
    (hreading : Reading (t.2.defaults.lookup "eventDataBase") value)
    (hload : NewEventTVC.viewDidLoad formatter value = some vc) :
    (∀ e ∈ vc.dataBase, 0 ≤ e.number) ∧ eventNumbers vc.dataBase = indices.image leadingDigit := by
  rcases NewEventTVC.viewDidLoad_eq_some hload with ⟨rfl, hnil⟩ | ⟨order, rfl, hparse⟩
  · have hnone : t.2.defaults.lookup "eventDataBase" = none := by
      cases hlookup : t.2.defaults.lookup "eventDataBase" with
      | none => rfl
      | some dict =>
        rw [hlookup] at hreading
        cases hreading
    rw [hnil, h.uncached hnone]
    exact ⟨by simp, rfl⟩
  · obtain ⟨dict, hdict, horder⟩ := exists_of_reading hreading
    exact ⟨forall_number_nonneg_of_parse hparse,
      image_leadingDigit_of_parse (h.cached dict hdict) horder hparse⟩

theorem turned_save [Unicode] {indices : Finset ℕ} {s t : Node × EventDevice}
    (hs : Turned indices s)
    (h : EventTurn formatter lower s .save t) : Turned (TurnAction.indices indices .save) t := by
  cases h with
  | save hfetches hopen hsave =>
    obtain ⟨data, hlist⟩ := hfetches.exists_list hs
    cases hopen with
    | @openNew remote device value vc hreading hload =>
      obtain ⟨hnonneg, hnumbers⟩ := hlist.numbers_of_openNew hreading hload
      cases hsave with
      | @save _ _ _ vc' _ _ outcome hvc hsave =>
        have hlast : (device.forms ++ [vc])[s.2.forms.length]? = some vc := by
          rw [← hlist.forms]
          exact List.getElem?_concat_length
        obtain rfl : vc' = vc := Option.some.inj (hvc.symm.trans hlast)
        obtain ⟨event, hevent, rfl⟩ := NewEventTVC.saveBtnPressed_eq_some_iff.mp hsave
        obtain ⟨hnew, hstored⟩ := numbers_of_newEvent hevent
        constructor
        · rw [TurnAction.indices, ← hnumbers, ← hstored]
          exact keys_unparse_events _ (forall_mem_concat hnonneg hnew)
        · exact fun hempty => absurd hempty (unparse_append_ne_empty _ _ _)

/-- The last event takes the whole list with it. -/
theorem FetchedList.unparse_eraseIdx_eq_empty {indices : Finset ℕ} {s t : Node × EventDevice}
    {data : List Event} (h : FetchedList indices s t data) {row : ℕ} {event : Event}
    (hevent : data[row]? = some event) {k : String} (hempty : s.1.erase k = ∅)
    (clock : Event → Date) : EventParser.unparse clock (data.eraseIdx row) = ∅ := by
  have hrow := (List.getElem?_eq_some_iff.mp hevent).1
  have hkeys : s.1.keys.erase k = ∅ := by
    rw [← Finmap.keys_erase, hempty]
    rfl
  have hcard : s.1.keys.card ≤ 1 := by
    have hpred := Finset.pred_card_le_card_erase (s := s.1.keys) (a := k)
    rw [hkeys, Finset.card_empty] at hpred
    omega
  have hlength : (data.eraseIdx row).length = 0 := by
    rw [List.length_eraseIdx_of_lt hrow, h.length]
    omega
  rw [List.length_eq_zero_iff.mp hlength]
  rfl

theorem turned_delete [Unicode] {indices : Finset ℕ} {s t : Node × EventDevice} {number : ℕ}
    (hs : Turned indices s) (h : EventTurn formatter lower s (.delete number) t) :
    Turned (indices.erase number) t := by
  cases h with
  | delete hfetches hscreen hevent hdelete =>
    obtain ⟨data, hlist⟩ := hfetches.exists_list hs
    rw [hlist.screens, List.getElem?_concat_length, Option.some.injEq] at hscreen
    subst hscreen
    cases hdelete with
    | @delete remote device _ row screen _ outcome hscreen hdelete =>
      have hlast : device.screens[s.2.screens.length]? = some ⟨⟨data, data⟩, .done⟩ := by
        rw [hlist.screens]
        exact List.getElem?_concat_length
      obtain rfl := Option.some.inj (hscreen.symm.trans hlast)
      obtain ⟨event, displayed, hevent', -, rfl⟩ := EventsVC.delete_eq_some_iff.mp hdelete
      obtain rfl := Option.some.inj (hevent'.symm.trans hevent)
      have hnonneg := hlist.nonneg event (List.mem_of_getElem? hevent)
      have hremote : remote = s.1 := hlist.remote
      subst hremote
      constructor
      · simp only [EventDevice.issue, List.foldl_cons, List.foldl_nil, RemoteWrite.apply]
        rw [Finmap.keys_erase, hs.keys, EventParser.key_eq_indexKey hnonneg,
          Finset.image_erase indexKey_injective]
      · intro hempty dict hdict
        rw [EventDevice.issue, UserDefaults.lookup_store_some] at hdict
        rw [← Option.some.inj hdict]
        exact hlist.unparse_eraseIdx_eq_empty hevent hempty _

theorem turned_mark [Unicode] {indices : Finset ℕ} {s t : Node × EventDevice} {number : ℕ}
    (hs : Turned indices s) (h : EventTurn formatter lower s (.mark number) t) :
    Turned (insert number indices) t := by
  cases h with
  | mark hfetches hopen hdetail hmark =>
    obtain ⟨data, hlist⟩ := hfetches.exists_list hs
    cases hopen with
    | @openDetail remote device _ row screen event value vc hscreen hselect hreading hload =>
      have hlast : device.screens[s.2.screens.length]? = some ⟨⟨data, data⟩, .done⟩ := by
        rw [hlist.screens]
        exact List.getElem?_concat_length
      obtain rfl := Option.some.inj (hscreen.symm.trans hlast)
      have hopened : (device.details ++ [vc])[s.2.details.length]? = some vc := by
        rw [← hlist.details]
        exact List.getElem?_concat_length
      obtain rfl := Option.some.inj (hdetail.symm.trans hopened)
      cases hmark with
      | @mark _ _ _ vc' _ hvc =>
        obtain rfl := Option.some.inj (hvc.symm.trans hopened)
        have hevent := (DetailEventTVC.viewDidLoad_eq_some hload).1
        have hnonneg : 0 ≤ vc'.event.number := by
          rw [hevent]
          exact hlist.nonneg event (List.mem_of_getElem? hselect)
        have hremote : remote = s.1 := hlist.remote
        subst hremote
        constructor
        · simp only [EventDevice.issue, DetailEventTVC.markBtnPressed, DetailEventTVC.mark,
            List.foldl_cons, List.foldl_nil, RemoteWrite.apply]
          rw [keys_insert, hs.keys, EventParser.key_eq_indexKey hnonneg, Finset.image_insert]
        · intro hempty
          have hmem : EventParser.key vc'.event ∈ (∅ : Node) := by
            rw [← hempty]
            exact Finmap.mem_insert.mpr (Or.inl rfl)
          exact absurd hmem Finmap.notMem_empty

/-- The indices of the events after any number of turns follow from what was done alone,
whatever the orders in which the dictionaries are iterated and the clocks. -/
theorem turned_of_turns [Unicode] {indices : Finset ℕ} {s t : Node × EventDevice}
    {path : List (Taken (Node × EventDevice) TurnAction)} (hs : Turned indices s)
    (hpath : Path (EventTurn formatter lower) s path t) :
    Turned ((path.map Taken.act).foldl TurnAction.indices indices) t ∧
      t.1.keys.card = ((path.map Taken.act).foldl TurnAction.indices indices).card := by
  have hturned : Turned ((path.map Taken.act).foldl TurnAction.indices indices) t := by
    induction hpath with
    | nil => exact hs
    | @snoc t u path a _ hstep ih =>
      rw [List.map_append, List.foldl_append]
      cases a with
      | save => exact turned_save ih hstep
      | delete number => exact turned_delete ih hstep
      | mark number => exact turned_mark ih hstep
  refine ⟨hturned, ?_⟩
  rw [hturned.keys, Finset.card_image_of_injective _ indexKey_injective]

/-- A concert gets number 2 next to the exam, which has number 1. -/
theorem turned_of_turns_concert : ∃ t : Node × EventDevice,
    EventTurn .gregorian latinLower (examNode, launchedEvents) .save t ∧
      Turned {2, 1} t ∧ t.1.keys.card = 2 := by
  obtain ⟨hload, hanswer, hcomplete⟩ := steps_fetched .gregorian latinLower
  have hreading : Reading (fetchedEvents.defaults.lookup "eventDataBase")
      (some [(EventParser.key exam, EventParser.record (fun _ => newYear) exam)]) := by
    rw [fetchedEvents, UserDefaults.lookup_store_some]
    exact .some iterates_examNode
  have hform : NewEventTVC.viewDidLoad .gregorian
      (some [(EventParser.key exam, EventParser.record (fun _ => newYear) exam)]) =
        some ⟨[exam]⟩ := by
    simp [NewEventTVC.viewDidLoad, parse_exam]
  obtain ⟨event, hevent⟩ := NewEventTVC.exists_newEvent ⟨[exam]⟩ valid_concertForm
  have hpressed : NewEventTVC.saveBtnPressed .gregorian (fun _ => newYear) ⟨[exam]⟩ _ = some _ :=
    NewEventTVC.saveBtnPressed_eq_some_iff.mpr ⟨event, hevent, rfl⟩
  have hturn : EventTurn .gregorian latinLower (examNode, launchedEvents) .save _ :=
    .save (.found hload hanswer hcomplete) (.openNew hreading hform) (.save rfl hpressed)
  have hstart : Turned {1} (examNode, launchedEvents) := by
    refine ⟨by decide, ?_⟩
    intro hempty
    exact absurd hempty (unparse_append_ne_empty _ [] exam)
  have hresult := turned_of_turns hstart (.single hturn)
  have hindices : TurnAction.indices {1} .save = {2, 1} := by
    rw [TurnAction.indices, Finset.image_singleton, leadingDigit_of_lt (by decide)]
    rfl
  simp only [List.map_singleton, List.foldl_cons, List.foldl_nil, hindices] at hresult
  exact ⟨_, hturn, hresult⟩

end Studkurator
