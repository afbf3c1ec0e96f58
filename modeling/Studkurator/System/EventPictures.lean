import Studkurator.Library.Outstanding
import Studkurator.System.EventSaves

/-!
# Pictures in the storage

Uploads and deletions of pictures are sent to the storage and take effect later, in any
order. The number of a deleted event is given out again, so requests of two events can
meet at one object.
-/

namespace Studkurator

open Dictionary Outstanding Transition

set_option autoImplicit false

/-- An event as it was saved, with the picture that was uploaded for it. -/
structure Addition where
  event : Event
  clock : Event → Date
  picture : List UInt8

namespace Addition

def record (addition : Addition) : Record := EventParser.record addition.clock addition.event

end Addition

/-- `added` remembers, for each key, the event last added there and not deleted since. -/
structure EventStorage where
  device : Node × EventDevice
  objects : Dict String (List UInt8)
  pending : List StorageRequest
  added : String → Option Addition

inductive StorageAction where
  | event (action : EventAction)
  | effect (request : ℕ)

def picturePath (number : ℤ) : String := "imgs/event" ++ toString number ++ ".jpg"

theorem picturePath_injective {m n : ℤ} (h : picturePath m = picturePath n) : m = n := by
  apply Decimal.toString_append_injective ".jpg"
  apply String.toList_inj.mp
  have hlist := congrArg String.toList h
  simpa [picturePath, String.toList_append] using hlist

/-- The actions that write nothing to the server or the storage. -/
def EventAction.SendsNothing : EventAction → Prop
  | delete _ _ _ | save _ _ _ | mark _ _ => False
  | _ => True

theorem EventDevice.Step.remote_of_sendsNothing [Unicode] {formatter : DateFormatter}
    {lower : Char → List Char} {s t : Node × EventDevice} {a : EventAction}
    (h : EventDevice.Step formatter lower s a t) (ha : a.SendsNothing) : t.1 = s.1 := by
  cases h with
  | complete hscreen hfetch hfound horder hcompletion =>
    obtain ⟨-, -, hwrites⟩ := EventsVC.fetchCompletion_eq_some hcompletion
    simp [issue, hwrites]
  | delete => exact ha.elim
  | save => exact ha.elim
  | mark => exact ha.elim
  | _ => rfl

namespace EventStorage

inductive Step [Unicode] (formatter : DateFormatter) (lower : Char → List Char) :
    EventStorage → StorageAction → EventStorage → Prop where
  | device {s : EventStorage} {a : EventAction} {t : Node × EventDevice} :
      a.SendsNothing → EventDevice.Step formatter lower s.device a t →
      Step formatter lower s (.event a) { s with device := t }
  | delete {s : EventStorage} {i row : ℕ} {screen : Screen EventsVC} {event : Event}
      {clock : Event → Date} {outcome : Outcome EventsVC} {t : Node × EventDevice} :
      s.device.2.screens[i]? = some screen → screen.vc.dataBase[row]? = some event →
      screen.vc.delete clock row = some outcome →
      EventDevice.Step formatter lower s.device (.delete i row clock) t →
      Step formatter lower s (.event (.delete i row clock)) { s with
        device := t
        pending := s.pending ++ outcome.storage
        added := Function.update s.added (EventParser.key event) none }
  | save {s : EventStorage} {i : ℕ} {vc : NewEventTVC} {entered : EventForm} {event : Event}
      {clock : Event → Date} {t : Node × EventDevice} :
      s.device.2.forms[i]? = some vc → NewEventTVC.newEvent formatter vc entered = some event →
      EventDevice.Step formatter lower s.device (.save i entered clock) t →
      Step formatter lower s (.event (.save i entered clock)) { s with
        device := t
        pending := s.pending ++ (vc.save clock event entered.jpegData).storage
        added := Function.update s.added (EventParser.key event)
          (some ⟨event, clock, entered.jpegData.getD []⟩) }
  | effect {s : EventStorage} {i : ℕ} {request : StorageRequest} :
      s.pending[i]? = some request →
      Step formatter lower s (.effect i) { s with
        objects := perform StorageRequest.path StorageRequest.object s.objects request
        pending := s.pending.eraseIdx i }

/-- Once the pending requests have taken effect, the object of `addition` is its picture. -/
def PictureEnds (s : EventStorage) (addition : Addition) : Prop :=
  EndsWith StorageRequest.path StorageRequest.object s.objects s.pending
    (picturePath addition.event.number) addition.picture

/-- Every event on the server was added there and ends with its picture. -/
def KeepsPictures (s : EventStorage) : Prop :=
  Entries (fun k r => ∃ addition, s.added k = some addition ∧ addition.record = r ∧
    s.PictureEnds addition) s.device.1

structure Pictured (s : EventStorage) : Prop where
  recorded : Entries (fun k r => ∃ addition, s.added k = some addition ∧ addition.record = r)
    s.device.1
  key : ∀ k addition, s.added k = some addition → EventParser.key addition.event = k
  pictures : ∀ k addition, s.added k = some addition → s.PictureEnds addition

/-- No request is outstanding, and every picture is in its place. -/
structure Settled (s : EventStorage) : Prop where
  pending : s.pending = []
  recorded : Entries (fun k r => ∃ addition, s.added k = some addition ∧ addition.record = r)
    s.device.1
  key : ∀ k addition, s.added k = some addition → EventParser.key addition.event = k
  objects : ∀ k addition, s.added k = some addition →
    s.objects.lookup (picturePath addition.event.number) = some addition.picture

/-- A save lists only events that were added under their numbers and not deleted since, and
finds no request on the object of its number but uploads of the same picture. -/
def SafeSave (formatter : DateFormatter) (s : EventStorage) : StorageAction → Prop
  | .event (.save i entered clock) => ∀ vc event, s.device.2.forms[i]? = some vc →
      NewEventTVC.newEvent formatter vc entered = some event →
      Entries (fun k r => ∃ addition, s.added k = some addition ∧ addition.record = r)
          (EventParser.unparse clock vc.dataBase) ∧
        Agrees StorageRequest.path StorageRequest.object s.pending (picturePath event.number)
          (entered.jpegData.getD [])
  | _ => True

variable {formatter : DateFormatter} {lower : Char → List Char} {s t : EventStorage}

theorem Settled.pictured (h : s.Settled) : s.Pictured := by
  refine ⟨h.recorded, h.key, ?_⟩
  intro k addition hadded
  rw [PictureEnds, h.pending]
  exact endsWith_nil.mpr (h.objects k addition hadded)

theorem Pictured.keepsPictures (h : s.Pictured) : s.KeepsPictures := by
  intro k r hr
  obtain ⟨addition, hadded, hrecord⟩ := h.recorded k r hr
  exact ⟨addition, hadded, hrecord, h.pictures k addition hadded⟩

/-- The server after a save: the list of the form, and the new event next to it. -/
theorem remote_of_save [Unicode] {s t : Node × EventDevice} {i : ℕ} {vc : NewEventTVC}
    {entered : EventForm} {event : Event} {clock : Event → Date}
    (hvc : s.2.forms[i]? = some vc)
    (hevent : NewEventTVC.newEvent formatter vc entered = some event)
    (h : EventDevice.Step formatter lower s (.save i entered clock) t) :
    t.1 = (EventParser.unparse clock vc.dataBase).insert (EventParser.key event)
      (EventParser.record clock event) := by
  cases h with
  | save hvc' hsave =>
    have hsame := Option.some.inj (hvc'.symm.trans hvc)
    subst hsame
    obtain ⟨event', hevent', rfl⟩ := NewEventTVC.saveBtnPressed_eq_some_iff.mp hsave
    have hsame := Option.some.inj (hevent'.symm.trans hevent)
    subst hsame
    exact encode_append_singleton _ _ _ _

theorem remote_of_delete [Unicode] {s t : Node × EventDevice} {i row : ℕ} {screen : Screen EventsVC}
    {event : Event} {clock : Event → Date} (hscreen : s.2.screens[i]? = some screen)
    (hevent : screen.vc.dataBase[row]? = some event)
    (h : EventDevice.Step formatter lower s (.delete i row clock) t) :
    t.1 = s.1.erase (EventParser.key event) := by
  cases h with
  | delete hscreen' hdelete =>
    have hsame := Option.some.inj (hscreen'.symm.trans hscreen)
    subst hsame
    obtain ⟨event', displayed, hevent', -, rfl⟩ := EventsVC.delete_eq_some_iff.mp hdelete
    have hsame := Option.some.inj (hevent'.symm.trans hevent)
    subst hsame
    rfl

theorem ne_key_of_newEvent {vc : NewEventTVC} {entered : EventForm} {event : Event}
    (h : NewEventTVC.newEvent formatter vc entered = some event) {clock : Event → Date}
    {k : String} {r : Record} (hr : (EventParser.unparse clock vc.dataBase).lookup k = some r) :
    k ≠ EventParser.key event := by
  rintro rfl
  apply NewEventTVC.key_newEvent_notMem h clock
  exact Finmap.lookup_isSome.mp (Option.isSome_of_eq_some hr)

theorem Pictured.key_ne (h : s.Pictured) {k : String} {addition : Addition}
    (hadded : s.added k = some addition) {e : Event} (hk : k ≠ EventParser.key e) :
    picturePath addition.event.number ≠ picturePath e.number := by
  intro hpath
  apply hk
  rw [← h.key k addition hadded]
  exact EventParser.key_eq_of_number (picturePath_injective hpath)

theorem cases_of_update {added : String → Option Addition} {key k : String}
    {value : Option Addition} {addition : Addition}
    (h : Function.update added key value k = some addition) :
    k = key ∧ value = some addition ∨ k ≠ key ∧ added k = some addition := by
  by_cases hk : k = key
  · subst hk
    rw [Function.update_self] at h
    exact Or.inl ⟨rfl, h⟩
  · rw [Function.update_of_ne hk] at h
    exact Or.inr ⟨hk, h⟩

theorem endsWith_upload_iff {objects : Dict String (List UInt8)} {pending : List StorageRequest}
    {path : String} {data : List UInt8} :
    EndsWith StorageRequest.path StorageRequest.object objects
        (pending ++ [.putData path data]) path data ↔
      Agrees StorageRequest.path StorageRequest.object pending path data := by
  have hval : StorageRequest.object (.putData path data) = some data := rfl
  exact endsWith_concat_iff hval

theorem Pictured.delete (hs : s.Pictured) {event : Event} {t : Node × EventDevice}
    (ht : t.1 = s.device.1.erase (EventParser.key event)) :
    Pictured { s with
      device := t
      pending := s.pending ++ [.delete (picturePath event.number)]
      added := Function.update s.added (EventParser.key event) none } := by
  constructor
  · intro k r hr
    rw [ht, lookup_erase_eq_some_iff] at hr
    simp only [Function.update_of_ne hr.1]
    exact hs.recorded k r hr.2
  · intro k addition hadded
    rcases cases_of_update hadded with ⟨-, hnone⟩ | ⟨-, hadded⟩
    · cases hnone
    · exact hs.key k addition hadded
  · intro k addition hadded
    rcases cases_of_update hadded with ⟨-, hnone⟩ | ⟨hk, hadded⟩
    · cases hnone
    · exact (hs.pictures k addition hadded).concat_of_ne (hs.key_ne hadded hk).symm

theorem Pictured.save (hs : s.Pictured) {vc : NewEventTVC} {entered : EventForm} {event : Event}
    {clock : Event → Date} {picture : List UInt8} {t : Node × EventDevice}
    (hevent : NewEventTVC.newEvent formatter vc entered = some event)
    (hlisted : Entries (fun k r => ∃ addition, s.added k = some addition ∧ addition.record = r)
      (EventParser.unparse clock vc.dataBase))
    (hagrees : Agrees StorageRequest.path StorageRequest.object s.pending
      (picturePath event.number) picture)
    (ht : t.1 = (EventParser.unparse clock vc.dataBase).insert (EventParser.key event)
      (EventParser.record clock event)) :
    Pictured { s with
      device := t
      pending := s.pending ++ [.putData (picturePath event.number) picture]
      added := Function.update s.added (EventParser.key event)
        (some ⟨event, clock, picture⟩) } := by
  constructor
  · simp only [ht]
    apply Entries.insert
    · intro k r hr
      rw [Function.update_of_ne (ne_key_of_newEvent hevent hr)]
      exact hlisted k r hr
    · exact ⟨_, Function.update_self _ _ _, rfl⟩
  · intro k addition hadded
    rcases cases_of_update hadded with ⟨rfl, hnew⟩ | ⟨-, hadded⟩
    · cases hnew
      rfl
    · exact hs.key k addition hadded
  · intro k addition hadded
    rcases cases_of_update hadded with ⟨rfl, hnew⟩ | ⟨hk, hadded⟩
    · cases hnew
      exact endsWith_upload_iff.mpr hagrees
    · exact (hs.pictures k addition hadded).concat_of_ne (hs.key_ne hadded hk).symm

theorem pictured_step [Unicode] (s : EventStorage) (a : StorageAction) (t : EventStorage)
    (hs : s.Pictured) (hsafe : SafeSave formatter s a) (h : Step formatter lower s a t) :
    t.Pictured := by
  cases h with
  | device hquiet hstep =>
    have hremote := hstep.remote_of_sendsNothing hquiet
    refine ⟨?_, hs.key, hs.pictures⟩
    simp only [hremote]
    exact hs.recorded
  | @delete i row screen event clock outcome t hscreen hevent hdelete hstep =>
    obtain ⟨event', displayed, hevent', -, rfl⟩ := EventsVC.delete_eq_some_iff.mp hdelete
    have hsame : event' = event := Option.some.inj (hevent'.symm.trans hevent)
    subst hsame
    exact hs.delete (remote_of_delete hscreen hevent hstep)
  | @save i vc entered event clock t hvc hevent hstep =>
    obtain ⟨hlisted, hagrees⟩ := hsafe vc event hvc hevent
    exact hs.save hevent hlisted hagrees (remote_of_save hvc hevent hstep)
  | effect hrequest =>
    refine ⟨hs.recorded, hs.key, ?_⟩
    exact fun k addition hadded => (hs.pictures k addition hadded).perform hrequest

/-- A save after which the pictures end in place was safe. -/
theorem safeSave_of_keepsPictures [Unicode] {a : StorageAction} (h : Step formatter lower s a t)
    (hkeeps : t.KeepsPictures) : SafeSave formatter s a := by
  cases h with
  | @save i vc entered event clock t hvc hevent hstep =>
    intro vc' event' hvc' hevent'
    have hsame : vc' = vc := Option.some.inj (hvc'.symm.trans hvc)
    subst hsame
    have hsame : event' = event := Option.some.inj (hevent'.symm.trans hevent)
    subst hsame
    have hremote := remote_of_save hvc hevent hstep
    simp only [KeepsPictures, hremote] at hkeeps
    constructor
    · intro k r hr
      have hk := ne_key_of_newEvent hevent hr
      obtain ⟨addition, hadded, hrecord, -⟩ :=
        hkeeps k r (by rwa [Finmap.lookup_insert_of_ne _ hk])
      rw [Function.update_of_ne hk] at hadded
      exact ⟨addition, hadded, hrecord⟩
    · obtain ⟨addition, hadded, -, hends⟩ := hkeeps _ _ (Finmap.lookup_insert _)
      simp only [Function.update_self, Option.some.injEq] at hadded
      rw [← hadded] at hends
      exact endsWith_upload_iff.mp hends
  | @device a t hquiet hstep =>
    cases a with
    | save => exact hquiet.elim
    | _ => exact trivial
  | delete => exact trivial
  | effect => exact trivial

/-- In any run, every event on the server ends with its own picture exactly when all saves
are safe. -/
theorem pictures_kept_iff [Unicode] (formatter : DateFormatter) (lower : Char → List Char)
    {s₀ s : EventStorage} {path : List (Taken EventStorage StorageAction)} (hs₀ : s₀.Settled)
    (hpath : Path (Step formatter lower) s₀ path s) :
    (∀ k ∈ path, k.post.KeepsPictures) ↔ ∀ k ∈ path, SafeSave formatter k.pre k.act :=
  hpath.forall_good_iff (fun _ h => h.keepsPictures) pictured_step
    (fun _ _ _ _ h hkeeps => safeSave_of_keepsPictures h hkeeps) hs₀.pictured

section Reuse

def examAddition : Addition := ⟨exam, fun _ => newYear, [1]⟩

def examStorage : EventStorage where
  device := (examNode, launchedEvents)
  objects := Finmap.insert (picturePath exam.number) examAddition.picture ∅
  pending := []
  added := Function.update (fun _ => none) (EventParser.key exam) (some examAddition)

theorem eq_of_added_examStorage {k : String} {addition : Addition}
    (h : examStorage.added k = some addition) :
    k = EventParser.key exam ∧ addition = examAddition := by
  have hupdate : Function.update (fun _ => none) (EventParser.key exam) (some examAddition) k =
      some addition := h
  rcases cases_of_update hupdate with ⟨hk, hvalue⟩ | ⟨-, hnone⟩
  · exact ⟨hk, (Option.some.inj hvalue).symm⟩
  · cases hnone

theorem settled_examStorage : examStorage.Settled := by
  refine ⟨rfl, ?_, ?_, ?_⟩
  · apply entries_encode
    intro e he
    rw [List.mem_singleton.mp he]
    exact ⟨examAddition, by simp [examStorage], rfl⟩
  · intro k addition h
    obtain ⟨rfl, rfl⟩ := eq_of_added_examStorage h
    rfl
  · intro k addition h
    obtain ⟨-, rfl⟩ := eq_of_added_examStorage h
    exact Finmap.lookup_insert _

def posterForm : EventForm := { concertForm with jpegData := some [2] }

def concertAddition : Addition := ⟨concert, fun _ => newYear, [2]⟩

def emptiedEvents : EventDevice :=
  ⟨fetchedEvents.defaults.store "eventDataBase" (some ∅), [⟨⟨[], []⟩, .done⟩], [], []⟩

theorem steps_reused [Unicode] (formatter : DateFormatter) (lower : Char → List Char) :
    EventDevice.Step formatter lower (examNode, fetchedEvents) (.delete 0 0 fun _ => newYear)
        (examNode.erase (EventParser.key exam), emptiedEvents) ∧
      EventDevice.Step formatter lower
        (examNode.erase (EventParser.key exam), emptiedEvents) .openNew
        (examNode.erase (EventParser.key exam), { emptiedEvents with forms := [⟨[]⟩] }) ∧
      EventDevice.Step formatter lower
        (examNode.erase (EventParser.key exam), { emptiedEvents with forms := [⟨[]⟩] })
        (.save 0 posterForm fun _ => newYear)
        (EventParser.unparse (fun _ => newYear) [concert],
          { emptiedEvents with forms := [⟨[concert]⟩] }) := by
  have hscreen : fetchedEvents.screens[0]? = some ⟨⟨[exam], [exam]⟩, .done⟩ := rfl
  have hdelete : EventsVC.delete (fun _ => newYear) ⟨[exam], [exam]⟩ 0 = some _ := rfl
  have hreading : Reading (emptiedEvents.defaults.lookup "eventDataBase") (some []) := by
    rw [emptiedEvents, UserDefaults.lookup_store_some]
    exact .some ⟨by simp, rfl⟩
  have hsave : NewEventTVC.saveBtnPressed formatter (fun _ => newYear) ⟨[]⟩ posterForm = some _ :=
    NewEventTVC.saveBtnPressed_eq_some_iff.mpr ⟨concert, newEvent_concert formatter, rfl⟩
  have hform : [NewEventTVC.mk []][0]? = some ⟨[]⟩ := rfl
  exact ⟨.delete hscreen hdelete, .openNew hreading rfl, .save hform hsave⟩

/-- The exam deleted and the concert saved under its number. -/
def reusedStorage (objects : Dict String (List UInt8)) (pending : List StorageRequest) :
    EventStorage where
  device := (EventParser.unparse (fun _ => newYear) [concert],
    { emptiedEvents with forms := [⟨[concert]⟩] })
  objects := objects
  pending := pending
  added := Function.update (Function.update examStorage.added (EventParser.key exam) none)
    (EventParser.key concert) (some concertAddition)

def deletion : StorageRequest := .delete (picturePath exam.number)

def upload : StorageRequest := .putData (picturePath concert.number) concertAddition.picture

theorem exists_path_reused [Unicode] (formatter : DateFormatter) (lower : Char → List Char) :
    ∃ path, Path (Step formatter lower) examStorage path
      (reusedStorage examStorage.objects [deletion, upload]) := by
  obtain ⟨hload, hanswer, hcomplete⟩ := steps_fetched formatter lower
  obtain ⟨hdelete, hopen, hsave⟩ := steps_reused formatter lower
  have hfetched : Path (Step formatter lower) examStorage _
      { examStorage with device := (examNode, fetchedEvents) } :=
    .snoc (.snoc (.snoc .nil (.device (by trivial) hload)) (.device (by trivial) hanswer))
      (.device (by trivial) hcomplete)
  have hscreen : fetchedEvents.screens[0]? = some ⟨⟨[exam], [exam]⟩, .done⟩ := rfl
  have hrow : EventsVC.delete (fun _ => newYear) ⟨[exam], [exam]⟩ 0 = some _ := rfl
  have hform : [NewEventTVC.mk []][0]? = some ⟨[]⟩ := rfl
  have hevent : NewEventTVC.newEvent formatter ⟨[]⟩ posterForm = some concert :=
    newEvent_concert formatter
  have hdeleted := Path.snoc hfetched (Step.delete hscreen rfl hrow hdelete)
  have hopened := Path.snoc hdeleted (.device (by trivial) hopen)
  exact ⟨_, Path.snoc hopened (Step.save hform hevent hsave)⟩

/-- The upload of the concert overtakes the deletion of the exam. -/
theorem exists_path_overtaken [Unicode] (formatter : DateFormatter) (lower : Char → List Char) :
    ∃ path, Path (Step formatter lower) examStorage path (reusedStorage
      ((examStorage.objects.insert (picturePath concert.number) concertAddition.picture).erase
        (picturePath exam.number)) []) := by
  obtain ⟨path, hpath⟩ := exists_path_reused formatter lower
  have hupload : (reusedStorage examStorage.objects [deletion, upload]).pending[1]? =
      some upload := rfl
  have huploaded : Step formatter lower (reusedStorage examStorage.objects [deletion, upload])
      (.effect 1) (reusedStorage (examStorage.objects.insert (picturePath concert.number)
        concertAddition.picture) [deletion]) := .effect hupload
  have hdeletion : (reusedStorage (examStorage.objects.insert (picturePath concert.number)
      concertAddition.picture) [deletion]).pending[0]? = some deletion := rfl
  exact ⟨_, .snoc (.snoc hpath huploaded) (.effect hdeletion)⟩

theorem pictures_kept_iff_overtaken :
    ∃ path, Path (Step .gregorian latinLower) examStorage path (reusedStorage
        ((examStorage.objects.insert (picturePath concert.number) concertAddition.picture).erase
          (picturePath exam.number)) []) ∧
      ((∀ k ∈ path, k.post.KeepsPictures) ↔ ∀ k ∈ path, SafeSave .gregorian k.pre k.act) := by
  obtain ⟨path, hpath⟩ := exists_path_overtaken .gregorian latinLower
  exact ⟨path, hpath, pictures_kept_iff .gregorian latinLower settled_examStorage hpath⟩

/-- The concert is on the server and its picture is not in the storage. -/
theorem not_pictures_kept : ¬ ∀ (formatter : DateFormatter) (lower : Char → List Char)
    (s₀ s : EventStorage) (path : List (Taken EventStorage StorageAction)), s₀.Settled →
    s₀.device.2.Idle → Path (Step formatter lower) s₀ path s → s.pending = [] →
    Entries (fun k _ => ∃ addition, s.added k = some addition ∧
      s.objects.lookup (picturePath addition.event.number) = some addition.picture)
      s.device.1 := by
  intro h
  obtain ⟨path, hpath⟩ := exists_path_overtaken .gregorian latinLower
  have hconcert : (EventParser.unparse (fun _ => newYear) [concert]).lookup
      (EventParser.key concert) = some (EventParser.record (fun _ => newYear) concert) :=
    lookup_encode_of_mem _ _ (by simp) List.mem_cons_self
  obtain ⟨addition, hadded, hpicture⟩ :=
    h _ _ _ _ _ settled_examStorage ⟨rfl, rfl, rfl⟩ hpath rfl _ _ hconcert
  have hself : ∀ objects pending, (reusedStorage objects pending).added
      (EventParser.key concert) = some concertAddition := by
    simp [reusedStorage]
  cases (hself _ _).symm.trans hadded
  have hgone : (Finmap.erase (picturePath exam.number) (examStorage.objects.insert
      (picturePath concert.number) concertAddition.picture)).lookup
        (picturePath exam.number) = none := Finmap.lookup_erase _ _
  cases hgone.symm.trans hpicture

end Reuse

end EventStorage

end Studkurator
