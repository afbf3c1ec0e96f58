import Studkurator.Controller.EventRows
import Studkurator.Library.Outstanding

/-!
# Pictures in the cells of the event table

A cell is taken for a row before the picture of the row has come in, and may have been taken
for another row before. The labels are set at once; the picture is set by every download that
comes in, so a late one of an earlier row can stay. Nobody changes the storage meanwhile.
-/

namespace Studkurator

open Dictionary Outstanding Transition

set_option autoImplicit false

/-- What `cellForRowAt` sets at once. -/
structure EventCell where
  titleLbl : String
  dateLbl : String
  doneImgIsHidden : Bool
  deriving DecidableEq

/-- A call of `fetchImage` for a cell, with the name of the picture. -/
structure Download where
  cell : ℕ
  name : String
  deriving DecidableEq

/-- The storage, and `UIImage(data:)`. -/
structure Pictures (Image : Type) where
  objects : Dict String (List UInt8)
  decode : List UInt8 → Option Image

namespace Pictures
variable {Image : Type}

/-- What `getData(maxSize:)` finds under `name`; there is an error if it finds nothing. -/
def fetchImage (pictures : Pictures Image) (name : String) : Option (List UInt8) :=
  (pictures.objects.lookup ("imgs/" ++ name ++ ".jpg")).filter
    fun data => decide (data.length ≤ 4 * 4098 * 4098)

def comesIn (pictures : Pictures Image) (download : Download) : Bool :=
  (pictures.fetchImage download.name).isSome

def image (pictures : Pictures Image) (name : String) : Option Image :=
  (pictures.fetchImage name).bind pictures.decode

/-- What a download that comes in assigns to `img.image`, which may be `nil`. -/
def assigned (pictures : Pictures Image) (download : Download) : Option (Option Image) :=
  some (pictures.image download.name)

/-- The completion of `fetchImage`; an error is only printed. -/
def complete (pictures : Pictures Image) (images : Dict ℕ (Option Image)) (download : Download) :
    Dict ℕ (Option Image) :=
  if pictures.comesIn download then perform Download.cell pictures.assigned images download
  else images

end Pictures

namespace EventsVC

/-- `cellForRowAt`: the labels, and the name of the picture that is asked for. -/
def cellForRowAt (now : Date) (vc : EventsVC) (row : ℕ) : Option (EventCell × String) := do
  let event ← vc.filteredDataBase[row]?
  return (⟨event.name, DateFormatter.string .hh (event.date.getD now), !event.isDone⟩, event.image)

end EventsVC

/-- `images` has the `img.image` of every cell that was made, `rows` remembers the event that
a cell was last taken for. -/
structure EventTable (Image : Type) where
  vc : EventsVC
  cells : ℕ → Option EventCell
  images : Dict ℕ (Option Image)
  rows : ℕ → Option Event
  downloads : List Download

inductive EventTableAction where
  | load
  | search (text : String)
  | cell (cell row : ℕ)
  | reply (download : ℕ)

def EventTableAction.IsReply : EventTableAction → Prop
  | reply _ => True
  | _ => False

namespace EventTable
variable {Image : Type}

/-- The picture that a cell has when it is dequeued; a new one has none. -/
def leftover (s : EventTable Image) (cell : ℕ) : Option Image := (s.images.lookup cell).getD none

inductive Step [Unicode] (formatter : DateFormatter) (lower : Char → List Char)
    (pictures : Pictures Image) :
    EventTable Image → EventTableAction → EventTable Image → Prop where
  | load {s : EventTable Image} {order : List (String × Record)} {clock : Event → Date}
      {outcome : Outcome EventsVC} :
      EventsVC.fetchCompletion formatter clock order = some outcome →
      Step formatter lower pictures s .load { s with vc := outcome.controller }
  | search {s : EventTable Image} {text : String} :
      Step formatter lower pictures s (.search text)
        { s with vc := s.vc.updateSearchResults lower text }
  | cell {s : EventTable Image} {cell row : ℕ} {now : Date} {event : Event} {labels : EventCell}
      {name : String} :
      s.vc.filteredDataBase[row]? = some event →
      s.vc.cellForRowAt now row = some (labels, name) →
      Step formatter lower pictures s (.cell cell row) { s with
        cells := Function.update s.cells cell (some labels)
        images := s.images.insert cell (s.leftover cell)
        rows := Function.update s.rows cell (some event)
        downloads := s.downloads ++ [⟨cell, name⟩] }
  | reply {s : EventTable Image} {i : ℕ} {download : Download} :
      s.downloads[i]? = some download →
      Step formatter lower pictures s (.reply i) { s with
        images := pictures.complete s.images download
        downloads := s.downloads.eraseIdx i }

/-- Whatever the order in which the downloads come in, the cell ends with `image`. -/
def Settles [Unicode] (formatter : DateFormatter) (lower : Char → List Char)
    (pictures : Pictures Image)
    (s : EventTable Image) (cell : ℕ) (image : Option Image) : Prop :=
  ∀ path t, Path (Step formatter lower pictures) s path t → (∀ k ∈ path, k.act.IsReply) →
    t.downloads = [] → t.images.lookup cell = some image

/-- Every cell has the labels of its event and will have its picture, or none if it has none. -/
def ShowsRows [Unicode] (formatter : DateFormatter) (lower : Char → List Char)
    (pictures : Pictures Image)
    (s : EventTable Image) : Prop :=
  ∀ cell event, s.rows cell = some event →
    (∃ now, s.cells cell = some ⟨event.name, DateFormatter.string .hh (event.date.getD now),
      !event.isDone⟩) ∧
    s.Settles formatter lower pictures cell (pictures.image event.image)

/-- A cell is taken for a row only while all that is to come in for it is the picture of the
row, and a row without a picture only gets a cell that ends without one. -/
def ReusesCleanly (pictures : Pictures Image) (s : EventTable Image) : EventTableAction → Prop
  | .cell cell row => ∀ event, s.vc.filteredDataBase[row]? = some event →
      (∀ download ∈ s.downloads, download.cell = cell → pictures.comesIn download →
        pictures.image download.name = pictures.image event.image) ∧
      ((pictures.fetchImage event.image).isSome ∨
        s.leftover cell = pictures.image event.image ∨
        ∃ download ∈ s.downloads, download.cell = cell ∧ pictures.comesIn download)
  | _ => True

section Completion
variable {formatter : DateFormatter} {lower : Char → List Char} {pictures : Pictures Image}
variable {s : EventTable Image}

/-- The order of the downloads decides, those that come in alone. -/
theorem foldl_complete (images : Dict ℕ (Option Image)) (order : List Download) :
    order.foldl pictures.complete images =
      (order.filter pictures.comesIn).foldl (perform Download.cell pictures.assigned) images := by
  rw [List.foldl_filter]
  rfl

/-- The downloads can come in in every order. -/
theorem exists_path_replies [Unicode] (formatter : DateFormatter) (lower : Char → List Char)
    {order : List Download} (horder : order.Perm s.downloads) :
    ∃ path t, Path (Step formatter lower pictures) s path t ∧ (∀ k ∈ path, k.act.IsReply) ∧
      t.downloads = [] ∧ t.images = order.foldl pictures.complete s.images := by
  induction order generalizing s with
  | nil => exact ⟨[], s, .nil, by simp, horder.nil_eq.symm, rfl⟩
  | cons download order ih =>
    obtain ⟨i, hi, hdownload⟩ := List.getElem_of_mem (horder.subset List.mem_cons_self)
    have hfirst : Step formatter lower pictures s (.reply i) { s with
        images := pictures.complete s.images download
        downloads := s.downloads.eraseIdx i } :=
      .reply (List.getElem?_eq_some_iff.mpr ⟨hi, hdownload⟩)
    have hrest : order.Perm (s.downloads.eraseIdx i) := by
      apply List.Perm.cons_inv (a := download)
      refine horder.trans ?_
      rw [← hdownload]
      exact (List.getElem_cons_eraseIdx_perm hi).symm
    obtain ⟨path, t, hpath, hreplies, hdone, himages⟩ := ih (s := { s with
      images := pictures.complete s.images download
      downloads := s.downloads.eraseIdx i }) hrest
    refine ⟨_, t, (Path.single hfirst).trans hpath, ?_, hdone, himages⟩
    simpa [EventTableAction.IsReply] using hreplies

theorem endsWith_reply [Unicode] {cell : ℕ} {image : Option Image} (s : EventTable Image)
    (a : EventTableAction) (t : EventTable Image)
    (hends : EndsWith Download.cell pictures.assigned s.images
      (s.downloads.filter pictures.comesIn) cell image)
    (hreply : a.IsReply) (h : Step formatter lower pictures s a t) :
    EndsWith Download.cell pictures.assigned t.images
      (t.downloads.filter pictures.comesIn) cell image := by
  cases h with
  | load => exact hreply.elim
  | search => exact hreply.elim
  | cell => exact hreply.elim
  | @reply i download hi =>
    obtain ⟨hlt, rfl⟩ := List.getElem?_eq_some_iff.mp hi
    have hperm := (List.getElem_cons_eraseIdx_perm hlt).filter pictures.comesIn
    rw [List.filter_cons] at hperm
    simp only [Pictures.complete]
    split at hperm
    next hcomes =>
      rw [if_pos hcomes]
      exact hends.of_perm hperm
    next hfails =>
      rw [if_neg hfails]
      intro order horder
      exact hends order (horder.trans hperm)

/-- Settling is a matter of the downloads that come in for the cell. -/
theorem settles_iff [Unicode] {cell : ℕ} {image : Option Image} :
    s.Settles formatter lower pictures cell image ↔
      EndsWith Download.cell pictures.assigned s.images
        (s.downloads.filter pictures.comesIn) cell image := by
  constructor
  · intro hsettles order horder
    have hall : (order ++ s.downloads.filter fun d => !pictures.comesIn d).Perm s.downloads :=
      (horder.append_right _).trans (List.filter_append_perm _ _)
    obtain ⟨path, t, hpath, hreplies, hdone, himages⟩ :=
      exists_path_replies formatter lower hall
    have hcomes : (order ++ s.downloads.filter fun d => !pictures.comesIn d).filter
        pictures.comesIn = order := by
      rw [List.filter_append, List.filter_eq_self.mpr, List.filter_eq_nil_iff.mpr, List.append_nil]
      · simp
      · exact fun d hd => (List.mem_filter.mp (horder.mem_iff.mp hd)).2
    have hend := hsettles path t hpath hreplies hdone
    rwa [himages, foldl_complete, hcomes] at hend
  · intro hends path t hpath hreplies hdone
    have hend := hpath.invariant_of_guard endsWith_reply hreplies hends
    rw [hdone] at hend
    exact endsWith_nil.mp hend

/-- The cell that is taken for a row. -/
theorem endsWith_cell_iff {cell : ℕ} {name : String} :
    EndsWith Download.cell pictures.assigned (s.images.insert cell (s.leftover cell))
        ((s.downloads ++ [Download.mk cell name]).filter pictures.comesIn) cell
        (pictures.image name) ↔
      (∀ download ∈ s.downloads, download.cell = cell → pictures.comesIn download →
        pictures.image download.name = pictures.image name) ∧
      ((pictures.fetchImage name).isSome ∨ s.leftover cell = pictures.image name ∨
        ∃ download ∈ s.downloads, download.cell = cell ∧ pictures.comesIn download) := by
  rw [endsWith_iff, Finmap.lookup_insert]
  constructor
  · rintro ⟨hagrees, hsome⟩
    constructor
    · intro download hdownload hcell hcomes
      exact Option.some.inj (hagrees download (by simp [hdownload, hcomes]) hcell)
    · rcases hsome with hleft | ⟨download, hdownload, hcell⟩
      · exact Or.inr (Or.inl (Option.some.inj hleft))
      · obtain ⟨hmem, hcomes⟩ := List.mem_filter.mp hdownload
        rcases List.mem_append.mp hmem with hmem | hmem
        · exact Or.inr (Or.inr ⟨download, hmem, hcell, hcomes⟩)
        · obtain rfl := List.mem_singleton.mp hmem
          exact Or.inl hcomes
  · rintro ⟨hagrees, hsome⟩
    constructor
    · intro download hdownload hcell
      obtain ⟨hmem, hcomes⟩ := List.mem_filter.mp hdownload
      rcases List.mem_append.mp hmem with hmem | hmem
      · exact congrArg some (hagrees download hmem hcell hcomes)
      · obtain rfl := List.mem_singleton.mp hmem
        rfl
    · rcases hsome with hown | hleft | ⟨download, hmem, hcell, hcomes⟩
      · exact Or.inr ⟨⟨cell, name⟩, List.mem_filter.mpr ⟨by simp, hown⟩, rfl⟩
      · exact Or.inl (congrArg some hleft)
      · exact Or.inr ⟨download, by simp [hmem, hcomes], hcell⟩

/-- The other cells. -/
theorem endsWith_cell_of_ne {cell cell' : ℕ} (hne : cell' ≠ cell) {name : String}
    {image : Option Image} :
    EndsWith Download.cell pictures.assigned (s.images.insert cell (s.leftover cell))
        ((s.downloads ++ [Download.mk cell name]).filter pictures.comesIn) cell' image ↔
      EndsWith Download.cell pictures.assigned s.images
        (s.downloads.filter pictures.comesIn) cell' image := by
  apply endsWith_congr (Finmap.lookup_insert_of_ne _ hne)
  rintro download rfl
  have hother : download ≠ ⟨cell, name⟩ := by
    rintro rfl
    exact hne rfl
  simp [hother]

theorem cellForRowAt_eq_some {vc : EventsVC} {row : ℕ} {event : Event} {now : Date}
    {labels : EventCell} {name : String} (hevent : vc.filteredDataBase[row]? = some event)
    (h : vc.cellForRowAt now row = some (labels, name)) :
    labels = ⟨event.name, DateFormatter.string .hh (event.date.getD now), !event.isDone⟩ ∧
      name = event.image := by
  simp only [EventsVC.cellForRowAt, hevent, Option.bind_eq_bind, Option.bind_some, Option.pure_def,
    Option.some.injEq, Prod.mk.injEq] at h
  exact ⟨h.1.symm, h.2.symm⟩

end Completion

section Runs
variable {formatter : DateFormatter} {lower : Char → List Char} {pictures : Pictures Image}
variable {s₀ s : EventTable Image} {path : List (Taken (EventTable Image) EventTableAction)}

theorem showsRows_step [Unicode] (s : EventTable Image) (a : EventTableAction)
    (t : EventTable Image)
    (hs : s.ShowsRows formatter lower pictures) (hclean : ReusesCleanly pictures s a)
    (h : Step formatter lower pictures s a t) : t.ShowsRows formatter lower pictures := by
  have hends := fun cell event hrow => settles_iff.mp (hs cell event hrow).2
  have hreplied := fun hreply cell event hrow =>
    endsWith_reply s a t (hends cell event hrow) hreply h
  cases h with
  | load | search =>
    intro cell event hrow
    exact ⟨(hs cell event hrow).1, settles_iff.mpr (hends cell event hrow)⟩
  | @cell taken row now event labels name hevent hlabels =>
    obtain ⟨rfl, rfl⟩ := cellForRowAt_eq_some hevent hlabels
    intro cell event' hrow
    by_cases hcell : cell = taken
    · subst hcell
      obtain rfl : event = event' := by simpa using hrow
      exact ⟨⟨now, Function.update_self ..⟩,
        settles_iff.mpr (endsWith_cell_iff.mpr (hclean event hevent))⟩
    · have hbefore : s.rows cell = some event' := by
        simpa [Function.update_of_ne hcell] using hrow
      refine ⟨?_, settles_iff.mpr ((endsWith_cell_of_ne hcell).mpr (hends cell event' hbefore))⟩
      simpa [Function.update_of_ne hcell] using (hs cell event' hbefore).1
  | reply =>
    intro cell event hrow
    exact ⟨(hs cell event hrow).1, settles_iff.mpr (hreplied trivial cell event hrow)⟩

theorem reusesCleanly_of_showsRows [Unicode] (s : EventTable Image) (a : EventTableAction)
    (t : EventTable Image) (h : Step formatter lower pictures s a t)
    (ht : t.ShowsRows formatter lower pictures) : ReusesCleanly pictures s a := by
  cases h with
  | load | search | reply => trivial
  | @cell taken row now event labels name hevent hlabels =>
    obtain ⟨rfl, rfl⟩ := cellForRowAt_eq_some hevent hlabels
    intro event' hevent'
    obtain rfl := Option.some.inj (hevent.symm.trans hevent')
    exact endsWith_cell_iff.mp (settles_iff.mp (ht taken event (Function.update_self ..)).2)

/-- All cells show their events, in whatever order the downloads come in, exactly when every
cell is reused with nothing of another event left for it. -/
theorem showsRows_iff_reusesCleanly [Unicode] (formatter : DateFormatter) (lower : Char → List Char)
    (pictures : Pictures Image) (hunused : ∀ cell, s₀.rows cell = none)
    (hpath : Path (Step formatter lower pictures) s₀ path s) :
    (∀ k ∈ path, k.post.ShowsRows formatter lower pictures) ↔
      ∀ k ∈ path, ReusesCleanly pictures k.pre k.act := by
  refine hpath.forall_good_iff (fun _ h => h) showsRows_step
    (fun s a t _ h ht => reusesCleanly_of_showsRows s a t h ht) ?_
  intro cell event hrow
  rw [hunused cell] at hrow
  cases hrow

end Runs

section Scrolling

def twoPictures : Pictures UInt8 where
  objects := (Finmap.insert "imgs/event1.jpg" [1] ∅).insert "imgs/event2.jpg" [2]
  decode := List.head?

def listedPair : EventTable UInt8 where
  vc := EventsVC.openedPair.controller
  cells := fun _ => none
  images := ∅
  rows := fun _ => none
  downloads := []

/-- The cell of the exam is taken for the trip before the picture of the exam comes in. -/
theorem not_showsRows_scrolled : ∃ path s,
    Path (Step .gregorian latinLower twoPictures) listedPair path s ∧
      ¬ ∀ k ∈ path, k.post.ShowsRows .gregorian latinLower twoPictures := by
  have hshown : listedPair.vc.cellForRowAt newYear 0 =
      some (⟨"Exam", DateFormatter.string .hh (exam.date.getD newYear), true⟩, exam.image) := rfl
  have hnext : listedPair.vc.cellForRowAt newYear 1 = some (⟨"Trip", DateFormatter.string .hh
      (trip.date.getD newYear), true⟩, trip.image) := rfl
  obtain ⟨s, hexam, hvc, hdownloads⟩ : ∃ s, Step .gregorian latinLower twoPictures listedPair
      (.cell 0 0) s ∧ s.vc = listedPair.vc ∧ s.downloads = [⟨0, exam.image⟩] :=
    ⟨_, .cell rfl hshown, rfl, rfl⟩
  rw [← hvc] at hnext
  have hrow : s.vc.filteredDataBase[1]? = some trip := by
    rw [hvc]
    rfl
  have htrip : Step .gregorian latinLower twoPictures s (.cell 0 1) _ := .cell hrow hnext
  have hpath := Path.snoc (.single hexam) htrip
  refine ⟨_, _, hpath, ?_⟩
  rw [showsRows_iff_reusesCleanly .gregorian latinLower twoPictures (fun _ => rfl) hpath]
  intro hclean
  have hagrees := (hclean _ (List.mem_append_right _ List.mem_cons_self) trip hrow).1
    ⟨0, exam.image⟩ (by simp [hdownloads]) rfl (by decide)
  revert hagrees
  decide

end Scrolling

end EventTable

end Studkurator
