import Studkurator.System.RosterInvariant

/-!
# Concurrent roster updates

What the clients do to the shared roster, as a sequence of additions and deletions of
single students. A save stores the whole list of its form, so it is such an addition only
when the form still has the list that is on the server; a deletion removes one key, so it
deletes a student only when that is where the student is stored.
-/

namespace Studkurator

open Dictionary Transition

set_option autoImplicit false

variable {lower : Char → List Char}

/-- Some entry is read as the student. -/
def Present [Unicode] (node : Node) (s : Student) : Prop :=
  ∃ k r, node.lookup k = some r ∧ Parser.student (k, r) = some s

inductive RosterUpdate where
  | add (student : Student)
  | delete (student : Student)
  deriving DecidableEq

namespace RosterUpdate

/-- The effect of one update: a deletion leaves no entry that is read as the student. -/
def apply [Unicode] (node : Node) : RosterUpdate → Node
  | .add student => node.insert (Parser.key student) (Parser.record student)
  | .delete student => select (fun k r => Parser.student (k, r) ≠ some student) node

def serial [Unicode] (updates : List RosterUpdate) (node : Node) : Node := updates.foldl apply node

theorem serial_append [Unicode] (updates updates' : List RosterUpdate) (node : Node) :
    serial (updates ++ updates') node = serial updates' (serial updates node) :=
  List.foldl_append

theorem mem_apply_add [Unicode] {node : Node} {k : String} (h : k ∈ node) (t : Student) :
    k ∈ apply node (.add t) :=
  Finmap.mem_insert.mpr (Or.inr h)

theorem mem_serial_of_add [Unicode] {updates : List RosterUpdate} (node : Node) {s : Student}
    (hadds : ∀ t, .delete t ∉ updates) (hs : .add s ∈ updates) :
    Parser.key s ∈ serial updates node := by
  induction updates using List.reverseRecOn with
  | nil => simp at hs
  | append_singleton updates update ih =>
    rw [serial_append]
    have hbefore : ∀ t, .delete t ∉ updates := fun t ht => hadds t (List.mem_append_left _ ht)
    cases update with
    | delete t => exact absurd (by simp) (hadds t)
    | add t =>
      rcases List.mem_append.mp hs with hs | hs
      · exact mem_apply_add (ih hbefore hs) t
      · cases List.mem_singleton.mp hs
        exact Finmap.mem_insert.mpr (Or.inl rfl)

/-- The student was added and not deleted since. -/
def AddedLast (updates : List RosterUpdate) (s : Student) : Prop :=
  ∃ before after, updates = before ++ .add s :: after ∧ .delete s ∉ after

/-- The student was deleted and not added since. -/
def DeletedLast (updates : List RosterUpdate) (s : Student) : Prop :=
  ∃ before after, updates = before ++ .delete s :: after ∧ .add s ∉ after

theorem eq_or_of_append_singleton {α : Type*} {l before after : List α} {a b : α}
    (h : l ++ [b] = before ++ a :: after) :
    b = a ∧ after = [] ∨ ∃ after', l = before ++ a :: after' ∧ after = after' ++ [b] := by
  rcases List.eq_nil_or_concat after with rfl | ⟨after', c, rfl⟩
  · have hlast := List.append_inj' h rfl
    exact Or.inl ⟨(List.singleton_inj.mp hlast.2), rfl⟩
  · rw [List.concat_eq_append, ← List.cons_append, ← List.append_assoc] at h
    obtain ⟨hinit, hlast⟩ := List.append_inj' h rfl
    cases hlast
    exact Or.inr ⟨after', hinit, List.concat_eq_append⟩

theorem AddedLast.of_append {updates : List RosterUpdate} {update : RosterUpdate} {s : Student}
    (h : AddedLast (updates ++ [update]) s) :
    update = .add s ∨ AddedLast updates s ∧ update ≠ .delete s := by
  obtain ⟨before, after, heq, hafter⟩ := h
  rcases eq_or_of_append_singleton heq with ⟨rfl, -⟩ | ⟨after', rfl, rfl⟩
  · exact Or.inl rfl
  · refine Or.inr ⟨⟨before, after', rfl, ?_⟩, ?_⟩
    · exact fun hmem => hafter (List.mem_append_left _ hmem)
    · exact fun heq => hafter (by simp [heq])

theorem DeletedLast.of_append {updates : List RosterUpdate} {update : RosterUpdate} {s : Student}
    (h : DeletedLast (updates ++ [update]) s) :
    update = .delete s ∨ DeletedLast updates s ∧ update ≠ .add s := by
  obtain ⟨before, after, heq, hafter⟩ := h
  rcases eq_or_of_append_singleton heq with ⟨rfl, -⟩ | ⟨after', rfl, rfl⟩
  · exact Or.inl rfl
  · refine Or.inr ⟨⟨before, after', rfl, ?_⟩, ?_⟩
    · exact fun hmem => hafter (List.mem_append_left _ hmem)
    · exact fun heq => hafter (by simp [heq])

end RosterUpdate

namespace GroupAction

def ListsAddsDeletes : GroupAction → Prop
  | groupLoad | answer _ | complete _ | giveUp _ | search _ _ | openNew => True
  | addStudent _ _ | delete _ _ => True
  | _ => False

def updates : GroupAction → List RosterUpdate
  | addStudent _ student => [.add student]
  | delete _ student => [.delete student]
  | _ => []

/-- A save is up to date when its form has the list that is on the server and the number can
be read back, a deletion when the key of the student, and no other, holds the student. -/
def UpToDate [Unicode] (s : Node × GroupDevice) : GroupAction → Prop
  | addStudent i student => student.number ≤ 10 ∧
      ∃ vc, s.2.newStudents[i]? = some vc ∧ s.1 = Parser.unparse vc.dataBase
  | delete _ student => ∀ k r, s.1.lookup k = some r →
      (Parser.student (k, r) = some student ↔ k = Parser.key student)
  | _ => True

end GroupAction

/-- An update performed on a server that has room for an added student. -/
structure Performs [Unicode] (node : Node) (update : RosterUpdate) (node' : Node) : Prop where
  apply : node' = update.apply node
  fresh : ∀ s, update = .add s → Parser.key s ∉ node
  readable : ∀ s, update = .add s → Parser.student (Parser.key s, Parser.record s) = some s

/-- The updates done so far have had their effect, in the order in which they came. -/
structure Serialized [Unicode] (node₀ : Node) (updates : List RosterUpdate) (node : Node) :
    Prop where
  serial : node = RosterUpdate.serial updates node₀
  added : ∀ s, RosterUpdate.AddedLast updates s →
    node.lookup (Parser.key s) = some (Parser.record s) ∧
      Parser.student (Parser.key s, Parser.record s) = some s
  deleted : ∀ s, RosterUpdate.DeletedLast updates s → ¬ Present node s

theorem serialized_nil [Unicode] (node : Node) : Serialized node [] node := by
  refine ⟨rfl, ?_, ?_⟩
  · intro s h
    obtain ⟨before, after, heq, -⟩ := h
    simp at heq
  · intro s h
    obtain ⟨before, after, heq, -⟩ := h
    simp at heq

namespace Serialized
variable {node₀ node node' : Node} {updates : List RosterUpdate} {update : RosterUpdate}

/-- An added student takes a key that was free, and no other student is read there. -/
theorem added_perform [Unicode] (h : Serialized node₀ updates node)
    (hperform : Performs node update node')
    {s : Student} (hs : RosterUpdate.AddedLast (updates ++ [update]) s) :
    node'.lookup (Parser.key s) = some (Parser.record s) ∧
      Parser.student (Parser.key s, Parser.record s) = some s := by
  rw [hperform.apply]
  rcases hs.of_append with rfl | ⟨hbefore, hne⟩
  · exact ⟨Finmap.lookup_insert _, hperform.readable s rfl⟩
  obtain ⟨hstored, hread⟩ := h.added s hbefore
  refine ⟨?_, hread⟩
  cases update with
  | add t =>
    have hkey : Parser.key s ≠ Parser.key t := by
      intro hkey
      apply hperform.fresh t rfl
      rw [← hkey]
      exact Finmap.mem_of_lookup_eq_some hstored
    exact (Finmap.lookup_insert_of_ne _ hkey).trans hstored
  | delete t =>
    refine lookup_select_eq_some_iff.mpr ⟨hstored, ?_⟩
    rw [hread, decide_eq_true_eq]
    intro heq
    exact hne (by rw [Option.some.inj heq])

theorem deleted_perform [Unicode] (h : Serialized node₀ updates node)
    (hperform : Performs node update node') {s : Student}
    (hs : RosterUpdate.DeletedLast (updates ++ [update]) s) : ¬ Present node' s := by
  rw [hperform.apply]
  rintro ⟨k, r, hr, hread⟩
  rcases hs.of_append with rfl | ⟨hbefore, hne⟩
  · exact of_decide_eq_true (lookup_select_eq_some_iff.mp hr).2 hread
  have habsent := h.deleted s hbefore
  cases update with
  | add t =>
    by_cases hk : k = Parser.key t
    · rw [RosterUpdate.apply, hk, Finmap.lookup_insert] at hr
      rw [hk, ← Option.some.inj hr, hperform.readable t rfl] at hread
      exact hne (by rw [Option.some.inj hread])
    · rw [RosterUpdate.apply, Finmap.lookup_insert_of_ne _ hk] at hr
      exact habsent ⟨k, r, hr, hread⟩
  | delete t => exact habsent ⟨k, r, (lookup_select_eq_some_iff.mp hr).1, hread⟩

theorem perform [Unicode] (h : Serialized node₀ updates node)
    (hperform : Performs node update node') :
    Serialized node₀ (updates ++ [update]) node' := by
  refine ⟨?_, fun s hs => h.added_perform hperform hs, fun s hs => h.deleted_perform hperform hs⟩
  rw [hperform.apply, h.serial, RosterUpdate.serial_append]
  rfl

end Serialized

/-- An up-to-date step is the update it stands for, or leaves the server alone. -/
theorem performs_step [Unicode] {s t : Node × GroupDevice} {a : GroupAction}
    (h : GroupDevice.Step lower s a t) (hact : a.ListsAddsDeletes) (huptodate : a.UpToDate s)
    (hqueue : s.2.queue = []) :
    t.2.queue = [] ∧ (a.updates = [] ∧ t.1 = s.1 ∨
      ∃ update, a.updates = [update] ∧ Performs s.1 update t.1) := by
  cases h with
  | groupLoad => exact ⟨hqueue, Or.inl ⟨rfl, rfl⟩⟩
  | answer => exact ⟨hqueue, Or.inl ⟨rfl, rfl⟩⟩
  | giveUp => exact ⟨hqueue, Or.inl ⟨rfl, rfl⟩⟩
  | search => exact ⟨hqueue, Or.inl ⟨rfl, rfl⟩⟩
  | openNew => exact ⟨hqueue, Or.inl ⟨rfl, rfl⟩⟩
  | complete hscreen hfetch hfound horder hcompletion =>
    obtain ⟨-, -, -, hwrites⟩ := GroupVC.fetchCompletion_eq_some hcompletion
    simp only at hqueue
    simp [GroupDevice.issue, hwrites, hqueue, GroupAction.updates]
  | @delete remote device i row screen student outcome hscreen hstudent hdelete =>
    obtain ⟨student', displayed, hstudent', -, rfl⟩ := GroupVC.delete_eq_some_iff.mp hdelete
    obtain rfl : student' = student := Option.some.inj (hstudent'.symm.trans hstudent)
    refine ⟨?_, Or.inr ⟨.delete student', rfl, ⟨?_, by simp, by simp⟩⟩⟩
    · simpa [GroupDevice.issue] using hqueue
    · have herase : remote.erase (Parser.key student') =
          select (fun k r => Parser.student (k, r) ≠ some student') remote := by
        apply erase_eq_select
        intro k r hr
        rw [decide_eq_true_eq]
        exact not_congr (huptodate k r hr)
      exact herase
  | @addStudent remote device i vc form outcome hvc hsave =>
    obtain ⟨hcheck, hfree, rfl⟩ := NewStudentTVC.saveBtnPressed_eq_some_iff.mp hsave
    obtain ⟨hten, vc', hvc', hremote⟩ := huptodate
    obtain rfl : vc' = vc := Option.some.inj (hvc'.symm.trans hvc)
    simp only at hremote hqueue
    refine ⟨?_, Or.inr ⟨.add form.student, rfl, ⟨?_, ?_, ?_⟩⟩⟩
    · simp [GroupDevice.issue, NewStudentTVC.save, hqueue]
    · simp [GroupDevice.issue, NewStudentTVC.save, RemoteWrite.apply, RosterUpdate.apply, hremote,
        Parser.unparse, encode_append_singleton]
    · intro s hs hmem
      cases hs
      rw [hremote, Parser.unparse, mem_encode_iff] at hmem
      obtain ⟨other, hother, hkey⟩ := List.mem_map.mp hmem
      exact hfree other hother (Parser.key_injective hkey)
    · intro s hs
      cases hs
      exact Parser.student_key_record form.number_bounds.1 hten ⟨rfl, rfl⟩
  | _ => cases hact

variable {ι : Type}

def updatesOf (path : List (Taken (Shared ι Node GroupDevice) (ι × GroupAction))) :
    List RosterUpdate :=
  path.flatMap fun k => k.act.2.updates

theorem updatesOf_eq (path : List (Taken (Shared ι Node GroupDevice) (ι × GroupAction))) :
    updatesOf path = (path.map Taken.act).flatMap fun a => a.2.updates := by
  rw [List.flatMap_map]
  rfl

/-- The roster is what the adds and deletions of the run make of it one at a time. -/
structure Serializable [Unicode] (node₀ : Node) (updates : List RosterUpdate) (node : Node) :
    Prop where
  order : ∃ order, order.Perm updates ∧ node = RosterUpdate.serial order node₀
  added : ∀ s, .add s ∈ updates → .delete s ∉ updates → Present node s
  deleted : ∀ s, RosterUpdate.DeletedLast updates s → ¬ Present node s

theorem Serialized.serializable [Unicode] {node₀ node : Node} {updates : List RosterUpdate}
    (h : Serialized node₀ updates node) : Serializable node₀ updates node := by
  refine ⟨⟨updates, List.Perm.refl _, h.serial⟩, ?_, h.deleted⟩
  intro s hadd hdelete
  obtain ⟨before, after, rfl⟩ := List.append_of_mem hadd
  obtain ⟨hstored, hread⟩ := h.added s ⟨before, after, rfl, fun hmem =>
    hdelete (List.mem_append_right _ (List.mem_cons_of_mem _ hmem))⟩
  exact ⟨_, _, hstored, hread⟩

/-- Up-to-date saves and deletions are serializable, in the order in which they happen. -/
theorem serializable_of_upToDate [Unicode] [DecidableEq ι] (lower : Char → List Char)
    {s₀ s : Shared ι Node GroupDevice}
    {path : List (Taken (Shared ι Node GroupDevice) (ι × GroupAction))}
    (hidle : ∀ i, (s₀.party i).Idle) (hpath : Path (Interleave (GroupDevice.Step lower)) s₀ path s)
    (hacts : ∀ k ∈ path, k.act.2.ListsAddsDeletes)
    (huptodate : ∀ k ∈ path, k.act.2.UpToDate (k.pre.shared, k.pre.party k.act.1)) :
    Serializable s₀.shared (updatesOf path) s.shared := by
  have hrun : Serialized s₀.shared (updatesOf path) s.shared ∧ ∀ i, (s.party i).queue = [] := by
    induction hpath with
    | nil => exact ⟨serialized_nil _, fun i => (hidle i).2.2.2.2⟩
    | @snoc t u path a _ hstep ih =>
      obtain ⟨hserial, hqueues⟩ := ih
        (fun k hk => hacts k (List.mem_append_left _ hk))
        (fun k hk => huptodate k (List.mem_append_left _ hk))
      have hact := hacts ⟨t, a, u⟩ (by simp)
      have hup := huptodate ⟨t, a, u⟩ (by simp)
      cases hstep with
      | @act i a after hlocal =>
        obtain ⟨hqueue, hperforms⟩ := performs_step hlocal hact hup (hqueues i)
        constructor
        · simp only [updatesOf, List.flatMap_append, List.flatMap_singleton]
          rcases hperforms with ⟨hnone, hsame⟩ | ⟨update, hone, hperform⟩
          · rw [hnone, List.append_nil, hsame]
            exact hserial
          · rw [hone]
            exact hserial.perform hperform
        · intro j
          by_cases hj : j = i
          · subst hj
            simpa using hqueue
          · simpa [Function.update_of_ne hj] using hqueues j
  exact hrun.1.serializable

def petro : Student := sampleStudent "Petro" 3

theorem decodes_trio : Parser.Decodes [ivan, olena, petro] := ⟨by decide, by decide, by decide⟩

def trioNode : Node := Parser.unparse [ivan, olena, petro]

def pairOpened : GroupDevice := { listed [ivan, olena] with newStudents := [⟨[ivan, olena]⟩] }

def petroAdded : GroupDevice :=
  { pairOpened with
    defaults := UserDefaults.store (listed [ivan, olena]).defaults "dataBase" (some trioNode)
    newStudents := [⟨[ivan, olena, petro]⟩] }

def ivanDeleted : GroupDevice :=
  { petroAdded with
    defaults := UserDefaults.store petroAdded.defaults "dataBase" (some (Parser.unparse [olena]))
    groups := [⟨⟨[olena], [olena]⟩, .done⟩] }

/-- The other client fetches both students, adds Petro and deletes Ivan. -/
def deletePath : List (Taken (Node × GroupDevice) GroupAction) :=
  GroupDevice.fetchPath pairNode launchedDevice (fetched [ivan, olena]) ++
    [⟨(pairNode, listed [ivan, olena]), .openNew, (pairNode, pairOpened)⟩,
      ⟨(pairNode, pairOpened), .addStudent 0 petro, (trioNode, petroAdded)⟩,
      ⟨(trioNode, petroAdded), .delete 0 ivan, (trioNode.erase (Parser.key ivan), ivanDeleted)⟩]

theorem path_deletePath [Unicode] :
    Path (GroupDevice.Step lower) (pairNode, launchedDevice) deletePath
      (trioNode.erase (Parser.key ivan), ivanDeleted) := by
  have hfetch := path_listed lower decodes_pair (by decide) (by decide)
  have hopen : GroupDevice.Step lower (pairNode, listed [ivan, olena]) .openNew
      (pairNode, pairOpened) :=
    GroupDevice.step_openNew pairNode decodes_pair (UserDefaults.lookup_store_some _ _ _)
  have hsave : NewStudentTVC.saveBtnPressed ⟨[ivan, olena]⟩ (sampleForm "Petro" 2) = some _ :=
    NewStudentTVC.saveBtnPressed_eq_some_iff.mpr ⟨by decide, by decide, rfl⟩
  have hadd : GroupDevice.Step lower (pairNode, pairOpened) (.addStudent 0 petro)
      (trioNode, petroAdded) := .addStudent rfl hsave
  have hrow : GroupVC.delete ⟨[ivan, olena], [ivan, olena]⟩ 0 = some _ := rfl
  have hdelete : GroupDevice.Step lower (trioNode, petroAdded) (.delete 0 ivan) _ :=
    .delete rfl rfl hrow
  exact ((hfetch.snoc hopen).snoc hadd).snoc hdelete

theorem serializable_of_upToDate_two_clients : ∃ path s,
    path.map Taken.act =
      [(true, .groupLoad), (true, .answer 0), (true, .complete 0), (true, .openNew),
        (true, .addStudent 0 olena), (false, .groupLoad), (false, .answer 0),
        (false, .complete 0), (false, .openNew), (false, .addStudent 0 petro),
        (false, .delete 0 ivan)] ∧
    Path (Interleave (GroupDevice.Step latinLower)) ⟨ivanNode, fun _ : Bool => launchedDevice⟩
      path s ∧
    Serializable ivanNode [.add olena, .add petro, .delete ivan] s.shared := by
  obtain ⟨path, hpath, hacts, hstates⟩ := exists_path_two
    (s := ⟨ivanNode, fun _ : Bool => launchedDevice⟩) (i := true) (j := false) (by decide)
    (path_addPath latinLower) path_deletePath
  have hupToDate : ∀ k ∈ addPath ++ deletePath,
      k.act.ListsAddsDeletes ∧ k.act.UpToDate k.pre := by
    simp only [addPath, openPath, deletePath, GroupDevice.fetchPath, List.cons_append,
      List.nil_append, List.forall_mem_cons]
    refine ⟨⟨trivial, trivial⟩, ⟨trivial, trivial⟩, ⟨trivial, trivial⟩, ⟨trivial, trivial⟩,
      ⟨trivial, by decide, ⟨[ivan]⟩, rfl, rfl⟩, ⟨trivial, trivial⟩, ⟨trivial, trivial⟩,
      ⟨trivial, trivial⟩, ⟨trivial, trivial⟩, ⟨trivial, by decide, ⟨[ivan, olena]⟩, rfl, rfl⟩,
      ⟨trivial, ?_⟩, by simp⟩
    exact fun k r hr => decodes_trio.read_iff List.mem_cons_self hr
  have hserializable := serializable_of_upToDate latinLower
    (fun _ => ⟨rfl, rfl, rfl, rfl, rfl⟩) hpath
    (fun k hk => by
      obtain ⟨k', hk', hact, -⟩ := hstates k hk
      rw [hact]
      exact (hupToDate k' hk').1)
    (fun k hk => by
      obtain ⟨k', hk', hact, hpre⟩ := hstates k hk
      rw [hact, hpre]
      exact (hupToDate k' hk').2)
  rw [updatesOf_eq, hacts] at hserializable
  exact ⟨path, _, hacts, hpath, hserializable⟩

/-- One client opens the form before the other adds Olena, and then stores its own list. -/
theorem exists_path_two_adds : ∃ s path,
    Path (Interleave (GroupDevice.Step latinLower)) ⟨ivanNode, fun _ : Bool => launchedDevice⟩
      path s ∧
    (∀ k ∈ path, k.act.2.ListsAddsDeletes) ∧ updatesOf path = [.add olena, .add petro] ∧
    s.shared = Parser.unparse [ivan, petro] := by
  obtain ⟨path, hpath, hacts, -⟩ := exists_path_two
    (s := ⟨ivanNode, fun _ : Bool => launchedDevice⟩) (i := false) (j := true) (by decide)
    (path_openPath latinLower) (path_addPath latinLower)
  have hsave : NewStudentTVC.saveBtnPressed ⟨[ivan]⟩ (sampleForm "Petro" 2) = some _ :=
    NewStudentTVC.saveBtnPressed_eq_some_iff.mpr ⟨by decide, by decide, rfl⟩
  have hadd : GroupDevice.Step latinLower (pairNode, ivanOpened) (.addStudent 0 petro) _ :=
    .addStudent rfl hsave
  have hrun := hpath.snoc (Interleave.act (i := false) hadd)
  refine ⟨_, _, hrun, ?_, ?_, rfl⟩
  · have hlists : ∀ a ∈ path.map Taken.act, a.2.ListsAddsDeletes := by
      rw [hacts]
      simp [openPath, addPath, GroupDevice.fetchPath, GroupAction.ListsAddsDeletes]
    intro k hk
    rcases List.mem_append.mp hk with hk | hk
    · exact hlists k.act (List.mem_map_of_mem hk)
    · rw [List.mem_singleton.mp hk]
      trivial
  · rw [updatesOf_eq, List.map_append, hacts]
    rfl

/-- Olena was added, nobody deleted her, and the roster does not have her. -/
theorem not_serializable : ¬ ∀ (lower : Char → List Char) (s₀ s : Shared Bool Node GroupDevice)
    (path : List (Taken (Shared Bool Node GroupDevice) (Bool × GroupAction))),
    (∀ i, (s₀.party i).Idle) → Path (Interleave (GroupDevice.Step lower)) s₀ path s →
    (∀ k ∈ path, k.act.2.ListsAddsDeletes) →
    ∃ order, order.Perm (updatesOf path) ∧ s.shared = RosterUpdate.serial order s₀.shared := by
  intro h
  obtain ⟨s, path, hpath, hacts, hupdates, hshared⟩ := exists_path_two_adds
  obtain ⟨order, hperm, horder⟩ := h _ _ _ _ (fun _ => ⟨rfl, rfl, rfl, rfl, rfl⟩) hpath hacts
  rw [hupdates] at hperm
  have hadds : ∀ t, .delete t ∉ order := by
    intro t ht
    have hmem := hperm.mem_iff.mp ht
    simp at hmem
  have holena := RosterUpdate.mem_serial_of_add ivanNode hadds
    (hperm.mem_iff.mpr List.mem_cons_self)
  rw [← horder, hshared] at holena
  revert holena
  decide

end Studkurator
