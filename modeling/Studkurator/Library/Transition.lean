import Mathlib.Data.List.Basic
import Mathlib.Logic.Function.Basic

/-!
# Runs of labelled transition systems

A `Path` records every step it takes together with the states around it, so that
a property of a run can speak about the moment at which a step was taken.
-/

namespace Transition

set_option autoImplicit false

universe u v

structure Taken (σ : Type u) (ι : Type v) where
  pre : σ
  act : ι
  post : σ

/-- The same step between the images of its states. -/
def Taken.map {σ : Type u} {τ : Type*} {ι : Type v} (f : σ → τ) (k : Taken σ ι) : Taken τ ι :=
  ⟨f k.pre, k.act, f k.post⟩

/-- `Path Step s path t`: the steps of `path`, oldest first, lead from `s` to `t`. -/
inductive Path {σ : Type u} {ι : Type v} (Step : σ → ι → σ → Prop) (s : σ) :
    List (Taken σ ι) → σ → Prop where
  | nil : Path Step s [] s
  | snoc {t u : σ} {path : List (Taken σ ι)} {a : ι} :
      Path Step s path t → Step t a u → Path Step s (path ++ [⟨t, a, u⟩]) u

variable {σ : Type u} {ι : Type v} {Step : σ → ι → σ → Prop} {s t u : σ}
variable {path path' : List (Taken σ ι)}

namespace Path

theorem single {a : ι} (h : Step s a t) : Path Step s [⟨s, a, t⟩] t := .snoc .nil h

theorem trans (h : Path Step s path t) (h' : Path Step t path' u) :
    Path Step s (path ++ path') u := by
  induction h' with
  | nil => simpa using h
  | snoc _ hstep ih => simpa using Path.snoc ih hstep

theorem step_of_mem (h : Path Step s path t) {k : Taken σ ι} (hk : k ∈ path) :
    Step k.pre k.act k.post := by
  induction h with
  | nil => simp at hk
  | snoc _ hstep ih =>
    rcases List.mem_append.mp hk with hk | hk
    · exact ih hk
    · rw [List.mem_singleton.mp hk]
      exact hstep

theorem prefix_of_mem (h : Path Step s path t) {k : Taken σ ι} (hk : k ∈ path) :
    ∃ before, before <+: path ∧ Path Step s before k.pre := by
  induction h with
  | nil => simp at hk
  | @snoc t u path a hpath _ ih =>
    rcases List.mem_append.mp hk with hk | hk
    · obtain ⟨before, hprefix, hbefore⟩ := ih hk
      exact ⟨before, hprefix.trans (List.prefix_append _ _), hbefore⟩
    · rw [List.mem_singleton.mp hk]
      exact ⟨path, List.prefix_append _ _, hpath⟩

section Invariant
variable {Inv Good : σ → Prop} {Guard : σ → ι → Prop}

theorem invariant (hstep : ∀ s a t, Inv s → Step s a t → Inv t)
    (h : Path Step s path t) (hs : Inv s) : Inv t := by
  induction h with
  | nil => exact hs
  | snoc _ h ih => exact hstep _ _ _ ih h

theorem invariant_of_guard (hstep : ∀ s a t, Inv s → Guard s a → Step s a t → Inv t)
    (h : Path Step s path t) (hguard : ∀ k ∈ path, Guard k.pre k.act) (hs : Inv s) : Inv t := by
  induction h with
  | nil => exact hs
  | snoc _ h ih =>
    have hpath := ih fun k hk => hguard k (List.mem_append_left _ hk)
    have hlast := hguard _ (List.mem_append_right _ List.mem_cons_self)
    exact hstep _ _ _ hpath hlast h

theorem invariant_of_mem (hstep : ∀ s a t, Inv s → Step s a t → Inv t)
    (h : Path Step s path t) (hs : Inv s) {k : Taken σ ι} (hk : k ∈ path) :
    Inv k.pre ∧ Inv k.post := by
  obtain ⟨_, _, hbefore⟩ := h.prefix_of_mem hk
  have hpre := hbefore.invariant hstep hs
  exact ⟨hpre, hstep _ _ _ hpre (h.step_of_mem hk)⟩

theorem invariant_of_guard_of_mem
    (hstep : ∀ s a t, Inv s → Guard s a → Step s a t → Inv t) (h : Path Step s path t)
    (hguard : ∀ k ∈ path, Guard k.pre k.act) (hs : Inv s) {k : Taken σ ι} (hk : k ∈ path) :
    Inv k.pre := by
  obtain ⟨before, hbefore, hpre⟩ := h.prefix_of_mem hk
  exact hpre.invariant_of_guard hstep (fun k' hk' => hguard k' (hbefore.subset hk')) hs

theorem exists_guarded_snoc {a : ι}
    (h : ∃ path, Path Step s path t ∧ ∀ k ∈ path, Guard k.pre k.act) (hstep : Step t a u)
    (hguard : Guard t a) : ∃ path, Path Step s path u ∧ ∀ k ∈ path, Guard k.pre k.act := by
  obtain ⟨path, hpath, hguards⟩ := h
  refine ⟨_, hpath.snoc hstep, ?_⟩
  simpa only [List.forall_mem_append, List.forall_mem_singleton] using ⟨hguards, hguard⟩

theorem exists_guarded_trans (h : ∃ path, Path Step s path t ∧ ∀ k ∈ path, Guard k.pre k.act)
    (h' : ∃ path, Path Step t path u ∧ ∀ k ∈ path, Guard k.pre k.act) :
    ∃ path, Path Step s path u ∧ ∀ k ∈ path, Guard k.pre k.act := by
  obtain ⟨path, hpath, hguard⟩ := h
  obtain ⟨path', hpath', hguard'⟩ := h'
  exact ⟨_, hpath.trans hpath', List.forall_mem_append.mpr ⟨hguard, hguard'⟩⟩

/-- If, under the invariant, a step keeps it exactly when it meets the condition, then a
run stays good throughout exactly when all its steps meet the condition. -/
theorem forall_good_iff (hgood : ∀ s, Inv s → Good s)
    (hkeep : ∀ s a t, Inv s → Guard s a → Step s a t → Inv t)
    (hneed : ∀ s a t, Inv s → Step s a t → Good t → Guard s a)
    (h : Path Step s path t) (hs : Inv s) :
    (∀ k ∈ path, Good k.post) ↔ ∀ k ∈ path, Guard k.pre k.act := by
  induction h with
  | nil => simp
  | snoc hpath hlast ih =>
    simp only [List.forall_mem_append, List.forall_mem_singleton]
    constructor
    · rintro ⟨hbefore, hlastGood⟩
      have hguard := ih.mp hbefore
      exact ⟨hguard, hneed _ _ _ (hpath.invariant_of_guard hkeep hguard hs) hlast hlastGood⟩
    · rintro ⟨hguard, hlastGuard⟩
      have hinv := hpath.invariant_of_guard hkeep hguard hs
      exact ⟨ih.mpr hguard, hgood _ (hkeep _ _ _ hinv hlastGuard hlast)⟩

end Invariant

section Simulation
variable {τ : Type*} {Step' : τ → ι → τ → Prop} {Inv : σ → Prop} {Guard : σ → ι → Prop}

/-- A map that takes steps to steps, as long as the invariant and the condition are met,
takes runs to runs. -/
theorem map_of_guard {f : σ → τ} (hstep : ∀ s a t, Inv s → Guard s a → Step s a t → Inv t)
    (hmap : ∀ s a t, Inv s → Guard s a → Step s a t → Step' (f s) a (f t))
    (h : Path Step s path t) (hguard : ∀ k ∈ path, Guard k.pre k.act) (hs : Inv s) :
    Path Step' (f s) (path.map (Taken.map f)) (f t) := by
  induction h with
  | nil => exact .nil
  | snoc hbefore hlast ih =>
    have hguards := fun k hk => hguard k (List.mem_append_left _ hk)
    have hlastGuard := hguard _ (List.mem_append_right _ List.mem_cons_self)
    have hinv := hbefore.invariant_of_guard hstep hguards hs
    rw [List.map_append]
    exact (ih hguards).snoc (hmap _ _ _ hinv hlastGuard hlast)

end Simulation

end Path

section Interleaving
variable {γ : Type*} {δ : Type*} {α : Type*} {κ : Type*}

structure Shared (κ : Type*) (γ : Type*) (δ : Type*) where
  shared : γ
  party : κ → δ

/-- One party acts on its own state and on the shared one, the others stand still. -/
inductive Interleave [DecidableEq κ] (Local : γ × δ → α → γ × δ → Prop) :
    Shared κ γ δ → κ × α → Shared κ γ δ → Prop where
  | act {s : Shared κ γ δ} {i : κ} {a : α} {after : γ × δ} :
      Local (s.shared, s.party i) a after →
      Interleave Local s (i, a) ⟨after.1, Function.update s.party i after.2⟩

/-- The step of the party that acts. -/
theorem Interleave.step_party [DecidableEq κ] {Local : γ × δ → α → γ × δ → Prop}
    {s t : Shared κ γ δ} {a : κ × α} (h : Interleave Local s a t) :
    Local (s.shared, s.party a.1) a.2 (t.shared, t.party a.1) := by
  cases h with
  | act hlocal => simpa using hlocal

def Everywhere (G : γ → Prop) (L : δ → Prop) (s : Shared κ γ δ) : Prop :=
  G s.shared ∧ ∀ i, L (s.party i)

variable [DecidableEq κ] {Local : γ × δ → α → γ × δ → Prop} {G : γ → Prop} {L : δ → Prop}

/-- A property that each party keeps on its own survives the steps that meet a condition. -/
theorem everywhere_step_of_guard (Guard : γ × δ → α → Prop)
    (hlocal : ∀ s a t, G s.1 → L s.2 → Guard s a → Local s a t → G t.1 ∧ L t.2)
    (s : Shared κ γ δ) (a : κ × α) (t : Shared κ γ δ) (hs : Everywhere G L s)
    (hguard : Guard (s.shared, s.party a.1) a.2) (h : Interleave Local s a t) :
    Everywhere G L t := by
  obtain ⟨hshared, hparty⟩ := hs
  cases h with
  | @act i a after hact =>
    obtain ⟨hG, hL⟩ := hlocal _ _ _ hshared (hparty i) hguard hact
    refine ⟨hG, ?_⟩
    intro j
    by_cases hj : j = i
    · subst hj
      simpa using hL
    · simpa [Function.update_of_ne hj] using hparty j

theorem everywhere_step
    (hlocal : ∀ s a t, G s.1 → L s.2 → Local s a t → G t.1 ∧ L t.2)
    (s : Shared κ γ δ) (a : κ × α) (t : Shared κ γ δ) (hs : Everywhere G L s)
    (h : Interleave Local s a t) : Everywhere G L t :=
  everywhere_step_of_guard (fun _ _ => True) (fun s a t hG hL _ => hlocal s a t hG hL)
    s a t hs trivial h

/-- What one party does alone it can do among the others, from the same states of its own. -/
theorem exists_path_interleave_states {s : Shared κ γ δ} {i : κ} {path : List (Taken (γ × δ) α)}
    {t : γ × δ} (h : Path Local (s.shared, s.party i) path t) :
    ∃ path', Path (Interleave Local) s path' ⟨t.1, Function.update s.party i t.2⟩ ∧
      path'.map Taken.act = path.map (fun k => (i, k.act)) ∧
      ∀ k' ∈ path', ∃ k ∈ path, k'.act = (i, k.act) ∧ (k'.pre.shared, k'.pre.party i) = k.pre := by
  induction h with
  | nil => exact ⟨[], by simpa using Path.nil, rfl, by simp⟩
  | @snoc t u path a _ hstep ih =>
    obtain ⟨path', hpath', hacts, hstates⟩ := ih
    have hlocal : Local (t.1, Function.update s.party i t.2 i) a u := by
      simpa using hstep
    have hlast := Path.snoc hpath' (Interleave.act (i := i) hlocal)
    rw [Function.update_idem] at hlast
    refine ⟨_, hlast, by simp [hacts], ?_⟩
    intro k' hk'
    rcases List.mem_append.mp hk' with hk' | hk'
    · obtain ⟨k, hk, hact, hpre⟩ := hstates k' hk'
      exact ⟨k, List.mem_append_left _ hk, hact, hpre⟩
    · rw [List.mem_singleton.mp hk']
      exact ⟨⟨t, a, u⟩, List.mem_append_right _ List.mem_cons_self, rfl, by simp⟩

theorem exists_path_interleave_acts {s : Shared κ γ δ} {i : κ} {path : List (Taken (γ × δ) α)}
    {t : γ × δ} (h : Path Local (s.shared, s.party i) path t) :
    ∃ path', Path (Interleave Local) s path' ⟨t.1, Function.update s.party i t.2⟩ ∧
      path'.map Taken.act = path.map fun k => (i, k.act) := by
  obtain ⟨path', hpath', hacts, -⟩ := exists_path_interleave_states h
  exact ⟨path', hpath', hacts⟩

theorem exists_path_interleave {s : Shared κ γ δ} {i : κ} {path : List (Taken (γ × δ) α)}
    {t : γ × δ} (h : Path Local (s.shared, s.party i) path t) :
    ∃ path', Path (Interleave Local) s path' ⟨t.1, Function.update s.party i t.2⟩ := by
  obtain ⟨path', hpath', -⟩ := exists_path_interleave_acts h
  exact ⟨path', hpath'⟩

/-- One party acts alone, then another does. -/
theorem exists_path_two {s : Shared κ γ δ} {i j : κ} (hij : j ≠ i)
    {path path' : List (Taken (γ × δ) α)} {t u : γ × δ}
    (h : Path Local (s.shared, s.party i) path t) (h' : Path Local (t.1, s.party j) path' u) :
    ∃ run, Path (Interleave Local) s run
        ⟨u.1, Function.update (Function.update s.party i t.2) j u.2⟩ ∧
      run.map Taken.act = path.map (fun k => (i, k.act)) ++ path'.map (fun k => (j, k.act)) ∧
      ∀ k' ∈ run, ∃ k ∈ path ++ path', k'.act.2 = k.act ∧
        (k'.pre.shared, k'.pre.party k'.act.1) = k.pre := by
  obtain ⟨run, hrun, hacts, hstates⟩ := exists_path_interleave_states h
  rw [← Function.update_of_ne hij t.2 s.party] at h'
  obtain ⟨run', hrun', hacts', hstates'⟩ := exists_path_interleave_states
    (s := ⟨t.1, Function.update s.party i t.2⟩) h'
  refine ⟨run ++ run', hrun.trans hrun', by rw [List.map_append, hacts, hacts'], ?_⟩
  intro k' hk'
  rcases List.mem_append.mp hk' with hk' | hk'
  · obtain ⟨k, hk, hact, hpre⟩ := hstates k' hk'
    exact ⟨k, List.mem_append_left _ hk, by rw [hact], by rw [hact]; exact hpre⟩
  · obtain ⟨k, hk, hact, hpre⟩ := hstates' k' hk'
    exact ⟨k, List.mem_append_right _ hk, by rw [hact], by rw [hact]; exact hpre⟩

end Interleaving

section Components
variable {α : Type*} {P : α → Prop} {l : List α}

theorem forall_mem_set (h : ∀ a ∈ l, P a) {i : ℕ} {b : α} (hb : P b) : ∀ a ∈ l.set i b, P a := by
  intro a ha
  rcases List.mem_or_eq_of_mem_set ha with ha | rfl
  · exact h a ha
  · exact hb

theorem forall_mem_concat (h : ∀ a ∈ l, P a) {b : α} (hb : P b) : ∀ a ∈ l ++ [b], P a := by
  intro a ha
  rcases List.mem_append.mp ha with ha | ha
  · exact h a ha
  · rw [List.mem_singleton.mp ha]
    exact hb

end Components

end Transition
