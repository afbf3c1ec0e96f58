import Studkurator.Library.Transition

/-!
# Runs that act on single cells

A state is seen as a family of cells, and each step of a run performs operations on some of
them. What a cell holds in the end depends only on the operations on that cell, in their
order: how they are mixed with the operations on other cells does not matter.
-/

namespace Cells

open Transition

set_option autoImplicit false

universe u v w x y

variable {σ : Type u} {ι : Type v} {κ : Type w} {ω : Type x} {β : Type y} [DecidableEq κ]

/-- The operations on the cell `k`, in their order. -/
def operationsOn (k : κ) (touches : List (κ × ω)) : List ω :=
  touches.filterMap fun touch => if touch.1 = k then some touch.2 else none

section Operations
variable (k : κ)

@[simp] theorem operationsOn_nil : operationsOn k ([] : List (κ × ω)) = [] := rfl

@[simp] theorem operationsOn_append (touches touches' : List (κ × ω)) :
    operationsOn k (touches ++ touches') = operationsOn k touches ++ operationsOn k touches' :=
  List.filterMap_append

@[simp] theorem operationsOn_singleton_self (op : ω) : operationsOn k [(k, op)] = [op] := by
  simp [operationsOn]

theorem operationsOn_singleton_of_ne {k' : κ} (h : k' ≠ k) (op : ω) :
    operationsOn k [(k', op)] = [] := by
  simp [operationsOn, h]

theorem mem_operationsOn_iff {touches : List (κ × ω)} {op : ω} :
    op ∈ operationsOn k touches ↔ (k, op) ∈ touches := by
  simp only [operationsOn, List.mem_filterMap, Option.ite_none_right_eq_some, Option.some.injEq]
  constructor
  · intro h
    obtain ⟨⟨k', op'⟩, hmem, rfl, rfl⟩ := h
    exact hmem
  · intro h
    exact ⟨(k, op), h, rfl, rfl⟩

end Operations

section Effects
variable (cell : σ → κ → β) (act : ω → β → β)

/-- Between the two states every cell has changed by the operations on it and nothing else. -/
def Performed (touches : List (κ × ω)) (s t : σ) : Prop :=
  ∀ k, cell t k = (operationsOn k touches).foldl (fun b op => act op b) (cell s k)

variable {cell act} {s t u : σ} {touches touches' : List (κ × ω)}

theorem performed_nil (h : cell t = cell s) : Performed cell act ([] : List (κ × ω)) s t := by
  intro k
  rw [h]
  rfl

theorem performed_singleton {k : κ} {op : ω} (hself : cell t k = act op (cell s k))
    (hother : ∀ k', k' ≠ k → cell t k' = cell s k') : Performed cell act [(k, op)] s t := by
  intro k'
  by_cases hk : k' = k
  · subst hk
    simpa using hself
  · rw [operationsOn_singleton_of_ne k' (Ne.symm hk)]
    exact hother k' hk

theorem Performed.trans (h : Performed cell act touches s t)
    (h' : Performed cell act touches' t u) : Performed cell act (touches ++ touches') s u := by
  intro k
  rw [operationsOn_append, List.foldl_append, ← h k]
  exact h' k

/-- The operations of a run are those of its steps, one after another. -/
theorem performed_of_path {Step : σ → ι → σ → Prop} {path : List (Taken σ ι)}
    (effect : Taken σ ι → List (κ × ω)) (hpath : Path Step s path t)
    (hstep : ∀ k ∈ path, Performed cell act (effect k) k.pre k.post) :
    Performed cell act (path.flatMap effect) s t := by
  induction hpath with
  | nil => exact performed_nil rfl
  | @snoc t u path a _ _ ih =>
    have hbefore := ih fun k hk => hstep k (List.mem_append_left _ hk)
    have hlast := hstep ⟨t, a, u⟩ (List.mem_append_right _ List.mem_cons_self)
    rw [List.flatMap_append, List.flatMap_singleton]
    exact hbefore.trans hlast

/-- The same operations on each cell lead from the same cells to the same cells, also for
runs of different systems. -/
theorem Performed.congr {σ' : Type*} {cell' : σ' → κ → β} {s' t' : σ'}
    (h : Performed cell act touches s t) (h' : Performed cell' act touches' s' t')
    (hstart : cell s = cell' s') (hsame : ∀ k, operationsOn k touches = operationsOn k touches') :
    cell t = cell' t' := by
  funext k
  rw [h k, h' k, hstart, hsame k]

end Effects

end Cells
