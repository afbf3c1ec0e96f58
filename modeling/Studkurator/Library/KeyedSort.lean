import Mathlib.Data.List.Sort
import Studkurator.Library.Dictionary

/-!
# Sorting through a dictionary

The elements are stored under their keys, the keys are sorted, and each key is looked
up again. Where a key determines its element this is an ordinary sort; the result then
depends on the elements only, not on the order in which they came.
-/

namespace Dictionary

set_option autoImplicit false

universe u v

variable {α : Type u} {κ : Type v}

/-- No two different elements of the list have the same key. -/
def Determined (key : α → κ) (data : List α) : Prop :=
  ∀ a ∈ data, ∀ b ∈ data, key a = key b → a = b

theorem Determined.of_subset {key : α → κ} {data data' : List α} (h : Determined key data)
    (hsub : ∀ a ∈ data', a ∈ data) : Determined key data' :=
  fun a ha b hb hkey => h a (hsub a ha) b (hsub b hb) hkey

theorem determined_of_nodup {key : α → κ} {data : List α} (h : (data.map key).Nodup) :
    Determined key data :=
  fun _ ha _ hb hkey => List.inj_on_of_nodup_map h ha hb hkey

variable [LinearOrder κ] (key : α → κ)

def sortByKey (data : List α) : Option (List α) :=
  ((data.map key).insertionSort (· ≤ ·)).mapM fun k => (encode key id data).lookup k

theorem exists_sortByKey (data : List α) : ∃ sorted, sortByKey key data = some sorted := by
  refine ⟨_, (mapM_eq_some_iff _ _ _).mpr ⟨?_, rfl⟩⟩
  intro k hk
  have hmem : k ∈ encode key id data :=
    (mem_encode_iff key id data k).mpr ((List.mem_insertionSort _).mp hk)
  exact Finmap.lookup_isSome.mpr hmem

theorem map_key_of_sortByKey {data sorted : List α} (h : sortByKey key data = some sorted) :
    sorted.map key = (data.map key).insertionSort (· ≤ ·) := by
  have hkeys : sorted.map key = ((data.map key).insertionSort (· ≤ ·)).map id := by
    apply map_of_mapM h
    intro k _ a ha
    obtain ⟨b, -, hkey, hb⟩ := exists_of_lookup_encode key id ha
    rw [← hb]
    exact hkey
  rw [hkeys, List.map_id]

theorem pairwise_of_sortByKey {data sorted : List α} (h : sortByKey key data = some sorted) :
    sorted.Pairwise fun a b => key a ≤ key b := by
  rw [← List.pairwise_map (f := key), map_key_of_sortByKey key h]
  exact List.pairwise_insertionSort _ _

theorem perm_map_key_of_sortByKey {data sorted : List α} (h : sortByKey key data = some sorted) :
    (sorted.map key).Perm (data.map key) := by
  rw [map_key_of_sortByKey key h]
  exact List.perm_insertionSort _ _

theorem length_of_sortByKey {data sorted : List α} (h : sortByKey key data = some sorted) :
    sorted.length = data.length := by
  simpa using (perm_map_key_of_sortByKey key h).length_eq

/-- Each element of the result is what the dictionary holds under its key. -/
theorem lookup_of_sortByKey {data sorted : List α} (h : sortByKey key data = some sorted)
    {a : α} (ha : a ∈ sorted) : (encode key id data).lookup (key a) = some a := by
  obtain ⟨k, -, hk⟩ := (mem_iff_of_mapM h a).mp ha
  obtain ⟨b, -, hkey, rfl⟩ := exists_of_lookup_encode key id hk
  rw [← hkey] at hk
  exact hk

theorem mem_of_sortByKey {data sorted : List α} (h : sortByKey key data = some sorted)
    {a : α} (ha : a ∈ sorted) : a ∈ data := by
  obtain ⟨b, hb, -, rfl⟩ := exists_of_lookup_encode key id (lookup_of_sortByKey key h ha)
  exact hb

/-- Two elements of the result with one key come from one entry of the dictionary. -/
theorem determined_of_sortByKey {data sorted : List α} (h : sortByKey key data = some sorted) :
    Determined key sorted := by
  intro a ha b hb hkey
  have hlookup := lookup_of_sortByKey key h ha
  rw [hkey, lookup_of_sortByKey key h hb] at hlookup
  exact (Option.some.inj hlookup).symm

variable {key}

theorem Determined.lookup_eq_some_iff {data : List α} (h : Determined key data) (k : κ) (a : α) :
    (encode key id data).lookup k = some a ↔ a ∈ data ∧ key a = k := by
  constructor
  · intro ha
    obtain ⟨b, hb, hkey, rfl⟩ := exists_of_lookup_encode key id ha
    exact ⟨hb, hkey⟩
  · rintro ⟨ha, rfl⟩
    have hmem : key a ∈ encode key id data :=
      (mem_encode_iff key id data _).mpr (List.mem_map_of_mem ha)
    obtain ⟨b, hb⟩ := Finmap.mem_iff.mp hmem
    obtain ⟨c, hc, hkey, rfl⟩ := exists_of_lookup_encode key id hb
    rw [hb, h a ha c hc hkey.symm]
    rfl

theorem Determined.perm_of_sortByKey {data sorted : List α} (h : Determined key data)
    (hsorted : sortByKey key data = some sorted) : sorted.Perm data := by
  have hback : (data.map key).mapM (fun k => (encode key id data).lookup k) = some data := by
    have hlookup : ∀ a ∈ data, (encode key id data).lookup (key a) = some a :=
      fun a ha => (h.lookup_eq_some_iff _ _).mpr ⟨ha, rfl⟩
    rw [mapM_eq_some_iff, List.filterMap_map]
    constructor
    · intro k hk
      obtain ⟨a, ha, rfl⟩ := List.mem_map.mp hk
      simp [hlookup a ha]
    · have hid : data.filterMap ((fun k => (encode key id data).lookup k) ∘ key) =
          data.filterMap some := List.filterMap_congr fun a ha => hlookup a ha
      rw [hid, List.filterMap_some]
  obtain ⟨sorted', hsorted', hperm⟩ := mapM_perm (List.perm_insertionSort (· ≤ ·) _) hback
  have heq : sorted = sorted' := Option.some.inj (hsorted.symm.trans hsorted')
  rw [heq]
  exact hperm

/-- Nothing is lost or doubled exactly when the keys tell the elements apart. -/
theorem perm_iff_determined {data sorted : List α} (h : sortByKey key data = some sorted) :
    sorted.Perm data ↔ Determined key data := by
  constructor
  · intro hperm
    exact (determined_of_sortByKey key h).of_subset fun a ha => hperm.mem_iff.mpr ha
  · intro hdetermined
    exact hdetermined.perm_of_sortByKey h

/-- Sorting the result again changes nothing. -/
theorem sortByKey_sortByKey {data sorted : List α} (h : sortByKey key data = some sorted) :
    sortByKey key sorted = some sorted := by
  have hdetermined := determined_of_sortByKey key h
  obtain ⟨again, hagain⟩ := exists_sortByKey key sorted
  have hperm : again.Perm sorted := hdetermined.perm_of_sortByKey hagain
  have heq : again = sorted := by
    apply hperm.eq_of_pairwise _ (pairwise_of_sortByKey key hagain) (pairwise_of_sortByKey key h)
    intro a b ha hb hab hba
    exact hdetermined a (hperm.mem_iff.mp ha) b hb (le_antisymm hab hba)
  rw [hagain, heq]

/-- The order in which the elements came does not matter. -/
theorem Determined.sortByKey_eq_of_perm {data data' : List α} (h : Determined key data)
    (hperm : data.Perm data') : sortByKey key data = sortByKey key data' := by
  have h' : Determined key data' := h.of_subset fun a ha => hperm.mem_iff.mpr ha
  have hdict : encode key id data = encode key id data' := by
    apply Finmap.ext_lookup
    intro k
    apply Option.ext
    intro a
    rw [h.lookup_eq_some_iff, h'.lookup_eq_some_iff, hperm.mem_iff]
  have hkeys : (data.map key).insertionSort (· ≤ ·) = (data'.map key).insertionSort (· ≤ ·) := by
    apply List.Perm.eq_of_pairwise' (List.pairwise_insertionSort _ _)
      (List.pairwise_insertionSort _ _)
    exact (List.perm_insertionSort _ _).trans
      ((hperm.map key).trans (List.perm_insertionSort _ _).symm)
  rw [sortByKey, sortByKey, hdict, hkeys]

end Dictionary
