import Studkurator.Library.Dictionary

/-!
# Loading a dictionary and storing it again

The entries are decoded one after another and the results stored under their own keys. Where
two entries end up under one key the last one wins, so the outcome can depend on the order of
iteration. It does not exactly when such entries are stored with the same value.
-/

namespace Dictionary

set_option autoImplicit false

universe u v w

variable {κ : Type u} {ν : Type v} {α : Type w} [DecidableEq κ]

/-- Elements that are stored under one key are stored with one value. -/
def Agree (key : α → κ) (val : α → ν) (data : List α) : Prop :=
  ∀ a ∈ data, ∀ b ∈ data, key a = key b → val a = val b

theorem Agree.lookup_eq_some_iff {key : α → κ} {val : α → ν} {data : List α}
    (h : Agree key val data) (k : κ) (v : ν) :
    (encode key val data).lookup k = some v ↔ ∃ a ∈ data, key a = k ∧ val a = v := by
  constructor
  · exact exists_of_lookup_encode key val
  · intro hv
    obtain ⟨a, ha, rfl, rfl⟩ := hv
    have hmem : key a ∈ encode key val data :=
      (mem_encode_iff key val data _).mpr (List.mem_map_of_mem ha)
    obtain ⟨v, hv⟩ := Finmap.mem_iff.mp hmem
    obtain ⟨b, hb, hkey, rfl⟩ := exists_of_lookup_encode key val hv
    rw [hv, h b hb a ha hkey]

theorem Agree.encode_eq {key : α → κ} {val : α → ν} {data data' : List α}
    (h : Agree key val data) (hmem : ∀ a, a ∈ data ↔ a ∈ data') :
    encode key val data = encode key val data' := by
  have h' : Agree key val data' := fun a ha b hb =>
    h a ((hmem a).mpr ha) b ((hmem b).mpr hb)
  apply Finmap.ext_lookup
  intro k
  apply Option.ext
  intro v
  simp only [h.lookup_eq_some_iff, h'.lookup_eq_some_iff, hmem]

theorem exists_iterates_append {dict : Dict κ ν} {k : κ} {v : ν} (h : dict.lookup k = some v) :
    ∃ order, Iterates (order ++ [(k, v)]) dict := by
  obtain ⟨order, horder⟩ := exists_iterates dict
  have hmem : (k, v) ∈ order := (horder.mem_iff k v).mpr h
  obtain ⟨before, after, rfl⟩ := List.append_of_mem hmem
  have hperm : (before ++ (k, v) :: after).Perm (before ++ after ++ [(k, v)]) := by
    rw [List.append_assoc]
    exact (List.perm_append_singleton _ _).symm.append_left before
  refine ⟨before ++ after, (hperm.map Prod.fst).nodup_iff.mp horder.1, ?_⟩
  have hagree : Agree Prod.fst Prod.snd (before ++ (k, v) :: after) := by
    intro a ha b hb hkey
    rw [List.inj_on_of_nodup_map horder.1 ha hb hkey]
  rw [← hagree.encode_eq fun a => hperm.mem_iff]
  exact horder.2

variable {μ : Type*} {dec : κ × ν → Option α} {key : α → κ} {val : α → μ}
variable {dict : Dict κ ν}

/-- Whatever the orders of iteration, the same dictionary is stored. -/
def OrderIndependent (dec : κ × ν → Option α) (key : α → κ) (val : α → μ) (dict : Dict κ ν) :
    Prop :=
  ∀ order order' data data', Iterates order dict → Iterates order' dict →
    order.mapM dec = some data → order'.mapM dec = some data' →
    encode key val data = encode key val data'

/-- Entries that are stored under one key are stored with one value. -/
def EntriesAgree (dec : κ × ν → Option α) (key : α → κ) (val : α → μ) (dict : Dict κ ν) : Prop :=
  ∀ k v k' v' a a', dict.lookup k = some v → dict.lookup k' = some v' → dec (k, v) = some a →
    dec (k', v') = some a' → key a = key a' → val a = val a'

theorem EntriesAgree.agree (h : EntriesAgree dec key val dict) {order : List (κ × ν)}
    (horder : Iterates order dict) {data : List α} (hdata : order.mapM dec = some data) :
    Agree key val data := by
  intro a ha b hb hkey
  obtain ⟨k, v, hv, hdec⟩ := (horder.mem_decoded_iff hdata a).mp ha
  obtain ⟨k', v', hv', hdec'⟩ := (horder.mem_decoded_iff hdata b).mp hb
  exact h k v k' v' a b hv hv' hdec hdec' hkey

theorem lookup_encode_of_mapM_append {order : List (κ × ν)} {entry : κ × ν} {data : List α}
    {a : α} (hdata : (order ++ [entry]).mapM dec = some data) (ha : dec entry = some a) :
    (encode key val data).lookup (key a) = some (val a) := by
  obtain ⟨-, rfl⟩ := (mapM_eq_some_iff dec _ data).mp hdata
  rw [List.filterMap_append, List.filterMap_cons, ha]
  exact lookup_encode_append_singleton_self key val _ a

theorem orderIndependent_iff (hall : Entries (fun k v => (dec (k, v)).isSome) dict) :
    OrderIndependent dec key val dict ↔ EntriesAgree dec key val dict := by
  constructor
  · intro h k v k' v' a a' hv hv' ha ha' hkey
    -- Each of the two entries wins in an order that ends with it.
    obtain ⟨order, horder⟩ := exists_iterates_append hv
    obtain ⟨order', horder'⟩ := exists_iterates_append hv'
    obtain ⟨data, hdata⟩ := Option.isSome_iff_exists.mp (horder.isSome_mapM_iff.mpr hall)
    obtain ⟨data', hdata'⟩ := Option.isSome_iff_exists.mp (horder'.isSome_mapM_iff.mpr hall)
    have hstored : (encode key val data).lookup (key a) = some (val a) :=
      lookup_encode_of_mapM_append hdata ha
    have hstored' : (encode key val data').lookup (key a') = some (val a') :=
      lookup_encode_of_mapM_append hdata' ha'
    rw [h _ _ _ _ horder horder' hdata hdata', hkey, hstored'] at hstored
    exact (Option.some.inj hstored).symm
  · intro h order order' data data' horder horder' hdata hdata'
    apply (h.agree horder hdata).encode_eq
    intro a
    rw [horder.mem_decoded_iff hdata, horder'.mem_decoded_iff hdata']

end Dictionary
