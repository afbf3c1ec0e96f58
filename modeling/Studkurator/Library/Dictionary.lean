import Mathlib.Data.Finmap
import Mathlib.Data.List.Induction

/-!
# Keyed dictionaries built from lists

A list kept in memory and a dictionary kept in a store, related by a key and a
value for each element. `encode` inserts the elements one after another, so the
last element written under a key wins; reading a dictionary back goes through an
iteration order, which is any duplicate-free listing of its entries.
-/

namespace Dictionary

set_option autoImplicit false

universe u v w

abbrev Dict (κ : Type u) (ν : Type v) := Finmap fun _ : κ => ν

variable {κ : Type u} {ν : Type v} {α : Type w} [DecidableEq κ]

def encode (key : α → κ) (val : α → ν) (data : List α) : Dict κ ν :=
  data.foldl (fun dict a => dict.insert (key a) (val a)) ∅

/-- `order` lists every entry of `dict` exactly once. -/
def Iterates (order : List (κ × ν)) (dict : Dict κ ν) : Prop :=
  (order.map Prod.fst).Nodup ∧ encode Prod.fst Prod.snd order = dict

instance [DecidableEq ν] (order : List (κ × ν)) (dict : Dict κ ν) :
    Decidable (Iterates order dict) :=
  inferInstanceAs (Decidable (_ ∧ _))

section Keys

theorem keys_insert (dict : Dict κ ν) (k : κ) (v : ν) :
    (dict.insert k v).keys = insert k dict.keys := by
  ext k'
  rw [Finset.mem_insert, Finmap.mem_keys, Finmap.mem_keys, Finmap.mem_insert]

theorem card_keys_insert_le (dict : Dict κ ν) (k : κ) (v : ν) :
    (dict.insert k v).keys.card ≤ dict.keys.card + 1 := by
  rw [keys_insert]
  exact Finset.card_insert_le k dict.keys

theorem card_keys_erase_le (dict : Dict κ ν) (k : κ) :
    (dict.erase k).keys.card ≤ dict.keys.card := by
  rw [Finmap.keys_erase]
  exact Finset.card_le_card (Finset.erase_subset k dict.keys)

end Keys

section Encode
variable (key : α → κ) (val : α → ν)

@[simp] theorem encode_nil : encode key val [] = ∅ := rfl

theorem encode_append_singleton (data : List α) (a : α) :
    encode key val (data ++ [a]) = (encode key val data).insert (key a) (val a) := by
  simp [encode]

theorem mem_encode_iff (data : List α) (k : κ) :
    k ∈ encode key val data ↔ k ∈ data.map key := by
  induction data using List.reverseRecOn with
  | nil => simp [Finmap.notMem_empty]
  | append_singleton data a ih =>
    rw [encode_append_singleton, Finmap.mem_insert, ih, List.map_append, List.mem_append]
    simp [or_comm]

theorem keys_encode (data : List α) : (encode key val data).keys = (data.map key).toFinset := by
  ext k
  rw [Finmap.mem_keys, mem_encode_iff, List.mem_toFinset]

theorem card_keys_encode {data : List α} (hnodup : (data.map key).Nodup) :
    (encode key val data).keys.card = data.length := by
  rw [keys_encode, List.toFinset_card_of_nodup hnodup, List.length_map]

theorem lookup_encode_of_not_mem {data : List α} {k : κ} (h : k ∉ data.map key) :
    (encode key val data).lookup k = none :=
  Finmap.lookup_eq_none.mpr (mt (mem_encode_iff key val data k).mp h)

theorem exists_of_lookup_encode {data : List α} {k : κ} {v : ν}
    (h : (encode key val data).lookup k = some v) : ∃ a ∈ data, key a = k ∧ val a = v := by
  induction data using List.reverseRecOn with
  | nil => simp at h
  | append_singleton data a ih =>
    rw [encode_append_singleton] at h
    by_cases hk : k = key a
    · subst hk
      rw [Finmap.lookup_insert] at h
      exact ⟨a, by simp, rfl, Option.some.inj h⟩
    · rw [Finmap.lookup_insert_of_ne _ hk] at h
      obtain ⟨b, hb, hkey, hval⟩ := ih h
      exact ⟨b, List.mem_append_left _ hb, hkey, hval⟩

theorem lookup_encode_append_singleton_of_ne (data : List α) {a : α} {k : κ} (h : k ≠ key a) :
    (encode key val (data ++ [a])).lookup k = (encode key val data).lookup k := by
  rw [encode_append_singleton, Finmap.lookup_insert_of_ne _ h]

theorem keys_encode_append_singleton (data : List α) (a : α) :
    (encode key val (data ++ [a])).keys = insert (key a) (encode key val data).keys := by
  rw [encode_append_singleton, keys_insert]

theorem lookup_encode_append_singleton_self (data : List α) (a : α) :
    (encode key val (data ++ [a])).lookup (key a) = some (val a) := by
  rw [encode_append_singleton, Finmap.lookup_insert]

theorem lookup_encode_eq_some_iff {data : List α} (hnodup : (data.map key).Nodup)
    (k : κ) (v : ν) :
    (encode key val data).lookup k = some v ↔ ∃ a ∈ data, key a = k ∧ val a = v := by
  refine ⟨exists_of_lookup_encode key val, ?_⟩
  induction data using List.reverseRecOn with
  | nil => simp
  | append_singleton data a ih =>
    rw [List.map_append, List.nodup_append] at hnodup
    obtain ⟨hdata, -, hdisj⟩ := hnodup
    rintro ⟨b, hb, rfl, rfl⟩
    rcases List.mem_append.mp hb with hb | hb
    · have hne : key b ≠ key a :=
        hdisj (key b) (List.mem_map_of_mem hb) (key a) (by simp)
      rw [lookup_encode_append_singleton_of_ne key val data hne]
      exact ih hdata ⟨b, hb, rfl, rfl⟩
    · rw [List.mem_singleton.mp hb]
      exact lookup_encode_append_singleton_self key val data a

theorem lookup_encode_of_mem {data : List α} (hnodup : (data.map key).Nodup) {a : α}
    (ha : a ∈ data) : (encode key val data).lookup (key a) = some (val a) :=
  (lookup_encode_eq_some_iff key val hnodup _ _).mpr ⟨a, ha, rfl, rfl⟩

theorem encode_congr {val' : α → ν} {data : List α} (h : ∀ a ∈ data, val a = val' a) :
    encode key val data = encode key val' data := by
  induction data using List.reverseRecOn with
  | nil => rfl
  | append_singleton data a ih =>
    have hinit : encode key val data = encode key val' data :=
      ih fun b hb => h b (List.mem_append_left _ hb)
    rw [encode_append_singleton, encode_append_singleton, hinit, h a (by simp)]

/-- Removing one key from the store is re-encoding the list without that element. -/
theorem erase_encode {data : List α} (hnodup : (data.map key).Nodup) {i : ℕ}
    (hi : i < data.length) :
    (encode key val data).erase (key data[i]) = encode key val (data.eraseIdx i) := by
  have hperm : data.Perm (data[i] :: data.eraseIdx i) :=
    (List.getElem_cons_eraseIdx_perm hi).symm
  have hcons : (key data[i] :: (data.eraseIdx i).map key).Nodup := by
    simpa using (hperm.map key).nodup_iff.mp hnodup
  obtain ⟨hfresh, hrest⟩ := List.nodup_cons.mp hcons
  apply Finmap.ext_lookup
  intro k
  by_cases hk : k = key data[i]
  · subst hk
    rw [Finmap.lookup_erase, lookup_encode_of_not_mem key val hfresh]
  · rw [Finmap.lookup_erase_ne hk]
    apply Option.ext
    intro v
    rw [lookup_encode_eq_some_iff key val hnodup, lookup_encode_eq_some_iff key val hrest]
    constructor
    · rintro ⟨a, ha, rfl, rfl⟩
      rcases List.mem_cons.mp (hperm.mem_iff.mp ha) with rfl | ha
      · exact absurd rfl hk
      · exact ⟨a, ha, rfl, rfl⟩
    · rintro ⟨a, ha, rfl, rfl⟩
      exact ⟨a, List.mem_of_mem_eraseIdx ha, rfl, rfl⟩

/-- Overwriting the value of one key is re-encoding the list with that element changed. -/
theorem insert_encode_eq_encode_map {data : List α} (hnodup : (data.map key).Nodup)
    {f : α → α} (hkey : ∀ a ∈ data, key (f a) = key a) {a : α} (ha : a ∈ data)
    (hother : ∀ b ∈ data, key b ≠ key a → val (f b) = val b) :
    (encode key val data).insert (key a) (val (f a)) = encode key val (data.map f) := by
  have hkeys : (data.map f).map key = data.map key := by
    rw [List.map_map]
    exact List.map_congr_left hkey
  have hnodup' : ((data.map f).map key).Nodup := by rwa [hkeys]
  apply Finmap.ext_lookup
  intro k
  by_cases hk : k = key a
  · subst hk
    rw [Finmap.lookup_insert, ← hkey a ha,
      lookup_encode_of_mem key val hnodup' (List.mem_map_of_mem ha)]
  · rw [Finmap.lookup_insert_of_ne _ hk]
    apply Option.ext
    intro v
    rw [lookup_encode_eq_some_iff key val hnodup, lookup_encode_eq_some_iff key val hnodup']
    constructor
    · rintro ⟨b, hb, rfl, rfl⟩
      exact ⟨f b, List.mem_map_of_mem hb, hkey b hb, hother b hb hk⟩
    · rintro ⟨c, hc, rfl, rfl⟩
      obtain ⟨b, hb, rfl⟩ := List.mem_map.mp hc
      rw [hkey b hb] at hk ⊢
      exact ⟨b, hb, rfl, (hother b hb hk).symm⟩

end Encode

section Entries
variable {P Q : κ → ν → Prop} {dict : Dict κ ν}

def Entries (P : κ → ν → Prop) (dict : Dict κ ν) : Prop :=
  ∀ k v, dict.lookup k = some v → P k v

theorem Entries.mono (h : Entries P dict) (himp : ∀ k v, P k v → Q k v) : Entries Q dict :=
  fun k v hv => himp k v (h k v hv)

theorem lookup_erase_eq_some_iff {key k : κ} {v : ν} :
    (dict.erase key).lookup k = some v ↔ k ≠ key ∧ dict.lookup k = some v := by
  by_cases hk : k = key
  · subst hk
    simp
  · simp [Finmap.lookup_erase_ne hk, hk]

/-- The entries that are kept. -/
def select (keep : κ → ν → Bool) (dict : Dict κ ν) : Dict κ ν :=
  ⟨dict.entries.filter fun e => keep e.1 e.2, by
    obtain ⟨entries, hnodup⟩ := dict
    induction entries using Quotient.inductionOn with
    | h l => exact hnodup.sublist List.filter_sublist⟩

theorem lookup_select_eq_some_iff {keep : κ → ν → Bool} {k : κ} {v : ν} :
    (select keep dict).lookup k = some v ↔ dict.lookup k = some v ∧ keep k v = true := by
  rw [← Option.mem_def, ← Option.mem_def, Finmap.mem_lookup_iff, Finmap.mem_lookup_iff]
  exact Multiset.mem_filter

/-- Dropping what stands under one key, when that is what the condition drops. -/
theorem erase_eq_select {keep : κ → ν → Bool} {key : κ}
    (h : ∀ k v, dict.lookup k = some v → (keep k v = true ↔ k ≠ key)) :
    dict.erase key = select keep dict := by
  apply Finmap.ext_lookup
  intro k
  apply Option.ext
  intro v
  rw [lookup_erase_eq_some_iff, lookup_select_eq_some_iff]
  constructor
  · rintro ⟨hk, hv⟩
    exact ⟨hv, (h k v hv).mpr hk⟩
  · rintro ⟨hv, hkeep⟩
    exact ⟨(h k v hv).mp hkeep, hv⟩

theorem Entries.erase (h : Entries P dict) (key : κ) : Entries P (dict.erase key) :=
  fun k v hv => h k v (lookup_erase_eq_some_iff.mp hv).2

theorem Entries.insert (h : Entries P dict) {key : κ} {val : ν} (hval : P key val) :
    Entries P (dict.insert key val) := by
  intro k v hv
  by_cases hk : k = key
  · subst hk
    rw [Finmap.lookup_insert] at hv
    cases hv
    exact hval
  · rw [Finmap.lookup_insert_of_ne _ hk] at hv
    exact h k v hv

theorem entries_encode {key : α → κ} {val : α → ν} {data : List α}
    (h : ∀ a ∈ data, P (key a) (val a)) : Entries P (encode key val data) := by
  intro k v hv
  obtain ⟨a, ha, rfl, rfl⟩ := exists_of_lookup_encode key val hv
  exact h a ha

end Entries

section Iterates
variable {order order' : List (κ × ν)} {dict : Dict κ ν}

theorem Iterates.mem_iff (h : Iterates order dict) (k : κ) (v : ν) :
    (k, v) ∈ order ↔ dict.lookup k = some v := by
  rw [← h.2, lookup_encode_eq_some_iff Prod.fst Prod.snd h.1]
  constructor
  · exact fun hm => ⟨(k, v), hm, rfl, rfl⟩
  · rintro ⟨⟨k', v'⟩, hm, rfl, rfl⟩
    exact hm

/-- The order in which the elements were written. -/
theorem iterates_map_encode {key : α → κ} {val : α → ν} {data : List α}
    (hnodup : (data.map key).Nodup) :
    Iterates (data.map fun a => (key a, val a)) (encode key val data) := by
  constructor
  · rw [List.map_map]
    exact hnodup
  · rw [encode, List.foldl_map]
    rfl

/-- Two iteration orders of one dictionary are rearrangements of each other. -/
theorem Iterates.perm (h : Iterates order dict) (h' : Iterates order' dict) :
    order.Perm order' := by
  apply (List.perm_ext_iff_of_nodup (.of_map _ h.1) (.of_map _ h'.1)).mpr
  rintro ⟨k, v⟩
  rw [h.mem_iff, h'.mem_iff]

theorem exists_iterates (dict : Dict κ ν) : ∃ order, Iterates order dict := by
  induction dict using Finmap.induction_on with
  | H a =>
    have hkeys : ((a.entries.map fun e => (e.1, e.2)).map Prod.fst).Nodup := by
      rw [List.map_map]
      exact a.nodupKeys
    refine ⟨a.entries.map fun e => (e.1, e.2), hkeys, ?_⟩
    apply Finmap.ext_lookup
    intro k
    apply Option.ext
    intro v
    rw [lookup_encode_eq_some_iff _ _ hkeys, Finmap.lookup_toFinmap, AList.lookup,
      ← Option.mem_def, List.mem_dlookup_iff a.nodupKeys]
    simp [Sigma.exists]

theorem Iterates.perm_map {key : α → κ} {val : α → ν} {data : List α}
    (hnodup : (data.map key).Nodup) (h : Iterates order (encode key val data)) :
    order.Perm (data.map fun a => (key a, val a)) := by
  refine h.perm ⟨by simpa [List.map_map, Function.comp_def] using hnodup, ?_⟩
  simp [encode, List.foldl_map]

end Iterates

section Decode

theorem mapM_eq_some_iff {β γ : Type*} (f : β → Option γ) (l : List β) (r : List γ) :
    l.mapM f = some r ↔ (∀ b ∈ l, (f b).isSome) ∧ l.filterMap f = r := by
  induction l generalizing r with
  | nil => simp
  | cons b l ih =>
    rw [List.mapM_cons]
    cases hb : f b with
    | none => simp [hb]
    | some c =>
      have htail : ∀ r', l.mapM f = some r' ↔ (∀ b ∈ l, (f b).isSome) ∧ l.filterMap f = r' := ih
      cases hl : l.mapM f with
      | none =>
        have hnot : ¬ ∀ b ∈ l, (f b).isSome := by
          intro hall
          have hsome := (htail _).mpr ⟨hall, rfl⟩
          rw [hl] at hsome
          cases hsome
        simp [hb, hnot]
      | some r' =>
        obtain ⟨hall, rfl⟩ := (htail r').mp hl
        simpa [hb] using fun _ => hall

theorem mem_iff_of_mapM {β γ : Type*} {f : β → Option γ} {l : List β} {r : List γ}
    (h : l.mapM f = some r) (c : γ) : c ∈ r ↔ ∃ b ∈ l, f b = some c := by
  rw [← ((mapM_eq_some_iff f l r).mp h).2, List.mem_filterMap]

theorem map_of_mapM {β γ δ : Type*} {f : β → Option γ} {g : γ → δ} {g' : β → δ} {l : List β}
    {r : List γ} (h : l.mapM f = some r) (hf : ∀ b ∈ l, ∀ c, f b = some c → g c = g' b) :
    r.map g = l.map g' := by
  induction l generalizing r with
  | nil =>
    cases h
    rfl
  | cons b l ih =>
    simp only [List.mapM_cons, Option.bind_eq_bind, Option.bind_eq_some_iff, Option.pure_def,
      Option.some.injEq] at h
    obtain ⟨c, hc, tail, htail, rfl⟩ := h
    have hhead : g c = g' b := hf b List.mem_cons_self c hc
    have hrest := ih htail fun b' hb' => hf b' (List.mem_cons_of_mem b hb')
    rw [List.map_cons, List.map_cons, hhead, hrest]

variable {dec : κ × ν → Option α} {key : α → κ} {val : α → ν}
variable {order order' : List (κ × ν)} {dict : Dict κ ν}

theorem Iterates.isSome_mapM_iff (h : Iterates order dict) :
    (order.mapM dec).isSome ↔ Entries (fun k v => (dec (k, v)).isSome) dict := by
  rw [Option.isSome_iff_exists]
  constructor
  · rintro ⟨r, hr⟩ k v hv
    exact ((mapM_eq_some_iff _ _ _).mp hr).1 (k, v) ((h.mem_iff k v).mpr hv)
  · intro hall
    refine ⟨order.filterMap dec, (mapM_eq_some_iff _ _ _).mpr ⟨?_, rfl⟩⟩
    rintro ⟨k, v⟩ hkv
    exact hall k v ((h.mem_iff k v).mp hkv)

theorem Iterates.mem_decoded_iff (h : Iterates order dict) {data : List α}
    (hdata : order.mapM dec = some data) (a : α) :
    a ∈ data ↔ ∃ k v, dict.lookup k = some v ∧ dec (k, v) = some a := by
  rw [mem_iff_of_mapM hdata]
  constructor
  · rintro ⟨⟨k, v⟩, hkv, ha⟩
    exact ⟨k, v, (h.mem_iff k v).mp hkv, ha⟩
  · rintro ⟨k, v, hv, ha⟩
    exact ⟨(k, v), (h.mem_iff k v).mpr hv, ha⟩

theorem mapM_perm {β γ : Type*} {f : β → Option γ} {l l' : List β} {r : List γ}
    (hperm : l.Perm l') (h : l'.mapM f = some r) :
    ∃ r', l.mapM f = some r' ∧ r'.Perm r := by
  obtain ⟨hall, rfl⟩ := (mapM_eq_some_iff f l' r).mp h
  refine ⟨l.filterMap f, (mapM_eq_some_iff _ _ _).mpr ⟨?_, rfl⟩, hperm.filterMap f⟩
  exact fun b hb => hall b (hperm.mem_iff.mp hb)

/-- Round trip of a list: distinct keys, and a decoder that undoes each element. -/
theorem decode_encode {data : List α} (hnodup : (data.map key).Nodup)
    (hdec : ∀ a ∈ data, dec (key a, val a) = some a)
    (h : Iterates order (encode key val data)) :
    ∃ result, order.mapM dec = some result ∧ result.Perm data := by
  apply mapM_perm (h.perm_map hnodup)
  rw [mapM_eq_some_iff, List.filterMap_map]
  constructor
  · intro p hp
    obtain ⟨a, ha, rfl⟩ := List.mem_map.mp hp
    simp [hdec a ha]
  · have hid : data.filterMap (dec ∘ fun a => (key a, val a)) = data.filterMap some :=
      List.filterMap_congr fun a ha => hdec a ha
    rw [hid, List.filterMap_some]

omit [DecidableEq κ] in
/-- Each element of `S` has a key of its own exactly when it has an element of `l` of its own,
if the keys of `l` are distinct. -/
theorem exists_injOn_key_iff {β γ : Type*} [Nonempty γ] {S : Set β} {l : List γ} {key : γ → κ}
    (hkey : Set.InjOn key {c | c ∈ l}) {P : β → κ → Prop} {Q : β → γ → Prop}
    (h : ∀ b ∈ S, ∀ k, P b k ↔ ∃ c ∈ l, key c = k ∧ Q b c) :
    (∃ f : β → κ, Set.InjOn f S ∧ ∀ b ∈ S, P b (f b)) ↔
      ∃ g : β → γ, Set.InjOn g S ∧ ∀ b ∈ S, g b ∈ l ∧ Q b (g b) := by
  constructor
  · rintro ⟨f, hinj, hf⟩
    have hchoice : ∀ b ∈ S, ∃ c ∈ l, key c = f b ∧ Q b c := fun b hb => (h b hb _).mp (hf b hb)
    choose! g hmem hkeys hQ using hchoice
    refine ⟨g, ?_, fun b hb => ⟨hmem b hb, hQ b hb⟩⟩
    intro b hb b' hb' hsame
    apply hinj hb hb'
    rw [← hkeys b hb, ← hkeys b' hb', hsame]
  · rintro ⟨g, hinj, hg⟩
    refine ⟨key ∘ g, ?_, fun b hb => (h b hb _).mpr ⟨g b, (hg b hb).1, rfl, (hg b hb).2⟩⟩
    intro b hb b' hb' hsame
    exact hinj hb hb' (hkey (hg b hb).1 (hg b' hb').1 hsame)

end Decode

end Dictionary
