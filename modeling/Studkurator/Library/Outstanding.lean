import Studkurator.Library.Dictionary

/-!
# Requests that take effect in any order

A request puts a value under its key or deletes the key. Requests that were sent and have
not taken effect yet may do so in any order; only those on one key matter for its value.
-/

namespace Outstanding

open Dictionary

set_option autoImplicit false

universe u v w

variable {κ : Type u} {ν : Type v} {ω : Type w} [DecidableEq κ]
variable (key : ω → κ) (val : ω → Option ν)

def perform (dict : Dict κ ν) (request : ω) : Dict κ ν :=
  match val request with
  | some v => dict.insert (key request) v
  | none => dict.erase (key request)

/-- Whatever the order in which the requests of `pending` take effect, `k` has the value `v`
in the end. -/
def EndsWith (dict : Dict κ ν) (pending : List ω) (k : κ) (v : ν) : Prop :=
  ∀ order : List ω, order.Perm pending → (order.foldl (perform key val) dict).lookup k = some v

/-- Every pending request on `k` puts `v`. -/
def Agrees (pending : List ω) (k : κ) (v : ν) : Prop :=
  ∀ request ∈ pending, key request = k → val request = some v

variable {key : ω → κ} {val : ω → Option ν} {dict : Dict κ ν} {pending : List ω} {k : κ} {v : ν}

theorem lookup_perform_self (dict : Dict κ ν) (request : ω) :
    (perform key val dict request).lookup (key request) = val request := by
  unfold perform
  split
  next hval => rw [Finmap.lookup_insert, hval]
  next hval => rw [Finmap.lookup_erase, hval]

theorem lookup_perform_of_ne (dict : Dict κ ν) {request : ω} (h : key request ≠ k) :
    (perform key val dict request).lookup k = dict.lookup k := by
  unfold perform
  split
  · exact Finmap.lookup_insert_of_ne _ h.symm
  · exact Finmap.lookup_erase_ne h.symm

theorem lookup_foldl_of_ne (h : ∀ request ∈ pending, key request ≠ k) :
    (pending.foldl (perform key val) dict).lookup k = dict.lookup k := by
  induction pending using List.reverseRecOn with
  | nil => rfl
  | append_singleton pending request ih =>
    rw [List.foldl_append, List.foldl_cons, List.foldl_nil,
      lookup_perform_of_ne _ (h request (by simp))]
    exact ih fun request' h' => h request' (List.mem_append_left _ h')

theorem lookup_foldl_of_agrees (hagrees : Agrees key val pending k v)
    (h : dict.lookup k = some v ∨ ∃ request ∈ pending, key request = k) :
    (pending.foldl (perform key val) dict).lookup k = some v := by
  induction pending using List.reverseRecOn with
  | nil => simpa using h
  | append_singleton pending request ih =>
    rw [List.foldl_append, List.foldl_cons, List.foldl_nil]
    by_cases hkey : key request = k
    · rw [← hkey, lookup_perform_self]
      exact hagrees request (by simp) hkey
    · rw [lookup_perform_of_ne _ hkey]
      apply ih
      · exact fun request' h' => hagrees request' (List.mem_append_left _ h')
      · simpa [or_and_right, exists_or, hkey] using h

/-- The requests on a key end with a value exactly when they agree on it. -/
theorem endsWith_iff : EndsWith key val dict pending k v ↔
    Agrees key val pending k v ∧
      (dict.lookup k = some v ∨ ∃ request ∈ pending, key request = k) := by
  constructor
  · intro h
    constructor
    · intro request hrequest hkey
      obtain ⟨before, after, rfl⟩ := List.append_of_mem hrequest
      have hperm : (before ++ (after ++ [request])).Perm (before ++ request :: after) :=
        (List.perm_append_singleton request after).append_left before
      have hlast := h _ hperm
      rw [← List.append_assoc, List.foldl_append, List.foldl_cons, List.foldl_nil, ← hkey,
        lookup_perform_self] at hlast
      exact hlast
    · by_cases hsome : ∃ request ∈ pending, key request = k
      · exact Or.inr hsome
      · have hend := h pending (.refl _)
        rw [lookup_foldl_of_ne fun request hrequest hkey => hsome ⟨request, hrequest, hkey⟩]
          at hend
        exact Or.inl hend
  · rintro ⟨hagrees, h⟩ order horder
    apply lookup_foldl_of_agrees
    · exact fun request hrequest => hagrees request (horder.mem_iff.mp hrequest)
    · simpa [horder.mem_iff] using h

/-- Only the value of a key and the requests on it matter. -/
theorem endsWith_congr {dict' : Dict κ ν} {pending' : List ω}
    (hdict : dict.lookup k = dict'.lookup k)
    (hpending : ∀ request, key request = k → (request ∈ pending ↔ request ∈ pending')) :
    EndsWith key val dict pending k v ↔ EndsWith key val dict' pending' k v := by
  have hagrees : Agrees key val pending k v ↔ Agrees key val pending' k v := by
    apply forall_congr'
    intro request
    constructor
    · exact fun h hrequest hkey => h ((hpending request hkey).mpr hrequest) hkey
    · exact fun h hrequest hkey => h ((hpending request hkey).mp hrequest) hkey
  have hsome : (∃ request ∈ pending, key request = k) ↔ ∃ request ∈ pending', key request = k := by
    apply exists_congr
    intro request
    exact and_congr_left fun hkey => hpending request hkey
  rw [endsWith_iff, endsWith_iff, hdict, hagrees, hsome]

/-- One request taking effect leaves the outcome of all open. -/
theorem EndsWith.perform (h : EndsWith key val dict pending k v) {i : ℕ} {request : ω}
    (hi : pending[i]? = some request) :
    EndsWith key val (perform key val dict request) (pending.eraseIdx i) k v := by
  intro order horder
  apply h (request :: order)
  obtain ⟨hlt, rfl⟩ := List.getElem?_eq_some_iff.mp hi
  exact (horder.cons _).trans (List.getElem_cons_eraseIdx_perm hlt)

theorem EndsWith.of_perm (h : EndsWith key val dict pending k v) {request : ω} {rest : List ω}
    (hperm : (request :: rest).Perm pending) :
    EndsWith key val (Outstanding.perform key val dict request) rest k v := by
  intro order horder
  exact h (request :: order) ((horder.cons request).trans hperm)

theorem EndsWith.concat_of_ne (h : EndsWith key val dict pending k v) {request : ω}
    (hkey : key request ≠ k) : EndsWith key val dict (pending ++ [request]) k v := by
  obtain ⟨hagrees, hsome⟩ := endsWith_iff.mp h
  apply endsWith_iff.mpr
  constructor
  · intro request' hrequest' hkey'
    rcases List.mem_append.mp hrequest' with hmem | hmem
    · exact hagrees request' hmem hkey'
    · rw [List.mem_singleton.mp hmem] at hkey'
      exact absurd hkey' hkey
  · simpa [or_and_right, exists_or, hkey] using hsome

/-- A value that is put last ends up there exactly when the earlier requests agree. -/
theorem endsWith_concat_iff {request : ω} (hval : val request = some v) :
    EndsWith key val dict (pending ++ [request]) (key request) v ↔
      Agrees key val pending (key request) v := by
  rw [endsWith_iff]
  constructor
  · intro h request' hrequest'
    exact h.1 request' (List.mem_append_left _ hrequest')
  · intro h
    refine ⟨?_, Or.inr ⟨request, by simp, rfl⟩⟩
    intro request' hrequest' hkey
    rcases List.mem_append.mp hrequest' with hmem | hmem
    · exact h request' hmem hkey
    · rw [List.mem_singleton.mp hmem]
      exact hval

theorem endsWith_nil : EndsWith key val dict [] k v ↔ dict.lookup k = some v := by
  simp [EndsWith]

end Outstanding
