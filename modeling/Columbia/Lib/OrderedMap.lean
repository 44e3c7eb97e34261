import Mathlib.Data.List.Nodup
import Mathlib.Algebra.BigOperators.Group.List.Basic
import Mathlib.Algebra.GroupWithZero.Nat

/-! # Insertion-ordered maps

Keys are unique by construction. Setting a present key keeps its position, setting a new one appends,
so the first key is always the one inserted longest ago.
-/
namespace Columbia.Lib
set_option autoImplicit false

structure OrderedMap (K V : Type) where
  entries : List (K × V)
  nodup : (entries.map Prod.fst).Nodup

namespace OrderedMap
variable {K V : Type} [DecidableEq K]

def empty : OrderedMap K V := ⟨[], List.nodup_nil⟩

def lookup (k : K) : List (K × V) → Option V
  | [] => none
  | e :: rest => if e.1 = k then some e.2 else lookup k rest

def get? (m : OrderedMap K V) (k : K) : Option V := lookup k m.entries

def has (m : OrderedMap K V) (k : K) : Bool := (m.get? k).isSome

def size (m : OrderedMap K V) : Nat := m.entries.length

def keys (m : OrderedMap K V) : List K := m.entries.map Prod.fst

theorem lookup_eq_none_iff (k : K) (es : List (K × V)) : lookup k es = none ↔ k ∉ es.map Prod.fst := by
  induction es with
  | nil => simp [lookup]
  | cons e rest ih =>
    by_cases h : e.1 = k
    · simp [lookup, h]
    · simp [lookup, h, ih, Ne.symm h]

theorem lookup_eq_some_iff (k : K) (v : V) {es : List (K × V)} (hNodup : (es.map Prod.fst).Nodup) :
    lookup k es = some v ↔ (k, v) ∈ es := by
  induction es with
  | nil => simp [lookup]
  | cons e rest ih =>
    obtain ⟨hHead, hRest⟩ := List.nodup_cons.mp hNodup
    by_cases h : e.1 = k
    · subst h
      constructor
      · intro hv
        obtain rfl : e.2 = v := by simpa [lookup] using hv
        exact List.mem_cons_self
      · intro hv
        rcases List.mem_cons.mp hv with hEq | hMem
        · rw [lookup, if_pos rfl, ← hEq]
        · exact absurd (List.mem_map_of_mem (f := Prod.fst) hMem) hHead
    · simp only [lookup, if_neg h, ih hRest, List.mem_cons]
      exact ⟨Or.inr, fun hMem => hMem.resolve_left fun hEq => h (by rw [← hEq])⟩

theorem get?_eq_some_iff {m : OrderedMap K V} {k : K} {v : V} : m.get? k = some v ↔ (k, v) ∈ m.entries :=
  lookup_eq_some_iff k v m.nodup

theorem get?_eq_none_iff {m : OrderedMap K V} {k : K} : m.get? k = none ↔ k ∉ m.keys :=
  lookup_eq_none_iff k m.entries

@[simp] theorem get?_empty (k : K) : (empty : OrderedMap K V).get? k = none := rfl

theorem has_eq_false_iff {m : OrderedMap K V} {k : K} : m.has k = false ↔ k ∉ m.keys := by
  rw [← get?_eq_none_iff, has, Option.isSome_eq_false_iff, Option.isNone_iff_eq_none]

def replaceAt (k : K) (v : V) (es : List (K × V)) : List (K × V) :=
  es.map fun e => if e.1 = k then (k, v) else e

theorem replaceAt_keys (k : K) (v : V) (es : List (K × V)) :
    (replaceAt k v es).map Prod.fst = es.map Prod.fst := by
  rw [replaceAt, List.map_map]
  apply List.map_congr_left
  intro e _
  by_cases h : e.1 = k <;> simp [h]

theorem lookup_replaceAt (k j : K) (v : V) (es : List (K × V)) (h : k ∈ es.map Prod.fst) :
    lookup j (replaceAt k v es) = if j = k then some v else lookup j es := by
  induction es with
  | nil => cases h
  | cons e rest ih =>
    change lookup j ((if e.1 = k then (k, v) else e) :: replaceAt k v rest) = _
    by_cases hk : e.1 = k
    · by_cases hj : j = k
      · simp [lookup, hk, hj]
      · have hRest : lookup j (replaceAt k v rest) = lookup j rest := by
          by_cases hMem : k ∈ rest.map Prod.fst
          · rw [ih hMem, if_neg hj]
          · have hSame : replaceAt k v rest = rest := by
              refine (List.map_congr_left fun e he => if_neg ?_).trans (List.map_id rest)
              rintro rfl
              exact hMem (List.mem_map_of_mem he)
            rw [hSame]
        simp [lookup, hk, hj, Ne.symm hj, hRest]
    · have hMem : k ∈ rest.map Prod.fst := by
        rcases List.mem_cons.mp h with hEq | hMem
        · exact absurd hEq.symm hk
        · exact hMem
      by_cases hj : e.1 = j
      · subst hj
        simp [lookup, hk]
      · simp [lookup, hk, hj, ih hMem]

theorem lookup_append_singleton (k j : K) (v : V) (es : List (K × V)) (h : k ∉ es.map Prod.fst) :
    lookup j (es ++ [(k, v)]) = if j = k then some v else lookup j es := by
  induction es with
  | nil => simp [lookup, eq_comm]
  | cons e rest ih =>
    have hHead : e.1 ≠ k := fun hEq => h (by simp [hEq])
    have hRest : k ∉ rest.map Prod.fst := fun hMem => h (List.mem_cons_of_mem _ hMem)
    by_cases hj : e.1 = j
    · subst hj
      simp [lookup, hHead]
    · simp [lookup, hj, ih hRest]

def set (m : OrderedMap K V) (k : K) (v : V) : OrderedMap K V :=
  if h : m.has k = true then ⟨replaceAt k v m.entries, (replaceAt_keys k v m.entries).symm ▸ m.nodup⟩
  else ⟨m.entries ++ [(k, v)], by
    have hKey : k ∉ m.entries.map Prod.fst := has_eq_false_iff.mp (Bool.eq_false_iff.mpr h)
    rw [List.map_append, List.nodup_append]
    refine ⟨m.nodup, List.nodup_singleton k, fun a ha b hb hEq => hKey ?_⟩
    obtain rfl : b = k := List.mem_singleton.mp hb
    exact hEq ▸ ha⟩

def delete (m : OrderedMap K V) (k : K) : OrderedMap K V :=
  ⟨m.entries.filter (·.1 ≠ k), (List.filter_sublist.map Prod.fst).nodup m.nodup⟩

theorem entries_set (m : OrderedMap K V) (k : K) (v : V) :
    (m.set k v).entries = if m.has k then replaceAt k v m.entries else m.entries ++ [(k, v)] := by
  unfold set
  split
  · rfl
  · rfl

theorem get?_set (m : OrderedMap K V) (k j : K) (v : V) :
    (m.set k v).get? j = if j = k then some v else m.get? j := by
  unfold set
  split
  · rename_i h
    apply lookup_replaceAt
    by_contra hKey
    rw [has_eq_false_iff.mpr hKey] at h
    cases h
  · rename_i h
    exact lookup_append_singleton k j v m.entries (has_eq_false_iff.mp (Bool.eq_false_iff.mpr h))

def ofList (es : List (K × V)) : OrderedMap K V := es.foldl (fun m e => m.set e.1 e.2) empty

theorem entries_foldl_set {m : OrderedMap K V} {es : List (K × V)} (h : ((m.entries ++ es).map Prod.fst).Nodup) :
    (es.foldl (fun m e => m.set e.1 e.2) m).entries = m.entries ++ es := by
  induction es generalizing m with
  | nil => rw [List.foldl_nil, List.append_nil]
  | cons e rest ih =>
    have hNew : m.has e.1 = false := by
      apply has_eq_false_iff.mpr
      intro hKey
      rw [List.map_append, List.nodup_append] at h
      exact h.2.2 e.1 hKey e.1 (by simp) rfl
    have hSet : (m.set e.1 e.2).entries = m.entries ++ [e] := by
      rw [entries_set, hNew]
      rfl
    rw [List.foldl_cons, ih (by rwa [hSet, List.append_assoc]), hSet, List.append_assoc]
    rfl

theorem entries_ofList {es : List (K × V)} (h : (es.map Prod.fst).Nodup) : (ofList es).entries = es :=
  entries_foldl_set h

@[simp] theorem get?_set_self (m : OrderedMap K V) (k : K) (v : V) : (m.set k v).get? k = some v := by
  rw [get?_set, if_pos rfl]

theorem get?_set_of_ne (m : OrderedMap K V) {k j : K} (v : V) (h : j ≠ k) : (m.set k v).get? j = m.get? j := by
  rw [get?_set, if_neg h]

theorem get?_delete (m : OrderedMap K V) (k j : K) :
    (m.delete k).get? j = if j = k then none else m.get? j := by
  have hLookup : ∀ es : List (K × V),
      lookup j (es.filter (·.1 ≠ k)) = if j = k then none else lookup j es := by
    intro es
    induction es with
    | nil => simp [lookup]
    | cons e rest ih =>
      by_cases hk : e.1 = k
      · by_cases hj : j = k
        · simpa [hk, hj] using ih
        · simpa [hk, hj, lookup, Ne.symm hj] using ih
      · by_cases hj : e.1 = j
        · subst hj
          simp [lookup, hk]
        · simpa [lookup, hk, hj] using ih
  exact hLookup m.entries

/-- `while (size > max) delete the first key`. -/
def evictEntries (max : Nat) : List (K × V) → List (K × V)
  | [] => []
  | e :: rest => if max < (e :: rest).length then evictEntries max rest else e :: rest

omit [DecidableEq K] in
theorem evictEntries_suffix (max : Nat) (es : List (K × V)) : evictEntries max es <:+ es := by
  induction es with
  | nil => exact List.suffix_rfl
  | cons e rest ih =>
    unfold evictEntries
    split
    · exact ih.trans (List.suffix_cons e rest)
    · exact List.suffix_rfl

def evict (max : Nat) (m : OrderedMap K V) : OrderedMap K V :=
  ⟨evictEntries max m.entries, ((evictEntries_suffix max m.entries).sublist.map Prod.fst).nodup m.nodup⟩

theorem get?_of_evict {max : Nat} {m : OrderedMap K V} {k : K} {v : V} (h : (m.evict max).get? k = some v) :
    m.get? k = some v :=
  get?_eq_some_iff.mpr ((evictEntries_suffix max m.entries).subset (get?_eq_some_iff.mp h))

omit [DecidableEq K] in
theorem evictEntries_length_le (max : Nat) (es : List (K × V)) : (evictEntries max es).length ≤ max := by
  induction es with
  | nil => exact Nat.zero_le _
  | cons e rest ih =>
    unfold evictEntries
    split
    · exact ih
    · exact Nat.not_lt.mp ‹_›

omit [DecidableEq K] in
theorem size_evict_le (max : Nat) (m : OrderedMap K V) : (m.evict max).size ≤ max := evictEntries_length_le max m.entries

theorem size_set_of_get? {m : OrderedMap K V} {k : K} {old : V} (h : m.get? k = some old) (v : V) :
    (m.set k v).size = m.size := by
  have hHas : m.has k = true := by rw [has, h]; rfl
  rw [size, entries_set, if_pos hHas, replaceAt, List.length_map, size]

theorem mem_keys_set {m : OrderedMap K V} {k j : K} {v : V} : j ∈ (m.set k v).keys ↔ j = k ∨ j ∈ m.keys := by
  rw [← not_iff_not, not_or, ← get?_eq_none_iff, ← get?_eq_none_iff, get?_set]
  by_cases hj : j = k <;> simp [hj]

theorem mem_keys_of_delete {m : OrderedMap K V} {k j : K} (h : j ∈ (m.delete k).keys) : j ∈ m.keys :=
  (List.filter_sublist.map Prod.fst).subset h

theorem size_set_le (m : OrderedMap K V) (k : K) (v : V) : (m.set k v).size ≤ m.size + 1 := by
  rw [size, entries_set, size]
  split
  · rw [replaceAt, List.length_map]
    exact Nat.le_succ _
  · exact Nat.le_of_eq List.length_append

theorem size_delete_lt {m : OrderedMap K V} {k : K} (h : k ∈ m.keys) : (m.delete k).size < m.size := by
  obtain ⟨e, he, rfl⟩ := List.mem_map.mp h
  exact List.length_filter_lt_length_iff_exists.mpr ⟨e, he, by simp⟩

theorem countP_key_add {α : Type} (f : α → K) (l : List α) {k : K} {keys : List K} (h : k ∉ keys) :
    (l.countP fun a => f a = k) + (l.countP fun a => f a ∈ keys) = l.countP fun a => f a ∈ k :: keys := by
  induction l with
  | nil => rfl
  | cons a l ih =>
    simp only [List.countP_cons, List.mem_cons, decide_eq_true_eq] at ih ⊢
    by_cases hk : f a = k
    · simp only [hk, h, if_true, if_false, true_or]
      omega
    · simp only [hk, if_false, false_or]
      omega

theorem sum_countP_keys {α : Type} (f : α → K) (l : List α) {keys : List K} (h : keys.Nodup) :
    (keys.map fun k => l.countP fun a => f a = k).sum = l.countP fun a => f a ∈ keys := by
  induction keys with
  | nil => simp
  | cons k keys ih =>
    obtain ⟨hNew, hRest⟩ := List.nodup_cons.mp h
    rw [List.map_cons, List.sum_cons, ih hRest, countP_key_add f l hNew]

end OrderedMap
end Columbia.Lib
