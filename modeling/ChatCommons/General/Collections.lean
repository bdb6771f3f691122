import Mathlib

/-!
Ordered maps and sets keyed by a linear order, as the extensional balanced
trees of the standard library: two of them are equal when they hold the same
entries, and iteration follows the order of the keys.
-/

namespace ChatCommons.Collections

open Std

abbrev BTreeSet (α : Type) [LinearOrder α] := ExtTreeSet α compare
abbrev BTreeMap (α β : Type) [LinearOrder α] := ExtTreeMap α β compare

variable {α β : Type} [LinearOrder α]

instance compare_transCmp : TransCmp (compare : α → α → Ordering) := inferInstance

instance compare_lawfulEqCmp : LawfulEqCmp (compare : α → α → Ordering) := inferInstance

section Sets

variable {s t : BTreeSet α}

@[simp] theorem mem_insert {a k : α} : a ∈ s.insert k ↔ a = k ∨ a ∈ s := by
  rw [ExtTreeSet.mem_insert, Std.compare_eq_iff_eq, eq_comm]

@[simp] theorem mem_erase {a k : α} : a ∈ s.erase k ↔ a ≠ k ∧ a ∈ s := by
  rw [ExtTreeSet.mem_erase, ne_eq, Std.compare_eq_iff_eq, eq_comm]

@[simp] theorem not_mem_empty {a : α} : a ∉ (∅ : BTreeSet α) := ExtTreeSet.not_mem_empty

theorem set_ext (h : ∀ a, a ∈ s ↔ a ∈ t) : s = t := ExtTreeSet.ext_mem h

theorem toList_sorted (s : BTreeSet α) : s.toList.Pairwise (· < ·) :=
  ExtTreeSet.ordered_toList.imp fun h => compare_lt_iff_lt.mp h

theorem toList_nodup (s : BTreeSet α) : s.toList.Nodup :=
  (toList_sorted s).imp fun h => h.ne

@[simp] theorem mem_foldl_erase {a : α} (l : List α) (s : BTreeSet α) :
    a ∈ l.foldl (fun s k => s.erase k) s ↔ a ∈ s ∧ a ∉ l := by
  induction l generalizing s with
  | nil => simp
  | cons b l ih =>
    simp only [List.foldl_cons, ih, mem_erase, List.mem_cons, not_or]
    tauto

@[simp] theorem mem_foldl_insert {a : α} (l : List α) (s : BTreeSet α) :
    a ∈ l.foldl (fun s k => s.insert k) s ↔ a ∈ l ∨ a ∈ s := by
  induction l generalizing s with
  | nil => simp
  | cons b l ih =>
    simp only [List.foldl_cons, ih, mem_insert, List.mem_cons]
    tauto

def setOf (l : List α) : BTreeSet α := l.foldl (fun s k => s.insert k) ∅

@[simp] theorem mem_setOf {a : α} {l : List α} : a ∈ setOf l ↔ a ∈ l := by
  simp [setOf]

theorem size_le_of_subset (h : ∀ a ∈ s, a ∈ t) : s.size ≤ t.size := by
  rw [← ExtTreeSet.length_toList, ← ExtTreeSet.length_toList]
  apply List.Subperm.length_le
  apply List.subperm_of_subset (toList_nodup s)
  intro a ha
  exact ExtTreeSet.mem_toList.mpr (h a (ExtTreeSet.mem_toList.mp ha))

theorem size_lt_of_subset {a : α} (h : ∀ b ∈ s, b ∈ t) (ha : a ∈ t) (hs : a ∉ s) :
    s.size < t.size := by
  have hi : (s.insert a).size ≤ t.size := by
    apply size_le_of_subset
    intro b hb
    rcases mem_insert.mp hb with rfl | hb
    · exact ha
    · exact h b hb
  have hc : s.contains a = false := by simpa [← ExtTreeSet.contains_iff_mem] using hs
  rw [ExtTreeSet.size_insert, hc] at hi
  simpa using hi

theorem size_insert_of_not_mem {a : α} (h : a ∉ s) : (s.insert a).size = s.size + 1 := by
  have hc : s.contains a = false := by simpa [← ExtTreeSet.contains_iff_mem] using h
  simp [ExtTreeSet.size_insert, hc]

end Sets

section Maps

variable {m n : BTreeMap α β}

@[simp] theorem getElem?_insert {a k : α} {v : β} :
    (m.insert k v)[a]? = if k = a then some v else m[a]? := by
  simp [ExtTreeMap.getElem?_insert]

@[simp] theorem getElem?_erase {a k : α} :
    (m.erase k)[a]? = if k = a then none else m[a]? := by
  simp [ExtTreeMap.getElem?_erase]

theorem map_ext (h : ∀ k : α, m[k]? = n[k]?) : m = n := ExtTreeMap.ext_getElem? h

theorem mem_iff {k : α} : k ∈ m ↔ ∃ v, m[k]? = some v := by
  rw [ExtTreeMap.mem_iff_isSome_getElem?, Option.isSome_iff_exists]

theorem mem_of_getElem? {k : α} {v : β} (h : m[k]? = some v) : k ∈ m := mem_iff.mpr ⟨v, h⟩

@[simp] theorem mem_map_insert {a k : α} {v : β} : a ∈ m.insert k v ↔ a = k ∨ a ∈ m := by
  rw [ExtTreeMap.mem_insert, Std.compare_eq_iff_eq, eq_comm]

@[simp] theorem mem_map_erase {a k : α} : a ∈ m.erase k ↔ a ≠ k ∧ a ∈ m := by
  rw [ExtTreeMap.mem_erase, ne_eq, Std.compare_eq_iff_eq, eq_comm]

theorem mem_toList {k : α} {v : β} : (k, v) ∈ m.toList ↔ m[k]? = some v :=
  ExtTreeMap.mem_toList_iff_getElem?_eq_some

theorem map_toList_sorted (m : BTreeMap α β) : m.toList.Pairwise (fun a b => a.1 < b.1) :=
  ExtTreeMap.ordered_keys_toList.imp fun h => compare_lt_iff_lt.mp h

theorem keys_sorted (m : BTreeMap α β) : m.keys.Pairwise (· < ·) :=
  ExtTreeMap.ordered_keys.imp fun h => compare_lt_iff_lt.mp h

@[simp] theorem getElem?_insertIfNew {a k : α} {v : β} :
    (m.insertIfNew k v)[a]? = if k = a ∧ k ∉ m then some v else m[a]? := by
  simp [ExtTreeMap.getElem?_insertIfNew]

@[simp] theorem getElem?_filter {f : α → β → Bool} {k : α} :
    (m.filter f)[k]? = m[k]?.filter (f k) := ExtTreeMap.getElem?_filter'

theorem getElem?_filter_key {f : α → Bool} {k : α} {v : β} :
    (m.filter fun k _ => f k)[k]? = some v ↔ m[k]? = some v ∧ f k = true := by
  rw [getElem?_filter, Option.filter_eq_some_iff]

theorem not_mem_map {k : α} : k ∉ m ↔ m[k]? = none := by
  rw [mem_iff]
  cases m[k]? <;> simp

theorem map_isEmpty_iff : m.isEmpty = true ↔ ∀ k, k ∉ m :=
  ExtTreeMap.isEmpty_iff.trans ExtTreeMap.eq_empty_iff_forall_not_mem

theorem mem_values {v : β} : v ∈ m.toList.map Prod.snd ↔ ∃ k : α, m[k]? = some v := by
  simp only [List.mem_map, Prod.exists, mem_toList]
  exact ⟨fun ⟨k, _, hk, he⟩ => ⟨k, he ▸ hk⟩, fun ⟨k, hk⟩ => ⟨k, v, hk, rfl⟩⟩

theorem map_size_le {l : List α} (h : ∀ k ∈ m, k ∈ l) : m.size ≤ l.length := by
  rw [← ExtTreeMap.length_keys]
  refine List.Subperm.length_le (List.subperm_of_subset ?_ fun k hk => ?_)
  · exact ExtTreeMap.nodup_keys
  · exact h k (ExtTreeMap.mem_keys.mp hk)

theorem map_size_erase {k : α} (h : k ∈ m) : (m.erase k).size + 1 = m.size := by
  have hpos : 0 < m.size := by
    rw [← ExtTreeMap.length_toList]
    obtain ⟨v, hv⟩ := mem_iff.mp h
    exact List.length_pos_of_mem (mem_toList.mpr hv)
  have hc : m.contains k = true := by simpa using h
  rw [ExtTreeMap.size_erase, if_pos hc]
  omega

theorem getElem?_foldl_erase {l : List α} {a : α} {v : β} :
    (l.foldl (fun m k => m.erase k) m)[a]? = some v ↔ m[a]? = some v ∧ a ∉ l := by
  induction l generalizing m with
  | nil => simp
  | cons b l ih =>
    rw [List.foldl_cons, ih, getElem?_erase, List.mem_cons]
    by_cases h : b = a
    · simp [h]
    · simp [h, Ne.symm h]

theorem getElem?_foldl_insert (f : γ → α) (v : β) (l : List γ) (m : BTreeMap α β)
    (a : α) : (l.foldl (fun m c => m.insert (f c) v) m)[a]? =
      if a ∈ l.map f then some v else m[a]? := by
  induction l generalizing m with
  | nil => simp
  | cons c l ih =>
    rw [List.foldl_cons, ih, getElem?_insert]
    by_cases hc : f c = a
    · simp [hc]
    · simp [hc, Ne.symm hc]

def keySet (m : BTreeMap α β) : BTreeSet α := setOf m.keys

@[simp] theorem mem_keySet {k : α} : k ∈ keySet m ↔ k ∈ m := by
  simp [keySet]

end Maps

end ChatCommons.Collections
