import ChatCommons.General.Collections

/-!
The weight of a map: what its rows weigh together, when rows move from one map into another.
-/

namespace ChatCommons.Collections

open Std

variable {α β : Type} [LinearOrder α] (w : α × β → ℕ) {m m' p p' : BTreeMap α β}

def weight (m : BTreeMap α β) : ℕ := (m.toList.map w).sum

variable {w}

theorem map_toList_nodup (m : BTreeMap α β) : m.toList.Nodup :=
  (map_toList_sorted m).imp fun h heq => absurd (congrArg Prod.fst heq) h.ne

section Finite

variable [DecidableEq β]

theorem weight_eq (m : BTreeMap α β) : weight w m = ∑ row ∈ m.toList.toFinset, w row :=
  (List.sum_toFinset w (map_toList_nodup m)).symm

theorem weight_move (hm : ∀ row ∈ m'.toList, row ∈ m.toList ∨ row ∈ p.toList ∧ row.1 ∉ p')
    (hp : ∀ row ∈ p'.toList, row ∈ p.toList) :
    weight w m' + weight w p' ≤ weight w m + weight w p := by
  have hkept : p'.toList.toFinset ⊆ p.toList.toFinset := by
    intro row hrow
    exact List.mem_toFinset.mpr (hp row (List.mem_toFinset.mp hrow))
  have hmoved : m'.toList.toFinset ⊆
      m.toList.toFinset ∪ (p.toList.toFinset \ p'.toList.toFinset) := by
    intro row hrow
    rcases hm row (List.mem_toFinset.mp hrow) with hold | ⟨hpending, hgone⟩
    · exact Finset.mem_union_left _ (List.mem_toFinset.mpr hold)
    · apply Finset.mem_union_right
      apply Finset.mem_sdiff.mpr
      refine ⟨List.mem_toFinset.mpr hpending, fun hstill => hgone ?_⟩
      have hrow' := mem_toList.mp (List.mem_toFinset.mp hstill)
      exact mem_of_getElem? hrow'
  have hsum := Finset.sum_sdiff (f := w) hkept
  have hle : ∑ row ∈ m'.toList.toFinset, w row ≤ ∑ row ∈ m.toList.toFinset, w row +
      ∑ row ∈ p.toList.toFinset \ p'.toList.toFinset, w row := by
    have hunion := @Finset.sum_union_inter _ _ m.toList.toFinset
      (p.toList.toFinset \ p'.toList.toFinset) _ w _
    have hsub := Finset.sum_le_sum_of_subset (f := w) hmoved
    omega
  rw [weight_eq, weight_eq, weight_eq, weight_eq]
  omega

theorem sum_toFinset_le (l : List (α × β)) : ∑ row ∈ l.toFinset, w row ≤ (l.map w).sum := by
  have hdedup : l.dedup.toFinset = l.toFinset := by
    ext row
    rw [List.mem_toFinset, List.mem_toFinset, List.mem_dedup]
  rw [← hdedup, List.sum_toFinset w l.nodup_dedup]
  exact ((List.dedup_sublist l).map w).sum_le_sum fun _ _ => Nat.zero_le _

theorem weight_le_add {l : List (α × β)} (h : ∀ row ∈ m'.toList, row ∈ m.toList ∨ row ∈ l) :
    weight w m' ≤ weight w m + (l.map w).sum := by
  have hsub : m'.toList.toFinset ⊆ m.toList.toFinset ∪ l.toFinset := by
    intro row hrow
    rcases h row (List.mem_toFinset.mp hrow) with hold | hnew
    · exact Finset.mem_union_left _ (List.mem_toFinset.mpr hold)
    · exact Finset.mem_union_right _ (List.mem_toFinset.mpr hnew)
  have hunion := @Finset.sum_union_inter _ _ m.toList.toFinset l.toFinset _ w _
  have hle := Finset.sum_le_sum_of_subset (f := w) hsub
  have hlist := sum_toFinset_le (w := w) l
  rw [weight_eq, weight_eq]
  omega

end Finite

end ChatCommons.Collections
