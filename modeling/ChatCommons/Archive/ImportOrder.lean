import ChatCommons.Core.EventValidity
import ChatCommons.General.TopologicalOrder
import ChatCommons.Model.ArchiveImport

/-!
The order in which an import takes the events that are still unknown.
-/

namespace ChatCommons

open Collections Dag TopologicalOrder

variable {core : CoreNode} {pending : BTreeMap EventId SignedEvent}

def pendingParents (pending : BTreeMap EventId SignedEvent) (id : EventId) : List EventId :=
  match pending[id]? with
  | some event => event.content.parents
  | none => []

theorem pendingParents_eq {id : EventId} {event : SignedEvent} (h : pending[id]? = some event) :
    pendingParents pending id = event.content.parents := by
  rw [pendingParents, h]

/-- What the sort needs of the events and the node. -/
structure Sortable (core : CoreNode) (pending : BTreeMap EventId SignedEvent) : Prop where
  nodup : ∀ x, (pendingParents pending x).Nodup
  closed : ∀ x, ∀ parent ∈ pendingParents pending x, parent ∈ pending ∨ parent ∈ core.known
  grounded : ∀ x, Grounded (pendingParents pending) x

/-- Enough for the sort to go as far as it can. -/
structure Enclosed (core : CoreNode) (pending : BTreeMap EventId SignedEvent) : Prop where
  nodup : ∀ x, (pendingParents pending x).Nodup
  closed : ∀ x, ∀ parent ∈ pendingParents pending x, parent ∈ pending ∨ parent ∈ core.known

theorem Sortable.enclosed (h : Sortable core pending) : Enclosed core pending :=
  ⟨h.nodup, h.closed⟩

section Counting

structure ParentsCounted (pending : BTreeMap EventId SignedEvent) (id : EventId)
    (before : BTreeMap EventId (List EventId)) (done : List EventId)
    (s : ℕ × BTreeMap EventId (List EventId)) : Prop where
  remaining : s.1 = done.countP fun parent => parent ∈ pending
  children : ∀ p ∈ pending, s.2[p]?.getD [] = before[p]?.getD [] ++ if p ∈ done then [id] else []

theorem countParent_spec (id : EventId) (before : BTreeMap EventId (List EventId))
    {parents : List EventId} (hnodup : parents.Nodup)
    (hclosed : ∀ parent ∈ parents, parent ∈ pending ∨ parent ∈ core.known) :
    ∃ s, parents.foldlM (countParent core pending id) (0, before) = .ok s ∧
      ParentsCounted pending id before parents s := by
  have hstart : ParentsCounted pending id before [] (0, before) := ⟨rfl, by simp⟩
  apply Fallible.foldlM_ok (ParentsCounted pending id before) hstart
  intro done parent rest s hsplit hs
  have hnot : parent ∉ done := fun hd =>
    (List.nodup_append.mp (hsplit ▸ hnodup)).2.2 parent hd parent (by simp) rfl
  have hsnoc : ∀ p, p ∈ done ++ [parent] ↔ p ∈ done ∨ p = parent := by simp
  by_cases hpending : parent ∈ pending
  · refine ⟨_, by rw [countParent, if_pos hpending], ?_, fun p hp => ?_⟩
    · rw [List.countP_append, List.countP_singleton, decide_eq_true hpending, if_pos rfl,
        hs.remaining]
    · rw [getElem?_insert]
      by_cases heq : parent = p
      · subst heq
        rw [if_pos rfl, Option.getD_some, hs.children parent hp, if_neg hnot,
          if_pos ((hsnoc parent).mpr (Or.inr rfl)), List.append_nil]
      · have hsame : p ∈ done ++ [parent] ↔ p ∈ done := by
          rw [hsnoc, or_iff_left (Ne.symm heq)]
        rw [if_neg heq, hs.children p hp]
        simp only [hsame]
  · have hknown := (hclosed parent (by simp [hsplit])).resolve_left hpending
    refine ⟨s, by rw [countParent, if_neg hpending, if_pos hknown], ?_, fun p hp => ?_⟩
    · rw [List.countP_append, List.countP_singleton, decide_eq_false hpending,
        if_neg Bool.false_ne_true, Nat.add_zero, hs.remaining]
    · have hsame : p ∈ done ++ [parent] ↔ p ∈ done := by
        rw [hsnoc, or_iff_left]
        rintro rfl
        exact hpending hp
      rw [hs.children p hp]
      simp only [hsame]

/-- The loop over the rows `done` of the pending events. -/
structure Counted (pending : BTreeMap EventId SignedEvent) (done : List (EventId × SignedEvent))
    (s : ParentCounts) : Prop where
  remaining : ∀ x n, s.remainingParents[x]? = some n ↔ ∃ event, (x, event) ∈ done ∧
    n = event.content.parents.countP fun parent => parent ∈ pending
  children : ∀ p ∈ pending, s.children[p]?.getD [] =
    (done.filter fun row => p ∈ row.2.content.parents).map Prod.fst

theorem countParents_spec (h : Enclosed core pending) :
    ∃ counts, pending.toList.foldlM (countParents core pending) {} = .ok counts ∧
      Counted pending pending.toList counts := by
  have hstart : Counted pending [] {} := ⟨by simp, by simp⟩
  apply Fallible.foldlM_ok (Counted pending) hstart
  rintro done ⟨id, event⟩ rest s hsplit hs
  have hrow : pending[id]? = some event := mem_toList.mp (by rw [hsplit]; simp)
  have hnodup := h.nodup id
  have hclosed := h.closed id
  rw [pendingParents_eq hrow] at hnodup hclosed
  obtain ⟨⟨remaining, children⟩, hloop, hremaining, hchildren⟩ :=
    countParent_spec id s.children hnodup hclosed
  dsimp only at hremaining hchildren
  have hnew : ∀ other, (id, other) ∉ done := by
    intro other hother
    have hsorted := map_toList_sorted pending
    rw [hsplit, List.pairwise_append] at hsorted
    exact lt_irrefl _ (hsorted.2.2 _ hother (id, event) (by simp))
  refine ⟨_, by rw [countParents, hloop], fun x n => ?_, fun p hp => ?_⟩
  · rw [getElem?_insert]
    by_cases heq : id = x
    · subst heq
      rw [if_pos rfl, Option.some_inj, hremaining]
      constructor
      · rintro rfl
        exact ⟨event, by simp, rfl⟩
      · rintro ⟨other, hother, rfl⟩
        rw [List.mem_append, or_iff_right (hnew other), List.mem_singleton, Prod.mk.injEq] at hother
        rw [hother.2]
    · rw [if_neg heq, hs.remaining]
      simp only [List.mem_append, List.mem_singleton, Prod.mk.injEq, Ne.symm heq, false_and,
        or_false]
  · rw [hchildren p hp, hs.children p hp, List.filter_append, List.map_append]
    by_cases hparent : p ∈ event.content.parents
    · simp [hparent]
    · simp [hparent]

end Counting

/-- The variables of the sort when the nodes `done` have come. -/
structure Kahn (pending : BTreeMap EventId SignedEvent) (done : List EventId) (s : Sorting)
    (children : BTreeMap EventId (List EventId)) : Prop where
  sorted : Sorted (pendingParents pending) (· ∈ pending) done
  remaining : ∀ x ∈ pending, x ∉ done →
    s.remainingParents[x]? = some (left (pendingParents pending) (· ∈ pending) done x)
  ready : ∀ x, x ∈ s.ready ↔
    x ∈ pending ∧ x ∉ done ∧ left (pendingParents pending) (· ∈ pending) done x = 0
  nodup : ∀ p ∈ pending, p ∉ done → (children[p]?.getD []).Nodup
  children : ∀ p ∈ pending, p ∉ done → ∀ x,
    x ∈ children[p]?.getD [] ↔ x ∈ pending ∧ p ∈ pendingParents pending x

section Releasing

variable (pending) in
/-- The parents still to come when `id` has been taken off the counts of the children `told`. -/
def leftTold (done : List EventId) (id : EventId) (told : List EventId) (x : EventId) : ℕ :=
  if x ∈ told then left (pendingParents pending) (· ∈ pending) (done ++ [id]) x
  else left (pendingParents pending) (· ∈ pending) done x

/-- The loop over the children `told` of the node that comes after `done`. -/
structure Released (pending : BTreeMap EventId SignedEvent) (done : List EventId) (id : EventId)
    (told : List EventId) (s : Sorting) : Prop where
  remaining : ∀ x ∈ pending, x ∉ done ++ [id] →
    s.remainingParents[x]? = some (leftTold pending done id told x)
  ready : ∀ x, x ∈ s.ready ↔
    x ∈ pending ∧ x ∉ done ++ [id] ∧ leftTold pending done id told x = 0

variable {done : List EventId} {s : Sorting} {children : BTreeMap EventId (List EventId)}
  {id : EventId}

theorem leftTold_other {told : List EventId} {child x : EventId} (h : x ≠ child) :
    leftTold pending done id (told ++ [child]) x = leftTold pending done id told x := by
  have hmem : x ∈ told ++ [child] ↔ x ∈ told := by
    rw [List.mem_append, List.mem_singleton, or_iff_left h]
  simp only [leftTold, hmem]

variable (h : Kahn pending done s children) (hready : s.ready.min? = some id)
include h hready

theorem Kahn.next : id ∈ pending ∧ id ∉ done ∧
    left (pendingParents pending) (· ∈ pending) done id = 0 :=
  (h.ready id).mp (Std.ExtTreeSet.min?_mem hready)

variable (henclosed : Enclosed core pending)
include henclosed

theorem Kahn.child_waits {child : EventId} (hchild : child ∈ children[id]?.getD []) :
    child ∈ pending ∧ child ∉ done ++ [id] ∧
      left (pendingParents pending) (· ∈ pending) done child =
        left (pendingParents pending) (· ∈ pending) (done ++ [id]) child + 1 := by
  obtain ⟨hid, hnot, hzero⟩ := h.next hready
  obtain ⟨hpending, hparent⟩ := (h.children id hid hnot child).mp hchild
  refine ⟨hpending, fun hmem => ?_, ?_⟩
  · obtain hmem | hmem := List.mem_append.mp hmem
    · obtain ⟨pre, post, hsplit⟩ := List.append_of_mem hmem
      apply hnot
      rw [hsplit]
      exact List.mem_append_left _ (h.sorted.before pre child post hsplit id hparent hid)
    · rw [List.mem_singleton.mp hmem] at hparent
      exact hnot (left_eq_zero.mp hzero id hparent hid)
  · have hsnoc := left_snoc (henclosed.nodup child) hid hnot
    rwa [if_pos hparent] at hsnoc

theorem Kahn.release : ∃ s', (children[id]?.getD []).foldlM releaseChild
      { s with ready := s.ready.erase id } = .ok s' ∧
    Released pending done id (children[id]?.getD []) s' := by
  obtain ⟨hid, hnot, _⟩ := h.next hready
  have hstart : Released pending done id [] { s with ready := s.ready.erase id } := by
    constructor
    · intro x hx hdone
      rw [leftTold, if_neg List.not_mem_nil]
      exact h.remaining x hx fun hd => hdone (List.mem_append_left _ hd)
    · intro x
      rw [mem_erase, h.ready, leftTold, if_neg List.not_mem_nil, List.mem_append,
        List.mem_singleton]
      tauto
  apply Fallible.foldlM_ok (Released pending done id) hstart
  intro told child rest t hsplit ht
  obtain ⟨hchild, hwaits, hleft⟩ := h.child_waits hready henclosed
    (by rw [hsplit]; simp : child ∈ children[id]?.getD [])
  have hfresh : child ∉ told := fun hd =>
    (List.nodup_append.mp (hsplit ▸ h.nodup id hid hnot)).2.2 child hd child (by simp) rfl
  have hcount := ht.remaining child hchild hwaits
  rw [leftTold, if_neg hfresh, hleft] at hcount
  have hnow : leftTold pending done id (told ++ [child]) child =
      left (pendingParents pending) (· ∈ pending) (done ++ [id]) child := by
    rw [leftTold, if_pos (by simp)]
  have hbefore : leftTold pending done id told child ≠ 0 := by
    rw [leftTold, if_neg hfresh, hleft]
    omega
  refine ⟨_, by simp only [releaseChild, hcount]; rfl, fun x hx hdone => ?_, fun x => ?_⟩
  · rw [getElem?_insert]
    by_cases heq : child = x
    · subst heq
      rw [if_pos rfl, hnow]
    · rw [if_neg heq, leftTold_other (Ne.symm heq), ht.remaining x hx hdone]
  · by_cases heq : x = child
    · subst heq
      rw [hnow]
      split_ifs with hzero
      · rw [mem_insert]
        exact ⟨fun _ => ⟨hchild, hwaits, hzero⟩, fun _ => Or.inl rfl⟩
      · rw [ht.ready]
        exact ⟨fun hx => absurd hx.2.2 hbefore, fun hx => absurd hx.2.2 hzero⟩
    · rw [leftTold_other heq, ← ht.ready]
      split_ifs
      · rw [mem_insert, or_iff_right heq]
      · rfl

theorem Kahn.step : ∃ s', (children[id]?.getD []).foldlM releaseChild
      { s with ready := s.ready.erase id } = .ok s' ∧
    Kahn pending (done ++ [id]) s' children := by
  obtain ⟨hid, hnot, hzero⟩ := h.next hready
  obtain ⟨s', hs', hreleased⟩ := h.release hready henclosed
  have htold : ∀ x ∈ pending, leftTold pending done id (children[id]?.getD []) x =
      left (pendingParents pending) (· ∈ pending) (done ++ [id]) x := by
    intro x hx
    by_cases hchild : x ∈ children[id]?.getD []
    · rw [leftTold, if_pos hchild]
    · have hsnoc := left_snoc (henclosed.nodup x) hid hnot
      rw [if_neg fun hp => hchild ((h.children id hid hnot x).mpr ⟨hx, hp⟩), Nat.add_zero] at hsnoc
      rw [leftTold, if_neg hchild, hsnoc]
  have hearlier : ∀ p, p ∉ done ++ [id] → p ∉ done := fun p hp hd =>
    hp (List.mem_append_left _ hd)
  refine ⟨s', hs', h.sorted.snoc hid hnot hzero, fun x hx hdone => ?_, fun x => ?_, ?_, ?_⟩
  · rw [hreleased.remaining x hx hdone, htold x hx]
  · rw [hreleased.ready]
    apply and_congr_right
    intro hx
    rw [htold x hx]
  · exact fun p hp hdone => h.nodup p hp (hearlier p hdone)
  · exact fun p hp hdone => h.children p hp (hearlier p hdone)

end Releasing

section Taking

variable {done : List EventId} {s : Sorting} {children : BTreeMap EventId (List EventId)}

theorem Kahn.erase (h : Kahn pending done s children) {id : EventId} (hid : id ∈ done) :
    Kahn pending done s (children.erase id) := by
  have hsame : ∀ p, p ∉ done → (children.erase id)[p]? = children[p]? := by
    intro p hp
    rw [getElem?_erase, if_neg]
    rintro rfl
    exact hp hid
  refine { h with nodup := fun p hp hdone => ?_, children := fun p hp hdone => ?_ }
  · rw [hsame p hdone]
    exact h.nodup p hp hdone
  · rw [hsame p hdone]
    exact h.children p hp hdone

theorem Kahn.length_le (h : Kahn pending done s children) : done.length ≤ pending.size := by
  rw [← Std.ExtTreeMap.length_keys]
  apply (List.subperm_of_subset h.sorted.nodup _).length_le
  intro x hx
  exact Std.ExtTreeMap.mem_keys.mpr (h.sorted.within x hx)

/-- An order of the pending events in which parents come first. -/
structure ParentsFirst (pending : BTreeMap EventId SignedEvent) (order : List EventId) : Prop
    extends Sorted (pendingParents pending) (· ∈ pending) order where
  all : ∀ x ∈ pending, x ∈ order

theorem ParentsFirst.length_eq {order : List EventId} (h : ParentsFirst pending order) :
    order.length = pending.size := by
  rw [← Std.ExtTreeMap.length_keys]
  apply List.Perm.length_eq
  apply (List.perm_ext_iff_of_nodup h.nodup Std.ExtTreeMap.nodup_keys).mpr
  intro x
  rw [Std.ExtTreeMap.mem_keys]
  exact ⟨h.within x, h.all x⟩

section Enclosed

variable (henclosed : Enclosed core pending)
include henclosed

/-- The loop ends, with an order of those that it has reached. -/
theorem topologicalLoop_stuck (h : Kahn pending done s children) :
    ∃ order, topologicalLoop s children done = .ok order ∧
      Sorted (pendingParents pending) (· ∈ pending) order ∧
      ∀ x ∈ pending, x ∉ order → left (pendingParents pending) (· ∈ pending) order x ≠ 0 := by
  generalize hn : pending.size - done.length = n
  induction n using Nat.strong_induction_on generalizing s children done with
  | _ n ih =>
    rw [topologicalLoop]
    split
    · rename_i hready
      refine ⟨done, rfl, h.sorted, ?_⟩
      intro x hx hdone hzero
      have hmem : x ∈ s.ready := (h.ready x).mpr ⟨hx, hdone, hzero⟩
      rw [Std.ExtTreeSet.min?_eq_none_iff.mp hready] at hmem
      exact not_mem_empty hmem
    · rename_i id hready
      obtain ⟨s', hs', hkahn⟩ := h.step hready henclosed
      have hlength := hkahn.length_le
      rw [List.length_append, List.length_singleton] at hlength
      have hless : pending.size - (done ++ [id]).length < n := by
        rw [List.length_append, List.length_singleton]
        omega
      split
      · rename_i hchildren
        rw [hchildren] at hs'
        rw [← Except.ok.inj hs'] at hkahn
        exact ih _ hless hkahn rfl
      · rename_i released hchildren
        rw [hchildren, Option.getD_some] at hs'
        dsimp only
        rw [hs']
        exact ih _ hless (hkahn.erase (by simp)) rfl

theorem exists_kahn : ∃ counts, pending.toList.foldlM (countParents core pending) {} = .ok counts ∧
    Kahn pending [] ⟨counts.remainingParents, zeroCounts counts.remainingParents⟩
      counts.children := by
  obtain ⟨counts, hcounts, hcounted⟩ := countParents_spec henclosed
  have hleft : ∀ {x event}, pending[x]? = some event →
      (event.content.parents.countP fun parent => parent ∈ pending) =
        left (pendingParents pending) (· ∈ pending) [] x := by
    intro x event hrow
    rw [left, pendingParents_eq hrow]
    simp only [List.not_mem_nil, not_false_eq_true, and_true]
  have hremaining : ∀ x n, counts.remainingParents[x]? = some n ↔
      x ∈ pending ∧ n = left (pendingParents pending) (· ∈ pending) [] x := by
    intro x n
    rw [hcounted.remaining]
    simp only [mem_toList]
    constructor
    · rintro ⟨event, hrow, rfl⟩
      exact ⟨mem_of_getElem? hrow, hleft hrow⟩
    · rintro ⟨hx, rfl⟩
      obtain ⟨event, hrow⟩ := mem_iff.mp hx
      exact ⟨event, hrow, (hleft hrow).symm⟩
  refine ⟨counts, hcounts, ?_⟩
  refine ⟨.nil, fun x hx _ => (hremaining x _).mpr ⟨hx, rfl⟩, fun x => ?_, ?_, ?_⟩
  · rw [zeroCounts, mem_setOf]
    simp only [List.mem_map, List.mem_filter, decide_eq_true_eq, Prod.exists, mem_toList,
      exists_and_right, exists_eq_right, hremaining, List.not_mem_nil, not_false_eq_true,
      true_and]
    exact and_congr_right fun _ => eq_comm
  · intro p hp _
    rw [hcounted.children p hp]
    have hkeys : (pending.toList.map Prod.fst).Nodup :=
      (List.pairwise_map.mpr (map_toList_sorted pending)).imp fun h => ne_of_lt h
    exact hkeys.sublist (List.filter_sublist.map _)
  · intro p hp _ x
    rw [hcounted.children p hp]
    simp only [List.mem_map, List.mem_filter, decide_eq_true_eq, Prod.exists, mem_toList,
      exists_and_right, exists_eq_right]
    constructor
    · rintro ⟨event, hrow, hparent⟩
      exact ⟨mem_of_getElem? hrow, by rwa [pendingParents_eq hrow]⟩
    · rintro ⟨hx, hparent⟩
      obtain ⟨event, hrow⟩ := mem_iff.mp hx
      exact ⟨event, hrow, by rwa [pendingParents_eq hrow] at hparent⟩

theorem topologicalOrder_cases : ∃ order,
    Sorted (pendingParents pending) (· ∈ pending) order ∧
      (∀ x ∈ pending, x ∉ order → left (pendingParents pending) (· ∈ pending) order x ≠ 0) ∧
      topologicalOrder core pending =
        if order.length ≠ pending.size then .error .incompleteArchive else .ok order := by
  obtain ⟨counts, hcounts, hkahn⟩ := exists_kahn henclosed
  obtain ⟨order, horder, hsorted, hstuck⟩ := topologicalLoop_stuck henclosed hkahn
  refine ⟨order, hsorted, hstuck, ?_⟩
  simp only [topologicalOrder, hcounts, bind, Except.bind, horder]

end Enclosed

theorem topologicalOrder_spec (hsortable : Sortable core pending) :
    ∃ order, topologicalOrder core pending = .ok order ∧ ParentsFirst pending order := by
  obtain ⟨order, hsorted, hstuck, horder⟩ := topologicalOrder_cases hsortable.enclosed
  have hfirst : ParentsFirst pending order :=
    { hsorted with all := all_done (fun x _ => hsortable.grounded x) hstuck }
  refine ⟨order, ?_, hfirst⟩
  rw [horder, if_neg (not_not.mpr hfirst.length_eq)]

end Taking

end ChatCommons
