import ChatCommons.Core.NodeHistory

/-!
The search of `ancestry` collects an event and all of its ancestors, in the order of
their ids, unless they are more than its limit.
-/

namespace ChatCommons

open Collections Dag

namespace CoreNode

variable {C : Crypto} {node : CoreNode} {id x : EventId}

section Past

variable (node : CoreNode) (id : EventId)

open Classical in
noncomputable def past : List EventId :=
  node.known.toList.filter fun x => Reaches node.parents x id

noncomputable def pastEvents : List SignedEvent :=
  (node.past id).filterMap fun x => node.store.rows[x]?

end Past

theorem past_sorted : (node.past id).Pairwise (· < ·) := (toList_sorted node.known).filter _

theorem Sound.known_of_reaches (h : node.Sound C) (hid : id ∈ node.known)
    (hx : Reaches node.parents x id) : x ∈ node.known := h.closed.reaches hx hid

theorem Sound.mem_past (h : node.Sound C) (hid : id ∈ node.known) :
    x ∈ node.past id ↔ Reaches node.parents x id := by
  simp only [past, List.mem_filter, Std.ExtTreeSet.mem_toList, decide_eq_true_eq]
  exact ⟨And.right, fun hx => ⟨h.known_of_reaches hid hx, hx⟩⟩

structure Searched (node : CoreNode) (id : EventId) (pending : List EventId)
    (discovered : BTreeSet EventId) (events : BTreeMap EventId SignedEvent) : Prop where
  reached : ∀ x ∈ discovered, Reaches node.parents x id
  waiting : ∀ x ∈ pending, Reaches node.parents x id
  root : id ∈ discovered ∨ id ∈ pending
  closed : ∀ x ∈ discovered, ∀ parent ∈ node.parents x, parent ∈ discovered ∨ parent ∈ pending
  rows : ∀ {x : EventId} {event : SignedEvent}, events[x]? = some event ↔
    x ∈ discovered ∧ node.store.rows[x]? = some event

namespace Searched

variable {pending : List EventId} {discovered : BTreeSet EventId}
  {events : BTreeMap EventId SignedEvent}

theorem start : Searched node id [id] ∅ ∅ where
  reached _ hx := absurd hx not_mem_empty
  waiting x hx := by
    rw [List.mem_singleton.mp hx]
  root := Or.inr (by simp)
  closed _ hx := absurd hx not_mem_empty
  rows := by simp

theorem skip (h : Searched node id (x :: pending) discovered events) (hx : x ∈ discovered) :
    Searched node id pending discovered events where
  reached := h.reached
  waiting y hy := h.waiting y (List.mem_cons_of_mem _ hy)
  root := h.root.elim Or.inl fun hid => by
    rcases List.mem_cons.mp hid with rfl | hid
    · exact Or.inl hx
    · exact Or.inr hid
  closed y hy parent hp := (h.closed y hy parent hp).elim Or.inl fun hmem => by
    rcases List.mem_cons.mp hmem with rfl | hmem
    · exact Or.inl hx
    · exact Or.inr hmem
  rows := h.rows

theorem visit (h : Searched node id (x :: pending) discovered events) {event : SignedEvent}
    (hrow : node.store.rows[x]? = some event) :
    Searched node id (event.content.parents.reverse ++ pending) (discovered.insert x)
      (events.insert x event) where
  reached y hy := by
    rcases mem_insert.mp hy with rfl | hy
    · exact h.waiting y (by simp)
    · exact h.reached y hy
  waiting y hy := by
    rcases List.mem_append.mp hy with hy | hy
    · have hstep : ParentOf node.parents y x := by
        rw [ParentOf, parents_eq hrow]
        exact List.mem_reverse.mp hy
      exact .head hstep (h.waiting x (by simp))
    · exact h.waiting y (List.mem_cons_of_mem _ hy)
  root := by
    rcases h.root with hid | hid
    · exact Or.inl (mem_insert.mpr (Or.inr hid))
    · rcases List.mem_cons.mp hid with rfl | hid
      · exact Or.inl (mem_insert.mpr (Or.inl rfl))
      · exact Or.inr (List.mem_append_right _ hid)
  closed y hy parent hp := by
    rcases mem_insert.mp hy with rfl | hy
    · rw [parents_eq hrow] at hp
      exact Or.inr (List.mem_append_left _ (List.mem_reverse.mpr hp))
    · rcases h.closed y hy parent hp with hmem | hmem
      · exact Or.inl (mem_insert.mpr (Or.inr hmem))
      · rcases List.mem_cons.mp hmem with rfl | hmem
        · exact Or.inl (mem_insert.mpr (Or.inl rfl))
        · exact Or.inr (List.mem_append_right _ hmem)
  rows {y other} := by
    rw [getElem?_insert, mem_insert]
    split_ifs with heq
    · subst heq
      simp [hrow]
    · rw [h.rows, or_iff_right (fun hy => heq hy.symm)]

variable (hnode : node.Sound C) (hid : id ∈ node.known)
include hnode hid

theorem mem_discovered (h : Searched node id [] discovered events) :
    x ∈ discovered ↔ x ∈ node.past id := by
  rw [hnode.mem_past hid]
  refine ⟨h.reached x, fun hx => ?_⟩
  have hroot : id ∈ discovered := h.root.resolve_right (by simp)
  have hclosed : Closed node.parents {y | y ∈ discovered} := fun y hy parent hp =>
    (h.closed y hy parent hp).resolve_right (by simp)
  exact hclosed.reaches hx hroot

theorem finished (h : Searched node id [] discovered events) :
    (node.past id).length = discovered.size ∧ events.toList.map Prod.snd = node.pastEvents id := by
  have : Std.Antisymm fun a b : EventId => a < b := ⟨fun _ _ hab hba => absurd hab hba.asymm⟩
  have : Std.Irrefl fun a b : EventId => a < b := ⟨fun _ => lt_irrefl _⟩
  have hlist : node.past id = discovered.toList :=
    past_sorted.eq_of_mem_iff (toList_sorted discovered) fun y => by
      rw [Std.ExtTreeSet.mem_toList, h.mem_discovered hnode hid]
  refine ⟨by rw [hlist, Std.ExtTreeSet.length_toList], ?_⟩
  have hrows : events.toList =
      (node.past id).filterMap fun x => node.store.rows[x]?.map fun event => (x, event) := by
    have : Std.Antisymm fun a b : EventId × SignedEvent => a.1 < b.1 :=
      ⟨fun _ _ hab hba => absurd hab hba.asymm⟩
    have : Std.Irrefl fun a b : EventId × SignedEvent => a.1 < b.1 := ⟨fun _ => lt_irrefl _⟩
    refine (map_toList_sorted events).eq_of_mem_iff ?_ fun ⟨y, event⟩ => ?_
    · refine past_sorted.filterMap _ fun a b hab p hp q hq => ?_
      simp only [Option.map_eq_some_iff] at hp hq
      obtain ⟨_, _, rfl⟩ := hp
      obtain ⟨_, _, rfl⟩ := hq
      exact hab
    · rw [mem_toList, h.rows, h.mem_discovered hnode hid, List.mem_filterMap]
      simp only [Option.map_eq_some_iff, Prod.mk.injEq]
      constructor
      · rintro ⟨hy, hrow⟩
        exact ⟨y, hy, event, hrow, rfl, rfl⟩
      · rintro ⟨_, hy, _, hrow, rfl, rfl⟩
        exact ⟨hy, hrow⟩
  rw [hrows, List.map_filterMap, pastEvents]
  refine congrArg (fun f => List.filterMap f (node.past id)) (funext fun y => ?_)
  rw [Option.map_map]
  exact Option.map_id'

theorem exceeds (h : Searched node id (x :: pending) discovered events) (hx : x ∉ discovered)
    {limit : ℕ} (hlimit : discovered.size + 1 > limit) : limit < (node.past id).length := by
  have hsub : ∀ y ∈ (discovered.insert x).toList, y ∈ node.past id := fun y hy => by
    rw [hnode.mem_past hid]
    rcases mem_insert.mp (Std.ExtTreeSet.mem_toList.mp hy) with rfl | hy
    · exact h.waiting y (by simp)
    · exact h.reached y hy
  have hlength := (List.subperm_of_subset (toList_nodup _) hsub).length_le
  rw [Std.ExtTreeSet.length_toList, size_insert_of_not_mem hx] at hlength
  omega

end Searched

theorem ancestryLoop_eq (hnode : node.Sound C) (hid : id ∈ node.known) {limit : ℕ}
    {pending : List EventId} {discovered : BTreeSet EventId}
    {events : BTreeMap EventId SignedEvent} (h : Searched node id pending discovered events)
    (hsize : discovered.size ≤ limit) : node.ancestryLoop C limit pending discovered events =
      if (node.past id).length ≤ limit then .ok (node.pastEvents id)
      else .error .ancestryLimitExceeded := by
  induction pending, discovered, events using ancestryLoop.induct C node limit with
  | case1 discovered events =>
    obtain ⟨hlength, hevents⟩ := h.finished hnode hid
    rw [ancestryLoop, hevents, if_pos (hlength.trans_le hsize)]
  | case2 discovered events x pending hx ih =>
    rw [ancestryLoop, if_pos hx]
    exact ih (h.skip hx) hsize
  | case3 discovered events x pending hx hlimit =>
    have hexceeds := h.exceeds hnode hid hx hlimit
    rw [ancestryLoop, if_neg hx, if_pos hlimit, if_neg (by omega)]
  | case4 discovered events x pending hx hlimit error herror =>
    rw [hnode.event_eq] at herror
    cases herror
  | case5 discovered events x pending hx hlimit hnone =>
    rw [hnode.event_eq] at hnone
    obtain ⟨event, hrow⟩ := hnode.stored (hnode.known_of_reaches hid (h.waiting x (by simp)))
    rw [hrow] at hnone
    cases hnone
  | case6 discovered events x pending hx hlimit event hevent ih =>
    rw [hnode.event_eq] at hevent
    have hrow : node.store.rows[x]? = some event := Except.ok.inj hevent
    rw [ancestryLoop, if_neg hx, if_neg hlimit, hnode.event_eq, hrow]
    refine ih (h.visit hrow) ?_
    rw [size_insert_of_not_mem hx]
    omega

theorem ancestry_eq (hnode : node.Sound C) (hid : id ∈ node.known) (limit : ℕ) :
    node.ancestry C id limit = if (node.past id).length ≤ limit then .ok (node.pastEvents id)
      else .error .ancestryLimitExceeded := by
  rw [ancestry]
  split_ifs with hzero hlength hlength
  · have hmem : id ∈ node.past id := (hnode.mem_past hid).mpr .refl
    have := List.length_pos_of_mem hmem
    omega
  · rfl
  · rw [ancestryLoop_eq hnode hid .start (Nat.zero_le _), if_pos hlength]
  · rw [ancestryLoop_eq hnode hid .start (Nat.zero_le _), if_neg hlength]

end CoreNode

end ChatCommons
