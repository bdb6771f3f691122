import ChatCommons.Archive.Checks
import ChatCommons.Archive.ImportOrder
import ChatCommons.Core.Confluence
import ChatCommons.Sync.MessageSpec

/-!
An import takes in all of an archive, in batches that leave nothing behind.
-/

namespace ChatCommons

open Collections Dag TopologicalOrder

variable {C : Crypto} {community : CommunityId} {core mid : CoreNode}
  {pending : BTreeMap EventId SignedEvent} {events : List SignedEvent}

def ParentAmong (events : List SignedEvent) (parent id : EventId) : Prop :=
  ∃ event ∈ events, event.eventId = id ∧ parent ∈ event.content.parents

/-- An empty node, or one with a closed history of the community and nothing else of it in its
table. -/
def CoreNode.Takes (core : CoreNode) (community : CommunityId) : Prop :=
  (core.community = none ∧ core.store.rows = ∅ ∧ core.known = ∅) ∨
  (core.community = some community ∧ core.ParentClosed ∧
    ∀ (id : EventId) (row : SignedEvent), core.store.rows[id]? = some row →
      row.belongsTo community → id ∈ core.known)

section Batches

def eventsOf (pending : BTreeMap EventId SignedEvent) (ids : List EventId) : List SignedEvent :=
  ids.filterMap fun id => pending[id]?

theorem takeBatch_none {left : BTreeMap EventId SignedEvent} {id : EventId}
    (h : left[id]? = none) (ids : List EventId) : takeBatch left (id :: ids) = takeBatch left ids := by
  simp only [takeBatch, List.foldl_cons, h]

theorem takeBatch_some {left : BTreeMap EventId SignedEvent} {id : EventId} {event : SignedEvent}
    (h : left[id]? = some event) (ids : List EventId) :
    takeBatch left (id :: ids) =
      ((takeBatch (left.erase id) ids).1, event :: (takeBatch (left.erase id) ids).2) := by
  simp only [takeBatch, List.foldl_cons, h, List.nil_append]
  refine @List.foldl_hom _ _ _ (fun s => (s.1, event :: s.2)) _ _ ids (left.erase id, []) ?_
  intro s y
  cases s.1[y]? with
  | none => rfl
  | some row => rfl

theorem takeBatch_eq {left : BTreeMap EventId SignedEvent} {ids : List EventId}
    (hnodup : ids.Nodup) (hsame : ∀ id ∈ ids, left[id]? = pending[id]?) :
    (takeBatch left ids).2 = eventsOf pending ids ∧
      ∀ id, id ∉ ids → (takeBatch left ids).1[id]? = left[id]? := by
  induction ids generalizing left with
  | nil => exact ⟨rfl, fun _ _ => rfl⟩
  | cons x ids ih =>
    obtain ⟨hx, hids⟩ := List.nodup_cons.mp hnodup
    have hhead := hsame x List.mem_cons_self
    have hrest := fun id hid => hsame id (List.mem_cons_of_mem _ hid)
    cases hrow : left[x]? with
    | none =>
      have hnone : eventsOf pending (x :: ids) = eventsOf pending ids := by
        simp only [eventsOf, List.filterMap_cons, ← hhead, hrow]
      obtain ⟨hbatch, hleft⟩ := ih hids hrest
      rw [hnone, takeBatch_none hrow]
      exact ⟨hbatch, fun id hid => hleft id fun h => hid (List.mem_cons_of_mem _ h)⟩
    | some event =>
      have hsome : eventsOf pending (x :: ids) = event :: eventsOf pending ids := by
        simp only [eventsOf, List.filterMap_cons, ← hhead, hrow]
      have herased : ∀ id ∈ ids, (left.erase x)[id]? = pending[id]? := by
        intro id hid
        rw [getElem?_erase, if_neg, hrest id hid]
        rintro rfl
        exact hx hid
      obtain ⟨hbatch, hleft⟩ := ih hids herased
      rw [hsome, takeBatch_some hrow]
      refine ⟨by rw [hbatch], fun id hid => ?_⟩
      rw [List.mem_cons, not_or] at hid
      rw [hleft id hid.2, getElem?_erase, if_neg (Ne.symm hid.1)]

theorem takeBatches_eq {left : BTreeMap EventId SignedEvent} {pieces : List (List EventId)}
    (hnodup : pieces.flatten.Nodup) (hsame : ∀ id ∈ pieces.flatten, left[id]? = pending[id]?) :
    takeBatches left pieces = pieces.map (eventsOf pending) := by
  induction pieces generalizing left with
  | nil => rfl
  | cons ids pieces ih =>
    rw [List.flatten_cons] at hnodup hsame
    obtain ⟨hids, hpieces, hapart⟩ := List.nodup_append.mp hnodup
    obtain ⟨hbatch, hleft⟩ := takeBatch_eq hids
      fun id hid => hsame id (List.mem_append_left _ hid)
    have hrest : takeBatches (takeBatch left ids).1 pieces = pieces.map (eventsOf pending) := by
      apply ih hpieces
      intro id hid
      rw [hleft id fun h => hapart id h id hid rfl, hsame id (List.mem_append_right _ hid)]
    rw [takeBatches, List.map_cons, ← hbatch, ← hrest]

end Batches

/-- The events that the node does not know are fit to be sorted and stored. -/
structure Missing (C : Crypto) (core : CoreNode) (community : CommunityId)
    (pending : BTreeMap EventId SignedEvent) : Prop extends Sortable core pending where
  keyed : ∀ {id : EventId} {event : SignedEvent}, pending[id]? = some event → event.eventId = id
  valid : ∀ {id : EventId} {event : SignedEvent}, pending[id]? = some event → event.Valid C
  belongs : ∀ {id : EventId} {event : SignedEvent}, pending[id]? = some event →
    event.belongsTo community

namespace Missing

variable (h : Missing C core community pending) {ids : List EventId}
include h

theorem map_eventsOf (hids : ∀ id ∈ ids, id ∈ pending) :
    (eventsOf pending ids).map SignedEvent.eventId = ids := by
  induction ids with
  | nil => rfl
  | cons id ids ih =>
    obtain ⟨event, hrow⟩ := mem_iff.mp (hids id List.mem_cons_self)
    have hrest := ih fun x hx => hids x (List.mem_cons_of_mem _ hx)
    simp only [eventsOf, List.filterMap_cons, hrow, List.map_cons, h.keyed hrow]
    exact congrArg (id :: ·) hrest

theorem length_eventsOf (hids : ∀ id ∈ ids, id ∈ pending) :
    (eventsOf pending ids).length = ids.length := by
  rw [← List.length_map SignedEvent.eventId, h.map_eventsOf hids]

omit h in
theorem mem_eventsOf {event : SignedEvent} (he : event ∈ eventsOf pending ids) :
    ∃ id ∈ ids, pending[id]? = some event := List.mem_filterMap.mp he

theorem distinctIds_perm (hids : ∀ id ∈ ids, id ∈ pending) (hnodup : ids.Nodup) :
    (distinctIds (eventsOf pending ids)).Perm ids := by
  apply (List.perm_ext_iff_of_nodup (toList_nodup _) hnodup).mpr
  intro id
  rw [h.map_eventsOf hids, Std.ExtTreeSet.mem_toList, mem_setOf]

end Missing

def PendingEvent (pending : BTreeMap EventId SignedEvent) (event : SignedEvent) : Prop :=
  ∃ id : EventId, pending[id]? = some event

/-- The node when the ids `done` have been taken in. -/
structure Imported (core : CoreNode) (community : CommunityId)
    (pending : BTreeMap EventId SignedEvent) (done : List EventId) (mid : CoreNode) : Prop where
  calm : Calm (PendingEvent pending) community mid
  known : ∀ id, id ∈ mid.known ↔ id ∈ core.known ∨ id ∈ done
  fresh : ∀ id ∈ pending, id ∉ done → id ∉ mid.store.rows

section Import

variable (h : Missing C core community pending) {order done ids later : List EventId}
  (horder : ParentsFirst pending order) (hsplit : order = done ++ ids ++ later)
include h horder hsplit

omit h in
theorem within_pending : ∀ id ∈ ids, id ∈ pending := by
  intro id hid
  apply horder.within
  rw [hsplit]
  exact List.mem_append_left _ (List.mem_append_right _ hid)

omit h in
theorem piece_nodup : ids.Nodup ∧ ∀ id ∈ ids, id ∉ done := by
  have hnodup := (List.nodup_append.mp (hsplit ▸ horder.nodup)).1
  obtain ⟨_, hids, hapart⟩ := List.nodup_append.mp hnodup
  exact ⟨hids, fun id hid hdone => hapart id hdone id hid rfl⟩

theorem piece_genesis (hmid : Imported core community pending done mid)
    (hnone : mid.community = none) (hne : ids ≠ []) :
    ∃ event ∈ eventsOf pending ids, event.content.communityId = none := by
  have hempty := hmid.calm.named hnone
  obtain rfl : done = [] := by
    apply List.eq_nil_iff_forall_not_mem.mpr
    exact fun id hid => hempty id ((hmid.known id).mpr (Or.inr hid))
  obtain ⟨id, rest, rfl⟩ := List.exists_cons_of_ne_nil hne
  obtain ⟨event, hrow⟩ := mem_iff.mp (within_pending horder hsplit id List.mem_cons_self)
  refine ⟨event, List.mem_filterMap.mpr ⟨id, List.mem_cons_self, hrow⟩, ?_⟩
  rw [(h.valid hrow).content.genesis, List.eq_nil_iff_forall_not_mem]
  intro parent hp
  rw [← pendingParents_eq hrow] at hp
  obtain hpending | hknown := h.closed id parent hp
  · have hbefore := horder.before [] id (rest ++ later) (by rw [hsplit]; simp) parent hp hpending
    cases hbefore
  · exact hempty parent ((hmid.known parent).mpr (Or.inl hknown))

theorem piece_known (hmid : Imported core community pending done mid) {node' : CoreNode}
    (hleast : IsLeast (mid.closures (· ∈ eventsOf pending ids)) node'.knownSet) :
    ∀ id, id ∈ node'.known ↔ id ∈ core.known ∨ id ∈ done ++ ids := by
  have hold : ∀ id, id ∈ core.known ∨ id ∈ done → id ∈ node'.known := fun id hid =>
    hleast.1.1 ((hmid.known id).mpr hid)
  have hnew : ∀ pre post, ids = pre ++ post → ∀ id ∈ pre, id ∈ node'.known := by
    intro pre
    induction pre using List.reverseRecOn with
    | nil => simp
    | append_singleton pre x ih =>
      intro post hids id hid
      have hpre := ih (x :: post) (by rw [hids]; simp)
      obtain hid | hid := List.mem_append.mp hid
      · exact hpre id hid
      · obtain rfl := List.mem_singleton.mp hid
        have hmem : id ∈ ids := by rw [hids]; simp
        obtain ⟨event, hrow⟩ := mem_iff.mp (within_pending horder hsplit id hmem)
        have hclosed := hleast.1.2 event (List.mem_filterMap.mpr ⟨id, hmem, hrow⟩)
        rw [h.keyed hrow] at hclosed
        apply hclosed
        intro parent hp
        rw [← pendingParents_eq hrow] at hp
        obtain hpending | hknown := h.closed id parent hp
        · have hbefore := horder.before (done ++ pre) id (post ++ later)
            (by rw [hsplit, hids]; simp) parent hp hpending
          obtain hdone | hearlier := List.mem_append.mp hbefore
          · exact hold parent (Or.inr hdone)
          · exact hpre parent hearlier
        · exact hold parent (Or.inl hknown)
  intro id
  constructor
  · intro hid
    have hbound : node'.knownSet ⊆ {x | x ∈ core.known ∨ x ∈ done ++ ids} := by
      apply hleast.2
      constructor
      · intro x hx
        exact ((hmid.known x).mp hx).imp_right fun hd => List.mem_append_left _ hd
      · intro event hevent _
        obtain ⟨x, hx, hrow⟩ := Missing.mem_eventsOf hevent
        rw [h.keyed hrow]
        exact Or.inr (List.mem_append_right _ hx)
    exact hbound hid
  · rintro (hid | hid)
    · exact hold id (Or.inl hid)
    · obtain hid | hid := List.mem_append.mp hid
      · exact hold id (Or.inr hid)
      · exact hnew ids [] (List.append_nil ids).symm id hid

theorem ingest_piece (hmid : Imported core community pending done mid) (hne : ids ≠ [])
    (hlength : ids.length ≤ MAX_PENDING_EVENTS) :
    ∃ node', mid.ingest C (eventsOf pending ids) =
        (node', .ok { inserted := ids.length, alreadyPresent := 0, unresolved := [] }) ∧
      Imported core community pending (done ++ ids) node' := by
  have hids := within_pending horder hsplit
  obtain ⟨hnodup, hnot⟩ := piece_nodup horder hsplit
  have hvalid : ∀ event, PendingEvent pending event → event.Valid C := fun event ⟨_, hrow⟩ =>
    h.valid hrow
  have hbelongs : ∀ event, PendingEvent pending event → event.belongsTo community :=
    fun event ⟨_, hrow⟩ => h.belongs hrow
  have hbatch : ∀ event ∈ eventsOf pending ids, PendingEvent pending event := by
    intro event hevent
    obtain ⟨id, _, hrow⟩ := Missing.mem_eventsOf hevent
    exact ⟨id, hrow⟩
  have hinj : Set.InjOn SignedEvent.eventId (mid.met (· ∈ eventsOf pending ids)) := by
    apply hmid.calm.inj.mono
    rintro event (hevent | hrow)
    · exact Or.inl (hbatch event hevent)
    · exact Or.inr hrow
  have hcommunity : mid.ingestCommunity C (eventsOf pending ids) = .ok community := by
    apply ingestCommunity_eq (fun event he => hvalid event (hbatch event he))
      fun event he => hbelongs event (hbatch event he)
    cases hc : mid.community with
    | none => exact Or.inr ⟨rfl, piece_genesis h horder hsplit hmid hc hne⟩
    | some c => exact Or.inl (congrArg some (hmid.calm.own c hc))
  obtain ⟨node', report, hingest, haccount, hgrows⟩ := ingest_account
    (fun event he => hvalid event (hbatch event he)) (fun event he => hbelongs event (hbatch event he))
    hmid.calm.toParentClosed hinj (by rwa [h.length_eventsOf hids]) hcommunity
  have hknown := piece_known h horder hsplit hmid haccount.known
  have hperm := h.distinctIds_perm hids hnodup
  have htaken : ∀ id ∈ distinctIds (eventsOf pending ids),
      id ∈ node'.known ∧ id ∉ mid.store.rows := by
    intro id hid
    have hmem := hperm.mem_iff.mp hid
    exact ⟨(hknown id).mpr (Or.inr (List.mem_append_right _ hmem)),
      hmid.fresh id (hids id hmem) (hnot id hmem)⟩
  have hunresolved : report.unresolved = [] := by
    rw [haccount.unresolved]
    apply List.filter_eq_nil_iff.mpr
    intro id hid
    rw [decide_eq_true_eq, not_not]
    exact (htaken id hid).1
  have hinserted : report.inserted = ids.length := by
    rw [haccount.inserted, ← hperm.length_eq, List.countP_eq_length]
    intro id hid
    exact decide_eq_true (htaken id hid)
  have hpresent : report.alreadyPresent = 0 := by
    have htotal := haccount.total
    rw [hunresolved, hinserted, hperm.length_eq, List.length_nil] at htotal
    omega
  refine ⟨node', ?_, hmid.calm.grows (hgrows.mono hbatch), hknown, fun id hid hdone hrow => ?_⟩
  · rw [hingest, ← hinserted, ← hpresent, ← hunresolved]
  · rw [List.mem_append, not_or] at hdone
    obtain hold | hnew := hgrows.rows_known hrow
    · exact hmid.fresh id hid hdone.1 hold
    · obtain hcore | hmem := (hknown id).mp hnew
      · exact hmid.fresh id hid hdone.1 (by
          obtain ⟨row, hstored, _⟩ := hmid.calm.closed id ((hmid.known id).mpr (Or.inl hcore))
          exact mem_of_getElem? hstored)
      · exact hdone.2 ((List.mem_append.mp hmem).resolve_left hdone.1)

end Import

def CoreNode.Absorbs (C : Crypto) (node : CoreNode) (batch : List SignedEvent) : Prop :=
  batch.length ≤ MAX_PENDING_EVENTS ∧
    (node.ingest C batch).2 =
      .ok { inserted := batch.length, alreadyPresent := 0, unresolved := [] }

theorem ingestBatches_spec (h : Missing C core community pending) {order done : List EventId}
    (horder : ParentsFirst pending order) {pieces : List (List EventId)}
    (hsplit : order = done ++ pieces.flatten)
    (hpieces : ∀ ids ∈ pieces, ids ≠ [] ∧ ids.length ≤ MAX_PENDING_EVENTS)
    (hmid : Imported core community pending done mid) (inserted : ℕ) :
    ingestBatches C mid inserted (pieces.map (eventsOf pending)) =
        (mid.ingestAll C (pieces.map (eventsOf pending)),
          .ok (inserted + pieces.flatten.length)) ∧
      Imported core community pending order (mid.ingestAll C (pieces.map (eventsOf pending))) ∧
      ∀ pre batch post, pieces.map (eventsOf pending) = pre ++ batch :: post →
        (mid.ingestAll C pre).Absorbs C batch := by
  induction pieces generalizing done mid inserted with
  | nil =>
    rw [List.flatten_nil, List.append_nil] at hsplit
    exact ⟨rfl, hsplit ▸ hmid, by simp⟩
  | cons ids pieces ih =>
    obtain ⟨hne, hlength⟩ := hpieces ids List.mem_cons_self
    have hfront : order = done ++ ids ++ pieces.flatten := by
      rw [hsplit, List.flatten_cons, List.append_assoc]
    obtain ⟨node', hingest, hnext⟩ := ingest_piece h horder hfront hmid hne hlength
    obtain ⟨hrest, hfinal, habsorbs⟩ := ih hfront
      (fun x hx => hpieces x (List.mem_cons_of_mem _ hx)) hnext (inserted + ids.length)
    have hall : ∀ batches, mid.ingestAll C (eventsOf pending ids :: batches) =
        node'.ingestAll C batches := by
      intro batches
      rw [CoreNode.ingestAll, CoreNode.ingestAll, List.foldl_cons, hingest]
    rw [List.map_cons, hall]
    refine ⟨?_, hfinal, fun pre batch post hbatches => ?_⟩
    · rw [ingestBatches, hingest]
      simp only [List.isEmpty_nil, Bool.not_true, Bool.false_eq_true, if_false, hrest,
        List.flatten_cons, List.length_append, Nat.add_assoc]
    · cases pre with
      | nil =>
        rw [List.nil_append, List.cons.injEq] at hbatches
        obtain ⟨rfl, _⟩ := hbatches
        have hcount := h.length_eventsOf (within_pending horder hfront)
        refine ⟨hcount ▸ hlength, ?_⟩
        rw [hcount]
        exact congrArg Prod.snd hingest
      | cons first pre =>
        rw [List.cons_append, List.cons.injEq] at hbatches
        obtain ⟨rfl, hbatches⟩ := hbatches
        rw [hall]
        exact habsorbs pre batch post hbatches

theorem archiveBatches_of_order {order : List EventId} (hnodup : order.Nodup)
    (horder : topologicalOrder core (core.archivePending events) = .ok order) :
    core.archiveBatches events = .ok
      ((chunks MAX_PENDING_EVENTS order).map (eventsOf (core.archivePending events))) := by
  have hpieces : (chunks MAX_PENDING_EVENTS order).flatten.Nodup := by
    rwa [chunks_flatten (by decide)]
  have hbatches := takeBatches_eq hpieces fun id _ => Eq.refl (core.archivePending events)[id]?
  simp only [CoreNode.archiveBatches, horder, bind, Except.bind, hbatches, pure, Except.pure]

section Archives

variable (harchive : Archived C community events)
include harchive

theorem archivePending_iff {id : EventId} {event : SignedEvent} :
    (core.archivePending events)[id]? = some event ↔
      event ∈ events ∧ event.eventId = id ∧ id ∉ core.known := by
  have hunknown : ∀ {e}, e ∈ events.filter (fun event => event.eventId ∉ core.known) → e ∈ events :=
    fun he => List.mem_of_mem_filter he
  have hrow : (offeredOf (events.filter fun event => event.eventId ∉ core.known))[id]? = some event ↔
      event ∈ events.filter (fun event => event.eventId ∉ core.known) ∧ event.eventId = id :=
    offeredOf_spec fun a ha b hb hab => harchive.inj (hunknown ha) (hunknown hb) hab
  rw [offeredOf] at hrow
  rw [CoreNode.archivePending, hrow, List.mem_filter, decide_eq_true_eq]
  constructor
  · rintro ⟨⟨hmem, hnot⟩, rfl⟩
    exact ⟨hmem, rfl, hnot⟩
  · rintro ⟨hmem, rfl, hnot⟩
    exact ⟨⟨hmem, hnot⟩, rfl⟩

theorem pendingParents_mem {x parent : EventId}
    (hp : parent ∈ pendingParents (core.archivePending events) x) :
    ∃ event ∈ events, event.eventId = x ∧ parent ∈ event.content.parents := by
  cases hrow : (core.archivePending events)[x]? with
  | none => simp [pendingParents, hrow] at hp
  | some event =>
    rw [pendingParents_eq hrow] at hp
    obtain ⟨hmem, hid, _⟩ := (archivePending_iff harchive).mp hrow
    exact ⟨event, hmem, hid, hp⟩

theorem archive_enclosed : Enclosed core (core.archivePending events) := by
  refine ⟨fun x => ?_, fun x parent hp => ?_⟩
  · cases hrow : (core.archivePending events)[x]? with
    | none => simp [pendingParents, hrow]
    | some event =>
      rw [pendingParents_eq hrow]
      have hvalid := harchive.valid event ((archivePending_iff harchive).mp hrow).1
      exact hvalid.content.parentsSorted.imp fun hlt => ne_of_lt hlt
  · obtain ⟨event, hmem, _, hparent⟩ := pendingParents_mem harchive hp
    obtain ⟨other, hother, hid⟩ := List.mem_map.mp (harchive.closed event hmem parent hparent)
    by_cases hknown : parent ∈ core.known
    · exact Or.inr hknown
    · exact Or.inl (mem_of_getElem? ((archivePending_iff harchive).mpr ⟨hother, hid, hknown⟩))

theorem missing_of_grounded
    (hground : ∀ x, Grounded (pendingParents (core.archivePending events)) x) :
    Missing C core community (core.archivePending events) := by
  obtain ⟨hnodup, hclosed⟩ := @archive_enclosed _ _ core _ harchive
  refine ⟨⟨hnodup, hclosed, hground⟩, ?_, ?_, ?_⟩
  · exact fun hrow => ((archivePending_iff harchive).mp hrow).2.1
  · exact fun hrow => harchive.valid _ ((archivePending_iff harchive).mp hrow).1
  · exact fun hrow => harchive.belongs _ ((archivePending_iff harchive).mp hrow).1

theorem missing (hacyclic : ∀ id, ¬ Relation.TransGen (ParentAmong events) id id) :
    Missing C core community (core.archivePending events) := by
  apply missing_of_grounded harchive
  apply grounded_of_acyclic (S := {x | x ∈ core.archivePending events})
  · apply (core.archivePending events).keys.finite_toSet.subset
    exact fun x hx => Std.ExtTreeMap.mem_keys.mpr hx
  · intro x hx
    rw [pendingParents, not_mem_map.mp hx]
  · intro x hcycle
    exact hacyclic x
      (Relation.TransGen.mono (fun _ _ hp => pendingParents_mem harchive hp) _ _ hcycle)

theorem imported_start (htakes : core.Takes community)
    (hhash : ∀ event ∈ events, ∀ row, core.store.rows[event.eventId]? = some row →
      row.content = event.content) :
    Imported core community (core.archivePending events) [] core := by
  have hclosed : core.ParentClosed := by
    obtain ⟨_, hrows, hknown⟩ | ⟨_, hclosed, _⟩ := htakes
    · refine ⟨fun hrow => ?_, fun id hid => ?_⟩
      · simp [hrows] at hrow
      · rw [hknown] at hid
        exact absurd hid not_mem_empty
    · exact hclosed
  have hfresh : ∀ id ∈ core.archivePending events, id ∉ core.store.rows := by
    intro id hid hstored
    obtain ⟨event, hrow⟩ := mem_iff.mp hid
    obtain ⟨hmem, rfl, hunknown⟩ := (archivePending_iff harchive).mp hrow
    obtain ⟨row, hrow⟩ := mem_iff.mp hstored
    obtain ⟨_, hrows, _⟩ | ⟨_, _, hall⟩ := htakes
    · simp [hrows] at hrow
    · apply hunknown
      apply hall event.eventId row hrow
      have hbelongs := harchive.belongs event hmem
      rw [SignedEvent.belongsTo, hhash event hmem row hrow, hclosed.rowId hrow]
      exact hbelongs
  refine ⟨{ hclosed with inj := ?_, own := ?_, named := ?_ }, by simp, fun id hid _ => hfresh id hid⟩
  · have hkeyed : ∀ {event}, event ∈ core.met (PendingEvent (core.archivePending events)) →
        (core.archivePending events)[event.eventId]? = some event ∨
          core.store.rows[event.eventId]? = some event := by
      rintro event (⟨id, hrow⟩ | ⟨id, hrow⟩)
      · obtain ⟨_, rfl, _⟩ := (archivePending_iff harchive).mp hrow
        exact Or.inl hrow
      · obtain rfl := hclosed.rowId hrow
        exact Or.inr hrow
    intro a ha b hb hab
    obtain ha | ha := hkeyed ha <;> obtain hb | hb := hkeyed hb
    · rw [hab] at ha
      exact Option.some.inj (ha.symm.trans hb)
    · rw [hab] at ha
      exact absurd (mem_of_getElem? hb) (hfresh _ (mem_of_getElem? ha))
    · rw [hab] at ha
      exact absurd (mem_of_getElem? ha) (hfresh _ (mem_of_getElem? hb))
    · rw [hab] at ha
      exact Option.some.inj (ha.symm.trans hb)
  · intro c hc
    obtain ⟨hnone, _⟩ | ⟨hsome, _⟩ := htakes
    · rw [hnone] at hc
      cases hc
    · exact Option.some.inj (hc.symm.trans hsome)
  · intro hnone id hid
    obtain ⟨_, _, hknown⟩ | ⟨hsome, _⟩ := htakes
    · rw [hknown] at hid
      exact not_mem_empty hid
    · rw [hsome] at hnone
      cases hnone

theorem archivePending_size :
    (core.archivePending events).size = events.countP fun event => event.eventId ∉ core.known := by
  have hnodup : ((events.filter fun event => event.eventId ∉ core.known).map
      SignedEvent.eventId).Nodup := harchive.nodup.sublist (List.filter_sublist.map _)
  have hperm : (core.archivePending events).keys.Perm ((events.filter fun event =>
      event.eventId ∉ core.known).map SignedEvent.eventId) := by
    apply (List.perm_ext_iff_of_nodup Std.ExtTreeMap.nodup_keys hnodup).mpr
    intro id
    rw [Std.ExtTreeMap.mem_keys, mem_iff]
    simp only [archivePending_iff harchive, List.mem_map, List.mem_filter, decide_eq_true_eq]
    constructor
    · rintro ⟨event, hmem, rfl, hnot⟩
      exact ⟨event, ⟨hmem, hnot⟩, rfl⟩
    · rintro ⟨event, ⟨hmem, hnot⟩, rfl⟩
      exact ⟨event, hmem, rfl, hnot⟩
  rw [← Std.ExtTreeMap.length_keys, hperm.length_eq, List.length_map, List.countP_eq_length_filter]

variable (hacyclic : ∀ id, ¬ Relation.TransGen (ParentAmong events) id id)
include hacyclic

end Archives

section Example

open Sample

def pairArchive : ValidatedArchive := { community := club, events := [genesis, invitation] }

theorem pairArchive_checked :
    validateWire crypto ⟨ARCHIVE_VERSION, club, [genesis, invitation]⟩ = .ok pairArchive := by
  decide +kernel

theorem pairArchive_acyclic (id : EventId) :
    ¬ Relation.TransGen (ParentAmong pairArchive.events) id id := by
  have hne : genesis.eventId ≠ invitation.eventId := by decide +kernel
  have hstep : ∀ {p x}, ParentAmong pairArchive.events p x →
      p = genesis.eventId ∧ x = invitation.eventId := by
    rintro p x ⟨event, hmem, rfl, hp⟩
    simp only [pairArchive, List.mem_cons, List.not_mem_nil, or_false] at hmem
    obtain rfl | rfl := hmem
    · cases hp
    · exact ⟨List.mem_singleton.mp hp, rfl⟩
  intro hcycle
  obtain ⟨_, hfirst, _⟩ := Relation.TransGen.head'_iff.mp hcycle
  obtain ⟨_, _, hlast⟩ := Relation.TransGen.tail'_iff.mp hcycle
  exact hne ((hstep hfirst).1.symm.trans (hstep hlast).2)

end Example

end ChatCommons
