import ChatCommons.Core.Growth
import ChatCommons.Sample.Club

/-!
A database that starts empty, takes in whatever batches it is given, fails at some of its
writes and is reopened from time to time.
-/

namespace ChatCommons

open Collections Dag

variable {C : Crypto} {offered : SignedEvent → Prop} {community : CommunityId}
  {node node' : CoreNode} {event : SignedEvent}

namespace CoreNode

inductive Lives (C : Crypto) : CoreNode → Prop
  | start {node : CoreNode} (h : CoreNode.open C {} none = .ok node) : Lives C node
  | ingest {node : CoreNode} (h : Lives C node) (fault : EventId → Bool)
      (events : List SignedEvent) : Lives C (node.ingestUnless C fault events).1
  | reopen {node node' : CoreNode} {community : CommunityId} (h : Lives C node)
      (hopen : CoreNode.open C node.store (some community) = .ok node') : Lives C node'

/-- Nothing is stored but the known history, and the community is named from its genesis on. -/
structure Whole (C : Crypto) (node : CoreNode) : Prop extends node.Sound C where
  rowKnown : ∀ {id : EventId}, id ∈ node.store.rows → id ∈ node.known
  begun : ∀ {community : CommunityId}, node.community = some community →
    ∃ id ∈ node.known, id.toCommunity = community

theorem Whole.empty : Whole C { store := {}, community := none, known := ∅ } where
  rowId h := by simp at h
  rowValid h := by simp at h
  stored h := absurd h not_mem_empty
  member h := absurd h not_mem_empty
  closed _ h := absurd h not_mem_empty
  grounded _ h := absurd h not_mem_empty
  rowKnown h := by simp at h
  begun h := by cases h

theorem belongsTo_genesis (hnone : event.content.communityId = none) :
    event.belongsTo community = true ↔ event.eventId.toCommunity = community := by
  simp [SignedEvent.belongsTo, hnone]

theorem belongsTo_unique {other : CommunityId} (h : event.belongsTo community = true)
    (h' : event.belongsTo other = true) : community = other := by
  cases hc : event.content.communityId with
  | none =>
    rw [belongsTo_genesis hc] at h h'
    exact h.symm.trans h'
  | some c =>
    simp only [SignedEvent.belongsTo, hc, decide_eq_true_eq] at h h'
    exact h.symm.trans h'

namespace Whole

variable (h : node.Whole C)
include h

theorem known_iff {id : EventId} : id ∈ node.known ↔ id ∈ node.store.rows :=
  ⟨fun hid => mem_iff.mpr (h.stored hid), h.rowKnown⟩

theorem first_genesis (hnone : node.community = none) (hvalid : event.Valid C)
    (hparents : ∀ parent ∈ event.content.parents, parent ∈ node.known) :
    event.content.communityId = none := by
  apply hvalid.content.genesis.mpr
  apply List.eq_nil_iff_forall_not_mem.mpr
  intro parent hp
  exact h.known_empty_of_community hnone parent (hparents parent hp)

theorem take_new (hnode : ∀ c, node.community = some c → c = community)
    (hfit : Fit C offered community event)
    (hparents : ∀ parent ∈ event.content.parents, parent ∈ node.known)
    (hnew : event.eventId ∉ node.known) : (node.take community event).Whole C := by
  have hnot : event.eventId ∉ node.store.rows := fun hrow => hnew (h.rowKnown hrow)
  have hrows : ∀ id, (node.store.rows.insertIfNew event.eventId event)[id]? =
      if event.eventId = id then some event else node.store.rows[id]? := by
    intro id
    rw [getElem?_insertIfNew]
    simp only [hnot, not_false_eq_true, and_true]
  have hcommunity : (node.take community event).community = some community := by
    rw [take]
    split_ifs with hgenesis
    · rfl
    · cases hc : node.community with
      | some c => rw [hnode c hc]
      | none =>
        rw [h.first_genesis hc hfit.valid hparents] at hgenesis
        exact absurd rfl hgenesis
  have hsound := h.extend hfit.valid hparents hrows
    (fun other hrow => absurd (mem_of_getElem? hrow) hnot) hfit.belongs hnode
  have hsame : node.take community event = ⟨⟨node.store.rows.insertIfNew event.eventId event⟩,
      some community, node.known.insert event.eventId⟩ := by
    rw [← hcommunity]
    rfl
  rw [hsame]
  refine { hsound with rowKnown := fun {id} hrow => ?_, begun := ?_ }
  · obtain ⟨other, hother⟩ := mem_iff.mp hrow
    rw [hrows] at hother
    rw [mem_insert]
    split_ifs at hother with heq
    · exact Or.inl heq.symm
    · exact Or.inr (h.rowKnown (mem_of_getElem? hother))
  · rintro _ ⟨⟩
    cases hc : node.community with
    | some c =>
      obtain ⟨id, hid, hgenesis⟩ := h.begun hc
      exact ⟨id, mem_insert.mpr (Or.inr hid), hgenesis.trans (hnode c hc)⟩
    | none =>
      have hgenesis := h.first_genesis hc hfit.valid hparents
      exact ⟨event.eventId, mem_insert.mpr (Or.inl rfl),
        (belongsTo_genesis hgenesis).mp hfit.belongs⟩

theorem take_known (hnode : ∀ c, node.community = some c → c = community)
    (hknown : event.eventId ∈ node.known) : node.take community event = node := by
  have hrows : node.store.rows.insertIfNew event.eventId event = node.store.rows := by
    apply map_ext
    intro id
    rw [getElem?_insertIfNew, if_neg fun hnew => hnew.2 (h.known_iff.mp hknown)]
  have hids : node.known.insert event.eventId = node.known := by
    apply set_ext
    intro id
    rw [mem_insert, or_iff_right_of_imp]
    rintro rfl
    exact hknown
  obtain ⟨stored, hstored⟩ := h.stored hknown
  obtain ⟨c, hc, _⟩ := h.member hknown hstored
  have hcommunity : node.community = some community := by rw [hc, hnode c hc]
  unfold take
  rw [hrows, hids, ← hcommunity, ite_self]

/-- The rows are all of the history, so reading them again gives the same node. -/
theorem events_spec (hcommunity : node.community = some community) :
    ∃ events, node.store.events C community = .ok events ∧
      events.map SignedEvent.eventId = node.known.toList := by
  have hrow : ∀ {event}, event ∈ node.store.rows.toList.map Prod.snd →
      node.store.rows[event.eventId]? = some event := by
    intro event hevent
    obtain ⟨id, hid⟩ := mem_values.mp hevent
    rwa [h.rowId hid]
  have hall : (node.store.rows.toList.map Prod.snd).filter (fun event => event.belongsTo community) =
      node.store.rows.toList.map Prod.snd := by
    apply List.filter_eq_self.mpr
    intro event hevent
    obtain ⟨c, hc, hbelongs⟩ := h.member (h.rowKnown (mem_of_getElem? (hrow hevent))) (hrow hevent)
    rwa [Option.some.inj (hcommunity.symm.trans hc)]
  have hdecode : (node.store.rows.toList.map Prod.snd).mapM (decodeStored C) =
      .ok (node.store.rows.toList.map Prod.snd) := by
    apply Fallible.mapM_eq_ok.mpr
    apply List.forall₂_same.mpr
    intro event hevent
    rw [decodeStored, validateEvent_iff.mpr (h.rowValid (hrow hevent))]
  refine ⟨_, by rw [EventStore.events, hall, hdecode], ?_⟩
  have hkeys : (node.store.rows.toList.map Prod.snd).map SignedEvent.eventId =
      node.store.rows.toList.map Prod.fst := by
    rw [List.map_map]
    apply List.map_congr_left
    intro row hmem
    exact h.rowId (mem_toList.mp hmem)
  rw [hkeys]
  have hsorted : (node.store.rows.toList.map Prod.fst).Pairwise (· < ·) :=
    List.pairwise_map.mpr (map_toList_sorted node.store.rows)
  apply hsorted.eq_of_mem_iff (toList_sorted node.known)
  intro id
  rw [Std.ExtTreeSet.mem_toList, h.known_iff, mem_iff]
  simp only [List.mem_map, Prod.exists, mem_toList, exists_and_right, exists_eq_right]

theorem open_eq (hcommunity : node.community = some community) :
    CoreNode.open C node.store (some community) = .ok node := by
  obtain ⟨events, hevents, hids⟩ := h.events_spec hcommunity
  obtain ⟨id, hid, _⟩ := h.begun hcommunity
  have hsome : events.isEmpty = false := by
    rw [← Std.ExtTreeSet.mem_toList, ← hids] at hid
    cases events with
    | nil => simp at hid
    | cons event events => rfl
  have hknown : setOf (node.known.toList) = node.known := by
    apply set_ext
    intro id
    rw [mem_setOf, Std.ExtTreeSet.mem_toList]
  simp only [CoreNode.open, hevents, hsome, hids, hknown, ← hcommunity]
  rfl

end Whole

theorem Whole.take (h : node.Whole C) (hnode : ∀ c, node.community = some c → c = community)
    (hfit : Fit C offered community event)
    (hparents : ∀ parent ∈ event.content.parents, parent ∈ node.known) :
    (node.take community event).Whole C := by
  by_cases hknown : event.eventId ∈ node.known
  · rwa [h.take_known hnode hknown]
  · exact h.take_new hnode hfit hparents hknown

theorem Whole.grows (h : node.Whole C) (hnode : ∀ c, node.community = some c → c = community)
    (hgrows : Grows C offered community node node') :
    node'.Whole C ∧ ∀ c, node'.community = some c → c = community := by
  induction hgrows with
  | refl => exact ⟨h, hnode⟩
  | @take mid event _ hfit hparents ih =>
    obtain ⟨hmid, hmidCommunity⟩ := ih
    refine ⟨hmid.take hmidCommunity hfit hparents, fun c hc => ?_⟩
    rw [CoreNode.take] at hc
    split_ifs at hc
    · exact (Option.some.inj hc).symm
    · exact hmidCommunity c hc

theorem ingestCommunity_same {events : List SignedEvent}
    (h : node.ingestCommunity C events = .ok community) :
    ∀ c, node.community = some c → c = community := by
  intro c hc
  rw [ingestCommunity, hc] at h
  exact Except.ok.inj h

theorem Whole.opens (h : node.Whole C)
    (hopen : CoreNode.open C node.store (some community) = .ok node') : node' = node := by
  cases hcommunity : node.community with
  | none =>
    have hempty : (node.store.rows.toList.map Prod.snd).filter
        (fun event => event.belongsTo community) = [] := by
      apply List.filter_eq_nil_iff.mpr
      intro event hevent
      obtain ⟨id, hid⟩ := mem_values.mp hevent
      exact absurd (h.rowKnown (mem_of_getElem? hid)) (h.known_empty_of_community hcommunity id)
    simp [CoreNode.open, EventStore.events, hempty, pure, Except.pure] at hopen
  | some c =>
    by_cases hsame : c = community
    · rw [h.open_eq (hcommunity.trans (congrArg some hsame))] at hopen
      exact (Except.ok.inj hopen).symm
    · have hempty : (node.store.rows.toList.map Prod.snd).filter
          (fun event => event.belongsTo community) = [] := by
        apply List.filter_eq_nil_iff.mpr
        intro event hevent hbelongs
        obtain ⟨id, hid⟩ := mem_values.mp hevent
        obtain ⟨c', hc', hother⟩ := h.member (h.rowKnown (mem_of_getElem? hid)) hid
        rw [hcommunity, Option.some.injEq] at hc'
        exact hsame (hc'.trans (belongsTo_unique hother hbelongs))
      simp [CoreNode.open, EventStore.events, hempty, pure, Except.pure] at hopen

theorem Lives.whole (h : Lives C node) : node.Whole C := by
  induction h with
  | start h =>
    rw [← Except.ok.inj h]
    exact .empty
  | @ingest node _ fault events ih =>
    obtain hsame | ⟨community, hcommunity, hgrows⟩ :=
      ingestUnless_grows C fault node events
    · rwa [hsame]
    · exact (ih.grows (ingestCommunity_same hcommunity) hgrows).1
  | reopen _ hopen ih => rwa [ih.opens hopen]

def Has (node : CoreNode) (event : SignedEvent) : Prop :=
  event.eventId ∈ node.known ∧ node.store.rows[event.eventId]? = some event

theorem Whole.has_of_known (h : node.Whole C) {id : EventId} (hid : id ∈ node.known) :
    ∃ event, event.eventId = id ∧ node.Has event := by
  obtain ⟨event, hrow⟩ := h.stored hid
  obtain rfl := h.rowId hrow
  exact ⟨event, rfl, hid, hrow⟩

theorem Whole.belongs (h : node.Whole C) (hcommunity : node.community = some community)
    (hevent : node.Has event) : event.belongsTo community = true := by
  obtain ⟨c, hc, hbelongs⟩ := h.member hevent.1 hevent.2
  rwa [Option.some.inj (hcommunity.symm.trans hc)]

theorem Whole.exists_genesis (h : node.Whole C) {id : EventId} (hid : id ∈ node.known) :
    ∃ genesis, node.Has genesis ∧ genesis.content.communityId = none ∧
      Reaches node.parents genesis.eventId id := by
  obtain ⟨r, hreach, hroot⟩ := (h.grounded id hid).exists_root
  obtain ⟨genesis, rfl, hgenesis⟩ := h.has_of_known (h.closed.reaches hreach hid)
  rw [parents_eq hgenesis.2] at hroot
  exact ⟨genesis, hgenesis, (h.rowValid hgenesis.2).content.genesis.mpr hroot, hreach⟩

/-- Whatever a database was given and wherever it failed, the known history is closed, has one
genesis that names its community, and is what the table holds of it. -/
theorem store_invariant (h : Lives C node) :
    (∀ id ∈ node.known, ∃ event, event.eventId = id ∧ node.Has event ∧
      ∀ parent ∈ event.content.parents, parent ∈ node.known) ∧
    (node.community = none ↔ ∀ id, id ∉ node.known) ∧
    ∀ community, node.community = some community →
      (∃! genesis, node.Has genesis ∧ genesis.content.communityId = none) ∧
      (∀ genesis, node.Has genesis → genesis.content.communityId = none →
        genesis.eventId.toCommunity = community ∧
        ∀ event, node.Has event → event ≠ genesis → event.content.communityId = some community ∧
          Reaches node.parents genesis.eventId event.eventId) ∧
      (∃ events, node.store.events C community = .ok events ∧
        events.map SignedEvent.eventId = node.known.toList) ∧
      CoreNode.open C node.store (some community) = .ok node := by
  have hwhole := h.whole
  refine ⟨?_, ?_, ?_⟩
  · intro id hid
    obtain ⟨event, rfl, hevent⟩ := hwhole.has_of_known hid
    refine ⟨event, rfl, hevent, fun parent hp => ?_⟩
    rw [← parents_eq hevent.2] at hp
    exact hwhole.closed event.eventId hid parent hp
  · constructor
    · exact hwhole.known_empty_of_community
    · intro hempty
      cases hcommunity : node.community with
      | none => rfl
      | some community =>
        obtain ⟨id, hid, _⟩ := hwhole.begun hcommunity
        exact absurd hid (hempty id)
  · intro community hcommunity
    have hnames : ∀ {genesis}, node.Has genesis → genesis.content.communityId = none →
        genesis.eventId.toCommunity = community := fun hgenesis hnone =>
      (belongsTo_genesis hnone).mp (hwhole.belongs hcommunity hgenesis)
    have hunique : ∀ {genesis other}, node.Has genesis → genesis.content.communityId = none →
        node.Has other → other.content.communityId = none → other = genesis := by
      intro genesis other hgenesis hnone hother hnone'
      have hids : other.eventId = genesis.eventId := by
        apply EventId.toCommunity_injective
        rw [hnames hgenesis hnone, hnames hother hnone']
      have hrow := hother.2
      rw [hids, hgenesis.2] at hrow
      exact (Option.some.inj hrow).symm
    refine ⟨?_, ?_, hwhole.events_spec hcommunity, hwhole.open_eq hcommunity⟩
    · obtain ⟨id, hid, _⟩ := hwhole.begun hcommunity
      obtain ⟨genesis, hgenesis, hnone, _⟩ := hwhole.exists_genesis hid
      exact ⟨genesis, ⟨hgenesis, hnone⟩, fun other hother =>
        hunique hgenesis hnone hother.1 hother.2⟩
    · intro genesis hgenesis hnone
      refine ⟨hnames hgenesis hnone, fun event hevent hne => ?_⟩
      obtain ⟨other, hother, hnone', hreach⟩ := hwhole.exists_genesis hevent.1
      rw [hunique hgenesis hnone hother hnone'] at hreach
      refine ⟨?_, hreach⟩
      have hbelongs := hwhole.belongs hcommunity hevent
      cases hc : event.content.communityId with
      | none => exact absurd (hunique hgenesis hnone hevent hc) hne
      | some c =>
        simp only [SignedEvent.belongsTo, hc, decide_eq_true_eq] at hbelongs
        rw [hbelongs]

section Example

open Sample

def cutShort : CoreNode :=
  (CoreNode.ingestUnless crypto (fun id => id = invitation.eventId)
    { store := {}, community := none, known := ∅ } [invitation, genesis]).1

theorem cutShort_lives : Lives crypto cutShort := .ingest (.start rfl) _ _

theorem cutShort_named : cutShort.community = some club := by decide +kernel

theorem store_invariant_cutShort :
    CoreNode.open crypto cutShort.store (some club) = .ok cutShort :=
  ((store_invariant cutShort_lives).2.2 club cutShort_named).2.2.2

end Example

end CoreNode

end ChatCommons
