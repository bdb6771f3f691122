import ChatCommons.Core.AncestrySpec
import ChatCommons.Core.Confluence
import ChatCommons.Sample.ChainPeers

/-!
`ancestry` on a table that need not hold a closed history: what it returns and when it fails.
-/

namespace ChatCommons

open Collections Dag

namespace CoreNode

variable {C : Crypto} {node : CoreNode} {id x : EventId} {limit : ℕ} {events : List SignedEvent}

/-- The rows are valid events under their ids, as `insert` writes them. -/
structure Written (C : Crypto) (node : CoreNode) : Prop where
  rowId : ∀ {id : EventId} {event : SignedEvent},
    node.store.rows[id]? = some event → event.eventId = id
  rowValid : ∀ {id : EventId} {event : SignedEvent},
    node.store.rows[id]? = some event → event.Valid C

def ancestors (node : CoreNode) (id : EventId) : Set EventId := {x | Reaches node.parents x id}

structure Found (node : CoreNode) (id : EventId) (discovered : BTreeSet EventId)
    (events : BTreeMap EventId SignedEvent) : Prop where
  all : ∀ x, x ∈ discovered ↔ x ∈ node.ancestors id
  stored : ∀ x ∈ discovered, x ∈ node.store.rows
  rows : ∀ {x : EventId} {event : SignedEvent}, events[x]? = some event ↔
    x ∈ discovered ∧ node.store.rows[x]? = some event

theorem Searched.found {discovered : BTreeSet EventId} {events : BTreeMap EventId SignedEvent}
    (h : Searched node id [] discovered events) (hstored : ∀ x ∈ discovered, x ∈ node.store.rows) :
    Found node id discovered events := by
  refine ⟨fun x => ⟨h.reached x, fun hx => ?_⟩, hstored, h.rows⟩
  have hroot : id ∈ discovered := h.root.resolve_right (by simp)
  have hclosed : Closed node.parents {y | y ∈ discovered} := fun y hy parent hp =>
    (h.closed y hy parent hp).resolve_right (by simp)
  exact hclosed.reaches hx hroot

theorem encard_of_mem {s : BTreeSet EventId} {S : Set EventId} (h : ∀ x, x ∈ s ↔ x ∈ S) :
    S.encard = s.size := by
  have hsame : S = (s.toList.toFinset : Set EventId) := by
    ext x
    rw [Finset.mem_coe, List.mem_toFinset, Std.ExtTreeSet.mem_toList, h]
  rw [hsame, Set.encard_coe_eq_coe_finsetCard, List.toFinset_card_of_nodup (toList_nodup s),
    Std.ExtTreeSet.length_toList]

theorem size_le_encard {s : BTreeSet EventId} {S : Set EventId} (h : ∀ x ∈ s, x ∈ S) :
    (s.size : ℕ∞) ≤ S.encard := by
  rw [← encard_of_mem (s := s) (S := {x | x ∈ s}) fun _ => Iff.rfl]
  exact Set.encard_le_encard h

theorem ancestryLoop_cases (hwritten : node.Written C) {pending : List EventId}
    {discovered : BTreeSet EventId} {events : BTreeMap EventId SignedEvent}
    (h : Searched node id pending discovered events)
    (hstored : ∀ x ∈ discovered, x ∈ node.store.rows) (hsize : discovered.size ≤ limit) :
    (∃ found loaded, Found node id found loaded ∧ found.size ≤ limit ∧
      node.ancestryLoop C limit pending discovered events = .ok (loaded.toList.map Prod.snd)) ∨
    (∃ error, node.ancestryLoop C limit pending discovered events = .error error) ∧
      ((∃ x ∈ node.ancestors id, x ∉ node.store.rows) ∨
        (limit : ℕ∞) < (node.ancestors id).encard) := by
  induction pending, discovered, events using ancestryLoop.induct C node limit with
  | case1 discovered events =>
    left
    exact ⟨discovered, events, Searched.found h hstored, hsize, by rw [ancestryLoop]⟩
  | case2 discovered events x pending hx ih =>
    rw [ancestryLoop, if_pos hx]
    exact ih (h.skip hx) hstored hsize
  | case3 discovered events x pending hx hlimit =>
    right
    rw [ancestryLoop, if_neg hx, if_pos hlimit]
    refine ⟨⟨_, rfl⟩, Or.inr ?_⟩
    have hmore : ∀ y ∈ discovered.insert x, y ∈ node.ancestors id := by
      intro y hy
      obtain rfl | hy := mem_insert.mp hy
      · exact h.waiting y List.mem_cons_self
      · exact h.reached y hy
    have hcount := size_le_encard hmore
    rw [size_insert_of_not_mem hx] at hcount
    exact lt_of_lt_of_le (by exact_mod_cast hlimit) hcount
  | case4 discovered events x pending hx hlimit error herror =>
    rw [event_eq_row hwritten.rowValid] at herror
    cases herror
  | case5 discovered events x pending hx hlimit hnone =>
    right
    rw [ancestryLoop, if_neg hx, if_neg hlimit, hnone]
    rw [event_eq_row hwritten.rowValid] at hnone
    refine ⟨⟨_, rfl⟩, Or.inl ⟨x, h.waiting x List.mem_cons_self, ?_⟩⟩
    exact not_mem_map.mpr (Except.ok.inj hnone)
  | case6 discovered events x pending hx hlimit event hevent ih =>
    rw [ancestryLoop, if_neg hx, if_neg hlimit, hevent]
    rw [event_eq_row hwritten.rowValid] at hevent
    have hrow : node.store.rows[x]? = some event := Except.ok.inj hevent
    apply ih (h.visit hrow)
    · intro y hy
      obtain rfl | hy := mem_insert.mp hy
      · exact mem_of_getElem? hrow
      · exact hstored y hy
    · rw [size_insert_of_not_mem hx]
      omega

structure Lineage (node : CoreNode) (id : EventId) (events : List SignedEvent) : Prop where
  mem : ∀ event, event ∈ events ↔ event.eventId ∈ node.ancestors id ∧
    node.store.rows[event.eventId]? = some event
  stored : ∀ x ∈ node.ancestors id, x ∈ node.store.rows
  sorted : (events.map SignedEvent.eventId).Pairwise (· < ·)

theorem Found.lineage (hwritten : node.Written C) {discovered : BTreeSet EventId}
    {events : BTreeMap EventId SignedEvent} (h : Found node id discovered events) :
    Lineage node id (events.toList.map Prod.snd) := by
  refine ⟨fun event => ?_, fun x hx => h.stored x ((h.all x).mpr hx), ?_⟩
  · rw [mem_values]
    simp only [h.rows, h.all]
    constructor
    · rintro ⟨x, hx, hrow⟩
      obtain rfl := hwritten.rowId hrow
      exact ⟨hx, hrow⟩
    · rintro ⟨hx, hrow⟩
      exact ⟨_, hx, hrow⟩
  · have hids : (events.toList.map Prod.snd).map SignedEvent.eventId =
        events.toList.map Prod.fst := by
      rw [List.map_map]
      apply List.map_congr_left
      intro row hmem
      exact hwritten.rowId (h.rows.mp (mem_toList.mp hmem)).2
    rw [hids, List.pairwise_map]
    exact map_toList_sorted events

/-- `ancestry` succeeds exactly when all ancestors are stored and within the limit. -/
theorem ancestry_cases (hwritten : node.Written C) (id : EventId) (limit : ℕ) :
    (1 ≤ limit ∧ (∀ x ∈ node.ancestors id, x ∈ node.store.rows) ∧
      (node.ancestors id).encard ≤ limit ∧
      ∃ events, node.ancestry C id limit = .ok events ∧ Lineage node id events) ∨
    (∃ error, node.ancestry C id limit = .error error) ∧
      ¬ (1 ≤ limit ∧ (∀ x ∈ node.ancestors id, x ∈ node.store.rows) ∧
        (node.ancestors id).encard ≤ limit) := by
  by_cases hzero : limit = 0
  · right
    rw [ancestry, if_pos hzero]
    exact ⟨⟨_, rfl⟩, fun h => by omega⟩
  · rw [ancestry, if_neg hzero]
    obtain ⟨discovered, events, hfound, hsize, hloop⟩ | ⟨herror, hwhy⟩ :=
      ancestryLoop_cases hwritten Searched.start (fun _ hx => absurd hx not_mem_empty)
        (Nat.zero_le limit)
    · left
      refine ⟨by omega, fun x hx => hfound.stored x ((hfound.all x).mpr hx), ?_, _, hloop,
        hfound.lineage hwritten⟩
      rw [encard_of_mem hfound.all]
      exact_mod_cast hsize
    · right
      refine ⟨herror, ?_⟩
      rintro ⟨_, hstored, hlimit⟩
      obtain ⟨x, hx, hnot⟩ | hmany := hwhy
      · exact hnot (hstored x hx)
      · exact absurd hlimit (not_le.mpr hmany)

namespace Lineage

variable (h : Lineage node id events)
include h

theorem mem_ids (hwritten : node.Written C) :
    x ∈ events.map SignedEvent.eventId ↔ x ∈ node.ancestors id := by
  rw [List.mem_map]
  constructor
  · rintro ⟨event, hevent, rfl⟩
    exact ((h.mem event).mp hevent).1
  · intro hx
    obtain ⟨event, hrow⟩ := mem_iff.mp (h.stored x hx)
    obtain rfl := hwritten.rowId hrow
    exact ⟨event, (h.mem event).mpr ⟨hx, hrow⟩, rfl⟩

theorem length_eq (hwritten : node.Written C) :
    (events.length : ℕ∞) = (node.ancestors id).encard := by
  have hsame : node.ancestors id = ((events.map SignedEvent.eventId).toFinset : Set EventId) := by
    ext x
    rw [Finset.mem_coe, List.mem_toFinset, h.mem_ids hwritten]
  rw [hsame, Set.encard_coe_eq_coe_finsetCard,
    List.toFinset_card_of_nodup (h.sorted.imp fun hlt => ne_of_lt hlt), List.length_map]

theorem closed (hwritten : node.Written C) : ∀ event ∈ events, ∀ parent ∈ event.content.parents,
    parent ∈ events.map SignedEvent.eventId := by
  intro event hevent parent hp
  obtain ⟨hreach, hrow⟩ := (h.mem event).mp hevent
  rw [← parents_eq hrow] at hp
  exact (h.mem_ids hwritten).mpr (Relation.ReflTransGen.head hp hreach)

theorem inj : Set.InjOn SignedEvent.eventId {event | event ∈ events} := by
  intro a ha b hb hab
  exact List.inj_on_of_nodup_map (h.sorted.imp fun hlt => ne_of_lt hlt) ha hb hab

theorem exists_genesis (hwritten : node.Written C) (hground : Grounded node.parents id) :
    ∃ event ∈ events, event.content.communityId = none := by
  obtain ⟨r, hr, hroot⟩ := hground.exists_root
  obtain ⟨event, hrow⟩ := mem_iff.mp (h.stored r hr)
  obtain rfl := hwritten.rowId hrow
  rw [parents_eq hrow] at hroot
  exact ⟨event, (h.mem event).mpr ⟨hr, hrow⟩, (hwritten.rowValid hrow).content.genesis.mpr hroot⟩

theorem ingest_blank {community : CommunityId} (hwritten : node.Written C)
    (hground : Grounded node.parents id) (hlength : events.length ≤ MAX_PENDING_EVENTS)
    (hbelongs : ∀ event ∈ events, event.belongsTo community) : (blank.ingest C events).2 =
      .ok { inserted := events.length, alreadyPresent := 0, unresolved := [] } := by
  have hvalid : ∀ event ∈ events, event.Valid C := fun event he =>
    hwritten.rowValid ((h.mem event).mp he).2
  have hcommunity : blank.ingestCommunity C events = .ok community := by
    apply ingestCommunity_eq hvalid hbelongs
    exact Or.inr ⟨rfl, h.exists_genesis hwritten hground⟩
  have hinj : Set.InjOn SignedEvent.eventId (blank.met (· ∈ events)) := by
    apply h.inj.mono
    rintro event (hmem | ⟨x, hrow⟩)
    · exact hmem
    · simp [blank] at hrow
  obtain ⟨node', report, hingest, haccount, _⟩ :=
    ingest_account hvalid hbelongs blank_parentClosed hinj hlength hcommunity
  have hknown : ∀ x, Grounded node.parents x → x ∈ node.ancestors id → x ∈ node'.known := by
    intro x hx
    induction hx with
    | intro x _ ih =>
      intro hreach
      obtain ⟨event, hrow⟩ := mem_iff.mp (h.stored x hreach)
      obtain rfl := hwritten.rowId hrow
      apply haccount.known.1.2 event ((h.mem event).mpr ⟨hreach, hrow⟩)
      intro parent hp
      rw [← parents_eq hrow] at hp
      exact ih parent hp (Relation.ReflTransGen.head hp hreach)
  have htaken : ∀ x ∈ distinctIds events, x ∈ node'.known := by
    intro x hx
    obtain ⟨event, hevent, rfl⟩ := mem_distinctIds.mp hx
    have hreach := ((h.mem event).mp hevent).1
    exact hknown _ (hground.reaches hreach) hreach
  have hdistinct : distinctIds events = events.map SignedEvent.eventId := by
    apply (distinctIds_sorted events).eq_of_mem_iff h.sorted
    intro x
    rw [mem_distinctIds, List.mem_map]
  have hunresolved : report.unresolved = [] := by
    rw [haccount.unresolved]
    apply List.filter_eq_nil_iff.mpr
    intro x hx
    rw [decide_eq_true_eq, not_not]
    exact htaken x hx
  have hinserted : report.inserted = events.length := by
    rw [haccount.inserted, ← List.length_map SignedEvent.eventId, ← hdistinct,
      List.countP_eq_length]
    intro x hx
    exact decide_eq_true ⟨htaken x hx, by simp [blank]⟩
  have hpresent : report.alreadyPresent = 0 := by
    have htotal := haccount.total
    rw [hunresolved, hinserted, hdistinct, List.length_map, List.length_nil] at htotal
    omega
  rw [hingest, ← hinserted, ← hpresent, ← hunresolved]

end Lineage

theorem ingest_checked {report : IngestReport} (h : (node.ingest C events).2 = .ok report) :
    events.length ≤ MAX_PENDING_EVENTS ∧
      ∃ community : CommunityId, ∀ event ∈ events, event.belongsTo community := by
  unfold ingest at h
  by_cases hlength : events.length > MAX_PENDING_EVENTS
  · rw [if_pos hlength] at h
    cases h
  · rw [if_neg hlength] at h
    refine ⟨not_lt.mp hlength, ?_⟩
    cases hvalid : events.forM (validateEvent C) with
    | error error =>
      rw [hvalid] at h
      cases h
    | ok u =>
      rw [hvalid] at h
      cases hcommunity : node.ingestCommunity C events with
      | error error =>
        rw [hcommunity] at h
        cases h
      | ok community =>
        rw [hcommunity] at h
        dsimp only at h
        by_cases hwrong : (events.any fun event => !event.belongsTo community) = true
        · rw [if_pos hwrong] at h
          cases h
        · exact ⟨community, by simpa using hwrong⟩

/-- `ancestry` returns the ancestors of an id exactly when all are stored and within the limit.
A new node takes in all of them, if they are of one community and no more than a batch. -/
theorem ancestry_exact (hwritten : node.Written C)
    (hacyclic : ∀ x, ¬ Relation.TransGen (ParentOf node.parents) x x) (id : EventId) (limit : ℕ) :
    ((∃ events, node.ancestry C id limit = .ok events) ↔ 1 ≤ limit ∧
      (∀ x ∈ node.ancestors id, x ∈ node.store.rows) ∧ (node.ancestors id).encard ≤ limit) ∧
    ∀ events, node.ancestry C id limit = .ok events →
      (∀ event, event ∈ events ↔ event.eventId ∈ node.ancestors id ∧
        node.store.rows[event.eventId]? = some event) ∧
      (∀ x, x ∈ events.map SignedEvent.eventId ↔ x ∈ node.ancestors id) ∧
      (events.map SignedEvent.eventId).Pairwise (· < ·) ∧
      (∀ event ∈ events, ∀ parent ∈ event.content.parents,
        parent ∈ events.map SignedEvent.eventId) ∧
      (∀ community : CommunityId, events.length ≤ MAX_PENDING_EVENTS →
        (∀ event ∈ events, event.belongsTo community) → (blank.ingest C events).2 =
          .ok { inserted := events.length, alreadyPresent := 0, unresolved := [] }) ∧
      ∀ report, (blank.ingest C events).2 = .ok report → report.unresolved = [] := by
  have hground : Grounded node.parents id := by
    apply grounded_of_acyclic (S := {x | x ∈ node.store.rows}) _ _ hacyclic
    · apply node.store.rows.keys.finite_toSet.subset
      exact fun x hx => Std.ExtTreeMap.mem_keys.mpr hx
    · intro x hx
      rw [parents, not_mem_map.mp hx]
  obtain ⟨hpositive, hstored, hlimit, events, hancestry, hlineage⟩ | ⟨⟨error, herror⟩, hnot⟩ :=
    ancestry_cases hwritten id limit
  · refine ⟨⟨fun _ => ⟨hpositive, hstored, hlimit⟩, fun _ => ⟨events, hancestry⟩⟩, ?_⟩
    intro result hresult
    obtain rfl := Except.ok.inj (hancestry.symm.trans hresult)
    refine ⟨hlineage.mem, fun x => hlineage.mem_ids hwritten, hlineage.sorted,
      hlineage.closed hwritten, fun community hlength hbelongs => ?_, fun report hreport => ?_⟩
    · exact hlineage.ingest_blank hwritten hground hlength hbelongs
    · obtain ⟨hlength, community, hbelongs⟩ := ingest_checked hreport
      rw [hlineage.ingest_blank hwritten hground hlength hbelongs] at hreport
      rw [← Except.ok.inj hreport]
  · refine ⟨⟨?_, fun h => absurd h hnot⟩, ?_⟩
    · rintro ⟨events, hevents⟩
      rw [herror] at hevents
      cases hevents
    · intro events hevents
      rw [herror] at hevents
      cases hevents

section Example

open Sample

theorem acyclic_of_grounded (h : ∀ x ∈ node.store.rows, Grounded node.parents x) (x : EventId) :
    ¬ Relation.TransGen (ParentOf node.parents) x x := by
  by_cases hx : x ∈ node.store.rows
  · exact (h x hx).not_cyclic
  · intro hcycle
    obtain ⟨p, _, hp⟩ := Relation.TransGen.tail'_iff.mp hcycle
    rw [ParentOf, parents, not_mem_map.mp hx] at hp
    cases hp

theorem link_parents {n k : ℕ} (hn : n ≤ MAX_PAYLOAD_BYTES) (hk : k < n) :
    (chainNode n).parents (linkId k) = (linkContent k).parents := by
  have hrow : (chainNode n).store.rows[linkId k]? = some (link k) :=
    (chainNode_row hn).mpr ⟨k, hk, rfl, rfl⟩
  rw [parents_eq hrow, link_content]

theorem chain_acyclic {n : ℕ} (hn : n ≤ MAX_PAYLOAD_BYTES) (x : EventId) :
    ¬ Relation.TransGen (ParentOf (chainNode n).parents) x x := by
  apply acyclic_of_grounded
  intro y hy
  obtain ⟨event, hrow⟩ := mem_iff.mp hy
  obtain ⟨k, hk, _, rfl⟩ := (chainNode_row hn).mp hrow
  exact (chain_listed hn).sound.grounded _ (chainNode_known.mpr ⟨k, hk, rfl⟩)

theorem chain_ancestors {n : ℕ} (hn : n + 1 ≤ MAX_PAYLOAD_BYTES) :
    (chainNode (n + 1)).ancestors (linkId n) =
      ((Finset.range (n + 1)).image linkId : Finset EventId) := by
  have hparents : ∀ {k}, k < n + 1 → (chainNode (n + 1)).parents (linkId k) =
      (linkContent k).parents := link_parents hn
  ext x
  rw [Finset.mem_coe, Finset.mem_image]
  constructor
  · intro hx
    have hclosed : Closed (chainNode (n + 1)).parents
        {x | ∃ k ∈ Finset.range (n + 1), linkId k = x} := by
      rintro _ ⟨k, hk, rfl⟩ parent hp
      rw [hparents (Finset.mem_range.mp hk)] at hp
      cases k with
      | zero => simp [linkContent] at hp
      | succ k =>
        rw [Finset.mem_range] at hk
        simp only [linkContent, Nat.add_one_ne_zero, if_false, Nat.add_sub_cancel,
          List.mem_singleton] at hp
        exact ⟨k, Finset.mem_range.mpr (by omega), hp.symm⟩
    exact hclosed.reaches hx ⟨n, Finset.mem_range.mpr (by omega), rfl⟩
  · rintro ⟨k, hk, rfl⟩
    rw [Finset.mem_range] at hk
    have hreach : ∀ d, k + d < n + 1 →
        Reaches (chainNode (n + 1)).parents (linkId k) (linkId (k + d)) := by
      intro d
      induction d with
      | zero => exact fun _ => .refl
      | succ d ih =>
        intro hd
        apply (ih (by omega)).tail
        rw [ParentOf, hparents hd]
        simp [linkContent, ← Nat.add_assoc]
    have hlast := hreach (n - k) (by omega)
    rwa [show k + (n - k) = n by omega] at hlast

theorem chain_ancestry {n : ℕ} (hn : n + 1 ≤ MAX_PAYLOAD_BYTES) :
    ∃ events, (chainNode (n + 1)).ancestry crypto (linkId n) (n + 1) =
      .ok events ∧ events.length = n + 1 := by
  have hsound : (chainNode (n + 1)).Sound crypto := (chain_listed hn).sound
  have hwritten : (chainNode (n + 1)).Written crypto :=
    ⟨hsound.rowId, hsound.rowValid⟩
  have hcount : ((chainNode (n + 1)).ancestors (linkId n)).encard =
      (n + 1 : ℕ) := by
    rw [chain_ancestors hn, Set.encard_coe_eq_coe_finsetCard, Finset.card_image_of_injOn,
      Finset.card_range]
    intro a ha b hb hab
    rw [Finset.mem_coe, Finset.mem_range] at ha hb
    have hsmall : MAX_PAYLOAD_BYTES < 2 ^ 255 := by decide
    exact linkId_injective (by omega) (by omega) hab
  have hstored : ∀ x ∈ (chainNode (n + 1)).ancestors (linkId n),
      x ∈ (chainNode (n + 1)).store.rows := by
    intro x hx
    rw [chain_ancestors hn, Finset.mem_coe, Finset.mem_image] at hx
    obtain ⟨k, hk, rfl⟩ := hx
    exact mem_of_getElem? ((chainNode_row hn).mpr ⟨k, Finset.mem_range.mp hk, rfl, rfl⟩)
  obtain ⟨_, _, _, events, hevents, hlineage⟩ | ⟨_, hnot⟩ :=
    ancestry_cases hwritten (linkId n) (n + 1)
  · refine ⟨events, hevents, ?_⟩
    have hlength := hlineage.length_eq hwritten
    rw [hcount] at hlength
    exact_mod_cast hlength
  · exact absurd ⟨by omega, hstored, hcount.le⟩ hnot

def rival : SignedEvent := createChatGenesis crypto (identity 1) "rival club" 0

/-- An event with parents in two communities. -/
def graft : SignedEvent := tell 1 [genesis, rival] (.administratorGrant (user 2))

def mixed : CoreNode where
  store := ⟨offeredOf [genesis, rival, graft]⟩
  community := some club
  known := setOf [genesis.eventId, rival.eventId, graft.eventId]

theorem mixed_checked : ([genesis, rival, graft].forM (validateEvent crypto) = .ok () ∧
    ([genesis, rival, graft].map SignedEvent.eventId).Nodup) ∧
    genesis.content.parents = [] ∧ rival.content.parents = [] ∧
    graft.content.parents = [genesis.eventId, rival.eventId] ∧
    genesis.content.communityId = none ∧ rival.content.communityId = none := by
  decide +kernel

theorem mixed_row {x : EventId} {event : SignedEvent} : mixed.store.rows[x]? = some event ↔
    event ∈ [genesis, rival, graft] ∧ event.eventId = x :=
  offeredOf_spec fun _ ha _ hb hab => List.inj_on_of_nodup_map mixed_checked.1.2 ha hb hab

theorem mixed_written : mixed.Written crypto where
  rowId hrow := (mixed_row.mp hrow).2
  rowValid hrow := forM_validateEvent.mp mixed_checked.1.1 _ (mixed_row.mp hrow).1

theorem mixed_parents {event : SignedEvent} (h : event ∈ [genesis, rival, graft]) :
    mixed.parents event.eventId = event.content.parents :=
  parents_eq (mixed_row.mpr ⟨h, rfl⟩)

theorem mixed_grounded : ∀ x ∈ mixed.store.rows, Grounded mixed.parents x := by
  obtain ⟨_, hgenesis, hrival, hgraft, _⟩ := mixed_checked
  have hroot : ∀ {event}, event ∈ [genesis, rival, graft] → event.content.parents = [] →
      Grounded mixed.parents event.eventId := by
    intro event hmem hnone
    apply grounded_of_parents
    rw [mixed_parents hmem, hnone]
    simp
  intro x hx
  obtain ⟨event, hrow⟩ := mem_iff.mp hx
  obtain ⟨hmem, rfl⟩ := mixed_row.mp hrow
  simp only [List.mem_cons, List.not_mem_nil, or_false] at hmem
  obtain rfl | rfl | rfl := hmem
  · exact hroot (by simp) hgenesis
  · exact hroot (by simp) hrival
  · apply grounded_of_parents
    intro parent hp
    rw [mixed_parents (by simp), hgraft] at hp
    simp only [List.mem_cons, List.not_mem_nil, or_false] at hp
    obtain rfl | rfl := hp
    · exact hroot (by simp) hgenesis
    · exact hroot (by simp) hrival

theorem mixed_ancestors : (∀ x ∈ mixed.ancestors graft.eventId, x ∈ mixed.store.rows) ∧
    genesis.eventId ∈ mixed.ancestors graft.eventId ∧
    rival.eventId ∈ mixed.ancestors graft.eventId := by
  obtain ⟨_, hgenesis, hrival, hgraft, _⟩ := mixed_checked
  have hrows : ∀ {event}, event ∈ [genesis, rival, graft] → event.eventId ∈ mixed.store.rows :=
    fun hmem => mem_of_getElem? (mixed_row.mpr ⟨hmem, rfl⟩)
  have hclosed : Closed mixed.parents {x | x ∈ mixed.store.rows} := by
    intro x hx parent hp
    obtain ⟨event, hrow⟩ := mem_iff.mp hx
    obtain ⟨hmem, rfl⟩ := mixed_row.mp hrow
    rw [mixed_parents hmem] at hp
    simp only [List.mem_cons, List.not_mem_nil, or_false] at hmem
    obtain rfl | rfl | rfl := hmem
    · simp [hgenesis] at hp
    · simp [hrival] at hp
    · rw [hgraft] at hp
      simp only [List.mem_cons, List.not_mem_nil, or_false] at hp
      obtain rfl | rfl := hp
      · exact hrows (by simp)
      · exact hrows (by simp)
  have hstep : ∀ {p}, p ∈ graft.content.parents → p ∈ mixed.ancestors graft.eventId := by
    intro p hp
    apply Relation.ReflTransGen.single
    rwa [ParentOf, mixed_parents (by simp)]
  refine ⟨fun x hx => hclosed.reaches hx (hrows (by simp)), hstep ?_, hstep ?_⟩
  · simp [hgraft]
  · simp [hgraft]

theorem mixed_ancestry : ∃ events, mixed.ancestry crypto graft.eventId 3 = .ok events ∧
    genesis ∈ events ∧ rival ∈ events := by
  obtain ⟨hstored, hgenesis, hrival⟩ := mixed_ancestors
  have hcount : (mixed.ancestors graft.eventId).encard ≤ 3 := by
    have hsub : mixed.ancestors graft.eventId ⊆
        (([genesis, rival, graft].map SignedEvent.eventId).toFinset : Set EventId) := by
      intro x hx
      obtain ⟨event, hrow⟩ := mem_iff.mp (hstored x hx)
      obtain ⟨hmem, rfl⟩ := mixed_row.mp hrow
      exact List.mem_toFinset.mpr (List.mem_map_of_mem hmem)
    apply (Set.encard_le_encard hsub).trans
    rw [Set.encard_coe_eq_coe_finsetCard, List.toFinset_card_of_nodup mixed_checked.1.2]
    rfl
  obtain ⟨_, _, _, events, hevents, hlineage⟩ | ⟨_, hnot⟩ :=
    ancestry_cases mixed_written graft.eventId 3
  · refine ⟨events, hevents, ?_, ?_⟩
    · exact (hlineage.mem genesis).mpr ⟨hgenesis, mixed_row.mpr ⟨by simp, rfl⟩⟩
    · exact (hlineage.mem rival).mpr ⟨hrival, mixed_row.mpr ⟨by simp, rfl⟩⟩
  · exact absurd ⟨by omega, hstored, hcount⟩ hnot

/-- What a new node does not take in: more events than a batch, or events of two communities. -/
theorem ancestry_refused :
    ((∀ x, ¬ Relation.TransGen (ParentOf (chainNode 1025).parents) x x) ∧
      ∃ events, (chainNode 1025).ancestry crypto (linkId 1024) 1025 = .ok events ∧
        (blank.ingest crypto events).2 = .error .pendingLimitExceeded) ∧
    (∀ x, ¬ Relation.TransGen (ParentOf mixed.parents) x x) ∧
      ∃ events, mixed.ancestry crypto graft.eventId 3 = .ok events ∧
        ∀ report, (blank.ingest crypto events).2 ≠ .ok report := by
  have hpayload : 1024 + 1 ≤ MAX_PAYLOAD_BYTES := by decide
  obtain ⟨events, hevents, hlength⟩ := chain_ancestry hpayload
  obtain ⟨others, hothers, hgenesis, hrival⟩ := mixed_ancestry
  refine ⟨⟨chain_acyclic hpayload, events, hevents, ?_⟩, acyclic_of_grounded mixed_grounded,
    others, hothers, fun report hreport => ?_⟩
  · have hmany : events.length > MAX_PENDING_EVENTS := by rw [hlength]; decide
    rw [ingest, if_pos hmany]
  · obtain ⟨_, community, hbelongs⟩ := ingest_checked hreport
    obtain ⟨⟨_, hnodup⟩, _, _, _, hgenesisNone, hrivalNone⟩ := mixed_checked
    have hone := hbelongs genesis hgenesis
    have htwo := hbelongs rival hrival
    simp only [SignedEvent.belongsTo, hgenesisNone, hrivalNone, decide_eq_true_eq] at hone htwo
    have hsame := EventId.toCommunity_injective (hone.trans htwo.symm)
    simp [hsame] at hnodup

theorem ancestry_exact_chain : ∃ events,
    (chainNode 3).ancestry crypto (linkId 2) 3 = .ok events ∧
      (events.map SignedEvent.eventId).Pairwise (· < ·) ∧
      ∀ report, (blank.ingest crypto events).2 = .ok report → report.unresolved = [] := by
  have hpayload : 2 + 1 ≤ MAX_PAYLOAD_BYTES := by decide
  have hsound : (chainNode 3).Sound crypto := (chain_listed hpayload).sound
  obtain ⟨events, hevents, _⟩ := chain_ancestry hpayload
  obtain ⟨_, _, hsorted, _, _, hreport⟩ := (ancestry_exact ⟨hsound.rowId, hsound.rowValid⟩
    (chain_acyclic hpayload) (linkId 2) 3).2 events hevents
  exact ⟨events, hevents, hsorted, hreport⟩

end Example

end CoreNode

end ChatCommons
