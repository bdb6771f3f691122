import ChatCommons.Core.NodeHistory

namespace ChatCommons

open Collections Dag

variable {C : Crypto}

theorem EventStore.insert_spec {store : EventStore} {event : SignedEvent} (hvalid : event.Valid C)
    (hfresh : ∀ other, store.rows[event.eventId]? = some other → other = event) :
    ∃ store' outcome, store.insert C event = .ok (store', outcome) ∧
      ∀ id, store'.rows[id]? = if event.eventId = id then some event else store.rows[id]? := by
  simp only [insert, validateEvent_iff.mpr hvalid]
  split_ifs with hmem
  · refine ⟨_, _, rfl, fun id => ?_⟩
    split_ifs with hid
    · obtain ⟨other, hother⟩ := mem_iff.mp hmem
      rw [← hid, hother, hfresh other hother]
    · rfl
  · exact ⟨_, _, rfl, fun id => getElem?_insert⟩

theorem CoreNode.Sound.extend {node : CoreNode} (h : node.Sound C) {event : SignedEvent}
    {store : EventStore} {community : CommunityId} (hvalid : event.Valid C)
    (hparents : ∀ parent ∈ event.content.parents, parent ∈ node.known)
    (hrows : ∀ id, store.rows[id]? =
      if event.eventId = id then some event else node.store.rows[id]?)
    (hfresh : ∀ other, node.store.rows[event.eventId]? = some other → other = event)
    (hbelongs : event.belongsTo community)
    (hcommunity : ∀ c, node.community = some c → c = community) :
    (⟨store, some community, node.known.insert event.eventId⟩ : CoreNode).Sound C := by
  obtain ⟨next, hnext⟩ : ∃ next : CoreNode,
      next = ⟨store, some community, node.known.insert event.eventId⟩ := ⟨_, rfl⟩
  have hown : next.parents event.eventId = event.content.parents := by
    simp [parents, hnext, hrows]
  have hold : ∀ id ∈ node.knownSet, next.parents id = node.parents id := by
    intro id hid
    by_cases heq : event.eventId = id
    · obtain ⟨other, hother⟩ := h.stored hid
      subst heq
      rw [hown, parents_eq hother, hfresh other hother]
    · simp [parents, hnext, hrows, heq]
  have hgrounded : ∀ id ∈ node.knownSet, Grounded next.parents id := fun id hid =>
    (h.grounded id hid).congr h.closed hold hid
  rw [← hnext]
  constructor
  · intro id other hrow
    rw [hnext, hrows] at hrow
    split_ifs at hrow with hid
    · cases hrow; exact hid
    · exact h.rowId hrow
  · intro id other hrow
    rw [hnext, hrows] at hrow
    split_ifs at hrow with hid
    · cases hrow; exact hvalid
    · exact h.rowValid hrow
  · intro id hid
    rw [hnext, mem_insert] at hid
    rw [hnext, hrows]
    split_ifs with heq
    · exact ⟨event, rfl⟩
    · exact h.stored (hid.resolve_left fun h => heq h.symm)
  · intro id other hid hrow
    rw [hnext] at hid hrow ⊢
    rw [mem_insert] at hid
    rw [hrows] at hrow
    split_ifs at hrow with heq
    · cases hrow; exact ⟨community, rfl, hbelongs⟩
    · obtain ⟨c, hc, hb⟩ := h.member (hid.resolve_left fun h => heq h.symm) hrow
      exact ⟨c, by rw [hcommunity c hc], hb⟩
  · intro id hid parent hp
    rw [knownSet, hnext, Set.mem_ofPred_eq, mem_insert] at hid ⊢
    rcases hid with rfl | hid
    · rw [hown] at hp
      exact Or.inr (hparents parent hp)
    · rw [hold id hid] at hp
      exact Or.inr (h.closed id hid parent hp)
  · intro id hid
    rw [knownSet, hnext, Set.mem_ofPred_eq, mem_insert] at hid
    rcases hid with rfl | hid
    · refine grounded_of_parents fun parent hp => ?_
      rw [hown] at hp
      exact hgrounded parent (hparents parent hp)
    · exact hgrounded id hid

structure Offered (C : Crypto) (store : EventStore) (community : CommunityId)
    (offered : BTreeMap EventId SignedEvent) : Prop where
  id : ∀ {id : EventId} {event : SignedEvent}, offered[id]? = some event → event.eventId = id
  valid : ∀ {id : EventId} {event : SignedEvent}, offered[id]? = some event → event.Valid C
  belongs : ∀ {id : EventId} {event : SignedEvent}, offered[id]? = some event →
    event.belongsTo community
  fresh : ∀ {id : EventId} {event other : SignedEvent}, offered[id]? = some event →
    store.rows[id]? = some other → other = event

/-- What becomes of a node that takes in some of the events offered to it. -/
structure Ingested (C : Crypto) (community : CommunityId) (offered : BTreeMap EventId SignedEvent)
    (node node' : CoreNode) : Prop where
  sound : node'.Sound C
  known_mono : ∀ {id : EventId}, id ∈ node.known → id ∈ node'.known
  known_from : ∀ {id : EventId}, id ∈ node'.known →
    id ∈ node.known ∨ ∃ event, offered[id]? = some event
  rows : ∀ {id : EventId} {event : SignedEvent}, node'.store.rows[id]? = some event ↔
    node.store.rows[id]? = some event ∨ id ∈ node'.known ∧ offered[id]? = some event
  community : node'.community = node.community ∨ node'.community = some community

theorem Ingested.refl {community : CommunityId} {offered : BTreeMap EventId SignedEvent}
    {node : CoreNode} (hnode : node.Sound C)
    (hoffered : Offered C node.store community offered) :
    Ingested C community offered node node := by
  refine ⟨hnode, id, Or.inl, fun {id event} => ?_, Or.inl rfl⟩
  refine ⟨Or.inl, fun h => h.elim (fun h => h) fun ⟨hknown, hoff⟩ => ?_⟩
  obtain ⟨other, hrow⟩ := hnode.stored hknown
  rw [hrow, hoffered.fresh hoff hrow]

namespace Ingestion

structure Progress (C : Crypto) (community : CommunityId) (offered : BTreeMap EventId SignedEvent)
    (node : CoreNode) (s : Ingestion) : Prop where
  ingested : Ingested C community offered node s.node
  source : ∀ {id : EventId} {event : SignedEvent}, s.pending[id]? = some event →
    offered[id]? = some event
  rest : ∀ {id : EventId} {event : SignedEvent}, offered[id]? = some event →
    s.pending[id]? = some event ∨ id ∈ s.node.known

/-- The loop over the ready ids `done` has led from `s` to `t`. -/
structure Passed (C : Crypto) (community : CommunityId) (offered : BTreeMap EventId SignedEvent)
    (node : CoreNode) (s : Ingestion) (done : List EventId) (t : Ingestion) : Prop where
  progress : t.Progress C community offered node
  pending : ∀ id, id ∉ done → t.pending[id]? = s.pending[id]?
  known : ∀ id ∈ s.node.known, id ∈ t.node.known
  size : t.pending.size + done.length = s.pending.size

variable {community : CommunityId} {offered : BTreeMap EventId SignedEvent} {node : CoreNode}
  {s : Ingestion}

theorem mem_ready {id : EventId} : id ∈ s.ready ↔ ∃ event, s.pending[id]? = some event ∧
    ∀ parent ∈ event.content.parents, parent ∈ s.node.known := by
  simp [ready]

theorem ready_nodup (s : Ingestion) : s.ready.Nodup := by
  have h : (s.pending.toList.map Prod.fst).Nodup := by
    rw [Std.ExtTreeMap.map_fst_toList_eq_keys]
    exact (keys_sorted s.pending).imp fun h => ne_of_lt h
  exact h.sublist (List.filter_sublist.map _)

section Admit

variable (hoffered : Offered C node.store community offered)
  (hcommunity : ∀ c, node.community = some c → c = community)
include hoffered hcommunity

theorem storeReady_spec (h : s.Progress C community offered node) {id : EventId} {event : SignedEvent}
    (hid : s.pending[id]? = some event)
    (hparents : ∀ parent ∈ event.content.parents, parent ∈ s.node.known) :
    ∃ s', storeReady C community s id = .ok s' ∧ s'.Progress C community offered node ∧
      s'.node.known = s.node.known.insert id ∧ s'.pending = s.pending.erase id := by
  have hin := h.ingested
  have hoff := h.source hid
  have hvalid := hoffered.valid hoff
  have hbelongs := hoffered.belongs hoff
  obtain rfl := hoffered.id hoff
  have hfresh : ∀ other, s.node.store.rows[event.eventId]? = some other → other = event := by
    intro other hrow
    rcases hin.rows.mp hrow with hrow | ⟨_, hrow⟩
    · exact hoffered.fresh hoff hrow
    · rw [hoff] at hrow
      exact (Option.some.inj hrow).symm
  obtain ⟨store, outcome, hinsert, hrows⟩ := EventStore.insert_spec hvalid hfresh
  have hsame : ∀ c, s.node.community = some c → c = community := by
    intro c hc
    rcases hin.community with hnode | hnode
    · exact hcommunity c (by rw [← hnode, hc])
    · rw [hnode] at hc
      exact (Option.some.inj hc).symm
  have hnext : (if event.content.communityId.isNone then some community else s.node.community)
      = some community := by
    split_ifs with hgenesis
    · rfl
    · cases hc : s.node.community with
      | some c => rw [hsame c hc]
      | none =>
        have hempty : event.content.parents = [] := List.eq_nil_iff_forall_not_mem.mpr
          fun parent hp => hin.sound.known_empty_of_community hc parent (hparents parent hp)
        exact absurd (by simp [hvalid.content.genesis.mpr hempty]) hgenesis
  refine ⟨_, by simp only [storeReady, hid, hinsert, hnext]; rfl,
    ⟨⟨?_, ?_, ?_, ?_, ?_⟩, ?_, ?_⟩, rfl, rfl⟩
  · exact hin.sound.extend hvalid hparents hrows hfresh hbelongs hsame
  · intro id hid
    exact mem_insert.mpr (Or.inr (hin.known_mono hid))
  · intro id hid
    rcases mem_insert.mp hid with rfl | hid
    · exact Or.inr ⟨event, hoff⟩
    · exact hin.known_from hid
  · intro id other
    simp only [hrows, mem_insert]
    by_cases heq : event.eventId = id
    · subst heq
      rw [if_pos rfl, hoff]
      refine ⟨fun he => Or.inr ⟨Or.inl rfl, he⟩, ?_⟩
      rintro (hrow | ⟨_, he⟩)
      · rw [hoffered.fresh hoff hrow]
      · exact he
    · rw [if_neg heq, hin.rows]
      have : id ≠ event.eventId := fun h => heq h.symm
      tauto
  · exact Or.inr rfl
  · intro id other hpending
    rw [getElem?_erase] at hpending
    split_ifs at hpending
    exact h.source hpending
  · intro id other hother
    rw [getElem?_erase, mem_insert]
    rcases h.rest hother with hpending | hknown
    · by_cases heq : event.eventId = id
      · exact Or.inr (Or.inl heq.symm)
      · exact Or.inl (by rwa [if_neg heq])
    · exact Or.inr (Or.inr hknown)

theorem round_step {done rest : List EventId} {id : EventId} {t : Ingestion}
    (hready : s.ready = done ++ id :: rest) (h : Passed C community offered node s done t) :
    ∃ t', storeReady C community t id = .ok t' ∧
      Passed C community offered node s (done ++ [id]) t' := by
  obtain ⟨event, hevent, hparents⟩ := mem_ready.mp (by rw [hready]; simp : id ∈ s.ready)
  have hnot : id ∉ done := fun hd =>
    (List.nodup_append.mp (hready ▸ ready_nodup s)).2.2 id hd id (by simp) rfl
  have hcurrent : t.pending[id]? = some event := by rw [h.pending id hnot, hevent]
  obtain ⟨t', ht', hprogress', hknown', hpending'⟩ := storeReady_spec hoffered hcommunity h.progress
    hcurrent fun parent hp => h.known parent (hparents parent hp)
  refine ⟨t', ht', hprogress', fun k hk => ?_, fun k hk => ?_, ?_⟩
  · rw [List.mem_append, List.mem_singleton, not_or] at hk
    rw [hpending', getElem?_erase, if_neg fun he => hk.2 he.symm, h.pending k hk.1]
  · rw [hknown', mem_insert]
    exact Or.inr (h.known k hk)
  · have hpos := map_size_erase (mem_of_getElem? hcurrent)
    have hsize := h.size
    rw [hpending', List.length_append, List.length_singleton]
    omega

theorem round_spec (h : s.Progress C community offered node) :
    ∃ s', s.ready.foldlM (storeReady C community) s = .ok s' ∧ s'.Progress C community offered node ∧
      s'.pending.size + s.ready.length = s.pending.size := by
  have hstart : Passed C community offered node s [] s :=
    ⟨h, fun _ _ => rfl, fun _ hid => hid, rfl⟩
  obtain ⟨s', hs', hpassed⟩ := Fallible.foldlM_ok (Passed C community offered node s) hstart
    fun done id rest t hl ht => round_step hoffered hcommunity hl ht
  exact ⟨s', hs', hpassed.progress, hpassed.size⟩

theorem run_spec (fuel : ℕ) (h : s.Progress C community offered node)
    (hfuel : s.pending.size ≤ fuel) :
    ∃ s', run C community fuel s = .ok s' ∧ s'.Progress C community offered node ∧
      s'.ready = [] := by
  induction fuel generalizing s with
  | zero =>
    refine ⟨s, rfl, h, List.length_eq_zero_iff.mp ?_⟩
    obtain ⟨_, _, _, hsize⟩ := round_spec hoffered hcommunity h
    omega
  | succ fuel ih =>
    obtain ⟨s', hs', hprogress, hsize⟩ := round_spec hoffered hcommunity h
    rw [run]
    cases hready : s.ready with
    | nil => exact ⟨s, rfl, h, hready⟩
    | cons id ids =>
      rw [hready] at hs' hsize
      simp only [hs']
      exact ih hprogress (by simp at hsize; omega)

end Admit

end Ingestion

variable {node : CoreNode} {community : CommunityId} {events : List SignedEvent}

/-- The events `ingest` works on: the last one given for each id. -/
def offeredOf (events : List SignedEvent) : BTreeMap EventId SignedEvent :=
  events.foldl (fun m event => m.insert event.eventId event) ∅

theorem offeredOf_spec
    (hinj : ∀ a ∈ events, ∀ b ∈ events, a.eventId = b.eventId → a = b) {id : EventId}
    {event : SignedEvent} :
    (offeredOf events)[id]? = some event ↔ event ∈ events ∧ event.eventId = id := by
  suffices h : ∀ (done rest : List SignedEvent) (m : BTreeMap EventId SignedEvent),
      events = done ++ rest →
      (∀ id event, m[id]? = some event ↔ event ∈ done ∧ event.eventId = id) →
      ∀ id event, (rest.foldl (fun m event => m.insert event.eventId event) m)[id]? = some event ↔
        event ∈ events ∧ event.eventId = id from
    h [] events ∅ rfl (by simp) id event
  intro done rest
  induction rest generalizing done with
  | nil =>
    intro m he hm
    rw [List.append_nil] at he
    exact he ▸ hm
  | cons a rest ih =>
    intro m he hm
    refine ih (done ++ [a]) _ (by simp [he]) fun id event => ?_
    rw [getElem?_insert]
    simp only [List.mem_append, List.mem_singleton]
    split_ifs with ha
    · constructor
      · rintro h
        cases h
        exact ⟨Or.inr rfl, ha⟩
      · rintro ⟨hd | rfl, hid⟩
        · rw [hinj a (by simp [he]) event (by simp [he, hd]) (ha.trans hid.symm)]
        · rfl
    · rw [hm]
      constructor
      · rintro ⟨hd, hid⟩
        exact ⟨Or.inl hd, hid⟩
      · rintro ⟨hd | rfl, hid⟩
        · exact ⟨hd, hid⟩
        · exact absurd hid ha

theorem ingestCommunity_eq (hvalid : ∀ event ∈ events, event.Valid C)
    (hbelongs : ∀ event ∈ events, event.belongsTo community)
    (hcommunity : node.community = some community ∨
      node.community = none ∧ ∃ event ∈ events, event.content.communityId = none) :
    node.ingestCommunity C events = .ok community := by
  rcases hcommunity with hc | ⟨hnone, event, hmem, hgenesis⟩
  · simp [CoreNode.ingestCommunity, hc]
  · simp only [CoreNode.ingestCommunity, hnone]
    cases hfind : events.find? fun event => event.content.communityId.isNone with
    | none =>
      have := List.find?_eq_none.mp hfind event hmem
      simp [hgenesis] at this
    | some genesis =>
      have hid : genesis.content.communityId = none := by simpa using List.find?_some hfind
      have hin := List.mem_of_find?_eq_some hfind
      have hb := hbelongs genesis hin
      simp only [SignedEvent.belongsTo, hid, decide_eq_true_eq] at hb
      simp [communityId, validateEvent_iff.mpr (hvalid genesis hin), hid, hb]

theorem ingest_spec (hnode : node.Sound C) (hlength : events.length ≤ MAX_PENDING_EVENTS)
    (hvalid : ∀ event ∈ events, event.Valid C)
    (hbelongs : ∀ event ∈ events, event.belongsTo community)
    (hoffered : Offered C node.store community (offeredOf events))
    (hcommunity : node.community = some community ∨
      node.community = none ∧ ∃ event ∈ events, event.content.communityId = none) :
    ∃ node' report, node.ingest C events = (node', .ok report) ∧
      Ingested C community (offeredOf events) node node' ∧
      ∀ {id : EventId} {event : SignedEvent}, (offeredOf events)[id]? = some event →
        id ∉ node'.known → ∃ parent ∈ event.content.parents, parent ∉ node'.known := by
  have hstart : Ingestion.Progress C community (offeredOf events) node
      { node, pending := offeredOf events } :=
    ⟨.refl hnode hoffered, id, Or.inl⟩
  have hsame : ∀ c, node.community = some c → c = community := by
    intro c hc
    rcases hcommunity with h | ⟨h, _⟩
    · exact Option.some.inj (hc.symm.trans h)
    · rw [h] at hc; cases hc
  obtain ⟨s', hrun, hprogress, hready⟩ :=
    Ingestion.run_spec hoffered hsame _ hstart (le_refl _)
  have hwrong : ¬ (events.any fun event => !event.belongsTo community) = true := by
    simpa using hbelongs
  rw [offeredOf] at hrun
  refine ⟨s'.node, _, by simp only [CoreNode.ingest, not_lt.mpr hlength, if_false, hwrong,
    forM_validateEvent.mpr hvalid, ingestCommunity_eq hvalid hbelongs hcommunity, hrun]; rfl,
    hprogress.ingested, fun {id event} hoff hnot => ?_⟩
  by_contra hall
  push Not at hall
  have hpending := (hprogress.rest hoff).resolve_right hnot
  have : id ∈ s'.ready := Ingestion.mem_ready.mpr ⟨event, hpending, hall⟩
  rw [hready] at this
  cases this

end ChatCommons
