import ChatCommons.Core.IngestSpec
import ChatCommons.Model.SyncPeer
import ChatCommons.Sync.MessageSpec

namespace ChatCommons

open Collections

variable {C : Crypto} {E : Set SignedEvent} {peer : SyncPeer}

/-- What the calls on a peer preserve, when all events it meets are in `E`. -/
structure SyncPeer.Honest (C : Crypto) (E : Set SignedEvent) (peer : SyncPeer) : Prop where
  node : peer.node.Sound C
  community : ∀ c, peer.node.community = some c → c = peer.community
  rows : ∀ {id : EventId} {event : SignedEvent},
    peer.node.store.rows[id]? = some event → event ∈ E
  pendingId : ∀ {id : EventId} {event : SignedEvent},
    peer.pending[id]? = some event → event.eventId = id
  pendingIn : ∀ {id : EventId} {event : SignedEvent}, peer.pending[id]? = some event → event ∈ E
  pendingValid : ∀ {id : EventId} {event : SignedEvent},
    peer.pending[id]? = some event → event.Valid C
  pendingBelongs : ∀ {id : EventId} {event : SignedEvent},
    peer.pending[id]? = some event → event.belongsTo peer.community

section Admission

variable {newIds : BTreeSet EventId} {events : List SignedEvent}

theorem admitPending_spec (events : List SignedEvent) {id : EventId} :
    (∀ event, (peer.admitPending newIds events).pending[id]? = some event →
      peer.pending[id]? = some event ∨ event ∈ events ∧ event.eventId = id ∧ id ∈ newIds) ∧
    (id ∈ (peer.admitPending newIds events).pending ↔
      id ∈ peer.pending ∨ id ∈ newIds ∧ ∃ event ∈ events, event.eventId = id) := by
  suffices h : ∀ (events : List SignedEvent) (m : BTreeMap EventId SignedEvent),
      (∀ event, (events.foldl (fun pending event => if event.eventId ∈ newIds then
          pending.insertIfNew event.eventId event else pending) m)[id]? = some event →
        m[id]? = some event ∨ event ∈ events ∧ event.eventId = id ∧ id ∈ newIds) ∧
      (id ∈ events.foldl (fun pending event => if event.eventId ∈ newIds then
          pending.insertIfNew event.eventId event else pending) m ↔
        id ∈ m ∨ id ∈ newIds ∧ ∃ event ∈ events, event.eventId = id) from h events peer.pending
  intro events
  induction events with
  | nil => intro m; simp
  | cons a events ih =>
    intro m
    obtain ⟨hfrom, hmem⟩ := ih (if a.eventId ∈ newIds then m.insertIfNew a.eventId a else m)
    rw [List.foldl_cons]
    refine ⟨fun event he => ?_, hmem.trans ?_⟩
    · rcases hfrom event he with h | ⟨h, hid⟩
      · split_ifs at h with hnew
        · rw [getElem?_insertIfNew] at h
          split_ifs at h with hid
          · cases h
            exact Or.inr ⟨by simp, hid.1, hid.1 ▸ hnew⟩
          · exact Or.inl h
        · exact Or.inl h
      · exact Or.inr ⟨List.mem_cons_of_mem _ h, hid⟩
    · split_ifs with hnew
      · rw [Std.ExtTreeMap.mem_insertIfNew, Std.compare_eq_iff_eq]
        simp only [List.mem_cons, exists_eq_or_imp]
        constructor
        · rintro ((rfl | h) | h)
          · exact Or.inr ⟨hnew, Or.inl rfl⟩
          · exact Or.inl h
          · exact Or.inr ⟨h.1, Or.inr h.2⟩
        · rintro (h | ⟨h, h' | h'⟩)
          · exact Or.inl (Or.inr h)
          · exact Or.inl (Or.inl h')
          · exact Or.inr ⟨h, h'⟩
      · simp only [List.mem_cons, exists_eq_or_imp]
        constructor
        · rintro (h | h)
          · exact Or.inl h
          · exact Or.inr ⟨h.1, Or.inr h.2⟩
        · rintro (h | ⟨h, h' | h'⟩)
          · exact Or.inl h
          · exact absurd (h' ▸ h) hnew
          · exact Or.inr ⟨h, h'⟩

theorem admitPending_size :
    (peer.admitPending newIds events).pending.size ≤ peer.pending.size + newIds.size := by
  refine (map_size_le (l := peer.pending.keys ++ newIds.toList) fun id hid => ?_).trans ?_
  · rcases (admitPending_spec events).2.mp hid with h | ⟨h, _⟩
    · exact List.mem_append_left _ (Std.ExtTreeMap.mem_keys.mpr h)
    · exact List.mem_append_right _ (Std.ExtTreeSet.mem_toList.mpr h)
  · rw [List.length_append, Std.ExtTreeMap.length_keys, Std.ExtTreeSet.length_toList]

theorem admitPending_honest (h : peer.Honest C E) (hin : ∀ event ∈ events, event ∈ E)
    (hvalid : ∀ event ∈ events, event.Valid C)
    (hbelongs : ∀ event ∈ events, event.belongsTo peer.community) :
    (peer.admitPending newIds events).Honest C E := by
  refine ⟨h.node, h.community, h.rows, ?_, ?_, ?_, ?_⟩
  all_goals
    intro id event he
    rcases (admitPending_spec events).1 event he with he | ⟨hmem, hid, _⟩
  · exact h.pendingId he
  · exact hid
  · exact h.pendingIn he
  · exact hin event hmem
  · exact h.pendingValid he
  · exact hvalid event hmem
  · exact h.pendingBelongs he
  · exact hbelongs event hmem

end Admission

section Ingest

variable (h : peer.Honest C E) (hE : Set.InjOn SignedEvent.eventId E)
include h hE

theorem offeredOf_pending :
    offeredOf (peer.pending.toList.map Prod.snd) = peer.pending := by
  refine map_ext fun id => Option.ext fun event => ?_
  rw [offeredOf_spec ?_]
  · constructor
    · rintro ⟨hmem, rfl⟩
      obtain ⟨k, hk⟩ := mem_values.mp hmem
      rwa [h.pendingId hk]
    · intro hid
      exact ⟨mem_values.mpr ⟨id, hid⟩, h.pendingId hid⟩
  · intro a ha b hb hab
    obtain ⟨_, ha⟩ := mem_values.mp ha
    obtain ⟨_, hb⟩ := mem_values.mp hb
    exact hE (h.pendingIn ha) (h.pendingIn hb) hab

theorem pending_offered : Offered C peer.node.store peer.community peer.pending where
  id := h.pendingId
  valid := h.pendingValid
  belongs := h.pendingBelongs
  fresh := by
    intro id event other hp hrow
    exact hE (h.rows hrow) (h.pendingIn hp) ((h.node.rowId hrow).trans (h.pendingId hp).symm)

/-- The pending events whose ancestors are all at hand move into the store; this never fails. -/
theorem ingestPending_spec (hsize : peer.pending.size ≤ MAX_PENDING_SYNC_EVENTS) :
    ∃ node', peer.ingestPending C = ({ peer with
        node := node'
        pending := peer.pending.filter fun id _ => id ∉ node'.known }, .ok ()) ∧
      Ingested C peer.community peer.pending peer.node node' ∧
      ∀ {id : EventId} {event : SignedEvent}, peer.pending[id]? = some event →
        id ∉ node'.known → ∃ parent ∈ event.content.parents, parent ∉ node'.known := by
  have hoffered := pending_offered h hE
  have hmem : ∀ {event}, event ∈ peer.pending.toList.map Prod.snd →
      ∃ id, peer.pending[id]? = some event := mem_values.mp
  by_cases hcan : (peer.canIngest && !(peer.pending.toList.map Prod.snd).isEmpty) = true
  · have hcommunity : peer.node.community = some peer.community ∨ peer.node.community = none ∧
        ∃ event ∈ peer.pending.toList.map Prod.snd, event.content.communityId = none := by
      cases hc : peer.node.community with
      | some c => exact Or.inl (by rw [h.community c hc])
      | none =>
        have hany := (Bool.and_eq_true_iff.mp hcan).1
        simp only [SyncPeer.canIngest, hc, Option.isSome_none, Bool.false_or, List.any_eq_true,
          Bool.and_eq_true, Option.isNone_iff_eq_none] at hany
        obtain ⟨row, hrow, hgenesis, _⟩ := hany
        exact Or.inr ⟨rfl, row.2, List.mem_map_of_mem hrow, hgenesis⟩
    obtain ⟨node', report, hingest, hin, hblocked⟩ := ingest_spec h.node
      (by rw [List.length_map, Std.ExtTreeMap.length_toList]; exact hsize)
      (fun event he => by obtain ⟨_, he⟩ := hmem he; exact h.pendingValid he)
      (fun event he => by obtain ⟨_, he⟩ := hmem he; exact h.pendingBelongs he)
      (by rw [offeredOf_pending h hE]; exact hoffered) hcommunity
    rw [offeredOf_pending h hE] at hin hblocked
    refine ⟨node', ?_, hin, hblocked⟩
    rw [SyncPeer.ingestPending, if_pos hcan, hingest]
  · have hblocked : ∀ {id : EventId} {event : SignedEvent}, peer.pending[id]? = some event →
        id ∉ peer.node.known ∧ ∃ parent ∈ event.content.parents, parent ∉ peer.node.known := by
      intro id event he
      have hne : (peer.pending.toList.map Prod.snd).isEmpty = false := by
        rw [List.isEmpty_eq_false_iff]
        exact List.ne_nil_of_mem (mem_values.mpr ⟨id, he⟩)
      rw [hne, Bool.not_false, Bool.and_true, SyncPeer.canIngest, Bool.or_eq_true, not_or,
        Bool.not_eq_true, Option.isSome_eq_false_iff, Option.isNone_iff_eq_none] at hcan
      have hempty := h.node.known_empty_of_community hcan.1
      have hparents : event.content.parents ≠ [] := by
        intro hnil
        have hgenesis := (h.pendingValid he).content.genesis.mpr hnil
        refine hcan.2 (List.any_eq_true.mpr ⟨(id, event), mem_toList.mpr he, ?_⟩)
        have hb := h.pendingBelongs he
        simp only [SignedEvent.belongsTo, hgenesis, decide_eq_true_eq] at hb
        simp [hgenesis, hb]
      obtain ⟨parent, hp⟩ := List.exists_mem_of_ne_nil _ hparents
      exact ⟨hempty id, parent, hp, hempty parent⟩
    refine ⟨peer.node, ?_, .refl h.node hoffered, fun he _ => (hblocked he).2⟩
    have hsame : (peer.pending.filter fun id _ => decide (id ∉ peer.node.known)) = peer.pending := by
      refine map_ext fun id => Option.ext fun event => ?_
      rw [getElem?_filter_key, decide_eq_true_eq]
      exact ⟨fun hp => hp.1, fun hp => ⟨hp, (hblocked hp).1⟩⟩
    rw [SyncPeer.ingestPending, if_neg hcan, hsame]

end Ingest

end ChatCommons
