import ChatCommons.Sync.Refinement
import ChatCommons.Sync.Serving

namespace ChatCommons

open Collections Dag AntiEntropy

variable {C : Crypto} {E : Set SignedEvent} {peer : SyncPeer} {message : SyncMessage}

/-- The peer has answered a message as the abstract exchange allows. -/
structure Answers (C : Crypto) (E : Set SignedEvent) (peer : SyncPeer) (message : SyncMessage)
    (peer' : SyncPeer) (replies : List SyncMessage) : Prop where
  receives : Receives (parentsOf E) peer.view message.view peer'.view (replies.map SyncMessage.view)
  honest : peer'.Honest C E
  community : peer'.community = peer.community
  quota : peer'.maxStoredEventBytes = peer.maxStoredEventBytes
  replies : ∀ m ∈ replies, m.Fit C E peer.community
  room : message.batch ≠ [] →
    peer.pending.size + (peer.newIds message.batch).size ≤ MAX_PENDING_SYNC_EVENTS

def Refuses (peer : SyncPeer) (events : List SignedEvent) (error : SyncError) : Prop :=
  (error = .wrongCommunity ∧ ∃ event ∈ events, ¬ event.belongsTo peer.community) ∨
    (error = .itemLimitExceeded ∧
      MAX_PENDING_SYNC_EVENTS < peer.pending.size + (peer.newIds events).size) ∨
    peer.maxStoredEventBytes ≠ none

/-- The peer has put the events beside those it kept pending, and stored what it could. -/
structure TakesIn (C : Crypto) (E : Set SignedEvent) (peer : SyncPeer) (events : List SignedEvent)
    (offered : BTreeMap EventId SignedEvent) (peer' : SyncPeer) : Prop where
  admitted : { peer with pending := offered }.Honest C E
  ingested : Ingested C peer.community offered peer.node peer'.node
  mem_offered : ∀ {id : EventId}, id ∈ offered ↔
    id ∈ peer.pending ∨ (∃ event ∈ events, event.eventId = id) ∧ peer.view.Unknown id
  pending : ∀ {id : EventId} {event : SignedEvent}, peer'.pending[id]? = some event ↔
    offered[id]? = some event ∧ id ∉ peer'.node.known
  blocked : ∀ {id : EventId} {event : SignedEvent}, offered[id]? = some event →
    id ∉ peer'.node.known → ∃ parent ∈ event.content.parents, parent ∉ peer'.node.known
  community : peer'.community = peer.community
  quota : peer'.maxStoredEventBytes = peer.maxStoredEventBytes

section Replies

variable (h : peer.Honest C E) (hE : Set.InjOn SignedEvent.eventId E)
include h

include hE in
theorem headMessages_spec (v : UInt16) (vs : List UInt16) (c : CommunityId) :
    ∃ replies, peer.headMessages C = .ok replies ∧
      Answers C E peer (.hello v vs c) peer replies := by
  obtain ⟨heads, hheads, hsorted, hmem⟩ := h.node.heads_spec
  have hmem' : ∀ id, id ∈ heads ↔ IsHead (parentsOf E) peer.view.stored id := fun id =>
    (hmem id).trans (h.isHead_iff hE).symm
  rw [SyncPeer.headMessages, hheads]
  cases hempty : heads with
  | nil =>
    refine ⟨_, rfl, .helloEmpty fun x hx => ?_, h, rfl, rfl, fun m hm => ?_,
      fun hne => absurd rfl hne⟩
    · obtain ⟨y, hy⟩ := heads_nonempty (h.sound hE).stored_finite (h.grounded hE) ⟨x, hx⟩
      have := (hmem' y).mpr hy
      rw [hempty] at this
      cases this
    · rw [List.mem_singleton.mp hm]
      refine ⟨validateMessage_iff.mpr ⟨rfl, (ids_message_fits (by simp) _).2⟩, rfl, ?_⟩
      simp [SyncMessage.batch]
  | cons head rest =>
    rw [← hempty]
    refine ⟨(chunks MAX_IDS_PER_MESSAGE heads).map (SyncMessage.heads peer.community),
      by simp [hempty], .hello ?_, h, rfl, rfl, fun m hm => ?_, fun hne => absurd rfl hne⟩
    · exact (covers_chunks (f := SyncMessage.heads peer.community) (fun _ => rfl) heads).congr hmem'
    · obtain ⟨chunk, hchunk, rfl⟩ := List.mem_map.mp hm
      exact ⟨(chunk_validates hsorted hchunk).1, rfl, by simp [SyncMessage.batch]⟩

theorem wantUnknown_spec {ids : List EventId} {c : CommunityId} (hsorted : ids.Pairwise (· < ·)) :
    Answers C E peer (.heads c ids) peer (peer.wantUnknown ids) := by
  refine ⟨.heads ?_, h, rfl, rfl, wantMessages_fit (hsorted.sublist List.filter_sublist),
    fun hne => absurd rfl hne⟩
  refine (covers_want _ _).congr fun x => ?_
  simp only [Set.mem_ofPred_eq, List.mem_filter, isUnknown_iff]

theorem serve_spec {ids : List EventId} {c : CommunityId} (hsorted : ids.Pairwise (· < ·)) :
    ∃ replies, peer.serve C ids = .ok replies ∧ Answers C E peer (.want c ids) peer replies := by
  have hids := SyncPeer.rows_ids h.node.rowId ids
  obtain ⟨batches, hserve, hflat, hbatches⟩ :=
    SyncPeer.serve_batches h.node.rowId h.node.rowValid hsorted
  refine ⟨_, hserve, .want ⟨?_, ?_⟩, h, rfl, rfl, ?_, fun hne => absurd rfl hne⟩
  · intro m hm
    simp only [List.mem_map, exists_exists_and_eq_and] at hm
    obtain ⟨b, hb, rfl⟩ := hm
    refine ⟨b.map SignedEvent.eventId, by simpa using (hbatches b hb).1, rfl, fun x hx => ?_⟩
    have hx' : x ∈ (batches.flatten).map SignedEvent.eventId := by
      obtain ⟨event, he, rfl⟩ := List.mem_map.mp hx
      exact List.mem_map_of_mem (List.mem_flatten.mpr ⟨b, hb, he⟩)
    rw [hflat, hids, List.mem_filter, decide_eq_true_iff] at hx'
    exact hx'
  · rintro x ⟨hx, hheld⟩
    have hx' : x ∈ (batches.flatten).map SignedEvent.eventId := by
      rw [hflat, hids, List.mem_filter]
      exact ⟨hx, decide_eq_true hheld⟩
    obtain ⟨event, he, rfl⟩ := List.mem_map.mp hx'
    obtain ⟨b, hb, heb⟩ := List.mem_flatten.mp he
    refine ⟨b.map SignedEvent.eventId, ?_, List.mem_map_of_mem heb⟩
    exact List.mem_map.mpr ⟨_, List.mem_map_of_mem hb, rfl⟩
  · intro m hm
    obtain ⟨b, hb, rfl⟩ := List.mem_map.mp hm
    refine ⟨(hbatches b hb).2, rfl, fun event he => ?_⟩
    have : event ∈ batches.flatten := List.mem_flatten.mpr ⟨b, hb, he⟩
    rw [hflat] at this
    obtain ⟨_, _, hrow⟩ := List.mem_filterMap.mp this
    exact h.rows hrow

include hE in
theorem mem_missingParents {id : EventId} : id ∈ peer.missingParents ↔
    (∃ x ∈ peer.view.waiting, id ∈ parentsOf E x) ∧ peer.view.Unknown id := by
  simp only [SyncPeer.missingParents, mem_setOf, List.mem_filter, isUnknown_iff, List.mem_flatMap]
  refine and_congr_left fun _ => ⟨?_, ?_⟩
  · rintro ⟨⟨k, event⟩, hrow, hp⟩
    have hk := mem_toList.mp hrow
    exact ⟨k, mem_of_getElem? hk, by rwa [h.pending_parents hE hk]⟩
  · rintro ⟨k, hk, hp⟩
    obtain ⟨event, hk⟩ := mem_iff.mp hk
    rw [h.pending_parents hE hk] at hp
    exact ⟨(k, event), mem_toList.mpr hk, hp⟩

end Replies

section Accept

variable {events : List SignedEvent} (h : peer.Honest C E)
  (hE : Set.InjOn SignedEvent.eventId E) (hvalid : ∀ event ∈ events, event.Valid C)
  (hin : ∀ event ∈ events, event ∈ E)
include h hE hvalid hin

omit h hE hvalid hin in
theorem mem_newIds {id : EventId} : id ∈ peer.newIds events ↔
    (∃ event ∈ events, event.eventId = id) ∧ peer.view.Unknown id := by
  rw [SyncPeer.newIds, mem_setOf, List.mem_filter, isUnknown_iff, List.mem_map]

theorem accept_ok (hbelongs : ∀ event ∈ events, event.belongsTo peer.community)
    (hsize : peer.pending.size + (peer.newIds events).size ≤ MAX_PENDING_SYNC_EVENTS) :
    ∃ peer' offered,
      (peer.admitPending (peer.newIds events) events).ingestPending C = (peer', .ok ()) ∧
      TakesIn C E peer events offered peer' := by
  have hhonest : (peer.admitPending (peer.newIds events) events).Honest C E :=
    admitPending_honest h hin hvalid hbelongs
  obtain ⟨node', hingest, hnode, hblocked⟩ :=
    ingestPending_spec hhonest hE (admitPending_size.trans hsize)
  refine ⟨_, _, hingest, ⟨hhonest, hnode, fun {id} => ?_, ?_, hblocked, rfl, rfl⟩⟩
  · refine (admitPending_spec events).2.trans ?_
    rw [mem_newIds]
    tauto
  · intro id event
    exact getElem?_filter_key.trans (and_congr_right fun _ => decide_eq_true_iff)

end Accept

namespace TakesIn

variable {events : List SignedEvent} {offered : BTreeMap EventId SignedEvent} {peer' : SyncPeer}
  (t : TakesIn C E peer events offered peer') (hE : Set.InjOn SignedEvent.eventId E)
include t

theorem honest : peer'.Honest C E where
  node := t.ingested.sound
  community c hc := by
    rw [t.community]
    rcases t.ingested.community with heq | heq
    · exact t.admitted.community c (heq ▸ hc)
    · exact Option.some.inj (hc.symm.trans heq)
  rows hrow := by
    rcases t.ingested.rows.mp hrow with hrow | ⟨_, hrow⟩
    · exact t.admitted.rows hrow
    · exact t.admitted.pendingIn hrow
  pendingId hp := t.admitted.pendingId (t.pending.mp hp).1
  pendingIn hp := t.admitted.pendingIn (t.pending.mp hp).1
  pendingValid hp := t.admitted.pendingValid (t.pending.mp hp).1
  pendingBelongs hp := by
    rw [t.community]
    exact t.admitted.pendingBelongs (t.pending.mp hp).1

theorem mem_waiting {id : EventId} :
    id ∈ peer'.view.waiting ↔ id ∈ offered ∧ id ∉ peer'.node.known := by
  simp only [SyncPeer.view, Set.mem_ofPred_eq, mem_iff, t.pending, exists_and_right]

theorem known_iff (id : EventId) : ¬ peer'.view.Unknown id ↔
    ¬ peer.view.Unknown id ∨ id ∈ events.map SignedEvent.eventId := by
  have hnew : ¬ peer'.view.Unknown id ↔ id ∈ peer'.node.known ∨ id ∈ offered := by
    rw [Peer.Unknown, t.mem_waiting]
    change ¬ (id ∉ peer'.node.known ∧ _) ↔ _
    tauto
  have hold : ¬ peer.view.Unknown id ↔ id ∈ peer.node.known ∨ id ∈ peer.pending := by
    rw [Peer.Unknown]
    change ¬ (id ∉ peer.node.known ∧ id ∉ peer.pending) ↔ _
    tauto
  rw [hnew, List.mem_map]
  constructor
  · rintro (hid | hid)
    · rcases t.ingested.known_from hid with hid | ⟨event, hid⟩
      · exact Or.inl (hold.mpr (Or.inl hid))
      · exact (t.mem_offered.mp (mem_of_getElem? hid)).imp (fun h => hold.mpr (Or.inr h)) And.left
    · exact (t.mem_offered.mp hid).imp (fun h => hold.mpr (Or.inr h)) And.left
  · intro hid
    by_cases hu : peer.view.Unknown id
    · exact Or.inr (t.mem_offered.mpr (Or.inr ⟨hid.resolve_left fun h => h hu, hu⟩))
    · exact (hold.mp hu).imp t.ingested.known_mono fun h => t.mem_offered.mpr (Or.inl h)

theorem held_iff (id : EventId) :
    id ∈ peer'.view.held ↔ id ∈ peer.view.held ∨ id ∈ peer'.view.stored := by
  simp only [SyncPeer.view, CoreNode.knownSet, Set.mem_ofPred_eq, mem_iff]
  constructor
  · rintro ⟨event, hrow⟩
    rcases t.ingested.rows.mp hrow with hrow | ⟨hid, _⟩
    · exact Or.inl ⟨event, hrow⟩
    · exact Or.inr hid
  · rintro (⟨event, hrow⟩ | hid)
    · exact ⟨event, t.ingested.rows.mpr (Or.inl hrow)⟩
    · exact t.ingested.sound.stored hid

include hE

theorem accepts : Accepts (parentsOf E) peer.view (events.map SignedEvent.eventId) peer'.view where
  stored_mono _ hid := t.ingested.known_mono hid
  held_eq := t.held_iff
  known_iff := t.known_iff
  blocked id hid := by
    obtain ⟨hid, hnot⟩ := t.mem_waiting.mp hid
    obtain ⟨event, hid⟩ := mem_iff.mp hid
    rw [t.admitted.pending_parents hE hid]
    exact t.blocked hid hnot
  closed := t.honest.closed hE
  grounded := t.honest.grounded hE

theorem answers {c : CommunityId}
    (hsize : peer.pending.size + (peer.newIds events).size ≤ MAX_PENDING_SYNC_EVENTS) :
    Answers C E peer (.events c events) peer'
    (wantMessages peer'.community peer'.missingParents.toList) where
  receives := .events (t.accepts hE) ((covers_want _ _).congr fun id => by
    simp only [Set.mem_ofPred_eq, Std.ExtTreeSet.mem_toList]
    exact mem_missingParents t.honest hE)
  honest := t.honest
  community := t.community
  quota := t.quota
  replies := by
    rw [t.community]
    exact wantMessages_fit (toList_sorted _)
  room _ := hsize

end TakesIn

section Accept

variable {events : List SignedEvent} (h : peer.Honest C E)
  (hE : Set.InjOn SignedEvent.eventId E) (hvalid : ∀ event ∈ events, event.Valid C)
  (hin : ∀ event ∈ events, event ∈ E)
include h hE hvalid hin

/-- `accept` refuses the events and changes nothing, or takes them all. -/
theorem accept_spec {c : CommunityId} :
    (∃ error, peer.accept C events = (peer, .error error) ∧ Refuses peer events error) ∨
      ∃ peer' replies, peer.accept C events = (peer', .ok replies) ∧
        Answers C E peer (.events c events) peer' replies := by
  by_cases hwrong : ∃ event ∈ events, ¬ event.belongsTo peer.community = true
  · refine Or.inl ⟨.wrongCommunity, ?_, Or.inl ⟨rfl, hwrong⟩⟩
    rw [SyncPeer.accept, if_pos (by simpa using hwrong)]
  · have hnot : ¬ (events.any fun event => !event.belongsTo peer.community) = true := by
      simpa using hwrong
    rw [SyncPeer.accept, if_neg hnot]
    dsimp only
    by_cases hsize : peer.pending.size + (peer.newIds events).size > MAX_PENDING_SYNC_EVENTS
    · rw [if_pos hsize]
      exact Or.inl ⟨_, rfl, Or.inr (Or.inl ⟨rfl, hsize⟩)⟩
    · rw [if_neg hsize]
      push Not at hwrong
      obtain ⟨peer', _, hingest, htakes⟩ := accept_ok h hE hvalid hin hwrong (not_lt.mp hsize)
      cases hquota : peer.checkQuota
          (events.filter fun event => event.eventId ∈ peer.newIds events) with
      | error error =>
        refine Or.inl ⟨error, rfl, Or.inr (Or.inr fun hnone => ?_)⟩
        rw [SyncPeer.checkQuota, hnone] at hquota
        cases hquota
      | ok u => exact Or.inr ⟨peer', _, by simp only [hingest], htakes.answers hE (not_lt.mp hsize)⟩

end Accept

/-- A message that passes validation is refused only as a batch of events is. -/
theorem receive_spec (h : peer.Honest C E) (hE : Set.InjOn SignedEvent.eventId E)
    (hfit : message.Fit C E peer.community) :
    (∃ error, peer.receive C message = (peer, .error error) ∧
        Refuses peer message.batch error) ∨
      ∃ peer' replies, peer.receive C message = (peer', .ok replies) ∧
        Answers C E peer message peer' replies := by
  have hbody := (validateMessage_iff.mp hfit.valid).1
  simp only [SyncPeer.receive, hfit.valid, if_neg (not_not.mpr hfit.community)]
  cases message with
  | hello v vs c =>
    obtain ⟨replies, hok, hanswers⟩ := headMessages_spec h hE v vs c
    exact Or.inr ⟨peer, replies, by simp only [hok], hanswers⟩
  | heads c ids =>
    exact Or.inr ⟨peer, _, rfl, wantUnknown_spec h (validateIds_iff.mp hbody).2⟩
  | want c ids =>
    obtain ⟨replies, hok, hanswers⟩ := serve_spec h (validateIds_iff.mp hbody).2 (c := c)
    exact Or.inr ⟨peer, replies, by simp only [hok], hanswers⟩
  | events c events =>
    exact accept_spec h hE (validateEvents_iff.mp hbody).2.2.2 hfit.events

end ChatCommons
