import ChatCommons.Sample.Club
import ChatCommons.Sync.Serving

/-!
What a peer serves when its table holds the events of other communities too.
-/

namespace ChatCommons

open Collections

variable {C : Crypto} {peer : SyncPeer} {store : EventStore} {community : CommunityId}

/-- A table that only `insert` has written. -/
inductive EventStore.Written (C : Crypto) : EventStore → Prop
  | empty : Written C {}
  | insert {store store' : EventStore} {event : SignedEvent} {outcome : InsertOutcome}
      (h : Written C store) (hinsert : store.insert C event = .ok (store', outcome)) :
    Written C store'

theorem EventStore.Written.row (h : store.Written C) {id : EventId} {event : SignedEvent}
    (hrow : store.rows[id]? = some event) : event.eventId = id ∧ event.Valid C := by
  induction h with
  | empty => simp at hrow
  | @insert store store' added outcome h hinsert ih =>
    unfold EventStore.insert at hinsert
    cases hvalid : validateEvent C added with
    | error e =>
      rw [hvalid] at hinsert
      cases hinsert
    | ok u =>
      rw [hvalid] at hinsert
      dsimp only at hinsert
      split_ifs at hinsert
      · obtain ⟨rfl, _⟩ := Prod.mk.inj (Except.ok.inj hinsert)
        exact ih hrow
      · obtain ⟨rfl, _⟩ := Prod.mk.inj (Except.ok.inj hinsert)
        rw [getElem?_insert] at hrow
        split_ifs at hrow with heq
        · rw [← Option.some.inj hrow]
          exact ⟨heq, validateEvent_iff.mp hvalid⟩
        · exact ih hrow

namespace SyncPeer

/-- Every event in the reply is known to the node and of its community. -/
def Confines (C : Crypto) (peer : SyncPeer) (message : SyncMessage) : Prop :=
  ∀ messages, (peer.receive C message).2 = .ok messages →
    ∀ community events, .events community events ∈ messages →
      ∀ event ∈ events, event.eventId ∈ peer.node.known ∧ event.belongsTo peer.community = true

/-- The ids that a node knows when it is opened are those of the rows of its community. -/
theorem known_of_open (hstore : peer.node.store.Written C)
    (hopen : CoreNode.open C peer.node.store (some peer.community) = .ok peer.node)
    {id : EventId} : id ∈ peer.node.known ↔
      ∃ event, peer.node.store.rows[id]? = some event ∧ event.belongsTo peer.community = true := by
  have hread : peer.node.store.events C peer.community =
      .ok ((peer.node.store.rows.toList.map Prod.snd).filter
        fun event => event.belongsTo peer.community) := by
    apply Fallible.mapM_eq_ok.mpr
    apply List.forall₂_same.mpr
    intro event hevent
    obtain ⟨row, hrow⟩ := mem_values.mp (List.mem_filter.mp hevent).1
    rw [decodeStored, validateEvent_iff.mpr (hstore.row hrow).2]
  have hknown : peer.node.known = setOf (((peer.node.store.rows.toList.map Prod.snd).filter
      fun event => event.belongsTo peer.community).map SignedEvent.eventId) := by
    simp only [CoreNode.open, hread] at hopen
    split_ifs at hopen
    exact (congrArg CoreNode.known (Except.ok.inj hopen)).symm
  rw [hknown, mem_setOf, List.mem_map]
  constructor
  · rintro ⟨event, hevent, rfl⟩
    obtain ⟨hmem, hbelongs⟩ := List.mem_filter.mp hevent
    obtain ⟨row, hrow⟩ := mem_values.mp hmem
    obtain rfl := (hstore.row hrow).1
    exact ⟨event, hrow, hbelongs⟩
  · rintro ⟨event, hrow, hbelongs⟩
    exact ⟨event, List.mem_filter.mpr ⟨mem_values.mpr ⟨id, hrow⟩, hbelongs⟩, (hstore.row hrow).1⟩

theorem receive_want_invalid {ids : List EventId}
    (h : community ≠ peer.community ∨ validateIds ids ≠ .ok ()) (messages : List SyncMessage) :
    (peer.receive C (.want community ids)).2 ≠ .ok messages := by
  unfold receive
  cases hvalid : validateMessage C (.want community ids) with
  | error e => simp
  | ok u =>
    obtain hcommunity | hids := h
    · have : SyncMessage.community (.want community ids) ≠ peer.community := hcommunity
      simp [this]
    · exact absurd (validateMessage_iff.mp hvalid).1 hids

theorem receive_want {ids : List EventId} (hids : validateIds ids = .ok ()) :
    peer.receive C (.want peer.community ids) = (peer, peer.serve C ids) := by
  have hvalid : validateMessage C (.want peer.community ids) = .ok () :=
    validateMessage_iff.mpr ⟨hids, (ids_message_fits (validateIds_iff.mp hids).1 _).1⟩
  have hcommunity : SyncMessage.community (.want peer.community ids) = peer.community := rfl
  simp only [receive, hvalid, hcommunity, ne_eq, not_true_eq_false, if_false]

/-- A `Want` is answered from the whole table: the reply stays within the community of the peer
exactly when no id asked for is stored outside it. -/
theorem serving_confined_iff (hstore : peer.node.store.Written C)
    (hopen : CoreNode.open C peer.node.store (some peer.community) = .ok peer.node)
    (community : CommunityId) (ids : List EventId) :
    peer.Confines C (.want community ids) ↔
      community ≠ peer.community ∨ validateIds ids ≠ .ok () ∨
        ∀ id ∈ ids, id ∈ peer.node.store.rows → id ∈ peer.node.known := by
  by_cases hinvalid : community ≠ peer.community ∨ validateIds ids ≠ .ok ()
  · have hconfines : peer.Confines C (.want community ids) := fun messages hreply =>
      absurd hreply (receive_want_invalid hinvalid messages)
    rw [← or_assoc]
    exact ⟨fun _ => Or.inl hinvalid, fun _ => hconfines⟩
  · obtain ⟨hcommunity, hids⟩ := not_or.mp hinvalid
    rw [not_not] at hcommunity hids
    subst hcommunity
    obtain ⟨batches, hserve, hflat, hbatches⟩ := serve_batches (fun h => (hstore.row h).1)
      (fun h => (hstore.row h).2) (validateIds_iff.mp hids).2
    have hserved : ∀ event, (∃ batch ∈ batches, event ∈ batch) ↔
        event.eventId ∈ ids ∧ peer.node.store.rows[event.eventId]? = some event := by
      intro event
      rw [← List.mem_flatten, hflat, List.mem_filterMap]
      constructor
      · rintro ⟨id, hid, hrow⟩
        obtain rfl := (hstore.row hrow).1
        exact ⟨hid, hrow⟩
      · rintro ⟨hid, hrow⟩
        exact ⟨event.eventId, hid, hrow⟩
    simp only [hids, ne_eq, not_true_eq_false, false_or]
    constructor
    · intro hconfines id hid hstored
      obtain ⟨event, hrow⟩ := mem_iff.mp hstored
      obtain rfl := (hstore.row hrow).1
      obtain ⟨batch, hbatch, hevent⟩ := (hserved event).mpr ⟨hid, hrow⟩
      refine (hconfines _ ?_ peer.community batch (List.mem_map_of_mem hbatch) event hevent).1
      rw [receive_want hids, hserve]
    · intro hknown messages hreply c events hmem event hevent
      rw [receive_want hids, hserve] at hreply
      obtain rfl := Except.ok.inj hreply
      obtain ⟨batch, hbatch, heq⟩ := List.mem_map.mp hmem
      obtain ⟨_, hsame⟩ := SyncMessage.events.inj heq
      subst hsame
      obtain ⟨hid, hrow⟩ := (hserved event).mp ⟨batch, hbatch, hevent⟩
      have hin := hknown event.eventId hid (mem_of_getElem? hrow)
      obtain ⟨other, hother, hbelongs⟩ := (known_of_open hstore hopen).mp hin
      obtain rfl := Option.some.inj (hrow.symm.trans hother)
      exact ⟨hin, hbelongs⟩

section Example

open Sample

def rival : SignedEvent := createChatGenesis crypto (identity 2) "rivals" 0

def sharedStore : EventStore :=
  ⟨((∅ : BTreeMap EventId SignedEvent).insert genesis.eventId genesis).insert rival.eventId rival⟩

def sharedPeer : SyncPeer where
  node := { store := sharedStore, community := some club, known := setOf [genesis.eventId] }
  community := club

theorem shared_checked :
    sharedStore.events crypto club = .ok [genesis] ∧
      validateEvent crypto genesis = .ok () ∧ validateEvent crypto rival = .ok () ∧
      rival.eventId ≠ genesis.eventId ∧ rival.belongsTo club = false ∧
      (sharedPeer.receive crypto (.want club [rival.eventId])).2 = .ok [.events club [rival]] := by
  decide +kernel

theorem sharedStore_written : sharedStore.Written crypto := by
  obtain ⟨_, hgenesis, hrival, hne, _, _⟩ := shared_checked
  have hfirst : EventStore.insert crypto {} genesis =
      .ok (⟨(∅ : BTreeMap EventId SignedEvent).insert genesis.eventId genesis⟩, .inserted) := by
    simp [EventStore.insert, hgenesis]
  have hsecond : EventStore.insert crypto
      ⟨(∅ : BTreeMap EventId SignedEvent).insert genesis.eventId genesis⟩ rival =
        .ok (sharedStore, .inserted) := by
    simp [EventStore.insert, hrival, hne.symm, sharedStore]
  exact .insert (.insert .empty hfirst) hsecond

theorem sharedPeer_opened :
    CoreNode.open crypto sharedPeer.node.store (some sharedPeer.community) = .ok sharedPeer.node := by
  have hevents : sharedPeer.node.store.events crypto sharedPeer.community = .ok [genesis] :=
    shared_checked.1
  simp only [CoreNode.open, hevents]
  rfl

/-- A `Want` for the genesis of another community in the same table is served. -/
theorem serving_leaks : sharedPeer.node.store.Written crypto ∧
    CoreNode.open crypto sharedPeer.node.store (some sharedPeer.community) = .ok sharedPeer.node ∧
    (sharedPeer.receive crypto (.want club [rival.eventId])).2 = .ok [.events club [rival]] ∧
    ¬ sharedPeer.Confines crypto (.want club [rival.eventId]) := by
  obtain ⟨_, _, _, hne, hrival, hserved⟩ := shared_checked
  refine ⟨sharedStore_written, sharedPeer_opened, hserved, fun hconfines => ?_⟩
  have hbelongs := (hconfines _ hserved club [rival] (by simp) rival (by simp)).2
  rw [sharedPeer, hrival] at hbelongs
  cases hbelongs

theorem serving_confined_iff_shared :
    sharedPeer.Confines crypto (.want club [rival.eventId]) ↔
      club ≠ club ∨ validateIds [rival.eventId] ≠ .ok () ∨
        ∀ id ∈ [rival.eventId], id ∈ sharedStore.rows → id ∈ sharedPeer.node.known :=
  serving_confined_iff sharedStore_written sharedPeer_opened club [rival.eventId]

end Example

end SyncPeer

end ChatCommons
