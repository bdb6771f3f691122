import ChatCommons.General.AntiEntropyDelivery
import ChatCommons.Model.SyncSession
import ChatCommons.Sync.AcceptSpec

/-!
A peer seen as the sets of ids it holds, stores and keeps pending; what `receive`
does to a peer is what the abstract exchange allows.
-/

namespace ChatCommons

open Collections Dag AntiEntropy

variable {C : Crypto} {E : Set SignedEvent} {peer : SyncPeer}

section View

open scoped Classical in
/-- The parents that the events of `E` name. -/
noncomputable def parentsOf (E : Set SignedEvent) (id : EventId) : List EventId :=
  if h : ∃ event ∈ E, event.eventId = id then h.choose.content.parents else []

theorem parentsOf_eq (hE : Set.InjOn SignedEvent.eventId E) {event : SignedEvent}
    (hmem : event ∈ E) : parentsOf E event.eventId = event.content.parents := by
  have h : ∃ other ∈ E, other.eventId = event.eventId := ⟨event, hmem, rfl⟩
  rw [parentsOf, dif_pos h, hE h.choose_spec.1 hmem h.choose_spec.2]

def SyncPeer.view (peer : SyncPeer) : Peer EventId where
  held := {id | id ∈ peer.node.store.rows}
  stored := peer.node.knownSet
  waiting := {id | id ∈ peer.pending}

def SyncMessage.view : SyncMessage → Message EventId
  | .hello .. => .hello
  | .heads _ ids => .heads ids
  | .want _ ids => .want ids
  | .events _ items => .events (items.map SignedEvent.eventId)

def SyncMessage.batch : SyncMessage → List SignedEvent
  | .events _ items => items
  | _ => []

theorem isUnknown_iff {id : EventId} : peer.isUnknown id = true ↔ peer.view.Unknown id := by
  simp [SyncPeer.isUnknown, Peer.Unknown, SyncPeer.view, CoreNode.knownSet]

/-- A message that passes validation at every peer of the community. -/
structure SyncMessage.Fit (C : Crypto) (E : Set SignedEvent) (community : CommunityId)
    (message : SyncMessage) : Prop where
  valid : validateMessage C message = .ok ()
  community : message.community = community
  events : ∀ event ∈ message.batch, event ∈ E

theorem covers_chunks {form : List EventId → Message EventId}
    {f : List EventId → SyncMessage} (hview : ∀ ids, (f ids).view = form ids)
    (ids : List EventId) :
    Covers form {x | x ∈ ids} (((chunks MAX_IDS_PER_MESSAGE ids).map f).map SyncMessage.view) := by
  have hpos : 0 < MAX_IDS_PER_MESSAGE := by decide
  constructor
  · intro m hm
    simp only [List.mem_map, exists_exists_and_eq_and] at hm
    obtain ⟨chunk, hchunk, rfl⟩ := hm
    obtain ⟨hne, _, hsub⟩ := chunks_shape hpos ids chunk hchunk
    exact ⟨chunk, hne, hview chunk, fun x hx => hsub.subset hx⟩
  · intro x hx
    obtain ⟨chunk, hchunk, hx⟩ := (mem_chunks hpos).mp hx
    exact ⟨chunk, List.mem_map.mpr ⟨f chunk, List.mem_map_of_mem hchunk, hview chunk⟩, hx⟩

theorem covers_want (community : CommunityId) (ids : List EventId) :
    Covers .want {x | x ∈ ids} ((wantMessages community ids).map SyncMessage.view) :=
  covers_chunks (f := SyncMessage.want community) (fun _ => rfl) ids

theorem wantMessages_fit {community : CommunityId} {ids : List EventId}
    (hsorted : ids.Pairwise (· < ·)) :
    ∀ m ∈ wantMessages community ids, m.Fit C E community := by
  intro m hm
  obtain ⟨chunk, hchunk, rfl⟩ := List.mem_map.mp hm
  exact ⟨(chunk_validates hsorted hchunk).2, rfl, by simp [SyncMessage.batch]⟩

end View

namespace SyncPeer.Honest

variable (h : peer.Honest C E) (hE : Set.InjOn SignedEvent.eventId E)
include h hE

theorem parents_eq {id : EventId} (hid : id ∈ peer.node.known) :
    parentsOf E id = peer.node.parents id := by
  obtain ⟨event, hrow⟩ := h.node.stored hid
  have hevent := parentsOf_eq hE (h.rows hrow)
  rw [h.node.rowId hrow] at hevent
  rw [hevent, CoreNode.parents_eq hrow]

theorem pending_parents {id : EventId} {event : SignedEvent}
    (hid : peer.pending[id]? = some event) : parentsOf E id = event.content.parents := by
  have hevent := parentsOf_eq hE (h.pendingIn hid)
  rwa [h.pendingId hid] at hevent

theorem closed : Closed (parentsOf E) peer.view.stored :=
  h.node.closed.congr fun _ hid => h.parents_eq hE hid

theorem grounded : ∀ id ∈ peer.view.stored, Grounded (parentsOf E) id := fun id hid =>
  (h.node.grounded id hid).congr h.node.closed (fun _ hid => h.parents_eq hE hid) hid

theorem sound : peer.view.Sound (parentsOf E) := by
  refine ⟨fun id hid => ?_, h.closed hE, h.grounded hE, ?_⟩
  · obtain ⟨event, hrow⟩ := h.node.stored hid
    exact mem_of_getElem? hrow
  · refine (peer.node.known.toList ++ peer.pending.keys).finite_toSet.subset fun id hid => ?_
    simp only [Set.mem_ofPred_eq, List.mem_append, Std.ExtTreeSet.mem_toList,
      Std.ExtTreeMap.mem_keys]
    by_contra hnot
    rw [not_or] at hnot
    exact hid hnot

theorem isHead_iff {id : EventId} : IsHead (parentsOf E) peer.view.stored id ↔
    IsHead peer.node.parents peer.node.knownSet id := by
  refine and_congr_right fun _ => forall₂_congr fun x hx => ?_
  rw [h.parents_eq hE hx]

end SyncPeer.Honest

end ChatCommons
