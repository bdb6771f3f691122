import ChatCommons.Core.NodeHistory
import ChatCommons.Model.SyncPeer
import ChatCommons.Sync.MessageSpec

namespace ChatCommons

open Collections

namespace SyncPeer

variable {C : Crypto} {peer : SyncPeer}

theorem rows_ids (hrowId : ∀ {id : EventId} {event : SignedEvent},
      peer.node.store.rows[id]? = some event → event.eventId = id) (ids : List EventId) :
    (ids.filterMap fun id => peer.node.store.rows[id]?).map SignedEvent.eventId =
      ids.filter fun id => id ∈ peer.node.store.rows := by
  induction ids with
  | nil => rfl
  | cons id ids ih =>
    cases hrow : peer.node.store.rows[id]? with
    | none =>
      rw [List.filterMap_cons, hrow, List.filter_cons,
        if_neg (by simpa using not_mem_map.mpr hrow), ih]
    | some event =>
      rw [List.filterMap_cons, hrow, List.filter_cons,
        if_pos (by simpa using mem_of_getElem? hrow), List.map_cons, ih, hrowId hrow]

theorem serve_batches (hrowId : ∀ {id : EventId} {event : SignedEvent},
      peer.node.store.rows[id]? = some event → event.eventId = id)
    (hrowValid : ∀ {id : EventId} {event : SignedEvent},
      peer.node.store.rows[id]? = some event → event.Valid C)
    {ids : List EventId} (hsorted : ids.Pairwise (· < ·)) :
    ∃ batches : List (List SignedEvent),
      peer.serve C ids = .ok (batches.map (SyncMessage.events peer.community)) ∧
      batches.flatten = ids.filterMap (fun id => peer.node.store.rows[id]?) ∧
      ∀ b ∈ batches, b ≠ [] ∧ validateMessage C (.events peer.community b) = .ok () := by
  have hvalid : ∀ event ∈ ids.filterMap fun id => peer.node.store.rows[id]?, event.Valid C := by
    intro event he
    obtain ⟨_, _, hrow⟩ := List.mem_filterMap.mp he
    exact hrowValid hrow
  obtain ⟨batches, hpack, hflat, hbatches⟩ := packEvents_spec hvalid
    (by rw [rows_ids hrowId ids]; exact hsorted.sublist List.filter_sublist) peer.community
  refine ⟨batches, ?_, hflat, hbatches⟩
  rw [SyncPeer.serve, CoreNode.events_eq_rows hrowValid]
  dsimp only
  split_ifs with hempty
  · rw [List.isEmpty_iff.mp hempty] at hflat
    have : batches = [] := by
      cases batches with
      | nil => rfl
      | cons b bs =>
        rw [List.flatten_cons, List.append_eq_nil_iff] at hflat
        exact absurd hflat.1 (hbatches b (by simp)).1
    rw [this]
    rfl
  · exact hpack

end SyncPeer

end ChatCommons
