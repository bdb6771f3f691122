import ChatCommons.Sample.Chain
import ChatCommons.Sync.SessionRefinement

namespace ChatCommons.Sample

open Collections AntiEntropy

def chainNode (n : ℕ) : CoreNode := CoreNode.ofEvents community (chain n)

def chainNodes (m n : ℕ) : Side → CoreNode
  | .left => chainNode m
  | .right => chainNode n

def chainPeers (m n : ℕ) (d : Side) : SyncPeer := { node := chainNodes m n d, community }

theorem chainNode_known {n : ℕ} {id : EventId} :
    id ∈ (chainNode n).known ↔ ∃ k < n, linkId k = id := by
  rw [chainNode, CoreNode.known_ofEvents]
  constructor
  · rintro ⟨event, hmem, rfl⟩
    obtain ⟨k, hk, rfl⟩ := mem_chain.mp hmem
    exact ⟨k, hk, (link_eventId k).symm⟩
  · rintro ⟨k, hk, rfl⟩
    exact ⟨link k, mem_chain.mpr ⟨k, hk, rfl⟩, link_eventId k⟩

theorem chainNode_row {n : ℕ} (hn : n ≤ MAX_PAYLOAD_BYTES) {id : EventId} {event : SignedEvent} :
    (chainNode n).store.rows[id]? = some event ↔ ∃ k < n, link k = event ∧ linkId k = id := by
  rw [chainNode, (chain_listed hn).row_iff, mem_chain]
  constructor
  · rintro ⟨⟨k, hk, rfl⟩, rfl⟩
    exact ⟨k, hk, rfl, (link_eventId k).symm⟩
  · rintro ⟨k, hk, rfl, rfl⟩
    exact ⟨⟨k, hk, rfl⟩, link_eventId k⟩

theorem chainNodes_new (m n : ℕ) (d : Side) :
    SyncPeer.new (chainNodes m n d) community = .ok (chainPeers m n d) := by
  have hcommunity : ∀ k, (chainNode k).community.any (· ≠ community) = false := by
    intro k
    rw [chainNode, CoreNode.ofEvents]
    split_ifs <;> simp
  cases d <;> simp only [SyncPeer.new, chainNodes, hcommunity] <;> rfl

section Bounded

variable {m n : ℕ} (hm : m ≤ MAX_PAYLOAD_BYTES) (hn : n ≤ MAX_PAYLOAD_BYTES)
include hm hn

theorem chainNodes_sound (d : Side) : (chainNodes m n d).Sound crypto := by
  cases d
  · exact (chain_listed hm).sound
  · exact (chain_listed hn).sound

theorem rowEvents_chainNodes {event : SignedEvent} (h : event ∈ rowEvents (chainNodes m n)) :
    ∃ k ≤ MAX_PAYLOAD_BYTES, link k = event := by
  obtain ⟨d, id, hrow⟩ := h
  cases d
  · obtain ⟨k, hk, he, _⟩ := (chainNode_row hm).mp hrow
    exact ⟨k, by omega, he⟩
  · obtain ⟨k, hk, he, _⟩ := (chainNode_row hn).mp hrow
    exact ⟨k, by omega, he⟩

theorem chainNodes_injOn : Set.InjOn SignedEvent.eventId (rowEvents (chainNodes m n)) := by
  intro a ha b hb hab
  obtain ⟨j, hj, rfl⟩ := rowEvents_chainNodes hm hn ha
  obtain ⟨k, hk, rfl⟩ := rowEvents_chainNodes hm hn hb
  have hsmall : MAX_PAYLOAD_BYTES < 2 ^ 255 := by decide
  rw [link_eventId, link_eventId] at hab
  rw [linkId_injective (hj.trans_lt hsmall) (hk.trans_lt hsmall) hab]

end Bounded

end ChatCommons.Sample
