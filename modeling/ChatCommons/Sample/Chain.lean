import ChatCommons.Core.Listed
import ChatCommons.Sample.LengthHash

/-!
Histories without branches, of any length up to the size of a payload: the payload
of each event is one byte longer than the one before.
-/

namespace ChatCommons.Sample

def linkId : ℕ → EventId
  | 0 => idOf 164
  | n + 1 => idOf (228 + n)

def community : CommunityId := (linkId 0).toCommunity

def linkContent (n : ℕ) : EventContent where
  protocolVersion := PROTOCOL_VERSION
  communityId := if n = 0 then none else some community
  parents := if n = 0 then [] else [linkId (n - 1)]
  timestampMs := 0
  eventType := "t"
  payload := List.replicate (n - 1) 0

def link (n : ℕ) : SignedEvent := createSigned crypto (linkContent n) (identity 0)

def chain (n : ℕ) : List SignedEvent := (List.range n).map link

theorem linkContent_sorted (n : ℕ) : (linkContent n).parents.Pairwise (· < ·) := by
  unfold linkContent
  split_ifs <;> simp

theorem linkContent_wellFormed {n : ℕ} (h : n ≤ MAX_PAYLOAD_BYTES) : (linkContent n).WellFormed where
  version := rfl
  eventType := show "t".isEmpty = false by decide
  eventTypeBytes := show "t".utf8ByteSize ≤ MAX_EVENT_TYPE_BYTES by decide
  payloadBytes := by
    simp only [linkContent, List.length_replicate]
    omega
  parentsLength := by unfold linkContent; split_ifs <;> simp [MAX_PARENTS]
  parentsSorted := linkContent_sorted n
  genesis := by unfold linkContent; split_ifs <;> simp

theorem link_content (n : ℕ) : (link n).content = linkContent n := by
  rw [link, createSigned, sortedParents_eq (linkContent_sorted n)]

theorem link_eventId (n : ℕ) : (link n).eventId = linkId n := by
  have htype : "t".utf8ByteSize = 1 := by decide
  rw [link, createSigned_eventId (linkContent_sorted n)]
  cases n with
  | zero => rfl
  | succ n =>
    simp only [linkContent, linkId, htype, Nat.add_one_ne_zero, if_false, Option.isSome_some,
      if_true, List.length_singleton, List.length_replicate, Nat.add_sub_cancel]

theorem linkId_injective {m n : ℕ} (hm : m < 2 ^ 255) (hn : n < 2 ^ 255)
    (h : linkId m = linkId n) : m = n := by
  have hvalue : ∀ k < 2 ^ 255, ∃ v < 2 ^ 256, linkId k = idOf v ∧
      v = if k = 0 then 164 else 227 + k := by
    intro k hk
    cases k with
    | zero => exact ⟨164, by norm_num, rfl, rfl⟩
    | succ k => exact ⟨228 + k, by omega, rfl, by rw [if_neg (by omega)]; omega⟩
  obtain ⟨v, hv, hmv, hv'⟩ := hvalue m hm
  obtain ⟨w, hw, hnw, hw'⟩ := hvalue n hn
  have hvw : v = w := idOf_injective hv hw (by rw [← hmv, h, hnw])
  split_ifs at hv' hw' <;> omega

theorem link_valid {n : ℕ} (h : n ≤ MAX_PAYLOAD_BYTES) : (link n).Valid crypto := by
  refine (createSigned_valid_iff crypto_signsCorrectly _ _).mpr ?_
  rw [sortedParents_eq (linkContent_sorted n)]
  exact linkContent_wellFormed h

theorem link_belongs (n : ℕ) : (link n).belongsTo community := by
  rw [SignedEvent.belongsTo, link_content, link_eventId]
  cases n <;> simp [linkContent, community]

theorem mem_chain {n : ℕ} {event : SignedEvent} : event ∈ chain n ↔ ∃ k < n, link k = event := by
  simp [chain]

theorem chain_listed {n : ℕ} (h : n ≤ MAX_PAYLOAD_BYTES) : Listed crypto community (chain n) := by
  induction n with
  | zero => exact .nil
  | succ n ih =>
    rw [chain, List.range_succ, List.map_append, List.map_singleton]
    have hsmall : ∀ k ≤ n, k < 2 ^ 255 := fun k hk =>
      lt_of_le_of_lt (hk.trans (by omega : n ≤ MAX_PAYLOAD_BYTES)) (by decide)
    refine .snoc (ih (by omega)) ⟨link_valid (by omega), link_belongs n, fun parent hp => ?_,
      fun earlier he => ?_⟩
    · rw [link_content] at hp
      cases n with
      | zero => simp [linkContent] at hp
      | succ n =>
        simp only [linkContent, Nat.add_one_ne_zero, if_false, Nat.add_sub_cancel,
          List.mem_singleton] at hp
        exact ⟨link n, mem_chain.mpr ⟨n, by omega, rfl⟩, by rw [hp, link_eventId]⟩
    · obtain ⟨k, hk, rfl⟩ := mem_chain.mp he
      rw [link_eventId, link_eventId]
      intro heq
      have := linkId_injective (hsmall k (by omega)) (hsmall n (le_refl n)) heq
      omega

end ChatCommons.Sample
