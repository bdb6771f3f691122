import ChatCommons.Sample.Chain

/-!
Histories of one genesis and any number of branches on it, one beside the other.
-/

namespace ChatCommons.Sample

open Collections Dag

def branchContent (n : ℕ) : EventContent :=
  { linkContent n with parents := if n = 0 then [] else [linkId 0] }

def branch (n : ℕ) : SignedEvent := createSigned crypto (branchContent n) (identity 0)

def star (n : ℕ) : List SignedEvent := (List.range n).map branch

def starNode (n : ℕ) : CoreNode := CoreNode.ofEvents community (star n)

theorem branchContent_sorted (n : ℕ) : (branchContent n).parents.Pairwise (· < ·) := by
  unfold branchContent
  split_ifs <;> simp

theorem branch_content (n : ℕ) : (branch n).content = branchContent n := by
  rw [branch, createSigned, sortedParents_eq (branchContent_sorted n)]

theorem branch_eventId (n : ℕ) : (branch n).eventId = linkId n := by
  rw [branch, createSigned_eventId (branchContent_sorted n), ← link_eventId, link,
    createSigned_eventId (linkContent_sorted n)]
  cases n <;> simp [branchContent, linkContent]

theorem branch_valid {n : ℕ} (h : n ≤ MAX_PAYLOAD_BYTES) : (branch n).Valid crypto := by
  refine (createSigned_valid_iff crypto_signsCorrectly _ _).mpr ?_
  rw [sortedParents_eq (branchContent_sorted n)]
  have hlink := linkContent_wellFormed h
  refine ⟨hlink.version, hlink.eventType, hlink.eventTypeBytes, hlink.payloadBytes, ?_,
    branchContent_sorted n, ?_⟩
  · unfold branchContent
    split_ifs <;> simp [MAX_PARENTS]
  · unfold branchContent linkContent
    split_ifs <;> simp

theorem branch_belongs (n : ℕ) : (branch n).belongsTo community := by
  rw [SignedEvent.belongsTo, branch_content, branch_eventId]
  cases n <;> simp [branchContent, linkContent, community]

theorem mem_star {n : ℕ} {event : SignedEvent} : event ∈ star n ↔ ∃ k < n, branch k = event := by
  simp [star]

theorem starNode_known {id : EventId} : id ∈ (starNode n).known ↔ ∃ k < n, linkId k = id := by
  rw [starNode, CoreNode.known_ofEvents]
  constructor
  · rintro ⟨event, hmem, rfl⟩
    obtain ⟨k, hk, rfl⟩ := mem_star.mp hmem
    exact ⟨k, hk, (branch_eventId k).symm⟩
  · rintro ⟨k, hk, rfl⟩
    exact ⟨branch k, mem_star.mpr ⟨k, hk, rfl⟩, branch_eventId k⟩

section Bounded

variable {n : ℕ} (h : n ≤ MAX_PAYLOAD_BYTES)
include h

theorem linkId_inj_below {j k : ℕ} (hj : j ≤ n) (hk : k ≤ n) (heq : linkId j = linkId k) : j = k := by
  have hsmall : MAX_PAYLOAD_BYTES < 2 ^ 255 := by decide
  exact linkId_injective (by omega) (by omega) heq

theorem star_listed : Listed crypto community (star n) := by
  induction n with
  | zero => exact .nil
  | succ n ih =>
    rw [star, List.range_succ, List.map_append, List.map_singleton]
    refine .snoc (ih (by omega)) ⟨branch_valid (by omega), branch_belongs n, fun parent hp => ?_,
      fun earlier he => ?_⟩
    · rw [branch_content] at hp
      cases n with
      | zero => simp [branchContent] at hp
      | succ n =>
        simp only [branchContent, Nat.add_one_ne_zero, if_false, List.mem_singleton] at hp
        exact ⟨branch 0, mem_star.mpr ⟨0, by omega, rfl⟩, by rw [hp, branch_eventId]⟩
    · obtain ⟨k, hk, rfl⟩ := mem_star.mp he
      rw [branch_eventId, branch_eventId]
      intro heq
      have := linkId_inj_below h (by omega) (by omega) heq
      omega

theorem starNode_sound : (starNode n).Sound crypto := (star_listed h).sound

theorem starNode_parents {k : ℕ} (hk : k < n) :
    (starNode n).parents (linkId k) = if k = 0 then [] else [linkId 0] := by
  have hrow : (starNode n).store.rows[linkId k]? = some (branch k) :=
    (star_listed h).row_iff.mpr ⟨mem_star.mpr ⟨k, hk, rfl⟩, branch_eventId k⟩
  rw [CoreNode.parents_eq hrow, branch_content]
  rfl

theorem starNode_isHead {k : ℕ} (hpos : 0 < k) (hk : k < n) :
    IsHead (starNode n).parents (starNode n).knownSet (linkId k) := by
  refine ⟨starNode_known.mpr ⟨k, hk, rfl⟩, fun id hid hparent => ?_⟩
  obtain ⟨j, hj, rfl⟩ := starNode_known.mp hid
  rw [starNode_parents h hj] at hparent
  split_ifs at hparent
  · cases hparent
  · have := linkId_inj_below h (by omega) (by omega) (List.mem_singleton.mp hparent)
    omega

end Bounded

end ChatCommons.Sample
