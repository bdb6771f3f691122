import ChatCommons.Core.Listed
import ChatCommons.Model.Commands
import ChatCommons.Sample.Star

namespace ChatCommons

open Collections Dag

variable {C : Crypto} {core : CoreNode} {user : Identity} {community : CommunityId}
  {timestampMs : Int64} {payload : ChatPayload}

def CoreNode.tips (core : CoreNode) : Set EventId := {id | IsHead core.parents core.knownSet id}

theorem eventType_admissible (payload : ChatPayload) :
    payload.eventType.isEmpty = false ∧ payload.eventType.utf8ByteSize ≤ MAX_EVENT_TYPE_BYTES := by
  cases payload <;> simp only [ChatPayload.eventType] <;> decide

theorem createChatEvent_wellFormed (C : Crypto) (user : Identity) {parents : List EventId}
    (hsorted : parents.Pairwise (· < ·)) (hne : parents ≠ [])
    (hpayload : payload.toVec.length ≤ MAX_PAYLOAD_BYTES) :
    (createChatEvent C user community parents timestampMs payload).content.WellFormed ↔
      parents.length ≤ MAX_PARENTS := by
  rw [createChatEvent, createSigned, sortedParents_eq hsorted]
  refine ⟨fun h => h.parentsLength, fun hlength => ⟨rfl, ?_, ?_, hpayload, hlength, hsorted, ?_⟩⟩
  · exact (eventType_admissible payload).1
  · exact (eventType_admissible payload).2
  · simp [hne]

theorem createChatEvent_valid_iff (hsign : C.SignsCorrectly) {parents : List EventId}
    (hsorted : parents.Pairwise (· < ·)) (hne : parents ≠ [])
    (hpayload : payload.toVec.length ≤ MAX_PAYLOAD_BYTES) :
    (createChatEvent C user community parents timestampMs payload).Valid C ↔
      parents.length ≤ MAX_PARENTS := by
  rw [← createChatEvent_wellFormed C user hsorted hne hpayload]
  exact createSigned_valid_iff hsign _ _

section Heads

variable (hcore : core.Sound C) {heads : List EventId} (hheads : core.heads C = .ok heads)
include hcore hheads

theorem mem_heads {id : EventId} : id ∈ heads ↔ IsHead core.parents core.knownSet id := by
  obtain ⟨other, hother, _, hmem⟩ := hcore.heads_spec
  obtain rfl := Except.ok.inj (hheads.symm.trans hother)
  exact hmem id

theorem heads_sorted : heads.Pairwise (· < ·) := by
  obtain ⟨other, hother, hsorted, _⟩ := hcore.heads_spec
  obtain rfl := Except.ok.inj (hheads.symm.trans hother)
  exact hsorted

theorem heads_ne_nil (hne : ∃ id, id ∈ core.known) : heads ≠ [] := by
  obtain ⟨id, hid⟩ := hne
  obtain ⟨head, hhead⟩ := heads_nonempty CoreNode.knownSet_finite hcore.grounded ⟨id, hid⟩
  exact List.ne_nil_of_mem ((mem_heads hcore hheads).mpr hhead)

theorem heads_length : heads.length = core.tips.ncard := by
  have hset : core.tips = {id | id ∈ heads} := Set.ext fun id => (mem_heads hcore hheads).symm
  have hnodup : heads.Nodup := (heads_sorted hcore hheads).imp fun h => h.ne
  rw [hset, ← List.toFinset_card_of_nodup hnodup, ← Set.ncard_coe_finset]
  congr 1
  ext id
  simp

end Heads

/-- The event that a command builds at the tips is valid when there are few of them. -/
theorem createAtHeads_valid_iff (hsign : C.SignsCorrectly) (hcore : core.Sound C)
    (hne : ∃ id, id ∈ core.known) (hpayload : payload.toVec.length ≤ MAX_PAYLOAD_BYTES) :
    ∃ event, core.createAtHeads C user community timestampMs payload = .ok event ∧
      (validateEvent C event = .ok () ↔ core.tips.ncard ≤ MAX_PARENTS) := by
  obtain ⟨heads, hheads, hsorted, _⟩ := hcore.heads_spec
  refine ⟨createChatEvent C user community heads timestampMs payload,
    by rw [CoreNode.createAtHeads, hheads], ?_⟩
  rw [validateEvent_iff, ← heads_length hcore hheads]
  exact createChatEvent_valid_iff hsign hsorted (heads_ne_nil hcore hheads hne) hpayload

section Star

open Sample

theorem star_small (n : ℕ) (h : n ≤ 100) : n ≤ MAX_PAYLOAD_BYTES := h.trans (by decide)

theorem hello_fits_payload :
    (ChatPayload.messageCreate (bigEndianBytes 32 0) "hello").toVec.length ≤ MAX_PAYLOAD_BYTES := by
  decide

theorem createAtHeads_valid_star : ∃ event,
    (starNode 3).createAtHeads crypto (identity 0) Sample.community 0
        (.messageCreate (bigEndianBytes 32 0) "hello") = .ok event ∧
      (validateEvent crypto event = .ok () ↔ (starNode 3).tips.ncard ≤ MAX_PARENTS) :=
  createAtHeads_valid_iff crypto_signsCorrectly (starNode_sound (star_small 3 (by decide)))
    ⟨linkId 0, starNode_known.mpr ⟨0, by decide, rfl⟩⟩
    hello_fits_payload

/-- With 33 branches no event at the tips is valid. -/
theorem star_not_extendable : (starNode 34).Sound crypto ∧ linkId 0 ∈ (starNode 34).known ∧
    (ChatPayload.messageCreate (bigEndianBytes 32 0) "hello").toVec.length ≤ MAX_PAYLOAD_BYTES ∧
    ∃ event, (starNode 34).createAtHeads crypto (identity 0) Sample.community 0
        (.messageCreate (bigEndianBytes 32 0) "hello") = .ok event ∧
      validateEvent crypto event ≠ .ok () := by
  have hsmall := star_small 34 (by decide)
  have hsound := starNode_sound hsmall
  have hgenesis : linkId 0 ∈ (starNode 34).known := starNode_known.mpr ⟨0, by decide, rfl⟩
  obtain ⟨heads, hheads, hsorted, hmem⟩ := hsound.heads_spec
  have hsub : (List.range 33).map (fun k => linkId (k + 1)) ⊆ heads := fun id hid => by
    obtain ⟨k, hk, rfl⟩ := List.mem_map.mp hid
    have := List.mem_range.mp hk
    exact (hmem _).mpr (starNode_isHead hsmall (by omega) (by omega))
  have hnodup : ((List.range 33).map fun k => linkId (k + 1)).Nodup :=
    List.Nodup.map_on (fun j hj k hk heq => by
      have hj' := List.mem_range.mp hj
      have hk' := List.mem_range.mp hk
      have := linkId_inj_below hsmall (by omega) (by omega) heq
      omega) List.nodup_range
  have hlength := (List.subperm_of_subset hnodup hsub).length_le
  rw [List.length_map, List.length_range] at hlength
  refine ⟨hsound, hgenesis, hello_fits_payload, _, by rw [CoreNode.createAtHeads, hheads],
    fun hvalid => ?_⟩
  have hcount := (createChatEvent_valid_iff crypto_signsCorrectly hsorted
    (heads_ne_nil hsound hheads ⟨_, hgenesis⟩) hello_fits_payload).mp (validateEvent_iff.mp hvalid)
  exact absurd (hlength.trans hcount) (by decide)

end Star

end ChatCommons
