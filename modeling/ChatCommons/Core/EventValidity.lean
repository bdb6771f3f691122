import ChatCommons.General.Fallible
import ChatCommons.Model.Protocol

namespace ChatCommons

section Sorting

theorem strictlySorted_iff (ids : List EventId) :
    strictlySorted ids = true ↔ ids.Pairwise (· < ·) := by
  induction ids with
  | nil => simp [strictlySorted]
  | cons a rest ih =>
    cases rest with
    | nil => simp [strictlySorted]
    | cons b rest =>
      rw [strictlySorted, Bool.and_eq_true, decide_eq_true_eq, ih, ← List.isChain_iff_pairwise,
        ← List.isChain_iff_pairwise, List.isChain_cons_cons]

theorem pairwise_lt_of_chain {ids : List EventId} (hle : ids.Pairwise (· ≤ ·))
    (hne : ids.IsChain (· ≠ ·)) : ids.Pairwise (· < ·) := by
  induction ids with
  | nil => exact List.Pairwise.nil
  | cons a rest ih =>
    rw [List.pairwise_cons] at hle
    cases rest with
    | nil => simp
    | cons b rest =>
      rw [List.isChain_cons_cons] at hne
      have hrest := ih hle.2 hne.2
      have hab : a < b := lt_of_le_of_ne (hle.1 b (by simp)) hne.1
      refine List.pairwise_cons.mpr ⟨fun c hc => ?_, hrest⟩
      rcases List.mem_cons.mp hc with rfl | hc
      · exact hab
      · exact hab.trans ((List.pairwise_cons.mp hrest).1 c hc)

theorem sortedParents_pairwise (parents : List EventId) :
    (sortedParents parents).Pairwise (· < ·) := by
  have hsorted : (parents.insertionSort (· ≤ ·)).Pairwise (· ≤ ·) :=
    List.pairwise_insertionSort (· ≤ ·) parents
  exact pairwise_lt_of_chain (hsorted.sublist (List.destutter_sublist _ _))
    (List.isChain_destutter _ _)

theorem sortedParents_eq {parents : List EventId} (h : parents.Pairwise (· < ·)) :
    sortedParents parents = parents := by
  rw [sortedParents, (h.imp fun h => le_of_lt h).insertionSort_eq,
    List.destutter_eq_self_iff]
  exact (h.imp fun h => ne_of_lt h).isChain

end Sorting

variable {C : Crypto} {event : SignedEvent}

structure EventContent.WellFormed (content : EventContent) : Prop where
  version : content.protocolVersion = PROTOCOL_VERSION
  eventType : content.eventType.isEmpty = false
  eventTypeBytes : content.eventType.utf8ByteSize ≤ MAX_EVENT_TYPE_BYTES
  payloadBytes : content.payload.length ≤ MAX_PAYLOAD_BYTES
  parentsLength : content.parents.length ≤ MAX_PARENTS
  parentsSorted : content.parents.Pairwise (· < ·)
  genesis : content.communityId = none ↔ content.parents = []

variable (C) in
structure SignedEvent.Valid (event : SignedEvent) : Prop where
  content : event.content.WellFormed
  signed : ∃ publicKey signature, event.publicKey = publicKey.toList ∧
    event.signature = signature.toList ∧
    verify C event.publicKey (canonicalContent event.content) event.signature = .ok () ∧
    calculateEventId C (canonicalContent event.content) publicKey signature = event.eventId

theorem validateEvent_iff : validateEvent C event = .ok () ↔ event.Valid C := by
  constructor
  · intro h
    simp only [validateEvent] at h
    split_ifs at h with hversion htype hpayload hparents hsorted hgenesis hcommunity
    · split at h
      · cases h
      · rename_i publicKey hkey
        split at h
        · cases h
        · rename_i signature hsig
          rw [Bytes.ofList?_eq_some] at hkey hsig
          split at h
          · cases h
          · rename_i u hverify
            split_ifs at h with hid
            simp only [Bool.or_eq_true, decide_eq_true_eq, not_or, Bool.not_eq_true,
              not_lt] at htype
            rw [Bool.not_eq_true', Bool.not_eq_false, strictlySorted_iff] at hsorted
            refine ⟨⟨not_not.mp hversion, htype.1, htype.2, by omega, by omega, hsorted, by tauto⟩,
              publicKey, signature, hkey, hsig, ?_, not_not.mp hid⟩
            rw [hkey, hsig]
            exact hverify
  · rintro ⟨⟨hversion, htype, htypeBytes, hpayload, hparents, hsorted, hgenesis⟩,
      publicKey, signature, hkey, hsig, hverify, hid⟩
    rw [hkey, hsig] at hverify
    rw [← strictlySorted_iff] at hsorted
    have h1 : ¬ (event.content.communityId = none ∧ event.content.parents ≠ []) := by tauto
    have h2 : ¬ (event.content.communityId ≠ none ∧ event.content.parents = []) := by tauto
    simp [validateEvent, hversion, htype, not_lt.mpr htypeBytes, not_lt.mpr hpayload,
      not_lt.mpr hparents, hsorted, h1, h2, hkey, hsig, hverify, hid]

theorem SignedEvent.Valid.publicKey_length (h : event.Valid C) : event.publicKey.length = 32 := by
  obtain ⟨publicKey, _, hkey, _⟩ := h.signed
  rw [hkey, publicKey.length_eq]

theorem SignedEvent.Valid.signature_length (h : event.Valid C) : event.signature.length = 64 := by
  obtain ⟨_, signature, _, hsig, _⟩ := h.signed
  rw [hsig, signature.length_eq]

theorem SignedEvent.Valid.authorId_eq (h : event.Valid C) :
    ∃ author, authorId C event = .ok author := by
  obtain ⟨publicKey, _, hkey, _⟩ := h.signed
  exact ⟨UserId.fromPublicKey C publicKey, by simp [authorId, hkey]⟩

theorem createSigned_valid_iff (hsign : C.SignsCorrectly) (content : EventContent)
    (identity : Identity) :
    (createSigned C content identity).Valid C ↔
      { content with parents := sortedParents content.parents }.WellFormed := by
  refine ⟨fun h => h.content, fun h => ⟨h, ?_⟩⟩
  exact ⟨_, _, rfl, rfl, verify_sign hsign identity _, rfl⟩

theorem forM_validateEvent {events : List SignedEvent} :
    events.forM (validateEvent C) = .ok () ↔ ∀ event ∈ events, event.Valid C := by
  simp only [Fallible.forM_eq_ok, validateEvent_iff]

end ChatCommons
