import ChatCommons.Core.EventValidity
import ChatCommons.Model.SyncMessage

namespace ChatCommons

open JsonText

variable {C : Crypto}

section Lengths

theorem id_json_length_le {kind : IdKind} (id : Id kind) : (byteArray id.asBytes).length ≤ 130 := by
  have := byteArray_length_le id.asBytes
  rw [Id.asBytes_length] at this
  exact this

theorem ids_json_length_le {kind : IdKind} {ids : List (Id kind)} {n : ℕ} (h : ids.length ≤ n) :
    (array (ids.map fun id => byteArray id.asBytes)).length ≤ 131 * n + 2 := by
  have hitem : ∀ x ∈ ids.map (fun id => byteArray id.asBytes), x.length ≤ 130 := by
    intro x hx
    obtain ⟨id, _, rfl⟩ := List.mem_map.mp hx
    exact id_json_length_le id
  have := array_length_le hitem
  rw [List.length_map] at this
  omega

theorem integer_length_le {i : ℤ} {k : ℕ} (hk : 0 < k) (h : i.natAbs < 10 ^ k) :
    (integer i).length ≤ k + 1 := by
  have := decimal_length_le hk h
  unfold integer
  split_ifs
  · rw [List.length_cons]; omega
  · omega

theorem timestamp_json_length_le (t : Int64) : (integer t.toInt).length ≤ 20 := by
  refine integer_length_le (by norm_num) ?_
  have h1 := t.toInt_lt
  have h2 := t.le_toInt
  have : t.toInt.natAbs ≤ 2 ^ 63 := by omega
  exact lt_of_le_of_lt this (by norm_num)

theorem content_json_length_le {content : EventContent} (h : content.WellFormed) :
    content.toJson.length ≤ 270000 := by
  have hversion : (decimal content.protocolVersion.toNat).length ≤ 5 :=
    decimal_length_le (by norm_num) (content.protocolVersion.toNat_lt.trans (by norm_num))
  have hcommunity : (content.communityId.elim null fun id => byteArray id.asBytes).length ≤ 130 := by
    cases content.communityId with
    | none => decide
    | some id => exact id_json_length_le id
  have hparents : (array (content.parents.map fun id => byteArray id.asBytes)).length ≤
      131 * MAX_PARENTS + 2 := ids_json_length_le h.parentsLength
  have htime := timestamp_json_length_le content.timestampMs
  have htype := string_length_le content.eventType
  have hpayload := byteArray_length_le content.payload
  have h1 := h.eventTypeBytes
  have h2 := h.payloadBytes
  have e1 : (string "protocol_version").length = 18 := by decide
  have e2 : (string "community_id").length = 14 := by decide
  have e3 : (string "parents").length = 9 := by decide
  have e4 : (string "timestamp_ms").length = 14 := by decide
  have e5 : (string "event_type").length = 12 := by decide
  have e6 : (string "payload").length = 9 := by decide
  simp only [MAX_PARENTS, MAX_EVENT_TYPE_BYTES, MAX_PAYLOAD_BYTES] at hparents h1 h2
  simp only [EventContent.toJson, object, List.map_cons, List.map_nil, commas, field,
    List.length_append, List.length_cons, List.length_nil, e1, e2, e3, e4, e5, e6]
  omega

theorem event_json_length_le {event : SignedEvent} (h : event.Valid C) :
    event.toJson.length ≤ 271000 := by
  have hcontent := content_json_length_le h.content
  have hkey := byteArray_length_le event.publicKey
  have hsig := byteArray_length_le event.signature
  have hid := id_json_length_le event.eventId
  rw [h.publicKey_length] at hkey
  rw [h.signature_length] at hsig
  have e1 : (string "content").length = 9 := by decide
  have e2 : (string "public_key").length = 12 := by decide
  have e3 : (string "signature").length = 11 := by decide
  have e4 : (string "event_id").length = 10 := by decide
  simp only [SignedEvent.toJson, object, List.map_cons, List.map_nil, commas, field,
    List.length_append, List.length_cons, List.length_nil, e1, e2, e3, e4]
  omega

theorem single_event_fits {event : SignedEvent} (h : event.Valid C) (community : CommunityId) :
    (SyncMessage.events community [event]).toJson.length ≤ MAX_SYNC_JSON_BYTES := by
  have hevent := event_json_length_le h
  have hid := id_json_length_le community
  have e1 : (string "Events").length = 8 := by decide
  have e2 : (string "community_id").length = 14 := by decide
  have e3 : (string "events").length = 8 := by decide
  simp only [SyncMessage.toJson, object, array, List.map_cons, List.map_nil, commas, field,
    List.length_append, List.length_cons, List.length_nil, e1, e2, e3, MAX_SYNC_JSON_BYTES]
  omega

theorem ids_message_fits {ids : List EventId} (h : ids.length ≤ MAX_IDS_PER_MESSAGE)
    (community : CommunityId) :
    (SyncMessage.want community ids).toJson.length ≤ MAX_SYNC_JSON_BYTES ∧
      (SyncMessage.heads community ids).toJson.length ≤ MAX_SYNC_JSON_BYTES := by
  have hids : (array (ids.map fun id => byteArray id.asBytes)).length ≤
      131 * MAX_IDS_PER_MESSAGE + 2 := ids_json_length_le h
  have hid := id_json_length_le community
  have e1 : (string "Want").length = 6 := by decide
  have e2 : (string "Heads").length = 7 := by decide
  have e3 : (string "community_id").length = 14 := by decide
  have e4 : (string "event_ids").length = 11 := by decide
  simp only [MAX_IDS_PER_MESSAGE] at hids
  simp only [SyncMessage.toJson, object, List.map_cons, List.map_nil, commas, field,
    List.length_append, List.length_cons, List.length_nil, e1, e2, e3, e4, MAX_SYNC_JSON_BYTES]
  omega

theorem hello_fits (community : CommunityId) :
    (SyncMessage.hello SYNC_VERSION [PROTOCOL_VERSION] community).toJson.length
      ≤ MAX_SYNC_JSON_BYTES := by
  have hid := id_json_length_le community
  have e1 : (string "Hello").length = 7 := by decide
  have e2 : (string "sync_version").length = 14 := by decide
  have e3 : (string "protocol_versions").length = 19 := by decide
  have e4 : (string "community_id").length = 14 := by decide
  have e5 : (decimal SYNC_VERSION.toNat).length = 1 := by decide
  have e6 : (decimal PROTOCOL_VERSION.toNat).length = 1 := by decide
  simp only [SyncMessage.toJson, object, array, List.map_cons, List.map_nil, commas, field,
    List.length_append, List.length_cons, List.length_nil, e1, e2, e3, e4, e5, e6,
    MAX_SYNC_JSON_BYTES]
  omega

end Lengths

end ChatCommons
