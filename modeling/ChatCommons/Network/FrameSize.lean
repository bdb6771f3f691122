import ChatCommons.General.Fallible
import ChatCommons.Model.Network
import ChatCommons.Sync.MessageSize

namespace ChatCommons

open JsonText

variable {C : Crypto}

theorem certificate_lengths {certificate : DeviceCertificate} {device : AuthenticatedDevice}
    (h : validateDeviceCertificate C certificate = .ok device) :
    certificate.userPublicKey.length = 32 ∧ certificate.devicePublicKey.length = 32 ∧
      certificate.signature.length = 64 := by
  obtain ⟨_, hlengths, _⟩ := Fallible.bind_eq_ok.mp h
  unfold validateVersionAndLengths at hlengths
  split_ifs at hlengths with hversion hkeys hsignature
  simp only [Option.any_some, Bool.or_eq_true, decide_eq_true_eq, not_or, not_not] at hkeys
  exact ⟨hkeys.1, hkeys.2, not_not.mp hsignature⟩

theorem certificate_json_length_le {certificate : DeviceCertificate}
    {device : AuthenticatedDevice} (h : validateDeviceCertificate C certificate = .ok device) :
    certificate.toJson.length ≤ 1000 := by
  obtain ⟨huser, hdevice, hsignature⟩ := certificate_lengths h
  have h1 := byteArray_length_le certificate.userPublicKey
  have h2 := byteArray_length_le certificate.devicePublicKey
  have h3 := byteArray_length_le certificate.signature
  have h4 := timestamp_json_length_le certificate.issuedAtMs
  have h5 : (decimal certificate.version.toNat).length ≤ 5 :=
    decimal_length_le (by norm_num) (certificate.version.toNat_lt.trans (by norm_num))
  have e1 : (string "version").length = 9 := by decide
  have e2 : (string "user_public_key").length = 17 := by decide
  have e3 : (string "device_public_key").length = 19 := by decide
  have e4 : (string "issued_at_ms").length = 14 := by decide
  have e5 : (string "signature").length = 11 := by decide
  simp only [DeviceCertificate.toJson, object, List.map_cons, List.map_nil, commas, field,
    List.length_append, List.length_cons, List.length_nil, e1, e2, e3, e4, e5]
  omega

theorem authenticate_fits {certificate : DeviceCertificate} {device : AuthenticatedDevice}
    (h : validateDeviceCertificate C certificate = .ok device) :
    (NetworkRequest.authenticate certificate).toJson.length ≤ MAX_NETWORK_FRAME_BYTES := by
  have hcertificate := certificate_json_length_le h
  have e1 : (string "Authenticate").length = 14 := by decide
  have e2 : (string "certificate").length = 13 := by decide
  simp only [NetworkRequest.toJson, object, List.map_cons, List.map_nil, commas, field,
    List.length_append, List.length_cons, List.length_nil, e1, e2, MAX_NETWORK_FRAME_BYTES]
  omega

theorem sync_request_length (message : SyncMessage) :
    (NetworkRequest.sync message).toJson.length = message.toJson.length + 21 := by
  have e1 : (string "Sync").length = 6 := by decide
  have e2 : (string "message").length = 9 := by decide
  simp only [NetworkRequest.toJson, object, List.map_cons, List.map_nil, commas, field,
    List.length_append, List.length_cons, List.length_nil, e1, e2]
  omega

theorem hello_request_fits (peer : SyncPeer) :
    (NetworkRequest.sync peer.hello).toJson.length ≤ MAX_NETWORK_FRAME_BYTES := by
  have hhello := hello_fits peer.community
  rw [sync_request_length, SyncPeer.hello]
  simp only [MAX_SYNC_JSON_BYTES] at hhello
  simp only [MAX_NETWORK_FRAME_BYTES]
  omega

theorem sync_request_le_response {messages : List SyncMessage} {message : SyncMessage}
    (h : message ∈ messages) :
    (NetworkRequest.sync message).toJson.length ≤ (NetworkResponse.sync messages).toJson.length := by
  have hmessage := length_le_commas (List.mem_map_of_mem (f := SyncMessage.toJson) h)
  have e1 : (string "Sync").length = 6 := by decide
  have e2 : (string "messages").length = 10 := by decide
  rw [sync_request_length]
  simp only [NetworkResponse.toJson, object, array, List.map_cons, List.map_nil, commas, field,
    List.length_append, List.length_cons, List.length_nil, e1, e2]
  omega

theorem normalizeMessages_fits {messages normalized : List SyncMessage}
    (h : normalizeMessages messages = .ok normalized) :
    (NetworkResponse.sync normalized).toJson.length ≤ MAX_NETWORK_FRAME_BYTES := by
  unfold normalizeMessages at h
  dsimp only at h
  split_ifs at h with hcount hsize
  rw [← Except.ok.inj h]
  omega

theorem rejected_fits (reason : RejectionCode) :
    (NetworkResponse.rejected reason).toJson.length ≤ MAX_NETWORK_FRAME_BYTES := by
  cases reason <;> decide

theorem authenticated_fits :
    NetworkResponse.authenticated.toJson.length ≤ MAX_NETWORK_FRAME_BYTES := by
  decide

theorem challenge_fits (invitation : EventId) (nonce : Bytes BOOTSTRAP_NONCE_BYTES) :
    (NetworkResponse.bootstrapChallenge invitation nonce).toJson.length
      ≤ MAX_NETWORK_FRAME_BYTES := by
  have hinvitation := id_json_length_le invitation
  have hnonce := byteArray_length_le nonce.toList
  have hwidth : nonce.toList.length = 32 := nonce.length_eq
  have e1 : (string "BootstrapChallenge").length = 20 := by decide
  have e2 : (string "invitation").length = 12 := by decide
  have e3 : (string "nonce").length = 7 := by decide
  simp only [NetworkResponse.toJson, object, List.map_cons, List.map_nil, commas, field,
    List.length_append, List.length_cons, List.length_nil, e1, e2, e3, MAX_NETWORK_FRAME_BYTES]
  omega

end ChatCommons
