import ChatCommons.General.Framing
import ChatCommons.Model.NetworkMessage
import ChatCommons.Model.Profile
import ChatCommons.Sample.LengthHash

/-!
The byte strings that the program signs and hashes can be read back.
-/

namespace ChatCommons

open Framing

section Content

structure EventContent.Sized (content : EventContent) : Prop where
  parents : content.parents.length < 2 ^ 32
  eventType : (utf8 content.eventType).length < 2 ^ 32
  payload : content.payload.length < 2 ^ 32

def eventBytes (content : EventContent) (publicKey : Bytes 32) (signature : Bytes 64) :
    ByteString :=
  utf8 "chatcommons:event:v2" ++ [0] ++ canonicalContent content ++ publicKey.toList
    ++ signature.toList

theorem calculateEventId_eq (C : Crypto) (content : EventContent) (publicKey : Bytes 32)
    (signature : Bytes 64) : calculateEventId C (canonicalContent content) publicKey signature =
      ⟨C.blake3 (eventBytes content publicKey signature)⟩ := rfl

theorem delimits_id {kind : IdKind} : Delimits (fun _ : Id kind => True) Id.asBytes :=
  delimits_bytes.comap Id.bytes_injective

theorem delimits_time :
    Delimits (fun _ : Int64 => True) fun time => bigEndian 8 time.toBitVec.toNat := by
  apply delimits_of_length
  · intro time _
    exact bigEndian_length 8 _
  · intro time time' _ _ h
    apply Int64.toBitVec_inj.mp
    apply BitVec.eq_of_toNat_eq
    apply bigEndian_injective _ _ h
    · exact time.toBitVec.isLt.trans_le (by norm_num)
    · exact time'.toBitVec.isLt.trans_le (by norm_num)

theorem delimits_version :
    Delimits (fun _ : UInt16 => True) fun version => bigEndian 2 version.toNat := by
  apply delimits_of_length
  · intro version _
    exact bigEndian_length 2 _
  · intro version version' _ _ h
    apply UInt16.toNat_inj.mp
    apply bigEndian_injective _ _ h
    · exact version.toNat_lt.trans_le (by norm_num)
    · exact version'.toNat_lt.trans_le (by norm_num)

theorem canonicalContent_eq (content : EventContent) : canonicalContent content =
    (utf8 "chatcommons:content:v2" ++ [0]) ++ (bigEndian 2 content.protocolVersion.toNat
      ++ (flagged Id.asBytes content.communityId
      ++ ((bigEndian 4 content.parents.length ++ content.parents.flatMap Id.asBytes)
      ++ (bigEndian 8 content.timestampMs.toBitVec.toNat
      ++ (putBytes (utf8 content.eventType) ++ putBytes content.payload))))) := by
  cases hc : content.communityId <;>
    simp only [canonicalContent, hc, flagged, List.append_assoc]

theorem delimits_content : Delimits EventContent.Sized canonicalContent := by
  intro content content' rest rest' h h' heq
  simp only [canonicalContent_eq, List.append_assoc, List.append_cancel_left_eq] at heq
  obtain ⟨hversion, heq⟩ := delimits_version _ _ _ _ trivial trivial heq
  obtain ⟨hcommunity, heq⟩ := delimits_id.flagged _ _ _ _ (by simp) (by simp) heq
  rw [← List.append_assoc, ← List.append_assoc (bigEndian 4 content'.parents.length)] at heq
  obtain ⟨hparents, heq⟩ := delimits_id.counted 4 _ _ _ _ ⟨h.parents, by simp⟩
    ⟨h'.parents, by simp⟩ heq
  obtain ⟨htime, heq⟩ := delimits_time _ _ _ _ trivial trivial heq
  obtain ⟨htype, heq⟩ := delimits_prefixed 4 _ _ _ _ h.eventType h'.eventType heq
  obtain ⟨hpayload, heq⟩ := delimits_prefixed 4 _ _ _ _ h.payload h'.payload heq
  have htype := utf8_injective htype
  cases content
  cases content'
  simp_all

end Content

/-- What the program has keys sign. -/
inductive Statement
  | content (content : EventContent)
  | acceptance (community : CommunityId) (invitation : EventId) (invitee : UserId)
  | possession (community : CommunityId) (invitation : EventId) (invitee : UserId)
      (deviceId : DeviceId) (clientPeer serverPeer : PeerId) (nonce : Bytes BOOTSTRAP_NONCE_BYTES)
  | certificate (certificate : DeviceCertificate)
  | revocation (revocation : DeviceRevocation)

namespace Statement

variable {C : Crypto} {S : Set PeerId} {s s' : Statement}

def bytes (C : Crypto) : Statement → ByteString
  | .content given => canonicalContent given
  | .acceptance community invitation invitee => acceptanceBytes community invitation invitee
  | .possession community invitation invitee deviceId clientPeer serverPeer nonce =>
    possessionProofBytes C community invitation invitee deviceId clientPeer serverPeer nonce
  | .certificate given => certificateBytes given
  | .revocation given => revocationBytes given

def unsigned : Statement → Statement
  | .certificate given => .certificate { given with signature := [] }
  | .revocation given => .revocation { given with signature := [] }
  | s => s

/-- The lengths that the validators enforce; the peers are among those that `S` names. -/
def Sized (S : Set PeerId) : Statement → Prop
  | .content given => given.Sized
  | .acceptance .. => True
  | .possession _ _ _ _ clientPeer serverPeer _ => clientPeer ∈ S ∧ serverPeer ∈ S
  | .certificate given =>
    given.userPublicKey.length = PUBLIC_KEY_LEN ∧ given.devicePublicKey.length = PUBLIC_KEY_LEN
  | .revocation given => given.userPublicKey.length = PUBLIC_KEY_LEN

def tag : Statement → String
  | .content _ => "chatcommons:content:v2"
  | .acceptance .. => "chatcommons:invite-acceptance:v1"
  | .possession .. => "chatcommons:bootstrap-possession:v1"
  | .certificate _ => "chatcommons:device-certificate:v1"
  | .revocation _ => "chatcommons:device-revocation:v1"

theorem bytes_tagged (C : Crypto) (s : Statement) :
    ∃ body, s.bytes C = (utf8 s.tag ++ [0]) ++ body := by
  have hprefix : (utf8 s.tag ++ [0]) <+: s.bytes C := by
    cases s with
    | content given =>
      rw [bytes, canonicalContent_eq]
      exact List.prefix_append _ _
    | acceptance _ _ _ | possession _ _ _ _ _ _ _ | certificate _ | revocation _ =>
      simp only [bytes, acceptanceBytes, possessionProofBytes, certificateBytes, revocationBytes,
        List.append_assoc, tag, List.prefix_append_right_inj]
      exact List.prefix_append _ _
  obtain ⟨body, hbody⟩ := hprefix
  exact ⟨body, hbody.symm⟩

def tags : List String :=
  ["chatcommons:content:v2", "chatcommons:invite-acceptance:v1",
    "chatcommons:bootstrap-possession:v1", "chatcommons:device-certificate:v1",
    "chatcommons:device-revocation:v1"]

theorem tags_apart : ∀ t ∈ tags, ∀ t' ∈ tags, t ≠ t' →
    ¬ (utf8 t ++ [0]) <+: (utf8 t' ++ [0]) := by decide

theorem tag_mem (s : Statement) : s.tag ∈ tags := by
  cases s <;> simp [tag, tags]

/-- Statements of two kinds are signed as different bytes. -/
theorem bytes_apart (h : s.tag ≠ s'.tag) : s.bytes C ≠ s'.bytes C := by
  obtain ⟨body, hbody⟩ := bytes_tagged C s
  obtain ⟨body', hbody'⟩ := bytes_tagged C s'
  rw [hbody, hbody']
  apply tags_differ
  · exact tags_apart _ (tag_mem s) _ (tag_mem s') h
  · exact tags_apart _ (tag_mem s') _ (tag_mem s) h.symm

theorem acceptance_injective {community community' : CommunityId} {invitation invitation' : EventId}
    {invitee invitee' : UserId} (heq : acceptanceBytes community invitation invitee =
      acceptanceBytes community' invitation' invitee') :
    community = community' ∧ invitation = invitation' ∧ invitee = invitee' := by
  simp only [acceptanceBytes, List.append_assoc, List.append_cancel_left_eq] at heq
  obtain ⟨hcommunity, heq⟩ := delimits_id _ _ _ _ trivial trivial heq
  obtain ⟨hinvitation, heq⟩ := delimits_id _ _ _ _ trivial trivial heq
  exact ⟨hcommunity, hinvitation, delimits_id.injective trivial trivial heq⟩

theorem possession_injective (hS : Set.InjOn (fun peer : PeerId => C.blake3 peer.toBytes) S)
    {community community' : CommunityId} {invitation invitation' : EventId}
    {invitee invitee' : UserId} {deviceId deviceId' : DeviceId}
    {client client' server server' : PeerId} {nonce nonce' : Bytes BOOTSTRAP_NONCE_BYTES}
    (hclient : client ∈ S) (hclient' : client' ∈ S) (hserver : server ∈ S) (hserver' : server' ∈ S)
    (heq : possessionProofBytes C community invitation invitee deviceId client server nonce =
      possessionProofBytes C community' invitation' invitee' deviceId' client' server' nonce') :
    possession community invitation invitee deviceId client server nonce =
      possession community' invitation' invitee' deviceId' client' server' nonce' := by
  simp only [possessionProofBytes, List.append_assoc, List.append_cancel_left_eq] at heq
  obtain ⟨hcommunity, heq⟩ := delimits_id _ _ _ _ trivial trivial heq
  obtain ⟨hinvitation, heq⟩ := delimits_id _ _ _ _ trivial trivial heq
  obtain ⟨hinvitee, heq⟩ := delimits_id _ _ _ _ trivial trivial heq
  obtain ⟨hdevice, heq⟩ := delimits_id _ _ _ _ trivial trivial heq
  obtain ⟨hclients, heq⟩ := delimits_bytes _ _ _ _ trivial trivial heq
  obtain ⟨hservers, heq⟩ := delimits_bytes _ _ _ _ trivial trivial heq
  rw [hcommunity, hinvitation, hinvitee, hdevice, hS hclient hclient' hclients,
    hS hserver hserver' hservers, Bytes.toList_injective heq]

theorem certificate_injective {given other : DeviceCertificate}
    (huser : given.userPublicKey.length = PUBLIC_KEY_LEN)
    (huser' : other.userPublicKey.length = PUBLIC_KEY_LEN)
    (hdevice : given.devicePublicKey.length = PUBLIC_KEY_LEN)
    (hdevice' : other.devicePublicKey.length = PUBLIC_KEY_LEN)
    (heq : certificateBytes given = certificateBytes other) :
    { given with signature := [] } = { other with signature := [] } := by
  simp only [certificateBytes, List.append_assoc, List.append_cancel_left_eq] at heq
  obtain ⟨hversions, heq⟩ := delimits_version _ _ _ _ trivial trivial heq
  obtain ⟨husers, heq⟩ := delimits_fixed _ _ _ _ huser huser' heq
  obtain ⟨hdevices, heq⟩ := delimits_fixed _ _ _ _ hdevice hdevice' heq
  rw [hversions, husers, hdevices, delimits_time.injective trivial trivial heq]

theorem revocation_injective {given other : DeviceRevocation}
    (huser : given.userPublicKey.length = PUBLIC_KEY_LEN)
    (huser' : other.userPublicKey.length = PUBLIC_KEY_LEN)
    (heq : revocationBytes given = revocationBytes other) :
    { given with signature := [] } = { other with signature := [] } := by
  simp only [revocationBytes, List.append_assoc, List.append_cancel_left_eq] at heq
  obtain ⟨hversions, heq⟩ := delimits_version _ _ _ _ trivial trivial heq
  obtain ⟨husers, heq⟩ := delimits_fixed _ _ _ _ huser huser' heq
  obtain ⟨hdevices, heq⟩ := delimits_id _ _ _ _ trivial trivial heq
  rw [hversions, husers, hdevices, delimits_time.injective trivial trivial heq]

theorem bytes_unsigned (C : Crypto) (s : Statement) : s.unsigned.bytes C = s.bytes C := by
  cases s <;> rfl

/-- What is hashed for an event tells the event, and what is signed tells its kind and all it
says. -/
theorem encodings_unambiguous
    (hS : Set.InjOn (fun peer : PeerId => C.blake3 peer.toBytes) S) :
    (∀ content content' publicKey publicKey' signature signature',
      content.Sized → content'.Sized →
      eventBytes content publicKey signature = eventBytes content' publicKey' signature' →
      content = content' ∧ publicKey = publicKey' ∧ signature = signature') ∧
    ∀ s s' : Statement, s.Sized S → s'.Sized S →
      (s.bytes C = s'.bytes C ↔ s.unsigned = s'.unsigned) := by
  constructor
  · intro content content' publicKey publicKey' signature signature' h h' heq
    simp only [eventBytes, List.append_assoc, List.append_cancel_left_eq] at heq
    obtain ⟨hcontent, heq⟩ := delimits_content _ _ _ _ h h' heq
    obtain ⟨hkey, heq⟩ := delimits_bytes _ _ _ _ trivial trivial heq
    exact ⟨hcontent, hkey, Bytes.toList_injective heq⟩
  · intro s s' h h'
    constructor
    · intro heq
      have htag : s.tag = s'.tag := not_imp_comm.mp bytes_apart (not_not.mpr heq)
      cases s with
      | content given =>
        cases s' with
        | content other => exact congrArg content (delimits_content.injective h h' heq)
        | _ => exact absurd htag (by simp [tag])
      | acceptance community invitation invitee =>
        cases s' with
        | acceptance _ _ _ =>
          obtain ⟨rfl, rfl, rfl⟩ := acceptance_injective heq
          rfl
        | _ => exact absurd htag (by simp [tag])
      | possession _ _ _ _ _ _ _ =>
        cases s' with
        | possession _ _ _ _ _ _ _ => exact possession_injective hS h.1 h'.1 h.2 h'.2 heq
        | _ => exact absurd htag (by simp [tag])
      | certificate given =>
        cases s' with
        | certificate other =>
          exact congrArg certificate (certificate_injective h.1 h'.1 h.2 h'.2 heq)
        | _ => exact absurd htag (by simp [tag])
      | revocation given =>
        cases s' with
        | revocation other => exact congrArg revocation (revocation_injective h h' heq)
        | _ => exact absurd htag (by simp [tag])
    · intro heq
      rw [← bytes_unsigned C s, heq, bytes_unsigned]

section Example

open Sample

def peerOf (n : ℕ) : PeerId := ⟨bigEndian 32 n⟩

theorem hash_peers_injOn :
    Set.InjOn (fun peer : PeerId => crypto.blake3 peer.toBytes) {peerOf 1, peerOf 2} := by
  have hne : crypto.blake3 (peerOf 1).toBytes ≠ crypto.blake3 (peerOf 2).toBytes := by decide
  rintro _ (rfl | rfl) _ (rfl | rfl) heq
  · rfl
  · exact absurd heq hne
  · exact absurd heq.symm hne
  · rfl

def possessed (client server : PeerId) : Statement :=
  possession ⟨bigEndianBytes 32 3⟩ (idOf 4) ⟨bigEndianBytes 32 5⟩ ⟨bigEndianBytes 32 6⟩ client server
    (bigEndianBytes 32 7)

/-- A proof does not serve with the two peers exchanged. -/
theorem encodings_unambiguous_exchanged :
    ¬ (possessed (peerOf 1) (peerOf 2)).bytes crypto =
      (possessed (peerOf 2) (peerOf 1)).bytes crypto := by
  have h := (encodings_unambiguous hash_peers_injOn).2 (possessed (peerOf 1) (peerOf 2))
    (possessed (peerOf 2) (peerOf 1)) ⟨by simp, by simp⟩ ⟨by simp, by simp⟩
  rw [h]
  intro heq
  have hpeers : peerOf 1 = peerOf 2 := by
    injection heq
  exact absurd hpeers (by decide)

end Example

end Statement

end ChatCommons
