import ChatCommons.Model.Auth
import ChatCommons.Model.SyncPeer

namespace ChatCommons

open Collections

def MAX_NETWORK_FRAME_BYTES : ℕ := 1024 * 1024
def MAX_MESSAGES_PER_FRAME : ℕ := 64
def MAX_BOOTSTRAP_ANCESTRY_EVENTS : ℕ := 256
def BOOTSTRAP_NONCE_BYTES : ℕ := 32

inductive RejectionCode
  | invalidCertificate | peerIdMismatch | userNotAllowed | deviceRevoked | notAuthenticated
  | invalidSync | invalidBootstrap | invitationUnavailable | bootstrapNotApproved | frameLimit
deriving DecidableEq

def RejectionCode.name : RejectionCode → String
  | .invalidCertificate => "InvalidCertificate"
  | .peerIdMismatch => "PeerIdMismatch"
  | .userNotAllowed => "UserNotAllowed"
  | .deviceRevoked => "DeviceRevoked"
  | .notAuthenticated => "NotAuthenticated"
  | .invalidSync => "InvalidSync"
  | .invalidBootstrap => "InvalidBootstrap"
  | .invitationUnavailable => "InvitationUnavailable"
  | .bootstrapNotApproved => "BootstrapNotApproved"
  | .frameLimit => "FrameLimit"

inductive NetworkRequest
  | authenticate (certificate : DeviceCertificate)
  | sync (message : SyncMessage)
  | bootstrapBegin (certificate : DeviceCertificate) (invitation : EventId)
  | bootstrapProve (invitation : EventId) (signature : ByteString)
  | bootstrapAccept (invitation : EventId) (acceptance : SignedEvent)
deriving DecidableEq

inductive NetworkResponse
  | authenticated
  | sync (messages : List SyncMessage)
  | bootstrapChallenge (invitation : EventId) (nonce : Bytes BOOTSTRAP_NONCE_BYTES)
  | bootstrapAncestry (invitation : EventId) (events : List SignedEvent)
  | bootstrapAccepted
  | rejected (reason : RejectionCode)
deriving DecidableEq

open JsonText

def NetworkRequest.toJson : NetworkRequest → ByteString
  | .authenticate certificate =>
    object [("Authenticate", object [("certificate", certificate.toJson)])]
  | .sync message => object [("Sync", object [("message", message.toJson)])]
  | .bootstrapBegin certificate invitation =>
    object [("BootstrapBegin", object [
      ("certificate", certificate.toJson),
      ("invitation", byteArray invitation.asBytes)])]
  | .bootstrapProve invitation signature =>
    object [("BootstrapProve", object [
      ("invitation", byteArray invitation.asBytes),
      ("signature", byteArray signature)])]
  | .bootstrapAccept invitation acceptance =>
    object [("BootstrapAccept", object [
      ("invitation", byteArray invitation.asBytes),
      ("acceptance", acceptance.toJson)])]

def NetworkResponse.toJson : NetworkResponse → ByteString
  | .authenticated => string "Authenticated"
  | .sync messages =>
    object [("Sync", object [("messages", array (messages.map SyncMessage.toJson))])]
  | .bootstrapChallenge invitation nonce =>
    object [("BootstrapChallenge", object [
      ("invitation", byteArray invitation.asBytes),
      ("nonce", byteArray nonce.toList)])]
  | .bootstrapAncestry invitation events =>
    object [("BootstrapAncestry", object [
      ("invitation", byteArray invitation.asBytes),
      ("events", array (events.map SignedEvent.toJson))])]
  | .bootstrapAccepted => string "BootstrapAccepted"
  | .rejected reason => object [("Rejected", object [("reason", string reason.name)])]

/-- One `Want` for each id; the other messages stay. -/
def splitWants (messages : List SyncMessage) : List SyncMessage :=
  messages.flatMap fun message =>
    match message with
    | .want community eventIds => eventIds.map fun id => .want community [id]
    | other => [other]

def normalizeMessages (messages : List SyncMessage) : Except RejectionCode (List SyncMessage) :=
  let normalized := splitWants messages
  if normalized.length > MAX_MESSAGES_PER_FRAME then .error .frameLimit
  else if (NetworkResponse.sync normalized).toJson.length > MAX_NETWORK_FRAME_BYTES then
    .error .frameLimit
  else .ok normalized

def possessionProofBytes (C : Crypto) (community : CommunityId) (invitation : EventId)
    (invitee : UserId) (deviceId : DeviceId) (clientPeer serverPeer : PeerId)
    (nonce : Bytes BOOTSTRAP_NONCE_BYTES) : ByteString :=
  utf8 "chatcommons:bootstrap-possession:v1" ++ [0]
    ++ community.asBytes
    ++ invitation.asBytes
    ++ invitee.asBytes
    ++ deviceId.asBytes
    ++ (C.blake3 clientPeer.toBytes).toList
    ++ (C.blake3 serverPeer.toBytes).toList
    ++ nonce.toList

end ChatCommons
