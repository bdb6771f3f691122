import ChatCommons.Model.Profile

namespace ChatCommons

def INVITE_PACKAGE_VERSION : ℕ := 1
def MAX_INVITE_PACKAGE_BYTES : ℕ := 4 * 1024

inductive InviteError
  | tooLarge | json | unsupportedVersion | invalidSecret | invitationMismatch
  | invalidInvitationEvent (error : ChatError)
deriving DecidableEq

structure InviteCapability where
  seed : Bytes 32

namespace InviteCapability

variable (C : Crypto) (capability : InviteCapability)

def publicKey : Bytes 32 := (Identity.mk capability.seed).publicKey C

def invitationPayload : ChatPayload := .memberInvite (capability.publicKey C).toList

def sign (message : ByteString) : Bytes 64 := (Identity.mk capability.seed).sign C message

def signAcceptance (community : CommunityId) (invitation : EventId) (invitee : UserId) :
    ByteString :=
  (capability.sign C (acceptanceBytes community invitation invitee)).toList

end InviteCapability

structure InvitePackage where
  version : UInt16
  community : CommunityId
  invitation : EventId
  capabilitySecret : ByteString
deriving DecidableEq

open JsonText in
def InvitePackage.toJson (package : InvitePackage) : ByteString :=
  object [
    ("version", decimal package.version.toNat),
    ("community", byteArray package.community.asBytes),
    ("invitation", byteArray package.invitation.asBytes),
    ("capability_secret", byteArray package.capabilitySecret)]

/-- `serde_json::from_slice::<InvitePackage>`. -/
abbrev PackageReader := ByteString → Option InvitePackage

def InviteCapability.package (capability : InviteCapability) (community : CommunityId)
    (invitation : EventId) : InvitePackage where
  version := UInt16.ofNat INVITE_PACKAGE_VERSION
  community := community
  invitation := invitation
  capabilitySecret := capability.seed.toList

def InviteCapability.encodePackage (capability : InviteCapability) (community : CommunityId)
    (invitation : EventId) : Except InviteError ByteString :=
  .ok (capability.package community invitation).toJson

def parseInvitePackage (R : PackageReader) (bytes : ByteString) :
    Except InviteError InvitePackage :=
  if bytes.length > MAX_INVITE_PACKAGE_BYTES then .error .tooLarge
  else
    match R bytes with
    | none => .error .json
    | some package => .ok package

structure PreparedInvite where
  community : CommunityId
  invitation : EventId
  capability : InviteCapability

/-- Made by `validate`: the event of the invitation publishes the key of the capability. -/
structure ValidatedInvite where
  community : CommunityId
  invitation : EventId
  capability : InviteCapability

def InvitePackage.prepare (package : InvitePackage) : Except InviteError PreparedInvite :=
  if package.version.toNat ≠ INVITE_PACKAGE_VERSION then .error .unsupportedVersion
  else
    match Bytes.ofList? 32 package.capabilitySecret with
    | none => .error .invalidSecret
    | some seed => .ok
        { community := package.community
          invitation := package.invitation
          capability := ⟨seed⟩ }

variable (C : Crypto) (J : PayloadReader)

def PreparedInvite.signPossessionProof (invite : PreparedInvite) (proofBytes : ByteString) :
    Bytes 64 := invite.capability.sign C proofBytes

def PreparedInvite.validate (invite : PreparedInvite) (invitationEvent : SignedEvent) :
    Except InviteError ValidatedInvite :=
  match validateEvent C invitationEvent with
  | .error error => .error (.invalidInvitationEvent (.protocol error))
  | .ok _ =>
    match decode J invitationEvent with
    | .error error => .error (.invalidInvitationEvent error)
    | .ok payload =>
      if invitationEvent.eventId = invite.invitation
          ∧ invitationEvent.content.communityId = some invite.community
          ∧ payload = .memberInvite (invite.capability.publicKey C).toList then
        .ok ⟨invite.community, invite.invitation, invite.capability⟩
      else .error .invitationMismatch

namespace ValidatedInvite

def acceptancePayload (invite : ValidatedInvite) (identity : Identity) : ChatPayload :=
  .memberAccept invite.invitation
    (invite.capability.signAcceptance C invite.community invite.invitation (identity.userId C))

def createAcceptance (invite : ValidatedInvite) (identity : Identity) (parents : List EventId)
    (timestampMs : Int64) : SignedEvent :=
  createChatEvent C identity invite.community parents timestampMs
    (invite.acceptancePayload C identity)

end ValidatedInvite

end ChatCommons
