import ChatCommons.General.Collections
import ChatCommons.Model.Protocol

namespace ChatCommons

open Collections

def PROFILE_ID : String := "chatcommons.chat.v2"
def GENESIS_TYPE : String := "chat.community.create"
def MAX_HOME_SERVER_ENDPOINTS : ℕ := 8
def MAX_HOME_SERVER_ENDPOINT_BYTES : ℕ := 512

def HomeServerId.fromPublicKey (C : Crypto) (publicKey : Bytes 32) : HomeServerId :=
  ⟨C.blake3 (utf8 "chatcommons:home-server-id:v1" ++ [0] ++ publicKey.toList)⟩

structure HomeServerBinding where
  declaration : EventId
  serverId : HomeServerId
  serverPublicKey : Bytes 32
  endpoints : List String
  historyHeads : List EventId
deriving DecidableEq

instance channelId_transCmp : Std.TransCmp (compare : Bytes 32 → Bytes 32 → Ordering) :=
  inferInstance

inductive ChatPayload
  | communityCreate (profile name : String)
  | channelCreate (channelId : Bytes 32) (name : String)
  | memberInvite (capabilityPublicKey : ByteString)
  | memberAccept (invitation : EventId) (capabilitySignature : ByteString)
  | memberRemove (member : UserId)
  | messageCreate (channelId : Bytes 32) (text : String)
  | administratorGrant (member : UserId)
  | administratorRevoke (member : UserId)
  | ownershipTransfer (newOwner : UserId)
  | homeServerSet (serverPublicKey : ByteString) (endpoints : List String)
deriving DecidableEq

namespace ChatPayload

def eventType : ChatPayload → String
  | communityCreate .. => GENESIS_TYPE
  | channelCreate .. => "chat.channel.create"
  | memberInvite .. => "chat.member.invite"
  | memberAccept .. => "chat.member.accept"
  | memberRemove .. => "chat.member.remove"
  | messageCreate .. => "chat.message.create"
  | administratorGrant .. => "chat.admin.grant"
  | administratorRevoke .. => "chat.admin.revoke"
  | ownershipTransfer .. => "chat.ownership.transfer"
  | homeServerSet .. => "chat.home-server.set"

def isCommunityCreate : ChatPayload → Bool
  | communityCreate .. => true
  | _ => false

open JsonText in
/-- `serde_json::to_vec` on the derived, externally tagged representation. -/
def toVec : ChatPayload → ByteString
  | communityCreate profile name =>
    object [("CommunityCreate", object [("profile", string profile), ("name", string name)])]
  | channelCreate channelId name =>
    object [("ChannelCreate",
      object [("channel_id", byteArray channelId.toList), ("name", string name)])]
  | memberInvite capabilityPublicKey =>
    object [("MemberInvite", object [("capability_public_key", byteArray capabilityPublicKey)])]
  | memberAccept invitation capabilitySignature =>
    object [("MemberAccept",
      object [("invitation", byteArray invitation.asBytes),
        ("capability_signature", byteArray capabilitySignature)])]
  | memberRemove member =>
    object [("MemberRemove", object [("member", byteArray member.asBytes)])]
  | messageCreate channelId text =>
    object [("MessageCreate",
      object [("channel_id", byteArray channelId.toList), ("text", string text)])]
  | administratorGrant member =>
    object [("AdministratorGrant", object [("member", byteArray member.asBytes)])]
  | administratorRevoke member =>
    object [("AdministratorRevoke", object [("member", byteArray member.asBytes)])]
  | ownershipTransfer newOwner =>
    object [("OwnershipTransfer", object [("new_owner", byteArray newOwner.asBytes)])]
  | homeServerSet serverPublicKey endpoints =>
    object [("HomeServerSet",
      object [("server_public_key", byteArray serverPublicKey),
        ("endpoints", array (endpoints.map string))])]

end ChatPayload

/-- `serde_json::from_slice::<ChatPayload>`. -/
abbrev PayloadReader := ByteString → Option ChatPayload

inductive ChatError
  | protocol (error : ProtocolError)
  | payload
  | typeMismatch
deriving DecidableEq

inductive RejectionReason
  | invalidPayload | missingParent | parentRejected | wrongCommunity | notMember
  | notAdministrator | notOwner | invalidInvitation | memberNotActive | alreadyAdministrator
  | cannotRemoveOwner | unknownChannel | invalidHomeServer
deriving DecidableEq

structure State where
  community : Option CommunityId := none
  owner : Option UserId := none
  members : BTreeSet UserId := ∅
  administrators : BTreeSet UserId := ∅
  channels : BTreeSet (Bytes 32) := ∅
  invitations : BTreeMap EventId ByteString := ∅
  acceptedInvitations : BTreeSet EventId := ∅
  homeServer : Option HomeServerBinding := none

def createChatGenesis (C : Crypto) (identity : Identity) (name : String) (timestampMs : Int64) :
    SignedEvent :=
  createGenesis C identity GENESIS_TYPE (ChatPayload.communityCreate PROFILE_ID name).toVec
    timestampMs

def createChatEvent (C : Crypto) (identity : Identity) (community : CommunityId)
    (parents : List EventId) (timestampMs : Int64) (payload : ChatPayload) : SignedEvent :=
  createSigned C
    { protocolVersion := PROTOCOL_VERSION
      communityId := some community
      parents
      timestampMs
      eventType := payload.eventType
      payload := payload.toVec } identity

def decode (J : PayloadReader) (event : SignedEvent) : Except ChatError ChatPayload :=
  match J event.content.payload with
  | none => .error .payload
  | some payload =>
    if payload.eventType ≠ event.content.eventType then .error .typeMismatch
    else
      match payload with
      | .communityCreate profile _ =>
        if profile ≠ PROFILE_ID then .error .typeMismatch else .ok payload
      | _ => .ok payload

def priority : ChatPayload → ℕ
  | .communityCreate .. => 0
  | .memberRemove .. | .administratorRevoke .. => 1
  | _ => 2

def acceptanceBytes (community : CommunityId) (invitation : EventId) (invitee : UserId) :
    ByteString :=
  utf8 "chatcommons:invite-acceptance:v1" ++ [0] ++ community.asBytes ++ invitation.asBytes
    ++ invitee.asBytes

def requireAdmin (state : State) (author : UserId) : Except RejectionReason Unit :=
  if author ∈ state.administrators then .ok () else .error .notAdministrator

def requireOwner (state : State) (author : UserId) : Except RejectionReason Unit :=
  if state.owner = some author then .ok () else .error .notOwner

def isAsciiWhitespace (byte : UInt8) : Bool :=
  byte == 32 || byte == 9 || byte == 10 || byte == 12 || byte == 13

def isAsciiControl (byte : UInt8) : Bool := byte < 32 || byte == 127

def validateEndpoints (unique : BTreeSet String) : List String → Except RejectionReason Unit
  | [] => .ok ()
  | endpoint :: endpoints =>
    if endpoint.isEmpty
        || endpoint.utf8ByteSize > MAX_HOME_SERVER_ENDPOINT_BYTES
        || !(utf8 endpoint).all (· < 128)
        || (utf8 endpoint).any (fun byte => isAsciiWhitespace byte || isAsciiControl byte)
        || unique.contains endpoint then
      .error .invalidHomeServer
    else validateEndpoints (unique.insert endpoint) endpoints

def validateHomeServer (serverPublicKey : ByteString) (endpoints : List String) :
    Except RejectionReason Unit :=
  if serverPublicKey.length ≠ PUBLIC_KEY_LEN ∨ endpoints.isEmpty
      ∨ endpoints.length > MAX_HOME_SERVER_ENDPOINTS then
    .error .invalidHomeServer
  else validateEndpoints ∅ endpoints

def validateContext (C : Crypto) (state : State) (event : SignedEvent) (payload : ChatPayload)
    (author : UserId) (accepted : BTreeSet EventId) : Except RejectionReason Unit :=
  if payload.isCommunityCreate then
    if state.community.isNone then .ok () else .error .wrongCommunity
  else if event.content.communityId ≠ state.community then .error .wrongCommunity
  else if event.content.parents.any (fun parent => parent ∉ accepted) then .error .parentRejected
  else
    match payload with
    | .communityCreate .. => .ok ()
    | .channelCreate .. => requireAdmin state author
    | .memberInvite capabilityPublicKey => do
      requireAdmin state author
      if capabilityPublicKey.length = PUBLIC_KEY_LEN then .ok () else .error .invalidInvitation
    | .memberAccept invitation capabilitySignature =>
      match state.invitations[invitation]? with
      | none => .error .invalidInvitation
      | some publicKey =>
        if invitation ∈ state.acceptedInvitations ∨ capabilitySignature.length ≠ SIGNATURE_LEN then
          .error .invalidInvitation
        else
          match event.content.communityId with
          | none => .error .wrongCommunity
          | some community =>
            match verify C publicKey (acceptanceBytes community invitation author)
                capabilitySignature with
            | .ok _ => .ok ()
            | .error _ => .error .invalidInvitation
    | .memberRemove member => do
      requireAdmin state author
      if state.owner = some member then .error .cannotRemoveOwner
      else if member ∈ state.members then .ok ()
      else .error .memberNotActive
    | .messageCreate channelId _ =>
      if author ∉ state.members then .error .notMember
      else if channelId ∉ state.channels then .error .unknownChannel
      else .ok ()
    | .administratorGrant member => do
      requireOwner state author
      if member ∉ state.members then .error .memberNotActive
      else if member ∈ state.administrators then .error .alreadyAdministrator
      else .ok ()
    | .administratorRevoke member => do
      requireOwner state author
      if state.owner = some member then .error .cannotRemoveOwner
      else if member ∈ state.administrators then .ok ()
      else .error .notAdministrator
    | .ownershipTransfer newOwner => do
      requireOwner state author
      if newOwner ∈ state.members then .ok () else .error .memberNotActive
    | .homeServerSet serverPublicKey endpoints => do
      requireOwner state author
      validateHomeServer serverPublicKey endpoints

def apply (C : Crypto) (state : State) (event : SignedEvent) (payload : ChatPayload)
    (author : UserId) : State :=
  match payload with
  | .communityCreate .. =>
    { state with
      community := some event.eventId.toCommunity
      owner := some author
      members := state.members.insert author
      administrators := state.administrators.insert author }
  | .channelCreate channelId _ => { state with channels := state.channels.insert channelId }
  | .memberInvite capabilityPublicKey =>
    { state with invitations := state.invitations.insert event.eventId capabilityPublicKey }
  | .memberAccept invitation _ =>
    { state with
      acceptedInvitations := state.acceptedInvitations.insert invitation
      members := state.members.insert author }
  | .memberRemove member =>
    { state with
      members := state.members.erase member
      administrators := state.administrators.erase member }
  | .messageCreate .. => state
  | .administratorGrant member =>
    { state with administrators := state.administrators.insert member }
  | .administratorRevoke member =>
    { state with administrators := state.administrators.erase member }
  | .ownershipTransfer newOwner =>
    { state with
      owner := some newOwner
      administrators := state.administrators.insert newOwner }
  | .homeServerSet serverPublicKey endpoints =>
    match Bytes.ofList? 32 serverPublicKey with
    | none => state
    | some publicKey =>
      { state with
        homeServer := some
          { declaration := event.eventId
            serverId := HomeServerId.fromPublicKey C publicKey
            serverPublicKey := publicKey
            endpoints
            historyHeads := event.content.parents } }

end ChatCommons
