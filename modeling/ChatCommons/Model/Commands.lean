import ChatCommons.Model.Archive
import ChatCommons.Model.Bootstrap
import ChatCommons.Model.Resolver

namespace ChatCommons

open Collections

def MAX_CHANNEL_NAME_BYTES : ℕ := 80
def MAX_MESSAGE_BYTES : ℕ := 4000

inductive NetworkRole
  | peer | homeServer
deriving DecidableEq

inductive CliError
  | arguments (reason : String)
  | node (error : NodeError)
  | chat (error : ChatError)
  | sync (error : SyncError)
  | network (error : NetworkError)
  | invite (error : InviteError)
  | archive (error : ArchiveError)
  | bootstrap (error : BootstrapError)
  | output (reason : String)
  | invalidSystemTime | databaseNotEmpty | missingInvitation | profileRejected
  | untrustedBootstrapEndpoint | missingHomeServer | wrongHomeServerIdentity
  | invalidHomeServerPublicKey | unsupportedHomeServerEndpoint | incompleteArchive
deriving DecidableEq

variable (C : Crypto) (J : PayloadReader)

def resolveCli (events : List SignedEvent) : Except CliError ChatResolution :=
  match resolve C J events with
  | .error error => .error (.chat error)
  | .ok resolution => .ok resolution

namespace CoreNode

def allEventsCli (core : CoreNode) : Except CliError (List SignedEvent) :=
  match core.allEvents C with
  | .error error => .error (.node error)
  | .ok events => .ok events

def ancestryCli (core : CoreNode) (id : EventId) : Except CliError (List SignedEvent) :=
  match core.ancestry C id MAX_BOOTSTRAP_ANCESTRY_EVENTS with
  | .error error => .error (.node error)
  | .ok events => .ok events

/-- The event that the writing commands build on `core.heads()`. -/
def createAtHeads (core : CoreNode) (user : Identity) (community : CommunityId)
    (timestampMs : Int64) (payload : ChatPayload) : Except CliError SignedEvent :=
  match core.heads C with
  | .error error => .error (.node error)
  | .ok heads => .ok (createChatEvent C user community heads timestampMs payload)

def requireCandidateAccepted (core : CoreNode) (candidate : SignedEvent) :
    Except CliError Unit := do
  let events ← core.allEventsCli C
  let resolution ← resolveCli C J (events ++ [candidate])
  if candidate.eventId ∈ resolution.snapshot.eventIds then .ok () else .error .profileRejected

/-- The last steps of `create-channel` and `send-message`. -/
def publish (core : CoreNode) (user : Identity) (community : CommunityId) (timestampMs : Int64)
    (payload : ChatPayload) : CoreNode × Except CliError SignedEvent :=
  match core.createAtHeads C user community timestampMs payload with
  | .error error => (core, .error error)
  | .ok event =>
    match core.requireCandidateAccepted C J event with
    | .error error => (core, .error error)
    | .ok _ =>
      match core.ingest C [event] with
      | (core, .error error) => (core, .error (.node error))
      | (core, .ok _) => (core, .ok event)

end CoreNode

/-- `text` is the option value after `trim`. -/
def commandSendMessage (core : CoreNode) (user : Identity) (community : CommunityId)
    (timestampMs : Int64) (channelId : Bytes 32) (text : String) :
    CoreNode × Except CliError SignedEvent :=
  if text.isEmpty || text.utf8ByteSize > MAX_MESSAGE_BYTES then
    (core, .error (.arguments "message must contain 1 to 4000 UTF-8 bytes"))
  else core.publish C J user community timestampMs (.messageCreate channelId text)

/-- `name` is the option value after `trim`, and `channelId` comes from `OsRng`. -/
def commandCreateChannel (core : CoreNode) (user : Identity) (community : CommunityId)
    (timestampMs : Int64) (channelId : Bytes 32) (name : String) :
    CoreNode × Except CliError SignedEvent :=
  if name.isEmpty || name.utf8ByteSize > MAX_CHANNEL_NAME_BYTES then
    (core, .error (.arguments "channel name must contain 1 to 80 UTF-8 bytes"))
  else core.publish C J user community timestampMs (.channelCreate channelId name)

def liftBootstrap {α : Type} : Except BootstrapError α → Except CliError α
  | .error error => .error (.bootstrap error)
  | .ok value => .ok value

def liftInvite {α : Type} : Except InviteError α → Except CliError α
  | .error error => .error (.invite error)
  | .ok value => .ok value

section Invitations

variable (P : PeerNames) (F : TextForms)

/-- `try_from_bytes` and `to_peer_id` are `PeerNames`, and `Multiaddr::from_str` is
`readAddress`. -/
def homeServerTarget (binding : HomeServerBinding) : Except CliError (PeerId × Multiaddr) :=
  match P binding.serverPublicKey with
  | none => .error .invalidHomeServerPublicKey
  | some peer =>
    match binding.endpoints.findSome? F.readAddress with
    | none => .error .unsupportedHomeServerEndpoint
    | some address => .ok (peer, address)

/-- `address` is the parsed `--address`, and `capability` is what `InviteCapability::generate`
draws. -/
def commandCreateInvite (core : CoreNode) (user : Identity) (device : DeviceIdentity)
    (community : CommunityId) (address : Option Multiaddr) (timestampMs : Int64)
    (capability : InviteCapability) : CoreNode × Except CliError (EventId × ByteString) :=
  let plan : Except CliError (SignedEvent × ByteString) := do
    let existing ← core.allEventsCli C
    let (bootstrapPeer, address) ← match address with
      | some address => .ok (device.peerId, address)
      | none => do
        let profile ← resolveCli C J existing
        match profile.snapshot.homeServer with
        | none => .error .missingHomeServer
        | some binding => homeServerTarget P F binding
    let invitation ← core.createAtHeads C user community timestampMs
      (capability.invitationPayload C)
    let resolution ← resolveCli C J (existing ++ [invitation])
    if invitation.eventId ∉ resolution.snapshot.eventIds
        ∨ invitation.eventId ∉ resolution.snapshot.activeInvitations then
      .error .profileRejected
    else
      let package ← liftInvite (capability.encodePackage community invitation.eventId)
      let code ← liftBootstrap (createCode F package bootstrapPeer address)
      return (invitation, code)
  match plan with
  | .error error => (core, .error error)
  | .ok (invitation, code) =>
    match core.ingest C [invitation] with
    | (core, .error error) => (core, .error (.node error))
    | (core, .ok _) => (core, .ok (invitation.eventId, code))

end Invitations

section Authorization

/-- The loop over `active_invitations` that collects the bootstrap grants. -/
def collectGrants (core : CoreNode) : List (EventId × Bytes 32) →
    Except CliError (List BootstrapGrant)
  | [] => .ok []
  | (invitation, capabilityPublicKey) :: rest => do
    let ancestry ← core.ancestryCli C invitation
    let grants ← collectGrants core rest
    return { invitation, capabilityPublicKey, ancestry } :: grants

def isHomeServer (snapshot : ChatSnapshot) (localDevicePublicKey : Bytes 32) : Bool :=
  snapshot.homeServer.any fun binding => binding.serverPublicKey = localDevicePublicKey

def requireRole (snapshot : ChatSnapshot) (role : NetworkRole) (localDevicePublicKey : Bytes 32) :
    Except CliError Unit :=
  if role = .homeServer && !isHomeServer snapshot localDevicePublicKey then
    .error (if snapshot.homeServer.isSome then .wrongHomeServerIdentity else .missingHomeServer)
  else .ok ()

/-- `allowed_users.extend(members)`. -/
def extendUsers (users members : BTreeSet UserId) : BTreeSet UserId :=
  members.toList.foldl (fun users member => users.insert member) users

def trustedDevices (snapshot : ChatSnapshot) : BTreeSet DeviceId :=
  setOf (snapshot.homeServer.toList.map fun binding =>
    DeviceId.fromPublicKey C binding.serverPublicKey)

def refreshNetworkAuthorization (explicitAllowedUsers : BTreeSet UserId) (role : NetworkRole)
    (localDevicePublicKey : Bytes 32) (network : NetworkNode) :
    NetworkNode × Except CliError Unit :=
  let plan : Except CliError (ChatSnapshot × List BootstrapGrant) := do
    let events ← network.sync.node.allEventsCli C
    let profile ← resolveCli C J events
    requireRole profile.snapshot role localDevicePublicKey
    let grants ← collectGrants C network.sync.node profile.snapshot.activeInvitations.toList
    return (profile.snapshot, grants)
  match plan with
  | .error error => (network, .error error)
  | .ok (snapshot, grants) =>
    let network := network.replaceAuthorization
      (extendUsers explicitAllowedUsers snapshot.members) (trustedDevices C snapshot)
    match NetworkNode.replaceBootstrapGrants C grants network with
    | .error error network => (network, .error (.network error))
    | .ok _ network => (network, .ok ())

/-- The part of `command_network` between `resolve` and `listen`, for the opened store. -/
def startNetwork (P : PeerNames) (core : CoreNode) (community : CommunityId)
    (explicitAllowedUsers : BTreeSet UserId) (role : NetworkRole) (maxStoreBytes : Option ℕ)
    (device : DeviceIdentity) (certificate : DeviceCertificate) :
    Except CliError NetworkNode := do
  let events ← core.allEventsCli C
  let profile ← resolveCli C J events
  requireRole profile.snapshot role device.publicKey
  let grants ← collectGrants C core profile.snapshot.activeInvitations.toList
  let sync ← liftSync (SyncPeer.new core community)
  let sync ← match maxStoreBytes with
    | some limit => liftSync (sync.withStorageQuota limit)
    | none => .ok sync
  let allowedUsers := extendUsers explicitAllowedUsers profile.snapshot.members
  let network ← liftNetwork (NetworkNode.new C P device certificate sync allowedUsers {})
  let network := network.replaceAuthorization allowedUsers (trustedDevices C profile.snapshot)
  match grants.forM (NetworkNode.registerBootstrapGrant C) network with
  | .error error _ => .error (.network error)
  | .ok _ network => .ok network
where
  liftSync {α : Type} : Except SyncError α → Except CliError α
    | .error error => .error (.sync error)
    | .ok value => .ok value
  liftNetwork {α : Type} : Except NetworkError α → Except CliError α
    | .error error => .error (.network error)
    | .ok value => .ok value

end Authorization

/-- The `BootstrapAncestry` arm of `command_join`, up to the check of the invitation. -/
def checkAncestry (prepared : PreparedInvite) (invitation : EventId)
    (events : List SignedEvent) : Except CliError (ValidatedInvite × ChatResolution) :=
  match events.find? fun event => event.eventId = invitation with
  | none => .error .missingInvitation
  | some invitationEvent =>
    match prepared.validate C J invitationEvent with
    | .error error => .error (.invite error)
    | .ok validated => do
      let resolution ← resolveCli C J events
      if invitation ∈ resolution.snapshot.activeInvitations then .ok (validated, resolution)
      else .error .profileRejected

end ChatCommons
