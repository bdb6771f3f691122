import ChatCommons.Model.NetworkMessage

namespace ChatCommons

open Collections

/-- The components of a multiaddress that the code tells apart. -/
inductive Protocol
  | tcp (port : UInt16)
  | udp (port : UInt16)
  | quicV1
  | p2p (peer : PeerId)
  | p2pCircuit
  | other (component : ByteString)
deriving DecidableEq

abbrev Multiaddr := List Protocol

structure ResponseChannel where
  id : ℕ
deriving DecidableEq

/-- What the node asks of the libp2p swarm. -/
inductive SwarmCommand
  | sendRequest (peer : PeerId) (request : NetworkRequest)
  | sendResponse (channel : ResponseChannel) (response : NetworkResponse)
  | dial (address : Multiaddr)
  | listenOn (address : Multiaddr)
  | disconnect (peer : PeerId)
deriving DecidableEq

/-- The answer of the swarm to a command, after the commands before it. -/
abbrev Transport := List SwarmCommand → SwarmCommand → Except String Unit

inductive NetworkEvent
  | listening (address : Multiaddr)
  | connected (peer : PeerId) (relayed : Bool)
  | relayConnected (peer : PeerId)
  | relayDisconnected (peer : PeerId)
  | relayReservationAccepted (peer : PeerId)
  | relayCircuitEstablished (relay remote : Option PeerId)
  | relayConnectionFailed (relay : Option PeerId) (reason : String)
  | observedAddress (peer : PeerId) (address : Multiaddr)
  | holePunchSucceeded (peer : PeerId)
  | holePunchFailed (peer : PeerId) (reason : String)
  | authenticated (peer : PeerId)
  | syncProgress (peer : PeerId)
  | bootstrapChallenge (peer : PeerId) (invitation : EventId) (proofBytes : ByteString)
  | bootstrapAncestry (peer : PeerId) (invitation : EventId) (events : List SignedEvent)
  | bootstrapAcceptance (peer : PeerId) (userId : UserId) (invitation : EventId)
      (acceptance : SignedEvent)
  | bootstrapAccepted (peer : PeerId)
  | requestFailed (peer : PeerId) (reason : String)
  | disconnected (peer : PeerId)
deriving DecidableEq

inductive NetworkError
  | auth (error : AuthError)
  | sync (error : SyncError)
  | listen (reason : String)
  | dial (reason : String)
  | request (reason : String)
  | rejected (reason : RejectionCode)
  | bootstrap (reason : String)
deriving DecidableEq

structure BootstrapGrant where
  invitation : EventId
  capabilityPublicKey : Bytes 32
  ancestry : List SignedEvent
deriving DecidableEq

structure PendingChallenge where
  invitation : EventId
  authenticated : AuthenticatedDevice
  proofBytes : ByteString

structure ProvedBootstrap where
  invitation : EventId
  authenticated : AuthenticatedDevice

structure PendingAcceptance where
  invitation : EventId
  authenticated : AuthenticatedDevice
  channel : ResponseChannel

structure BootstrapTarget where
  peer : PeerId
  invitation : EventId
  endpointApproved : Bool
deriving DecidableEq

inductive AuthenticationState
  | full | provisional
deriving DecidableEq

/-- The swarm is known by its peer id and the commands it was given. -/
structure NetworkNode where
  localPeer : PeerId
  swarm : List SwarmCommand := []
  sync : SyncPeer
  certificate : DeviceCertificate
  allowedUsers : BTreeSet UserId
  trustedInfrastructureDevices : BTreeSet DeviceId := ∅
  revocations : RevocationSet
  authenticated : BTreeSet PeerId := ∅
  authenticatedDevices : BTreeMap PeerId AuthenticatedDevice := ∅
  authenticationSent : BTreeSet PeerId := ∅
  acceptedByRemote : BTreeSet PeerId := ∅
  syncStarted : BTreeSet PeerId := ∅
  provisional : BTreeMap PeerId AuthenticatedDevice := ∅
  bootstrapGrants : BTreeMap EventId BootstrapGrant := ∅
  pendingChallenges : BTreeMap PeerId PendingChallenge := ∅
  provedBootstraps : BTreeMap PeerId ProvedBootstrap := ∅
  pendingAcceptances : BTreeMap PeerId PendingAcceptance := ∅
  bootstrapTarget : Option BootstrapTarget := none
  relayPeers : BTreeSet PeerId := ∅
  relayedApplicationPeers : BTreeSet PeerId := ∅
  pendingRelayDials : BTreeMap PeerId (PeerId × Multiaddr) := ∅
  pendingRelayReservations : BTreeMap PeerId Multiaddr := ∅

/-- A method on `&mut self` that may fail; a failure keeps what was written before it. -/
abbrev NetworkM := EStateM NetworkError NetworkNode

variable (C : Crypto) (P : PeerNames) (T : Transport)

section Routes

def relayPeerFromBase (address : Multiaddr) : Option PeerId :=
  match address.getLast? with
  | some (.p2p peer) => some peer
  | _ => none

/-- The loop of `relay_peer_from_route`, with its `previous_peer`. -/
def relayPeerLoop (previousPeer : Option PeerId) : Multiaddr → Option PeerId
  | [] => none
  | .p2p peer :: rest => relayPeerLoop (some peer) rest
  | .p2pCircuit :: _ => previousPeer
  | _ :: rest => relayPeerLoop previousPeer rest

def relayPeerFromRoute (address : Multiaddr) : Option PeerId := relayPeerLoop none address

/-- The loop of `relay_base_from_route`, with its `base`. -/
def relayBaseLoop (base : Multiaddr) : Multiaddr → Option Multiaddr
  | [] => none
  | .p2pCircuit :: _ => (relayPeerFromBase base).map fun _ => base
  | protocol :: rest => relayBaseLoop (base ++ [protocol]) rest

def relayBaseFromRoute (address : Multiaddr) : Option Multiaddr := relayBaseLoop [] address

end Routes

namespace NetworkNode

def new (device : DeviceIdentity) (certificate : DeviceCertificate) (sync : SyncPeer)
    (allowedUsers : BTreeSet UserId) (revocations : RevocationSet) :
    Except NetworkError NetworkNode :=
  match peerIdFromCertificate C P certificate with
  | .error error => .error (.auth error)
  | .ok peer =>
    if peer ≠ device.peerId then .error (.auth .invalidDeviceKey)
    else .ok { localPeer := device.peerId, sync, certificate, allowedUsers, revocations }

section Swarm

def issue (command : SwarmCommand) : NetworkM (Except String Unit) := do
  let node ← get
  set { node with swarm := node.swarm ++ [command] }
  return T node.swarm command

def respond (channel : ResponseChannel) (response : NetworkResponse) : NetworkM Unit := do
  if response.toJson.length > MAX_NETWORK_FRAME_BYTES then throw (.rejected .frameLimit)
  else
    match ← issue T (.sendResponse channel response) with
    | .error _ => throw (.request "response channel closed")
    | .ok _ => return ()

def send (peer : PeerId) (request : NetworkRequest) : NetworkM Unit := do
  if request.toJson.length > MAX_NETWORK_FRAME_BYTES then throw (.rejected .frameLimit)
  else
    let _ ← issue T (.sendRequest peer request)

def listen (address : Multiaddr) : NetworkM Unit := do
  match ← issue T (.listenOn address) with
  | .error error => throw (.listen error)
  | .ok _ => return ()

def reserveRelay (relayAddress : Multiaddr) : NetworkM Multiaddr := do
  match relayPeerFromBase relayAddress with
  | none => throw (.dial "relay address must end in its Peer ID")
  | some relay =>
    if .p2pCircuit ∈ relayAddress then
      throw (.dial "relay base address must not contain p2p-circuit")
    else
      modify fun node => { node with relayPeers := node.relayPeers.insert relay }
      let circuit := relayAddress ++ [.p2pCircuit]
      let node ← get
      if relay ∈ node.pendingRelayReservations then
        throw (.dial "a reservation with this relay is already pending")
      else
        set { node with
          pendingRelayReservations := node.pendingRelayReservations.insert relay circuit }
        match ← issue T (.dial relayAddress) with
        | .error error =>
          modify fun node => { node with
            pendingRelayReservations := node.pendingRelayReservations.erase relay }
          throw (.dial error)
        | .ok _ => return circuit

def dial (peer : PeerId) (address : Multiaddr) : NetworkM Unit := do
  if .p2pCircuit ∈ address then
    match relayPeerFromRoute address with
    | none => throw (.dial "relay route does not identify its relay peer")
    | some relay =>
      modify fun node => { node with relayPeers := node.relayPeers.insert relay }
      match relayBaseFromRoute address with
      | none => throw (.dial "relay route has an invalid base address")
      | some relayBase =>
        let node ← get
        if relay ∈ node.pendingRelayDials then
          throw (.dial "a dial through this relay is already pending")
        else
          set { node with pendingRelayDials := node.pendingRelayDials.insert relay (peer, address) }
          match ← issue T (.dial relayBase) with
          | .error error =>
            modify fun node => { node with
              pendingRelayDials := node.pendingRelayDials.erase relay }
            throw (.dial error)
          | .ok _ => return ()
  else
    match ← issue T (.dial (address ++ [.p2p peer])) with
    | .error error => throw (.dial error)
    | .ok _ => return ()

end Swarm

section Authorization

/-- The update of every session table for one peer of `rejected`. -/
def dropAuthorization (node : NetworkNode) (peer : PeerId) : NetworkNode :=
  { node with
    authenticated := node.authenticated.erase peer
    authenticatedDevices := node.authenticatedDevices.erase peer
    authenticationSent := node.authenticationSent.erase peer
    acceptedByRemote := node.acceptedByRemote.erase peer
    syncStarted := node.syncStarted.erase peer
    swarm := node.swarm ++ [.disconnect peer] }

def isTrusted (node : NetworkNode) (device : AuthenticatedDevice) : Bool :=
  device.userId ∈ node.allowedUsers || device.deviceId ∈ node.trustedInfrastructureDevices

def replaceAuthorization (node : NetworkNode) (allowedUsers : BTreeSet UserId)
    (trustedInfrastructureDevices : BTreeSet DeviceId) : NetworkNode :=
  let node := { node with allowedUsers, trustedInfrastructureDevices }
  let rejected := (node.authenticatedDevices.toList.filter fun row =>
    !node.isTrusted row.2).map Prod.fst
  rejected.foldl dropAuthorization node

def validateGrantEvents (node : NetworkNode) : List SignedEvent → Except NetworkError Unit
  | [] => .ok ()
  | event :: events =>
    match validateEvent C event with
    | .error error => .error (.bootstrap error.text)
    | .ok _ =>
      if event.belongsTo node.sync.community then validateGrantEvents node events
      else .error (.bootstrap "invitation ancestry belongs to another community")

def validateBootstrapGrant (node : NetworkNode) (grant : BootstrapGrant) :
    Except NetworkError Unit := do
  if grant.ancestry.isEmpty || grant.ancestry.length > MAX_BOOTSTRAP_ANCESTRY_EVENTS
      || !grant.ancestry.any fun event => event.eventId = grant.invitation then
    .error (.bootstrap "invitation ancestry is empty, oversized, or incomplete")
  else
    node.validateGrantEvents C grant.ancestry
    let response := NetworkResponse.bootstrapAncestry grant.invitation grant.ancestry
    if response.toJson.length > MAX_NETWORK_FRAME_BYTES then
      .error (.bootstrap "invitation ancestry exceeds the network frame limit")
    else .ok ()

def registerBootstrapGrant (grant : BootstrapGrant) : NetworkM Unit := do
  let node ← get
  match node.validateBootstrapGrant C grant with
  | .error error => throw error
  | .ok _ =>
    set { node with bootstrapGrants := node.bootstrapGrants.insert grant.invitation grant }

/-- The `replacement` that `replace_bootstrap_grants` fills. -/
def grantTable (grants : List BootstrapGrant) : BTreeMap EventId BootstrapGrant :=
  grants.foldl (fun table grant => table.insert grant.invitation grant) ∅

def replaceBootstrapGrants (grants : List BootstrapGrant) : NetworkM Unit := do
  let node ← get
  match grants.forM (node.validateBootstrapGrant C) with
  | .error error => throw error
  | .ok _ =>
    set { node with bootstrapGrants := grantTable grants }

end Authorization

section Joining

def configureBootstrapTarget (peer : PeerId) (invitation : EventId) : NetworkM Unit := do
  let node ← get
  if node.bootstrapTarget.isSome then
    throw (.bootstrap "a bootstrap target is already configured")
  else set { node with bootstrapTarget := some { peer, invitation, endpointApproved := false } }

def provisionalUser (node : NetworkNode) (peer : PeerId) : Option UserId :=
  node.provisional[peer]?.map AuthenticatedDevice.userId

def provisionalDevice (node : NetworkNode) (peer : PeerId) : Option DeviceId :=
  node.provisional[peer]?.map AuthenticatedDevice.deviceId

def targetOf (node : NetworkNode) (peer : PeerId) : Option BootstrapTarget :=
  node.bootstrapTarget.filter fun target => target.peer = peer

def targetFor (node : NetworkNode) (peer : PeerId) (invitation : EventId) :
    Option BootstrapTarget :=
  node.bootstrapTarget.filter fun target => target.peer = peer ∧ target.invitation = invitation

def approveBootstrapEndpoint (peer : PeerId) : NetworkM Unit := do
  let node ← get
  match node.targetOf peer with
  | none => throw (.bootstrap "peer is not the bootstrap target")
  | some target =>
    if peer ∈ node.provisional then
      set { node with bootstrapTarget := some { target with endpointApproved := true } }
    else throw (.bootstrap "bootstrap endpoint has not presented a valid device certificate")

def submitBootstrapProof (peer : PeerId) (invitation : EventId) (signature : ByteString) :
    NetworkM Unit := do
  let node ← get
  match node.targetFor peer invitation with
  | none => throw (.bootstrap "unexpected bootstrap challenge")
  | some _ =>
    if signature.length ≠ SIGNATURE_LEN then
      throw (.bootstrap "bootstrap proof signature has the wrong length")
    else send T peer (.bootstrapProve invitation signature)

def submitBootstrapAcceptance (peer : PeerId) (invitation : EventId) (acceptance : SignedEvent) :
    NetworkM Unit := do
  let node ← get
  match node.targetFor peer invitation with
  | none => throw (.bootstrap "unexpected bootstrap ancestry")
  | some target =>
    if !target.endpointApproved then
      throw (.bootstrap "bootstrap endpoint membership has not been approved")
    else
      match validateEvent C acceptance with
      | .error error => throw (.bootstrap error.text)
      | .ok _ => send T peer (.bootstrapAccept invitation acceptance)

def startBootstrap (peer : PeerId) : NetworkM Unit := do
  let node ← get
  match node.targetOf peer with
  | none => throw (.bootstrap "peer is not the bootstrap target")
  | some target => send T peer (.bootstrapBegin node.certificate target.invitation)

end Joining

def maybeStartSync (peer : PeerId) : NetworkM Unit := do
  let node ← get
  if peer ∈ node.authenticated ∧ peer ∈ node.acceptedByRemote ∧ peer ∉ node.syncStarted then
    set { node with syncStarted := node.syncStarted.insert peer }
    send T peer (.sync node.sync.hello)
  else return ()

section Requests

def validatePeerCertificate (node : NetworkNode) (peer : PeerId) (certificate : DeviceCertificate) :
    Except RejectionCode AuthenticatedDevice :=
  match validateDeviceCertificate C certificate with
  | .error _ => .error .invalidCertificate
  | .ok authenticated =>
    match peerIdFromCertificate C P certificate with
    | .error _ => .error .invalidCertificate
    | .ok certificatePeer =>
      if certificatePeer ≠ peer then .error .peerIdMismatch
      else if node.revocations.contains authenticated.userId authenticated.deviceId then
        .error .deviceRevoked
      else .ok authenticated

def authenticate (node : NetworkNode) (peer : PeerId) (certificate : DeviceCertificate) :
    NetworkNode × Except RejectionCode AuthenticationState :=
  match node.validatePeerCertificate C P peer certificate with
  | .error reason => (node, .error reason)
  | .ok authenticated =>
    if node.isTrusted authenticated then
      ({ node with
          authenticated := node.authenticated.insert peer
          authenticatedDevices := node.authenticatedDevices.insert peer authenticated },
        .ok .full)
    else if node.bootstrapTarget.any fun target => target.peer = peer then
      ({ node with provisional := node.provisional.insert peer authenticated }, .ok .provisional)
    else (node, .error .userNotAllowed)

/-- The bytes of `OsRng` are an argument. -/
def beginBootstrap (node : NetworkNode) (nonce : Bytes BOOTSTRAP_NONCE_BYTES) (peer : PeerId)
    (certificate : DeviceCertificate) (invitation : EventId) : NetworkNode × NetworkResponse :=
  match node.validatePeerCertificate C P peer certificate with
  | .error reason => (node, .rejected reason)
  | .ok authenticated =>
    if invitation ∉ node.bootstrapGrants then (node, .rejected .invitationUnavailable)
    else
      let proofBytes := possessionProofBytes C node.sync.community invitation authenticated.userId
        authenticated.deviceId peer node.localPeer nonce
      ({ node with
          pendingChallenges :=
            node.pendingChallenges.insert peer { invitation, authenticated, proofBytes } },
        .bootstrapChallenge invitation nonce)

def proveBootstrap (node : NetworkNode) (peer : PeerId) (invitation : EventId)
    (signature : ByteString) : NetworkNode × NetworkResponse :=
  match node.pendingChallenges[peer]? with
  | none => (node, .rejected .invalidBootstrap)
  | some pending =>
    let node := { node with pendingChallenges := node.pendingChallenges.erase peer }
    match node.bootstrapGrants[invitation]? with
    | none => (node, .rejected .invitationUnavailable)
    | some grant =>
      if pending.invitation ≠ invitation ∨ signature.length ≠ SIGNATURE_LEN
          ∨ verify C grant.capabilityPublicKey.toList pending.proofBytes signature ≠ .ok () then
        (node, .rejected .invalidBootstrap)
      else
        ({ node with
            provedBootstraps := node.provedBootstraps.insert peer
              { invitation, authenticated := pending.authenticated } },
          .bootstrapAncestry invitation grant.ancestry)

def receiveSync (node : NetworkNode) (peer : PeerId) (message : SyncMessage) :
    NetworkNode × NetworkResponse :=
  if peer ∉ node.authenticated then (node, .rejected .notAuthenticated)
  else
    match message with
    | .want _ eventIds =>
      if eventIds.length ≠ 1 then (node, .rejected .frameLimit) else receiveValid node message
    | _ => receiveValid node message
where
  receiveValid (node : NetworkNode) (message : SyncMessage) : NetworkNode × NetworkResponse :=
    match node.sync.receive C message with
    | (sync, .error _) => ({ node with sync }, .rejected .invalidSync)
    | (sync, .ok messages) =>
      match normalizeMessages messages with
      | .error reason => ({ node with sync }, .rejected reason)
      | .ok messages => ({ node with sync }, .sync messages)

def handleRequest (node : NetworkNode) (nonce : Bytes BOOTSTRAP_NONCE_BYTES) (peer : PeerId) :
    NetworkRequest → NetworkNode × NetworkResponse × Option AuthenticationState
  | .authenticate certificate =>
    match node.authenticate C P peer certificate with
    | (node, .ok state) => (node, .authenticated, some state)
    | (node, .error reason) => (node, .rejected reason, none)
  | .sync message =>
    let (node, response) := node.receiveSync C peer message
    (node, response, none)
  | .bootstrapBegin certificate invitation =>
    let (node, response) := node.beginBootstrap C P nonce peer certificate invitation
    (node, response, none)
  | .bootstrapProve invitation signature =>
    let (node, response) := node.proveBootstrap C peer invitation signature
    (node, response, none)
  | .bootstrapAccept _ _ => (node, .rejected .invalidBootstrap, none)

/-- The condition `valid` of `handle_bootstrap_acceptance`. -/
def acceptanceValid (node : NetworkNode) (invitation : EventId) (acceptance : SignedEvent)
    (proved : ProvedBootstrap) : Bool :=
  decide (invitation ∈ node.bootstrapGrants)
    && decide (proved.invitation = invitation)
    && decide (acceptance.content.communityId = some node.sync.community)
    && decide (invitation ∈ acceptance.content.parents)
    && decide (validateEvent C acceptance = .ok ())
    && decide (authorId C acceptance = .ok proved.authenticated.userId)

def handleBootstrapAcceptance (peer : PeerId) (invitation : EventId) (acceptance : SignedEvent)
    (channel : ResponseChannel) : NetworkM NetworkEvent := do
  let node ← get
  let proved := node.provedBootstraps[peer]?
  set { node with provedBootstraps := node.provedBootstraps.erase peer }
  match proved.filter (node.acceptanceValid C invitation acceptance) with
  | none =>
    respond T channel (.rejected .invalidBootstrap)
    return .syncProgress peer
  | some proved =>
    if peer ∈ node.pendingAcceptances then
      respond T channel (.rejected .invalidBootstrap)
      return .syncProgress peer
    else
      modify fun node => { node with
        pendingAcceptances := node.pendingAcceptances.insert peer
          { invitation, authenticated := proved.authenticated, channel } }
      return .bootstrapAcceptance peer proved.authenticated.userId invitation acceptance

def resolveBootstrapAcceptance (peer : PeerId) (approved : Bool) : NetworkM Unit := do
  let node ← get
  match node.pendingAcceptances[peer]? with
  | none => throw (.bootstrap "no pending bootstrap acceptance")
  | some pending =>
    set { node with pendingAcceptances := node.pendingAcceptances.erase peer }
    if approved then
      modify fun node => { node with
        bootstrapGrants := node.bootstrapGrants.erase pending.invitation
        allowedUsers := node.allowedUsers.insert pending.authenticated.userId
        authenticated := node.authenticated.insert peer
        authenticatedDevices := node.authenticatedDevices.insert peer pending.authenticated }
      match ← issue T (.sendResponse pending.channel .bootstrapAccepted) with
      | .error _ => throw (.request "response channel closed")
      | .ok _ => maybeStartSync T peer
    else
      match ← issue T (.sendResponse pending.channel (.rejected .bootstrapNotApproved)) with
      | .error _ => throw (.request "response channel closed")
      | .ok _ => return ()

end Requests

section Responses

/-- The body of the loop over the messages of a `Sync` response. -/
def receiveResponse (peer : PeerId) (message : SyncMessage) : NetworkM Unit := do
  let node ← get
  let (sync, result) := node.sync.receive C message
  set { node with sync }
  match result with
  | .error error => throw (.sync error)
  | .ok messages =>
    match normalizeMessages messages with
    | .error reason => throw (.rejected reason)
    | .ok outgoing => outgoing.forM fun message => send T peer (.sync message)

/-- The checks on each event of a `BootstrapAncestry` response. -/
def checkAncestry (node : NetworkNode) (events : List SignedEvent) : Bool :=
  events.all fun event =>
    decide (validateEvent C event = .ok ()) && event.belongsTo node.sync.community

def handleResponse (peer : PeerId) : NetworkResponse → NetworkM NetworkEvent
  | .authenticated => do
    modify fun node => { node with acceptedByRemote := node.acceptedByRemote.insert peer }
    maybeStartSync T peer
    return .authenticated peer
  | .sync messages => do
    let node ← get
    if peer ∉ node.authenticated then throw (.rejected .notAuthenticated)
    else if messages.length > MAX_MESSAGES_PER_FRAME then throw (.rejected .frameLimit)
    else
      messages.forM (receiveResponse C T peer)
      return .syncProgress peer
  | .bootstrapChallenge invitation nonce => do
    let node ← get
    match node.targetFor peer invitation with
    | none => throw (.bootstrap "unexpected bootstrap challenge")
    | some _ =>
      match validateDeviceCertificate C node.certificate with
      | .error error => throw (.auth error)
      | .ok device =>
        return .bootstrapChallenge peer invitation
          (possessionProofBytes C node.sync.community invitation device.userId device.deviceId
            node.localPeer peer nonce)
  | .bootstrapAncestry invitation events => do
    let node ← get
    match node.targetFor peer invitation with
    | none => throw (.bootstrap "unexpected bootstrap ancestry")
    | some _ =>
      if events.isEmpty || events.length > MAX_BOOTSTRAP_ANCESTRY_EVENTS then
        throw (.rejected .frameLimit)
      else if !node.checkAncestry C events then throw (.rejected .invalidBootstrap)
      else if !events.any fun event => event.eventId = invitation then
        throw (.rejected .invalidBootstrap)
      else return .bootstrapAncestry peer invitation events
  | .bootstrapAccepted => do
    let node ← get
    match (node.targetOf peer).filter BootstrapTarget.endpointApproved with
    | none => throw (.bootstrap "bootstrap endpoint was not approved")
    | some _ =>
      match node.provisional[peer]? with
      | none => throw (.bootstrap "bootstrap endpoint did not present a valid certificate")
      | some provisional =>
        set { node with
          provisional := node.provisional.erase peer
          allowedUsers := node.allowedUsers.insert provisional.userId
          authenticated := node.authenticated.insert peer
          authenticatedDevices := node.authenticatedDevices.insert peer provisional
          acceptedByRemote := node.acceptedByRemote.insert peer }
        maybeStartSync T peer
        return .bootstrapAccepted peer
  | .rejected reason => do
    let node ← get
    if reason = .userNotAllowed ∧ (node.targetOf peer).isSome then return .syncProgress peer
    else throw (.rejected reason)

end Responses

end NetworkNode

/-- The events of the swarm that `next_event` tells apart. -/
inductive SwarmEvent
  | newListenAddr (address : Multiaddr)
  | connectionEstablished (peer : PeerId) (relayed : Bool)
  | connectionClosed (peer : PeerId) (numEstablished : ℕ)
  | request (peer : PeerId) (request : NetworkRequest) (channel : ResponseChannel)
      (nonce : Bytes BOOTSTRAP_NONCE_BYTES)
  | response (peer : PeerId) (response : NetworkResponse)
  | requestFailure (peer : PeerId) (error : String)
  | responseSent (peer : PeerId)
  | reservationReqAccepted (relay : PeerId)
  | outboundCircuitEstablished (relay : PeerId)
  | inboundCircuitEstablished (source : PeerId)
  | identifyReceived (peer : PeerId) (observed : Multiaddr)
  | dcutr (peer : PeerId) (result : Except String Unit)
  | outgoingConnectionError (peer : Option PeerId) (error : String) (isConnected : Bool)
  | listenerError (error : String)
  | other

namespace NetworkNode

def connectionEstablished (peer : PeerId) (relayed : Bool) : NetworkM NetworkEvent := do
  let node ← get
  if peer ∈ node.relayPeers then return .relayConnected peer
  else
    if relayed then
      modify fun node => { node with
        relayedApplicationPeers := node.relayedApplicationPeers.insert peer }
    if peer ∉ node.authenticated ∧ peer ∉ node.authenticationSent then
      modify fun node => { node with authenticationSent := node.authenticationSent.insert peer }
      send T peer (.authenticate node.certificate)
    return .connected peer relayed

def closeSession (node : NetworkNode) (peer : PeerId) : NetworkNode :=
  { node with
    authenticated := node.authenticated.erase peer
    authenticatedDevices := node.authenticatedDevices.erase peer
    authenticationSent := node.authenticationSent.erase peer
    acceptedByRemote := node.acceptedByRemote.erase peer
    syncStarted := node.syncStarted.erase peer
    provisional := node.provisional.erase peer
    pendingChallenges := node.pendingChallenges.erase peer
    provedBootstraps := node.provedBootstraps.erase peer
    pendingAcceptances := node.pendingAcceptances.erase peer }

def connectionClosed (peer : PeerId) (numEstablished : ℕ) : NetworkM (Option NetworkEvent) := do
  let node ← get
  if numEstablished > 0 then return none
  else if peer ∈ node.relayPeers then return some (.relayDisconnected peer)
  else
    set (node.closeSession peer)
    return some (.disconnected peer)

def handleRequestMessage (peer : PeerId) (request : NetworkRequest) (channel : ResponseChannel)
    (nonce : Bytes BOOTSTRAP_NONCE_BYTES) : NetworkM NetworkEvent := do
  match request with
  | .bootstrapAccept invitation acceptance =>
    handleBootstrapAcceptance C T peer invitation acceptance channel
  | request =>
    let node ← get
    let (node, response, authentication) := node.handleRequest C P nonce peer request
    set node
    respond T channel response
    match authentication with
    | some .full =>
      maybeStartSync T peer
      return .authenticated peer
    | some .provisional =>
      startBootstrap T peer
      return .syncProgress peer
    | none => return .syncProgress peer

def identifyReceived (peer : PeerId) (observed : Multiaddr) : NetworkM NetworkEvent := do
  let node ← get
  if let some route := node.pendingRelayReservations[peer]? then
    set { node with pendingRelayReservations := node.pendingRelayReservations.erase peer }
    listen T route
  let node ← get
  if let some (target, route) := node.pendingRelayDials[peer]? then
    set { node with pendingRelayDials := node.pendingRelayDials.erase peer }
    match ← issue T (.dial (route ++ [.p2p target])) with
    | .error error => throw (.dial error)
    | .ok _ => pure ()
  return .observedAddress peer observed

/-- One turn of the loop of `next_event`: `none` where it goes on to the next turn. -/
def nextEvent (event : SwarmEvent) : NetworkM (Option NetworkEvent) := do
  match event with
  | .newListenAddr address => return some (.listening address)
  | .connectionEstablished peer relayed => some <$> connectionEstablished T peer relayed
  | .connectionClosed peer numEstablished => connectionClosed peer numEstablished
  | .request peer request channel nonce =>
    some <$> handleRequestMessage C P T peer request channel nonce
  | .response peer response => some <$> handleResponse C T peer response
  | .requestFailure peer error => return some (.requestFailed peer error)
  | .responseSent _ => return none
  | .reservationReqAccepted relay => return some (.relayReservationAccepted relay)
  | .outboundCircuitEstablished relay => return some (.relayCircuitEstablished (some relay) none)
  | .inboundCircuitEstablished source => return some (.relayCircuitEstablished none (some source))
  | .identifyReceived peer observed => some <$> identifyReceived T peer observed
  | .dcutr peer (.ok _) => return some (.holePunchSucceeded peer)
  | .dcutr peer (.error error) => return some (.holePunchFailed peer error)
  | .outgoingConnectionError peer error isConnected =>
    let node ← get
    match peer with
    | none => throw (.dial error)
    | some peer =>
      if peer ∈ node.relayPeers then return some (.relayConnectionFailed (some peer) error)
      else if peer ∈ node.relayedApplicationPeers then return some (.holePunchFailed peer error)
      else if isConnected then return none
      else throw (.dial error)
  | .listenerError error => throw (.listen error)
  | .other => return none

end NetworkNode

end ChatCommons
