import ChatCommons.Model.Commands

namespace ChatCommons

open Collections

/-- What `command_join` reads in its state directory. -/
structure NodeState where
  user : Identity
  device : DeviceIdentity
  createdAtMs : Int64

/-- The variables of the loop of `command_join`. -/
structure Joining where
  network : NetworkNode
  prepared : Option PreparedInvite

def Joining.store (joining : Joining) : EventStore := joining.network.sync.node.store

/-- What a turn of the loop is given: the event of the swarm, `now_ms` and the flush of the
standard output. -/
structure JoinTurn where
  event : SwarmEvent
  now : Option Int64
  flush : Except String Unit

abbrev JoinM := EStateM CliError Joining

/-- The address `/ip4/0.0.0.0/udp/0/quic-v1`. -/
def JOIN_LISTEN_ADDRESS : Multiaddr := [.other [0, 0, 0, 0], .udp 0, .quicV1]

variable (C : Crypto) (J : PayloadReader) (P : PeerNames) (T : Transport) (F : TextForms)
  (R : PackageReader)

namespace JoinM

def onNetwork {α : Type} (action : NetworkM α) : JoinM α := fun joining =>
  match action joining.network with
  | .ok a network => .ok a { joining with network }
  | .error error network => .error (.network error) { joining with network }

def flush : Except String Unit → JoinM Unit
  | .error reason => throw (.output reason)
  | .ok _ => return ()

/-- `network.sync_peer_mut().node_mut().ingest(events)`. -/
def ingest (events : List SignedEvent) : JoinM Unit := do
  let joining ← get
  let sync := joining.network.sync
  let (node, result) := sync.node.ingest C events
  set { joining with network := { joining.network with sync := { sync with node } } }
  match result with
  | .error error => throw (.node error)
  | .ok _ => return ()

end JoinM

open JoinM

/-- `{relay:?}` for the relay of an event. -/
def relayText : Option PeerId → String
  | none => "None"
  | some relay => "Some(PeerId(\"" ++ F.peerText relay ++ "\"))"

/-- `member_endpoint || home_server_endpoint`. -/
def endpointTrusted (snapshot : ChatSnapshot) (user : UserId) (device : DeviceId) : Bool :=
  user ∈ snapshot.members || snapshot.homeServer.any fun binding =>
    DeviceId.fromPublicKey C binding.serverPublicKey = device

/-- The `BootstrapAncestry` arm from the approval of the endpoint on. -/
def acceptInvitation (state : NodeState) (now : Option Int64) (peer : PeerId)
    (invitation : EventId) (events : List SignedEvent) (validated : ValidatedInvite) :
    JoinM Unit := do
  onNetwork (NetworkNode.approveBootstrapEndpoint peer)
  ingest C events
  match now with
  | none => throw .invalidSystemTime
  | some now =>
    let acceptance := validated.createAcceptance C state.user [invitation] now
    match resolveCli C J (events ++ [acceptance]) with
    | .error error => throw error
    | .ok accepted =>
      if acceptance.eventId ∈ accepted.snapshot.eventIds
          ∧ state.user.userId C ∈ accepted.snapshot.members then
        ingest C [acceptance]
        onNetwork (NetworkNode.submitBootstrapAcceptance C T peer invitation acceptance)
      else throw .profileRejected

def receiveAncestry (state : NodeState) (now : Option Int64) (peer : PeerId)
    (invitation : EventId) (events : List SignedEvent) : JoinM Unit := do
  let joining ← get
  match joining.prepared with
  | none => return ()
  | some prepared =>
    set { joining with prepared := none }
    match checkAncestry C J prepared invitation events with
    | .error error => throw error
    | .ok (validated, resolution) =>
      match joining.network.provisionalUser peer, joining.network.provisionalDevice peer with
      | some user, some device =>
        if endpointTrusted C resolution.snapshot user device then
          acceptInvitation C J T state now peer invitation events validated
        else throw .untrustedBootstrapEndpoint
      | _, _ => throw .untrustedBootstrapEndpoint

/-- The match on the event; the result says whether the join is complete. -/
def handleJoinEvent (state : NodeState) (now : Option Int64) : NetworkEvent → JoinM Bool
  | .relayConnectionFailed relay reason =>
    throw (.network (.request ("relay " ++ relayText F relay ++ " failed: " ++ reason)))
  | .bootstrapChallenge peer invitation proofBytes => do
    let joining ← get
    match joining.prepared with
    | none => throw .missingInvitation
    | some prepared =>
      onNetwork (NetworkNode.submitBootstrapProof T peer invitation
        (prepared.signPossessionProof C proofBytes).toList)
      return false
  | .bootstrapAncestry peer invitation events => do
    receiveAncestry C J T state now peer invitation events
    return false
  | .bootstrapAccepted _ => return true
  | .requestFailed _ reason => throw (.network (.request reason))
  | .bootstrapAcceptance .. => throw .profileRejected
  | .connected .. | .relayConnected _ | .relayDisconnected _ | .relayReservationAccepted _
  | .relayCircuitEstablished .. | .observedAddress .. | .holePunchSucceeded _
  | .holePunchFailed .. | .authenticated _ | .syncProgress _ | .disconnected _
  | .listening _ => return false

def joinTurn (state : NodeState) (turn : JoinTurn) : JoinM Bool := do
  match ← onNetwork (NetworkNode.nextEvent C P T turn.event) with
  | none => return false
  | some event =>
    let complete ← handleJoinEvent C J T F state turn.now event
    flush turn.flush
    return complete

def joinLoop (state : NodeState) : List JoinTurn → JoinM Bool
  | [] => return false
  | turn :: turns => do
    if ← joinTurn C J P T F state turn then return true else joinLoop state turns

section Start

def liftNode {α : Type} : Except NodeError α → Except CliError α
  | .error error => .error (.node error)
  | .ok value => .ok value

/-- What the command opens before it talks to the network. -/
structure JoinStart where
  envelope : ValidatedBootstrapEnvelope
  prepared : PreparedInvite
  network : NetworkNode

/-- `command_join` up to `NetworkNode::new`. -/
def openJoin (state : NodeState) (code : ByteString) (store : EventStore) :
    Except CliError JoinStart := do
  let parsed ← liftBootstrap (parseCode F code)
  let envelope ← liftBootstrap (parsed.validate F)
  let package ← liftInvite (parseInvitePackage R envelope.invitePackage)
  let prepared ← liftInvite package.prepare
  if !store.isEmpty then .error .databaseNotEmpty
  else
    let core ← liftNode (CoreNode.open C store none)
    let certificate := createDeviceCertificate C state.user state.device state.createdAtMs
    let sync ← startNetwork.liftSync (SyncPeer.new core prepared.community)
    let network ← startNetwork.liftNetwork
      (NetworkNode.new C P state.device certificate sync ∅ {})
    return { envelope, prepared, network }

/-- `command_join` between `NetworkNode::new` and the loop. -/
def connectJoin (start : JoinStart) (flushed : Except String Unit) : JoinM Unit := do
  onNetwork (NetworkNode.configureBootstrapTarget start.envelope.peerId start.prepared.invitation)
  onNetwork (NetworkNode.listen T JOIN_LISTEN_ADDRESS)
  onNetwork (NetworkNode.dial T start.envelope.peerId start.envelope.address)
  flush flushed

end Start

/-- What the command is given: the code, what `flush` answers before the loop and the turns. -/
structure JoinInput where
  state : NodeState
  code : ByteString
  flushed : Except String Unit
  turns : List JoinTurn

def runJoin (start : JoinStart) (input : JoinInput) : JoinM Bool := do
  connectJoin T start input.flushed
  joinLoop C J P T F input.state input.turns

/-- The store that the command leaves and its result, `none` while it waits for the next event. -/
def commandJoin (input : JoinInput) (store : EventStore) :
    EventStore × Option (Except CliError Unit) :=
  match openJoin C P F R input.state input.code store with
  | .error error => (store, some (.error error))
  | .ok start =>
    match runJoin C J P T F start input
        { network := start.network, prepared := some start.prepared } with
    | .ok true joining => (joining.store, some (.ok ()))
    | .ok false joining => (joining.store, none)
    | .error error joining => (joining.store, some (.error error))

end ChatCommons
