import ChatCommons.Model.Commands

namespace ChatCommons

open Collections

/-- What a turn of the loop is given: the event of the swarm and the flush of the standard
output. -/
structure ServeTurn where
  event : SwarmEvent
  flush : Except String Unit

/-- The loop of `command_network` changes its node only. -/
abbrev ServeM := EStateM CliError NetworkNode

variable (C : Crypto) (J : PayloadReader) (P : PeerNames) (T : Transport)

namespace ServeM

def onNetwork {α : Type} (action : NetworkM α) : ServeM α := fun network =>
  match action network with
  | .ok a network => .ok a network
  | .error error network => .error (.network error) network

def check {α : Type} : Except CliError α → ServeM α
  | .error error => throw error
  | .ok a => return a

def flush : Except String Unit → ServeM Unit
  | .error reason => throw (.output reason)
  | .ok _ => return ()

/-- `network.sync_peer_mut().node_mut().ingest(events)`. -/
def ingest (events : List SignedEvent) : ServeM Unit := do
  let network ← get
  let (node, result) := network.sync.node.ingest C events
  set { network with sync := { network.sync with node } }
  match result with
  | .error error => throw (.node error)
  | .ok _ => return ()

def refresh (explicitAllowedUsers : BTreeSet UserId) (role : NetworkRole)
    (localDevicePublicKey : Bytes 32) : ServeM Unit := fun network =>
  match refreshNetworkAuthorization C J explicitAllowedUsers role localDevicePublicKey network with
  | (network, .ok _) => .ok () network
  | (network, .error error) => .error error network

end ServeM

open ServeM

/-- The `approved` of the `BootstrapAcceptance` arm. -/
def acceptanceApproved (snapshot : ChatSnapshot) (user : UserId) (invitation : EventId)
    (acceptance : SignedEvent) : Bool :=
  acceptance.eventId ∈ snapshot.eventIds && user ∈ snapshot.members
    && invitation ∉ snapshot.activeInvitations

/-- The `BootstrapAcceptance` arm. -/
def decideAcceptance (peer : PeerId) (user : UserId) (invitation : EventId)
    (acceptance : SignedEvent) : ServeM Unit := do
  let network ← get
  let events ← check (network.sync.node.allEventsCli C)
  let resolution ← check (resolveCli C J (events ++ [acceptance]))
  let approved := acceptanceApproved resolution.snapshot user invitation acceptance
  if approved then ingest C [acceptance]
  onNetwork (NetworkNode.resolveBootstrapAcceptance T peer approved)

/-- The match on the event; every other arm only prints. -/
def handleServeEvent : NetworkEvent → ServeM Unit
  | .bootstrapAcceptance peer user invitation acceptance =>
    decideAcceptance C J T peer user invitation acceptance
  | _ => return ()

/-- What `serve-community` is given; it allows neither users, an end nor an address to dial. -/
structure ServeOptions where
  community : CommunityId
  listen : Multiaddr
  relay : Option Multiaddr
  maxStoreBytes : ℕ
  device : DeviceIdentity
  certificate : DeviceCertificate

def serveTurn (options : ServeOptions) (turn : ServeTurn) : ServeM Unit := do
  match ← onNetwork (NetworkNode.nextEvent C P T turn.event) with
  | none => return ()
  | some event =>
    handleServeEvent C J T event
    refresh C J ∅ .homeServer options.device.publicKey
    flush turn.flush

def serveLoop (options : ServeOptions) : List ServeTurn → ServeM Unit
  | [] => return ()
  | turn :: turns => do
    serveTurn C J P T options turn
    serveLoop options turns

/-- `command_network` between `NetworkNode::new` and the loop. -/
def listenForServe (options : ServeOptions) (flushed : Except String Unit) : ServeM Unit := do
  onNetwork (NetworkNode.listen T options.listen)
  if let some relay := options.relay then
    let _ ← onNetwork (NetworkNode.reserveRelay T relay)
  flush flushed

def runServe (options : ServeOptions) (flushed : Except String Unit) (turns : List ServeTurn) :
    ServeM Unit := do
  listenForServe T options flushed
  serveLoop C J P T options turns

end ChatCommons
