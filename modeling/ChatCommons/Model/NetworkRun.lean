import ChatCommons.Model.Network

namespace ChatCommons

open Collections

/-- The calls that a program makes on its node between two events. -/
inductive NetworkCall
  | listen (address : Multiaddr)
  | reserveRelay (relayAddress : Multiaddr)
  | dial (peer : PeerId) (address : Multiaddr)
  | replaceAuthorization (allowedUsers : BTreeSet UserId)
      (trustedInfrastructureDevices : BTreeSet DeviceId)
  | registerBootstrapGrant (grant : BootstrapGrant)
  | replaceBootstrapGrants (grants : List BootstrapGrant)
  | configureBootstrapTarget (peer : PeerId) (invitation : EventId)
  | approveBootstrapEndpoint (peer : PeerId)
  | submitBootstrapProof (peer : PeerId) (invitation : EventId) (signature : ByteString)
  | submitBootstrapAcceptance (peer : PeerId) (invitation : EventId) (acceptance : SignedEvent)
  | resolveBootstrapAcceptance (peer : PeerId) (approved : Bool)
  | ingest (events : List SignedEvent)

inductive Input
  | swarm (event : SwarmEvent)
  | call (call : NetworkCall)

/-- A node, what it was given and what came of it. -/
structure Turn where
  node : NetworkNode
  input : Input
  result : EStateM.Result NetworkError NetworkNode (Option NetworkEvent)

namespace Turn

/-- A failure keeps what was written before it. -/
def next (turn : Turn) : NetworkNode :=
  match turn.result with
  | .ok _ node => node
  | .error _ node => node

def event (turn : Turn) : Option NetworkEvent :=
  match turn.result with
  | .ok event _ => event
  | .error _ _ => none

def sent (turn : Turn) : List SwarmCommand := turn.next.swarm.drop turn.node.swarm.length

end Turn

variable (C : Crypto) (P : PeerNames) (T : Transport)

namespace NetworkNode

/-- `ingest` is the call on `sync_peer_mut().node_mut()`. -/
def perform : NetworkCall → NetworkM Unit
  | .listen address => listen T address
  | .reserveRelay relayAddress => do
    let _ ← reserveRelay T relayAddress
  | .dial peer address => dial T peer address
  | .replaceAuthorization allowedUsers trustedInfrastructureDevices =>
    modify fun node => node.replaceAuthorization allowedUsers trustedInfrastructureDevices
  | .registerBootstrapGrant grant => registerBootstrapGrant C grant
  | .replaceBootstrapGrants grants => replaceBootstrapGrants C grants
  | .configureBootstrapTarget peer invitation => configureBootstrapTarget peer invitation
  | .approveBootstrapEndpoint peer => approveBootstrapEndpoint peer
  | .submitBootstrapProof peer invitation signature =>
    submitBootstrapProof T peer invitation signature
  | .submitBootstrapAcceptance peer invitation acceptance =>
    submitBootstrapAcceptance C T peer invitation acceptance
  | .resolveBootstrapAcceptance peer approved => resolveBootstrapAcceptance T peer approved
  | .ingest events =>
    modify fun node => { node with
      sync := { node.sync with node := (node.sync.node.ingest C events).1 } }

def handle : Input → NetworkM (Option NetworkEvent)
  | .swarm event => nextEvent C P T event
  | .call call => do
    perform C T call
    return none

def turn (node : NetworkNode) (input : Input) : Turn := ⟨node, input, handle C P T input node⟩

end NetworkNode

/-- The turns of a node from its start; a turn that fails does not end the run. -/
inductive Run (start : NetworkNode) : List Turn → NetworkNode → Prop
  | nil : Run start [] start
  | snoc {turns : List Turn} {node : NetworkNode} (h : Run start turns node) (input : Input) :
    Run start (turns ++ [node.turn C P T input]) (node.turn C P T input).next

end ChatCommons
