import ChatCommons.Core.Listed
import ChatCommons.Model.NetworkRun
import ChatCommons.Sample.Club

/-!
A node of the community of `Club` that allows its second user, and a device of that user.
-/

namespace ChatCommons.Sample

open Collections

def names : PeerNames := fun publicKey => some ⟨publicKey.toList⟩

def deviceOf (n : ℕ) : DeviceIdentity :=
  ⟨(identity n).publicKey crypto, ⟨((identity n).publicKey crypto).toList⟩⟩

def guestPeer : PeerId := (deviceOf 12).peerId

def certificateOf (n : ℕ) : DeviceCertificate :=
  createDeviceCertificate crypto (identity n) (deviceOf (10 + n)) 0

def hostSync : SyncPeer := { node := CoreNode.ofEvents club [genesis], community := club }

def host : NetworkNode where
  localPeer := (deviceOf 11).peerId
  sync := hostSync
  certificate := certificateOf 1
  allowedUsers := setOf [user 2]
  revocations := {}

theorem certificate_named :
    peerIdFromCertificate crypto names (certificateOf 1) = .ok (deviceOf 11).peerId ∧
      peerIdFromCertificate crypto names (certificateOf 2) = .ok guestPeer := by decide

theorem host_new : NetworkNode.new crypto names (deviceOf 11) (certificateOf 1) hostSync
    (setOf [user 2]) {} = .ok host := by
  simp only [NetworkNode.new, certificate_named.1, ne_eq, not_true_eq_false, if_false]
  rfl

def reliable : Transport := fun _ _ => .ok ()

def guestChannel : ResponseChannel := ⟨0⟩

def guestAuthenticates : Input :=
  .swarm (.request guestPeer (.authenticate (certificateOf 2)) guestChannel (bigEndianBytes 32 0))

def guestConnects : Input := .swarm (.connectionEstablished guestPeer false)

def guestRelays : Input := .call (.reserveRelay [.p2p guestPeer])

def guestLeaves : Input := .swarm (.connectionClosed guestPeer 0)

def guestGreets : Input :=
  .swarm (.request guestPeer (.sync (.hello SYNC_VERSION [PROTOCOL_VERSION] club)) guestChannel
    (bigEndianBytes 32 0))

def guestGrant : BootstrapGrant where
  invitation := invitation.eventId
  capabilityPublicKey := (identity 3).publicKey crypto
  ancestry := [genesis, invitation]

def hostGrants : Input := .call (.registerBootstrapGrant guestGrant)

def guestBegins : Input :=
  .swarm (.request guestPeer (.bootstrapBegin (certificateOf 2) invitation.eventId) guestChannel
    (bigEndianBytes 32 5))

def guestProves : Input :=
  .swarm (.request guestPeer (.bootstrapProve invitation.eventId (List.replicate 64 0))
    guestChannel (bigEndianBytes 32 0))

def grantTurn : Turn := host.turn crypto names reliable hostGrants

def beginTurn : Turn := grantTurn.next.turn crypto names reliable guestBegins

def proveTurn : Turn := beginTurn.next.turn crypto names reliable guestProves

def hostTurns (node : NetworkNode) : List Input → List Turn
  | [] => []
  | input :: inputs =>
    node.turn crypto names reliable input ::
      hostTurns (node.turn crypto names reliable input).next inputs

def hostAfter (node : NetworkNode) : List Input → NetworkNode
  | [] => node
  | input :: inputs => hostAfter (node.turn crypto names reliable input).next inputs

theorem host_run {start node : NetworkNode} {turns : List Turn}
    (hrun : Run crypto names reliable start turns node) (inputs : List Input) :
    Run crypto names reliable start (turns ++ hostTurns node inputs) (hostAfter node inputs) := by
  induction inputs generalizing node turns with
  | nil => simpa [hostTurns, hostAfter] using hrun
  | cons input inputs ih =>
    have h := ih (hrun.snoc input)
    rwa [List.append_assoc, List.singleton_append] at h

theorem host_runs (inputs : List Input) :
    Run crypto names reliable host (hostTurns host inputs) (hostAfter host inputs) :=
  host_run .nil inputs

end ChatCommons.Sample
