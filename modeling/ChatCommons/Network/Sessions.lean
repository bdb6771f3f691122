import ChatCommons.General.Stateful
import ChatCommons.Model.NetworkRun

/-!
The sessions of a node say who may do what. Most turns only send and leave them alone; `Move`
lists what the others change, what they send and what they report.
-/

namespace ChatCommons

open Collections Stateful

structure Session where
  localPeer : PeerId
  community : CommunityId
  allowedUsers : BTreeSet UserId
  trustedInfrastructureDevices : BTreeSet DeviceId
  revocations : RevocationSet
  authenticated : BTreeSet PeerId
  authenticatedDevices : BTreeMap PeerId AuthenticatedDevice
  provisional : BTreeMap PeerId AuthenticatedDevice
  bootstrapGrants : BTreeMap EventId BootstrapGrant
  pendingChallenges : BTreeMap PeerId PendingChallenge
  provedBootstraps : BTreeMap PeerId ProvedBootstrap
  pendingAcceptances : BTreeMap PeerId PendingAcceptance
  bootstrapTarget : Option BootstrapTarget

def NetworkNode.session (node : NetworkNode) : Session where
  localPeer := node.localPeer
  community := node.sync.community
  allowedUsers := node.allowedUsers
  trustedInfrastructureDevices := node.trustedInfrastructureDevices
  revocations := node.revocations
  authenticated := node.authenticated
  authenticatedDevices := node.authenticatedDevices
  provisional := node.provisional
  bootstrapGrants := node.bootstrapGrants
  pendingChallenges := node.pendingChallenges
  provedBootstraps := node.provedBootstraps
  pendingAcceptances := node.pendingAcceptances
  bootstrapTarget := node.bootstrapTarget

section Vocabulary

variable (C : Crypto) (P : PeerNames)

/-- All that a peer is sent of a community but the greeting. -/
def SyncMessage.IsData : SyncMessage → Prop
  | .hello .. => False
  | _ => True

/-- Neither community data nor a step of a disclosure. -/
def SwarmCommand.Plain : SwarmCommand → Prop
  | .sendRequest _ (.sync message) => ¬ message.IsData
  | .sendResponse _ (.sync _) => False
  | .sendResponse _ (.bootstrapChallenge ..) => False
  | .sendResponse _ (.bootstrapAncestry ..) => False
  | _ => True

/-- A request of synchronization to the peer, or the answer to one of its requests. -/
def SwarmCommand.Exchanges (peer : PeerId) (input : Input) : SwarmCommand → Prop
  | .sendRequest receiver (.sync _) => receiver = peer
  | .sendResponse channel (.sync _) =>
    ∃ message nonce, input = .swarm (.request peer (.sync message) channel nonce)
  | command => command.Plain

def NetworkEvent.IsAcceptance : NetworkEvent → Prop
  | .bootstrapAcceptance .. => True
  | _ => False

def Silent (event : Option NetworkEvent) : Prop := ∀ e ∈ event, ¬ e.IsAcceptance

def Input.Exchanges (peer : PeerId) : Input → Prop
  | .swarm (.request sender (.sync _) _ _) => sender = peer
  | .swarm (.response sender (.sync _)) => sender = peer
  | _ => False

def Input.Proves (peer : PeerId) : Input → Prop
  | .swarm (.request sender (.bootstrapProve _ _) _ _) => sender = peer
  | _ => False

namespace Session

def Trusts (s : Session) (device : AuthenticatedDevice) : Prop :=
  device.userId ∈ s.allowedUsers ∨ device.deviceId ∈ s.trustedInfrastructureDevices

def Vets (s : Session) (peer : PeerId) (certificate : DeviceCertificate)
    (device : AuthenticatedDevice) : Prop :=
  validateDeviceCertificate C certificate = .ok device ∧
    peerIdFromCertificate C P certificate = .ok peer ∧
    s.revocations.contains device.userId device.deviceId = false

def enter (s : Session) (peer : PeerId) (device : AuthenticatedDevice) : Session :=
  { s with
    authenticated := s.authenticated.insert peer
    authenticatedDevices := s.authenticatedDevices.insert peer device }

def close (s : Session) (peer : PeerId) : Session :=
  { s with
    authenticated := s.authenticated.erase peer
    authenticatedDevices := s.authenticatedDevices.erase peer
    provisional := s.provisional.erase peer
    pendingChallenges := s.pendingChallenges.erase peer
    provedBootstraps := s.provedBootstraps.erase peer
    pendingAcceptances := s.pendingAcceptances.erase peer }

def challenge (s : Session) (peer : PeerId) (invitation : EventId) (device : AuthenticatedDevice)
    (nonce : Bytes BOOTSTRAP_NONCE_BYTES) : PendingChallenge where
  invitation := invitation
  authenticated := device
  proofBytes := possessionProofBytes C s.community invitation device.userId device.deviceId peer
    s.localPeer nonce

end Session

end Vocabulary

/-- What a turn that sends only plain commands does to the sessions. -/
inductive Change (C : Crypto) (P : PeerNames) (s : Session) : Input → Session → Prop
  | none {input : Input} (h : ∀ peer, input.Proves peer → peer ∉ s.pendingChallenges) :
    Change C P s input s
  | full {peer : PeerId} {certificate : DeviceCertificate} {device : AuthenticatedDevice}
      {channel : ResponseChannel} {nonce : Bytes BOOTSTRAP_NONCE_BYTES}
      (hvets : s.Vets C P peer certificate device) (htrusts : s.Trusts device) :
    Change C P s (.swarm (.request peer (.authenticate certificate) channel nonce))
      (s.enter peer device)
  | provisional {peer : PeerId} {certificate : DeviceCertificate} {device : AuthenticatedDevice}
      {channel : ResponseChannel} {nonce : Bytes BOOTSTRAP_NONCE_BYTES}
      (hvets : s.Vets C P peer certificate device) :
    Change C P s (.swarm (.request peer (.authenticate certificate) channel nonce))
      { s with provisional := s.provisional.insert peer device }
  | joined {peer : PeerId} {device : AuthenticatedDevice}
      (hprovisional : s.provisional[peer]? = some device) :
    Change C P s (.swarm (.response peer .bootstrapAccepted))
      ({ s with
        provisional := s.provisional.erase peer
        allowedUsers := s.allowedUsers.insert device.userId }.enter peer device)
  | closed {peer : PeerId} {numEstablished : ℕ} :
    Change C P s (.swarm (.connectionClosed peer numEstablished)) (s.close peer)
  | refused {peer : PeerId} {invitation : EventId} {signature : ByteString}
      {channel : ResponseChannel} {nonce : Bytes BOOTSTRAP_NONCE_BYTES} :
    Change C P s (.swarm (.request peer (.bootstrapProve invitation signature) channel nonce))
      { s with pendingChallenges := s.pendingChallenges.erase peer }
  | unproved {peer : PeerId} {invitation : EventId} {acceptance : SignedEvent}
      {channel : ResponseChannel} {nonce : Bytes BOOTSTRAP_NONCE_BYTES} :
    Change C P s (.swarm (.request peer (.bootstrapAccept invitation acceptance) channel nonce))
      { s with provedBootstraps := s.provedBootstraps.erase peer }
  | approved {peer : PeerId} {pending : PendingAcceptance}
      (hpending : s.pendingAcceptances[peer]? = some pending) :
    Change C P s (.call (.resolveBootstrapAcceptance peer true))
      ({ s with
        pendingAcceptances := s.pendingAcceptances.erase peer
        bootstrapGrants := s.bootstrapGrants.erase pending.invitation
        allowedUsers := s.allowedUsers.insert pending.authenticated.userId }.enter peer
        pending.authenticated)
  | declined {peer : PeerId} :
    Change C P s (.call (.resolveBootstrapAcceptance peer false))
      { s with pendingAcceptances := s.pendingAcceptances.erase peer }
  | replaced {allowedUsers : BTreeSet UserId} {trustedInfrastructureDevices : BTreeSet DeviceId}
      {authenticated : BTreeSet PeerId} {authenticatedDevices : BTreeMap PeerId AuthenticatedDevice}
      (hpeers : ∀ peer, peer ∈ authenticated ↔ peer ∈ s.authenticated ∧
        ∀ device, s.authenticatedDevices[peer]? = some device →
          { s with allowedUsers, trustedInfrastructureDevices }.Trusts device)
      (hdevices : ∀ (peer : PeerId) (device : AuthenticatedDevice),
        authenticatedDevices[peer]? = some device ↔ s.authenticatedDevices[peer]? = some device ∧
          { s with allowedUsers, trustedInfrastructureDevices }.Trusts device) :
    Change C P s (.call (.replaceAuthorization allowedUsers trustedInfrastructureDevices))
      { s with allowedUsers, trustedInfrastructureDevices, authenticated, authenticatedDevices }
  | granted {call : NetworkCall} {grants : BTreeMap EventId BootstrapGrant}
      (hgrants : ∀ (invitation : EventId) (grant : BootstrapGrant),
        grants[invitation]? = some grant →
        s.bootstrapGrants[invitation]? = some grant ∨
          (NetworkResponse.bootstrapAncestry invitation grant.ancestry).toJson.length ≤
            MAX_NETWORK_FRAME_BYTES) :
    Change C P s (.call call) { s with bootstrapGrants := grants }
  | targeted {call : NetworkCall} (target : BootstrapTarget) :
    Change C P s (.call call) { s with bootstrapTarget := some target }

/-- What a turn does to the sessions, the commands it sends and the event it reports. -/
inductive Move (C : Crypto) (P : PeerNames) (s : Session) :
    Input → List SwarmCommand → Option NetworkEvent → Session → Prop
  | change {input : Input} {sent : List SwarmCommand} {event : Option NetworkEvent} {s' : Session}
      (h : Change C P s input s') (hsent : ∀ command ∈ sent, command.Plain)
      (hevent : Silent event) :
    Move C P s input sent event s'
  | exchanged {peer : PeerId} {input : Input} {sent : List SwarmCommand}
      {event : Option NetworkEvent} (hinput : input.Exchanges peer) (hpeer : peer ∈ s.authenticated)
      (hsent : ∀ command ∈ sent, command.Exchanges peer input)
      (hevent : Silent event) :
    Move C P s input sent event s
  | challenged {peer : PeerId} {certificate : DeviceCertificate} {device : AuthenticatedDevice}
      {invitation : EventId} {channel : ResponseChannel} {nonce : Bytes BOOTSTRAP_NONCE_BYTES}
      {event : Option NetworkEvent} (hvets : s.Vets C P peer certificate device)
      (hevent : Silent event) :
    Move C P s (.swarm (.request peer (.bootstrapBegin certificate invitation) channel nonce))
      [.sendResponse channel (.bootstrapChallenge invitation nonce)] event
      { s with pendingChallenges :=
        s.pendingChallenges.insert peer (s.challenge C peer invitation device nonce) }
  | proved {peer : PeerId} {invitation : EventId} {signature : ByteString}
      {channel : ResponseChannel} {nonce : Bytes BOOTSTRAP_NONCE_BYTES} {pending : PendingChallenge}
      {grant : BootstrapGrant} {sent : List SwarmCommand} {event : Option NetworkEvent}
      (hpending : s.pendingChallenges[peer]? = some pending)
      (hgrant : s.bootstrapGrants[invitation]? = some grant)
      (hinvitation : pending.invitation = invitation)
      (hverify : verify C grant.capabilityPublicKey.toList pending.proofBytes signature = .ok ())
      (hsent : ∀ command ∈ sent,
        command = .sendResponse channel (.bootstrapAncestry invitation grant.ancestry))
      (hevent : Silent event) :
    Move C P s (.swarm (.request peer (.bootstrapProve invitation signature) channel nonce)) sent
      event
      { s with
        pendingChallenges := s.pendingChallenges.erase peer
        provedBootstraps := s.provedBootstraps.insert peer
          { invitation, authenticated := pending.authenticated } }
  | surfaced {peer : PeerId} {invitation : EventId} {acceptance : SignedEvent}
      {channel : ResponseChannel} {nonce : Bytes BOOTSTRAP_NONCE_BYTES} {proved : ProvedBootstrap}
      (hproved : s.provedBootstraps[peer]? = some proved)
      (hinvitation : proved.invitation = invitation)
      (hparent : invitation ∈ acceptance.content.parents)
      (hauthor : authorId C acceptance = .ok proved.authenticated.userId) :
    Move C P s (.swarm (.request peer (.bootstrapAccept invitation acceptance) channel nonce)) []
      (some (.bootstrapAcceptance peer proved.authenticated.userId invitation acceptance))
      { s with
        provedBootstraps := s.provedBootstraps.erase peer
        pendingAcceptances := s.pendingAcceptances.insert peer
          { invitation, authenticated := proved.authenticated, channel } }

/-- `later` has the sessions of `node`, and what was sent in between satisfies `Q`. -/
structure Extends (Q : SwarmCommand → Prop) (node later : NetworkNode) : Prop where
  session : later.session = node.session
  sent : ∃ sent, later.swarm = node.swarm ++ sent ∧ ∀ command ∈ sent, Q command

namespace Extends

variable {Q Q' : SwarmCommand → Prop} {node later last : NetworkNode}

theorem of_eq (hsession : later.session = node.session) (hswarm : later.swarm = node.swarm) :
    Extends Q node later := ⟨hsession, [], by simp [hswarm], by simp⟩

theorem refl : Extends Q node node := of_eq rfl rfl

theorem trans (h : Extends Q node later) (h' : Extends Q later last) : Extends Q node last := by
  obtain ⟨sent, hsent, hQ⟩ := h.sent
  obtain ⟨sent', hsent', hQ'⟩ := h'.sent
  refine ⟨h'.session.trans h.session, sent ++ sent', by rw [hsent', hsent, List.append_assoc], ?_⟩
  intro command hcommand
  rcases List.mem_append.mp hcommand with hcommand | hcommand
  · exact hQ command hcommand
  · exact hQ' command hcommand

theorem issued {command : SwarmCommand} (h : Q command) :
    Extends Q node { node with swarm := node.swarm ++ [command] } :=
  ⟨rfl, [command], rfl, by simpa using h⟩

end Extends

/-- From `node` the computation leaves the sessions alone, what it sends satisfies `Q` and
what it returns satisfies `R`. -/
def Keeps (Q : SwarmCommand → Prop) {α : Type} (R : α → Prop) (node : NetworkNode)
    (x : NetworkM α) : Prop :=
  Triple (· = node) x (fun a later => R a ∧ Extends Q node later) fun _ => Extends Q node

namespace Keeps

variable {Q Q' : SwarmCommand → Prop} {node later : NetworkNode} {α β : Type} {R : α → Prop}
  {R' : β → Prop} {x y : NetworkM α} {f : α → NetworkM β}

theorem pure {a : α} (h : R a) : Keeps Q R node (pure a) :=
  Triple.pure fun _ hs => ⟨h, hs ▸ .refl⟩

theorem throw {e : NetworkError} : Keeps Q R node (throw e) := Triple.throw fun _ h => h ▸ .refl

theorem from_later (h : Extends Q node later) (hx : Keeps Q R later x) :
    Triple (· = later) x (fun a last => R a ∧ Extends Q node last) fun _ => Extends Q node := by
  intro s hs
  have hkeeps := hx s hs
  revert hkeeps
  cases x s with
  | ok a last => exact fun ⟨ha, hlast⟩ => ⟨ha, h.trans hlast⟩
  | error e last => exact fun hlast => h.trans hlast

theorem bind (hx : Keeps Q R node x) (hf : ∀ a later, Keeps Q R' later (f a)) :
    Keeps Q R' node (x >>= f) :=
  Triple.bind hx fun a later h => from_later h.2 (hf a later) later rfl

theorem ite {p : Prop} [Decidable p] (hx : p → Keeps Q R node x) (hy : ¬ p → Keeps Q R node y) :
    Keeps Q R node (if p then x else y) := Triple.ite hx hy

theorem get {f : NetworkNode → NetworkM β} (h : Keeps Q R' node (f node)) :
    Keeps Q R' node (get >>= f) := Triple.get_bind fun _ hs => hs ▸ h

theorem set {f : PUnit → NetworkM β} (h : Extends Q node later) (hf : Keeps Q R' later (f ⟨⟩)) :
    Keeps Q R' node (set later >>= f) := Triple.set_bind (from_later h hf)

theorem modify {g : NetworkNode → NetworkNode} {f : PUnit → NetworkM β}
    (h : Extends Q node (g node)) (hf : Keeps Q R' (g node) (f ⟨⟩)) :
    Keeps Q R' node (modify g >>= f) := fun s hs => from_later h hf (g s) (congrArg g hs)

theorem forM {l : List α} {f : α → NetworkM PUnit} {R : PUnit → Prop} (hR : R ⟨⟩)
    (h : ∀ a ∈ l, ∀ later, Keeps Q R later (f a)) : Keeps Q R node (l.forM f) := by
  induction l generalizing node with
  | nil => exact pure hR
  | cons a l ih =>
    exact bind (h a (by simp) node) fun _ _ => ih fun b hb => h b (List.mem_cons_of_mem a hb)

end Keeps

def Moves (C : Crypto) (P : PeerNames) (node : NetworkNode) (input : Input)
    (event : Option NetworkEvent) (later : NetworkNode) : Prop :=
  ∃ sent, later.swarm = node.swarm ++ sent ∧ Move C P node.session input sent event later.session

/-- The computation, run on `node` for `input`, ends in a move of the sessions. -/
def Leads (C : Crypto) (P : PeerNames) (node : NetworkNode) (input : Input) {α : Type}
    (event : α → Option NetworkEvent) (x : NetworkM α) : Prop :=
  Triple (· = node) x (fun a later => Moves C P node input (event a) later) fun _ later =>
    Moves C P node input none later

end ChatCommons
