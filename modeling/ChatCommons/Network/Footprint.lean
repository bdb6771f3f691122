import ChatCommons.Network.Moves

/-!
What a turn may leave behind: whom the tables of the node name, who is a relay, to whom the
certificate goes and how the peer of synchronization got where it is.
-/

namespace ChatCommons

open Collections Stateful NetworkNode

namespace NetworkNode

/-- Some table of the node names the peer. -/
def Holds (node : NetworkNode) (peer : PeerId) : Prop :=
  peer ∈ node.authenticated ∨ peer ∈ node.authenticatedDevices ∨ peer ∈ node.authenticationSent ∨
    peer ∈ node.acceptedByRemote ∨ peer ∈ node.syncStarted ∨ peer ∈ node.provisional ∨
    peer ∈ node.pendingChallenges ∨ peer ∈ node.provedBootstraps ∨ peer ∈ node.pendingAcceptances

end NetworkNode

section Vocabulary

variable (C : Crypto) (P : PeerNames)

def Input.Reaches (peer : PeerId) : Input → Prop
  | .swarm (.connectionEstablished sender _) => sender = peer
  | .swarm (.request sender _ _ _) => sender = peer
  | .swarm (.response sender _) => sender = peer
  | _ => False

def Input.MakesRelay (peer : PeerId) : Input → Prop
  | .call (.reserveRelay address) => relayPeerFromBase address = some peer
  | .call (.dial _ address) => relayPeerFromRoute address = some peer
  | _ => False

def SwarmCommand.ShowsCertificate (peer : PeerId) : SwarmCommand → Prop
  | .sendRequest receiver (.authenticate _) => receiver = peer
  | .sendRequest receiver (.bootstrapBegin _ _) => receiver = peer
  | _ => False

/-- The node answers the input with its own certificate: the peer connects and is no relay, or it
shows a valid certificate as the bootstrap target. -/
def NetworkNode.Greets (node : NetworkNode) (peer : PeerId) : Input → Prop
  | .swarm (.connectionEstablished sender _) => sender = peer ∧ peer ∉ node.relayPeers
  | .swarm (.request sender (.authenticate certificate) _ _) => sender = peer ∧
    (∃ target ∈ node.bootstrapTarget, target.peer = peer) ∧
    ∃ device, node.session.Vets C P peer certificate device ∧ ¬ node.session.Trusts device
  | _ => False

/-- One step of the peer of synchronization in a turn. -/
inductive SyncStep (input : Input) (sync : SyncPeer) : SyncPeer → Prop
  | receive (message : SyncMessage) : SyncStep input sync (sync.receive C message).1
  | ingest {events : List SignedEvent} (h : input = .call (.ingest events)) :
    SyncStep input sync { sync with node := (sync.node.ingest C events).1 }

/-- What lies between two states of a turn that `first` takes at `input`. -/
structure Footprint (first : NetworkNode) (input : Input) (node later : NetworkNode) : Prop where
  held : ∀ peer, later.Holds peer → node.Holds peer ∨ input.Reaches peer
  relays : ∀ peer ∈ node.relayPeers, peer ∈ later.relayPeers
  made : ∀ peer ∈ later.relayPeers, peer ∈ node.relayPeers ∨ input.MakesRelay peer
  synced : Relation.ReflTransGen (SyncStep C input) node.sync later.sync
  sent : ∃ sent, later.swarm = node.swarm ++ sent ∧
    ∀ command ∈ sent, ∀ peer, command.ShowsCertificate peer → first.Greets C P peer input

end Vocabulary

variable {C : Crypto} {P : PeerNames} {T : Transport} {first node later last : NetworkNode}
  {input : Input} {peer : PeerId}

namespace Footprint

theorem refl (node : NetworkNode) : Footprint C P first input node node :=
  ⟨fun _ => Or.inl, fun _ => id, fun _ => Or.inl, .refl, [], by simp, by simp⟩

theorem trans (h : Footprint C P first input node later)
    (h' : Footprint C P first input later last) : Footprint C P first input node last where
  held peer hpeer := (h'.held peer hpeer).elim (h.held peer) Or.inr
  relays peer hpeer := h'.relays peer (h.relays peer hpeer)
  made peer hpeer := (h'.made peer hpeer).elim (h.made peer) Or.inr
  synced := h.synced.trans h'.synced
  sent := by
    obtain ⟨sent, hsent, hgreets⟩ := h.sent
    obtain ⟨sent', hsent', hgreets'⟩ := h'.sent
    refine ⟨sent ++ sent', by rw [hsent', hsent, List.append_assoc], fun command hcommand => ?_⟩
    rcases List.mem_append.mp hcommand with hcommand | hcommand
    · exact hgreets command hcommand
    · exact hgreets' command hcommand

instance : IsPreorder NetworkNode (Footprint C P first input) where
  refl := refl
  trans _ _ _ := trans

theorem tables (hheld : ∀ peer, later.Holds peer → node.Holds peer ∨ input.Reaches peer)
    (hrelays : later.relayPeers = node.relayPeers) (hsync : later.sync = node.sync)
    (hswarm : later.swarm = node.swarm) : Footprint C P first input node later :=
  ⟨hheld, fun _ h => hrelays ▸ h, fun _ h => Or.inl (hrelays ▸ h), hsync ▸ .refl, [],
    by simp [hswarm], by simp⟩

theorem reached (peer : PeerId) (hpeer : input.Reaches peer)
    (hheld : ∀ q, later.Holds q → node.Holds q ∨ peer = q)
    (hrelays : later.relayPeers = node.relayPeers) (hsync : later.sync = node.sync)
    (hswarm : later.swarm = node.swarm) : Footprint C P first input node later :=
  tables (fun q hq => (hheld q hq).imp_right fun heq : peer = q => heq ▸ hpeer) hrelays hsync hswarm

theorem issued {command : SwarmCommand}
    (h : ∀ peer, command.ShowsCertificate peer → first.Greets C P peer input) :
    Footprint C P first input node { node with swarm := node.swarm ++ [command] } :=
  ⟨fun _ => Or.inl, fun _ => id, fun _ => Or.inl, .refl, [command], rfl, by simpa using h⟩

theorem relay {relay : PeerId} (h : input.MakesRelay relay) :
    Footprint C P first input node { node with relayPeers := node.relayPeers.insert relay } where
  held _ := Or.inl
  relays _ hpeer := mem_insert.mpr (Or.inr hpeer)
  made peer hpeer := (mem_insert.mp hpeer).elim (fun heq => Or.inr (heq ▸ h)) Or.inl
  synced := .refl
  sent := ⟨[], by simp, by simp⟩

theorem sync {sync : SyncPeer} (h : SyncStep C input node.sync sync) :
    Footprint C P first input node { node with sync } :=
  ⟨fun _ => Or.inl, fun _ => id, fun _ => Or.inl, .single h, [], by simp, by simp⟩

end Footprint

section Plumbing

theorem issue_footprint {command : SwarmCommand}
    (h : ∀ peer, command.ShowsCertificate peer → first.Greets C P peer input) :
    Evolves (Footprint C P first input) node (issue T command) :=
  .get (.set_bind (.issued h) .pure)

theorem respond_footprint {channel : ResponseChannel} {response : NetworkResponse} :
    Evolves (Footprint C P first input) node (respond T channel response) := by
  refine Evolves.ite (fun _ => .throw) fun _ =>
    .bind (issue_footprint fun _ => False.elim) fun sent _ _ => ?_
  cases sent with
  | error e => exact .throw
  | ok u => exact .pure

theorem send_footprint {request : NetworkRequest} (h : ∀ q,
    (SwarmCommand.sendRequest peer request).ShowsCertificate q → first.Greets C P q input) :
    Evolves (Footprint C P first input) node (send T peer request) :=
  Evolves.ite (fun _ => .throw) fun _ => .bind (issue_footprint h) fun _ _ _ => .pure

theorem listen_footprint {address : Multiaddr} :
    Evolves (Footprint C P first input) node (NetworkNode.listen T address) := by
  refine Evolves.bind (issue_footprint fun _ => False.elim) fun sent _ _ => ?_
  cases sent with
  | error e => exact .throw
  | ok u => exact .pure

theorem reserveRelay_footprint {address : Multiaddr}
    (h : ∀ relay, relayPeerFromBase address = some relay → input.MakesRelay relay) :
    Evolves (Footprint C P first input) node (reserveRelay T address) := by
  unfold reserveRelay
  cases hrelay : relayPeerFromBase address with
  | none => exact .throw
  | some relay =>
    refine Evolves.ite (fun _ => .throw) fun _ => .modify_bind (.relay (h relay hrelay)) (.get ?_)
    refine Evolves.ite (fun _ => .throw) fun _ => .set_bind (.tables (fun _ => Or.inl) rfl rfl rfl) ?_
    refine Evolves.bind (issue_footprint fun _ => False.elim) fun sent _ _ => ?_
    cases sent with
    | error e => exact .modify_bind (.tables (fun _ => Or.inl) rfl rfl rfl) .throw
    | ok u => exact .pure

theorem dial_footprint {address : Multiaddr}
    (h : ∀ relay, relayPeerFromRoute address = some relay → input.MakesRelay relay) :
    Evolves (Footprint C P first input) node (dial T peer address) := by
  unfold dial
  refine Evolves.ite (fun _ => ?_) fun _ => ?_
  · cases hrelay : relayPeerFromRoute address with
    | none => exact .throw
    | some relay =>
      refine Evolves.modify_bind (.relay (h relay hrelay)) ?_
      cases relayBaseFromRoute address with
      | none => exact .throw
      | some relayBase =>
        refine Evolves.get (.ite (fun _ => .throw) fun _ =>
          .set_bind (.tables (fun _ => Or.inl) rfl rfl rfl) ?_)
        refine Evolves.bind (issue_footprint fun _ => False.elim) fun sent _ _ => ?_
        cases sent with
        | error e => exact .modify_bind (.tables (fun _ => Or.inl) rfl rfl rfl) .throw
        | ok u => exact .pure
  · refine Evolves.bind (issue_footprint fun _ => False.elim) fun sent _ _ => ?_
    cases sent with
    | error e => exact .throw
    | ok u => exact .pure

theorem maybeStartSync_footprint :
    Evolves (Footprint C P first input) node (maybeStartSync T peer) := by
  refine .get (.ite (fun hready => ?_) fun _ => .pure)
  refine .set_bind (.tables (fun q hq => ?_) rfl rfl rfl) (send_footprint fun _ => False.elim)
  simp only [Holds, mem_insert] at hq
  by_cases heq : peer = q
  · exact Or.inl (Or.inl (heq ▸ hready.1))
  · left
    unfold Holds
    tauto

theorem startBootstrap_footprint (h : first.Greets C P peer input) :
    Evolves (Footprint C P first input) node (startBootstrap T peer) := by
  refine .get ?_
  cases node.targetOf peer with
  | none => exact .throw
  | some target => exact send_footprint fun q hq => hq ▸ h

theorem connectionEstablished_footprint {relayed : Bool} :
    Evolves (Footprint C P node (.swarm (.connectionEstablished peer relayed))) node
      (connectionEstablished T peer relayed) := by
  refine .get (.ite (fun _ => .pure) fun hrelay => ?_)
  have hsend : ∀ {node' : NetworkNode}, Evolves
      (Footprint C P node (.swarm (.connectionEstablished peer relayed))) node'
      (send T peer (.authenticate node.certificate)) := send_footprint fun q hq =>
    hq ▸ ⟨rfl, hrelay⟩
  refine .ite (fun _ => .modify_bind (.tables (fun _ => Or.inl) rfl rfl rfl) ?_) fun _ => ?_
  all_goals
    refine .ite (fun _ => .modify_bind (.reached peer rfl (fun q hq => ?_) rfl rfl rfl)
      (.bind hsend fun _ _ _ => .pure)) fun _ => .pure
    simp only [Holds, mem_insert] at hq ⊢
    tauto

theorem identifyReceived_footprint {observed : Multiaddr} :
    Evolves (Footprint C P first input) node (identifyReceived T peer observed) := by
  unfold identifyReceived
  refine .get ?_
  rcases node.pendingRelayReservations[peer]? with _ | route
  case' some =>
    refine .set_bind (.tables (fun _ => Or.inl) rfl rfl rfl)
        (.bind listen_footprint fun _ node _ => ?_)
  all_goals
    refine .get ?_
    rcases node.pendingRelayDials[peer]? with _ | row
    · exact .pure
    · refine .set_bind (.tables (fun _ => Or.inl) rfl rfl rfl)
        (.bind (issue_footprint fun _ => False.elim) fun sent _ _ => ?_)
      cases sent with
      | error e => exact .bind .throw fun _ _ _ => .pure
      | ok u => exact .pure

end Plumbing

section Requests

variable {request : NetworkRequest} {channel : ResponseChannel} {response : NetworkResponse}
  {nonce : Bytes BOOTSTRAP_NONCE_BYTES}

theorem answered_footprint (hrequest : ∀ i a, request ≠ .bootstrapAccept i a)
    (h : node.handleRequest C P nonce peer request = (later, response, none))
    (hstep : Footprint C P first input node later) :
    Evolves (Footprint C P first input) node
      (handleRequestMessage C P T peer request channel nonce) :=
  handleRequestMessage_run hrequest h
    (Evolves.from_later hstep (.bind respond_footprint fun _ _ _ => .pure))

theorem receiveValid_step (C : Crypto) (input : Input) (node : NetworkNode)
    (message : SyncMessage) :
    ∃ sync, SyncStep C input node.sync sync ∧
      (receiveSync.receiveValid C node message).1 = { node with sync } := by
  refine ⟨(node.sync.receive C message).1, .receive message, ?_⟩
  unfold receiveSync.receiveValid
  cases node.sync.receive C message with
  | mk sync result =>
    cases result with
    | error e => rfl
    | ok messages =>
      dsimp only
      cases normalizeMessages messages with
      | error reason => rfl
      | ok messages => rfl

theorem receiveSync_footprint (message : SyncMessage) :
    Footprint C P first input node (node.receiveSync C peer message).1 := by
  obtain ⟨sync, hstep, heq⟩ := receiveValid_step C input node message
  have hvalid : Footprint C P first input node (receiveSync.receiveValid C node message).1 :=
    heq ▸ .sync hstep
  unfold receiveSync
  split_ifs
  swap
  · exact .refl node
  · cases message with
    | want community ids =>
      dsimp only
      split_ifs
      · exact .refl node
      · exact hvalid
    | hello _ _ _ => exact hvalid
    | heads _ _ => exact hvalid
    | events _ _ => exact hvalid

theorem beginBootstrap_footprint {certificate : DeviceCertificate} {invitation : EventId}
    (hpeer : input.Reaches peer) :
    Footprint C P first input node
      (node.beginBootstrap C P nonce peer certificate invitation).1 := by
  unfold beginBootstrap
  cases node.validatePeerCertificate C P peer certificate with
  | error reason => exact .refl node
  | ok device =>
    dsimp only
    split_ifs
    · refine .reached peer hpeer (fun q hq => ?_) rfl rfl rfl
      simp only [Holds, mem_map_insert] at hq ⊢
      tauto
    · exact .refl node

theorem proveBootstrap_footprint {invitation : EventId} {signature : ByteString}
    (hpeer : input.Reaches peer) :
    Footprint C P first input node (node.proveBootstrap C peer invitation signature).1 := by
  unfold proveBootstrap
  cases node.pendingChallenges[peer]? with
  | none => exact .refl node
  | some pending =>
    dsimp only
    cases node.bootstrapGrants[invitation]? with
    | none =>
      refine .reached peer hpeer (fun q hq => ?_) rfl rfl rfl
      simp only [Holds, mem_map_erase] at hq ⊢
      tauto
    | some grant =>
      dsimp only
      split_ifs
      all_goals
        refine .reached peer hpeer (fun q hq => ?_) rfl rfl rfl
        simp only [Holds, mem_map_erase, mem_map_insert] at hq ⊢
        tauto

theorem authenticate_footprint {certificate : DeviceCertificate} :
    Evolves (Footprint C P node (.swarm (.request peer (.authenticate certificate) channel nonce)))
      node (handleRequestMessage C P T peer (.authenticate certificate) channel nonce) := by
  obtain ⟨reason, h⟩ | ⟨device, _, _, h⟩ | ⟨device, hvets, ⟨hnot, htarget⟩, h⟩ :=
    authenticate_cases C P node peer certificate
  · exact answered_footprint (by simp) (by rw [handleRequest, h]) (.refl node)
  all_goals
    refine .get ?_
    rw [handleRequest, h]
    refine .set_bind (.reached peer rfl (fun q hq => ?_) rfl rfl rfl) ?_
    · simp only [Holds, mem_insert, mem_map_insert] at hq ⊢
      tauto
    refine .bind respond_footprint fun _ _ _ => .bind ?_ fun _ _ _ => .pure
  · exact maybeStartSync_footprint
  · exact startBootstrap_footprint ⟨rfl, htarget, device, hvets, hnot⟩

theorem handleBootstrapAcceptance_footprint {invitation : EventId} {acceptance : SignedEvent}
    (hpeer : input.Reaches peer) :
    Evolves (Footprint C P first input) node
      (handleBootstrapAcceptance C T peer invitation acceptance channel) := by
  refine .get (.set_bind (.reached peer hpeer (fun q hq => ?_) rfl rfl rfl) ?_)
  · simp only [Holds, mem_map_erase] at hq ⊢
    tauto
  cases node.provedBootstraps[peer]?.filter (node.acceptanceValid C invitation acceptance) with
  | none => exact .bind respond_footprint fun _ _ _ => .pure
  | some proved =>
    refine .ite (fun _ => .bind respond_footprint fun _ _ _ => .pure) fun _ => ?_
    refine .modify_bind (.reached peer hpeer (fun q hq => ?_) rfl rfl rfl) .pure
    simp only [Holds, mem_map_insert] at hq ⊢
    tauto

theorem request_footprint :
    Evolves (Footprint C P node (.swarm (.request peer request channel nonce))) node
      (handleRequestMessage C P T peer request channel nonce) := by
  cases request with
  | authenticate certificate => exact authenticate_footprint
  | sync message => exact answered_footprint (by simp) rfl (receiveSync_footprint message)
  | bootstrapBegin certificate invitation =>
    exact answered_footprint (by simp) rfl (beginBootstrap_footprint rfl)
  | bootstrapProve invitation signature =>
    exact answered_footprint (by simp) rfl (proveBootstrap_footprint rfl)
  | bootstrapAccept invitation acceptance => exact handleBootstrapAcceptance_footprint rfl

end Requests

section Responses

theorem receiveResponse_footprint {message : SyncMessage} :
    Evolves (Footprint C P first input) node (receiveResponse C T peer message) := by
  refine .get ?_
  have hstep : SyncStep C input node.sync (node.sync.receive C message).1 := .receive message
  cases hreceive : node.sync.receive C message with
  | mk sync result =>
    rw [hreceive] at hstep
    refine .set_bind (.sync hstep) ?_
    cases result with
    | error e => exact .throw
    | ok messages =>
      dsimp only
      cases normalizeMessages messages with
      | error reason => exact .throw
      | ok outgoing =>
        exact .forM fun m _ _ _ => send_footprint fun _ => False.elim

theorem response_footprint {response : NetworkResponse} :
    Evolves (Footprint C P first (.swarm (.response peer response))) node
      (handleResponse C T peer response) := by
  cases response with
  | authenticated =>
    refine .modify_bind (.reached peer rfl (fun q hq => ?_) rfl rfl rfl)
      (.bind maybeStartSync_footprint fun _ _ _ => .pure)
    simp only [Holds, mem_insert] at hq ⊢
    tauto
  | sync messages =>
    refine .get (.ite (fun _ => .throw) fun _ => .ite (fun _ => .throw) fun _ => ?_)
    exact .bind (.forM fun _ _ _ _ => receiveResponse_footprint) fun _ _ _ => .pure
  | bootstrapChallenge invitation nonce =>
    refine .get ?_
    cases node.targetFor peer invitation with
    | none => exact .throw
    | some target =>
      dsimp only
      cases validateDeviceCertificate C node.certificate with
      | error e => exact .throw
      | ok device => exact .pure
  | bootstrapAncestry invitation events =>
    refine .get ?_
    cases node.targetFor peer invitation with
    | none => exact .throw
    | some target =>
      exact .ite (fun _ => .throw) fun _ => .ite (fun _ => .throw) fun _ =>
        .ite (fun _ => .throw) fun _ => .pure
  | bootstrapAccepted =>
    refine .get ?_
    cases (node.targetOf peer).filter BootstrapTarget.endpointApproved with
    | none => exact .throw
    | some target =>
      dsimp only
      cases node.provisional[peer]? with
      | none => exact .throw
      | some device =>
        refine .set_bind (.reached peer rfl (fun q hq => ?_) rfl rfl rfl)
          (.bind maybeStartSync_footprint fun _ _ _ => .pure)
        simp only [Holds, mem_insert, mem_map_insert, mem_map_erase] at hq ⊢
        tauto
  | rejected reason => exact .get (.ite (fun _ => .pure) fun _ => .throw)

end Responses

section Turns

theorem dropAuthorization_footprint (peers : List PeerId) :
    Footprint C P first input node (peers.foldl dropAuthorization node) := by
  induction peers generalizing node with
  | nil => exact .refl node
  | cons peer peers ih =>
    have hdrop : Footprint C P first input node (node.dropAuthorization peer) := by
      refine ⟨fun q hq => Or.inl ?_, fun _ => id, fun _ => Or.inl, .refl, [.disconnect peer], rfl,
        by simp [SwarmCommand.ShowsCertificate]⟩
      simp only [Holds, dropAuthorization, mem_erase, mem_map_erase] at hq ⊢
      tauto
    exact hdrop.trans ih

theorem replaceAuthorization_footprint {users : BTreeSet UserId} {devices : BTreeSet DeviceId} :
    Footprint C P first input node (node.replaceAuthorization users devices) := by
  have hlists : Footprint C P first input node { node with
      allowedUsers := users, trustedInfrastructureDevices := devices } :=
    .tables (fun _ => Or.inl) rfl rfl rfl
  exact hlists.trans (dropAuthorization_footprint _)

theorem resolveBootstrapAcceptance_footprint {approved : Bool} :
    Evolves (Footprint C P first input) node (resolveBootstrapAcceptance T peer approved) := by
  refine .get ?_
  cases hpending : node.pendingAcceptances[peer]? with
  | none => exact .throw
  | some pending =>
    have hheld : node.Holds peer := by
      simp [Holds, mem_of_getElem? hpending]
    cases approved with
    | true =>
      refine Triple.set_bind (Triple.modify_bind_eq (Evolves.from_later (s := node)
        (.tables (fun q hq => ?_) rfl rfl rfl) ?_))
      · simp only [Holds, mem_insert, mem_map_insert, mem_map_erase] at hq
        by_cases heq : peer = q
        · exact Or.inl (heq ▸ hheld)
        · left
          unfold Holds
          tauto
      · refine .bind (issue_footprint fun _ => False.elim) fun sent later hlater => ?_
        cases sent with
        | error e => exact .throw
        | ok u => exact maybeStartSync_footprint
    | false =>
      refine .set_bind (.tables (fun q hq => ?_) rfl rfl rfl)
        (.bind (issue_footprint fun _ => False.elim) fun sent _ _ => ?_)
      · simp only [Holds, mem_map_erase] at hq ⊢
        tauto
      · cases sent with
        | error e => exact .throw
        | ok u => exact .pure

theorem call_footprint {call : NetworkCall} :
    Evolves (Footprint C P first (.call call)) node (perform C T call) := by
  have hkept : ∀ {later : NetworkNode}, later.Holds = node.Holds →
      later.relayPeers = node.relayPeers → later.sync = node.sync → later.swarm = node.swarm →
      Footprint C P first (.call call) node later := fun hheld =>
    .tables fun q hq => Or.inl (hheld ▸ hq)
  cases call with
  | listen address => exact listen_footprint
  | reserveRelay address => exact .bind (reserveRelay_footprint fun _ => id) fun _ _ _ => .pure
  | dial peer address => exact dial_footprint fun _ => id
  | replaceAuthorization users devices =>
    rintro _ rfl
    exact replaceAuthorization_footprint
  | registerBootstrapGrant grant =>
    refine .get ?_
    cases node.validateBootstrapGrant C grant with
    | error e => exact .throw
    | ok u => exact .set (hkept rfl rfl rfl rfl)
  | replaceBootstrapGrants grants =>
    refine .get ?_
    cases grants.forM (node.validateBootstrapGrant C) with
    | error e => exact .throw
    | ok u => exact .set (hkept rfl rfl rfl rfl)
  | configureBootstrapTarget peer invitation =>
    exact .get (.ite (fun _ => .throw) fun _ => .set (hkept rfl rfl rfl rfl))
  | approveBootstrapEndpoint peer =>
    refine .get ?_
    cases node.targetOf peer with
    | none => exact .throw
    | some target => exact .ite (fun _ => .set (hkept rfl rfl rfl rfl)) fun _ => .throw
  | submitBootstrapProof peer invitation signature =>
    refine .get ?_
    cases node.targetFor peer invitation with
    | none => exact .throw
    | some target => exact .ite (fun _ => .throw) fun _ => send_footprint fun _ => False.elim
  | submitBootstrapAcceptance peer invitation acceptance =>
    refine .get ?_
    cases node.targetFor peer invitation with
    | none => exact .throw
    | some target =>
      refine .ite (fun _ => .throw) fun _ => ?_
      cases validateEvent C acceptance with
      | error e => exact .throw
      | ok u => exact send_footprint fun _ => False.elim
  | resolveBootstrapAcceptance peer approved => exact resolveBootstrapAcceptance_footprint
  | ingest events =>
    rintro _ rfl
    exact .sync (.ingest rfl)

theorem closeSession_holds {q : PeerId} :
    (node.closeSession peer).Holds q ↔ node.Holds q ∧ peer ≠ q := by
  by_cases heq : peer = q <;> simp [Holds, closeSession, heq]

theorem connectionClosed_footprint {numEstablished : ℕ} :
    Evolves (Footprint C P first input) node (connectionClosed peer numEstablished) := by
  refine .get (.ite (fun _ => .pure) fun _ => .ite (fun _ => .pure) fun _ => ?_)
  exact .set_bind (.tables (fun q hq => Or.inl (closeSession_holds.mp hq).1) rfl rfl rfl) .pure

theorem nextEvent_footprint {event : SwarmEvent} :
    Evolves (Footprint C P node (.swarm event)) node (nextEvent C P T event) := by
  cases event with
  | connectionEstablished peer relayed => exact .map connectionEstablished_footprint
  | connectionClosed peer numEstablished => exact connectionClosed_footprint
  | request peer request channel nonce => exact .map request_footprint
  | response peer response => exact .map response_footprint
  | identifyReceived peer observed => exact .map identifyReceived_footprint
  | dcutr peer result =>
    cases result with
    | error e => exact .pure
    | ok u => exact .pure
  | outgoingConnectionError peer error isConnected =>
    refine .get ?_
    cases peer with
    | none => exact .throw
    | some peer =>
      exact .ite (fun _ => .pure) fun _ => .ite (fun _ => .pure) fun _ =>
        .ite (fun _ => .pure) fun _ => .throw
  | listenerError error => exact .throw
  | newListenAddr _ | requestFailure _ _ | responseSent _ | reservationReqAccepted _
  | outboundCircuitEstablished _ | inboundCircuitEstablished _ | other => exact .pure

theorem turn_footprint (node : NetworkNode) (input : Input) :
    Footprint C P node input node (node.turn C P T input).next := by
  have h : Evolves (Footprint C P node input) node (handle C P T input) := by
    cases input with
    | swarm event => exact nextEvent_footprint
    | call call => exact .bind call_footprint fun _ _ _ => .pure
  have hturn := h node rfl
  unfold turn Turn.next
  revert hturn
  cases handle C P T input node with
  | ok event later => exact id
  | error e later => exact id

theorem Turn.sent_eq {turn : Turn} {sent : List SwarmCommand}
    (h : turn.next.swarm = turn.node.swarm ++ sent) : turn.sent = sent := by
  rw [Turn.sent, h, List.drop_left]

theorem turn_shows {command : SwarmCommand} (h : command ∈ (node.turn C P T input).sent)
    (hshows : command.ShowsCertificate peer) : node.Greets C P peer input := by
  obtain ⟨sent, hsent, hgreets⟩ := (turn_footprint (C := C) (P := P) (T := T) node input).sent
  rw [Turn.sent_eq hsent] at h
  exact hgreets command h peer hshows

end Turns

end ChatCommons
