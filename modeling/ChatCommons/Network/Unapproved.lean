import ChatCommons.Network.Moves

/-!
Until the endpoint of a join is approved, the node lets nobody in and takes in nothing.
-/

namespace ChatCommons

open Collections Stateful NetworkNode

/-- Nobody is authenticated or trusted, and no endpoint is approved. -/
structure Shut (authenticated : BTreeSet PeerId) (allowedUsers : BTreeSet UserId)
    (trusted : BTreeSet DeviceId) (target : Option BootstrapTarget) : Prop where
  authenticated : ∀ peer, peer ∉ authenticated
  users : ∀ user, user ∉ allowedUsers
  devices : ∀ device, device ∉ trusted
  target : ∀ t ∈ target, t.endpointApproved = false

def NetworkNode.Unapproved (sync : SyncPeer) (node : NetworkNode) : Prop :=
  node.sync = sync ∧ Shut node.authenticated node.allowedUsers node.trustedInfrastructureDevices
    node.bootstrapTarget

variable {C : Crypto} {P : PeerNames} {T : Transport} {sync : SyncPeer} {node : NetworkNode}
  {peer : PeerId}

theorem NetworkNode.Unapproved.untrusted (h : node.Unapproved sync) (device : AuthenticatedDevice) :
    ¬ node.isTrusted device = true := by
  rw [isTrusted_iff]
  rintro (hu | hd)
  · exact h.2.users _ hu
  · exact h.2.devices _ hd

section Plumbing

theorem issue_unapproved {command : SwarmCommand} :
    Evolves (Preserves (Unapproved sync)) node (issue T command) :=
  .get (.set_bind id .pure)

theorem respond_unapproved {channel : ResponseChannel} {response : NetworkResponse} :
    Evolves (Preserves (Unapproved sync)) node (respond T channel response) := by
  apply Evolves.ite (fun _ => .throw)
  intro _
  apply Evolves.bind issue_unapproved
  intro sent _ _
  cases sent with
  | error e => exact .throw
  | ok u => exact .pure

theorem send_unapproved {request : NetworkRequest} :
    Evolves (Preserves (Unapproved sync)) node (send T peer request) :=
  Evolves.ite (fun _ => .throw) fun _ => .bind issue_unapproved fun _ _ _ => .pure

theorem listen_unapproved {address : Multiaddr} :
    Evolves (Preserves (Unapproved sync)) node (NetworkNode.listen T address) := by
  apply Evolves.bind issue_unapproved
  intro sent _ _
  cases sent with
  | error e => exact .throw
  | ok u => exact .pure

theorem dial_unapproved {address : Multiaddr} :
    Evolves (Preserves (Unapproved sync)) node (dial T peer address) := by
  unfold dial
  apply Evolves.ite
  · intro _
    cases relayPeerFromRoute address with
    | none => exact .throw
    | some relay =>
      refine Evolves.modify_bind id ?_
      cases relayBaseFromRoute address with
      | none => exact .throw
      | some relayBase =>
        refine Evolves.get (.ite (fun _ => .throw) fun _ => .set_bind id ?_)
        apply Evolves.bind issue_unapproved
        intro sent _ _
        cases sent with
        | error e => exact .modify_bind id .throw
        | ok u => exact .pure
  · intro _
    apply Evolves.bind issue_unapproved
    intro sent _ _
    cases sent with
    | error e => exact .throw
    | ok u => exact .pure

theorem maybeStartSync_unapproved :
    Evolves (Preserves (Unapproved sync)) node (maybeStartSync T peer) :=
  .get (.ite (fun _ => .set_bind id send_unapproved) fun _ => .pure)

theorem startBootstrap_unapproved :
    Evolves (Preserves (Unapproved sync)) node (startBootstrap T peer) := by
  apply Evolves.get
  cases node.targetOf peer with
  | none => exact .throw
  | some target => exact send_unapproved

theorem connectionEstablished_unapproved {relayed : Bool} :
    Evolves (Preserves (Unapproved sync)) node (connectionEstablished T peer relayed) := by
  refine .get (.ite (fun _ => .pure) fun _ => ?_)
  refine .ite (fun _ => .modify_bind id ?_) fun _ => ?_
  all_goals
    exact .ite (fun _ => .modify_bind id (.bind send_unapproved fun _ _ _ => .pure)) fun _ => .pure

theorem identifyReceived_unapproved {observed : Multiaddr} :
    Evolves (Preserves (Unapproved sync)) node (identifyReceived T peer observed) := by
  unfold identifyReceived
  apply Evolves.get
  rcases node.pendingRelayReservations[peer]? with _ | route
  case' some => refine .set_bind id (.bind listen_unapproved fun _ node _ => ?_)
  all_goals
    apply Evolves.get
    cases node.pendingRelayDials[peer]? with
    | none => exact .pure
    | some row =>
      refine .set_bind id (.bind issue_unapproved fun sent _ _ => ?_)
      cases sent with
      | error e => exact .bind .throw fun _ _ _ => .pure
      | ok u => exact .pure

end Plumbing

section Requests

variable {request : NetworkRequest} {channel : ResponseChannel} {response : NetworkResponse}
  {nonce : Bytes BOOTSTRAP_NONCE_BYTES}

theorem authenticate_unapproved {certificate : DeviceCertificate} :
    Preserves (Unapproved sync) node (node.authenticate C P peer certificate).1 := by
  intro h
  unfold NetworkNode.authenticate
  cases node.validatePeerCertificate C P peer certificate with
  | error reason => exact h
  | ok device =>
    dsimp only
    rw [if_neg (h.untrusted device)]
    split_ifs
    · exact h
    · exact h

theorem beginBootstrap_unapproved {certificate : DeviceCertificate} {invitation : EventId} :
    Preserves (Unapproved sync) node
      (node.beginBootstrap C P nonce peer certificate invitation).1 := by
  intro h
  unfold beginBootstrap
  cases node.validatePeerCertificate C P peer certificate with
  | error reason => exact h
  | ok device =>
    dsimp only
    split_ifs
    · exact h
    · exact h

theorem proveBootstrap_unapproved {invitation : EventId} {signature : ByteString} :
    Preserves (Unapproved sync) node (node.proveBootstrap C peer invitation signature).1 := by
  intro h
  unfold proveBootstrap
  cases node.pendingChallenges[peer]? with
  | none => exact h
  | some pending =>
    dsimp only
    cases node.bootstrapGrants[invitation]? with
    | none => exact h
    | some grant =>
      dsimp only
      split_ifs
      · exact h
      · exact h

theorem receiveSync_unapproved {message : SyncMessage} :
    Preserves (Unapproved sync) node (node.receiveSync C peer message).1 := by
  intro h
  unfold receiveSync
  rw [if_pos (h.2.authenticated peer)]
  exact h

theorem handleRequest_unapproved :
    Preserves (Unapproved sync) node (node.handleRequest C P nonce peer request).1 := by
  cases request with
  | authenticate certificate =>
    have hstep : Preserves (Unapproved sync) node (node.authenticate C P peer certificate).1 :=
      authenticate_unapproved
    rw [handleRequest]
    revert hstep
    cases node.authenticate C P peer certificate with
    | mk later result =>
      cases result with
      | error reason => exact id
      | ok state => exact id
  | sync message => exact receiveSync_unapproved
  | bootstrapBegin certificate invitation => exact beginBootstrap_unapproved
  | bootstrapProve invitation signature => exact proveBootstrap_unapproved
  | bootstrapAccept invitation acceptance => exact id

theorem handleBootstrapAcceptance_unapproved {invitation : EventId} {acceptance : SignedEvent} :
    Evolves (Preserves (Unapproved sync)) node
      (handleBootstrapAcceptance C T peer invitation acceptance channel) := by
  refine .get (.set_bind id ?_)
  cases node.provedBootstraps[peer]?.filter (node.acceptanceValid C invitation acceptance) with
  | none => exact .bind respond_unapproved fun _ _ _ => .pure
  | some proved =>
    exact .ite (fun _ => .bind respond_unapproved fun _ _ _ => .pure) fun _ =>
      .modify_bind id .pure

theorem answer_unapproved (result : NetworkNode × NetworkResponse × Option AuthenticationState)
    (h : Preserves (Unapproved sync) node result.1) :
    Evolves (Preserves (Unapproved sync)) node (do
      set result.1
      respond T channel result.2.1
      match result.2.2 with
      | some .full =>
        maybeStartSync T peer
        return NetworkEvent.authenticated peer
      | some .provisional =>
        startBootstrap T peer
        return .syncProgress peer
      | none => return .syncProgress peer) := by
  refine .set_bind h (.bind respond_unapproved fun _ _ _ => ?_)
  cases result.2.2 with
  | none => exact .pure
  | some state =>
    cases state with
    | full => exact .bind maybeStartSync_unapproved fun _ _ _ => .pure
    | provisional => exact .bind startBootstrap_unapproved fun _ _ _ => .pure

theorem request_unapproved : Evolves (Preserves (Unapproved sync)) node
    (handleRequestMessage C P T peer request channel nonce) := by
  have hrequest : Preserves (Unapproved sync) node (node.handleRequest C P nonce peer request).1 :=
    handleRequest_unapproved
  have hanswer := @answer_unapproved T sync node peer channel
    (node.handleRequest C P nonce peer request) hrequest
  cases request with
  | bootstrapAccept invitation acceptance => exact handleBootstrapAcceptance_unapproved
  | authenticate _ | sync _ | bootstrapBegin _ _ | bootstrapProve _ _ =>
    apply Evolves.get
    revert hanswer
    cases node.handleRequest C P nonce peer _ with
    | mk later answer => exact id

end Requests

section Responses

theorem response_unapproved {response : NetworkResponse} :
    Evolves (Preserves (Unapproved sync)) node (handleResponse C T peer response) := by
  apply Evolves.assuming
  intro h
  cases response with
  | authenticated =>
    exact .modify_bind id (.bind maybeStartSync_unapproved fun _ _ _ => .pure)
  | sync messages =>
    apply Evolves.get
    rw [if_pos (h.2.authenticated peer)]
    exact .throw
  | bootstrapChallenge invitation nonce =>
    apply Evolves.get
    cases node.targetFor peer invitation with
    | none => exact .throw
    | some target =>
      dsimp only
      cases validateDeviceCertificate C node.certificate with
      | error e => exact .throw
      | ok device => exact .pure
  | bootstrapAncestry invitation events =>
    apply Evolves.get
    cases node.targetFor peer invitation with
    | none => exact .throw
    | some target =>
      exact .ite (fun _ => .throw) fun _ => .ite (fun _ => .throw) fun _ =>
        .ite (fun _ => .throw) fun _ => .pure
  | bootstrapAccepted =>
    apply Evolves.get
    have hnone : (node.targetOf peer).filter BootstrapTarget.endpointApproved = none := by
      rw [Option.filter_eq_none_iff]
      intro target htarget
      rw [h.2.target target (Option.eq_some_of_filter_eq_some htarget), Bool.false_eq_true]
      exact id
    rw [hnone]
    exact .throw
  | rejected reason => exact .get (.ite (fun _ => .pure) fun _ => .throw)

end Responses

theorem connectionClosed_unapproved {numEstablished : ℕ} :
    Evolves (Preserves (Unapproved sync)) node (connectionClosed peer numEstablished) := by
  refine .get (.ite (fun _ => .pure) fun _ => .ite (fun _ => .pure) fun _ => .set_bind ?_ .pure)
  intro h
  exact ⟨h.1, fun q hq => h.2.authenticated q (mem_erase.mp hq).2, h.2.users, h.2.devices,
    h.2.target⟩

theorem nextEvent_unapproved (event : SwarmEvent) :
    Evolves (Preserves (Unapproved sync)) node (nextEvent C P T event) := by
  cases event with
  | connectionEstablished peer relayed => exact .map connectionEstablished_unapproved
  | connectionClosed peer numEstablished => exact connectionClosed_unapproved
  | request peer request channel nonce => exact .map request_unapproved
  | response peer response => exact .map response_unapproved
  | identifyReceived peer observed => exact .map identifyReceived_unapproved
  | dcutr peer result =>
    cases result with
    | error e => exact .pure
    | ok u => exact .pure
  | outgoingConnectionError peer error isConnected =>
    apply Evolves.get
    cases peer with
    | none => exact .throw
    | some peer =>
      exact .ite (fun _ => .pure) fun _ => .ite (fun _ => .pure) fun _ =>
        .ite (fun _ => .pure) fun _ => .throw
  | listenerError error => exact .throw
  | newListenAddr _ | requestFailure _ _ | responseSent _ | reservationReqAccepted _
  | outboundCircuitEstablished _ | inboundCircuitEstablished _ | other => exact .pure

end ChatCommons
