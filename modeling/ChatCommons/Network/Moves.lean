import ChatCommons.Network.FrameSize
import ChatCommons.Network.Grants
import ChatCommons.Network.Sessions

/-!
Every turn of a node is a move of its sessions.
-/

namespace ChatCommons

open Collections Stateful NetworkNode

variable {C : Crypto} {P : PeerNames} {T : Transport} {Q : SwarmCommand → Prop}
  {node : NetworkNode} {peer : PeerId}

section Plumbing

theorem issue_keeps {command : SwarmCommand} (h : Q command) :
    Keeps Q (fun _ => True) node (issue T command) :=
  .get (.set (.issued h) (.pure trivial))

theorem respond_keeps {channel : ResponseChannel} {response : NetworkResponse}
    (h : Q (.sendResponse channel response)) :
    Keeps Q (fun _ => True) node (respond T channel response) := by
  unfold respond
  refine Keeps.ite (fun _ => .throw) fun _ => Keeps.bind (issue_keeps h) fun sent later => ?_
  cases sent with
  | error e => exact .throw
  | ok u => exact .pure trivial

theorem send_keeps {request : NetworkRequest} (h : Q (.sendRequest peer request)) :
    Keeps Q (fun _ => True) node (send T peer request) :=
  Keeps.ite (fun _ => .throw) fun _ => Keeps.bind (issue_keeps h) fun _ _ => .pure trivial

theorem listen_keeps {address : Multiaddr} (h : Q (.listenOn address)) :
    Keeps Q (fun _ => True) node (NetworkNode.listen T address) := by
  unfold NetworkNode.listen
  refine Keeps.bind (issue_keeps h) fun sent later => ?_
  cases sent with
  | error e => exact .throw
  | ok u => exact .pure trivial

theorem reserveRelay_keeps {relayAddress : Multiaddr} (h : Q (.dial relayAddress)) :
    Keeps Q (fun _ => True) node (reserveRelay T relayAddress) := by
  unfold reserveRelay
  cases relayPeerFromBase relayAddress with
  | none => exact .throw
  | some relay =>
    refine Keeps.ite (fun _ => .throw) fun _ => Keeps.modify (.of_eq rfl rfl) (.get ?_)
    refine Keeps.ite (fun _ => .throw) fun _ => Keeps.set (.of_eq rfl rfl) ?_
    refine Keeps.bind (issue_keeps h) fun sent later => ?_
    cases sent with
    | error e => exact Keeps.modify (.of_eq rfl rfl) (.throw)
    | ok u => exact .pure trivial

theorem dial_keeps {address : Multiaddr} (h : ∀ route, Q (.dial route)) :
    Keeps Q (fun _ => True) node (dial T peer address) := by
  unfold dial
  refine Keeps.ite (fun _ => ?_) fun _ => ?_
  · cases relayPeerFromRoute address with
    | none => exact .throw
    | some relay =>
      refine Keeps.modify (.of_eq rfl rfl) ?_
      cases relayBaseFromRoute address with
      | none => exact .throw
      | some relayBase =>
        refine Keeps.get (Keeps.ite (fun _ => .throw) fun _ => Keeps.set (.of_eq rfl rfl) ?_)
        refine Keeps.bind (issue_keeps (h _)) fun sent later => ?_
        cases sent with
        | error e => exact Keeps.modify (.of_eq rfl rfl) (.throw)
        | ok u => exact .pure trivial
  · refine Keeps.bind (issue_keeps (h _)) fun sent later => ?_
    cases sent with
    | error e => exact .throw
    | ok u => exact .pure trivial

theorem maybeStartSync_keeps (h : ∀ community, Q (.sendRequest peer (.sync (.hello SYNC_VERSION
    [PROTOCOL_VERSION] community)))) : Keeps Q (fun _ => True) node (maybeStartSync T peer) :=
  .get (Keeps.ite (fun _ => .set (.of_eq rfl rfl) (send_keeps (h _))) fun _ => .pure trivial)

theorem startBootstrap_keeps (h : ∀ certificate invitation,
    Q (.sendRequest peer (.bootstrapBegin certificate invitation))) :
    Keeps Q (fun _ => True) node (startBootstrap T peer) := by
  refine .get ?_
  cases node.targetOf peer with
  | none => exact .throw
  | some target => exact send_keeps (h _ _)

theorem connectionEstablished_keeps {relayed : Bool}
    (h : Q (.sendRequest peer (.authenticate node.certificate))) :
    Keeps Q (fun event : NetworkEvent => ¬ event.IsAcceptance) node
      (connectionEstablished T peer relayed) := by
  refine Keeps.get (.ite (fun _ => .pure id) fun _ => ?_)
  refine Keeps.ite (fun _ => .modify (.of_eq rfl rfl) ?_) fun _ => ?_
  all_goals
    refine Keeps.ite (fun _ => .modify (.of_eq rfl rfl) ?_) fun _ => .pure id
    exact Keeps.bind (send_keeps h) fun _ _ => .pure id

theorem identifyReceived_keeps {observed : Multiaddr} (hlisten : ∀ route, Q (.listenOn route))
    (hdial : ∀ route, Q (.dial route)) :
    Keeps Q (fun event : NetworkEvent => ¬ event.IsAcceptance) node
      (identifyReceived T peer observed) := by
  unfold identifyReceived
  refine Keeps.get ?_
  rcases node.pendingRelayReservations[peer]? with _ | route
  case' some => refine .set (.of_eq rfl rfl) (.bind (listen_keeps (hlisten _)) fun _ node => ?_)
  all_goals
    refine Keeps.get ?_
    rcases node.pendingRelayDials[peer]? with _ | row
    · exact .pure id
    · refine Keeps.set (.of_eq rfl rfl) (.bind (issue_keeps (hdial _)) fun sent last => ?_)
      cases sent with
      | error e => exact Keeps.bind (R := fun _ => True) .throw fun _ _ => .pure id
      | ok u => exact .pure id

end Plumbing

section Peers

variable {sync : SyncPeer}

theorem ingestPending_community (C : Crypto) (sync : SyncPeer) :
    (sync.ingestPending C).1.community = sync.community := by
  unfold SyncPeer.ingestPending
  dsimp only
  split_ifs
  · split <;> rfl
  · rfl

theorem accept_community {events : List SignedEvent} :
    (sync.accept C events).1.community = sync.community := by
  unfold SyncPeer.accept
  dsimp only
  split_ifs
  · rfl
  · rfl
  · split
    · rfl
    · have hingest := ingestPending_community C (sync.admitPending (sync.newIds events) events)
      split
      · rename_i heq
        rw [heq] at hingest
        exact hingest
      · rename_i heq
        rw [heq] at hingest
        exact hingest

theorem receive_community (C : Crypto) (sync : SyncPeer) (message : SyncMessage) :
    (sync.receive C message).1.community = sync.community := by
  unfold SyncPeer.receive
  split
  · rfl
  · split_ifs
    · rfl
    · cases message with
      | events community events => exact accept_community
      | hello _ _ _ => rfl
      | heads _ _ => rfl
      | want _ _ => rfl

theorem extends_sync (h : sync.community = node.sync.community) :
    Extends Q node { node with sync } :=
  .of_eq (congrArg (fun community => { node.session with community }) h) rfl

end Peers

section Leading

variable {input : Input} {later : NetworkNode} {α : Type} {R : α → Prop} {x : NetworkM α}
  {event : α → Option NetworkEvent}

theorem Extends.moves {e : Option NetworkEvent} (h : Extends SwarmCommand.Plain later node)
    {first : NetworkNode} (hchange : Change C P first.session input later.session)
    (hswarm : later.swarm = first.swarm) (he : Silent e) : Moves C P first input e node := by
  obtain ⟨sent, hsent, hplain⟩ := h.sent
  refine ⟨sent, by rw [hsent, hswarm], .change ?_ hplain he⟩
  rwa [h.session]

/-- The sessions change first; what follows only sends plain commands. -/
theorem Keeps.leads (hx : Keeps SwarmCommand.Plain R later x)
    (hchange : Change C P node.session input later.session) (hswarm : later.swarm = node.swarm)
    (hR : ∀ a, R a → Silent (event a)) :
    Triple (· = later) x (fun a last => Moves C P node input (event a) last) fun _ last =>
      Moves C P node input none last := by
  intro s hs
  have hkeeps := hx s hs
  revert hkeeps
  cases x s with
  | ok a last => exact fun ⟨ha, h⟩ => h.moves hchange hswarm (hR a ha)
  | error e last => exact fun h => h.moves hchange hswarm (by simp [Silent])

theorem Keeps.leads_exchange (hx : Keeps (SwarmCommand.Exchanges peer input) R later x)
    (hinput : input.Exchanges peer) (hpeer : peer ∈ node.authenticated)
    (hsession : later.session = node.session) (hswarm : later.swarm = node.swarm)
    (hR : ∀ a, R a → Silent (event a)) :
    Triple (· = later) x (fun a last => Moves C P node input (event a) last) fun _ last =>
      Moves C P node input none last := by
  have hmoves : ∀ {last e}, Extends (SwarmCommand.Exchanges peer input) later last → Silent e →
      Moves C P node input e last := by
    rintro last e ⟨hsame, sent, hsent, hexchanges⟩ he
    refine ⟨sent, by rw [hsent, hswarm], ?_⟩
    rw [hsame, hsession]
    exact .exchanged hinput hpeer hexchanges he
  intro s hs
  have hkeeps := hx s hs
  revert hkeeps
  cases x s with
  | ok a last => exact fun ⟨ha, h⟩ => hmoves h (hR a ha)
  | error e last => exact fun h => hmoves h (by simp [Silent])

theorem silent_some {e : NetworkEvent} (h : ¬ e.IsAcceptance) : Silent (some e) := by
  rintro _ ⟨⟩
  exact h

theorem Keeps.leads_none (hx : Keeps SwarmCommand.Plain R node x)
    (hinput : ∀ peer, ¬ input.Proves peer) (hR : ∀ a, R a → Silent (event a)) :
    Leads C P node input event x :=
  hx.leads (.none fun peer h => absurd h (hinput peer)) rfl hR

end Leading

section Requests

variable {channel : ResponseChannel} {nonce : Bytes BOOTSTRAP_NONCE_BYTES}
  {certificate : DeviceCertificate} {device : AuthenticatedDevice} {invitation : EventId}

theorem validatePeerCertificate_iff : node.validatePeerCertificate C P peer certificate = .ok device ↔
    node.session.Vets C P peer certificate device := by
  unfold validatePeerCertificate Session.Vets
  cases hdevice : validateDeviceCertificate C certificate with
  | error e => simp
  | ok found =>
    cases hpeer : peerIdFromCertificate C P certificate with
    | error e => simp
    | ok name =>
      dsimp only
      split_ifs with hname hrevoked
      · simp [hname]
      · simp only [Except.ok.injEq, false_iff, not_and]
        rintro rfl _
        exact ne_false_of_eq_true hrevoked
      · simp only [Except.ok.injEq]
        rw [not_not] at hname
        constructor
        · rintro rfl
          exact ⟨rfl, hname, eq_false_of_ne_true hrevoked⟩
        · exact fun h => h.1

theorem isTrusted_iff : node.isTrusted device = true ↔ node.session.Trusts device := by
  simp [isTrusted, Session.Trusts, session]

theorem authenticate_cases (C : Crypto) (P : PeerNames) (node : NetworkNode) (peer : PeerId)
    (certificate : DeviceCertificate) :
    (∃ reason, node.authenticate C P peer certificate = (node, .error reason)) ∨
    (∃ device, node.session.Vets C P peer certificate device ∧ node.session.Trusts device ∧
      node.authenticate C P peer certificate = ({ node with
        authenticated := node.authenticated.insert peer
        authenticatedDevices := node.authenticatedDevices.insert peer device }, .ok .full)) ∨
    ∃ device, node.session.Vets C P peer certificate device ∧
      (¬ node.session.Trusts device ∧ ∃ target ∈ node.bootstrapTarget, target.peer = peer) ∧
      node.authenticate C P peer certificate = ({ node with
        provisional := node.provisional.insert peer device }, .ok .provisional) := by
  unfold NetworkNode.authenticate
  cases hvets : node.validatePeerCertificate C P peer certificate with
  | error reason => exact Or.inl ⟨reason, rfl⟩
  | ok device =>
    have hvets := validatePeerCertificate_iff.mp hvets
    dsimp only
    split_ifs with htrusted htarget
    · exact Or.inr (Or.inl ⟨device, hvets, isTrusted_iff.mp htrusted, rfl⟩)
    · obtain ⟨target, htarget, hpeer⟩ := (Option.any_eq_true _ _).mp htarget
      exact Or.inr (Or.inr ⟨device, hvets, ⟨fun h => htrusted (isTrusted_iff.mpr h), target, htarget,
        of_decide_eq_true hpeer⟩, rfl⟩)
    · exact Or.inl ⟨_, rfl⟩

section Answers

variable {request : NetworkRequest} {later : NetworkNode} {response : NetworkResponse}
  {post : NetworkEvent → NetworkNode → Prop} {fails : NetworkError → NetworkNode → Prop}

theorem handleRequestMessage_run (hrequest : ∀ i a, request ≠ .bootstrapAccept i a)
    (h : node.handleRequest C P nonce peer request = (later, response, none))
    (hlater : Triple (· = later) (respond T channel response >>= fun _ =>
      pure (NetworkEvent.syncProgress peer)) post fails) :
    Triple (· = node) (handleRequestMessage C P T peer request channel nonce) post fails := by
  cases request with
  | bootstrapAccept i a => exact absurd rfl (hrequest i a)
  | authenticate _ | sync _ | bootstrapBegin _ _ | bootstrapProve _ _ =>
    refine Triple.get_bind fun s hs => ?_
    subst hs
    rw [h]
    exact Triple.set_bind hlater

theorem respond_progress_keeps (h : Q (.sendResponse channel response)) :
    Keeps Q (fun event : NetworkEvent => ¬ event.IsAcceptance) later
      (respond T channel response >>= fun _ => pure (NetworkEvent.syncProgress peer)) :=
  .bind (respond_keeps h) fun _ _ => .pure id

theorem answered_leads (hrequest : ∀ i a, request ≠ .bootstrapAccept i a)
    (h : node.handleRequest C P nonce peer request = (later, response, none))
    (hplain : (SwarmCommand.sendResponse channel response).Plain)
    (hchange : Change C P node.session (.swarm (.request peer request channel nonce)) later.session)
    (hswarm : later.swarm = node.swarm) :
    Leads C P node (.swarm (.request peer request channel nonce)) some
      (handleRequestMessage C P T peer request channel nonce) :=
  handleRequestMessage_run hrequest h ((respond_progress_keeps hplain).leads hchange hswarm
    fun _ => silent_some)

theorem issue_sends {command : SwarmCommand} :
    Triple (· = node) (issue T command)
      (fun _ later => later = { node with swarm := node.swarm ++ [command] })
      fun _ later => later = { node with swarm := node.swarm ++ [command] } := by
  refine Triple.get_bind fun s hs => Triple.set_bind (Triple.pure fun _ h => ?_)
  rw [h, hs]

/-- The answer fits a frame, so it is sent even if the channel turns out to be closed. -/
theorem respond_sends {response : NetworkResponse}
    (h : response.toJson.length ≤ MAX_NETWORK_FRAME_BYTES) :
    Triple (· = node) (respond T channel response)
      (fun _ later => later = { node with swarm := node.swarm ++ [.sendResponse channel response] })
      fun _ later => later =
        { node with swarm := node.swarm ++ [.sendResponse channel response] } := by
  rw [respond, if_neg (by omega)]
  refine Triple.bind issue_sends fun sent => ?_
  cases sent with
  | error e => exact Triple.throw fun _ h => h
  | ok u => exact Triple.pure fun _ h => h

theorem answered_moves (hrequest : ∀ i a, request ≠ .bootstrapAccept i a)
    (h : node.handleRequest C P nonce peer request = (later, response, none))
    (hfits : response.toJson.length ≤ MAX_NETWORK_FRAME_BYTES)
    (hmoves : ∀ event, Silent event →
      Moves C P node (.swarm (.request peer request channel nonce)) event
        { later with swarm := later.swarm ++ [.sendResponse channel response] }) :
    Leads C P node (.swarm (.request peer request channel nonce)) some
      (handleRequestMessage C P T peer request channel nonce) := by
  refine handleRequestMessage_run hrequest h ?_
  refine Triple.bind ((respond_sends hfits).conseq (fun _ _ => id) fun _ later hlater => ?_) fun _ =>
    Triple.pure fun later hlater => ?_
  · rw [hlater]
    exact hmoves none (by simp [Silent])
  · rw [hlater]
    exact hmoves _ (silent_some id)

end Answers

theorem authenticate_leads :
    Leads C P node (.swarm (.request peer (.authenticate certificate) channel nonce)) some
      (handleRequestMessage C P T peer (.authenticate certificate) channel nonce) := by
  obtain ⟨reason, h⟩ | ⟨device, hvets, htrusts, h⟩ | ⟨device, hvets, _, h⟩ :=
    authenticate_cases C P node peer certificate
  · refine answered_leads (by simp) (by rw [handleRequest, h]) ?_ (.none fun _ => False.elim) rfl
    trivial
  all_goals
    refine Triple.get_bind fun s hs => ?_
    subst hs
    rw [handleRequest, h]
    refine Triple.set_bind ?_
  · refine Keeps.leads ?_ (.full hvets htrusts) rfl fun _ => silent_some
    refine Keeps.bind (respond_keeps trivial) fun _ _ => ?_
    exact Keeps.bind (maybeStartSync_keeps fun _ => id) fun _ _ => .pure id
  · refine Keeps.leads ?_ (.provisional hvets) rfl fun _ => silent_some
    refine Keeps.bind (respond_keeps trivial) fun _ _ => ?_
    exact Keeps.bind (startBootstrap_keeps fun _ _ => trivial) fun _ _ => .pure id

theorem receiveSync_cases (C : Crypto) (node : NetworkNode) (peer : PeerId)
    (message : SyncMessage) :
    ∃ sync, sync.community = node.sync.community ∧
      ((∃ reason, node.receiveSync C peer message = ({ node with sync }, .rejected reason)) ∨
        peer ∈ node.authenticated ∧
          ∃ messages, node.receiveSync C peer message = ({ node with sync }, .sync messages)) := by
  have hvalid : peer ∈ node.authenticated → ∃ sync, sync.community = node.sync.community ∧
      ((∃ reason, receiveSync.receiveValid C node message = ({ node with sync }, .rejected reason)) ∨
        peer ∈ node.authenticated ∧
          ∃ messages, receiveSync.receiveValid C node message = ({ node with sync }, .sync messages)) := by
    intro hpeer
    refine ⟨(node.sync.receive C message).1, receive_community C _ _, ?_⟩
    unfold receiveSync.receiveValid
    cases hreceive : node.sync.receive C message with
    | mk sync result =>
      cases result with
      | error e => exact Or.inl ⟨_, rfl⟩
      | ok messages =>
        dsimp only
        cases normalizeMessages messages with
        | error reason => exact Or.inl ⟨_, rfl⟩
        | ok messages => exact Or.inr ⟨hpeer, _, rfl⟩
  unfold receiveSync
  split_ifs with hpeer
  swap
  · exact ⟨node.sync, rfl, Or.inl ⟨_, rfl⟩⟩
  · cases message with
    | want community ids =>
      dsimp only
      split_ifs
      · exact ⟨node.sync, rfl, Or.inl ⟨_, rfl⟩⟩
      · exact hvalid hpeer
    | hello _ _ _ => exact hvalid hpeer
    | heads _ _ => exact hvalid hpeer
    | events _ _ => exact hvalid hpeer

theorem sync_leads {message : SyncMessage} :
    Leads C P node (.swarm (.request peer (.sync message) channel nonce)) some
      (handleRequestMessage C P T peer (.sync message) channel nonce) := by
  obtain ⟨sync, hcommunity, ⟨reason, h⟩ | ⟨hpeer, messages, h⟩⟩ :=
    receiveSync_cases C node peer message
  all_goals have hsession := (extends_sync (Q := SwarmCommand.Plain) hcommunity).session
  · have hanswer : node.handleRequest C P nonce peer (.sync message) =
        ({ node with sync }, .rejected reason, none) := by rw [handleRequest, h]
    refine answered_leads (by simp) hanswer trivial ?_ rfl
    rw [hsession]
    exact .none fun _ => False.elim
  · have hanswer : node.handleRequest C P nonce peer (.sync message) =
        ({ node with sync }, .sync messages, none) := by rw [handleRequest, h]
    refine handleRequestMessage_run (by simp) hanswer ?_
    exact (respond_progress_keeps ⟨message, nonce, rfl⟩).leads_exchange rfl hpeer hsession rfl
      fun _ => silent_some

theorem begin_leads :
    Leads C P node (.swarm (.request peer (.bootstrapBegin certificate invitation) channel nonce))
      some (handleRequestMessage C P T peer (.bootstrapBegin certificate invitation) channel nonce) := by
  have hrejected : ∀ reason, node.beginBootstrap C P nonce peer certificate invitation =
      (node, .rejected reason) → Leads C P node
        (.swarm (.request peer (.bootstrapBegin certificate invitation) channel nonce)) some
        (handleRequestMessage C P T peer (.bootstrapBegin certificate invitation) channel nonce) := by
    intro reason h
    refine answered_leads (by simp) (by rw [handleRequest, h]) ?_ (.none fun _ => False.elim) rfl
    trivial
  cases hvets : node.validatePeerCertificate C P peer certificate with
  | error reason => exact hrejected reason (by rw [beginBootstrap, hvets])
  | ok device =>
    by_cases hgrant : invitation ∈ node.bootstrapGrants
    · obtain ⟨later, hlater⟩ : ∃ later : NetworkNode, later = { node with
          pendingChallenges := node.pendingChallenges.insert peer
            (node.session.challenge C peer invitation device nonce) } := ⟨_, rfl⟩
      have hanswer : node.handleRequest C P nonce peer (.bootstrapBegin certificate invitation) =
          (later, .bootstrapChallenge invitation nonce, none) := by
        rw [handleRequest, beginBootstrap, hvets, hlater]
        dsimp only
        rw [if_neg (not_not.mpr hgrant)]
        rfl
      refine answered_moves (by simp) hanswer (challenge_fits invitation nonce) fun event hevent => ?_
      rw [hlater]
      exact ⟨_, rfl, .challenged (validatePeerCertificate_iff.mp hvets) hevent⟩
    · exact hrejected .invitationUnavailable
        (by rw [beginBootstrap, hvets]; dsimp only; rw [if_pos hgrant])

theorem prove_leads {signature : ByteString} :
    Leads C P node (.swarm (.request peer (.bootstrapProve invitation signature) channel nonce))
      some (handleRequestMessage C P T peer (.bootstrapProve invitation signature) channel nonce) := by
  cases hpending : node.pendingChallenges[peer]? with
  | none =>
    have hanswer : node.handleRequest C P nonce peer (.bootstrapProve invitation signature) =
        (node, .rejected .invalidBootstrap, none) := by rw [handleRequest, proveBootstrap, hpending]
    refine answered_leads (by simp) hanswer trivial (.none fun prover hprover => ?_) rfl
    obtain rfl : peer = prover := hprover
    exact not_mem_map.mpr hpending
  | some pending =>
    have hrefused : ∀ reason, node.handleRequest C P nonce peer
        (.bootstrapProve invitation signature) =
          ({ node with pendingChallenges := node.pendingChallenges.erase peer },
            .rejected reason, none) → Leads C P node
        (.swarm (.request peer (.bootstrapProve invitation signature) channel nonce)) some
        (handleRequestMessage C P T peer (.bootstrapProve invitation signature) channel nonce) :=
      fun reason h => answered_leads (by simp) h trivial .refused rfl
    cases hgrant : node.bootstrapGrants[invitation]? with
    | none =>
      apply hrefused .invitationUnavailable
      simp only [handleRequest, proveBootstrap, hpending, hgrant]
    | some grant =>
      by_cases hwrong : pending.invitation ≠ invitation ∨ signature.length ≠ SIGNATURE_LEN ∨
          verify C grant.capabilityPublicKey.toList pending.proofBytes signature ≠ .ok ()
      · apply hrefused .invalidBootstrap
        simp only [handleRequest, proveBootstrap, hpending, hgrant, if_pos hwrong]
      · obtain ⟨later, hlater⟩ : ∃ later : NetworkNode, later = { node with
            pendingChallenges := node.pendingChallenges.erase peer
            provedBootstraps := node.provedBootstraps.insert peer
              { invitation, authenticated := pending.authenticated } } := ⟨_, rfl⟩
        have hanswer : node.handleRequest C P nonce peer (.bootstrapProve invitation signature) =
            (later, .bootstrapAncestry invitation grant.ancestry, none) := by
          simp only [handleRequest, proveBootstrap, hpending, hgrant, if_neg hwrong, hlater]
        push Not at hwrong
        have hmoves : ∀ {last event}, Extends
            (· = .sendResponse channel (.bootstrapAncestry invitation grant.ancestry)) later last →
            Silent event → Moves C P node
              (.swarm (.request peer (.bootstrapProve invitation signature) channel nonce))
              event last := by
          rintro last event ⟨hsession, sent, hsent, hall⟩ hevent
          refine ⟨sent, by rw [hsent, hlater], ?_⟩
          rw [hsession, hlater]
          exact .proved hpending hgrant hwrong.1 hwrong.2.2 hall hevent
        refine handleRequestMessage_run (by simp) hanswer ?_
        exact (respond_progress_keeps (Q := fun command => command = _) rfl).conseq
          (fun _ _ h => hmoves h.2 (silent_some h.1)) fun _ _ h => hmoves h (by simp [Silent])

theorem accept_leads {acceptance : SignedEvent} :
    Leads C P node (.swarm (.request peer (.bootstrapAccept invitation acceptance) channel nonce))
      some (handleRequestMessage C P T peer (.bootstrapAccept invitation acceptance) channel nonce) := by
  refine Triple.get_bind fun s hs => ?_
  subst hs
  refine Triple.set_bind ?_
  cases hproved : s.provedBootstraps[peer]?.filter (s.acceptanceValid C invitation acceptance) with
  | none =>
    exact Keeps.leads (respond_progress_keeps trivial) .unproved rfl fun _ => silent_some
  | some proved =>
    refine Triple.ite (fun _ => ?_) fun _ => ?_
    · exact Keeps.leads (respond_progress_keeps trivial) .unproved rfl fun _ => silent_some
    · obtain ⟨hfound, hvalid⟩ := Option.filter_eq_some_iff.mp hproved
      simp only [acceptanceValid, Bool.and_eq_true, decide_eq_true_eq] at hvalid
      obtain ⟨⟨⟨⟨⟨_, hinvitation⟩, _⟩, hparent⟩, _⟩, hauthor⟩ := hvalid
      rintro _ rfl
      exact ⟨[], by simp, .surfaced hfound hinvitation hparent hauthor⟩

end Requests

section Responses

theorem receiveResponse_keeps {message : SyncMessage}
    (h : ∀ reply, Q (.sendRequest peer (.sync reply))) :
    Keeps Q (fun _ => True) node (receiveResponse C T peer message) := by
  refine Keeps.get ?_
  have hcommunity := receive_community C node.sync message
  cases hreceive : node.sync.receive C message with
  | mk sync result =>
    rw [hreceive] at hcommunity
    refine Keeps.set (extends_sync hcommunity) ?_
    cases result with
    | error e => exact .throw
    | ok messages =>
      dsimp only
      cases normalizeMessages messages with
      | error reason => exact .throw
      | ok outgoing => exact .forM trivial fun _ _ _ => send_keeps (h _)

theorem response_leads {response : NetworkResponse} :
    Leads C P node (.swarm (.response peer response)) some (handleResponse C T peer response) := by
  have hplain : Keeps SwarmCommand.Plain (fun event : NetworkEvent => ¬ event.IsAcceptance) node
      (handleResponse C T peer response) → Leads C P node (.swarm (.response peer response)) some
      (handleResponse C T peer response) := fun h =>
    h.leads_none (fun _ => id) fun _ => silent_some
  cases response with
  | authenticated =>
    refine hplain (Keeps.modify (.of_eq rfl rfl) ?_)
    exact Keeps.bind (maybeStartSync_keeps fun _ => id) fun _ _ => .pure id
  | sync messages =>
    by_cases hpeer : peer ∈ node.authenticated
    · refine Keeps.leads_exchange (R := fun event : NetworkEvent => ¬ event.IsAcceptance) ?_ rfl hpeer
        rfl rfl fun _ => silent_some
      refine Keeps.get ?_
      rw [if_neg (not_not.mpr hpeer)]
      refine Keeps.ite (fun _ => .throw) fun _ => ?_
      exact Keeps.bind (.forM trivial fun _ _ _ => receiveResponse_keeps fun _ => rfl) fun _ _ =>
        .pure id
    · refine hplain (Keeps.get ?_)
      rw [if_pos hpeer]
      exact .throw
  | bootstrapChallenge invitation nonce =>
    refine hplain (Keeps.get ?_)
    cases node.targetFor peer invitation with
    | none => exact .throw
    | some target =>
      dsimp only
      cases validateDeviceCertificate C node.certificate with
      | error e => exact .throw
      | ok device => exact .pure id
  | bootstrapAncestry invitation events =>
    refine hplain (Keeps.get ?_)
    cases node.targetFor peer invitation with
    | none => exact .throw
    | some target =>
      refine Keeps.ite (fun _ => .throw) fun _ => Keeps.ite (fun _ => .throw) fun _ => ?_
      exact Keeps.ite (fun _ => .throw) fun _ => .pure id
  | bootstrapAccepted =>
    refine Triple.get_bind fun s hs => ?_
    subst hs
    cases (s.targetOf peer).filter BootstrapTarget.endpointApproved with
    | none => exact Keeps.leads_none .throw (fun _ => id) fun _ => silent_some
    | some target =>
      dsimp only
      cases hprovisional : s.provisional[peer]? with
      | none => exact Keeps.leads_none .throw (fun _ => id) fun _ => silent_some
      | some device =>
        refine Triple.set_bind ?_
        refine Keeps.leads ?_ (.joined hprovisional) rfl fun _ => silent_some
        exact Keeps.bind (maybeStartSync_keeps fun _ => id) fun _ _ => .pure id
  | rejected reason =>
    refine hplain (Keeps.get ?_)
    exact Keeps.ite (fun _ => .pure id) fun _ => .throw

end Responses

section Calls

theorem foldl_dropAuthorization (peers : List PeerId) (node : NetworkNode) :
    (peers.foldl dropAuthorization node).session = { node.session with
      authenticated := peers.foldl (fun s p => s.erase p) node.authenticated
      authenticatedDevices := peers.foldl (fun m p => m.erase p) node.authenticatedDevices } ∧
    (peers.foldl dropAuthorization node).swarm =
      node.swarm ++ peers.map SwarmCommand.disconnect := by
  induction peers generalizing node with
  | nil => simp [session]
  | cons peer peers ih =>
    obtain ⟨hsession, hswarm⟩ := ih (node.dropAuthorization peer)
    refine ⟨hsession, ?_⟩
    rw [List.foldl_cons, hswarm]
    simp [dropAuthorization]

theorem mem_untrusted : peer ∈ (node.authenticatedDevices.toList.filter fun row =>
      !node.isTrusted row.2).map Prod.fst ↔
    ∃ device, node.authenticatedDevices[peer]? = some device ∧ ¬ node.session.Trusts device := by
  simp only [List.mem_map, List.mem_filter, Bool.not_eq_true', Prod.exists, exists_and_right,
    exists_eq_right, mem_toList, ← isTrusted_iff, Bool.not_eq_true]

theorem replaceAuthorization_moves {users : BTreeSet UserId} {devices : BTreeSet DeviceId} :
    Moves C P node (.call (.replaceAuthorization users devices)) none
      (node.replaceAuthorization users devices) := by
  obtain ⟨start, hstart⟩ : ∃ start : NetworkNode, start = { node with
      allowedUsers := users, trustedInfrastructureDevices := devices } := ⟨_, rfl⟩
  have hpeers : ∀ peer, peer ∈ ((start.authenticatedDevices.toList.filter fun row =>
      !start.isTrusted row.2).map Prod.fst).foldl (fun s p => s.erase p) start.authenticated ↔
        peer ∈ start.authenticated ∧
          ∀ device, start.authenticatedDevices[peer]? = some device → start.session.Trusts device := by
    intro peer
    rw [mem_foldl_erase, mem_untrusted]
    push Not
    rfl
  have hdevices : ∀ (peer : PeerId) (device : AuthenticatedDevice),
      (((start.authenticatedDevices.toList.filter fun row => !start.isTrusted row.2).map
        Prod.fst).foldl (fun m p => m.erase p) start.authenticatedDevices)[peer]? = some device ↔
        start.authenticatedDevices[peer]? = some device ∧ start.session.Trusts device := by
    intro peer device
    rw [getElem?_foldl_erase, mem_untrusted]
    push Not
    refine and_congr_right fun hdevice => ⟨fun h => h device hdevice, fun h other hother => ?_⟩
    rwa [Option.some.inj (hother.symm.trans hdevice)]
  obtain ⟨hsession, hswarm⟩ := foldl_dropAuthorization
    ((start.authenticatedDevices.toList.filter fun row => !start.isTrusted row.2).map Prod.fst) start
  have hreplace : node.replaceAuthorization users devices =
      ((start.authenticatedDevices.toList.filter fun row => !start.isTrusted row.2).map
        Prod.fst).foldl dropAuthorization start := by rw [hstart]; rfl
  rw [hreplace]
  refine ⟨_, hswarm.trans (by rw [hstart]), .change ?_ ?_ (by simp [Silent])⟩
  · rw [hsession]
    subst hstart
    exact .replaced hpeers hdevices
  · intro command hcommand
    obtain ⟨peer, _, rfl⟩ := List.mem_map.mp hcommand
    trivial

theorem grantTable_from {grants : List BootstrapGrant} {invitation : EventId}
    {grant : BootstrapGrant} (h : (grantTable grants)[invitation]? = some grant) :
    grant ∈ grants ∧ grant.invitation = invitation := by
  unfold grantTable at h
  induction grants using List.reverseRecOn with
  | nil => simp at h
  | append_singleton grants last ih =>
    rw [List.foldl_append, List.foldl_cons, List.foldl_nil, getElem?_insert] at h
    split_ifs at h with hlast
    · rw [← Option.some.inj h]
      exact ⟨by simp, hlast⟩
    · exact ⟨List.mem_append_left _ (ih h).1, (ih h).2⟩

theorem resolveBootstrapAcceptance_leads {approved : Bool} :
    Leads C P node (.call (.resolveBootstrapAcceptance peer approved)) (fun _ => none)
      (resolveBootstrapAcceptance T peer approved) := by
  have hsilent : ∀ a : Unit, True → Silent ((fun _ => none) a) := fun _ _ => by simp [Silent]
  refine Triple.get_bind fun s hs => ?_
  subst hs
  cases hpending : s.pendingAcceptances[peer]? with
  | none => exact Keeps.leads_none .throw (fun _ => id) hsilent
  | some pending =>
    refine Triple.set_bind ?_
    cases approved with
    | false =>
      refine Keeps.leads ?_ .declined rfl hsilent
      refine Keeps.bind (issue_keeps trivial) fun sent _ => ?_
      cases sent with
      | error e => exact .throw
      | ok u => exact .pure trivial
    | true =>
      refine Triple.modify_bind_eq (Keeps.leads ?_ (.approved hpending) rfl hsilent)
      refine Keeps.bind (issue_keeps trivial) fun sent _ => ?_
      cases sent with
      | error e => exact .throw
      | ok u => exact maybeStartSync_keeps fun _ => id

theorem call_leads {call : NetworkCall} :
    Leads C P node (.call call) (fun _ => none) (perform C T call) := by
  have hnone : Silent none := by simp [Silent]
  have hsilent : ∀ a : Unit, True → Silent ((fun _ => none) a) := fun _ _ => hnone
  have hplain : Keeps SwarmCommand.Plain (fun _ => True) node (perform C T call) →
      Leads C P node (.call call) (fun _ => none) (perform C T call) := fun h =>
    h.leads_none (fun _ => id) hsilent
  cases call with
  | listen address => exact hplain (listen_keeps trivial)
  | reserveRelay relayAddress =>
    exact hplain (Keeps.bind (reserveRelay_keeps trivial) fun _ _ => .pure trivial)
  | dial peer address => exact hplain (dial_keeps fun _ => trivial)
  | replaceAuthorization users devices =>
    rintro _ rfl
    exact replaceAuthorization_moves
  | registerBootstrapGrant grant =>
    refine Triple.get_bind fun s hs => ?_
    subst hs
    cases hgrant : s.validateBootstrapGrant C grant with
    | error e => exact Keeps.leads_none .throw (fun _ => id) hsilent
    | ok u =>
      refine Triple.set (Extends.refl.moves (.granted fun invitation found hfound => ?_) rfl hnone)
      rw [getElem?_insert] at hfound
      split_ifs at hfound with heq
      · rw [← Option.some.inj hfound, ← heq]
        exact Or.inr (validateBootstrapGrant_iff.mp hgrant).2.2.2.2
      · exact Or.inl hfound
  | replaceBootstrapGrants grants =>
    refine Triple.get_bind fun s hs => ?_
    subst hs
    cases hgrants : grants.forM (s.validateBootstrapGrant C) with
    | error e => exact Keeps.leads_none .throw (fun _ => id) hsilent
    | ok u =>
      refine Triple.set (Extends.refl.moves (.granted fun invitation found hfound => ?_) rfl hnone)
      obtain ⟨hmem, rfl⟩ := grantTable_from hfound
      exact Or.inr (validateBootstrapGrant_iff.mp (Fallible.forM_eq_ok.mp hgrants _ hmem)).2.2.2.2
  | configureBootstrapTarget peer invitation =>
    refine Triple.get_bind fun s hs => ?_
    subst hs
    refine Triple.ite (fun _ => ?_) fun _ => ?_
    · exact Keeps.leads_none .throw (fun _ => id) hsilent
    · exact Triple.set (Extends.refl.moves (.targeted _) rfl hnone)
  | approveBootstrapEndpoint peer =>
    refine Triple.get_bind fun s hs => ?_
    subst hs
    cases s.targetOf peer with
    | none => exact Keeps.leads_none .throw (fun _ => id) hsilent
    | some target =>
      refine Triple.ite (fun _ => ?_) fun _ => ?_
      · exact Triple.set (Extends.refl.moves (.targeted _) rfl hnone)
      · exact Keeps.leads_none .throw (fun _ => id) hsilent
  | submitBootstrapProof peer invitation signature =>
    refine hplain (Keeps.get ?_)
    cases node.targetFor peer invitation with
    | none => exact .throw
    | some target => exact Keeps.ite (fun _ => .throw) fun _ => send_keeps trivial
  | submitBootstrapAcceptance peer invitation acceptance =>
    refine hplain (Keeps.get ?_)
    cases node.targetFor peer invitation with
    | none => exact .throw
    | some target =>
      refine Keeps.ite (fun _ => .throw) fun _ => ?_
      cases validateEvent C acceptance with
      | error e => exact .throw
      | ok u => exact send_keeps trivial
  | resolveBootstrapAcceptance peer approved => exact resolveBootstrapAcceptance_leads
  | ingest events =>
    rintro _ rfl
    exact Extends.moves (.of_eq rfl rfl) (.none fun _ => False.elim) rfl hnone

end Calls

section Turns

theorem connectionClosed_leads {numEstablished : ℕ} :
    Leads C P node (.swarm (.connectionClosed peer numEstablished)) id
      (connectionClosed peer numEstablished) := by
  have hquiet : ∀ e : NetworkEvent, ¬ e.IsAcceptance → Moves C P node
      (.swarm (.connectionClosed peer numEstablished)) (some e) node := fun e he =>
    Extends.refl.moves (.none fun _ => False.elim) rfl (silent_some he)
  refine Triple.get_bind fun s hs => ?_
  subst hs
  refine Triple.ite (fun _ => Triple.pure ?_) fun _ => Triple.ite (fun _ => Triple.pure ?_) fun _ => ?_
  · rintro _ rfl
    exact Extends.refl.moves (.none fun _ => False.elim) rfl (by simp [Silent])
  · rintro _ rfl
    exact hquiet _ id
  · refine Triple.set_bind (Triple.pure ?_)
    rintro _ rfl
    exact Extends.refl.moves .closed rfl (silent_some id)

theorem nextEvent_leads {event : SwarmEvent} :
    Leads C P node (.swarm event) id (nextEvent C P T event) := by
  have hquiet : ∀ {x : NetworkM (Option NetworkEvent)}, (∀ peer, ¬ (Input.swarm event).Proves peer) →
      Keeps SwarmCommand.Plain Silent node x → Leads C P node (.swarm event) id x :=
    fun hinput hx => hx.leads_none hinput fun _ => id
  have hnone : Silent none := by simp [Silent]
  cases event with
  | newListenAddr address => exact hquiet (fun _ => id) (.pure (silent_some id))
  | connectionEstablished peer relayed =>
    exact Triple.map ((connectionEstablished_keeps trivial).leads_none (fun _ => id)
      fun _ => silent_some)
  | connectionClosed peer numEstablished => exact connectionClosed_leads
  | request peer request channel nonce =>
    refine Triple.map ?_
    cases request with
    | authenticate certificate => exact authenticate_leads
    | sync message => exact sync_leads
    | bootstrapBegin certificate invitation => exact begin_leads
    | bootstrapProve invitation signature => exact prove_leads
    | bootstrapAccept invitation acceptance => exact accept_leads
  | response peer response => exact Triple.map response_leads
  | requestFailure peer error => exact hquiet (fun _ => id) (.pure (silent_some id))
  | responseSent peer => exact hquiet (fun _ => id) (.pure hnone)
  | reservationReqAccepted relay => exact hquiet (fun _ => id) (.pure (silent_some id))
  | outboundCircuitEstablished relay => exact hquiet (fun _ => id) (.pure (silent_some id))
  | inboundCircuitEstablished source => exact hquiet (fun _ => id) (.pure (silent_some id))
  | identifyReceived peer observed =>
    exact Triple.map ((identifyReceived_keeps (fun _ => trivial) fun _ => trivial).leads_none
      (fun _ => id) fun _ => silent_some)
  | dcutr peer result =>
    cases result with
    | error e => exact hquiet (fun _ => id) (.pure (silent_some id))
    | ok u => exact hquiet (fun _ => id) (.pure (silent_some id))
  | outgoingConnectionError peer error isConnected =>
    refine hquiet (fun _ => id) (Keeps.get ?_)
    cases peer with
    | none => exact .throw
    | some peer =>
      refine Keeps.ite (fun _ => .pure (silent_some id)) fun _ => ?_
      refine Keeps.ite (fun _ => .pure (silent_some id)) fun _ => ?_
      exact Keeps.ite (fun _ => .pure hnone) fun _ => .throw
  | listenerError error => exact hquiet (fun _ => id) .throw
  | other => exact hquiet (fun _ => id) (.pure hnone)

theorem turn_moves (node : NetworkNode) (input : Input) :
    Move C P node.session input (node.turn C P T input).sent (node.turn C P T input).event
      (node.turn C P T input).next.session := by
  have hleads : Leads C P node input id (handle C P T input) := by
    cases input with
    | swarm event => exact nextEvent_leads
    | call call => exact Triple.bind call_leads fun _ => Triple.pure fun _ => id
  have hturn := hleads node rfl
  unfold turn Turn.sent Turn.event Turn.next
  revert hturn
  cases handle C P T input node with
  | ok event later =>
    rintro ⟨sent, hswarm, hmove⟩
    dsimp only
    rwa [hswarm, List.drop_left]
  | error e later =>
    rintro ⟨sent, hswarm, hmove⟩
    dsimp only
    rwa [hswarm, List.drop_left]

variable {start : NetworkNode} {turns before after : List Turn} {turn : Turn}

theorem Run.split (hrun : Run C P T start turns node) (h : turns = before ++ turn :: after) :
    Run C P T start before turn.node ∧ turn = turn.node.turn C P T turn.input := by
  induction hrun generalizing after with
  | nil => simp at h
  | @snoc turns node hrun input ih =>
    cases after using List.reverseRecOn with
    | nil =>
      obtain ⟨rfl, hlast⟩ := List.append_inj' h rfl
      obtain rfl := (List.cons.inj hlast).1
      exact ⟨hrun, rfl⟩
    | append_singleton after last =>
      rw [← List.cons_append, ← List.append_assoc] at h
      exact ih (List.append_inj' h rfl).1

theorem Run.moves (hrun : Run C P T start turns node) (h : turn ∈ turns) :
    Move C P turn.node.session turn.input turn.sent turn.event turn.next.session := by
  obtain ⟨before, after, hsplit⟩ := List.append_of_mem h
  rw [(hrun.split hsplit).2]
  exact turn_moves turn.node turn.input

end Turns

end ChatCommons
