import ChatCommons.Network.FollowUps
import ChatCommons.Network.Footprint
import ChatCommons.Network.HeadsGate
import ChatCommons.Sample.Host

/-!
A node that joins nothing answers every request. Of the responses it stands those that it can act
on; every other one is an error of its loop.
-/

namespace ChatCommons

open Collections Stateful NetworkNode

variable {C : Crypto} {P : PeerNames} {T : Transport}

/-- The peer takes the message, and what it asks or tells in turn fits into one frame. -/
def SyncPeer.Welcomes (C : Crypto) (peer : SyncPeer) (message : SyncMessage) : Prop :=
  validateMessage C message = .ok () ∧ message.community = peer.community ∧
    match message with
    | .hello .. => ∃ heads, peer.node.heads C = .ok heads ∧
        heads.length ≤ MAX_MESSAGES_PER_FRAME * MAX_IDS_PER_MESSAGE
    | .heads .. => True
    | .want _ eventIds => ∃ served, peer.serve C eventIds = .ok served ∧
        served.length ≤ MAX_MESSAGES_PER_FRAME ∧
        (NetworkResponse.sync served).toJson.length ≤ MAX_NETWORK_FRAME_BYTES
    | .events _ events => peer.Admits events ∧
        (peer.admitted events).awaited.size ≤ MAX_MESSAGES_PER_FRAME

/-- Each message is welcome in the state that the ones before it lead to. -/
def SyncPeer.WelcomesAll (C : Crypto) (peer : SyncPeer) : List SyncMessage → Prop
  | [] => True
  | message :: messages =>
    peer.Welcomes C message ∧ (peer.receive C message).1.WelcomesAll C messages

/-- Without a bootstrap target, only these responses can be acted on. -/
def NetworkNode.Stands (C : Crypto) (node : NetworkNode) (peer : PeerId) : NetworkResponse → Prop
  | .authenticated => True
  | .sync messages => peer ∈ node.authenticated ∧ messages.length ≤ MAX_MESSAGES_PER_FRAME ∧
      node.sync.WelcomesAll C messages
  | _ => False

section Synchronization

namespace SyncPeer

variable {peer : SyncPeer} {message : SyncMessage} {messages replies : List SyncMessage}

theorem normalize_unchanged (h : ∀ reply ∈ messages, ∀ c ids, reply ≠ .want c ids) :
    (∃ normalized, normalizeMessages messages = .ok normalized) ↔
      messages.length ≤ MAX_MESSAGES_PER_FRAME ∧
        (NetworkResponse.sync messages).toJson.length ≤ MAX_NETWORK_FRAME_BYTES := by
  unfold normalizeMessages
  rw [splitWants_of_not_want h]
  dsimp only
  split_ifs with hcount hsize
  · simp only [exists_false, false_iff, not_and]
    omega
  · simp only [exists_false, false_iff, not_and]
    omega
  · have hfits : messages.length ≤ MAX_MESSAGES_PER_FRAME ∧
        (NetworkResponse.sync messages).toJson.length ≤ MAX_NETWORK_FRAME_BYTES := by
      constructor <;> omega
    exact ⟨fun _ => hfits, fun _ => ⟨messages, rfl⟩⟩

theorem Steady.accept_replies (h : peer.Steady C) (hopen : peer.node.community.isSome = true)
    {events : List SignedEvent} (hvalid : ∀ event ∈ events, event.Valid C)
    (hadmits : peer.Admits events) : (peer.accept C events).2 =
      .ok (wantMessages peer.community (peer.admitted events).awaited.toList) := by
  have hadmitted := h.admitted hadmits hvalid
  obtain ⟨hadvances, hnever⟩ := hadmitted.ingestPending fun _ => false
  rw [← acceptUnless_never, acceptUnless_admits hadmits]
  rw [ingestPendingUnless_never] at hadvances hnever ⊢
  cases hresult : (peer.admitted events).ingestPending C with
  | mk later result =>
    rw [hresult] at hadvances hnever
    cases result with
    | error error =>
      obtain ⟨_, _, hfault⟩ := hnever error rfl
      cases hfault
    | ok u =>
      have hmissing := hadmitted.ingest_awaited hopen hresult
      have hcommunity : later.community = peer.community := hadvances.community
      dsimp only
      rw [hmissing, hcommunity]

theorem receive_welcome (h : peer.Steady C) (hopen : peer.node.community.isSome = true) :
    (∃ replies, (peer.receive C message).2 = .ok replies ∧
      ∃ normalized, normalizeMessages replies = .ok normalized) ↔ peer.Welcomes C message := by
  unfold SyncPeer.receive Welcomes
  cases hvalid : validateMessage C message with
  | error error => simp
  | ok u =>
    by_cases hcommunity : message.community = peer.community
    swap
    · simp [hcommunity]
    simp only [hcommunity, ne_eq, not_true_eq_false, if_false, true_and]
    have hbody := validateMessage_iff.mp hvalid
    cases message with
    | hello v vs c =>
      dsimp only
      cases hheads : peer.node.heads C with
      | error error =>
        rw [headMessages, hheads]
        simp
      | ok heads =>
        have hmessages : ∃ messages, peer.headMessages C = .ok messages := by
          rw [headMessages, hheads]
          dsimp only
          split_ifs
          all_goals exact ⟨_, rfl⟩
        obtain ⟨messages, hmessages⟩ := hmessages
        have hfits := normalize_heads hheads hmessages
        simp only [hmessages, Except.ok.injEq, exists_eq_left']
        exact hfits
    | heads c ids =>
      have hfits := (normalize_wants peer.community (ids.filter peer.isUnknown)).mpr
      have hshort : ids.length ≤ MAX_IDS_PER_MESSAGE := (validateIds_iff.mp hbody.1).1
      simp only [wantUnknown, Except.ok.injEq, exists_eq_left', iff_true]
      apply hfits
      exact (List.length_filter_le _ _).trans hshort
    | want c ids =>
      dsimp only
      constructor
      · rintro ⟨served, hserved, hnormalized⟩
        have hevents : ∀ reply ∈ served, ∀ c ids, reply ≠ .want c ids := by
          rintro reply hreply c ids rfl
          obtain ⟨batch, hbatch⟩ := serve_events hserved _ hreply
          cases hbatch
        exact ⟨served, hserved, (normalize_unchanged hevents).mp hnormalized⟩
      · rintro ⟨served, hserved, hfits⟩
        have hevents : ∀ reply ∈ served, ∀ c ids, reply ≠ .want c ids := by
          rintro reply hreply c ids rfl
          obtain ⟨batch, hbatch⟩ := serve_events hserved _ hreply
          cases hbatch
        exact ⟨served, hserved, (normalize_unchanged hevents).mpr hfits⟩
    | events c events =>
      have hevents := (validateEvents_iff.mp hbody.1).2.2.2
      dsimp only
      by_cases hadmits : peer.Admits events
      · have hreplies := h.accept_replies hopen hevents hadmits
        have hfits := normalize_wants peer.community (peer.admitted events).awaited.toList
        rw [Std.ExtTreeSet.length_toList] at hfits
        simp only [hreplies, Except.ok.injEq, exists_eq_left', hadmits, true_and]
        exact hfits
      · obtain ⟨error, herror⟩ := acceptUnless_refuses C (fun _ => false) hadmits
        rw [acceptUnless_never] at herror
        simp [herror, hadmits]

end SyncPeer

end Synchronization

section Reachable

variable {start node later : NetworkNode} {input : Input} {turns : List Turn} {sync : SyncPeer}

/-- What synchronization and the answers to a proof need: it holds of every reachable state. -/
structure NetworkNode.Ready (C : Crypto) (node : NetworkNode) : Prop where
  steady : node.sync.Steady C
  opened : node.sync.node.community.isSome = true
  granted : ∀ (invitation : EventId) (grant : BootstrapGrant),
    node.bootstrapGrants[invitation]? = some grant →
      (NetworkResponse.bootstrapAncestry invitation grant.ancestry).toJson.length ≤
        MAX_NETWORK_FRAME_BYTES

theorem ingest_community {core : CoreNode} {events : List SignedEvent}
    (h : core.community.isSome = true) :
    (core.ingest C events).1.community = core.community := by
  obtain ⟨own, hown⟩ := Option.isSome_iff_exists.mp h
  have hgrown := ingestUnless_grows C (fun _ => false) core events
  rw [ingestUnless_never] at hgrown
  obtain hsame | ⟨community, hcommunity, hgrows⟩ := hgrown
  · rw [hsame]
  · rw [CoreNode.ingestCommunity, hown] at hcommunity
    obtain rfl := Except.ok.inj hcommunity
    obtain hsame | hsame := hgrows.community_from
    · exact hsame
    · rw [hsame, hown]

theorem SyncStep.ready {peer after : SyncPeer} (hstep : SyncStep C input peer after)
    (hsteady : peer.Steady C) (hopen : peer.node.community.isSome = true) :
    after.Steady C ∧ after.node.community.isSome = true := by
  cases hstep with
  | receive message =>
    have hadvances := (hsteady.receive (fun _ => false) message).1
    rw [SyncPeer.receiveUnless_never] at hadvances
    refine ⟨hadvances.steady, ?_⟩
    obtain hsame | hsame := hadvances.grows.community_from
    · rw [hsame]
      exact hopen
    · rw [hsame]
      rfl
  | @ingest events _ =>
    have hsame : (peer.node.ingest C events).1.community = peer.node.community :=
      ingest_community hopen
    refine ⟨⟨?_, hsteady.pendingId, hsteady.pendingValid, hsteady.pendingBelongs,
      hsteady.pendingSize⟩, ?_⟩
    · intro c hc
      exact hsteady.community c (hsame.symm.trans hc)
    · rw [hsame]
      exact hopen

theorem Move.granted {s s' : Session} {sent : List SwarmCommand} {event : Option NetworkEvent}
    (h : Move C P s input sent event s') {invitation : EventId} {grant : BootstrapGrant}
    (hgrant : s'.bootstrapGrants[invitation]? = some grant) :
    s.bootstrapGrants[invitation]? = some grant ∨
      (NetworkResponse.bootstrapAncestry invitation grant.ancestry).toJson.length ≤
        MAX_NETWORK_FRAME_BYTES := by
  cases h with
  | exchanged _ _ _ _ | challenged _ _ | proved _ _ _ _ _ _ | surfaced _ _ _ _ => exact .inl hgrant
  | change hchange _ _ =>
    cases hchange with
    | granted hgrants => exact hgrants invitation grant hgrant
    | @approved _ pending _ =>
      have herased : (s.bootstrapGrants.erase pending.invitation)[invitation]? = some grant :=
        hgrant
      rw [getElem?_erase] at herased
      split_ifs at herased
      exact .inl herased
    | none _ | full _ _ | provisional _ | joined _ | closed | refused | unproved | declined
    | replaced _ _ | targeted _ => exact .inl hgrant

theorem NetworkNode.Ready.turn (h : node.Ready C) (input : Input) :
    (node.turn C P T input).next.Ready C := by
  have hsynced := (turn_footprint (C := C) (P := P) (T := T) node input).synced
  have hmove := turn_moves (C := C) (P := P) (T := T) node input
  have hsync : (node.turn C P T input).next.sync.Steady C ∧
      (node.turn C P T input).next.sync.node.community.isSome = true := by
    generalize (node.turn C P T input).next.sync = after at hsynced
    induction hsynced with
    | refl => exact ⟨h.steady, h.opened⟩
    | tail _ hstep ih => exact hstep.ready ih.1 ih.2
  refine ⟨hsync.1, hsync.2, fun invitation grant hgrant => ?_⟩
  obtain hold | hfits := hmove.granted hgrant
  · exact h.granted invitation grant hold
  · exact hfits

theorem Run.ready (hrun : Run C P T start turns node) (hstart : start.Ready C) : node.Ready C := by
  induction hrun with
  | nil => exact hstart
  | snoc _ input ih => exact ih.turn input

theorem newNode_ready {core : CoreNode} {store : EventStore} {community : CommunityId}
    {fresh sync : SyncPeer} {device : DeviceIdentity} {certificate : DeviceCertificate}
    {users : BTreeSet UserId} {revocations : RevocationSet}
    (hopen : CoreNode.open C store (some community) = .ok core)
    (hfresh : SyncPeer.new core community = .ok fresh)
    (hquota : sync = fresh ∨ ∃ limit, fresh.withStorageQuota limit = .ok sync)
    (hnew : NetworkNode.new C P device certificate sync users revocations = .ok start) :
    start.Ready C := by
  obtain ⟨hsteady, hnode, _⟩ := SyncPeer.steady_of_new (C := C) hfresh
  have hcommunity : core.community = some community := by
    unfold CoreNode.open at hopen
    dsimp only at hopen
    split at hopen
    · cases hopen
    · split_ifs at hopen
      rw [← Except.ok.inj hopen]
  have hready : sync.Steady C ∧ sync.node.community.isSome = true := by
    obtain rfl | ⟨limit, hlimit⟩ := hquota
    · refine ⟨hsteady, ?_⟩
      rw [hnode, hcommunity]
      rfl
    · refine ⟨(hsteady.call (.quota hlimit)).steady, ?_⟩
      rw [(SyncPeer.withStorageQuota_keeps hlimit).1, hnode, hcommunity]
      rfl
  rw [newNode_eq hnew]
  refine ⟨hready.1, hready.2, fun invitation grant hgrant => ?_⟩
  have hnone : (∅ : BTreeMap EventId BootstrapGrant)[invitation]? = some grant := hgrant
  simp at hnone

end Reachable

section Requests

variable {node : NetworkNode} {peer : PeerId} {channel : ResponseChannel}
  {nonce : Bytes BOOTSTRAP_NONCE_BYTES}

theorem receiveSync_fits (message : SyncMessage) :
    (node.receiveSync C peer message).2.toJson.length ≤ MAX_NETWORK_FRAME_BYTES := by
  have hvalid : (receiveSync.receiveValid C node message).2.toJson.length ≤
      MAX_NETWORK_FRAME_BYTES := by
    unfold receiveSync.receiveValid
    cases node.sync.receive C message with
    | mk sync result =>
      cases result with
      | error error => exact rejected_fits _
      | ok replies =>
        dsimp only
        cases hnormalized : normalizeMessages replies with
        | error reason => exact rejected_fits _
        | ok normalized => exact normalizeMessages_fits hnormalized
  unfold receiveSync
  by_cases hpeer : peer ∈ node.authenticated
  · rw [if_neg (not_not.mpr hpeer)]
    cases message with
    | want c ids =>
      dsimp only
      split_ifs
      · exact rejected_fits _
      · exact hvalid
    | hello _ _ _ | heads _ _ | events _ _ => exact hvalid
  · rw [if_pos hpeer]
    exact rejected_fits _

theorem answer_fits (hgranted : ∀ (invitation : EventId) (grant : BootstrapGrant),
      node.bootstrapGrants[invitation]? = some grant →
        (NetworkResponse.bootstrapAncestry invitation grant.ancestry).toJson.length ≤
          MAX_NETWORK_FRAME_BYTES)
    (request : NetworkRequest) :
    (node.handleRequest C P nonce peer request).2.1.toJson.length ≤ MAX_NETWORK_FRAME_BYTES := by
  cases request with
  | authenticate certificate =>
    unfold handleRequest
    dsimp only
    split
    · exact authenticated_fits
    · exact rejected_fits _
  | sync message => exact receiveSync_fits message
  | bootstrapBegin certificate invitation =>
    change (node.beginBootstrap C P nonce peer certificate invitation).2.toJson.length ≤ _
    unfold beginBootstrap
    cases node.validatePeerCertificate C P peer certificate with
    | error reason => exact rejected_fits _
    | ok device =>
      dsimp only
      split_ifs
      · exact challenge_fits invitation nonce
      · exact rejected_fits _
  | bootstrapProve invitation signature =>
    change (node.proveBootstrap C peer invitation signature).2.toJson.length ≤ _
    unfold proveBootstrap
    cases node.pendingChallenges[peer]? with
    | none => exact rejected_fits _
    | some pending =>
      dsimp only
      cases hgrant : node.bootstrapGrants[invitation]? with
      | none => exact rejected_fits _
      | some grant =>
        dsimp only
        split_ifs
        · exact rejected_fits _
        · exact hgranted invitation grant hgrant
  | bootstrapAccept invitation acceptance => exact rejected_fits _

theorem not_provisional (htarget : node.bootstrapTarget = none) (request : NetworkRequest) :
    (node.handleRequest C P nonce peer request).2.2 ≠ some .provisional := by
  cases request with
  | authenticate certificate =>
    unfold handleRequest
    dsimp only
    obtain ⟨reason, hresult⟩ | ⟨device, _, _, hresult⟩ | ⟨_, _, ⟨_, target, hmem, _⟩, _⟩ :=
      authenticate_cases C P node peer certificate
    · simp [hresult]
    · simp [hresult]
    · rw [htarget] at hmem
      cases hmem
  | sync _ | bootstrapBegin _ _ | bootstrapProve _ _ | bootstrapAccept _ _ =>
    intro hprovisional
    cases hprovisional

theorem send_returns {request : NetworkRequest}
    (h : request.toJson.length ≤ MAX_NETWORK_FRAME_BYTES) :
    Returns (· = node) (send T peer request)
      fun later => later.sync = node.sync ∧ later.authenticated = node.authenticated := by
  rintro _ rfl
  rw [send, if_neg (by omega)]
  exact ⟨rfl, rfl⟩

theorem maybeStartSync_returns :
    Returns (fun _ => True) (maybeStartSync T peer) fun _ => True := by
  apply Triple.get_bind
  rintro s -
  apply Triple.ite
  · intro _
    apply Triple.set_bind
    apply (send_returns (hello_request_fits s.sync)).conseq
    · exact fun _ _ _ => trivial
    · exact fun _ _ => id
  · intro _
    exact Triple.pure fun _ _ => trivial

variable (hsend : ∀ issued channel response, T issued (.sendResponse channel response) = .ok ())
include hsend

theorem respond_returns {response : NetworkResponse}
    (h : response.toJson.length ≤ MAX_NETWORK_FRAME_BYTES) :
    Returns (fun _ => True) (respond T channel response) fun _ => True := by
  intro node _
  rw [respond, if_neg (by omega), bind_run, issue, bind_run, get_run]
  simp only [bind_run, set_run, pure_run, hsend]

theorem refusal_returns (reason : RejectionCode) :
    Returns (fun _ => True)
      (respond T channel (.rejected reason) >>= fun _ => pure (NetworkEvent.syncProgress peer))
      fun _ => True :=
  Triple.bind (respond_returns hsend (rejected_fits reason)) fun _ => Triple.pure fun _ => id

theorem acceptance_returns (invitation : EventId) (acceptance : SignedEvent) :
    Returns (fun _ => True) (handleBootstrapAcceptance C T peer invitation acceptance channel)
      fun _ => True := by
  apply Triple.get_bind
  rintro s -
  apply Triple.set_bind
  cases s.provedBootstraps[peer]?.filter (s.acceptanceValid C invitation acceptance) with
  | none => exact (refusal_returns hsend _).weaken (fun _ _ => trivial) fun _ _ => id
  | some proved =>
    apply Triple.ite
    · intro _
      exact (refusal_returns hsend _).weaken (fun _ _ => trivial) fun _ _ => id
    · intro _
      have hevent : Returns (fun _ => True) (pure (.bootstrapAcceptance peer
          proved.authenticated.userId invitation acceptance) : NetworkM NetworkEvent)
          fun _ => True := Triple.pure fun _ => id
      exact Triple.modify_bind (fun _ _ => trivial) hevent

theorem request_returns (h : node.Ready C) (htarget : node.bootstrapTarget = none)
    (request : NetworkRequest) : Returns (· = node)
      (handleRequestMessage C P T peer request channel nonce) fun _ => True := by
  cases request with
  | bootstrapAccept invitation acceptance =>
    exact (acceptance_returns hsend invitation acceptance).weaken (fun _ _ => trivial) fun _ _ => id
  | authenticate _ | sync _ | bootstrapBegin _ _ | bootstrapProve _ _ =>
    apply Triple.get_bind
    rintro s rfl
    cases hrun : s.handleRequest C P nonce peer _ with
    | mk later answer =>
      have hanswer : (s.handleRequest C P nonce peer _).2 = answer := congrArg Prod.snd hrun
      have hfits : answer.1.toJson.length ≤ MAX_NETWORK_FRAME_BYTES := by
        rw [← hanswer]
        exact answer_fits h.granted _
      have hfull : answer.2 ≠ some .provisional := by
        rw [← hanswer]
        exact not_provisional htarget _
      apply Triple.set_bind
      apply Triple.bind ((respond_returns hsend hfits).weaken (fun _ _ => trivial) fun _ _ => id)
      intro _
      cases hstate : answer.2 with
      | none => exact Triple.pure fun _ => id
      | some authentication =>
        cases authentication with
        | full => exact Triple.bind maybeStartSync_returns fun _ => Triple.pure fun _ => id
        | provisional => exact absurd hstate hfull

end Requests

section Responses

variable {node : NetworkNode} {peer : PeerId} {message : SyncMessage}

theorem receiveResponse_returns (hsteady : node.sync.Steady C)
    (hopen : node.sync.node.community.isSome = true) (h : node.sync.Welcomes C message) :
    Returns (· = node) (receiveResponse C T peer message)
      fun later => later.sync = (node.sync.receive C message).1 := by
  obtain ⟨replies, hreplies, normalized, hnormalized⟩ :=
    (SyncPeer.receive_welcome hsteady hopen).mpr h
  apply Triple.get_bind
  rintro s rfl
  cases hreceive : s.sync.receive C message with
  | mk sync result =>
    rw [hreceive] at hreplies
    obtain rfl : result = .ok replies := hreplies
    dsimp only
    apply Triple.set_bind
    rw [hnormalized]
    have hsent : ∀ outgoing ∈ normalized, Returns (fun later : NetworkNode => later.sync = sync)
        (send T peer (.sync outgoing)) fun later => later.sync = sync := by
      intro outgoing hmem later hlater
      have hfits := (sync_request_le_response hmem).trans (normalizeMessages_fits hnormalized)
      exact (send_returns hfits).conseq (fun _ _ hkept => hkept.1.trans hlater) (fun _ _ => id)
        later rfl
    exact (Triple.forM hsent).weaken (by rintro _ rfl; rfl) fun _ _ => id

theorem receiveResponse_fails (hsteady : node.sync.Steady C)
    (hopen : node.sync.node.community.isSome = true) (h : ¬ node.sync.Welcomes C message) :
    Fails (· = node) (receiveResponse C T peer message) := by
  apply Triple.get_bind
  rintro s rfl
  cases hreceive : s.sync.receive C message with
  | mk sync result =>
    dsimp only
    apply Triple.set_bind
    cases result with
    | error error => exact Triple.throw fun _ _ => trivial
    | ok replies =>
      dsimp only
      cases hnormalized : normalizeMessages replies with
      | error reason => exact Triple.throw fun _ _ => trivial
      | ok normalized =>
        have hreplies : (s.sync.receive C message).2 = .ok replies := by rw [hreceive]
        have hwelcome := (SyncPeer.receive_welcome hsteady hopen).mp
          ⟨replies, hreplies, normalized, hnormalized⟩
        exact absurd hwelcome h

/-- The loop over the messages of a response ends without an error when each is welcome. -/
theorem receiveAll_iff {messages : List SyncMessage} (hsteady : node.sync.Steady C)
    (hopen : node.sync.node.community.isSome = true) :
    (∃ u later, messages.forM (receiveResponse C T peer) node = .ok u later) ↔
      node.sync.WelcomesAll C messages := by
  induction messages generalizing node with
  | nil => exact ⟨fun _ => trivial, fun _ => ⟨⟨⟩, node, rfl⟩⟩
  | cons message messages ih =>
    by_cases hwelcome : node.sync.Welcomes C message
    · obtain ⟨u, later, hreceive, hsync⟩ :=
        (receiveResponse_returns hsteady hopen hwelcome).ok rfl
      have hstep : SyncStep C (.swarm .other) node.sync (node.sync.receive C message).1 :=
        .receive message
      obtain ⟨hsteady', hopen'⟩ := hstep.ready hsteady hopen
      rw [← hsync] at hsteady' hopen'
      rw [forM_cons_run, hreceive, SyncPeer.WelcomesAll, and_iff_right hwelcome, ← hsync]
      exact ih hsteady' hopen'
    · have hnot : ¬ node.sync.WelcomesAll C (message :: messages) := fun h => hwelcome h.1
      refine iff_of_false ?_ hnot
      rintro ⟨u, later, hrun⟩
      rw [forM_cons_run] at hrun
      have hfails : ¬ ∃ u later, receiveResponse C T peer message node = .ok u later :=
        (receiveResponse_fails hsteady hopen hwelcome).not_ok rfl
      revert hrun hfails
      cases receiveResponse C T peer message node with
      | ok u later => exact fun _ hfails => hfails ⟨u, later, rfl⟩
      | error error later => intro hrun; cases hrun

theorem responses_fail (htarget : node.bootstrapTarget = none) {response : NetworkResponse}
    (hauthenticated : response ≠ .authenticated) (hsync : ∀ messages, response ≠ .sync messages) :
    Fails (· = node) (handleResponse C T peer response) := by
  have hnone : ∀ invitation, node.targetFor peer invitation = none := by
    simp [targetFor, htarget]
  have hnobody : node.targetOf peer = none := by
    simp [targetOf, htarget]
  cases response with
  | authenticated => exact absurd rfl hauthenticated
  | sync messages => exact absurd rfl (hsync messages)
  | bootstrapChallenge invitation nonce =>
    apply Triple.get_bind
    rintro s rfl
    rw [hnone]
    exact Triple.throw fun _ _ => trivial
  | bootstrapAncestry invitation events =>
    apply Triple.get_bind
    rintro s rfl
    rw [hnone]
    exact Triple.throw fun _ _ => trivial
  | bootstrapAccepted =>
    apply Triple.get_bind
    rintro s rfl
    rw [hnobody]
    exact Triple.throw fun _ _ => trivial
  | rejected reason =>
    apply Triple.get_bind
    rintro s rfl
    rw [hnobody]
    apply Triple.ite
    · rintro ⟨_, hsome⟩
      cases hsome
    · intro _
      exact Triple.throw fun _ _ => trivial

theorem rejected_run (htarget : node.bootstrapTarget = none) {reason : RejectionCode} :
    nextEvent C P T (.response peer (.rejected reason)) node = .error (.rejected reason) node := by
  have hnobody : node.targetOf peer = none := by
    simp [targetOf, htarget]
  have hresponse : handleResponse C T peer (.rejected reason) node =
      .error (.rejected reason) node := by
    rw [handleResponse, bind_run, get_run]
    dsimp only
    rw [if_neg (by simp [hnobody])]
    rfl
  change EStateM.map some (handleResponse C T peer (.rejected reason)) node = _
  rw [EStateM.map, hresponse]

theorem response_iff (h : node.Ready C) (htarget : node.bootstrapTarget = none)
    (response : NetworkResponse) :
    (∃ event later, handleResponse C T peer response node = .ok event later) ↔
      node.Stands C peer response := by
  cases response with
  | authenticated =>
    have hreturns : Returns (· = node) (handleResponse C T peer .authenticated) fun _ => True := by
      have hstart : Returns (fun _ => True) (maybeStartSync T peer >>= fun _ =>
          pure (NetworkEvent.authenticated peer)) fun _ => True :=
        Triple.bind maybeStartSync_returns fun _ => Triple.pure fun _ => id
      exact Triple.modify_bind (fun _ _ => trivial) hstart
    obtain ⟨event, later, hrun, _⟩ := hreturns.ok rfl
    exact ⟨fun _ => trivial, fun _ => ⟨event, later, hrun⟩⟩
  | sync messages =>
    have hloop : (∃ u later, messages.forM (receiveResponse C T peer) node = .ok u later) ↔
        node.sync.WelcomesAll C messages := receiveAll_iff h.steady h.opened
    rw [handleResponse, NetworkNode.Stands, ← hloop, bind_run, get_run]
    dsimp only
    by_cases hpeer : peer ∈ node.authenticated
    · rw [if_neg (not_not.mpr hpeer), and_iff_right hpeer]
      by_cases hcount : messages.length ≤ MAX_MESSAGES_PER_FRAME
      · rw [if_neg (by omega), and_iff_right hcount, bind_run]
        cases messages.forM (receiveResponse C T peer) node with
        | ok u later => exact ⟨fun _ => ⟨u, later, rfl⟩, fun _ => ⟨_, later, rfl⟩⟩
        | error error later => simp
      · rw [if_pos (by omega)]
        refine iff_of_false ?_ fun hwelcome => hcount hwelcome.1
        rintro ⟨event, later, hrun⟩
        cases hrun
    · rw [if_pos hpeer]
      refine iff_of_false ?_ fun hwelcome => hpeer hwelcome.1
      rintro ⟨event, later, hrun⟩
      cases hrun
  | bootstrapChallenge _ _ | bootstrapAncestry _ _ | bootstrapAccepted | rejected _ =>
    refine iff_of_false (Fails.not_ok (responses_fail htarget ?_ ?_) rfl) id
    all_goals simp

end Responses

theorem some_ok_iff {node : NetworkNode} {x : NetworkM NetworkEvent} :
    (∃ event later, (some <$> x) node = .ok event later) ↔
      ∃ event later, x node = .ok event later := by
  change (∃ event later, EStateM.map some x node = .ok event later) ↔ _
  unfold EStateM.map
  cases x node with
  | ok event later => exact ⟨fun _ => ⟨event, later, rfl⟩, fun _ => ⟨some event, later, rfl⟩⟩
  | error error later => simp

/-- In every reachable state without a bootstrap target every request is handled, and a response
is exactly if the node can act on it. -/
theorem messages_handled_iff {store : EventStore} {core : CoreNode} {community : CommunityId}
    {fresh sync : SyncPeer} {device : DeviceIdentity} {certificate : DeviceCertificate}
    {users : BTreeSet UserId} {revocations : RevocationSet} {start node : NetworkNode}
    {turns : List Turn} (hopen : CoreNode.open C store (some community) = .ok core)
    (hfresh : SyncPeer.new core community = .ok fresh)
    (hquota : sync = fresh ∨ ∃ limit, fresh.withStorageQuota limit = .ok sync)
    (hnew : NetworkNode.new C P device certificate sync users revocations = .ok start)
    (hrun : Run C P T start turns node) (htarget : node.bootstrapTarget = none)
    (hsend : ∀ issued channel response, T issued (.sendResponse channel response) = .ok ()) :
    (∀ peer request channel nonce, ∃ event later,
      nextEvent C P T (.request peer request channel nonce) node = .ok event later) ∧
    ∀ peer response, (∃ event later,
      nextEvent C P T (.response peer response) node = .ok event later) ↔
        node.Stands C peer response := by
  have hready := hrun.ready (newNode_ready hopen hfresh hquota hnew)
  constructor
  · intro peer request channel nonce
    have hreturns : Returns (· = node) (handleRequestMessage C P T peer request channel nonce)
        fun _ => True := request_returns hsend hready htarget request
    obtain ⟨event, later, hanswered, _⟩ := hreturns.ok rfl
    exact some_ok_iff.mpr ⟨event, later, hanswered⟩
  · intro peer response
    exact some_ok_iff.trans (response_iff hready htarget response)

section Example

open Sample

theorem hostCore_opened :
    CoreNode.open crypto hostSync.node.store (some club) = .ok hostSync.node := by
  have hstored : hostSync.node.store.events crypto club = .ok [genesis] := by decide +kernel
  rw [CoreNode.open, hstored]
  rfl

def greetedHost : NetworkNode := hostAfter host [guestConnects]

theorem greeted_checked : greetedHost.bootstrapTarget = none ∧
    .sendRequest guestPeer (.authenticate (certificateOf 1)) ∈ greetedHost.swarm := by
  decide +kernel

theorem messages_handled_iff_greeted :
    (∀ peer request channel nonce, ∃ event later,
      nextEvent crypto names reliable (.request peer request channel nonce) greetedHost =
        .ok event later) ∧
    ∀ peer response, (∃ event later,
      nextEvent crypto names reliable (.response peer response) greetedHost = .ok event later) ↔
        greetedHost.Stands crypto peer response := by
  have hfresh : SyncPeer.new hostSync.node club = .ok hostSync := by
    simp [SyncPeer.new, hostSync, CoreNode.ofEvents]
  have hsend : ∀ issued channel response,
      reliable issued (.sendResponse channel response) = .ok () := fun _ _ _ => rfl
  have hrun : Run crypto names reliable host (hostTurns host [guestConnects]) greetedHost :=
    host_runs [guestConnects]
  exact messages_handled_iff hostCore_opened hfresh (.inl rfl) host_new hrun greeted_checked.1 hsend

/-- The guest answers the greeting of the host with a rejection, and the loop of the host ends. -/
theorem rejection_ends_loop :
    Run crypto names reliable host (hostTurns host [guestConnects]) greetedHost ∧
      greetedHost.bootstrapTarget = none ∧
      .sendRequest guestPeer (.authenticate (certificateOf 1)) ∈ greetedHost.swarm ∧
      nextEvent crypto names reliable (.response guestPeer (.rejected .userNotAllowed))
        greetedHost = .error (.rejected .userNotAllowed) greetedHost := by
  obtain ⟨htarget, hsent⟩ := greeted_checked
  exact ⟨host_runs [guestConnects], htarget, hsent, rejected_run htarget⟩

end Example

end ChatCommons
