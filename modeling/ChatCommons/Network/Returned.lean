import ChatCommons.General.Stateful
import ChatCommons.Model.Network

/-!
Where the events come from that a program has to act on: an ancestry and an acceptance.
-/

namespace ChatCommons

open Collections Stateful NetworkNode

variable {C : Crypto} {P : PeerNames} {T : Transport}

/-- The checks that the network makes on the ancestry of an invitation. -/
structure NetworkNode.Expects (C : Crypto) (node : NetworkNode) (peer : PeerId)
    (invitation : EventId) (events : List SignedEvent) : Prop where
  target : (node.targetFor peer invitation).isSome = true
  nonempty : events ≠ []
  short : events.length ≤ MAX_BOOTSTRAP_ANCESTRY_EVENTS
  checked : node.checkAncestry C events = true
  invited : ∃ event ∈ events, event.eventId = invitation

section Returned

/-- Neither the ancestry of an invitation nor an acceptance. -/
def NetworkEvent.Plain : NetworkEvent → Prop
  | .bootstrapAncestry .. => False
  | .bootstrapAcceptance .. => False
  | _ => True

variable {node : NetworkNode} {peer : PeerId} {channel : ResponseChannel}
  {nonce : Bytes BOOTSTRAP_NONCE_BYTES}

theorem connectionEstablished_plain {relayed : Bool} :
    Yields (connectionEstablished T peer relayed) NetworkEvent.Plain := by
  refine .bind fun _ => .ite (fun _ => .pure trivial) fun _ => ?_
  refine .ite (fun _ => .bind fun _ => ?_) fun _ => ?_
  all_goals
    exact .ite (fun _ => .bind fun _ => .bind fun _ => .pure trivial) fun _ => .pure trivial

theorem request_plain {request : NetworkRequest}
    (h : ∀ invitation acceptance, request ≠ .bootstrapAccept invitation acceptance) :
    Yields (handleRequestMessage C P T peer request channel nonce) NetworkEvent.Plain := by
  cases request with
  | bootstrapAccept invitation acceptance => exact absurd rfl (h invitation acceptance)
  | authenticate _ | sync _ | bootstrapBegin _ _ | bootstrapProve _ _ =>
    refine .bind fun node => ?_
    cases node.handleRequest C P nonce peer _ with
    | mk later answer =>
      refine .bind fun _ => .bind fun _ => ?_
      cases answer.2 with
      | none => exact .pure trivial
      | some authentication =>
        cases authentication with
        | full => exact .bind fun _ => .pure trivial
        | provisional => exact .bind fun _ => .pure trivial

theorem identifyReceived_plain {observed : Multiaddr} :
    Yields (identifyReceived T peer observed) NetworkEvent.Plain := by
  refine .bind fun node => ?_
  cases node.pendingRelayReservations[peer]?
  case' some route => refine .bind fun _ => .bind fun _ => ?_
  all_goals
    refine .bind fun node => ?_
    cases node.pendingRelayDials[peer]? with
    | none => exact .pure trivial
    | some row =>
      refine .bind fun _ => .bind fun sent => ?_
      cases sent with
      | error e => exact .bind fun _ => .pure trivial
      | ok u => exact .pure trivial

theorem response_plain {response : NetworkResponse}
    (h : ∀ invitation events, response ≠ .bootstrapAncestry invitation events) :
    Yields (handleResponse C T peer response) NetworkEvent.Plain := by
  cases response with
  | authenticated => exact .bind fun _ => .bind fun _ => .pure trivial
  | sync messages =>
    exact .bind fun _ => .ite (fun _ => .throw) fun _ => .ite (fun _ => .throw) fun _ =>
      .bind fun _ => .pure trivial
  | bootstrapChallenge invitation nonce =>
    refine .bind fun node => ?_
    cases node.targetFor peer invitation with
    | none => exact .throw
    | some target =>
      dsimp only
      cases validateDeviceCertificate C node.certificate with
      | error e => exact .throw
      | ok device => exact .pure trivial
  | bootstrapAncestry invitation events => exact absurd rfl (h invitation events)
  | bootstrapAccepted =>
    refine .bind fun node => ?_
    cases (node.targetOf peer).filter BootstrapTarget.endpointApproved with
    | none => exact .throw
    | some target =>
      dsimp only
      cases node.provisional[peer]? with
      | none => exact .throw
      | some provisional => exact .bind fun _ => .bind fun _ => .pure trivial
  | rejected reason => exact .bind fun _ => .ite (fun _ => .pure trivial) fun _ => .throw

theorem nextEvent_plain {event : SwarmEvent}
    (h : ∀ peer invitation events, event ≠ .response peer (.bootstrapAncestry invitation events))
    (h' : ∀ peer invitation acceptance channel nonce,
      event ≠ .request peer (.bootstrapAccept invitation acceptance) channel nonce) :
    Yields (nextEvent C P T event) fun result => ∀ e ∈ result, e.Plain := by
  have hsome : ∀ {x : NetworkM NetworkEvent}, Yields x NetworkEvent.Plain →
      Yields (some <$> x) fun result => ∀ e ∈ result, e.Plain := by
    intro x hx
    apply Yields.map
    intro s a t heq e he
    cases he
    exact hx s a t heq
  cases event with
  | connectionEstablished peer relayed => exact hsome connectionEstablished_plain
  | connectionClosed peer numEstablished =>
    exact .bind fun _ => .ite (fun _ => .pure (by simp)) fun _ =>
      .ite (fun _ => .pure (by simp [NetworkEvent.Plain])) fun _ =>
        .bind fun _ => .pure (by simp [NetworkEvent.Plain])
  | request peer request channel nonce =>
    apply hsome (request_plain _)
    rintro invitation acceptance rfl
    exact h' peer invitation acceptance channel nonce rfl
  | response peer response =>
    apply hsome (response_plain _)
    rintro invitation events rfl
    exact h peer invitation events rfl
  | identifyReceived peer observed => exact hsome identifyReceived_plain
  | dcutr peer result =>
    cases result with
    | error e => exact .pure (by simp [NetworkEvent.Plain])
    | ok u => exact .pure (by simp [NetworkEvent.Plain])
  | outgoingConnectionError peer error isConnected =>
    apply Yields.bind
    intro node
    cases peer with
    | none => exact .throw
    | some peer =>
      exact .ite (fun _ => .pure (by simp [NetworkEvent.Plain])) fun _ =>
        .ite (fun _ => .pure (by simp [NetworkEvent.Plain])) fun _ =>
          .ite (fun _ => .pure (by simp)) fun _ => .throw
  | listenerError error => exact .throw
  | newListenAddr _ | requestFailure _ _ | responseSent _ | reservationReqAccepted _
  | outboundCircuitEstablished _ | inboundCircuitEstablished _ | other =>
    exact .pure (by simp [NetworkEvent.Plain])

theorem ancestry_response {invitation : EventId} {events : List SignedEvent} {a : NetworkEvent}
    {later : NetworkNode}
    (h : handleResponse C T peer (.bootstrapAncestry invitation events) node = .ok a later) :
    a = .bootstrapAncestry peer invitation events ∧ later = node ∧
      node.Expects C peer invitation events := by
  rw [handleResponse, bind_run, get_run] at h
  dsimp only at h
  cases htarget : node.targetFor peer invitation with
  | none =>
    rw [htarget] at h
    cases h
  | some target =>
    rw [htarget] at h
    dsimp only at h
    split_ifs at h with hsize hchecked hinvited
    · cases h
    · cases h
    · cases h
    · cases h
      simp only [Bool.or_eq_true, not_or, List.isEmpty_iff, decide_eq_true_eq, not_lt] at hsize
      refine ⟨rfl, rfl, by rw [htarget]; rfl, hsize.1, hsize.2, by simpa using hchecked, ?_⟩
      simpa using hinvited

/-- What the node hands over as an acceptance of the user. -/
structure NetworkNode.HandsOver (C : Crypto) (node : NetworkNode) (peer : PeerId) (user : UserId)
    (invitation : EventId) (acceptance : SignedEvent) : Prop where
  proved : ∃ proved, node.provedBootstraps[peer]? = some proved ∧
    node.acceptanceValid C invitation acceptance proved = true ∧
    proved.authenticated.userId = user
  free : peer ∉ node.pendingAcceptances

theorem acceptance_request {invitation : EventId} {acceptance : SignedEvent} {a : NetworkEvent}
    {later : NetworkNode}
    (h : handleBootstrapAcceptance C T peer invitation acceptance channel node = .ok a later) :
    a = .syncProgress peer ∨ ∃ user, a = .bootstrapAcceptance peer user invitation acceptance ∧
      later.sync = node.sync ∧ node.HandsOver C peer user invitation acceptance := by
  unfold handleBootstrapAcceptance at h
  rw [bind_run, get_run] at h
  dsimp only at h
  rw [bind_run, set_run] at h
  dsimp only at h
  have hrefused : ∀ {x : NetworkM Unit} {current : NetworkNode},
      (do x; return NetworkEvent.syncProgress peer : NetworkM NetworkEvent) current = .ok a later →
      a = .syncProgress peer := by
    intro x current hrun
    rw [bind_run] at hrun
    cases hx : x current with
    | ok u t =>
      rw [hx] at hrun
      cases hrun
      rfl
    | error e t =>
      rw [hx] at hrun
      cases hrun
  cases hproved : node.provedBootstraps[peer]?.filter
      (node.acceptanceValid C invitation acceptance) with
  | none =>
    rw [hproved] at h
    exact .inl (hrefused h)
  | some proved =>
    rw [hproved] at h
    dsimp only at h
    split_ifs at h with hpending
    · exact .inl (hrefused h)
    · cases h
      obtain ⟨hmem, hvalid⟩ := Option.filter_eq_some_iff.mp hproved
      exact .inr ⟨_, rfl, rfl, ⟨proved, hmem, hvalid, rfl⟩, hpending⟩

theorem some_map_ok {x : NetworkM NetworkEvent} {e : NetworkEvent} {later : NetworkNode}
    (h : (some <$> x) node = .ok (some e) later) : x node = .ok e later := by
  change EStateM.map some x node = _ at h
  unfold EStateM.map at h
  cases hx : x node with
  | ok a t =>
    rw [hx] at h
    cases h
    rfl
  | error e t =>
    rw [hx] at h
    cases h

/-- An ancestry comes only from the response that carries it, which leaves the node as it is. -/
theorem nextEvent_ancestry {event : SwarmEvent} {invitation : EventId} {events : List SignedEvent}
    {later : NetworkNode}
    (h : nextEvent C P T event node = .ok (some (.bootstrapAncestry peer invitation events)) later) :
    event = .response peer (.bootstrapAncestry invitation events) ∧ later = node ∧
      node.Expects C peer invitation events := by
  by_cases hplain : ∀ peer invitation events,
      event ≠ .response peer (.bootstrapAncestry invitation events)
  · by_cases haccept : ∀ peer invitation acceptance channel nonce,
        event ≠ .request peer (.bootstrapAccept invitation acceptance) channel nonce
    · exact False.elim (nextEvent_plain hplain haccept _ _ _ h _ rfl)
    · push Not at haccept
      obtain ⟨peer', invitation', acceptance, channel, nonce, rfl⟩ := haccept
      obtain heq | ⟨user, heq, _⟩ := acceptance_request (some_map_ok h)
      · cases heq
      · cases heq
  · push Not at hplain
    obtain ⟨peer', invitation', events', rfl⟩ := hplain
    obtain ⟨heq, hlater, hexpects⟩ := ancestry_response (some_map_ok h)
    cases heq
    exact ⟨rfl, hlater, hexpects⟩

theorem nextEvent_acceptance {event : SwarmEvent} {user : UserId} {invitation : EventId}
    {acceptance : SignedEvent} {later : NetworkNode}
    (h : nextEvent C P T event node =
      .ok (some (.bootstrapAcceptance peer user invitation acceptance)) later) :
    (∃ channel nonce, event = .request peer (.bootstrapAccept invitation acceptance) channel nonce) ∧
      later.sync = node.sync ∧ node.HandsOver C peer user invitation acceptance := by
  by_cases hplain : ∀ peer invitation events,
      event ≠ .response peer (.bootstrapAncestry invitation events)
  · by_cases haccept : ∀ peer invitation acceptance channel nonce,
        event ≠ .request peer (.bootstrapAccept invitation acceptance) channel nonce
    · exact False.elim (nextEvent_plain hplain haccept _ _ _ h _ rfl)
    · push Not at haccept
      obtain ⟨peer', invitation', acceptance', channel, nonce, rfl⟩ := haccept
      obtain heq | ⟨user', heq, hsync, hhands⟩ := acceptance_request (some_map_ok h)
      · cases heq
      · cases heq
        exact ⟨⟨channel, nonce, rfl⟩, hsync, hhands⟩
  · push Not at hplain
    obtain ⟨peer', invitation', events', rfl⟩ := hplain
    obtain ⟨heq, _⟩ := ancestry_response (some_map_ok h)
    cases heq

end Returned

end ChatCommons
