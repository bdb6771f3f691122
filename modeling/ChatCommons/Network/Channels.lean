import ChatCommons.Network.Responses

/-!
Where the response channels go: a request is answered in its turn, or its channel is kept until
the program decides on the acceptance or the peer is gone.
-/

namespace ChatCommons

open Collections Stateful NetworkNode

def SwarmCommand.answers (channel : ResponseChannel) : SwarmCommand → Bool
  | .sendResponse used _ => used = channel
  | _ => false

def SwarmCommand.Mute (channel : ResponseChannel) (command : SwarmCommand) : Prop :=
  command.answers channel = false

namespace NetworkNode

/-- How many pending acceptances keep the channel. -/
def held (node : NetworkNode) (channel : ResponseChannel) : ℕ :=
  node.pendingAcceptances.toList.countP fun row => row.2.channel = channel

/-- The last connection of a peer is closed while its acceptance is pending. -/
def abandons (node : NetworkNode) (channel : ResponseChannel) : Input → Bool
  | .swarm (.connectionClosed peer numEstablished) =>
    numEstablished = 0 && peer ∉ node.relayPeers &&
      node.pendingAcceptances[peer]?.any fun pending => pending.channel = channel
  | _ => false

end NetworkNode

def Input.asks (channel : ResponseChannel) : Input → Bool
  | .swarm (.request _ _ used _) => used = channel
  | _ => false

namespace Turn

def answers (channel : ResponseChannel) (turn : Turn) : ℕ :=
  turn.sent.countP (SwarmCommand.answers channel)

def abandons (channel : ResponseChannel) (turn : Turn) : Bool :=
  turn.node.abandons channel turn.input

def asks (channel : ResponseChannel) (turn : Turn) : Bool := turn.input.asks channel

end Turn

variable {C : Crypto} {P : PeerNames} {T : Transport} {start node later last : NetworkNode}
  {input : Input} {peer : PeerId} {channel : ResponseChannel} {due more : ℕ}

section Kept

variable {α β : Type} [LinearOrder α] {m : BTreeMap α β} {k : α} {v : β}

theorem map_toList_nodup (m : BTreeMap α β) : m.toList.Nodup :=
  (map_toList_sorted m).imp fun hlt heq => hlt.ne (congrArg Prod.fst heq)

theorem toList_insert_perm (hnew : k ∉ m) : (m.insert k v).toList.Perm ((k, v) :: m.toList) := by
  have hnone : m[k]? = none := not_mem_map.mp hnew
  have hfresh : (k, v) ∉ m.toList := by
    intro hmem
    rw [mem_toList, hnone] at hmem
    cases hmem
  apply (List.perm_ext_iff_of_nodup (map_toList_nodup _) ?_).mpr
  · rintro ⟨k', v'⟩
    rw [List.mem_cons, mem_toList, mem_toList, getElem?_insert]
    by_cases hk : k = k'
    · subst hk
      simp [hnone, eq_comm]
    · simp [hk, Ne.symm hk]
  · exact List.nodup_cons.mpr ⟨hfresh, map_toList_nodup m⟩

theorem toList_erase_perm (hrow : m[k]? = some v) : m.toList.Perm ((k, v) :: (m.erase k).toList) := by
  have hsame : (m.erase k).insert k v = m := by
    apply map_ext
    intro k'
    rw [getElem?_insert, getElem?_erase]
    by_cases hk : k = k'
    · rw [if_pos hk, ← hk, hrow]
    · rw [if_neg hk, if_neg hk]
  have hperm := toList_insert_perm (m := m.erase k) (k := k) (v := v) (by simp)
  rwa [hsame] at hperm

end Kept

section Settling

/-- Answers given and channels kept make up for those kept before and `due` new ones. -/
def Balances (channel : ResponseChannel) (due : ℕ) (node later : NetworkNode) : Prop :=
  ∃ sent, later.swarm = node.swarm ++ sent ∧
    sent.countP (SwarmCommand.answers channel) + later.held channel = node.held channel + due

theorem Balances.trans (h : Balances channel due node later) (h' : Balances channel more later last) :
    Balances channel (due + more) node last := by
  obtain ⟨sent, hsent, hcount⟩ := h
  obtain ⟨sent', hsent', hcount'⟩ := h'
  refine ⟨sent ++ sent', by rw [hsent', hsent, List.append_assoc], ?_⟩
  rw [List.countP_append]
  omega

/-- Nothing is answered but what was kept. -/
def Settled (channel : ResponseChannel) : NetworkNode → NetworkNode → Prop := Balances channel 0

instance : IsPreorder NetworkNode (Settled channel) where
  refl node := ⟨[], by simp, by simp⟩
  trans _ _ _ := Balances.trans

theorem settled_of_eq (hacceptances : later.pendingAcceptances = node.pendingAcceptances)
    (hswarm : later.swarm = node.swarm) : Settled channel node later :=
  ⟨[], by simp [hswarm], by simp [held, hacceptances]⟩

/-- What the request of a channel adds to the account of another. -/
def dueFor (used channel : ResponseChannel) : ℕ := if used = channel then 1 else 0

theorem balances_answered {used : ResponseChannel} {response : NetworkResponse} :
    Balances channel (dueFor used channel) node
      { node with swarm := node.swarm ++ [.sendResponse used response] } := by
  refine ⟨[_], rfl, ?_⟩
  by_cases hused : used = channel
  · simp [held, SwarmCommand.answers, dueFor, hused, Nat.add_comm]
  · simp [held, SwarmCommand.answers, dueFor, hused]

variable {α β : Type} {x : NetworkM α} {f : α → NetworkM β} {R : α → Prop}

/-- What the first computation owes is owed at the end, if the rest settles its own accounts. -/
theorem balances_bind
    (hx : Triple (· = node) x (fun _ => Balances channel due later) fun _ => Balances channel due later)
    (hf : ∀ a s, Evolves (Settled channel) s (f a)) :
    Triple (· = node) (x >>= f) (fun _ => Balances channel due later)
      fun _ => Balances channel due later := by
  apply Triple.bind hx
  intro a s hs
  have hrest := hf a s s rfl
  revert hrest
  cases f a s with
  | ok b last => exact hs.trans
  | error e last => exact hs.trans

theorem Keeps.settled (h : Keeps (SwarmCommand.Mute channel) R node x) :
    Evolves (Settled channel) node x := by
  have hextends : ∀ {later}, Extends (SwarmCommand.Mute channel) node later →
      Settled channel node later := by
    rintro later ⟨hsession, sent, hsent, hnone⟩
    have hsame : later.pendingAcceptances = node.pendingAcceptances :=
      congrArg Session.pendingAcceptances hsession
    refine ⟨sent, hsent, ?_⟩
    have hcount : sent.countP (SwarmCommand.answers channel) = 0 := by
      rw [List.countP_eq_zero]
      exact fun command hcommand => ne_true_of_eq_false (hnone command hcommand)
    simp [held, hsame, hcount]
  exact h.conseq (fun _ _ hlater => hextends hlater.2) fun _ _ => hextends

end Settling

section Quiet

theorem maybeStartSync_settled : Evolves (Settled channel) node (maybeStartSync T peer) :=
  (maybeStartSync_keeps fun _ => rfl).settled

theorem response_settled {response : NetworkResponse} :
    Evolves (Settled channel) node (handleResponse C T peer response) := by
  cases response with
  | authenticated =>
    apply Evolves.modify_bind (settled_of_eq rfl rfl)
    exact .bind maybeStartSync_settled fun _ _ _ => .pure
  | sync messages =>
    apply Evolves.get
    refine .ite (fun _ => .throw) fun _ => .ite (fun _ => .throw) fun _ => ?_
    apply Evolves.bind
    · exact .forM fun _ _ _ _ => (receiveResponse_keeps fun _ => rfl).settled
    · exact fun _ _ _ => .pure
  | bootstrapChallenge invitation nonce =>
    apply Evolves.get
    cases node.targetFor peer invitation with
    | none => exact .throw
    | some target =>
      dsimp only
      cases validateDeviceCertificate C node.certificate with
      | error e => exact .throw
      | ok device => exact .pure
  | bootstrapAncestry invitation events =>
    apply Evolves.get
    cases node.targetFor peer invitation with
    | none => exact .throw
    | some target =>
      exact .ite (fun _ => .throw) fun _ => .ite (fun _ => .throw) fun _ =>
        .ite (fun _ => .throw) fun _ => .pure
  | bootstrapAccepted =>
    apply Evolves.get
    cases (node.targetOf peer).filter BootstrapTarget.endpointApproved with
    | none => exact .throw
    | some target =>
      dsimp only
      cases node.provisional[peer]? with
      | none => exact .throw
      | some device =>
        exact .set_bind (settled_of_eq rfl rfl) (.bind maybeStartSync_settled fun _ _ _ => .pure)
  | rejected reason => exact .get (.ite (fun _ => .pure) fun _ => .throw)

/-- An acceptance decided on is answered on the channel it kept. -/
theorem resolve_settled {approved : Bool} :
    Evolves (Settled channel) node (resolveBootstrapAcceptance T peer approved) := by
  apply Evolves.get
  cases hpending : node.pendingAcceptances[peer]? with
  | none => exact .throw
  | some pending =>
    have hheld : node.held channel =
        (node.pendingAcceptances.erase peer).toList.countP (fun row => row.2.channel = channel) +
          dueFor pending.channel channel := by
      rw [held, (toList_erase_perm hpending).countP_eq, List.countP_cons, dueFor]
      simp
    have hanswered : ∀ {later : NetworkNode} {response : NetworkResponse},
        later.pendingAcceptances = node.pendingAcceptances.erase peer → later.swarm = node.swarm →
        Triple (· = later) (issue T (.sendResponse pending.channel response))
          (fun _ => Settled channel node) fun _ => Settled channel node := by
      intro later response hacceptances hswarm
      have hsettled : Settled channel node
          { later with swarm := later.swarm ++ [.sendResponse pending.channel response] } := by
        obtain ⟨sent, hsent, hcount⟩ : Balances channel (dueFor pending.channel channel) later
            { later with swarm := later.swarm ++ [.sendResponse pending.channel response] } :=
          balances_answered
        refine ⟨sent, by rw [hsent, hswarm], ?_⟩
        have hlater : later.held channel + dueFor pending.channel channel = node.held channel := by
          rw [hheld, held, hacceptances]
        omega
      exact issue_sends.conseq (fun _ _ heq => heq ▸ hsettled) fun _ _ heq => heq ▸ hsettled
    cases approved with
    | true =>
      refine Triple.set_bind (Triple.modify_bind_eq (balances_bind (hanswered rfl rfl) ?_))
      intro sent s
      cases sent with
      | error e => exact .throw
      | ok u => exact maybeStartSync_settled
    | false =>
      refine Triple.set_bind (balances_bind (hanswered rfl rfl) ?_)
      intro sent s
      cases sent with
      | error e => exact .throw
      | ok u => exact .pure

theorem replaceAuthorization_settled {users : BTreeSet UserId} {devices : BTreeSet DeviceId} :
    Settled channel node (node.replaceAuthorization users devices) := by
  have hdrop : ∀ (peers : List PeerId) (node : NetworkNode),
      Settled channel node (peers.foldl dropAuthorization node) := by
    intro peers node
    obtain ⟨hsession, hswarm⟩ := foldl_dropAuthorization peers node
    have hsame : (peers.foldl dropAuthorization node).pendingAcceptances = node.pendingAcceptances :=
      congrArg Session.pendingAcceptances hsession
    refine ⟨_, hswarm, ?_⟩
    have hcount : (peers.map SwarmCommand.disconnect).countP (SwarmCommand.answers channel) = 0 := by
      rw [List.countP_eq_zero]
      intro command hcommand
      obtain ⟨peer, _, rfl⟩ := List.mem_map.mp hcommand
      exact Bool.false_ne_true
    simp [held, hsame, hcount]
  exact hdrop _ _

theorem call_settled {call : NetworkCall} :
    Evolves (Settled channel) node (perform C T call) := by
  cases call with
  | listen address => exact (listen_keeps (Q := SwarmCommand.Mute channel) rfl).settled
  | reserveRelay address =>
    apply Evolves.bind
    · exact (reserveRelay_keeps (Q := SwarmCommand.Mute channel) rfl).settled
    · exact fun _ _ _ => .pure
  | dial peer address => exact (dial_keeps fun _ => rfl).settled
  | replaceAuthorization users devices =>
    rintro _ rfl
    exact replaceAuthorization_settled
  | registerBootstrapGrant grant =>
    apply Evolves.get
    cases node.validateBootstrapGrant C grant with
    | error e => exact .throw
    | ok u => exact .set (settled_of_eq rfl rfl)
  | replaceBootstrapGrants grants =>
    apply Evolves.get
    cases grants.forM (node.validateBootstrapGrant C) with
    | error e => exact .throw
    | ok u => exact .set (settled_of_eq rfl rfl)
  | configureBootstrapTarget peer invitation =>
    exact .get (.ite (fun _ => .throw) fun _ => .set (settled_of_eq rfl rfl))
  | approveBootstrapEndpoint peer =>
    apply Evolves.get
    cases node.targetOf peer with
    | none => exact .throw
    | some target => exact .ite (fun _ => .set (settled_of_eq rfl rfl)) fun _ => .throw
  | submitBootstrapProof peer invitation signature =>
    apply Evolves.get
    cases node.targetFor peer invitation with
    | none => exact .throw
    | some target =>
      apply Evolves.ite
      · exact fun _ => .throw
      · exact fun _ => (send_keeps (Q := SwarmCommand.Mute channel) rfl).settled
  | submitBootstrapAcceptance peer invitation acceptance =>
    apply Evolves.get
    cases node.targetFor peer invitation with
    | none => exact .throw
    | some target =>
      refine .ite (fun _ => .throw) fun _ => ?_
      cases validateEvent C acceptance with
      | error e => exact .throw
      | ok u => exact (send_keeps (Q := SwarmCommand.Mute channel) rfl).settled
  | resolveBootstrapAcceptance peer approved => exact resolve_settled
  | ingest events =>
    rintro _ rfl
    exact settled_of_eq rfl rfl

end Quiet

section Requests

variable {used : ResponseChannel} {nonce : Bytes BOOTSTRAP_NONCE_BYTES} {request : NetworkRequest}
  {response : NetworkResponse}

/-- Handling a request leaves the pending acceptances and the swarm to what follows. -/
theorem handleRequest_keeps :
    (node.handleRequest C P nonce peer request).1.pendingAcceptances = node.pendingAcceptances ∧
      (node.handleRequest C P nonce peer request).1.swarm = node.swarm := by
  cases request with
  | authenticate certificate =>
    obtain ⟨reason, h⟩ | ⟨device, _, _, h⟩ | ⟨device, _, _, h⟩ :=
      authenticate_cases C P node peer certificate
    all_goals
      rw [handleRequest, h]
      exact ⟨rfl, rfl⟩
  | sync message =>
    obtain ⟨sync, _, ⟨reason, h⟩ | ⟨_, messages, h⟩⟩ := receiveSync_cases C node peer message
    all_goals
      rw [handleRequest, h]
      exact ⟨rfl, rfl⟩
  | bootstrapBegin certificate invitation =>
    change (node.beginBootstrap C P nonce peer certificate invitation).1.pendingAcceptances = _ ∧
      (node.beginBootstrap C P nonce peer certificate invitation).1.swarm = _
    unfold beginBootstrap
    cases node.validatePeerCertificate C P peer certificate with
    | error reason => exact ⟨rfl, rfl⟩
    | ok device =>
      dsimp only
      split_ifs
      · exact ⟨rfl, rfl⟩
      · exact ⟨rfl, rfl⟩
  | bootstrapProve invitation signature =>
    change (node.proveBootstrap C peer invitation signature).1.pendingAcceptances = _ ∧
      (node.proveBootstrap C peer invitation signature).1.swarm = _
    unfold proveBootstrap
    cases node.pendingChallenges[peer]? with
    | none => exact ⟨rfl, rfl⟩
    | some pending =>
      dsimp only
      cases node.bootstrapGrants[invitation]? with
      | none => exact ⟨rfl, rfl⟩
      | some grant =>
        dsimp only
        split_ifs
        · exact ⟨rfl, rfl⟩
        · exact ⟨rfl, rfl⟩
  | bootstrapAccept invitation acceptance => exact ⟨rfl, rfl⟩

theorem respond_balances (hfits : response.toJson.length ≤ MAX_NETWORK_FRAME_BYTES)
    (hacceptances : later.pendingAcceptances = node.pendingAcceptances)
    (hswarm : later.swarm = node.swarm) :
    Triple (· = later) (respond T used response)
      (fun _ => Balances channel (dueFor used channel) node)
      fun _ => Balances channel (dueFor used channel) node := by
  have hanswered : Balances channel (0 + dueFor used channel) node
      { later with swarm := later.swarm ++ [.sendResponse used response] } :=
    (settled_of_eq hacceptances hswarm).trans balances_answered
  rw [Nat.zero_add] at hanswered
  exact (respond_sends hfits).conseq (fun _ _ heq => heq ▸ hanswered) fun _ _ heq =>
    heq ▸ hanswered

theorem acceptance_balances {invitation : EventId} {acceptance : SignedEvent} :
    Triple (· = node) (handleBootstrapAcceptance C T peer invitation acceptance used)
      (fun _ => Balances channel (dueFor used channel) node)
      fun _ => Balances channel (dueFor used channel) node := by
  refine Triple.get_bind fun s hs => ?_
  subst hs
  refine Triple.set_bind ?_
  have hrefused : Triple (· = { s with provedBootstraps := s.provedBootstraps.erase peer })
      (respond T used (.rejected .invalidBootstrap) >>= fun _ =>
        pure (NetworkEvent.syncProgress peer))
      (fun _ => Balances channel (dueFor used channel) s)
      fun _ => Balances channel (dueFor used channel) s :=
    balances_bind (respond_balances (rejected_fits _) rfl rfl) fun _ _ => .pure
  cases s.provedBootstraps[peer]?.filter (s.acceptanceValid C invitation acceptance) with
  | none => exact hrefused
  | some proved =>
    refine Triple.ite (fun _ => hrefused) fun hnew => ?_
    refine Triple.modify_bind_eq (Triple.pure ?_)
    rintro _ rfl
    refine ⟨[], by simp, ?_⟩
    rw [held, (toList_insert_perm hnew).countP_eq, List.countP_cons]
    simp [held, dueFor]

theorem request_balances (hgranted : ∀ (invitation : EventId) (grant : BootstrapGrant),
      node.bootstrapGrants[invitation]? = some grant →
        (NetworkResponse.bootstrapAncestry invitation grant.ancestry).toJson.length ≤
          MAX_NETWORK_FRAME_BYTES) :
    Triple (· = node) (handleRequestMessage C P T peer request used nonce)
      (fun _ => Balances channel (dueFor used channel) node)
      fun _ => Balances channel (dueFor used channel) node := by
  have hfits : (node.handleRequest C P nonce peer request).2.1.toJson.length ≤
      MAX_NETWORK_FRAME_BYTES := answer_fits hgranted request
  have hkeeps : (node.handleRequest C P nonce peer request).1.pendingAcceptances =
        node.pendingAcceptances ∧
      (node.handleRequest C P nonce peer request).1.swarm = node.swarm := handleRequest_keeps
  cases request with
  | bootstrapAccept invitation acceptance => exact acceptance_balances
  | authenticate _ | sync _ | bootstrapBegin _ _ | bootstrapProve _ _ =>
    unfold handleRequestMessage
    refine Triple.get_bind fun s hs => ?_
    obtain rfl := hs
    split
    next later response authentication hanswer =>
    rw [hanswer] at hfits hkeeps
    refine Triple.set_bind (balances_bind (respond_balances hfits hkeeps.1 hkeeps.2) ?_)
    intro _ last
    rcases authentication with _ | _ | _
    · exact .pure
    · exact .bind maybeStartSync_settled fun _ _ _ => .pure
    · exact .bind (startBootstrap_keeps (Q := SwarmCommand.Mute channel) fun _ _ => rfl).settled
        fun _ _ _ => .pure

end Requests

section Turns

theorem nextEvent_settled {event : SwarmEvent}
    (hrequest : ∀ peer request used nonce, event ≠ .request peer request used nonce)
    (hclosed : ∀ peer numEstablished, event ≠ .connectionClosed peer numEstablished) :
    Evolves (Settled channel) node (nextEvent C P T event) := by
  cases event with
  | request peer request used nonce => exact absurd rfl (hrequest peer request used nonce)
  | connectionClosed peer numEstablished => exact absurd rfl (hclosed peer numEstablished)
  | connectionEstablished peer relayed =>
    exact .map (connectionEstablished_keeps (Q := SwarmCommand.Mute channel) rfl).settled
  | response peer response => exact .map response_settled
  | identifyReceived peer observed =>
    exact .map (identifyReceived_keeps (Q := SwarmCommand.Mute channel) (fun _ => rfl)
      fun _ => rfl).settled
  | dcutr peer result =>
    cases result with
    | error e => exact .pure
    | ok u => exact .pure
  | outgoingConnectionError peer error isConnected =>
    apply Evolves.get
    cases peer with
    | none => exact .throw
    | some peer =>
      exact .ite (fun _ => .pure) fun _ => .ite (fun _ => .pure) fun _ =>
        .ite (fun _ => .pure) fun _ => .throw
  | listenerError error => exact .throw
  | newListenAddr _ | requestFailure _ _ | responseSent _ | reservationReqAccepted _
  | outboundCircuitEstablished _ | inboundCircuitEstablished _ | other => exact .pure

theorem turn_account (h : Triple (· = node) (handle C P T input)
      (fun _ => Balances channel due node) fun _ => Balances channel due node) :
    (node.turn C P T input).answers channel + (node.turn C P T input).next.held channel =
      node.held channel + due := by
  have hbalances : Balances channel due node (node.turn C P T input).next := by
    have hhandled := h node rfl
    unfold turn Turn.next
    revert hhandled
    cases handle C P T input node with
    | ok event later => exact id
    | error e later => exact id
  obtain ⟨sent, hsent, hcount⟩ := hbalances
  rw [Turn.answers, Turn.sent_eq hsent]
  exact hcount

theorem closeSession_held (hclosed : peer ∉ node.relayPeers) :
    (node.closeSession peer).held channel +
      (node.abandons channel (.swarm (.connectionClosed peer 0))).toNat = node.held channel := by
  rw [held, closeSession, abandons]
  cases hpending : node.pendingAcceptances[peer]? with
  | none =>
    have hsame : node.pendingAcceptances.erase peer = node.pendingAcceptances := by
      apply map_ext
      intro other
      rw [getElem?_erase]
      by_cases hother : peer = other
      · rw [if_pos hother, ← hother, hpending]
      · rw [if_neg hother]
    simp [hsame, held]
  | some pending =>
    rw [held, (toList_erase_perm hpending).countP_eq, List.countP_cons]
    by_cases hchannel : pending.channel = channel
    · simp [hclosed, hchannel]
    · simp [hchannel]

theorem connectionClosed_account {numEstablished : ℕ} :
    (node.turn C P T (.swarm (.connectionClosed peer numEstablished))).answers channel +
        (node.turn C P T (.swarm (.connectionClosed peer numEstablished))).next.held channel +
      (node.abandons channel (.swarm (.connectionClosed peer numEstablished))).toNat =
      node.held channel := by
  by_cases hopen : numEstablished > 0
  · have habandons : node.abandons channel (.swarm (.connectionClosed peer numEstablished)) = false := by
      simp [abandons, Nat.ne_of_gt hopen]
    have hquiet : Evolves (Settled channel) node
        (handle C P T (.swarm (.connectionClosed peer numEstablished))) := by
      apply Evolves.get
      rw [if_pos hopen]
      exact .pure
    rw [habandons]
    exact turn_account hquiet
  · obtain rfl : numEstablished = 0 := by omega
    by_cases hrelay : peer ∈ node.relayPeers
    · have habandons : node.abandons channel (.swarm (.connectionClosed peer 0)) = false := by
        simp [abandons, hrelay]
      have hquiet : Evolves (Settled channel) node
          (handle C P T (.swarm (.connectionClosed peer 0))) := by
        apply Evolves.get
        rw [if_neg hopen, if_pos hrelay]
        exact .pure
      rw [habandons]
      exact turn_account hquiet
    · have hnext : (node.turn C P T (.swarm (.connectionClosed peer 0))).next =
          node.closeSession peer := by
        simp only [turn, Turn.next, handle, nextEvent, connectionClosed, bind_run, get_run,
          if_neg hopen, if_neg hrelay, set_run, pure_run]
      have hsent : (node.turn C P T (.swarm (.connectionClosed peer 0))).sent = [] :=
        Turn.sent_eq (by rw [hnext]; simp [closeSession, turn])
      rw [Turn.answers, hsent, hnext, List.countP_nil, Nat.zero_add]
      exact closeSession_held hrelay

theorem quiet_account {event : SwarmEvent}
    (hrequest : ∀ peer request used nonce, event ≠ .request peer request used nonce)
    (hclosed : ∀ peer numEstablished, event ≠ .connectionClosed peer numEstablished) :
    (node.turn C P T (.swarm event)).answers channel +
        (node.turn C P T (.swarm event)).next.held channel +
      (node.abandons channel (.swarm event)).toNat =
      node.held channel + ((Input.swarm event).asks channel).toNat := by
  have habandons : node.abandons channel (.swarm event) = false := by
    cases event with
    | connectionClosed peer numEstablished => exact absurd rfl (hclosed peer numEstablished)
    | _ => rfl
  have hasks : (Input.swarm event).asks channel = false := by
    cases event with
    | request peer request used nonce => exact absurd rfl (hrequest peer request used nonce)
    | _ => rfl
  have hquiet : Evolves (Settled channel) node (handle C P T (.swarm event)) :=
    nextEvent_settled hrequest hclosed
  rw [habandons, hasks]
  exact turn_account hquiet

/-- What a turn asks is answered, kept or given up. -/
theorem turn_balances (hgranted : ∀ (invitation : EventId) (grant : BootstrapGrant),
      node.bootstrapGrants[invitation]? = some grant →
        (NetworkResponse.bootstrapAncestry invitation grant.ancestry).toJson.length ≤
          MAX_NETWORK_FRAME_BYTES) :
    (node.turn C P T input).answers channel + (node.turn C P T input).next.held channel +
      (node.abandons channel input).toNat = node.held channel + (input.asks channel).toNat := by
  cases input with
  | call call =>
    have hsettled : Evolves (Settled channel) node (handle C P T (.call call)) :=
      .bind call_settled fun _ _ _ => .pure
    exact turn_account hsettled
  | swarm event =>
    cases event with
    | request peer request used nonce =>
      have hbalances : Triple (· = node) (handle C P T (.swarm (.request peer request used nonce)))
          (fun _ => Balances channel (dueFor used channel) node)
          fun _ => Balances channel (dueFor used channel) node :=
        Triple.map (request_balances hgranted)
      have hdue : ((Input.swarm (.request peer request used nonce)).asks channel).toNat =
          dueFor used channel := by
        by_cases hused : used = channel
        · simp [Input.asks, dueFor, hused]
        · simp [Input.asks, dueFor, hused]
      rw [hdue]
      exact turn_account hbalances
    | connectionClosed peer numEstablished => exact connectionClosed_account
    | newListenAddr _ | connectionEstablished _ _ | response _ _ | requestFailure _ _
    | responseSent _ | reservationReqAccepted _ | outboundCircuitEstablished _
    | inboundCircuitEstablished _ | identifyReceived _ _ | dcutr _ _
    | outgoingConnectionError _ _ _ | listenerError _ | other =>
      exact quiet_account (by simp) (by simp)

end Turns

section Runs

variable {turns : List Turn} {turn : Turn}

/-- A pending acceptance is an old one, or the request of this turn. -/
theorem Move.acceptances {s s' : Session} {sent : List SwarmCommand} {event : Option NetworkEvent}
    (h : Move C P s input sent event s') {pending : PendingAcceptance}
    (hpending : s'.pendingAcceptances[peer]? = some pending) :
    s.pendingAcceptances[peer]? = some pending ∨ ∃ acceptance nonce, input =
      .swarm (.request peer (.bootstrapAccept pending.invitation acceptance) pending.channel nonce) := by
  have herased : ∀ {other : PeerId}, (s.pendingAcceptances.erase other)[peer]? = some pending →
      s.pendingAcceptances[peer]? = some pending := by
    intro other hfound
    rw [getElem?_erase] at hfound
    split_ifs at hfound
    exact hfound
  cases h with
  | exchanged _ _ _ _ | challenged _ _ | proved _ _ _ _ _ _ => exact Or.inl hpending
  | @surfaced sender invitation acceptance channel nonce proved hproved hinvitation hparent hauthor =>
    have hfound : (s.pendingAcceptances.insert sender
        { invitation, authenticated := proved.authenticated, channel })[peer]? = some pending := hpending
    rw [getElem?_insert] at hfound
    split_ifs at hfound with hsender
    · obtain rfl := Option.some.inj hfound
      exact Or.inr ⟨acceptance, nonce, by rw [hsender]⟩
    · exact Or.inl hfound
  | change hchange _ _ =>
    cases hchange with
    | closed | approved _ | declined => exact Or.inl (herased hpending)
    | none _ | full _ _ | provisional _ | joined _ | refused | unproved | replaced _ _ | granted _
    | targeted _ => exact Or.inl hpending

theorem Move.acceptances_kept {s s' : Session} {sent : List SwarmCommand}
    {event : Option NetworkEvent} {request : NetworkRequest} {nonce : Bytes BOOTSTRAP_NONCE_BYTES}
    (h : Move C P s (.swarm (.request peer request channel nonce)) sent event s')
    (hother : ∀ invitation acceptance, request ≠ .bootstrapAccept invitation acceptance) :
    s'.pendingAcceptances = s.pendingAcceptances := by
  cases h with
  | exchanged _ _ _ _ | challenged _ _ | proved _ _ _ _ _ _ => rfl
  | surfaced _ _ _ _ => exact absurd rfl (hother _ _)
  | change hchange _ _ =>
    cases hchange with
    | none _ | full _ _ | provisional _ | refused | unproved => rfl

theorem Run.granted (hrun : Run C P T start turns node) (hstart : start.bootstrapGrants = ∅) :
    ∀ (invitation : EventId) (grant : BootstrapGrant),
      node.bootstrapGrants[invitation]? = some grant →
        (NetworkResponse.bootstrapAncestry invitation grant.ancestry).toJson.length ≤
          MAX_NETWORK_FRAME_BYTES := by
  induction hrun with
  | nil =>
    intro invitation grant hgrant
    simp [hstart] at hgrant
  | @snoc turns node _ input ih =>
    intro invitation grant hgrant
    obtain hold | hfits := (turn_moves node input).granted hgrant
    · exact ih invitation grant hold
    · exact hfits

theorem Run.account (hrun : Run C P T start turns node) (hstart : start.bootstrapGrants = ∅)
    (hnone : start.pendingAcceptances = ∅) (channel : ResponseChannel) :
    (turns.map (Turn.answers channel)).sum + node.held channel +
      turns.countP (Turn.abandons channel) = turns.countP (Turn.asks channel) := by
  induction hrun with
  | nil => simp [held, hnone]
  | @snoc turns node hrun input ih =>
    have hturn : (node.turn C P T input).answers channel +
          (node.turn C P T input).next.held channel + (node.abandons channel input).toNat =
        node.held channel + (input.asks channel).toNat := turn_balances (hrun.granted hstart)
    have habandons : (node.turn C P T input).abandons channel = node.abandons channel input := rfl
    have hasks : (node.turn C P T input).asks channel = input.asks channel := rfl
    have hcount : ∀ b : Bool, (if b = true then 1 else 0) = b.toNat := by decide
    simp only [List.map_append, List.map_cons, List.map_nil, List.sum_append, List.sum_cons,
      List.sum_nil, List.countP_append, List.countP_singleton, habandons, hasks, hcount]
    omega

/-- Of every channel that requests came with, the answers sent, the pending acceptances that keep
it and the departures that gave it up are as many as the requests; only acceptances are kept, and
every other request is answered once in its turn. -/
theorem channels_settled {sync : SyncPeer} {device : DeviceIdentity}
    {certificate : DeviceCertificate} {users : BTreeSet UserId} {revocations : RevocationSet}
    (hnew : NetworkNode.new C P device certificate sync users revocations = .ok start)
    (hrun : Run C P T start turns node) (channel : ResponseChannel) :
    (turns.map (Turn.answers channel)).sum + node.held channel +
        turns.countP (Turn.abandons channel) = turns.countP (Turn.asks channel) ∧
      (∀ (peer : PeerId) (pending : PendingAcceptance),
        node.pendingAcceptances[peer]? = some pending → ∃ turn ∈ turns, ∃ acceptance nonce,
          turn.input = .swarm (.request peer (.bootstrapAccept pending.invitation acceptance)
            pending.channel nonce)) ∧
      ∀ turn ∈ turns, ∀ peer request nonce,
        turn.input = .swarm (.request peer request channel nonce) →
        (∀ invitation acceptance, request ≠ .bootstrapAccept invitation acceptance) →
        turn.answers channel = 1 := by
  have hfresh := newNode_eq hnew
  have hgrants : start.bootstrapGrants = ∅ := by rw [hfresh]
  have hnone : start.pendingAcceptances = ∅ := by rw [hfresh]
  refine ⟨hrun.account hgrants hnone channel, ?_, ?_⟩
  · clear hfresh hnew
    induction hrun with
    | nil =>
      intro peer pending hpending
      simp [hnone] at hpending
    | @snoc turns node _ input ih =>
      intro peer pending hpending
      obtain hold | ⟨acceptance, nonce, hinput⟩ := (turn_moves node input).acceptances hpending
      · obtain ⟨turn, hturn, hasked⟩ := ih peer pending hold
        exact ⟨turn, List.mem_append_left _ hturn, hasked⟩
      · exact ⟨node.turn C P T input, by simp, acceptance, nonce, hinput⟩
  · intro turn hturn peer request nonce hinput hother
    obtain ⟨before, after, hsplit⟩ := List.append_of_mem hturn
    obtain ⟨hbefore, hturn⟩ := hrun.split hsplit
    have haccount : (turn.node.turn C P T turn.input).answers channel +
          (turn.node.turn C P T turn.input).next.held channel +
            (turn.node.abandons channel turn.input).toNat =
        turn.node.held channel + (turn.input.asks channel).toNat :=
      turn_balances (hbefore.granted hgrants)
    have hmove := turn_moves (C := C) (P := P) (T := T) turn.node turn.input
    rw [← hturn] at haccount hmove
    rw [hinput] at haccount hmove
    have hkept : turn.next.pendingAcceptances = turn.node.pendingAcceptances :=
      hmove.acceptances_kept hother
    have hasked : (Input.swarm (.request peer request channel nonce)).asks channel = true := by
      simp [Input.asks]
    have hheld : turn.next.held channel = turn.node.held channel := by rw [held, held, hkept]
    have hstays : turn.node.abandons channel (.swarm (.request peer request channel nonce)) = false :=
      rfl
    rw [hheld, hasked, hstays, Bool.toNat_true, Bool.toNat_false] at haccount
    omega

end Runs

section Example

open Sample

theorem channels_settled_guest :
    (host.turn crypto names reliable guestAuthenticates).answers guestChannel = 1 := by
  have hrun : Run crypto names reliable host
      [host.turn crypto names reliable guestAuthenticates]
      (host.turn crypto names reliable guestAuthenticates).next := .snoc .nil guestAuthenticates
  exact (channels_settled host_new hrun guestChannel).2.2 _ (by simp) guestPeer
    (.authenticate (certificateOf 2)) (bigEndianBytes 32 0) rfl (by simp)

end Example

end ChatCommons
