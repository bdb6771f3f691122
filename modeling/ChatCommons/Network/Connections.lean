import ChatCommons.General.Since
import ChatCommons.Network.Authorization
import ChatCommons.Network.Footprint
import ChatCommons.Sample.Host

/-!
The tables of a node against the connections that the swarm has told it of.
-/

namespace ChatCommons

open Collections NetworkNode

variable {C : Crypto} {P : PeerNames} {T : Transport} {peer : PeerId} {history turns : List Turn}
  {turn : Turn} {start node : NetworkNode} {own : DeviceIdentity} {certificate : DeviceCertificate}
  {sync : SyncPeer} {users : BTreeSet UserId} {revocations : RevocationSet}

def connectionsAfter (peer : PeerId) (open' : ℕ) : Input → ℕ
  | .swarm (.connectionEstablished sender _) => if sender = peer then open' + 1 else open'
  | .swarm (.connectionClosed sender left) => if sender = peer then left else open'
  | _ => open'

def connections (peer : PeerId) (history : List Turn) : ℕ :=
  history.foldl (fun open' turn => connectionsAfter peer open' turn.input) 0

theorem connections_snoc (peer : PeerId) (history : List Turn) (turn : Turn) :
    connections peer (history ++ [turn]) =
      connectionsAfter peer (connections peer history) turn.input := by
  rw [connections, List.foldl_append, List.foldl_cons, List.foldl_nil, connections]

/-- The peer shows a certificate that passes, confirms the join as the approved target or has its
acceptance approved. -/
def Session.Admits (C : Crypto) (P : PeerNames) (s : Session) (peer : PeerId) : Input → Prop
  | .swarm (.request sender (.authenticate certificate) _ _) => sender = peer ∧
    ∃ device, s.Vets C P peer certificate device ∧ s.Trusts device
  | .swarm (.response sender .bootstrapAccepted) => sender = peer ∧ peer ∈ s.provisional ∧
    ∃ target ∈ s.bootstrapTarget, target.peer = peer ∧ target.endpointApproved = true
  | .call (.resolveBootstrapAcceptance sender true) => sender = peer ∧ peer ∈ s.pendingAcceptances
  | _ => False

namespace Turn

/-- The swarm passes on no message of a peer that is not connected. -/
def Connected (history : List Turn) (turn : Turn) : Prop :=
  (∀ peer request channel nonce, turn.input = .swarm (.request peer request channel nonce) →
    0 < connections peer history) ∧
  ∀ peer response, turn.input = .swarm (.response peer response) → 0 < connections peer history

/-- The last connection of the peer closes. -/
def Disconnects (peer : PeerId) (turn : Turn) : Prop :=
  turn.input = .swarm (.connectionClosed peer 0)

def Admits (C : Crypto) (P : PeerNames) (peer : PeerId) (turn : Turn) : Prop :=
  turn.node.session.Admits C P peer turn.input

/-- The turn sends community data to the peer. -/
def Serves (peer : PeerId) (turn : Turn) : Prop :=
  (∃ message, .sendRequest peer (.sync message) ∈ turn.sent ∧ message.IsData) ∨
    ∃ request channel nonce messages, turn.input = .swarm (.request peer request channel nonce) ∧
      .sendResponse channel (.sync messages) ∈ turn.sent

/-- After the turn no table names a peer without a connection, and a peer that the turn serves has
been admitted since it was last without one. -/
def Forgets (C : Crypto) (P : PeerNames) (history : List Turn) (turn : Turn) : Prop :=
  (∀ peer, connections peer (history ++ [turn]) = 0 → ¬ turn.next.Holds peer) ∧
    ∀ peer, turn.Serves peer →
      Since (fun turn => ¬ turn.Disconnects peer) (Turn.Admits C P peer) history

/-- No table names a relay that disconnects. -/
def ClearsRelay (turn : Turn) : Prop :=
  ∀ peer, turn.Disconnects peer → peer ∈ turn.node.relayPeers → ¬ turn.node.Holds peer

end Turn

section Steps

variable {s s' : Session} {input : Input} {sent : List SwarmCommand} {event : Option NetworkEvent}

theorem disconnect_next (node : NetworkNode) (peer : PeerId) :
    (node.turn C P T (.swarm (.connectionClosed peer 0))).next =
      if peer ∈ node.relayPeers then node else node.closeSession peer := by
  unfold NetworkNode.turn Turn.next
  by_cases hrelay : peer ∈ node.relayPeers
  all_goals
    simp [handle, nextEvent, connectionClosed, bind, EStateM.bind, get, getThe, set,
      MonadStateOf.get, MonadStateOf.set, EStateM.get, EStateM.set, pure, EStateM.pure, hrelay]

theorem joined_approved {sender : PeerId}
    (hpeer : peer ∈
      (node.turn C P T (.swarm (.response sender .bootstrapAccepted))).next.authenticated) :
    peer ∈ node.authenticated ∨
      ∃ target ∈ node.bootstrapTarget, target.peer = sender ∧ target.endpointApproved = true := by
  cases htarget : (node.targetOf sender).filter BootstrapTarget.endpointApproved with
  | none =>
    have hnext : (node.turn C P T (.swarm (.response sender .bootstrapAccepted))).next = node := by
      unfold NetworkNode.turn Turn.next handle nextEvent handleResponse
      simp [bind, EStateM.bind, get, getThe, MonadStateOf.get, EStateM.get, throw, throwThe,
        MonadExceptOf.throw, EStateM.throw, htarget, Functor.map, EStateM.map]
    exact Or.inl (hnext ▸ hpeer)
  | some target =>
    obtain ⟨hfound, happroved⟩ := Option.filter_eq_some_iff.mp htarget
    obtain ⟨hmem, hname⟩ := Option.filter_eq_some_iff.mp hfound
    exact Or.inr ⟨target, hmem, of_decide_eq_true hname, happroved⟩

theorem Move.admits (h : Move C P s input sent event s') (hpeer : peer ∈ s'.authenticated)
    (hjoined : ∀ sender, input = .swarm (.response sender .bootstrapAccepted) →
      peer ∈ s.authenticated ∨
        ∃ target ∈ s.bootstrapTarget, target.peer = sender ∧ target.endpointApproved = true) :
    peer ∈ s.authenticated ∨ s.Admits C P peer input := by
  cases h with
  | change hchange _ _ =>
    cases hchange with
    | full hvets htrusts =>
      rcases mem_insert.mp hpeer with rfl | hpeer
      · exact Or.inr ⟨rfl, _, hvets, htrusts⟩
      · exact Or.inl hpeer
    | joined hprovisional =>
      rcases mem_insert.mp hpeer with rfl | hpeer
      · exact (hjoined _ rfl).imp_right fun h => ⟨rfl, mem_of_getElem? hprovisional, h⟩
      · exact Or.inl hpeer
    | approved hpending =>
      rcases mem_insert.mp hpeer with rfl | hpeer
      · exact Or.inr ⟨rfl, mem_of_getElem? hpending⟩
      · exact Or.inl hpeer
    | closed => exact Or.inl (mem_erase.mp hpeer).2
    | replaced hpeers _ => exact Or.inl ((hpeers peer).mp hpeer).1
    | none _ | provisional _ | refused | unproved | declined | granted _ | targeted _ =>
      exact Or.inl hpeer
  | exchanged _ _ _ _ | challenged _ _ | proved _ _ _ _ _ _ | surfaced _ _ _ _ => exact Or.inl hpeer

theorem turn_admits {input : Input}
    (hpeer : peer ∈ (node.turn C P T input).next.authenticated) :
    peer ∈ node.authenticated ∨ (node.turn C P T input).Admits C P peer :=
  (turn_moves node input).admits hpeer fun sender h => by
    subst h
    exact joined_approved hpeer

theorem served_authenticated
    (hmove : Move C P turn.node.session turn.input turn.sent turn.event turn.next.session)
    (hserves : turn.Serves peer) : peer ∈ turn.node.authenticated := by
  rcases hserves with ⟨message, hsent, hdata⟩ | ⟨request, channel, nonce, messages, hinput, hsent⟩
  · exact (hmove.request_sent hsent hdata).1
  · obtain ⟨asker, asked, nonce', hasked, hpeer, _⟩ := hmove.response_sent hsent
    rw [hinput] at hasked
    cases hasked
    exact hpeer

/-- Without a connection a peer is named only if the turn is the disconnect of a relay. -/
theorem held_turn {input : Input} (hheld : (node.turn C P T input).next.Holds peer)
    (hknown : node.Holds peer → 0 < connections peer history)
    (hconnected : (node.turn C P T input).Connected history)
    (hclears : (node.turn C P T input).ClearsRelay) :
    0 < connections peer (history ++ [node.turn C P T input]) := by
  have hinput : (node.turn C P T input).input = input := rfl
  rw [connections_snoc, hinput]
  by_cases hlast : input = .swarm (.connectionClosed peer 0)
  · subst hlast
    rw [disconnect_next] at hheld
    split_ifs at hheld with hrelay
    · exact absurd hheld (hclears peer rfl hrelay)
    · exact absurd rfl (closeSession_holds.mp hheld).2
  · have hopen : 0 < connections peer history ∨ input.Reaches peer :=
      ((turn_footprint node input).held peer hheld).imp_left hknown
    cases input with
    | call call => exact hopen.resolve_right id
    | swarm event =>
      cases event with
      | connectionEstablished sender relayed =>
        by_cases heq : sender = peer
        · simp [connectionsAfter, heq]
        · simpa [connectionsAfter, heq] using hopen.resolve_right heq
      | connectionClosed sender left =>
        by_cases heq : sender = peer
        · have hleft : left ≠ 0 := fun h => hlast (by rw [h, heq])
          simpa [connectionsAfter, heq] using Nat.pos_of_ne_zero hleft
        · simpa [connectionsAfter, heq] using hopen.resolve_right id
      | request sender request channel nonce =>
        exact hopen.elim id fun heq : sender = peer => heq ▸ hconnected.1 _ _ _ _ rfl
      | response sender response =>
        exact hopen.elim id fun heq : sender = peer => heq ▸ hconnected.2 _ _ rfl
      | _ => exact hopen.resolve_right id

end Steps

section Runs

theorem newNode_holds (h : NetworkNode.new C P own certificate sync users revocations = .ok start) :
    ¬ start.Holds peer := by
  rw [newNode_eq h]
  simp [Holds]

/-- What is kept along a run in which relays disconnect only once no table names them. -/
structure Accounted (C : Crypto) (P : PeerNames) (history : List Turn) (node : NetworkNode) :
    Prop where
  held : ∀ peer, node.Holds peer → 0 < connections peer history
  admitted : ∀ peer ∈ node.authenticated,
    Since (fun turn => ¬ turn.Disconnects peer) (Turn.Admits C P peer) history

theorem Accounted.snoc (h : Accounted C P history node) {input : Input}
    (hconnected : (node.turn C P T input).Connected history)
    (hclears : (node.turn C P T input).ClearsRelay) :
    Accounted C P (history ++ [node.turn C P T input]) (node.turn C P T input).next := by
  have hheld := fun peer (hheld : (node.turn C P T input).next.Holds peer) =>
    held_turn hheld (h.held peer) hconnected hclears
  refine ⟨hheld, fun peer hpeer => ?_⟩
  have hopen : ¬ (node.turn C P T input).Disconnects peer := by
    intro hlast
    have hcount := hheld peer (Or.inl hpeer)
    rw [connections_snoc, hlast] at hcount
    simp [connectionsAfter] at hcount
  obtain hbefore | hadmits := turn_admits hpeer
  · exact (h.admitted peer hbefore).snoc hopen
  · exact .start hadmits

theorem Run.accounted (hrun : Run C P T start turns node)
    (hstart : ∀ peer, ¬ start.Holds peer)
    (hconnected : ∀ before turn after, turns = before ++ turn :: after → turn.Connected before)
    (hclears : ∀ turn ∈ turns, turn.ClearsRelay) : Accounted C P turns node := by
  induction hrun with
  | nil => exact ⟨fun peer h => absurd h (hstart peer), fun peer h => absurd (Or.inl h) (hstart peer)⟩
  | @snoc turns node hrun input ih =>
    have hbefore := ih
      (fun before turn after h => hconnected before turn (after ++ [node.turn C P T input])
        (by rw [h, List.append_assoc, List.cons_append]))
      fun turn hturn => hclears turn (List.mem_append_left _ hturn)
    exact hbefore.snoc (hconnected turns _ [] rfl) (hclears _ (by simp))

/-- In a run whose messages come from connected peers, no table names a peer without a connection
and nobody is served without a new admission exactly when no table names a relay that
disconnects. -/
theorem forgets_iff (hnew : NetworkNode.new C P own certificate sync users revocations = .ok start)
    (hrun : Run C P T start turns node)
    (hconnected : ∀ before turn after, turns = before ++ turn :: after → turn.Connected before) :
    (∀ before turn after, turns = before ++ turn :: after → turn.Forgets C P before) ↔
      ∀ turn ∈ turns, turn.ClearsRelay := by
  constructor
  · intro h turn hturn peer hlast hrelay hheld
    obtain ⟨before, after, hsplit⟩ := List.append_of_mem hturn
    obtain ⟨_, heq⟩ := hrun.split hsplit
    have hnext : turn.next = turn.node := by
      rw [heq, hlast, disconnect_next, if_pos hrelay]
      rfl
    refine (h before turn after hsplit).1 peer ?_ (hnext ▸ hheld)
    rw [connections_snoc, hlast]
    simp [connectionsAfter]
  · intro h before turn after hsplit
    obtain ⟨hbefore, heq⟩ := hrun.split hsplit
    have haccounted := hbefore.accounted (fun _ => newNode_holds hnew)
      (fun first turn' rest hfirst => hconnected first turn' (rest ++ turn :: after)
        (by rw [hsplit, hfirst, List.append_assoc, List.cons_append]))
      fun turn' hturn' => h turn' (by rw [hsplit]; exact List.mem_append_left _ hturn')
    refine ⟨fun peer hnone hheld => ?_, fun peer hserves => ?_⟩
    · have hnext := haccounted.snoc (heq ▸ hconnected before turn after hsplit)
        (heq ▸ h turn (by simp [hsplit]))
      rw [← heq] at hnext
      exact absurd (hnext.held peer hheld) (by omega)
    · exact haccounted.admitted peer (served_authenticated (hrun.moves (by simp [hsplit])) hserves)

end Runs

section Relay

open Sample

def relayInputs : List Input := [guestConnects, guestAuthenticates, guestRelays, guestLeaves]

def relayNode : NetworkNode := hostAfter host relayInputs

def relayTurns : List Turn := hostTurns host relayInputs

theorem relay_run : Run crypto names reliable host relayTurns relayNode :=
  host_runs relayInputs

theorem Turn.Connected.quiet {history : List Turn} {turn : Turn}
    (h : ∀ peer, turn.input.Reaches peer → ∃ relayed,
      turn.input = .swarm (.connectionEstablished peer relayed)) : turn.Connected history := by
  constructor
  · intro peer request channel nonce hinput
    obtain ⟨relayed, hother⟩ := h peer (by rw [hinput]; rfl)
    exact absurd (hinput.symm.trans hother) (by simp)
  · intro peer response hinput
    obtain ⟨relayed, hother⟩ := h peer (by rw [hinput]; rfl)
    exact absurd (hinput.symm.trans hother) (by simp)

theorem relay_connected (before : List Turn) (turn : Turn) (after : List Turn)
    (h : relayTurns = before ++ turn :: after) : turn.Connected before := by
  obtain _ | ⟨first, _ | ⟨second, _ | ⟨third, rest⟩⟩⟩ := before
  · obtain rfl := (List.cons.inj h).1
    exact .quiet fun peer hpeer => ⟨false, by rw [← (show guestPeer = peer from hpeer)]; rfl⟩
  · rw [← (List.cons.inj h).1, ← (List.cons.inj (List.cons.inj h).2).1]
    constructor
    · rintro peer request channel nonce ⟨⟩
      decide
    · rintro peer response ⟨⟩
  · obtain ⟨_, h⟩ := List.cons.inj h
    obtain ⟨_, h⟩ := List.cons.inj h
    obtain rfl := (List.cons.inj h).1
    exact .quiet fun peer => False.elim
  · obtain ⟨_, h⟩ := List.cons.inj h
    obtain ⟨_, h⟩ := List.cons.inj h
    obtain ⟨_, h⟩ := List.cons.inj h
    obtain _ | ⟨fourth, rest⟩ := rest
    · obtain rfl := (List.cons.inj h).1
      exact .quiet fun peer => False.elim
    · simpa [hostTurns] using congrArg List.length h

/-- A member that is asked to relay stays authenticated when it disconnects. -/
theorem relay_remembered : Run crypto names reliable host relayTurns relayNode ∧
    (∀ before turn after, relayTurns = before ++ turn :: after → turn.Connected before) ∧
    ¬ ∀ before turn after, relayTurns = before ++ turn :: after →
      turn.Forgets crypto names before := by
  have hkept : guestPeer ∈ relayNode.authenticated ∧ connections guestPeer relayTurns = 0 := by
    decide +kernel
  refine ⟨relay_run, relay_connected, fun h => ?_⟩
  have hlast := (h (relayTurns.take 3) _ [] rfl).1 guestPeer hkept.2
  exact hlast (Or.inl hkept.1)

theorem forgets_iff_relay :
    (∀ before turn after, relayTurns = before ++ turn :: after →
      turn.Forgets crypto names before) ↔ ∀ turn ∈ relayTurns, turn.ClearsRelay :=
  forgets_iff host_new relay_run relay_connected

end Relay

end ChatCommons
