import ChatCommons.Model.NetworkPair
import ChatCommons.Network.Connections

/-!
A node announces its heads only in reply to a greeting, and it replies before the greeter has
confirmed that it accepts the node.
-/

namespace ChatCommons

open Collections NetworkNode Stateful AntiEntropy

variable {C : Crypto} {P : PeerNames} {T : Transport} {node : NetworkNode} {peer : PeerId}
  {turn : Turn} {history : List Turn} {sync : SyncPeer} {message : SyncMessage}
  {Q : SwarmCommand → Prop}

def SyncMessage.IsHello : SyncMessage → Prop
  | .hello .. => True
  | _ => False

def SyncMessage.IsHeads : SyncMessage → Prop
  | .heads .. => True
  | _ => False

namespace Turn

def SendsHeads (peer : PeerId) (turn : Turn) : Prop :=
  (∃ message, .sendRequest peer (.sync message) ∈ turn.sent ∧ message.IsHeads) ∨
    ∃ request channel nonce messages, turn.input = .swarm (.request peer request channel nonce) ∧
      .sendResponse channel (.sync messages) ∈ turn.sent ∧ ∃ message ∈ messages, message.IsHeads

def Hears (C : Crypto) (peer : PeerId) (turn : Turn) : Prop :=
  peer ∈ turn.node.authenticated ∧ ∃ message, message.IsHello ∧
    validateMessage C message = .ok () ∧ message.community = turn.node.sync.community ∧
    ((∃ channel nonce, turn.input = .swarm (.request peer (.sync message) channel nonce)) ∨
      ∃ messages, turn.input = .swarm (.response peer (.sync messages)) ∧ message ∈ messages)

def Approves (peer : PeerId) (turn : Turn) : Prop :=
  turn.input = .call (.resolveBootstrapAcceptance peer true) ∧ peer ∈ turn.node.pendingAcceptances

/-- The peer has confirmed that it accepts the node, or its acceptance was approved. -/
def Confirmed (history : List Turn) (peer : PeerId) (turn : Turn) : Prop :=
  peer ∈ turn.node.acceptedByRemote ∨ ∃ earlier ∈ history, earlier.Approves peer

def Gated (history : List Turn) (turn : Turn) : Prop :=
  ∀ peer, turn.SendsHeads peer → peer ∈ turn.node.authenticated ∧ turn.Confirmed history peer

/-- No greeting of an authenticated peer comes before its confirmation. -/
def Timely (C : Crypto) (history : List Turn) (turn : Turn) : Prop :=
  ∀ peer, turn.Hears C peer → turn.Confirmed history peer

end Turn

section Replies

theorem packEvents_events {community : CommunityId} {events : List SignedEvent}
    {messages : List SyncMessage} (h : packEvents C community events = .ok messages) :
    ∀ reply ∈ messages, ∃ batch, reply = .events community batch := by
  obtain ⟨p, hp, hmessages⟩ := Fallible.bind_eq_ok.mp h
  have happend : ∀ {packed : List SyncMessage} {batch : List SignedEvent},
      (∀ reply ∈ packed, ∃ other, reply = .events community other) →
      ∀ reply ∈ packed ++ [.events community batch], ∃ other, reply = .events community other := by
    intro packed batch hpacked reply hreply
    obtain hreply | hreply := List.mem_append.mp hreply
    · exact hpacked reply hreply
    · exact ⟨batch, List.mem_singleton.mp hreply⟩
  have hpacked : ∀ reply ∈ p.messages, ∃ batch, reply = .events community batch := by
    refine Fallible.foldlM_preserves
      (fun p : Packing => ∀ reply ∈ p.messages, ∃ batch, reply = .events community batch)
      (fun p event p' hstep hp => ?_) hp (by simp)
    unfold packEvent at hstep
    dsimp only at hstep
    split at hstep
    · split at hstep
      all_goals
        obtain ⟨_, _, hflushed⟩ := Fallible.bind_eq_ok.mp hstep
        obtain ⟨_, _, hrest⟩ := Fallible.bind_eq_ok.mp hflushed
        rw [← Except.ok.inj hrest]
        exact happend hp
    · obtain ⟨_, _, hrest⟩ := Fallible.bind_eq_ok.mp hstep
      rw [← Except.ok.inj hrest]
      exact hp
  rw [← Except.ok.inj hmessages]
  split_ifs
  · exact hpacked
  · exact happend hpacked

theorem serve_events {ids : List EventId} {replies : List SyncMessage}
    (h : sync.serve C ids = .ok replies) :
    ∀ reply ∈ replies, ∃ batch, reply = .events sync.community batch := by
  unfold SyncPeer.serve at h
  split at h
  · cases h
  · split_ifs at h
    · rw [← Except.ok.inj h]
      simp
    · exact packEvents_events h

theorem wantMessages_wants {community : CommunityId} {ids : List EventId} :
    ∀ reply ∈ wantMessages community ids, ¬ reply.IsHeads := by
  intro reply hreply
  obtain ⟨chunk, _, rfl⟩ := List.mem_map.mp hreply
  exact id

theorem accept_wants {events : List SignedEvent} {replies : List SyncMessage}
    (h : (sync.accept C events).2 = .ok replies) : ∀ reply ∈ replies, ¬ reply.IsHeads := by
  unfold SyncPeer.accept at h
  dsimp only at h
  split_ifs at h
  split at h
  · cases h
  · split at h
    · cases h
    · rw [← Except.ok.inj h]
      exact wantMessages_wants

theorem receive_heads {replies : List SyncMessage} (h : (sync.receive C message).2 = .ok replies)
    (hheads : ∃ reply ∈ replies, reply.IsHeads) : message.IsHello ∧
      validateMessage C message = .ok () ∧ message.community = sync.community := by
  obtain ⟨reply, hreply, hheads⟩ := hheads
  unfold SyncPeer.receive at h
  cases hvalid : validateMessage C message with
  | error e =>
    rw [hvalid] at h
    cases h
  | ok u =>
    rw [hvalid] at h
    dsimp only at h
    split_ifs at h with hcommunity
    refine ⟨?_, rfl, not_not.mp hcommunity⟩
    cases message with
    | hello _ _ _ => trivial
    | heads c ids =>
      rw [← Except.ok.inj h] at hreply
      exact absurd hheads (wantMessages_wants reply hreply)
    | want c ids =>
      obtain ⟨batch, rfl⟩ := serve_events h reply hreply
      exact absurd hheads id
    | events c events => exact absurd hheads (accept_wants h reply hreply)

theorem normalizeMessages_heads {messages normalized : List SyncMessage}
    (h : normalizeMessages messages = .ok normalized) (hheads : ∃ reply ∈ normalized, reply.IsHeads) :
    ∃ reply ∈ messages, reply.IsHeads := by
  unfold normalizeMessages at h
  dsimp only at h
  split_ifs at h
  obtain ⟨reply, hreply, hheads⟩ := hheads
  rw [← Except.ok.inj h, splitWants, List.mem_flatMap] at hreply
  obtain ⟨message, hmessage, hreply⟩ := hreply
  refine ⟨message, hmessage, ?_⟩
  cases message with
  | want c ids =>
    obtain ⟨id, _, rfl⟩ := List.mem_map.mp hreply
    exact hheads
  | hello _ _ _ | heads _ _ | events _ _ => exact List.mem_singleton.mp hreply ▸ hheads

end Replies

section Turns

instance : IsPreorder NetworkNode (Extends Q) where
  refl _ := .refl
  trans _ _ _ := .trans

theorem all_sent {input : Input} (h : Evolves (Extends Q) node (handle C P T input)) :
    ∀ command ∈ (node.turn C P T input).sent, Q command := by
  have hturn := h node rfl
  have hextends : Extends Q node (node.turn C P T input).next := by
    unfold NetworkNode.turn Turn.next
    revert hturn
    cases handle C P T input node with
    | ok event later => exact id
    | error e later => exact id
  obtain ⟨sent, hsent, hall⟩ := hextends.sent
  rwa [Turn.sent_eq hsent]

theorem send_evolves {request : NetworkRequest} (h : Q (.sendRequest peer request)) :
    Evolves (Extends Q) node (send T peer request) :=
  (send_keeps h).conseq (fun _ _ h => h.2) fun _ _ => id

theorem receiveResponse_evolves (h : ∀ replies normalized,
    (node.sync.receive C message).2 = .ok replies → normalizeMessages replies = .ok normalized →
    ∀ reply ∈ normalized, Q (.sendRequest peer (.sync reply))) :
    Evolves (Extends Q) node (receiveResponse C T peer message) := by
  refine .get ?_
  have hcommunity := receive_community C node.sync message
  cases hreceive : node.sync.receive C message with
  | mk sync result =>
    rw [hreceive] at hcommunity h
    refine .set_bind (extends_sync hcommunity) ?_
    cases result with
    | error e => exact .throw
    | ok messages =>
      dsimp only
      cases hnormalized : normalizeMessages messages with
      | error reason => exact .throw
      | ok outgoing =>
        exact .forM fun reply hreply _ _ =>
          send_evolves (h messages outgoing rfl hnormalized reply hreply)

theorem receiveSync_sync {replies : List SyncMessage}
    (h : (node.receiveSync C peer message).2 = .sync replies) : ∃ messages,
      (node.sync.receive C message).2 = .ok messages ∧ normalizeMessages messages = .ok replies := by
  have hvalid : (receiveSync.receiveValid C node message).2 = .sync replies → ∃ messages,
      (node.sync.receive C message).2 = .ok messages ∧
        normalizeMessages messages = .ok replies := by
    unfold receiveSync.receiveValid
    cases node.sync.receive C message with
    | mk sync result =>
      cases result with
      | error e => simp
      | ok messages =>
        dsimp only
        cases hnormalized : normalizeMessages messages with
        | error reason => simp
        | ok normalized =>
          intro h
          exact ⟨messages, rfl, hnormalized.trans (congrArg Except.ok (NetworkResponse.sync.inj h))⟩
  unfold receiveSync at h
  split_ifs at h
  cases message with
  | want c ids =>
    dsimp only at h
    split_ifs at h
    exact hvalid h
  | hello _ _ _ | heads _ _ | events _ _ => exact hvalid h

theorem request_evolves {channel : ResponseChannel} {nonce : Bytes BOOTSTRAP_NONCE_BYTES}
    (h : Q (.sendResponse channel (node.receiveSync C peer message).2)) :
    Evolves (Extends Q) node
      (handle C P T (.swarm (.request peer (.sync message) channel nonce))) := by
  have hsync : Extends Q node (node.receiveSync C peer message).1 := by
    obtain ⟨sync, hcommunity, ⟨_, heq⟩ | ⟨_, _, heq⟩⟩ := receiveSync_cases C node peer message
    all_goals
      rw [heq]
      exact extends_sync hcommunity
  refine .map (handleRequestMessage_run (by simp) rfl (Evolves.from_later hsync ?_))
  exact .bind ((respond_keeps h).conseq (fun _ _ h => h.2) fun _ _ => id) fun _ _ _ => .pure

theorem response_evolves {messages : List SyncMessage} (h : ∀ message ∈ messages,
    ∀ (sync : SyncPeer) (replies normalized : List SyncMessage),
    sync.community = node.sync.community → (sync.receive C message).2 = .ok replies →
    normalizeMessages replies = .ok normalized →
    ∀ reply ∈ normalized, Q (.sendRequest peer (.sync reply))) :
    Evolves (Extends Q) node (handle C P T (.swarm (.response peer (.sync messages)))) := by
  refine .map (.get (.ite (fun _ => .throw) fun _ => .ite (fun _ => .throw) fun _ => ?_))
  refine .bind (.forM fun message hmessage later hlater => receiveResponse_evolves ?_)
    fun _ _ _ => .pure
  intro replies normalized
  exact h message hmessage later.sync replies normalized
    (congrArg Session.community hlater.session)

theorem Move.data_input {s s' : Session} {input : Input} {sent : List SwarmCommand}
    {event : Option NetworkEvent} (h : Move C P s input sent event s')
    (hsent : .sendRequest peer (.sync message) ∈ sent) (hdata : message.IsData) :
    (∃ asked channel nonce, input = .swarm (.request peer (.sync asked) channel nonce)) ∨
      ∃ messages, input = .swarm (.response peer (.sync messages)) := by
  cases h with
  | change _ hplain _ => exact absurd hdata (hplain _ hsent)
  | exchanged hinput hpeer hexchanges _ =>
    obtain rfl := hexchanges _ hsent
    cases input with
    | call call => exact hinput.elim
    | swarm event =>
      cases event with
      | request sender request channel nonce =>
        cases request with
        | sync asked =>
          obtain rfl : sender = peer := hinput
          exact Or.inl ⟨asked, channel, nonce, rfl⟩
        | _ => exact hinput.elim
      | response sender response =>
        cases response with
        | sync messages =>
          obtain rfl : sender = peer := hinput
          exact Or.inr ⟨messages, rfl⟩
        | _ => exact hinput.elim
      | _ => exact hinput.elim
  | challenged _ _ => simp at hsent
  | proved _ _ _ _ hall _ => cases hall _ hsent
  | surfaced _ _ _ _ => simp at hsent

/-- Whoever is sent heads has greeted the node in that turn. -/
theorem hears_of_heads {input : Input} (h : (node.turn C P T input).SendsHeads peer) :
    (node.turn C P T input).Hears C peer := by
  have hmove := turn_moves (C := C) (P := P) (T := T) node input
  rcases h with ⟨message, hsent, hheads⟩ | ⟨request, channel, nonce, messages, hinput, hsent, hheads⟩
  · have hdata : message.IsData := by
      cases message with
      | hello _ _ _ => exact hheads
      | heads _ _ | want _ _ | events _ _ => trivial
    refine ⟨(hmove.request_sent hsent hdata).1, ?_⟩
    obtain ⟨asked, channel, nonce, rfl⟩ | ⟨messages, rfl⟩ := hmove.data_input hsent hdata
    · have hanswers : ∀ command ∈ (node.turn C P T
          (.swarm (.request peer (.sync asked) channel nonce))).sent,
          ∃ response, command = .sendResponse channel response :=
        all_sent (request_evolves ⟨_, rfl⟩)
      obtain ⟨_, hcommand⟩ := hanswers _ hsent
      cases hcommand
    · have hheard : ∀ command ∈ (node.turn C P T (.swarm (.response peer (.sync messages)))).sent,
          ∀ reply, command = .sendRequest peer (.sync reply) → reply.IsHeads →
            ∃ greeting ∈ messages, greeting.IsHello ∧ validateMessage C greeting = .ok () ∧
              greeting.community = node.sync.community := by
        refine all_sent (response_evolves fun greeting hgreeting sync replies normalized hsame
          hreplies hnormalized reply hreply => ?_)
        rintro _ ⟨⟩ hheads
        obtain ⟨hhello, hvalid, hcommunity⟩ := receive_heads hreplies
          (normalizeMessages_heads hnormalized ⟨reply, hreply, hheads⟩)
        exact ⟨greeting, hgreeting, hhello, hvalid, hcommunity.trans hsame⟩
      obtain ⟨greeting, hgreeting, hhello, hvalid, hcommunity⟩ := hheard _ hsent message rfl hheads
      exact ⟨greeting, hhello, hvalid, hcommunity, Or.inr ⟨messages, rfl, hgreeting⟩⟩
  · obtain ⟨asker, asked, nonce', hasked, hpeer, _⟩ := hmove.response_sent hsent
    obtain ⟨⟩ := hinput.symm.trans hasked
    obtain rfl : input = .swarm (.request peer (.sync asked) channel nonce) := hinput
    have hreplied : ∀ command ∈ (node.turn C P T
        (.swarm (.request peer (.sync asked) channel nonce))).sent,
        ∀ replies, command = .sendResponse channel (.sync replies) →
          (node.receiveSync C peer asked).2 = .sync replies :=
      all_sent (request_evolves fun replies h => (SwarmCommand.sendResponse.inj h).2)
    obtain ⟨replies, hreplies, hnormalized⟩ := receiveSync_sync (hreplied _ hsent messages rfl)
    obtain ⟨hhello, hvalid, hcommunity⟩ :=
      receive_heads hreplies (normalizeMessages_heads hnormalized hheads)
    exact ⟨hpeer, asked, hhello, hvalid, hcommunity, Or.inl ⟨channel, nonce, rfl⟩⟩

end Turns

section Pairs

variable {T : Side → Transport} {start node : Side → NetworkNode} {log : List (Side × Turn)}

theorem PairRun.turn_eq (h : PairRun C P T start log node) {d : Side} {turn : Turn}
    (hturn : (d, turn) ∈ log) : ∃ input, turn = turn.node.turn C P (T d) input := by
  induction h with
  | nil => simp at hturn
  | @snoc log node h side input _ ih =>
    rcases List.mem_append.mp hturn with hturn | hturn
    · exact ih hturn
    · obtain ⟨rfl, rfl⟩ := Prod.mk.inj (List.mem_singleton.mp hturn)
      exact ⟨input, rfl⟩

/-- If no greeting of an authenticated peer overtakes its confirmation, heads go only to peers
that are authenticated and have confirmed. -/
theorem heads_gated (hrun : PairRun C P T start log node)
    (htimely : ∀ before d turn after, log = before ++ (d, turn) :: after →
      turn.Timely C (turnsOf d before)) :
    ∀ before d turn after, log = before ++ (d, turn) :: after →
      turn.Gated (turnsOf d before) := by
  intro before d turn after hsplit peer hheads
  obtain ⟨input, hturn⟩ := hrun.turn_eq (by rw [hsplit]; simp : (d, turn) ∈ log)
  rw [hturn] at hheads
  have hhears := hears_of_heads hheads
  rw [← hturn] at hhears
  exact ⟨hhears.1, htimely before d turn after hsplit peer hhears⟩

end Pairs

section Crossing

open Sample

def guest : NetworkNode where
  localPeer := guestPeer
  sync := hostSync
  certificate := certificateOf 2
  allowedUsers := setOf [user 1]
  revocations := {}

theorem guest_new : NetworkNode.new crypto names (deviceOf 12) (certificateOf 2) hostSync
    (setOf [user 1]) {} = .ok guest := by
  simp only [NetworkNode.new, certificate_named.2, guestPeer, ne_eq, not_true_eq_false, if_false]
  rfl

def strangers : Side → NetworkNode
  | .left => host
  | .right => guest

def crossing : List (Side × Input) :=
  [(.left, guestConnects), (.right, .swarm (.connectionEstablished host.localPeer false)),
    (.left, guestAuthenticates),
    (.right, .swarm (.request host.localPeer (.authenticate (certificateOf 1)) guestChannel
      (bigEndianBytes 32 0))),
    (.right, .swarm (.response host.localPeer .authenticated)), (.left, guestGreets)]

def pairTurns (node : Side → NetworkNode) : List (Side × Input) → List (Side × Turn)
  | [] => []
  | (d, input) :: rest => (d, (node d).turn crypto names reliable input) ::
    pairTurns (Function.update node d ((node d).turn crypto names reliable input).next) rest

def pairAfter (node : Side → NetworkNode) : List (Side × Input) → (Side → NetworkNode)
  | [] => node
  | (d, input) :: rest =>
    pairAfter (Function.update node d ((node d).turn crypto names reliable input).next) rest

def Deliverable (node : Side → NetworkNode) (log : List (Side × Turn)) :
    List (Side × Input) → Prop
  | [] => True
  | (d, input) :: rest => Conveys node log d input ∧
    Deliverable (Function.update node d ((node d).turn crypto names reliable input).next)
      (log ++ [(d, (node d).turn crypto names reliable input)]) rest

theorem pair_run {start node : Side → NetworkNode} {log : List (Side × Turn)}
    (hrun : PairRun crypto names (fun _ => reliable) start log node) (inputs : List (Side × Input))
    (h : Deliverable node log inputs) :
    PairRun crypto names (fun _ => reliable) start (log ++ pairTurns node inputs)
      (pairAfter node inputs) := by
  induction inputs generalizing node log with
  | nil => simpa [pairTurns, pairAfter] using hrun
  | cons entry inputs ih =>
    obtain ⟨d, input⟩ := entry
    have hrest := ih (hrun.snoc d input h.1) h.2
    rwa [List.append_assoc, List.singleton_append] at hrest

instance : ∀ (node : Side → NetworkNode) (log : List (Side × Turn)) (inputs : List (Side × Input)),
    Decidable (Deliverable node log inputs)
  | _, _, [] => isTrue trivial
  | node, log, (d, input) :: rest =>
    haveI : Decidable (Deliverable
      (Function.update node d ((node d).turn crypto names reliable input).next)
      (log ++ [(d, (node d).turn crypto names reliable input)]) rest) := instDecidableDeliverable _ _ rest
    inferInstanceAs (Decidable (Conveys node log d input ∧ _))

def settling : List (Side × Input) :=
  crossing.take 5 ++ [(.left, .swarm (.response guestPeer .authenticated)), (.left, guestGreets)]

theorem crossing_deliverable :
    Deliverable strangers [] crossing ∧ Deliverable strangers [] settling := by
  decide +kernel

def earlyTurn : Turn :=
  (pairAfter strangers (crossing.take 5) .left).turn crypto names reliable guestGreets

theorem earlyTurn_sent :
    .sendResponse guestChannel (.sync [.heads club [genesis.eventId]]) ∈ earlyTurn.sent ∧
      guestPeer ∉ earlyTurn.node.acceptedByRemote := by
  decide +kernel

/-- The host answers the greeting with its heads although it has no confirmation. -/
theorem heads_unconfirmed :
    PairRun crypto names (fun _ => reliable) strangers (pairTurns strangers crossing)
        (pairAfter strangers crossing) ∧
      ¬ ∀ before d turn after, pairTurns strangers crossing = before ++ (d, turn) :: after →
        turn.Gated (turnsOf d before) := by
  refine ⟨pair_run .nil crossing crossing_deliverable.1, fun h => ?_⟩
  have hsplit : pairTurns strangers crossing =
      pairTurns strangers (crossing.take 5) ++ (.left, earlyTurn) :: [] := rfl
  obtain ⟨hsent, hunconfirmed⟩ := earlyTurn_sent
  have hheads : earlyTurn.SendsHeads guestPeer :=
    Or.inr ⟨_, _, _, _, rfl, hsent, _, List.mem_singleton_self _, trivial⟩
  rcases (h _ _ _ _ hsplit guestPeer hheads).2 with hconfirmed | ⟨earlier, hearlier, happroves, _⟩
  · exact hunconfirmed hconfirmed
  · simp only [turnsOf, crossing, pairTurns, List.take, List.filter, List.map, decide_true,
      decide_false, reduceCtorEq, List.mem_cons, List.not_mem_nil, or_false] at hearlier
    rcases hearlier with rfl | rfl <;> cases happroves

def Input.syncer : Input → Option PeerId
  | .swarm (.request sender (.sync _) _ _) => some sender
  | .swarm (.response sender (.sync _)) => some sender
  | _ => none

theorem settling_timely (before : List (Side × Turn)) (d : Side) (turn : Turn)
    (after : List (Side × Turn)) (h : pairTurns strangers settling = before ++ (d, turn) :: after) :
    turn.Timely crypto (turnsOf d before) := by
  have hconfirmed : ∀ entry ∈ pairTurns strangers settling, ∀ peer ∈ entry.2.input.syncer,
      peer ∈ entry.2.node.acceptedByRemote := by decide +kernel
  rintro peer ⟨_, message, _, _, _, hinput⟩
  refine Or.inl (hconfirmed (d, turn) (by rw [h]; simp) peer ?_)
  obtain ⟨channel, nonce, hinput⟩ | ⟨messages, hinput, _⟩ := hinput
  all_goals
    rw [hinput]
    rfl

theorem heads_gated_settling :
    PairRun crypto names (fun _ => reliable) strangers (pairTurns strangers settling)
        (pairAfter strangers settling) ∧
      ∀ before d turn after, pairTurns strangers settling = before ++ (d, turn) :: after →
        turn.Gated (turnsOf d before) :=
  have hrun := pair_run .nil settling crossing_deliverable.2
  ⟨hrun, heads_gated hrun settling_timely⟩

end Crossing

end ChatCommons
