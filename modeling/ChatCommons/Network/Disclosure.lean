import ChatCommons.General.Since
import ChatCommons.Network.Authorization

/-!
What a node discloses before membership was earned by the latest challenge, and a challenge
earns one answer.
-/

namespace ChatCommons

open Collections NetworkNode

variable {C : Crypto} {P : PeerNames} {T : Transport} {s s' : Session} {peer : PeerId}
  {device : AuthenticatedDevice} {input : Input} {sent : List SwarmCommand}
  {event : Option NetworkEvent} {history turns : List Turn} {turn : Turn}

namespace Turn

def Issues (C : Crypto) (P : PeerNames) (peer : PeerId) (invitation : EventId)
    (device : AuthenticatedDevice) (nonce : Bytes BOOTSTRAP_NONCE_BYTES) (turn : Turn) : Prop :=
  ∃ certificate channel, turn.input =
      .swarm (.request peer (.bootstrapBegin certificate invitation) channel nonce) ∧
    turn.node.session.Vets C P peer certificate device ∧
    .sendResponse channel (.bootstrapChallenge invitation nonce) ∈ turn.sent

def Challenges (C : Crypto) (P : PeerNames) (peer : PeerId) (turn : Turn) : Prop :=
  ∃ invitation device nonce, turn.Issues C P peer invitation device nonce

/-- A signature of the peer is compared with its pending challenge, which is used up. -/
def Checks (peer : PeerId) (turn : Turn) : Prop :=
  turn.input.Proves peer ∧ peer ∈ turn.node.pendingChallenges

def Proves (C : Crypto) (peer : PeerId) (invitation : EventId) (device : AuthenticatedDevice)
    (turn : Turn) : Prop :=
  ∃ signature channel nonce grant pending, turn.input =
      .swarm (.request peer (.bootstrapProve invitation signature) channel nonce) ∧
    turn.node.pendingChallenges[peer]? = some pending ∧
    pending.invitation = invitation ∧ pending.authenticated = device ∧
    turn.node.bootstrapGrants[invitation]? = some grant ∧
    verify C grant.capabilityPublicKey.toList pending.proofBytes signature = .ok ()

def Surfaces (peer : PeerId) (turn : Turn) : Prop :=
  ∃ user invitation acceptance,
    turn.event = some (.bootstrapAcceptance peer user invitation acceptance)

end Turn

/-- The challenge was the last one made for the peer, and nothing was checked against it. -/
def Unspent (C : Crypto) (P : PeerNames) (peer : PeerId) (invitation : EventId)
    (device : AuthenticatedDevice) (nonce : Bytes BOOTSTRAP_NONCE_BYTES) : List Turn → Prop :=
  Since (fun turn => ¬ turn.Challenges C P peer ∧ ¬ turn.Checks peer)
    (Turn.Issues C P peer invitation device nonce)

/-- The peer has proved the capability of the invitation, and nothing was surfaced for it since. -/
def Unclaimed (C : Crypto) (peer : PeerId) (invitation : EventId) (device : AuthenticatedDevice) :
    List Turn → Prop :=
  Since (fun turn => ¬ turn.Surfaces peer) (Turn.Proves C peer invitation device)

section Steps

theorem Input.Exchanges.not_proves {prover : PeerId} (h : input.Exchanges peer) :
    ¬ input.Proves prover := by
  cases input with
  | call _ => exact id
  | swarm event =>
    cases event with
    | request sender request channel nonce =>
      cases request with
      | sync _ => exact id
      | authenticate _ | bootstrapBegin _ _ | bootstrapProve _ _ | bootstrapAccept _ _ => exact h.elim
    | _ => exact id

theorem Move.same (h : Move C P s input sent event s') :
    s'.localPeer = s.localPeer ∧ s'.community = s.community := by
  cases h with
  | change h _ _ => cases h <;> exact ⟨rfl, rfl⟩
  | exchanged _ _ _ _ | challenged _ _ | proved _ _ _ _ _ _ | surfaced _ _ _ _ => exact ⟨rfl, rfl⟩

/-- A challenge that is pending after a move was pending before and met no request of the peer,
or the move made it. -/
theorem Move.pending {pending : PendingChallenge} (h : Move C P s input sent event s')
    (hpending : s'.pendingChallenges[peer]? = some pending) :
    (s.pendingChallenges[peer]? = some pending ∧ ¬ input.Proves peer ∧
      ∀ certificate invitation channel nonce,
        input = .swarm (.request peer (.bootstrapBegin certificate invitation) channel nonce) →
        .sendResponse channel (.bootstrapChallenge invitation nonce) ∉ sent) ∨
    ∃ certificate invitation device channel nonce,
      input = .swarm (.request peer (.bootstrapBegin certificate invitation) channel nonce) ∧
      s.Vets C P peer certificate device ∧
      .sendResponse channel (.bootstrapChallenge invitation nonce) ∈ sent ∧
      pending = s.challenge C peer invitation device nonce := by
  cases h with
  | change hchange hsent _ =>
    refine Or.inl ⟨?_, ?_, fun _ _ _ _ _ h => hsent _ h⟩
    · cases hchange with
      | closed | refused => exact of_erase hpending
      | none _ | full _ _ | provisional _ | joined _ | unproved | approved _ | declined
      | replaced _ _ | granted _ | targeted _ => exact hpending
    · cases hchange with
      | none hinput => exact fun hproves => hinput peer hproves (mem_of_getElem? hpending)
      | refused =>
        rintro rfl
        simp at hpending
      | full _ _ | provisional _ | joined _ | closed | unproved | approved _ | declined
      | replaced _ _ | granted _ | targeted _ => exact id
  | exchanged hinput _ _ _ =>
    refine Or.inl ⟨hpending, hinput.not_proves, fun _ _ _ _ heq => ?_⟩
    rw [heq] at hinput
    exact hinput.elim
  | @challenged sender certificate device invitation channel nonce event hvets _ =>
    obtain ⟨rfl, rfl⟩ | hbefore := insert_cases hpending
    · exact Or.inr ⟨certificate, invitation, device, channel, nonce, rfl, hvets, by simp, rfl⟩
    · by_cases heq : sender = peer
      · subst heq
        simp only [getElem?_insert, if_true] at hpending
        exact Or.inr ⟨certificate, invitation, device, channel, nonce, rfl, hvets, by simp,
          (Option.some.inj hpending).symm⟩
      · refine Or.inl ⟨hbefore, id, fun _ _ _ _ hinput => ?_⟩
        cases hinput
        exact absurd rfl heq
  | @proved sender _ _ _ _ _ _ _ _ _ _ _ _ _ _ =>
    refine Or.inl ⟨of_erase hpending, ?_, fun _ _ _ _ hinput => by cases hinput⟩
    rintro rfl
    simp at hpending
  | surfaced _ _ _ _ => exact Or.inl ⟨hpending, id, fun _ _ _ _ hinput => by cases hinput⟩

theorem Move.proving {proved : ProvedBootstrap} (h : Move C P s input sent event s')
    (hproved : s'.provedBootstraps[peer]? = some proved) :
    (s.provedBootstraps[peer]? = some proved ∧ ∀ user invitation acceptance,
      event ≠ some (.bootstrapAcceptance peer user invitation acceptance)) ∨
    ∃ signature channel nonce grant pending, input =
        .swarm (.request peer (.bootstrapProve proved.invitation signature) channel nonce) ∧
      s.pendingChallenges[peer]? = some pending ∧
      pending.invitation = proved.invitation ∧ pending.authenticated = proved.authenticated ∧
      s.bootstrapGrants[proved.invitation]? = some grant ∧
      verify C grant.capabilityPublicKey.toList pending.proofBytes signature = .ok () := by
  have hsilent : Silent event → ∀ user invitation acceptance,
      event ≠ some (.bootstrapAcceptance peer user invitation acceptance) := by
    rintro hevent user invitation acceptance rfl
    exact hevent _ rfl trivial
  cases h with
  | change hchange _ hevent =>
    refine Or.inl ⟨?_, hsilent hevent⟩
    cases hchange with
    | closed | unproved => exact of_erase hproved
    | none _ | full _ _ | provisional _ | joined _ | refused | approved _ | declined
    | replaced _ _ | granted _ | targeted _ => exact hproved
  | exchanged _ _ _ hevent => exact Or.inl ⟨hproved, hsilent hevent⟩
  | challenged _ hevent => exact Or.inl ⟨hproved, hsilent hevent⟩
  | @proved sender invitation signature channel nonce pending grant _ _ hpending hgrant hinvitation
      hverify _ hevent =>
    obtain ⟨rfl, rfl⟩ | hbefore := insert_cases hproved
    · exact Or.inr ⟨signature, channel, nonce, grant, pending, rfl, hpending, hinvitation, rfl,
        hgrant, hverify⟩
    · exact Or.inl ⟨hbefore, hsilent hevent⟩
  | @surfaced sender invitation acceptance channel nonce proved _ _ _ _ =>
    refine Or.inl ⟨of_erase hproved, ?_⟩
    rintro user invitation acceptance hevent
    cases hevent
    simp at hproved

theorem Move.ancestry_sent {channel : ResponseChannel} {invitation : EventId}
    {events : List SignedEvent} (h : Move C P s input sent event s')
    (hsent : .sendResponse channel (.bootstrapAncestry invitation events) ∈ sent) :
    ∃ peer signature nonce grant pending, input =
        .swarm (.request peer (.bootstrapProve invitation signature) channel nonce) ∧
      s.pendingChallenges[peer]? = some pending ∧ pending.invitation = invitation ∧
      s.bootstrapGrants[invitation]? = some grant ∧ events = grant.ancestry ∧
      verify C grant.capabilityPublicKey.toList pending.proofBytes signature = .ok () := by
  cases h with
  | change _ hplain _ => exact (hplain _ hsent).elim
  | exchanged _ _ hexchanges _ => exact (hexchanges _ hsent).elim
  | challenged _ _ => simp at hsent
  | proved hpending hgrant hinvitation hverify hall _ =>
    cases hall _ hsent
    exact ⟨_, _, _, _, _, rfl, hpending, hinvitation, hgrant, rfl, hverify⟩
  | surfaced _ _ _ _ => simp at hsent

theorem Move.acceptance_surfaced {user : UserId} {invitation : EventId} {acceptance : SignedEvent}
    (h : Move C P s input sent event s')
    (hevent : event = some (.bootstrapAcceptance peer user invitation acceptance)) :
    ∃ channel nonce proved, input =
        .swarm (.request peer (.bootstrapAccept invitation acceptance) channel nonce) ∧
      s.provedBootstraps[peer]? = some proved ∧ proved.invitation = invitation ∧
      proved.authenticated.userId = user ∧ invitation ∈ acceptance.content.parents ∧
      authorId C acceptance = .ok user := by
  have hsilent : ¬ Silent event := by
    rintro h
    exact h _ hevent trivial
  cases h with
  | change _ _ h | exchanged _ _ _ h | challenged _ h | proved _ _ _ _ _ h => exact absurd h hsilent
  | surfaced hproved hinvitation hparent hauthor =>
    cases hevent
    exact ⟨_, _, _, rfl, hproved, hinvitation, rfl, hparent, hauthor⟩

end Steps

/-- Each pending challenge is the last one of its peer and unspent, each proof is unclaimed. -/
structure Session.Fresh (C : Crypto) (P : PeerNames) (history : List Turn) (s : Session) : Prop where
  challenged : ∀ {peer : PeerId} {pending : PendingChallenge},
    s.pendingChallenges[peer]? = some pending → ∃ nonce,
      pending = s.challenge C peer pending.invitation pending.authenticated nonce ∧
      Unspent C P peer pending.invitation pending.authenticated nonce history
  proved : ∀ {peer : PeerId} {proved : ProvedBootstrap},
    s.provedBootstraps[peer]? = some proved →
      Unclaimed C peer proved.invitation proved.authenticated history

theorem Session.Fresh.snoc (h : turn.node.session.Fresh C P history)
    (hmove : Move C P turn.node.session turn.input turn.sent turn.event turn.next.session) :
    turn.next.session.Fresh C P (history ++ [turn]) := by
  have hsame := hmove.same
  constructor
  · intro peer pending hpending
    obtain ⟨hbefore, hproves, hquiet⟩ | ⟨certificate, invitation, device, channel, nonce, hinput,
      hvets, hsent, rfl⟩ := hmove.pending hpending
    · obtain ⟨nonce, hmade, hunspent⟩ := h.challenged hbefore
      refine ⟨nonce, ?_, hunspent.snoc ⟨?_, fun hchecks => hproves hchecks.1⟩⟩
      · rw [Session.challenge, hsame.1, hsame.2]
        exact hmade
      · rintro ⟨invitation, device, nonce, certificate, channel, hinput, _, hsent⟩
        exact hquiet _ _ _ _ hinput hsent
    · refine ⟨nonce, ?_, Since.start ⟨certificate, channel, hinput, hvets, hsent⟩⟩
      simp only [Session.challenge, hsame.1, hsame.2]
  · intro peer proved hproved
    obtain ⟨hbefore, hquiet⟩ | ⟨signature, channel, nonce, grant, pending, hproves⟩ :=
      hmove.proving hproved
    · refine (h.proved hbefore).snoc ?_
      rintro ⟨user, invitation, acceptance, hevent⟩
      exact hquiet _ _ _ hevent
    · exact Since.start ⟨signature, channel, nonce, grant, pending, hproves⟩

section Runs

variable {start node : NetworkNode} {own : DeviceIdentity} {certificate : DeviceCertificate}
  {sync : SyncPeer} {users : BTreeSet UserId} {revocations : RevocationSet}

theorem Run.fresh (hrun : Run C P T start turns node) (hstart : start.session.Fresh C P []) :
    node.session.Fresh C P turns ∧ node.session.localPeer = start.session.localPeer ∧
      node.session.community = start.session.community := by
  induction hrun with
  | nil => exact ⟨hstart, rfl, rfl⟩
  | @snoc turns node hrun input ih =>
    have hmove := turn_moves (C := C) (P := P) (T := T) node input
    obtain ⟨hfresh, hlocal, hcommunity⟩ := ih
    obtain ⟨hsame, hsame'⟩ := hmove.same
    have hnext : (node.turn C P T input).next.session.Fresh C P
        (turns ++ [node.turn C P T input]) := Session.Fresh.snoc hfresh hmove
    exact ⟨hnext, hsame.trans hlocal, hsame'.trans hcommunity⟩

theorem newNode_fresh (h : NetworkNode.new C P own certificate sync users revocations = .ok start) :
    start.session.Fresh C P [] := by
  rw [newNode_eq h]
  constructor <;> simp [NetworkNode.session]

/-- The ancestry of an invitation answers a proof by the capability registered for it, made for
the last challenge of the peer; a challenge is checked once; and an acceptance is reported once
for a proof, for its invitation and its user. -/
theorem disclosure_proved {before after : List Turn}
    (hnew : NetworkNode.new C P own certificate sync users revocations = .ok start)
    (hrun : Run C P T start turns node) (hsplit : turns = before ++ turn :: after) :
    (∀ channel invitation events,
      .sendResponse channel (.bootstrapAncestry invitation events) ∈ turn.sent →
      ∃ peer device grant signature nonce answered, turn.input =
          .swarm (.request peer (.bootstrapProve invitation signature) channel answered) ∧
        turn.Proves C peer invitation device ∧
        turn.node.bootstrapGrants[invitation]? = some grant ∧ events = grant.ancestry ∧
        verify C grant.capabilityPublicKey.toList
          (possessionProofBytes C start.sync.community invitation device.userId device.deviceId
            peer start.localPeer nonce) signature = .ok () ∧
        Unspent C P peer invitation device nonce before) ∧
    (∀ peer, turn.Checks peer → ∃ pending nonce, turn.node.pendingChallenges[peer]? = some pending ∧
      pending.proofBytes = possessionProofBytes C start.sync.community pending.invitation
        pending.authenticated.userId pending.authenticated.deviceId peer start.localPeer nonce ∧
      Unspent C P peer pending.invitation pending.authenticated nonce before) ∧
    ∀ peer user invitation acceptance,
      turn.event = some (.bootstrapAcceptance peer user invitation acceptance) →
      (∃ channel nonce, turn.input =
        .swarm (.request peer (.bootstrapAccept invitation acceptance) channel nonce)) ∧
      authorId C acceptance = .ok user ∧ invitation ∈ acceptance.content.parents ∧
      ∃ device, device.userId = user ∧ Unclaimed C peer invitation device before := by
  obtain ⟨hfirst, hturn⟩ := hrun.split hsplit
  obtain ⟨hfresh, hlocal, hcommunity⟩ := hfirst.fresh (newNode_fresh hnew)
  have hmove : Move C P turn.node.session turn.input turn.sent turn.event turn.next.session :=
    hrun.moves (by simp [hsplit])
  have hbytes : ∀ {peer : PeerId} {pending : PendingChallenge},
      turn.node.pendingChallenges[peer]? = some pending → ∃ nonce,
      pending.proofBytes = possessionProofBytes C start.sync.community pending.invitation
        pending.authenticated.userId pending.authenticated.deviceId peer start.localPeer nonce ∧
      Unspent C P peer pending.invitation pending.authenticated nonce before := by
    intro peer pending hpending
    obtain ⟨nonce, hmade, hunspent⟩ := hfresh.challenged hpending
    refine ⟨nonce, ?_, hunspent⟩
    rw [hmade, Session.challenge, hlocal, hcommunity]
    rfl
  refine ⟨fun channel invitation events hsent => ?_, fun peer hchecks => ?_,
    fun peer user invitation acceptance hevent => ?_⟩
  · obtain ⟨peer, signature, answered, grant, pending, hinput, hpending, rfl, hgrant, hevents,
      hverify⟩ := hmove.ancestry_sent hsent
    obtain ⟨nonce, hproof, hunspent⟩ := hbytes hpending
    refine ⟨peer, pending.authenticated, grant, signature, nonce, answered, hinput, ?_, hgrant,
      hevents, hproof ▸ hverify, hunspent⟩
    exact ⟨signature, channel, answered, grant, pending, hinput, hpending, rfl, rfl, hgrant, hverify⟩
  · obtain ⟨pending, hpending⟩ := mem_iff.mp hchecks.2
    obtain ⟨nonce, hproof, hunspent⟩ := hbytes hpending
    exact ⟨pending, nonce, hpending, hproof, hunspent⟩
  · obtain ⟨channel, nonce, proved, hinput, hproved, rfl, huser, hparent, hauthor⟩ :=
      hmove.acceptance_surfaced hevent
    exact ⟨⟨channel, nonce, hinput⟩, hauthor, hparent, proved.authenticated, huser,
      hfresh.proved hproved⟩

end Runs

open Sample in
theorem disclosure_proved_host :
    .sendResponse guestChannel (.bootstrapAncestry invitation.eventId [genesis, invitation]) ∈
        proveTurn.sent ∧
      ∃ device nonce, Unspent crypto names guestPeer invitation.eventId device nonce
        [grantTurn, beginTurn] := by
  have hsent : SwarmCommand.sendResponse guestChannel
      (.bootstrapAncestry invitation.eventId [genesis, invitation]) ∈ proveTurn.sent := by
    decide +kernel
  have hrun : Run crypto names reliable host [grantTurn, beginTurn, proveTurn] proveTurn.next :=
    ((Run.nil.snoc hostGrants).snoc guestBegins).snoc guestProves
  obtain ⟨hdisclosed, _⟩ := disclosure_proved host_new hrun
    (show _ = [grantTurn, beginTurn] ++ proveTurn :: [] from rfl)
  obtain ⟨peer, device, _, _, nonce, _, hinput, _, _, _, _, hunspent⟩ := hdisclosed _ _ _ hsent
  cases hinput
  exact ⟨hsent, device, nonce, hunspent⟩

end ChatCommons
