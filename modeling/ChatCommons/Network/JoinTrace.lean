import ChatCommons.Model.Join
import ChatCommons.Network.DeclaredEndpoint
import ChatCommons.Sample.Host
import ChatCommons.Network.Authorization
import ChatCommons.Network.Returned
import ChatCommons.Network.Unapproved

/-!
What a failed join leaves in the store: nothing, as long as no ancestry was taken over.
-/

namespace ChatCommons

open Collections Fallible Stateful NetworkNode

variable {C : Crypto} {J : PayloadReader} {P : PeerNames} {T : Transport} {F : TextForms}
  {R : PackageReader} {sync : SyncPeer} {joining : Joining} {state : NodeState}

/-- The event brings the ancestry of the invitation, and the command takes it over. -/
structure Joining.Admits (C : Crypto) (J : PayloadReader) (joining : Joining) (peer : PeerId)
    (invitation : EventId) (events : List SignedEvent) : Prop where
  expected : joining.network.Expects C peer invitation events
  prepared : ∃ prepared ∈ joining.prepared, ∃ validated resolution,
    checkAncestry C J prepared invitation events = .ok (validated, resolution) ∧
    ∃ device, joining.network.provisional[peer]? = some device ∧
      endpointTrusted C resolution.snapshot device.userId device.deviceId = true

def Joining.AdmitsEvent (C : Crypto) (J : PayloadReader) (joining : Joining) :
    SwarmEvent → Prop
  | .response peer (.bootstrapAncestry invitation events) => joining.Admits C J peer invitation events
  | _ => False

section Turns

/-- The state of a join that has approved no endpoint. -/
def Joining.Untouched (sync : SyncPeer) (joining : Joining) : Prop :=
  joining.network.Unapproved sync

theorem onNetwork_untouched {α : Type} {action : NetworkM α}
    (h : Evolves (Preserves (Unapproved sync)) joining.network action) :
    Evolves (Preserves (Joining.Untouched sync)) joining (JoinM.onNetwork action) := by
  rintro current rfl
  have hnetwork := h _ rfl
  unfold JoinM.onNetwork
  revert hnetwork
  cases action current.network with
  | ok a network => exact id
  | error e network => exact id

theorem flush_untouched {flushed : Except String Unit} :
    Evolves (Preserves (Joining.Untouched sync)) joining (JoinM.flush flushed) := by
  cases flushed with
  | error reason => exact .throw
  | ok u => exact .pure

theorem submitBootstrapProof_unapproved {node : NetworkNode} {peer : PeerId} {invitation : EventId}
    {signature : ByteString} : Evolves (Preserves (Unapproved sync)) node
      (NetworkNode.submitBootstrapProof T peer invitation signature) := by
  apply Evolves.get
  cases node.targetFor peer invitation with
  | none => exact .throw
  | some target => exact .ite (fun _ => .throw) fun _ => send_unapproved

theorem receiveAncestry_untouched {now : Option Int64} {peer : PeerId} {invitation : EventId}
    {events : List SignedEvent} (hexpects : joining.network.Expects C peer invitation events)
    (hnot : ¬ joining.Admits C J peer invitation events) :
    Evolves (Preserves (Joining.Untouched sync)) joining
      (receiveAncestry C J T state now peer invitation events) := by
  apply Evolves.get
  cases hprepared : joining.prepared with
  | none => exact .pure
  | some prepared =>
    refine .set_bind id ?_
    cases hchecked : checkAncestry C J prepared invitation events with
    | error e => exact .throw
    | ok result =>
      obtain ⟨validated, resolution⟩ := result
      dsimp only
      rw [provisionalUser, provisionalDevice]
      cases hdevice : joining.network.provisional[peer]? with
      | none => exact .throw
      | some device =>
        apply Evolves.ite
        · intro htrusted
          apply absurd _ hnot
          exact ⟨hexpects, prepared, hprepared, validated, resolution, hchecked, device, hdevice,
            htrusted⟩
        · intro _
          exact .throw

theorem handleJoinEvent_untouched {now : Option Int64} {event : NetworkEvent}
    (h : ∀ peer invitation events, event = .bootstrapAncestry peer invitation events →
      joining.network.Expects C peer invitation events ∧
        ¬ joining.Admits C J peer invitation events) :
    Evolves (Preserves (Joining.Untouched sync)) joining
      (handleJoinEvent C J T F state now event) := by
  cases event with
  | bootstrapAncestry peer invitation events =>
    obtain ⟨hexpects, hnot⟩ := h peer invitation events rfl
    exact .bind (receiveAncestry_untouched hexpects hnot) fun _ _ _ => .pure
  | bootstrapChallenge peer invitation proofBytes =>
    apply Evolves.get
    cases joining.prepared with
    | none => exact .throw
    | some prepared =>
      exact .bind (onNetwork_untouched submitBootstrapProof_unapproved) fun _ _ _ => .pure
  | relayConnectionFailed _ _ | requestFailed _ _ | bootstrapAcceptance _ _ _ _ => exact .throw
  | bootstrapAccepted _ | connected _ _ | relayConnected _ | relayDisconnected _
  | relayReservationAccepted _ | relayCircuitEstablished _ _ | observedAddress _ _
  | holePunchSucceeded _ | holePunchFailed _ _ | authenticated _ | syncProgress _
  | disconnected _ | listening _ => exact .pure

theorem joinTurn_untouched {turn : JoinTurn} (hnot : ¬ joining.AdmitsEvent C J turn.event) :
    Evolves (Preserves (Joining.Untouched sync)) joining (joinTurn C J P T F state turn) := by
  apply Evolves.bind_of_run (onNetwork_untouched (nextEvent_unapproved turn.event))
  intro returned later hrun
  unfold JoinM.onNetwork at hrun
  cases hnext : nextEvent C P T turn.event joining.network with
  | error e network =>
    rw [hnext] at hrun
    cases hrun
  | ok returned network =>
    rw [hnext] at hrun
    cases hrun
    cases returned with
    | none => exact .pure
    | some event =>
      refine .bind (handleJoinEvent_untouched ?_) fun _ _ _ =>
        .bind flush_untouched fun _ _ _ => .pure
      rintro peer invitation events rfl
      obtain ⟨hevent, rfl, hexpects⟩ := nextEvent_ancestry hnext
      rw [hevent] at hnot
      exact ⟨hexpects, hnot⟩

end Turns

section Runs

theorem joinLoop_untouched {turns : List JoinTurn}
    (hnot : ∀ before turn after current, turns = before ++ turn :: after →
      joinLoop C J P T F state before joining = .ok false current →
      ¬ current.AdmitsEvent C J turn.event) :
    Evolves (Preserves (Joining.Untouched sync)) joining (joinLoop C J P T F state turns) := by
  induction turns generalizing joining with
  | nil => exact .pure
  | cons turn turns ih =>
    apply Evolves.bind_of_run (joinTurn_untouched (hnot [] turn turns joining rfl rfl))
    intro complete later hturn
    cases complete with
    | true => exact .pure
    | false =>
      apply ih
      intro before next after current heq hrun
      apply hnot (turn :: before) next after current (by rw [heq, List.cons_append])
      rw [joinLoop, bind_run, hturn]
      exact hrun

theorem configureBootstrapTarget_unapproved {node : NetworkNode} {peer : PeerId}
    {invitation : EventId} : Evolves (Preserves (Unapproved sync)) node
      (configureBootstrapTarget peer invitation) := by
  refine .get (.ite (fun _ => .throw) fun _ => .set ?_)
  intro h
  refine ⟨h.1, h.2.authenticated, h.2.users, h.2.devices, ?_⟩
  rintro target ⟨⟩
  rfl

theorem connectJoin_untouched {start : JoinStart} {flushed : Except String Unit} :
    Evolves (Preserves (Joining.Untouched sync)) joining (connectJoin T start flushed) :=
  .bind (onNetwork_untouched configureBootstrapTarget_unapproved) fun _ _ _ =>
    .bind (onNetwork_untouched listen_unapproved) fun _ _ _ =>
      .bind (onNetwork_untouched dial_unapproved) fun _ _ _ => flush_untouched

def JoinStart.initial (start : JoinStart) : Joining :=
  { network := start.network, prepared := some start.prepared }

/-- In no state that the run comes to does its next turn bring an ancestry that is taken over. -/
def JoinStart.NeverAdmits (C : Crypto) (J : PayloadReader) (P : PeerNames) (T : Transport)
    (F : TextForms) (start : JoinStart) (input : JoinInput) : Prop :=
  ∀ before turn after current, input.turns = before ++ turn :: after →
    runJoin C J P T F start { input with turns := before } start.initial = .ok false current →
    ¬ current.AdmitsEvent C J turn.event

theorem runJoin_untouched {start : JoinStart} {input : JoinInput}
    (hnot : start.NeverAdmits C J P T F input) :
    Evolves (Preserves (Joining.Untouched sync)) start.initial (runJoin C J P T F start input) := by
  apply Evolves.bind_of_run connectJoin_untouched
  intro _ connected hconnect
  apply joinLoop_untouched
  intro before turn after current heq hrun
  apply hnot before turn after current heq
  rw [runJoin, bind_run, hconnect]
  exact hrun

end Runs

section Store

variable {α : Type} {error : CliError}

theorem liftNode_eq_ok {result : Except NodeError α} {value : α} :
    liftNode result = .ok value ↔ result = .ok value := by
  cases result <;> simp [liftNode]

/-- `command_join` reaches the network with the store as it is and a node that is open to nobody. -/
theorem openJoin_ok {input : JoinInput} {store : EventStore} {start : JoinStart}
    (h : openJoin C P F R input.state input.code store = .ok start) :
    start.network.sync.node.store = store ∧ start.initial.Untouched start.network.sync := by
  unfold openJoin at h
  obtain ⟨parsed, -, h⟩ := bind_eq_ok.mp h
  obtain ⟨envelope, -, h⟩ := bind_eq_ok.mp h
  obtain ⟨package, -, h⟩ := bind_eq_ok.mp h
  obtain ⟨prepared, -, h⟩ := bind_eq_ok.mp h
  split_ifs at h
  obtain ⟨core, hcore, h⟩ := bind_eq_ok.mp h
  obtain ⟨sync, hsync, h⟩ := bind_eq_ok.mp h
  obtain ⟨network, hnetwork, h⟩ := bind_eq_ok.mp h
  cases h
  have hopened : core = { store, community := none, known := ∅ } :=
    (Except.ok.inj (liftNode_eq_ok.mp hcore)).symm
  have hnew := liftSync_eq_ok.mp hsync
  unfold SyncPeer.new at hnew
  split_ifs at hnew
  cases hnew
  have hnode := newNode_eq (liftNetwork_eq_ok.mp hnetwork)
  rw [hnode]
  refine ⟨by rw [hopened], rfl, ?_, ?_, ?_, ?_⟩
  all_goals simp [JoinStart.initial]

theorem openJoin_databaseNotEmpty {retry : JoinInput} {store : EventStore}
    (h : store.isEmpty = true) :
    openJoin C P F R retry.state retry.code store ≠ .error .databaseNotEmpty := by
  have hbind : ∀ {α β : Type} {x : Except CliError α} {f : α → Except CliError β},
      x ≠ .error .databaseNotEmpty → (∀ a, f a ≠ .error .databaseNotEmpty) →
      (x >>= f) ≠ .error .databaseNotEmpty := by
    intro α β x f hx hf
    cases x with
    | error e => exact fun heq => hx (congrArg Except.error (Except.error.inj heq))
    | ok a => exact hf a
  unfold openJoin
  apply hbind
  · cases parseCode F retry.code <;> simp [liftBootstrap]
  intro parsed
  apply hbind
  · cases parsed.validate F <;> simp [liftBootstrap]
  intro envelope
  apply hbind
  · cases parseInvitePackage R envelope.invitePackage <;> simp [liftInvite]
  intro package
  apply hbind
  · cases package.prepare <;> simp [liftInvite]
  intro prepared
  rw [h, if_neg (by simp)]
  apply hbind
  · cases CoreNode.open C store none <;> simp [liftNode]
  intro core
  apply hbind
  · cases SyncPeer.new core prepared.community <;> simp [startNetwork.liftSync]
  intro sync
  apply hbind
  · cases NetworkNode.new C P retry.state.device _ sync ∅ {} <;> simp [startNetwork.liftNetwork]
  intro network heq
  cases heq

end Store

/-- A join that fails before it has taken over an ancestry leaves the store empty, and the next
attempt does not find it in use. -/
theorem failed_join_leaves_no_trace {input : JoinInput} {store left : EventStore} {error : CliError}
    (hempty : store.isEmpty = true)
    (hfails : commandJoin C J P T F R input store = (left, some (.error error)))
    (hnever : ∀ start, openJoin C P F R input.state input.code store = .ok start →
      start.NeverAdmits C J P T F input) :
    left.isEmpty = true ∧
      ∀ retry : JoinInput,
        openJoin C P F R retry.state retry.code left ≠ .error .databaseNotEmpty := by
  have hleft : left.isEmpty = true := by
    unfold commandJoin at hfails
    cases hopen : openJoin C P F R input.state input.code store with
    | error e =>
      rw [hopen] at hfails
      cases hfails
      exact hempty
    | ok start =>
      rw [hopen] at hfails
      dsimp only at hfails
      obtain ⟨hstore, huntouched⟩ := openJoin_ok hopen
      have hevolves : Evolves (Preserves (Joining.Untouched start.network.sync)) start.initial
          (runJoin C J P T F start input) := runJoin_untouched (hnever start hopen)
      have hrun := hevolves _ rfl
      rw [JoinStart.initial] at hrun huntouched
      revert hrun hfails
      cases runJoin C J P T F start input
          { network := start.network, prepared := some start.prepared } with
      | ok complete later =>
        intro hfails
        cases complete <;> cases hfails
      | error e later =>
        intro hfails hrun
        cases hfails
        have hsync : later.network.sync = start.network.sync := (hrun huntouched).1
        rw [Joining.store, hsync, hstore]
        exact hempty
  exact ⟨hleft, fun retry => openJoin_databaseNotEmpty hleft⟩

section Example

open Sample

def ticketInput (turns : List JoinTurn) : JoinInput where
  state := { user := identity 2, device := joinerDevice, createdAtMs := 0 }
  code := CODE_PREFIX ++ base64Url ticketEnvelope.toJson
  flushed := .ok ()
  turns

def turnOf (event : SwarmEvent) : JoinTurn := ⟨event, some 0, .ok ()⟩

def refusal : JoinTurn := turnOf (.response endpointPeer (.rejected .bootstrapNotApproved))

def refusedTurns : List JoinTurn :=
  [turnOf (.request endpointPeer
      (.authenticate (createDeviceCertificate crypto (identity 1) endpointDevice 0)) ⟨0⟩
      (bigEndianBytes 32 0)),
    turnOf (.response endpointPeer
      (.bootstrapAncestry Sample.invitation.eventId [genesis, Sample.invitation])),
    refusal]

def ticketJoin (turns : List JoinTurn) : EventStore × Option (Except CliError Unit) :=
  commandJoin crypto clubReader serverNames reliable ticketForms ticketReader (ticketInput turns) {}

def isRefused : Option (Except CliError Unit) → Bool
  | some (.error (.network (.rejected .bootstrapNotApproved))) => true
  | _ => false

theorem eq_of_isRefused {result : Option (Except CliError Unit)} (h : isRefused result = true) :
    result = some (.error (.network (.rejected .bootstrapNotApproved))) := by
  unfold isRefused at h
  split at h
  · rfl
  · cases h

def isOccupied : Except CliError JoinStart → Bool
  | .error .databaseNotEmpty => true
  | _ => false

theorem eq_of_isOccupied {result : Except CliError JoinStart} (h : isOccupied result = true) :
    result = .error .databaseNotEmpty := by
  unfold isOccupied at h
  split at h
  · rfl
  · cases h

theorem failed_join_leaves_no_trace_refused :
    (ticketJoin [refusal]).2 = some (.error (.network (.rejected .bootstrapNotApproved))) ∧
      (ticketJoin [refusal]).1.isEmpty = true ∧
      ∀ retry : JoinInput, openJoin crypto serverNames ticketForms ticketReader retry.state retry.code
        (ticketJoin [refusal]).1 ≠ .error .databaseNotEmpty := by
  have hrefused : (ticketJoin [refusal]).2 =
      some (.error (.network (.rejected .bootstrapNotApproved))) :=
    eq_of_isRefused (by decide +kernel)
  have hempty : ({} : EventStore).isEmpty = true := by decide
  have hfails : ticketJoin [refusal] =
      ((ticketJoin [refusal]).1, some (.error (.network (.rejected .bootstrapNotApproved)))) := by
    rw [← hrefused]
  refine ⟨hrefused, failed_join_leaves_no_trace hempty hfails ?_⟩
  intro start _ before turn after current heq _
  have hturn : turn ∈ [refusal] := by
    rw [show [refusal] = before ++ turn :: after from heq]
    simp
  rw [List.mem_singleton.mp hturn]
  exact id

/-- The endpoint shows the ancestry and refuses the acceptance: both events of the ancestry and the
acceptance stay, and the next attempt finds the store in use. -/
theorem refused_join_stays :
    ({} : EventStore).isEmpty = true ∧
      (ticketJoin refusedTurns).2 = some (.error (.network (.rejected .bootstrapNotApproved))) ∧
      (ticketJoin refusedTurns).1.isEmpty = false ∧
      openJoin crypto serverNames ticketForms ticketReader (ticketInput refusedTurns).state
        (ticketInput refusedTurns).code (ticketJoin refusedTurns).1 = .error .databaseNotEmpty :=
  ⟨by decide, eq_of_isRefused (by decide +kernel), by decide +kernel,
    eq_of_isOccupied (by decide +kernel)⟩

end Example

end ChatCommons
