import ChatCommons.Core.AncestrySpec
import ChatCommons.Model.Serve
import ChatCommons.Network.DeclaredEndpoint
import ChatCommons.Sample.Brawl
import ChatCommons.Sample.Host

/-!
A home server of the community of `Club` that has an invitation open, and the requests of the
device that takes it.
-/

namespace ChatCommons.Sample

open Collections Dag

def serverEndpoints : List String := ["/ip4/127.0.0.1/udp/4001/quic-v1"]

def serverReader : PayloadReader := declaredReader serverEndpoints

def serverEvents : List SignedEvent := [genesis, declaration serverEndpoints, invitation]

def serverCore : CoreNode := CoreNode.ofEvents club serverEvents

def serverStored : List SignedEvent :=
  serverCore.known.toList.filterMap fun id => serverCore.store.rows[id]?

def serverPast : List EventId := [genesis, invitation].map SignedEvent.eventId

def serverDisclosed : List SignedEvent :=
  (serverCore.known.toList.filter fun x => x ∈ serverPast).filterMap
    fun x => serverCore.store.rows[x]?

theorem server_checked : isListed crypto club [] serverEvents = true ∧
    (serverCore.known.toList.filter fun x => x ∈ serverPast).length ≤
      MAX_BOOTSTRAP_ANCESTRY_EVENTS ∧
    invitation.eventId ∈ serverCore.known ∧
    (∀ x ∈ serverPast, ∀ parent ∈ serverCore.parents x, parent ∈ serverPast) ∧
    genesis.eventId ∈ serverCore.parents invitation.eventId := by decide +kernel

theorem serverCore_sound : serverCore.Sound crypto := (listed_of_isListed server_checked.1).sound

theorem server_allEvents : serverCore.allEvents crypto = .ok serverStored :=
  serverCore_sound.allEvents_eq

theorem server_reaches {x : EventId} :
    Reaches serverCore.parents x invitation.eventId ↔ x ∈ serverPast := by
  obtain ⟨_, _, _, hclosed, hgenesis⟩ := server_checked
  constructor
  · intro hreach
    exact Closed.reaches (S := {y | y ∈ serverPast}) hclosed hreach (by simp [serverPast])
  · intro hx
    simp only [serverPast, List.map_cons, List.map_nil, List.mem_cons, List.not_mem_nil,
      or_false] at hx
    obtain rfl | rfl := hx
    · exact .single hgenesis
    · exact .refl

theorem server_ancestry : serverCore.ancestry crypto invitation.eventId
    MAX_BOOTSTRAP_ANCESTRY_EVENTS = .ok serverDisclosed := by
  have hpast : serverCore.past invitation.eventId =
      serverCore.known.toList.filter fun x => x ∈ serverPast :=
    List.filter_congr fun x _ => decide_eq_decide.mpr server_reaches
  obtain ⟨_, hsmall, hknown, _⟩ := server_checked
  rw [CoreNode.ancestry_eq serverCore_sound hknown, CoreNode.pastEvents, hpast, if_pos hsmall]
  rfl

theorem serverProfile_some :
    (resolve crypto serverReader serverStored).toOption.isSome = true := by decide +kernel

def serverProfile : ChatResolution :=
  (resolve crypto serverReader serverStored).toOption.get serverProfile_some

theorem ok_toOption_get {ε α : Type} {result : Except ε α} (h : result.toOption.isSome = true) :
    result = .ok (result.toOption.get h) := by
  cases result with
  | error error => cases h
  | ok a => rfl

theorem server_resolved : resolve crypto serverReader serverStored = .ok serverProfile :=
  ok_toOption_get serverProfile_some

theorem server_invitations : serverProfile.snapshot.activeInvitations.toList =
    [(invitation.eventId, (identity 3).publicKey crypto)] := by decide +kernel

def serverGrant : BootstrapGrant where
  invitation := invitation.eventId
  capabilityPublicKey := (identity 3).publicKey crypto
  ancestry := serverDisclosed

theorem server_grants : collectGrants crypto serverCore
    [(invitation.eventId, (identity 3).publicKey crypto)] = .ok [serverGrant] := by
  rw [collectGrants, CoreNode.ancestryCli, server_ancestry]
  rfl

def serverOptions : ServeOptions where
  community := club
  listen := endpointAddress
  relay := none
  maxStoreBytes := (serverEvents.map fun event => event.toJson.length).sum
  device := endpointDevice
  certificate := createDeviceCertificate crypto (identity 4) endpointDevice 0

def serverStart : Except CliError NetworkNode :=
  startNetwork crypto serverReader serverNames serverCore club ∅ .homeServer
    (some serverOptions.maxStoreBytes) endpointDevice serverOptions.certificate

def serverRefresh : ServeM Unit := fun network =>
  match requireRole serverProfile.snapshot .homeServer endpointDevice.publicKey with
  | .error error => .error error network
  | .ok _ =>
    match NetworkNode.replaceBootstrapGrants crypto [serverGrant]
        (network.replaceAuthorization (extendUsers ∅ serverProfile.snapshot.members)
          (trustedDevices crypto serverProfile.snapshot)) with
    | .error error network => .error (.network error) network
    | .ok _ network => .ok () network

def isServerCore (core : CoreNode) : Bool :=
  decide (core.store.rows = serverCore.store.rows ∧ core.community = serverCore.community ∧
    core.known = serverCore.known)

theorem eq_of_isServerCore {core : CoreNode} (h : isServerCore core = true) :
    core = serverCore := by
  obtain ⟨hrows, hcommunity, hknown⟩ := of_decide_eq_true h
  obtain ⟨⟨rows⟩, community, known⟩ := core
  dsimp only at hrows hcommunity hknown
  rw [hrows, hcommunity, hknown]

theorem server_refresh {network : NetworkNode} (h : network.sync.node = serverCore) :
    ServeM.refresh crypto serverReader ∅ .homeServer endpointDevice.publicKey network =
      serverRefresh network := by
  unfold ServeM.refresh refreshNetworkAuthorization serverRefresh
  simp only [h, CoreNode.allEventsCli, server_allEvents, resolveCli, server_resolved,
    server_invitations, server_grants, bind, Except.bind, pure, Except.pure]
  cases requireRole serverProfile.snapshot .homeServer endpointDevice.publicKey with
  | error error => rfl
  | ok u =>
    dsimp only
    cases NetworkNode.replaceBootstrapGrants crypto [serverGrant]
      (network.replaceAuthorization (extendUsers ∅ serverProfile.snapshot.members)
        (trustedDevices crypto serverProfile.snapshot)) <;> rfl

def serverTurn (turn : ServeTurn) : ServeM Unit := fun network =>
  match NetworkNode.nextEvent crypto serverNames reliable turn.event network with
  | .ok (some (.syncProgress _)) later =>
    if isServerCore later.sync.node then
      (do serverRefresh; ServeM.flush turn.flush : ServeM Unit) later
    else serveTurn crypto serverReader serverNames reliable serverOptions turn network
  | _ => serveTurn crypto serverReader serverNames reliable serverOptions turn network

theorem serverTurn_eq {turn : ServeTurn} :
    serverTurn turn = serveTurn crypto serverReader serverNames reliable serverOptions turn := by
  funext network
  unfold serverTurn
  split
  · rename_i peer later hnext
    split_ifs with hcore
    · have hevent : ServeM.onNetwork
          (NetworkNode.nextEvent crypto serverNames reliable turn.event) network =
            .ok (some (.syncProgress peer)) later := by
        rw [ServeM.onNetwork, hnext]
      have hrefresh := server_refresh (eq_of_isServerCore hcore)
      simp only [serveTurn, Stateful.bind_run, hevent, handleServeEvent, hrefresh, serverOptions,
        pure, EStateM.pure]
    · rfl
  · rfl

def serverTurns : List ServeTurn → ServeM Unit
  | [] => return ()
  | turn :: turns => do
    serverTurn turn
    serverTurns turns

theorem serverTurns_eq {turns : List ServeTurn} :
    serverTurns turns = serveLoop crypto serverReader serverNames reliable serverOptions turns := by
  induction turns with
  | nil => rfl
  | cons turn turns ih => rw [serverTurns, serveLoop, serverTurn_eq, ih]

def serverAfter (start : Except CliError NetworkNode) (turns : List ServeTurn)
    (Q : NetworkNode → Bool) : Bool :=
  match start with
  | .error _ => false
  | .ok network =>
    match (do listenForServe reliable serverOptions (.ok ()); serverTurns turns : ServeM Unit)
        network with
    | .ok _ later => Q later
    | .error _ _ => false

theorem exists_of_serverAfter {start : Except CliError NetworkNode} {turns : List ServeTurn}
    {Q : NetworkNode → Bool} (h : serverAfter start turns Q = true) :
    ∃ network later, start = .ok network ∧
      runServe crypto serverReader serverNames reliable serverOptions (.ok ()) turns network =
        .ok () later ∧ Q later = true := by
  unfold serverAfter at h
  rw [serverTurns_eq] at h
  cases start with
  | error error => cases h
  | ok network =>
    dsimp only at h
    unfold runServe
    cases hrun : (do listenForServe reliable serverOptions (.ok ())
                     serveLoop crypto serverReader serverNames reliable serverOptions turns :
        ServeM Unit) network with
    | error error later =>
      rw [hrun] at h
      cases h
    | ok u later =>
      rw [hrun] at h
      exact ⟨network, later, rfl, hrun, h⟩

end ChatCommons.Sample
