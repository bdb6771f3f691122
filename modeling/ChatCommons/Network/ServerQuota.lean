import ChatCommons.Model.Serve
import ChatCommons.Network.Authorization
import ChatCommons.Network.Footprint
import ChatCommons.Network.Grants
import ChatCommons.Network.Returned
import ChatCommons.Sample.Server
import ChatCommons.Sync.Quota

/-!
The quota over the life of a home server. Synchronization respects it in every order; an approved
acceptance is stored past it.
-/

namespace ChatCommons

open Collections Stateful NetworkNode

variable {C : Crypto} {J : PayloadReader} {P : PeerNames} {T : Transport} {limit : ℕ}
  {network : NetworkNode}

def NetworkNode.Within (C : Crypto) (limit : ℕ) (network : NetworkNode) : Prop :=
  network.sync.Within C limit

section Network

theorem SyncStep.within {input : Input} {sync later : SyncPeer} (hstep : SyncStep C input sync later)
    (hinput : ∀ events, input ≠ .call (.ingest events)) (h : sync.Within C limit) :
    later.Within C limit := by
  cases hstep with
  | receive message => exact h.receive message
  | ingest heq => exact absurd heq (hinput _)

theorem Footprint.within {first node later : NetworkNode} {input : Input}
    (h : Footprint C P first input node later) (hinput : ∀ events, input ≠ .call (.ingest events)) :
    Preserves (NetworkNode.Within C limit) node later := by
  have hsynced := h.synced
  unfold NetworkNode.Within
  intro hwithin
  generalize later.sync = last at hsynced ⊢
  induction hsynced with
  | refl => exact hwithin
  | tail _ hstep ih => exact hstep.within hinput ih

theorem nextEvent_within (event : SwarmEvent) :
    Evolves (Preserves (NetworkNode.Within C limit)) network (nextEvent C P T event) :=
  nextEvent_footprint.conseq (fun _ _ h => Footprint.within h (by simp))
    fun _ _ h => Footprint.within h (by simp)

theorem call_within {call : NetworkCall} (hcall : ∀ events, call ≠ .ingest events) :
    Evolves (Preserves (NetworkNode.Within C limit)) network (perform C T call) := by
  have hinput : ∀ events, Input.call call ≠ .call (.ingest events) := by
    rintro events ⟨⟩
    exact hcall events rfl
  have h : Evolves (Footprint C (fun _ => none) network (.call call)) network (perform C T call) :=
    call_footprint
  exact h.conseq (fun _ _ h => Footprint.within h hinput) fun _ _ h => Footprint.within h hinput

theorem registerBootstrapGrant_within (grant : BootstrapGrant) :
    Evolves (Preserves (NetworkNode.Within C limit)) network
      (NetworkNode.registerBootstrapGrant C grant) := by
  have hinput : ∀ events, Input.call (.registerBootstrapGrant grant) ≠ .call (.ingest events) := by
    simp
  have h : Evolves (Footprint C (fun _ => none) network (.call (.registerBootstrapGrant grant)))
      network (perform C (fun _ _ => .ok ()) (.registerBootstrapGrant grant)) := call_footprint
  exact h.conseq (fun _ _ h => Footprint.within h hinput) fun _ _ h => Footprint.within h hinput

theorem reserveRelay_within (relay : Multiaddr) :
    Evolves (Preserves (NetworkNode.Within C limit)) network (reserveRelay T relay) := by
  have hinput : ∀ events, Input.call (.reserveRelay relay) ≠ .call (.ingest events) := by simp
  have h : Evolves (Footprint C (fun _ => none) network (.call (.reserveRelay relay))) network
      (reserveRelay T relay) := reserveRelay_footprint fun _ => id
  exact h.conseq (fun _ _ h => Footprint.within h hinput) fun _ _ h => Footprint.within h hinput

theorem onNetwork_within {α : Type} {action : NetworkM α}
    (h : Evolves (Preserves (NetworkNode.Within C limit)) network action) :
    Evolves (Preserves (NetworkNode.Within C limit)) network (ServeM.onNetwork action) := by
  rintro current rfl
  have hnetwork := h _ rfl
  unfold ServeM.onNetwork
  revert hnetwork
  cases action current with
  | ok a later => exact id
  | error e later => exact id

end Network

section Acceptance

variable {user : UserId} {peer : PeerId} {invitation : EventId} {acceptance : SignedEvent}

def EventStore.cost (store : EventStore) (event : SignedEvent) : ℕ :=
  if event.eventId ∈ store.rows then 0 else event.toJson.length

theorem Grows.weight_le {community : CommunityId} {node node' : CoreNode}
    (h : Grows C (· ∈ [acceptance]) community node node') :
    weight rowBytes node'.store.rows ≤
      weight rowBytes node.store.rows + node.store.cost acceptance := by
  rw [EventStore.cost]
  by_cases hstored : acceptance.eventId ∈ node.store.rows
  · rw [if_pos hstored]
    have hle : weight rowBytes node'.store.rows ≤
        weight rowBytes node.store.rows + (([] : List (EventId × SignedEvent)).map rowBytes).sum := by
      apply weight_le_add
      rintro ⟨id, event⟩ hrow
      have hrow' := mem_toList.mp hrow
      obtain hold | ⟨hfit, rfl⟩ := h.rows_from hrow'
      · exact .inl (mem_toList.mpr hold)
      · obtain rfl := List.mem_singleton.mp hfit.offered
        obtain ⟨other, hother⟩ := mem_iff.mp hstored
        obtain rfl := Option.some.inj (hrow'.symm.trans (h.rows_kept hother))
        exact .inl (mem_toList.mpr hother)
    simpa using hle
  · rw [if_neg hstored]
    have hle : weight rowBytes node'.store.rows ≤ weight rowBytes node.store.rows +
        ([(acceptance.eventId, acceptance)].map rowBytes).sum := by
      apply weight_le_add
      rintro ⟨id, event⟩ hrow
      obtain hold | ⟨hfit, rfl⟩ := h.rows_from (mem_toList.mp hrow)
      · exact .inl (mem_toList.mpr hold)
      · obtain rfl := List.mem_singleton.mp hfit.offered
        exact .inr (List.mem_singleton.mpr rfl)
    simpa [rowBytes] using hle

theorem SyncPeer.Within.store {sync : SyncPeer} (h : sync.Within C limit)
    (hmember : acceptance.content.communityId ≠ none)
    (hfits : sync.occupied + sync.node.store.cost acceptance ≤ limit) :
    SyncPeer.Within C limit { sync with node := (sync.node.ingest C [acceptance]).1 } := by
  have hgrown := ingestUnless_grows C (fun _ => false) sync.node [acceptance]
  rw [ingestUnless_never] at hgrown
  obtain hsame | ⟨community, hcommunity, hgrows⟩ := hgrown
  · rw [hsame]
    exact h
  · have hown : community = sync.community := by
      unfold CoreNode.ingestCommunity at hcommunity
      cases hnode : sync.node.community with
      | some c =>
        rw [hnode] at hcommunity
        exact (Except.ok.inj hcommunity).symm.trans (h.steady.community c hnode)
      | none =>
        rw [hnode] at hcommunity
        have hnone : [acceptance].find? (fun event => event.content.communityId.isNone) = none := by
          simp [hmember]
        rw [hnone] at hcommunity
        cases hcommunity
    subst hown
    refine ⟨⟨?_, h.steady.pendingId, h.steady.pendingValid, h.steady.pendingBelongs,
      h.steady.pendingSize⟩, h.quota, ?_⟩
    · intro c hc
      obtain hsame | hsame := hgrows.community_from
      · exact h.steady.community c (hsame ▸ hc)
      · exact (Option.some.inj (hsame.symm.trans hc)).symm
    · have hrows := hgrows.weight_le
      rw [SyncPeer.occupied] at hfits ⊢
      dsimp only
      omega

/-- The acceptance that the event brings is approved. -/
structure NetworkNode.Approves (C : Crypto) (J : PayloadReader) (network : NetworkNode)
    (event : SwarmEvent) (acceptance : SignedEvent) : Prop where
  brought : ∃ peer user invitation channel nonce,
    event = .request peer (.bootstrapAccept invitation acceptance) channel nonce ∧
    network.HandsOver C peer user invitation acceptance ∧
    ∃ stored resolution, network.sync.node.allEvents C = .ok stored ∧
      resolve C J (stored ++ [acceptance]) = .ok resolution ∧
      acceptanceApproved resolution.snapshot user invitation acceptance = true

/-- An acceptance that is approved fits into the quota beside what is stored and pending. -/
def NetworkNode.HasRoom (C : Crypto) (J : PayloadReader) (limit : ℕ) (network : NetworkNode)
    (event : SwarmEvent) : Prop :=
  ∀ acceptance, network.Approves C J event acceptance →
    network.sync.occupied + network.sync.node.store.cost acceptance ≤ limit

end Acceptance

section Turns

variable {options : ServeOptions}

theorem check_run {α : Type} {result : Except CliError α} {a : α} {later : NetworkNode}
    (h : ServeM.check result network = .ok a later) : result = .ok a ∧ later = network := by
  cases result with
  | error e => cases h
  | ok a =>
    cases h
    exact ⟨rfl, rfl⟩

theorem check_within {α : Type} {result : Except CliError α} :
    Evolves (Preserves (NetworkNode.Within C limit)) network (ServeM.check result) := by
  cases result with
  | error e => exact .throw
  | ok a => exact .pure

theorem flush_within {flushed : Except String Unit} :
    Evolves (Preserves (NetworkNode.Within C limit)) network (ServeM.flush flushed) := by
  cases flushed with
  | error reason => exact .throw
  | ok u => exact .pure

theorem refresh_sync (users : BTreeSet UserId) (role : NetworkRole) (publicKey : Bytes 32)
    (network : NetworkNode) :
    (refreshNetworkAuthorization C J users role publicKey network).1.sync = network.sync := by
  unfold refreshNetworkAuthorization
  dsimp only
  split
  · rfl
  · rename_i snapshot grants _
    rw [replaceBootstrapGrants_run]
    cases grants.forM (NetworkNode.validateBootstrapGrant C (network.replaceAuthorization
        (extendUsers users snapshot.members) (trustedDevices C snapshot))) with
    | error e => exact replaceAuthorization_sync _ _
    | ok u => exact replaceAuthorization_sync _ _

theorem refresh_within {users : BTreeSet UserId} {role : NetworkRole} {publicKey : Bytes 32} :
    Evolves (Preserves (NetworkNode.Within C limit)) network
      (ServeM.refresh C J users role publicKey) := by
  rintro current rfl
  have hsync := refresh_sync (C := C) (J := J) users role publicKey current
  have hkept : Preserves (NetworkNode.Within C limit) current
      (refreshNetworkAuthorization C J users role publicKey current).1 := by
    intro h
    rw [NetworkNode.Within, hsync]
    exact h
  unfold ServeM.refresh
  revert hkept
  cases refreshNetworkAuthorization C J users role publicKey current with
  | mk later result => cases result <;> exact id

theorem ingest_within {acceptance : SignedEvent}
    (hmember : acceptance.content.communityId ≠ none)
    (hroom : network.sync.occupied + network.sync.node.store.cost acceptance ≤ limit) :
    Evolves (Preserves (NetworkNode.Within C limit)) network (ServeM.ingest C [acceptance]) := by
  apply Evolves.get
  have hstored : Preserves (NetworkNode.Within C limit) network
      { network with sync := { network.sync with
        node := (network.sync.node.ingest C [acceptance]).1 } } :=
    fun h => h.store hmember hroom
  revert hstored
  cases network.sync.node.ingest C [acceptance] with
  | mk node result =>
    intro hstored
    refine .set_bind hstored ?_
    cases result with
    | error e => exact .throw
    | ok report => exact .pure

/-- The acceptance is stored only if it is approved, and then the quota has room for it. -/
theorem decideAcceptance_within {peer : PeerId} {user : UserId} {invitation : EventId}
    {acceptance : SignedEvent} (hmember : acceptance.content.communityId ≠ none)
    (hroom : ∀ stored resolution, network.sync.node.allEvents C = .ok stored →
      resolve C J (stored ++ [acceptance]) = .ok resolution →
      acceptanceApproved resolution.snapshot user invitation acceptance = true →
      network.sync.occupied + network.sync.node.store.cost acceptance ≤ limit) :
    Evolves (Preserves (NetworkNode.Within C limit)) network
      (decideAcceptance C J T peer user invitation acceptance) := by
  apply Evolves.get
  apply Evolves.bind_of_run check_within
  intro stored current hstored
  obtain ⟨hevents, rfl⟩ := check_run hstored
  apply Evolves.bind_of_run check_within
  intro resolution current hresolved
  obtain ⟨hresolve, rfl⟩ := check_run hresolved
  have hresolution := hroom stored resolution (allEventsCli_eq_ok.mp hevents)
    (resolveCli_eq_ok.mp hresolve)
  have hcall : ∀ approved : Bool, ∀ later : NetworkNode,
      Evolves (Preserves (NetworkNode.Within C limit)) later
        (ServeM.onNetwork (NetworkNode.resolveBootstrapAcceptance T peer approved)) := by
    intro approved later
    have hperform : Evolves (Preserves (NetworkNode.Within C limit)) later
        (perform C T (.resolveBootstrapAcceptance peer approved)) := call_within (by simp)
    exact onNetwork_within hperform
  dsimp only
  apply Evolves.ite
  · intro happroved
    exact .bind (ingest_within hmember (hresolution happroved)) fun _ later _ => hcall _ later
  · intro _
    exact hcall _ _

theorem HandsOver.member {node : NetworkNode} {peer : PeerId} {user : UserId}
    {invitation : EventId} {acceptance : SignedEvent}
    (h : node.HandsOver C peer user invitation acceptance) :
    acceptance.content.communityId ≠ none := by
  obtain ⟨proved, _, hvalid, _⟩ := h.proved
  simp only [acceptanceValid, Bool.and_eq_true, decide_eq_true_eq] at hvalid
  rw [hvalid.1.1.1.2]
  simp

theorem serveTurn_within {turn : ServeTurn} (hroom : network.HasRoom C J limit turn.event) :
    Evolves (Preserves (NetworkNode.Within C limit)) network (serveTurn C J P T options turn) := by
  apply Evolves.bind_of_run (onNetwork_within (nextEvent_within turn.event))
  intro returned later hrun
  cases returned with
  | none => exact .pure
  | some event =>
    refine .bind ?_ fun _ _ _ => .bind refresh_within fun _ _ _ => flush_within
    cases event with
    | bootstrapAcceptance peer user invitation acceptance =>
      have hnext : nextEvent C P T turn.event network =
          .ok (some (.bootstrapAcceptance peer user invitation acceptance)) later := by
        unfold ServeM.onNetwork at hrun
        revert hrun
        cases nextEvent C P T turn.event network with
        | ok a t =>
          intro hrun
          cases hrun
          rfl
        | error e t => intro hrun; cases hrun
      obtain ⟨⟨channel, nonce, hevent⟩, hsync, hhands⟩ := nextEvent_acceptance hnext
      apply decideAcceptance_within (HandsOver.member hhands)
      rw [hsync]
      intro stored resolution hstored hresolve happroved
      apply hroom acceptance
      exact ⟨peer, user, invitation, channel, nonce, hevent, hhands, stored, resolution, hstored,
        hresolve, happroved⟩
    | listening _ | connected _ _ | relayConnected _ | relayDisconnected _
    | relayReservationAccepted _ | relayCircuitEstablished _ _ | relayConnectionFailed _ _
    | observedAddress _ _ | holePunchSucceeded _ | holePunchFailed _ _ | authenticated _
    | syncProgress _ | bootstrapChallenge _ _ _ | bootstrapAncestry _ _ _ | bootstrapAccepted _
    | requestFailed _ _ | disconnected _ => exact .pure

theorem serveLoop_within {turns : List ServeTurn}
    (hroom : ∀ before turn after current, turns = before ++ turn :: after →
      serveLoop C J P T options before network = .ok () current →
      current.HasRoom C J limit turn.event) :
    Evolves (Preserves (NetworkNode.Within C limit)) network
      (serveLoop C J P T options turns) := by
  induction turns generalizing network with
  | nil => exact .pure
  | cons turn turns ih =>
    apply Evolves.bind_of_run (serveTurn_within (hroom [] turn turns network rfl rfl))
    intro _ later hturn
    apply ih
    intro before next after current heq hrun
    apply hroom (turn :: before) next after current (by rw [heq, List.cons_append])
    rw [serveLoop, bind_run, hturn]
    exact hrun

theorem listenForServe_within {flushed : Except String Unit} :
    Evolves (Preserves (NetworkNode.Within C limit)) network
      (listenForServe T options flushed) := by
  have hlisten : Evolves (Preserves (NetworkNode.Within C limit)) network
      (perform C T (.listen options.listen)) := call_within (by simp)
  refine .bind (onNetwork_within hlisten) fun _ current _ => ?_
  cases options.relay with
  | none => exact flush_within
  | some relay =>
    refine .bind (onNetwork_within ?_) fun _ _ _ => flush_within
    exact reserveRelay_within relay

end Turns

section Start

theorem startNetwork_within {core : CoreNode} {community : CommunityId} {users : BTreeSet UserId}
    {role : NetworkRole} {device : DeviceIdentity} {certificate : DeviceCertificate}
    (h : startNetwork C J P core community users role (some limit) device certificate =
      .ok network) : network.Within C limit := by
  unfold startNetwork at h
  obtain ⟨stored, -, h⟩ := Fallible.bind_eq_ok.mp h
  obtain ⟨profile, -, h⟩ := Fallible.bind_eq_ok.mp h
  obtain ⟨_, -, h⟩ := Fallible.bind_eq_ok.mp h
  obtain ⟨grants, -, h⟩ := Fallible.bind_eq_ok.mp h
  obtain ⟨unlimited, hnew, h⟩ := Fallible.bind_eq_ok.mp h
  obtain ⟨sync, hquota, h⟩ := Fallible.bind_eq_ok.mp h
  obtain ⟨opened, hopened, h⟩ := Fallible.bind_eq_ok.mp h
  have hsync : opened.sync = sync := by rw [newNode_eq (liftNetwork_eq_ok.mp hopened)]
  have hwithin : (opened.replaceAuthorization (extendUsers users profile.snapshot.members)
      (trustedDevices C profile.snapshot)).Within C limit := by
    rw [NetworkNode.Within, replaceAuthorization_sync, hsync]
    exact SyncPeer.within_of_start (liftSync_eq_ok.mp hnew) (liftSync_eq_ok.mp hquota)
  dsimp only at h
  have hregister : Evolves (Preserves (NetworkNode.Within C limit))
      (opened.replaceAuthorization (extendUsers users profile.snapshot.members)
        (trustedDevices C profile.snapshot))
      (grants.forM (NetworkNode.registerBootstrapGrant C)) :=
    .forM fun grant _ later _ => registerBootstrapGrant_within grant
  have hlast := hregister _ rfl
  revert h hlast
  cases grants.forM (NetworkNode.registerBootstrapGrant C) (opened.replaceAuthorization
      (extendUsers users profile.snapshot.members) (trustedDevices C profile.snapshot)) with
  | error e later => intro h; cases h
  | ok u later =>
    intro h hlast
    cases h
    exact hlast hwithin

end Start

/-- As long as every approved acceptance fits, the stored and the pending events stay within the
limit in every run of a home server, and its store can be opened again with the same limit. -/
theorem server_stays_within_quota {core : CoreNode} {options : ServeOptions}
    {flushed : Except String Unit} {turns : List ServeTurn} {start later : NetworkNode}
    (hstart : startNetwork C J P core options.community ∅ .homeServer (some options.maxStoreBytes)
      options.device options.certificate = .ok start)
    (hroom : ∀ before turn after current, turns = before ++ turn :: after →
      runServe C J P T options flushed before start = .ok () current →
      current.HasRoom C J options.maxStoreBytes turn.event)
    (hrun : runServe C J P T options flushed turns start = .ok () later ∨
      ∃ error, runServe C J P T options flushed turns start = .error error later) :
    later.sync.occupied ≤ options.maxStoreBytes ∧
      ∀ reopened : SyncPeer, reopened.node.store = later.sync.node.store →
        reopened.withStorageQuota options.maxStoreBytes ≠
          .error (.storageQuotaExceeded options.maxStoreBytes) := by
  have hevolves : Evolves (Preserves (NetworkNode.Within C options.maxStoreBytes)) start
      (runServe C J P T options flushed turns) := by
    apply Evolves.bind_of_run listenForServe_within
    intro _ listening hlisten
    apply serveLoop_within
    intro before turn after current heq hloop
    apply hroom before turn after current heq
    rw [runServe, bind_run, hlisten]
    exact hloop
  have hlater : later.Within C options.maxStoreBytes := by
    have hpost := hevolves start rfl
    obtain hok | ⟨error, herror⟩ := hrun
    · rw [hok] at hpost
      exact hpost (startNetwork_within hstart)
    · rw [herror] at hpost
      exact hpost (startNetwork_within hstart)
  exact ⟨hlater.fits, fun reopened hstore => hlater.reopens hstore⟩

section Example

open Sample

def serveRequest (request : NetworkRequest) : ServeTurn :=
  ⟨.request joinerDevice.peerId request ⟨0⟩ (bigEndianBytes 32 0), .ok ()⟩

def joiningTurns : List ServeTurn :=
  [serveRequest (.bootstrapBegin (createDeviceCertificate crypto (identity 2) joinerDevice 0)
      Sample.invitation.eventId),
    serveRequest (.bootstrapProve Sample.invitation.eventId (List.replicate 64 0)),
    serveRequest (.bootstrapAccept Sample.invitation.eventId acceptance)]

/-- The server does not start again on what it has stored. -/
def startsNoMore (later : NetworkNode) : Bool :=
  match SyncPeer.withStorageQuota { node := later.sync.node, community := club }
      serverOptions.maxStoreBytes with
  | .error error => error = .storageQuotaExceeded serverOptions.maxStoreBytes
  | .ok _ => false

theorem joining_checked :
    serverAfter serverStart (joiningTurns.take 2) (fun _ => true) = true ∧
    serverAfter serverStart joiningTurns (fun later =>
      serverOptions.maxStoreBytes < later.sync.occupied && startsNoMore later) = true := by
  unfold serverStart startNetwork
  simp only [CoreNode.allEventsCli, server_allEvents, resolveCli, server_resolved,
    server_invitations, server_grants, bind, Except.bind]
  decide +kernel

/-- The user asks for the challenge and answers it, and brings no acceptance yet. -/
theorem server_stays_within_quota_proved : ∃ start later, serverStart = .ok start ∧
    runServe crypto serverReader serverNames reliable serverOptions (.ok ())
      (joiningTurns.take 2) start = .ok () later ∧
    later.sync.occupied ≤ serverOptions.maxStoreBytes ∧
    ∀ reopened : SyncPeer, reopened.node.store = later.sync.node.store →
      reopened.withStorageQuota serverOptions.maxStoreBytes ≠
        .error (.storageQuotaExceeded serverOptions.maxStoreBytes) := by
  obtain ⟨start, later, hstart, hrun, _⟩ := exists_of_serverAfter joining_checked.1
  refine ⟨start, later, hstart, hrun, server_stays_within_quota hstart ?_ (.inl hrun)⟩
  rintro before turn after current heq _ acceptance
    ⟨peer, user, invitation, channel, nonce, hevent, _⟩
  have hturn : turn ∈ joiningTurns.take 2 := by
    rw [heq]
    simp
  simp only [joiningTurns, List.take_succ_cons, List.take_zero, List.mem_cons, List.not_mem_nil,
    or_false] at hturn
  obtain rfl | rfl := hturn
  · cases hevent
  · cases hevent

/-- The acceptance is stored although the limit is reached, and the server cannot start again. -/
theorem approved_acceptance_exceeds : ∃ start later, serverStart = .ok start ∧
    runServe crypto serverReader serverNames reliable serverOptions (.ok ()) joiningTurns start =
      .ok () later ∧
    serverOptions.maxStoreBytes < later.sync.occupied ∧
    SyncPeer.withStorageQuota { node := later.sync.node, community := club }
      serverOptions.maxStoreBytes =
        .error (.storageQuotaExceeded serverOptions.maxStoreBytes) := by
  obtain ⟨start, later, hstart, hrun, h⟩ := exists_of_serverAfter joining_checked.2
  obtain ⟨hexceeds, hrefused⟩ := Bool.and_eq_true_iff.mp h
  refine ⟨start, later, hstart, hrun, of_decide_eq_true hexceeds, ?_⟩
  unfold startsNoMore at hrefused
  cases hquota : SyncPeer.withStorageQuota { node := later.sync.node, community := club }
      serverOptions.maxStoreBytes with
  | error error =>
    rw [hquota] at hrefused
    exact congrArg Except.error (of_decide_eq_true hrefused)
  | ok peer =>
    rw [hquota] at hrefused
    cases hrefused

end Example

end ChatCommons
