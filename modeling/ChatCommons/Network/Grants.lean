import ChatCommons.Chat.Bootstrap
import ChatCommons.General.Stateful

/-!
The grants that a node builds for the active invitations: each holds the past of its
invitation, and the node goes on only when all of them keep to the limits.
-/

namespace ChatCommons

open Collections

variable {C : Crypto} {J : PayloadReader} {P : PeerNames} {core : CoreNode}
  {network : NetworkNode} {stored : List SignedEvent} {resolution : ChatResolution}
  {rows : List (EventId × Bytes 32)} {invitation : EventId} {capabilityPublicKey : Bytes 32}

namespace CoreNode

noncomputable def grantOf (core : CoreNode) (row : EventId × Bytes 32) : BootstrapGrant :=
  ⟨row.1, row.2, core.pastEvents row.1⟩

def Offerable (core : CoreNode) (invitation : EventId) : Prop :=
  (core.past invitation).length ≤ MAX_BOOTSTRAP_ANCESTRY_EVENTS ∧
    (NetworkResponse.bootstrapAncestry invitation (core.pastEvents invitation)).toJson.length ≤
      MAX_NETWORK_FRAME_BYTES

theorem Sound.pastEvents_length (h : core.Sound C) (hid : invitation ∈ core.known) :
    (core.pastEvents invitation).length = (core.past invitation).length := by
  have hrows : ∀ x ∈ core.past invitation, (core.store.rows[x]?).isSome := fun x hx => by
    obtain ⟨event, hrow⟩ := h.stored (h.known_of_reaches hid ((h.mem_past hid).mp hx))
    rw [hrow]
    rfl
  rw [pastEvents]
  generalize core.past invitation = past at hrows
  induction past with
  | nil => rfl
  | cons x past ih =>
    obtain ⟨event, hevent⟩ := Option.isSome_iff_exists.mp (hrows x (by simp))
    rw [List.filterMap_cons_some hevent, List.length_cons, List.length_cons,
      ih fun y hy => hrows y (List.mem_cons_of_mem x hy)]

theorem Sound.pastEvents_row (h : core.Sound C) (hid : invitation ∈ core.known)
    {event : SignedEvent} (he : event ∈ core.pastEvents invitation) :
    event.eventId ∈ core.known ∧ core.store.rows[event.eventId]? = some event := by
  obtain ⟨x, hx, hrow⟩ := List.mem_filterMap.mp he
  obtain rfl := h.rowId hrow
  exact ⟨h.known_of_reaches hid ((h.mem_past hid).mp hx), hrow⟩

theorem Sound.invitation_mem (h : core.Sound C) (hid : invitation ∈ core.known) :
    ∃ event ∈ core.pastEvents invitation, event.eventId = invitation := by
  obtain ⟨event, hrow⟩ := h.stored hid
  refine ⟨event, List.mem_filterMap.mpr ⟨invitation, (h.mem_past hid).mpr .refl, hrow⟩, ?_⟩
  exact h.rowId hrow

theorem Sound.collectGrants_eq (h : core.Sound C) (hrows : ∀ row ∈ rows, row.1 ∈ core.known) :
    collectGrants C core rows =
      if ∀ row ∈ rows, (core.past row.1).length ≤ MAX_BOOTSTRAP_ANCESTRY_EVENTS then
        .ok (rows.map core.grantOf)
      else .error (.node .ancestryLimitExceeded) := by
  induction rows with
  | nil => simp [collectGrants]
  | cons row rows ih =>
    have hrest := ih fun other hother => hrows other (List.mem_cons_of_mem row hother)
    obtain ⟨invitation, key⟩ := row
    have hid : invitation ∈ core.known := hrows (invitation, key) (by simp)
    rw [collectGrants, ancestryCli, ancestry_eq h hid, hrest]
    simp only [List.forall_mem_cons]
    by_cases hlength : (core.past invitation).length ≤ MAX_BOOTSTRAP_ANCESTRY_EVENTS
    · simp only [hlength, true_and, if_true]
      split_ifs <;> rfl
    · simp only [hlength, false_and, if_false]
      rfl

end CoreNode

section Validation

theorem validateBootstrapGrant_iff {grant : BootstrapGrant} :
    network.validateBootstrapGrant C grant = .ok () ↔ grant.ancestry ≠ [] ∧
      grant.ancestry.length ≤ MAX_BOOTSTRAP_ANCESTRY_EVENTS ∧
      (∃ event ∈ grant.ancestry, event.eventId = grant.invitation) ∧
      network.validateGrantEvents C grant.ancestry = .ok () ∧
      (NetworkResponse.bootstrapAncestry grant.invitation grant.ancestry).toJson.length ≤
        MAX_NETWORK_FRAME_BYTES := by
  unfold NetworkNode.validateBootstrapGrant
  split_ifs with hshape
  · simp only [Bool.or_eq_true, List.isEmpty_iff, decide_eq_true_eq, Bool.not_eq_true',
      List.any_eq_false] at hshape
    simp only [false_iff, not_and]
    rintro hne hlength ⟨event, hmem, heq⟩
    rcases hshape with (hnil | hlong) | hnone
    · exact absurd hnil hne
    · omega
    · exact absurd heq (hnone event hmem)
  · simp only [Bool.or_eq_true, List.isEmpty_iff, decide_eq_true_eq, Bool.not_eq_true',
      Bool.not_eq_false, not_or, not_lt, List.any_eq_true] at hshape
    rw [Fallible.unit_bind_eq_ok, and_iff_right hshape.1.1, and_iff_right hshape.1.2,
      and_iff_right hshape.2]
    refine and_congr_right fun _ => ?_
    dsimp only
    split_ifs with hsize
    · simp [hsize]
    · simpa using hsize

variable (hcore : network.sync.node.Sound C)
  (hcommunity : ∀ community, network.sync.node.community = some community →
    community = network.sync.community)
include hcore hcommunity

theorem validateGrantEvents_past {events : List SignedEvent}
    (h : ∀ event ∈ events, event.eventId ∈ network.sync.node.known ∧
      network.sync.node.store.rows[event.eventId]? = some event) :
    network.validateGrantEvents C events = .ok () := by
  induction events with
  | nil => rfl
  | cons event events ih =>
    obtain ⟨hknown, hrow⟩ := h event (by simp)
    obtain ⟨community, hsome, hbelongs⟩ := hcore.member hknown hrow
    obtain rfl := hcommunity community hsome
    rw [NetworkNode.validateGrantEvents, validateEvent_iff.mpr (hcore.rowValid hrow)]
    dsimp only
    rw [if_pos hbelongs, ih fun other hother => h other (List.mem_cons_of_mem event hother)]

theorem validateBootstrapGrant_past (hid : invitation ∈ network.sync.node.known) :
    network.validateBootstrapGrant C
        (network.sync.node.grantOf (invitation, capabilityPublicKey)) = .ok () ↔
      network.sync.node.Offerable invitation := by
  have hevents := validateGrantEvents_past hcore hcommunity
    (fun event he => hcore.pastEvents_row hid he)
  obtain ⟨event, hmem, heq⟩ := hcore.invitation_mem hid
  rw [validateBootstrapGrant_iff, CoreNode.Offerable, ← hcore.pastEvents_length hid]
  constructor
  · rintro ⟨_, hlength, _, _, hsize⟩
    exact ⟨hlength, hsize⟩
  · rintro ⟨hlength, hsize⟩
    exact ⟨List.ne_nil_of_mem hmem, hlength, ⟨event, hmem, heq⟩, hevents, hsize⟩

end Validation

section Refresh

theorem active_known (hcore : core.Sound C) (hstored : core.allEvents C = .ok stored)
    (hresolve : resolve C J stored = .ok resolution)
    (hactive : invitation ∈ resolution.snapshot.activeInvitations) : invitation ∈ core.known := by
  have hinj := unambiguous_stored hcore hstored
  have hvalid := stored_valid hcore hstored
  obtain ⟨k, hcollect, hk⟩ := candidates_spec (J := J) hvalid hinj
  obtain rfl := Except.ok.inj ((resolve_eq hcollect).symm.trans hresolve)
  obtain ⟨_, hinvites, _⟩ :=
    invites_of_active (hk.proper hvalid hinj) (collected_of_collect hcollect) hactive
  exact known_of_accepted hcore hstored hk hinvites.1

@[simp] theorem dropAuthorization_sync (peer : PeerId) :
    (network.dropAuthorization peer).sync = network.sync := rfl

@[simp] theorem replaceAuthorization_sync (users : BTreeSet UserId) (devices : BTreeSet DeviceId) :
    (network.replaceAuthorization users devices).sync = network.sync := by
  have hfold : ∀ (peers : List PeerId) (node : NetworkNode),
      (peers.foldl NetworkNode.dropAuthorization node).sync = node.sync := by
    intro peers
    induction peers with
    | nil => exact fun _ => rfl
    | cons peer peers ih =>
      intro node
      rw [List.foldl_cons, ih, dropAuthorization_sync]
  exact hfold _ _

theorem validateGrantEvents_congr {other : NetworkNode} (h : other.sync = network.sync)
    (events : List SignedEvent) :
    other.validateGrantEvents C events = network.validateGrantEvents C events := by
  induction events with
  | nil => rfl
  | cons event events ih =>
    rw [NetworkNode.validateGrantEvents, NetworkNode.validateGrantEvents, ih, h]

theorem validateBootstrapGrant_congr {other : NetworkNode} (h : other.sync = network.sync)
    (grant : BootstrapGrant) :
    other.validateBootstrapGrant C grant = network.validateBootstrapGrant C grant := by
  unfold NetworkNode.validateBootstrapGrant
  rw [validateGrantEvents_congr h]

theorem replaceBootstrapGrants_run (grants : List BootstrapGrant) :
    NetworkNode.replaceBootstrapGrants C grants network =
      match grants.forM (network.validateBootstrapGrant C) with
      | .error error => .error error network
      | .ok _ => .ok () { network with bootstrapGrants := NetworkNode.grantTable grants } := by
  change (match grants.forM (network.validateBootstrapGrant C) with
    | .error error => throw error
    | .ok _ => set _ : NetworkM Unit) network = _
  cases grants.forM (network.validateBootstrapGrant C) <;> rfl

theorem registerBootstrapGrant_run (grant : BootstrapGrant) :
    NetworkNode.registerBootstrapGrant C grant network =
      match network.validateBootstrapGrant C grant with
      | .error error => .error error network
      | .ok _ => .ok () { network with
          bootstrapGrants := network.bootstrapGrants.insert grant.invitation grant } := by
  change (match network.validateBootstrapGrant C grant with
    | .error error => throw error
    | .ok _ => set _ : NetworkM Unit) network = _
  cases network.validateBootstrapGrant C grant <;> rfl

theorem registerAll_ok_iff (grants : List BootstrapGrant) (network : NetworkNode) :
    (∃ after, grants.forM (NetworkNode.registerBootstrapGrant C) network = .ok () after) ↔
      ∀ grant ∈ grants, network.validateBootstrapGrant C grant = .ok () := by
  induction grants generalizing network with
  | nil => exact iff_of_true ⟨network, rfl⟩ (by simp)
  | cons grant grants ih =>
    rw [Stateful.forM_cons_run, registerBootstrapGrant_run, List.forall_mem_cons]
    cases hgrant : network.validateBootstrapGrant C grant with
    | error error => simp
    | ok u =>
      simp only [true_and]
      rw [ih]
      refine forall₂_congr fun other _ => ?_
      have hsame : NetworkNode.validateBootstrapGrant C { network with
          bootstrapGrants := network.bootstrapGrants.insert grant.invitation grant } other =
            network.validateBootstrapGrant C other := by
        apply validateBootstrapGrant_congr
        rfl
      rw [hsame]

/-- Either way of installing the grants of the active invitations succeeds when all of them keep
to the limits. -/
theorem offerable_iff (hcore : network.sync.node.Sound C)
    (hcommunity : ∀ community, network.sync.node.community = some community →
      community = network.sync.community)
    (hstored : network.sync.node.allEvents C = .ok stored)
    (hresolve : resolve C J stored = .ok resolution) :
    (∃ grants, collectGrants C network.sync.node resolution.snapshot.activeInvitations.toList =
        .ok grants ∧ ∀ grant ∈ grants, network.validateBootstrapGrant C grant = .ok ()) ↔
      ∀ invitation ∈ resolution.snapshot.activeInvitations,
        network.sync.node.Offerable invitation := by
  have hknown : ∀ row ∈ resolution.snapshot.activeInvitations.toList,
      row.1 ∈ network.sync.node.known := fun row hrow =>
    active_known hcore hstored hresolve (mem_iff.mpr ⟨row.2, mem_toList.mp hrow⟩)
  rw [hcore.collectGrants_eq hknown]
  constructor
  · rintro ⟨grants, hgrants, hvalid⟩ invitation hactive
    split_ifs at hgrants with hlengths
    obtain rfl := Except.ok.inj hgrants
    obtain ⟨key, hkey⟩ := mem_iff.mp hactive
    have hrow := mem_toList.mpr hkey
    exact (validateBootstrapGrant_past hcore hcommunity (hknown _ hrow)).mp
      (hvalid _ (List.mem_map_of_mem hrow))
  · intro hall
    have hoffer : ∀ row ∈ resolution.snapshot.activeInvitations.toList,
        network.sync.node.Offerable row.1 := fun row hrow =>
      hall row.1 (mem_iff.mpr ⟨row.2, mem_toList.mp hrow⟩)
    refine ⟨_, if_pos fun row hrow => (hoffer row hrow).1, fun grant hgrant => ?_⟩
    obtain ⟨row, hrow, rfl⟩ := List.mem_map.mp hgrant
    exact (validateBootstrapGrant_past hcore hcommunity (hknown row hrow)).mpr (hoffer row hrow)

theorem refresh_ok_iff (hcore : network.sync.node.Sound C)
    (hcommunity : ∀ community, network.sync.node.community = some community →
      community = network.sync.community)
    (hstored : network.sync.node.allEvents C = .ok stored)
    (hresolve : resolve C J stored = .ok resolution) (users : BTreeSet UserId)
    (localDevicePublicKey : Bytes 32) :
    (refreshNetworkAuthorization C J users .peer localDevicePublicKey network).2 = .ok () ↔
      ∀ invitation ∈ resolution.snapshot.activeInvitations,
        network.sync.node.Offerable invitation := by
  rw [← offerable_iff hcore hcommunity hstored hresolve]
  have hevents : network.sync.node.allEventsCli C = .ok stored := by
    rw [CoreNode.allEventsCli, hstored]
  have hresolved : resolveCli C J stored = .ok resolution := by rw [resolveCli, hresolve]
  have hrole : requireRole resolution.snapshot .peer localDevicePublicKey = .ok () := rfl
  unfold refreshNetworkAuthorization
  simp only [hevents, hresolved, hrole, bind, Except.bind]
  cases collectGrants C network.sync.node resolution.snapshot.activeInvitations.toList with
  | error error => simp
  | ok grants =>
    simp only [pure, Except.pure, Except.ok.injEq, exists_eq_left', replaceBootstrapGrants_run]
    rw [← Fallible.forM_eq_ok]
    have hsame : ∀ users devices,
        (network.replaceAuthorization users devices).validateBootstrapGrant C =
        network.validateBootstrapGrant C := fun users devices =>
      funext fun grant => validateBootstrapGrant_congr (replaceAuthorization_sync _ _) grant
    rw [hsame]
    cases grants.forM (network.validateBootstrapGrant C) <;> simp

theorem withStorageQuota_same {peer peer' : SyncPeer} {limit : ℕ}
    (h : peer.withStorageQuota limit = .ok peer') :
    peer'.node = peer.node ∧ peer'.community = peer.community := by
  unfold SyncPeer.withStorageQuota at h
  split_ifs at h
  split at h
  · cases h
  · split_ifs at h
    obtain rfl := Except.ok.inj h
    exact ⟨rfl, rfl⟩

def installGrants (C : Crypto) (rows : List (EventId × Bytes 32)) (network : NetworkNode) :
    Except CliError NetworkNode :=
  match collectGrants C network.sync.node rows with
  | .error error => .error error
  | .ok grants =>
    match grants.forM (NetworkNode.registerBootstrapGrant C) network with
    | .error error _ => .error (.network error)
    | .ok _ after => .ok after

theorem installGrants_ok_iff (hcore : network.sync.node.Sound C)
    (hcommunity : ∀ community, network.sync.node.community = some community →
      community = network.sync.community)
    (hstored : network.sync.node.allEvents C = .ok stored)
    (hresolve : resolve C J stored = .ok resolution) :
    (∃ after, installGrants C resolution.snapshot.activeInvitations.toList network = .ok after) ↔
      ∀ invitation ∈ resolution.snapshot.activeInvitations,
        network.sync.node.Offerable invitation := by
  rw [← offerable_iff hcore hcommunity hstored hresolve, installGrants]
  cases collectGrants C network.sync.node resolution.snapshot.activeInvitations.toList with
  | error error => simp
  | ok grants =>
    simp only [Except.ok.injEq, exists_eq_left']
    rw [← registerAll_ok_iff]
    cases grants.forM (NetworkNode.registerBootstrapGrant C) network <;> simp

def startingNode (C : Crypto) (device : DeviceIdentity) (certificate : DeviceCertificate)
    (sync : SyncPeer) (users : BTreeSet UserId) (snapshot : ChatSnapshot) : NetworkNode :=
  let allowedUsers := extendUsers users snapshot.members
  let node : NetworkNode :=
    { localPeer := device.peerId, sync, certificate, allowedUsers, revocations := {} }
  node.replaceAuthorization allowedUsers (trustedDevices C snapshot)

@[simp] theorem startingNode_sync {device : DeviceIdentity} {certificate : DeviceCertificate}
    {sync : SyncPeer} {users : BTreeSet UserId} {snapshot : ChatSnapshot} :
    (startingNode C device certificate sync users snapshot).sync = sync :=
  replaceAuthorization_sync _ _

theorem start_ok_iff {community : CommunityId} {device : DeviceIdentity}
    {certificate : DeviceCertificate} {maxStoreBytes : Option ℕ} (hcore : core.Sound C)
    (hcommunity : core.community = some community)
    (hstored : core.allEvents C = .ok stored) (hresolve : resolve C J stored = .ok resolution)
    (hquota : ∀ limit ∈ maxStoreBytes, ∃ peer,
      SyncPeer.withStorageQuota { node := core, community } limit = .ok peer)
    (hdevice : peerIdFromCertificate C P certificate = .ok device.peerId)
    (users : BTreeSet UserId) :
    (∃ network, startNetwork C J P core community users .peer maxStoreBytes device certificate =
        .ok network) ↔
      ∀ invitation ∈ resolution.snapshot.activeInvitations, core.Offerable invitation := by
  have hevents : core.allEventsCli C = .ok stored := by rw [CoreNode.allEventsCli, hstored]
  have hresolved : resolveCli C J stored = .ok resolution := by rw [resolveCli, hresolve]
  have hrole : requireRole resolution.snapshot .peer device.publicKey = .ok () := rfl
  have hnew : SyncPeer.new core community = .ok { node := core, community } := by
    simp [SyncPeer.new, hcommunity]
  have hnetwork : ∀ sync users, NetworkNode.new C P device certificate sync users {} = .ok
      { localPeer := device.peerId, sync, certificate, allowedUsers := users, revocations := {} } := by
    intro sync users
    simp [NetworkNode.new, hdevice]
  obtain ⟨sync, hstart, rfl, rfl⟩ : ∃ sync : SyncPeer,
      startNetwork C J P core community users .peer maxStoreBytes device certificate =
        (match collectGrants C core resolution.snapshot.activeInvitations.toList with
        | .error error => .error error
        | .ok grants =>
          match grants.forM (NetworkNode.registerBootstrapGrant C)
            (startingNode C device certificate sync users resolution.snapshot) with
          | .error error _ => .error (.network error)
          | .ok _ after => .ok after) ∧
      sync.node = core ∧ sync.community = community := by
    cases maxStoreBytes with
    | none =>
      refine ⟨{ node := core, community }, ?_, rfl, rfl⟩
      simp only [startNetwork, hevents, hresolved, hrole, hnew, hnetwork, bind, Except.bind,
        startNetwork.liftSync, startNetwork.liftNetwork, startingNode]
      cases collectGrants C core resolution.snapshot.activeInvitations.toList with
      | error error => rfl
      | ok grants =>
        dsimp only
        all_goals generalize grants.forM (NetworkNode.registerBootstrapGrant C) _ = result
        all_goals cases result <;> rfl
    | some limit =>
      obtain ⟨peer, hpeer⟩ := hquota limit rfl
      refine ⟨peer, ?_, withStorageQuota_same hpeer⟩
      simp only [startNetwork, hevents, hresolved, hrole, hnew, hnetwork, hpeer, bind, Except.bind,
        startNetwork.liftSync, startNetwork.liftNetwork, startingNode]
      cases collectGrants C core resolution.snapshot.activeInvitations.toList with
      | error error => rfl
      | ok grants =>
        dsimp only
        all_goals generalize grants.forM (NetworkNode.registerBootstrapGrant C) _ = result
        all_goals cases result <;> rfl
  rw [hstart]
  have hinstall : (∃ after, installGrants C resolution.snapshot.activeInvitations.toList
      (startingNode C device certificate sync users resolution.snapshot) = .ok after) ↔
      ∀ invitation ∈ resolution.snapshot.activeInvitations,
        (startingNode C device certificate sync users resolution.snapshot).sync.node.Offerable
          invitation :=
    installGrants_ok_iff hcore (fun c hc => Option.some.inj (hc.symm.trans hcommunity))
      hstored hresolve
  simpa only [startingNode_sync, installGrants] using hinstall

end Refresh

end ChatCommons
