import ChatCommons.Network.Moves
import ChatCommons.Sample.Host

/-!
The peers that a node holds authenticated have shown a certificate of an allowed user or of a
trusted device, and community data goes only to them.
-/

namespace ChatCommons

open Collections NetworkNode

variable {C : Crypto} {P : PeerNames} {T : Transport} {J : PayloadReader}
  {shown : PeerId → DeviceCertificate → Prop} {s s' : Session} {peer : PeerId}
  {device : AuthenticatedDevice} {input : Input}

/-- The peer shows a certificate with its request. -/
def Input.Presents (peer : PeerId) (certificate : DeviceCertificate) : Input → Prop
  | .swarm (.request sender (.authenticate offered) _ _) => sender = peer ∧ offered = certificate
  | .swarm (.request sender (.bootstrapBegin offered _) _ _) => sender = peer ∧ offered = certificate
  | _ => False

namespace Session

def Vetted (C : Crypto) (P : PeerNames) (shown : PeerId → DeviceCertificate → Prop) (s : Session)
    (peer : PeerId) (device : AuthenticatedDevice) : Prop :=
  ∃ certificate, shown peer certificate ∧ s.Vets C P peer certificate device

/-- Every device that the tables hold was vetted, and the authenticated ones are trusted. -/
structure Authorized (C : Crypto) (P : PeerNames) (shown : PeerId → DeviceCertificate → Prop)
    (s : Session) : Prop where
  entered : ∀ peer ∈ s.authenticated, ∃ device, s.authenticatedDevices[peer]? = some device
  vetted : ∀ {peer device}, s.authenticatedDevices[peer]? = some device →
    s.Vetted C P shown peer device
  trusted : ∀ {peer : PeerId} {device : AuthenticatedDevice},
    s.authenticatedDevices[peer]? = some device → s.Trusts device
  provisional : ∀ {peer device}, s.provisional[peer]? = some device → s.Vetted C P shown peer device
  challenged : ∀ {peer : PeerId} {pending : PendingChallenge},
    s.pendingChallenges[peer]? = some pending → s.Vetted C P shown peer pending.authenticated
  proved : ∀ {peer : PeerId} {proved : ProvedBootstrap},
    s.provedBootstraps[peer]? = some proved → s.Vetted C P shown peer proved.authenticated
  surfaced : ∀ {peer : PeerId} {pending : PendingAcceptance},
    s.pendingAcceptances[peer]? = some pending → s.Vetted C P shown peer pending.authenticated

theorem Authorized.mono {shown' : PeerId → DeviceCertificate → Prop}
    (h : s.Authorized C P shown)
    (hshown : ∀ peer certificate, shown peer certificate → shown' peer certificate) :
    s.Authorized C P shown' := by
  have hvetted : ∀ {peer device}, s.Vetted C P shown peer device → s.Vetted C P shown' peer device :=
    fun ⟨certificate, hpeer, hvets⟩ => ⟨certificate, hshown _ _ hpeer, hvets⟩
  exact ⟨h.entered, fun hd => hvetted (h.vetted hd), h.trusted, fun hd => hvetted (h.provisional hd),
    fun hd => hvetted (h.challenged hd), fun hd => hvetted (h.proved hd),
    fun hd => hvetted (h.surfaced hd)⟩

end Session

theorem insert_cases {α : Type} {m : BTreeMap PeerId α} {p : PeerId} {a b : α}
    (h : (m.insert p a)[peer]? = some b) : p = peer ∧ a = b ∨ m[peer]? = some b := by
  rw [getElem?_insert] at h
  split_ifs at h with hp
  · exact Or.inl ⟨hp, Option.some.inj h⟩
  · exact Or.inr h

theorem of_erase {α : Type} {m : BTreeMap PeerId α} {p : PeerId} {b : α}
    (h : (m.erase p)[peer]? = some b) : m[peer]? = some b := by
  rw [getElem?_erase] at h
  split_ifs at h
  exact h

namespace Session.Authorized

variable (h : s.Authorized C P shown)
include h

theorem enter (hvetted : s.Vetted C P shown peer device) (htrusts : s.Trusts device) :
    (s.enter peer device).Authorized C P shown := by
  refine ⟨fun p hp => ?_, fun hd => ?_, fun hd => ?_, h.provisional, h.challenged, h.proved,
    h.surfaced⟩
  · rcases mem_insert.mp hp with rfl | hp
    · exact ⟨device, by simp [Session.enter]⟩
    · obtain ⟨found, hfound⟩ := h.entered p hp
      by_cases heq : peer = p
      · exact ⟨device, by simp [Session.enter, heq]⟩
      · exact ⟨found, by simpa [Session.enter, heq] using hfound⟩
  · obtain ⟨rfl, rfl⟩ | hd := insert_cases hd
    · exact hvetted
    · exact h.vetted hd
  · obtain ⟨rfl, rfl⟩ | hd := insert_cases hd
    · exact htrusts
    · exact h.trusted hd

theorem close : (s.close peer).Authorized C P shown := by
  refine ⟨fun p hp => ?_, fun hd => h.vetted (of_erase hd), fun hd => h.trusted (of_erase hd),
    fun hd => h.provisional (of_erase hd), fun hd => h.challenged (of_erase hd),
    fun hd => h.proved (of_erase hd), fun hd => h.surfaced (of_erase hd)⟩
  obtain ⟨hne, hp⟩ := mem_erase.mp hp
  obtain ⟨found, hfound⟩ := h.entered p hp
  exact ⟨found, by rw [Session.close, getElem?_erase, if_neg (Ne.symm hne), hfound]⟩

theorem allow (user : UserId) :
    { s with allowedUsers := s.allowedUsers.insert user }.Authorized C P shown :=
  ⟨h.entered, h.vetted, fun hd => (h.trusted hd).imp_left fun hu => mem_insert.mpr (Or.inr hu),
    h.provisional, h.challenged, h.proved, h.surfaced⟩

theorem change (hshown : ∀ peer certificate, input.Presents peer certificate → shown peer certificate)
    (hchange : Change C P s input s') : s'.Authorized C P shown := by
  cases hchange with
  | none _ => exact h
  | full hvets htrusts => exact h.enter ⟨_, hshown _ _ ⟨rfl, rfl⟩, hvets⟩ htrusts
  | provisional hvets =>
    refine ⟨h.entered, h.vetted, h.trusted, fun hd => ?_, h.challenged, h.proved, h.surfaced⟩
    obtain ⟨rfl, rfl⟩ | hd := insert_cases hd
    · exact ⟨_, hshown _ _ ⟨rfl, rfl⟩, hvets⟩
    · exact h.provisional hd
  | @joined peer device hprovisional =>
    have hallowed := h.allow device.userId
    have hbase : { s with
        provisional := s.provisional.erase peer
        allowedUsers := s.allowedUsers.insert device.userId }.Authorized C P shown :=
      ⟨h.entered, h.vetted, hallowed.trusted, fun hd => h.provisional (of_erase hd), h.challenged,
        h.proved, h.surfaced⟩
    exact hbase.enter (h.provisional hprovisional) (Or.inl (mem_insert.mpr (Or.inl rfl)))
  | closed => exact h.close
  | refused =>
    exact ⟨h.entered, h.vetted, h.trusted, h.provisional, fun hd => h.challenged (of_erase hd),
      h.proved, h.surfaced⟩
  | unproved =>
    exact ⟨h.entered, h.vetted, h.trusted, h.provisional, h.challenged,
      fun hd => h.proved (of_erase hd), h.surfaced⟩
  | @approved peer pending hpending =>
    have hallowed := h.allow pending.authenticated.userId
    have hbase : { s with
        pendingAcceptances := s.pendingAcceptances.erase peer
        bootstrapGrants := s.bootstrapGrants.erase pending.invitation
        allowedUsers := s.allowedUsers.insert pending.authenticated.userId }.Authorized C P shown :=
      ⟨h.entered, h.vetted, hallowed.trusted, h.provisional, h.challenged, h.proved,
        fun hd => h.surfaced (of_erase hd)⟩
    exact hbase.enter (h.surfaced hpending) (Or.inl (mem_insert.mpr (Or.inl rfl)))
  | declined =>
    exact ⟨h.entered, h.vetted, h.trusted, h.provisional, h.challenged, h.proved,
      fun hd => h.surfaced (of_erase hd)⟩
  | replaced hpeers hdevices =>
    refine ⟨fun p hp => ?_, fun hd => h.vetted ((hdevices _ _).mp hd).1,
      fun hd => ((hdevices _ _).mp hd).2, h.provisional, h.challenged, h.proved, h.surfaced⟩
    obtain ⟨hp, htrusts⟩ := (hpeers p).mp hp
    obtain ⟨found, hfound⟩ := h.entered p hp
    exact ⟨found, (hdevices p found).mpr ⟨hfound, htrusts found hfound⟩⟩
  | granted _ =>
    exact ⟨h.entered, h.vetted, h.trusted, h.provisional, h.challenged, h.proved, h.surfaced⟩
  | targeted _ =>
    exact ⟨h.entered, h.vetted, h.trusted, h.provisional, h.challenged, h.proved, h.surfaced⟩

theorem move {sent : List SwarmCommand} {event : Option NetworkEvent}
    (hshown : ∀ peer certificate, input.Presents peer certificate → shown peer certificate)
    (hmove : Move C P s input sent event s') : s'.Authorized C P shown := by
  cases hmove with
  | change hchange _ _ => exact h.change hshown hchange
  | exchanged _ _ _ _ => exact h
  | challenged hvets _ =>
    refine ⟨h.entered, h.vetted, h.trusted, h.provisional, fun hd => ?_, h.proved, h.surfaced⟩
    obtain ⟨rfl, rfl⟩ | hd := insert_cases hd
    · exact ⟨_, hshown _ _ ⟨rfl, rfl⟩, hvets⟩
    · exact h.challenged hd
  | proved hpending _ _ _ _ _ =>
    refine ⟨h.entered, h.vetted, h.trusted, h.provisional, fun hd => h.challenged (of_erase hd),
      fun hd => ?_, h.surfaced⟩
    obtain ⟨rfl, rfl⟩ | hd := insert_cases hd
    · exact h.challenged hpending
    · exact h.proved hd
  | surfaced hproved _ _ _ =>
    refine ⟨h.entered, h.vetted, h.trusted, h.provisional, h.challenged,
      fun hd => h.proved (of_erase hd), fun hd => ?_⟩
    obtain ⟨rfl, rfl⟩ | hd := insert_cases hd
    · exact h.proved hproved
    · exact h.surfaced hd

end Session.Authorized

section Sending

variable {sent : List SwarmCommand} {event : Option NetworkEvent} {message : SyncMessage}
  {channel : ResponseChannel} {messages : List SyncMessage}

theorem Move.request_sent (hmove : Move C P s input sent event s')
    (hsent : .sendRequest peer (.sync message) ∈ sent) (hdata : message.IsData) :
    peer ∈ s.authenticated ∧ peer ∈ s'.authenticated := by
  cases hmove with
  | change _ hplain _ => exact absurd hdata (hplain _ hsent)
  | exchanged _ hpeer hexchanges _ =>
    obtain rfl := hexchanges _ hsent
    exact ⟨hpeer, hpeer⟩
  | challenged _ _ => simp at hsent
  | proved _ _ _ _ hall _ => cases hall _ hsent
  | surfaced _ _ _ _ => simp at hsent

theorem Move.response_sent (hmove : Move C P s input sent event s')
    (hsent : .sendResponse channel (.sync messages) ∈ sent) :
    ∃ peer asked nonce, input = .swarm (.request peer (.sync asked) channel nonce) ∧
      peer ∈ s.authenticated ∧ peer ∈ s'.authenticated := by
  cases hmove with
  | change _ hplain _ => exact (hplain _ hsent).elim
  | exchanged _ hpeer hexchanges _ =>
    obtain ⟨asked, nonce, hinput⟩ := hexchanges _ hsent
    exact ⟨_, asked, nonce, hinput, hpeer, hpeer⟩
  | challenged _ _ => simp at hsent
  | proved _ _ _ _ hall _ => cases hall _ hsent
  | surfaced _ _ _ _ => simp at hsent

end Sending

section Runs

variable {start node : NetworkNode} {turns : List Turn} {certificate : DeviceCertificate}
  {own : DeviceIdentity} {sync : SyncPeer} {users : BTreeSet UserId} {revocations : RevocationSet}

theorem newNode_eq (h : NetworkNode.new C P own certificate sync users revocations = .ok start) :
    start = { localPeer := own.peerId, sync, certificate, allowedUsers := users, revocations } := by
  unfold NetworkNode.new at h
  split at h
  · cases h
  · split_ifs at h
    exact (Except.ok.inj h).symm

theorem newNode_authorized
    (h : NetworkNode.new C P own certificate sync users revocations = .ok start) :
    start.session.Authorized C P shown := by
  rw [newNode_eq h]
  constructor <;> simp [NetworkNode.session]

theorem Run.authorized (hrun : Run C P T start turns node)
    (hstart : start.session.Authorized C P fun _ _ => False) :
    node.session.Authorized C P fun peer certificate =>
      ∃ turn ∈ turns, turn.input.Presents peer certificate := by
  induction hrun with
  | nil => exact hstart.mono fun _ _ => False.elim
  | @snoc turns node hrun input ih =>
    have hbefore : node.session.Authorized C P fun peer certificate =>
        ∃ turn ∈ turns ++ [node.turn C P T input], turn.input.Presents peer certificate :=
      ih.mono fun peer certificate ⟨turn, hturn, hpresents⟩ =>
        ⟨turn, List.mem_append_left _ hturn, hpresents⟩
    exact hbefore.move (fun peer certificate hpresents =>
      ⟨node.turn C P T input, by simp, hpresents⟩) (turn_moves node input)

theorem Run.entry (hrun : Run C P T start turns node)
    (hstart : start.session.Authorized C P fun _ _ => False) (hpeer : peer ∈ node.authenticated) :
    ∃ device, node.authenticatedDevices[peer]? = some device ∧
      (∃ turn ∈ turns, ∃ shown, turn.input.Presents peer shown ∧
        validateDeviceCertificate C shown = .ok device ∧
        peerIdFromCertificate C P shown = .ok peer) ∧
      node.revocations.contains device.userId device.deviceId = false ∧
      (device.userId ∈ node.allowedUsers ∨
        device.deviceId ∈ node.trustedInfrastructureDevices) := by
  have h := hrun.authorized hstart
  obtain ⟨device, hdevice⟩ := h.entered peer hpeer
  obtain ⟨shown, ⟨turn, hturn, hpresents⟩, hvalid, hname, hrevoked⟩ := h.vetted hdevice
  exact ⟨device, hdevice, ⟨turn, hturn, shown, hpresents, hvalid, hname⟩, hrevoked,
    h.trusted hdevice⟩

theorem replaceAuthorization_sets (node : NetworkNode) (users : BTreeSet UserId)
    (devices : BTreeSet DeviceId) :
    (node.replaceAuthorization users devices).allowedUsers = users ∧
      (node.replaceAuthorization users devices).trustedInfrastructureDevices = devices := by
  obtain ⟨hsession, _⟩ := foldl_dropAuthorization
    ((node.authenticatedDevices.toList.filter fun row => !isTrusted { node with
      allowedUsers := users, trustedInfrastructureDevices := devices } row.2).map Prod.fst)
    { node with allowedUsers := users, trustedInfrastructureDevices := devices }
  exact ⟨congrArg Session.allowedUsers hsession,
    congrArg Session.trustedInfrastructureDevices hsession⟩

section Lifting

variable {α : Type}

theorem liftSync_eq_ok {result : Except SyncError α} {value : α} :
    startNetwork.liftSync result = .ok value ↔ result = .ok value := by
  cases result <;> simp [startNetwork.liftSync]

theorem liftNetwork_eq_ok {result : Except NetworkError α} {value : α} :
    startNetwork.liftNetwork result = .ok value ↔ result = .ok value := by
  cases result <;> simp [startNetwork.liftNetwork]

theorem allEventsCli_eq_ok {core : CoreNode} {events : List SignedEvent} :
    core.allEventsCli C = .ok events ↔ core.allEvents C = .ok events := by
  rw [CoreNode.allEventsCli]
  cases core.allEvents C <;> simp

theorem resolveCli_eq_ok {events : List SignedEvent} {resolution : ChatResolution} :
    resolveCli C J events = .ok resolution ↔ resolve C J events = .ok resolution := by
  rw [resolveCli]
  cases resolve C J events <;> simp

end Lifting

/-- A refresh is two calls: of the authorization and of the grants. -/
theorem refresh_turns {users : BTreeSet UserId} {role : NetworkRole} {publicKey : Bytes 32}
    {refreshed : NetworkNode} (T : Transport)
    (h : refreshNetworkAuthorization C J users role publicKey node = (refreshed, .ok ())) :
    ∃ stored resolution, node.sync.node.allEvents C = .ok stored ∧
      resolve C J stored = .ok resolution ∧
      refreshed.allowedUsers = extendUsers users resolution.snapshot.members ∧
      refreshed.trustedInfrastructureDevices = trustedDevices C resolution.snapshot ∧
      (Run C P T start turns node → ∃ calls, (∀ turn ∈ calls, ∃ call, turn.input = .call call) ∧
        Run C P T start (turns ++ calls) refreshed) := by
  unfold refreshNetworkAuthorization at h
  dsimp only at h
  split at h
  · cases h
  · rename_i snapshot grants hplan
    obtain ⟨stored, hstored, hplan⟩ := Fallible.bind_eq_ok.mp hplan
    obtain ⟨resolution, hresolve, hplan⟩ := Fallible.bind_eq_ok.mp hplan
    obtain ⟨_, _, hplan⟩ := Fallible.bind_eq_ok.mp hplan
    obtain ⟨_, _, hplan⟩ := Fallible.bind_eq_ok.mp hplan
    cases hplan
    have hevents := allEventsCli_eq_ok.mp hstored
    have hresolved := resolveCli_eq_ok.mp hresolve
    obtain ⟨husers, hdevices⟩ := replaceAuthorization_sets node
      (extendUsers users resolution.snapshot.members) (trustedDevices C resolution.snapshot)
    obtain ⟨replaced, hreplaced⟩ : ∃ replaced, replaced = node.replaceAuthorization
      (extendUsers users resolution.snapshot.members) (trustedDevices C resolution.snapshot) :=
      ⟨_, rfl⟩
    rw [← hreplaced] at h husers hdevices
    split at h
    · cases h
    · rename_i hgrants
      obtain rfl := (Prod.mk.inj h).1
      have hfirst : ∀ input, (node.turn C P T (.call (.replaceAuthorization
          (extendUsers users resolution.snapshot.members)
          (trustedDevices C resolution.snapshot)))).next.turn C P T input =
            replaced.turn C P T input := fun input => by rw [hreplaced]; rfl
      have hsecond : ∀ grants later, replaceBootstrapGrants C grants replaced = .ok () later →
          (replaced.turn C P T (.call (.replaceBootstrapGrants grants))).next = later := by
        intro grants later hlater
        change Turn.next ⟨replaced, _, (replaceBootstrapGrants C grants >>= fun _ => pure none)
          replaced⟩ = later
        rw [Turn.next, Stateful.bind_run, hlater]
        rfl
      refine ⟨stored, resolution, hevents, hresolved, ?_, ?_, fun hrun => ?_⟩
      · rw [replaceBootstrapGrants_run] at hgrants
        split at hgrants
        · cases hgrants
        · cases hgrants
          exact husers
      · rw [replaceBootstrapGrants_run] at hgrants
        split at hgrants
        · cases hgrants
        · cases hgrants
          exact hdevices
      · have hlast := (hrun.snoc (.call (.replaceAuthorization
          (extendUsers users resolution.snapshot.members)
          (trustedDevices C resolution.snapshot)))).snoc (.call (.replaceBootstrapGrants grants))
        rw [hfirst, hsecond _ _ hgrants, List.append_assoc] at hlast
        refine ⟨_, fun turn hturn => ?_, hlast⟩
        simp only [List.singleton_append, List.mem_cons, List.not_mem_nil, or_false] at hturn
        rcases hturn with rfl | rfl
        · exact ⟨_, rfl⟩
        · exact ⟨_, rfl⟩

/-- Whoever is authenticated has shown a certificate for its own name; the certificate names an
allowed user or a trusted device, and it is not revoked. Community data is sent to nobody
else. A refresh leaves only listed users, members and the home server. -/
theorem authenticated_authorized
    (hnew : NetworkNode.new C P own certificate sync users revocations = .ok start)
    (hrun : Run C P T start turns node) :
    (∀ peer ∈ node.authenticated, ∃ device, node.authenticatedDevices[peer]? = some device ∧
      (∃ turn ∈ turns, ∃ shown, turn.input.Presents peer shown ∧
        validateDeviceCertificate C shown = .ok device ∧
        peerIdFromCertificate C P shown = .ok peer) ∧
      node.revocations.contains device.userId device.deviceId = false ∧
      (device.userId ∈ node.allowedUsers ∨
        device.deviceId ∈ node.trustedInfrastructureDevices)) ∧
    (∀ turn ∈ turns,
      (∀ peer message, .sendRequest peer (.sync message) ∈ turn.sent → message.IsData →
        peer ∈ turn.node.authenticated ∧ peer ∈ turn.next.authenticated) ∧
      ∀ channel messages, .sendResponse channel (.sync messages) ∈ turn.sent →
        ∃ peer asked nonce, turn.input = .swarm (.request peer (.sync asked) channel nonce) ∧
          peer ∈ turn.node.authenticated ∧ peer ∈ turn.next.authenticated) ∧
    ∀ explicitAllowedUsers role localDevicePublicKey refreshed,
      refreshNetworkAuthorization C J explicitAllowedUsers role localDevicePublicKey node =
        (refreshed, .ok ()) →
      ∃ stored resolution, node.sync.node.allEvents C = .ok stored ∧
        resolve C J stored = .ok resolution ∧
        ∀ peer ∈ refreshed.authenticated, ∃ device,
          refreshed.authenticatedDevices[peer]? = some device ∧
          (∃ turn ∈ turns, ∃ shown, turn.input.Presents peer shown ∧
            validateDeviceCertificate C shown = .ok device ∧
            peerIdFromCertificate C P shown = .ok peer) ∧
          refreshed.revocations.contains device.userId device.deviceId = false ∧
          (device.userId ∈ explicitAllowedUsers ∨ device.userId ∈ resolution.snapshot.members ∨
            ∃ binding ∈ resolution.snapshot.homeServer,
              device.deviceId = DeviceId.fromPublicKey C binding.serverPublicKey) := by
  have hstart : start.session.Authorized C P fun _ _ => False := newNode_authorized hnew
  refine ⟨fun peer hpeer => hrun.entry hstart hpeer, fun turn hturn => ⟨?_, ?_⟩, ?_⟩
  · exact fun peer message hsent hdata => (hrun.moves hturn).request_sent hsent hdata
  · exact fun channel messages hsent => (hrun.moves hturn).response_sent hsent
  · intro explicitAllowedUsers role localDevicePublicKey refreshed hrefresh
    obtain ⟨stored, resolution, hstored, hresolve, husers, hdevices, hturns⟩ :=
      refresh_turns T hrefresh
    obtain ⟨calls, hcalls, hlater⟩ := hturns hrun
    refine ⟨stored, resolution, hstored, hresolve, fun peer hpeer => ?_⟩
    obtain ⟨device, hdevice, ⟨turn, hturn, shown, hpresents, hvalid⟩, hrevoked, htrusted⟩ :=
      hlater.entry hstart hpeer
    refine ⟨device, hdevice, ?_, hrevoked, ?_⟩
    · rcases List.mem_append.mp hturn with hturn | hturn
      · exact ⟨turn, hturn, shown, hpresents, hvalid⟩
      · obtain ⟨call, hcall⟩ := hcalls turn hturn
        rw [hcall] at hpresents
        exact hpresents.elim
    · rw [husers, hdevices, extendUsers, mem_foldl_insert, trustedDevices, mem_setOf] at htrusted
      simp only [Std.ExtTreeSet.mem_toList, List.mem_map, Option.mem_toList] at htrusted
      rcases htrusted with (hmember | hlisted) | ⟨binding, hbinding, hdevice⟩
      · exact Or.inr (Or.inl hmember)
      · exact Or.inl hlisted
      · exact Or.inr (Or.inr ⟨binding, hbinding, hdevice.symm⟩)

end Runs

open Sample in
theorem authenticated_authorized_host :
    guestPeer ∈ (host.turn crypto names reliable guestAuthenticates).next.authenticated ∧
      ∃ device, (host.turn crypto names reliable
        guestAuthenticates).next.authenticatedDevices[guestPeer]? = some device ∧
        (device.userId ∈
            (host.turn crypto names reliable guestAuthenticates).next.allowedUsers ∨
          device.deviceId ∈ (host.turn crypto names reliable
            guestAuthenticates).next.trustedInfrastructureDevices) := by
  have hpeer : guestPeer ∈
      (host.turn crypto names reliable guestAuthenticates).next.authenticated := by
    decide
  obtain ⟨hentry, _⟩ := authenticated_authorized (J := clubReader) host_new
    (Run.snoc (T := reliable) .nil guestAuthenticates)
  obtain ⟨device, hdevice, _, _, htrusted⟩ := hentry guestPeer hpeer
  exact ⟨hpeer, device, hdevice, htrusted⟩

end ChatCommons
