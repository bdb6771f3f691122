import ChatCommons.Network.Authorization

/-!
What becomes of a device that its user has revoked: no node that was told so lets it in.
-/

namespace ChatCommons

open Collections NetworkNode

variable {C : Crypto} {P : PeerNames} {T : Transport} {peer : PeerId}
  {device : AuthenticatedDevice} {s s' : Session} {input : Input}

/-- `apply` one after the other; a revocation that is not valid changes nothing. -/
def RevocationSet.applyAll (C : Crypto) (revocations : RevocationSet)
    (offered : List DeviceRevocation) : RevocationSet :=
  offered.foldl (fun set revocation =>
    match set.apply C revocation with
    | .ok later => later
    | .error _ => set) revocations

/-- One of the revocations is for the device, signed by the key that the user is named after. -/
def Revoked (C : Crypto) (offered : List DeviceRevocation) (device : AuthenticatedDevice) : Prop :=
  ∃ revocation ∈ offered, validateDeviceRevocation C revocation = .ok device.userId ∧
    revocation.deviceId = device.deviceId

section Sets

variable {revocations : RevocationSet} {offered : List DeviceRevocation}

theorem apply_eq (revocations : RevocationSet) (revocation : DeviceRevocation) :
    revocations.apply C revocation = (validateDeviceRevocation C revocation).map fun userId =>
      ⟨revocations.entries.insert (toLex (userId, revocation.deviceId))⟩ := by
  rw [RevocationSet.apply]
  cases validateDeviceRevocation C revocation <;> rfl

theorem contains_applyAll : (revocations.applyAll C offered).contains device.userId device.deviceId =
    true ↔ revocations.contains device.userId device.deviceId = true ∨ Revoked C offered device := by
  induction offered generalizing revocations with
  | nil => simp [RevocationSet.applyAll, Revoked]
  | cons revocation offered ih =>
    have hcons : revocations.applyAll C (revocation :: offered) =
        (match revocations.apply C revocation with
          | .ok later => later
          | .error _ => revocations).applyAll C offered := rfl
    rw [hcons, ih, apply_eq]
    simp only [Revoked, List.mem_cons, exists_eq_or_imp]
    cases hvalid : validateDeviceRevocation C revocation with
    | error error => simp [Except.map]
    | ok userId =>
      simp only [Except.map, RevocationSet.contains, mem_insert, decide_eq_true_eq, Except.ok.injEq,
        EmbeddingLike.apply_eq_iff_eq, Prod.mk.injEq]
      tauto

theorem revocation_created (hsign : C.SignsCorrectly) (identity : Identity) (deviceId : DeviceId)
    (issuedAtMs : Int64) :
    validateDeviceRevocation C (createDeviceRevocation C identity deviceId issuedAtMs) =
      .ok (identity.userId C) := by
  have hverify := verify_sign hsign identity (revocationBytes
    { version := DEVICE_AUTH_VERSION
      userPublicKey := (identity.publicKey C).toList
      deviceId
      issuedAtMs
      signature := [] })
  have hbytes : revocationBytes (createDeviceRevocation C identity deviceId issuedAtMs) =
      revocationBytes
        { version := DEVICE_AUTH_VERSION
          userPublicKey := (identity.publicKey C).toList
          deviceId
          issuedAtMs
          signature := [] } := rfl
  have hlengths : validateVersionAndLengths
      (createDeviceRevocation C identity deviceId issuedAtMs).version
      (createDeviceRevocation C identity deviceId issuedAtMs).userPublicKey none
      (createDeviceRevocation C identity deviceId issuedAtMs).signature = .ok () := by
    simp [validateVersionAndLengths, createDeviceRevocation, PUBLIC_KEY_LEN, SIGNATURE_LEN,
      (identity.publicKey C).length_eq, (identity.sign C _).length_eq]
  have hsigned : verify C (createDeviceRevocation C identity deviceId issuedAtMs).userPublicKey
      (revocationBytes (createDeviceRevocation C identity deviceId issuedAtMs))
      (createDeviceRevocation C identity deviceId issuedAtMs).signature = .ok () := by
    rw [hbytes]
    exact hverify
  have hkey : Bytes.ofList? 32 (createDeviceRevocation C identity deviceId issuedAtMs).userPublicKey =
      some (identity.publicKey C) := by simp [createDeviceRevocation]
  simp only [validateDeviceRevocation, hlengths, hsigned, hkey, bind, Except.bind]
  rfl

end Sets

section Sessions

theorem Move.revocations {sent : List SwarmCommand} {event : Option NetworkEvent}
    (h : Move C P s input sent event s') : s'.revocations = s.revocations := by
  cases h with
  | exchanged _ _ _ _ | challenged _ _ | proved _ _ _ _ _ _ | surfaced _ _ _ _ => rfl
  | change hchange _ _ =>
    cases hchange with
    | none _ | full _ _ | provisional _ | joined _ | closed | refused | unproved | approved _
    | declined | replaced _ _ | granted _ | targeted _ => rfl

/-- No table of the sessions has a place for the peer. -/
structure Session.Excludes (s : Session) (peer : PeerId) : Prop where
  authenticated : peer ∉ s.authenticated
  authenticatedDevices : peer ∉ s.authenticatedDevices
  provisional : peer ∉ s.provisional
  pendingChallenges : peer ∉ s.pendingChallenges
  provedBootstraps : peer ∉ s.provedBootstraps
  pendingAcceptances : peer ∉ s.pendingAcceptances

theorem Session.Authorized.excludes {shown : PeerId → DeviceCertificate → Prop}
    (h : s.Authorized C P shown)
    (hshown : ∀ certificate, shown peer certificate → ∀ device,
      validateDeviceCertificate C certificate = .ok device →
        s.revocations.contains device.userId device.deviceId = true) : s.Excludes peer := by
  have hnot : ∀ device, ¬ s.Vetted C P shown peer device := by
    rintro device ⟨certificate, hpeer, hvalid, _, hrevoked⟩
    rw [hshown certificate hpeer device hvalid] at hrevoked
    cases hrevoked
  refine ⟨fun hpeer => ?_, fun hpeer => ?_, fun hpeer => ?_, fun hpeer => ?_, fun hpeer => ?_,
    fun hpeer => ?_⟩
  · obtain ⟨device, hdevice⟩ := h.entered peer hpeer
    exact hnot device (h.vetted hdevice)
  · obtain ⟨device, hdevice⟩ := mem_iff.mp hpeer
    exact hnot device (h.vetted hdevice)
  · obtain ⟨device, hdevice⟩ := mem_iff.mp hpeer
    exact hnot device (h.provisional hdevice)
  · obtain ⟨pending, hpending⟩ := mem_iff.mp hpeer
    exact hnot pending.authenticated (h.challenged hpending)
  · obtain ⟨proved, hproved⟩ := mem_iff.mp hpeer
    exact hnot proved.authenticated (h.proved hproved)
  · obtain ⟨pending, hpending⟩ := mem_iff.mp hpeer
    exact hnot pending.authenticated (h.surfaced hpending)

/-- Whoever is excluded before and after its request is sent no more than a plain answer. -/
theorem Move.plain {sent : List SwarmCommand} {event : Option NetworkEvent}
    {request : NetworkRequest} {channel : ResponseChannel} {nonce : Bytes BOOTSTRAP_NONCE_BYTES}
    (h : Move C P s (.swarm (.request peer request channel nonce)) sent event s')
    (hbefore : s.Excludes peer) (hafter : s'.Excludes peer) : ∀ command ∈ sent, command.Plain := by
  cases h with
  | change _ hplain _ => exact hplain
  | exchanged hinput hpeer _ _ =>
    cases request with
    | sync message =>
      obtain rfl := hinput
      exact absurd hpeer hbefore.authenticated
    | authenticate _ | bootstrapBegin _ _ | bootstrapProve _ _ | bootstrapAccept _ _ =>
      exact hinput.elim
  | challenged _ _ => exact absurd (by simp) hafter.pendingChallenges
  | proved hpending _ _ _ _ _ =>
    exact absurd (mem_of_getElem? hpending) hbefore.pendingChallenges
  | surfaced hproved _ _ _ => exact absurd (mem_of_getElem? hproved) hbefore.provedBootstraps

end Sessions

section Runs

variable {own : DeviceIdentity} {certificate : DeviceCertificate} {sync : SyncPeer}
  {users : BTreeSet UserId} {offered : List DeviceRevocation} {start node : NetworkNode}
  {turns : List Turn}

theorem Run.revocations (hrun : Run C P T start turns node) :
    node.revocations = start.revocations := by
  induction hrun with
  | nil => rfl
  | @snoc turns node _ input ih =>
    have hsame : (node.turn C P T input).next.session.revocations = node.session.revocations :=
      (turn_moves node input).revocations
    exact hsame.trans ih

/-- A node that was given revocations, in whatever order and among whatever others, never lets in
a peer that has shown certificates of revoked devices only: no table of its sessions has a place
for it, no community data goes to it, and its requests are given plain answers. -/
theorem revoked_shut_out
    (hnew : NetworkNode.new C P own certificate sync users (RevocationSet.applyAll C {} offered) =
      .ok start)
    (hrun : Run C P T start turns node)
    (hrevoked : ∀ turn ∈ turns, ∀ shown, turn.input.Presents peer shown → ∀ device,
      validateDeviceCertificate C shown = .ok device → Revoked C offered device) :
    node.session.Excludes peer ∧
      ∀ turn ∈ turns, turn.node.session.Excludes peer ∧
        (∀ message, .sendRequest peer (.sync message) ∈ turn.sent → ¬ message.IsData) ∧
        ∀ request channel nonce, turn.input = .swarm (.request peer request channel nonce) →
          ∀ command ∈ turn.sent, command.Plain := by
  have hexcluded : ∀ {before : List Turn} {later : NetworkNode}, Run C P T start before later →
      (∀ turn ∈ before, turn ∈ turns) → later.session.Excludes peer := by
    intro before later hbefore hsub
    apply (hbefore.authorized (newNode_authorized hnew)).excludes
    rintro shown ⟨turn, hturn, hpresents⟩ device hvalid
    have hset : later.session.revocations = RevocationSet.applyAll C {} offered := by
      change later.revocations = _
      rw [hbefore.revocations, newNode_eq hnew]
    rw [hset]
    exact contains_applyAll.mpr (Or.inr (hrevoked turn (hsub turn hturn) shown hpresents device hvalid))
  refine ⟨hexcluded hrun fun _ => id, fun turn hturn => ?_⟩
  obtain ⟨before, after, hsplit⟩ := List.append_of_mem hturn
  obtain ⟨hbefore, hat⟩ := hrun.split hsplit
  have hfirst : turn.node.session.Excludes peer := by
    apply hexcluded hbefore
    intro other hother
    rw [hsplit]
    exact List.mem_append_left _ hother
  have hmove := hrun.moves hturn
  refine ⟨hfirst, fun message hsent hdata => ?_, fun request channel nonce hinput => ?_⟩
  · exact hfirst.authenticated (hmove.request_sent hsent hdata).1
  · have hlast : turn.next.session.Excludes peer := by
      have hnext := hbefore.snoc turn.input
      rw [← hat] at hnext
      apply hexcluded hnext
      intro other hother
      rw [hsplit]
      rcases List.mem_append.mp hother with hother | hother
      · exact List.mem_append_left _ hother
      · rw [List.mem_singleton.mp hother]
        simp
    rw [hinput] at hmove
    exact hmove.plain hfirst hlast

end Runs

section Example

open Sample

def lostDevice : DeviceId := DeviceId.fromPublicKey crypto (deviceOf 12).publicKey

def lost : List DeviceRevocation := [createDeviceRevocation crypto (identity 2) lostDevice 5]

def warnedHost : NetworkNode := { host with revocations := RevocationSet.applyAll crypto {} lost }

theorem warnedHost_new : NetworkNode.new crypto names (deviceOf 11) (certificateOf 1) hostSync
    (setOf [user 2]) (RevocationSet.applyAll crypto {} lost) = .ok warnedHost := by
  simp only [NetworkNode.new, certificate_named.1, ne_eq, not_true_eq_false, if_false]
  rfl

theorem lost_certificate : validateDeviceCertificate crypto (certificateOf 2) =
    .ok ⟨user 2, lostDevice⟩ := by decide +kernel

theorem revoked_shut_out_lost :
    (warnedHost.turn crypto names reliable guestAuthenticates).next.session.Excludes guestPeer := by
  have hrun : Run crypto names reliable warnedHost
      [warnedHost.turn crypto names reliable guestAuthenticates]
      (warnedHost.turn crypto names reliable guestAuthenticates).next := .snoc .nil guestAuthenticates
  apply (revoked_shut_out warnedHost_new hrun ?_).1
  intro turn hturn shown hpresents device hvalid
  obtain rfl := List.mem_singleton.mp hturn
  obtain ⟨_, rfl⟩ := hpresents
  obtain rfl := Except.ok.inj (lost_certificate.symm.trans hvalid)
  exact ⟨_, List.mem_singleton_self _,
    revocation_created crypto_signsCorrectly (identity 2) lostDevice 5, rfl⟩

end Example

end ChatCommons
