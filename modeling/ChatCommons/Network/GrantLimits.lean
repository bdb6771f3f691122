import ChatCommons.Chat.Writing
import ChatCommons.Network.Grants
import ChatCommons.Sample.Talk

/-!
A node keeps running on the history that it stores exactly when every invitation that is
still active keeps to the limits of a disclosure; a long conversation before an invitation
stops it.
-/

namespace ChatCommons

open Collections Candidates Dag

/-- The refresh of a running node and the start of a new one succeed when every active invitation
keeps to the limits. -/
theorem authorization_refreshed_iff {C : Crypto} {J : PayloadReader} {P : PeerNames}
    {core : CoreNode} {community : CommunityId} {stored : List SignedEvent}
    {resolution : ChatResolution} (hcore : core.Sound C)
    (hcommunity : core.community = some community)
    (hstored : core.allEvents C = .ok stored) (hresolve : resolve C J stored = .ok resolution) :
    (∀ (network : NetworkNode) (users : BTreeSet UserId) (localDevicePublicKey : Bytes 32),
      network.sync.node = core → network.sync.community = community →
        ((refreshNetworkAuthorization C J users .peer localDevicePublicKey network).2 = .ok () ↔
          ∀ invitation ∈ resolution.snapshot.activeInvitations, core.Offerable invitation)) ∧
    ∀ (users : BTreeSet UserId) (maxStoreBytes : Option ℕ) (device : DeviceIdentity)
      (certificate : DeviceCertificate),
      peerIdFromCertificate C P certificate = .ok device.peerId →
      (∀ limit ∈ maxStoreBytes, ∃ peer,
        SyncPeer.withStorageQuota { node := core, community } limit = .ok peer) →
        ((∃ network, startNetwork C J P core community users .peer maxStoreBytes device certificate =
            .ok network) ↔
          ∀ invitation ∈ resolution.snapshot.activeInvitations, core.Offerable invitation) := by
  refine ⟨?_, fun users maxStoreBytes device certificate hdevice hquota =>
    start_ok_iff hcore hcommunity hstored hresolve hquota hdevice users⟩
  rintro network users localDevicePublicKey rfl rfl
  exact refresh_ok_iff hcore (fun c hc => Option.some.inj (hc.symm.trans hcommunity)) hstored
    hresolve users localDevicePublicKey

section Talk

open Sample

def talkNode : CoreNode := CoreNode.ofEvents club (talkEvents 257)

def talkStored : List SignedEvent :=
  talkNode.known.toList.filterMap fun id => talkNode.store.rows[id]?

def talkIds (n : ℕ) : List EventId := (List.range n).map fun i => (talk i).eventId

theorem mem_talkIds {n : ℕ} {x : EventId} : x ∈ talkIds n ↔ ∃ i < n, (talk i).eventId = x := by
  simp [talkIds]

theorem talkNode_sound : talkNode.Sound crypto := (talk_listed le_rfl).sound

theorem talkNode_community : talkNode.community = some club := by
  simp [talkNode, CoreNode.ofEvents, talkEvents]

theorem talk_allEvents : talkNode.allEvents crypto = .ok talkStored := talkNode_sound.allEvents_eq

theorem mem_talkStored {event : SignedEvent} :
    event ∈ talkStored ↔ ∃ n ≤ 256, talk n = event := by
  rw [mem_stored talkNode_sound talk_allEvents, talkNode, CoreNode.known_ofEvents,
    (talk_listed le_rfl).row_iff]
  constructor
  · rintro ⟨_, hmem, _⟩
    obtain ⟨n, hn, heq⟩ := mem_talkEvents.mp hmem
    exact ⟨n, by omega, heq⟩
  · rintro ⟨n, hn, rfl⟩
    have hmem : talk n ∈ talkEvents 257 := mem_talkEvents.mpr ⟨n, by omega, rfl⟩
    exact ⟨⟨talk n, hmem, rfl⟩, hmem, rfl⟩

variable {k : Candidates} (hk : Describes crypto talkReader talkStored k)
include hk

theorem talk_byId {n : ℕ} (hn : n ≤ 256) : k.byId[(talk n).eventId]? = some (talk n) :=
  hk.byId.mpr ⟨mem_talkStored.mpr ⟨n, hn, rfl⟩, rfl⟩

theorem talk_of_byId {x : EventId} (hx : x ∈ k.byId) : ∃ n ≤ 256, (talk n).eventId = x := by
  obtain ⟨event, hevent⟩ := mem_iff.mp hx
  obtain ⟨hmem, rfl⟩ := hk.byId.mp hevent
  obtain ⟨n, hn, rfl⟩ := mem_talkStored.mp hmem
  exact ⟨n, hn, rfl⟩

theorem talk_parents_zero : k.parents (talk 0).eventId = [] := by
  rw [Candidates.parents, talk_byId hk (by omega)]
  rfl

theorem talk_parents {n : ℕ} (hn : n < 256) :
    k.parents (talk (n + 1)).eventId = [(talk n).eventId] := by
  have hcontent := talk_content n
  rw [Candidates.parents, talk_byId hk (show n + 1 ≤ 256 by omega)]
  dsimp only
  rw [hcontent]

theorem talk_entry_zero : k.Entry (talk 0).eventId (talk 0) (.communityCreate PROFILE_ID "club")
    (user 1) := by
  have hmem : talk 0 ∈ talkStored := mem_talkStored.mpr ⟨0, by omega, rfl⟩
  have hdecode : decode talkReader (talk 0) = .ok (.communityCreate PROFILE_ID "club") := by
    have hpayload : (talk 0).content.payload =
        (ChatPayload.communityCreate PROFILE_ID "club").toVec := rfl
    have htype : (talk 0).content.eventType = GENESIS_TYPE := rfl
    rw [decode, hpayload, genesis_read, htype]
    rfl
  have hauthor : authorId crypto (talk 0) = .ok (user 1) := by decide
  exact ⟨talk_byId hk (by omega), hk.payloads.mpr ⟨_, hmem, rfl, hdecode⟩,
    hk.authors.mpr ⟨_, hmem, rfl, hauthor⟩⟩

theorem talk_entry {n : ℕ} (hn : n < 256) :
    k.Entry (talk (n + 1)).eventId (talk (n + 1)) (saying n) (user 1) := by
  have hmem : talk (n + 1) ∈ talkStored := mem_talkStored.mpr ⟨n + 1, hn, rfl⟩
  exact ⟨talk_byId hk hn,
    hk.payloads.mpr ⟨_, hmem, rfl, decode_created (saying_read hn) (saying_not_create n)⟩,
    hk.authors.mpr ⟨_, hmem, rfl, authorId_created⟩⟩

/-- What the state allows after `n + 1` events of the conversation. -/
structure Hosted (n : ℕ) (state : State) : Prop where
  community : state.community = some club
  administrator : user 1 ∈ state.administrators
  member : user 1 ∈ state.members
  channel : 0 < n → bigEndianBytes 32 7 ∈ state.channels

omit hk in
theorem Hosted.next {n : ℕ} {state : State} (h : Hosted n state) :
    Qualified crypto state (talk (n + 1)) (user 1) (saying n) ∧
      Hosted (n + 1) (apply crypto state (talk (n + 1)) (saying n) (user 1)) := by
  unfold saying
  split_ifs with hzero hlast
  · exact ⟨h.administrator, h.community, h.administrator, h.member,
        fun _ => mem_insert.mpr (Or.inl rfl)⟩
  · have hkey : ((identity 3).publicKey crypto).toList.length = PUBLIC_KEY_LEN := Bytes.length_eq _
    exact ⟨⟨h.administrator, hkey⟩, h.community, h.administrator, h.member,
      fun _ => h.channel (Nat.pos_of_ne_zero hzero)⟩
  · exact ⟨⟨h.member, h.channel (Nat.pos_of_ne_zero hzero)⟩, h.community, h.administrator, h.member,
      fun _ => h.channel (Nat.pos_of_ne_zero hzero)⟩

theorem talk_trace {n : ℕ} (hn : n ≤ 256) :
    ∃ state, Trace crypto k (talkIds (n + 1)) state ∧ Hosted n state := by
  induction n with
  | zero =>
    obtain ⟨hevent, hpayload, hauthor⟩ := talk_entry_zero hk
    refine ⟨_, .snoc .nil ?_ ⟨_, _, _, hevent, hpayload, hauthor, rfl, rfl⟩, ?_⟩
    · rw [talk_parents_zero hk]
      simp
    · exact ⟨rfl, mem_insert.mpr (Or.inl rfl), mem_insert.mpr (Or.inl rfl),
          fun h => absurd h (by omega)⟩
  | succ n ih =>
    obtain ⟨state, htrace, hhosted⟩ := ih (by omega)
    obtain ⟨hevent, hpayload, hauthor⟩ := talk_entry hk (show n < 256 by omega)
    obtain ⟨hqualified, hnext⟩ := hhosted.next
    have hparents := talk_parents hk (show n < 256 by omega)
    have hlast : (talk n).eventId ∈ talkIds (n + 1) :=
      mem_talkIds.mpr ⟨n, by omega, rfl⟩
    rw [talkIds, List.range_succ, List.map_append, List.map_singleton, ← talkIds]
    refine ⟨_, .snoc htrace ?_ ⟨_, _, _, hevent, hpayload, hauthor, ?_, rfl⟩, hnext⟩
    · rw [hparents]
      simpa using hlast
    · refine (validateContext_iff (saying_not_create n)).mpr ⟨?_, ?_, hqualified⟩
      · rw [talk_content, hhosted.community]
      · rw [talk_content]
        simpa using hlast

theorem talk_accepted (hproper : k.Proper) : (k.final crypto).acceptedInOrder = talkIds 257 := by
  obtain ⟨state, htrace, _⟩ := talk_trace hk le_rfl
  have hpayload : ∀ n ≤ 256, (talk n).eventId ∈ k.payloads := fun n hn => by
    cases n with
    | zero => exact mem_iff.mpr ⟨_, (talk_entry_zero hk).2.1⟩
    | succ n => exact mem_iff.mpr ⟨_, (talk_entry hk (show n < 256 by omega)).2.1⟩
  have hchain : ∀ i < 256, k.parents (talk (i + 1)).eventId = [(talk i).eventId] ∧
      (talk i).eventId ∈ keySet k.payloads := fun i hi =>
    ⟨talk_parents hk hi, mem_keySet.mpr (hpayload i (by omega))⟩
  -- The chain is given by hand: unification would unfold the conversation.
  let chain i := (talk i).eventId
  refine htrace.accepted_eq hproper ?_ fun x => ⟨fun hx => ?_, fun hx => ?_⟩
  · rw [talkIds, List.pairwise_map]
    refine List.pairwise_lt_range.imp_of_mem fun _ hj hij => ?_
    rw [List.mem_range] at hj
    exact @Rounds.before_chain _ _ _ _ _ _ _ chain 256 (talk_parents_zero hk) hchain _ _ hij
      (by omega)
  · obtain ⟨n, hn, rfl⟩ := mem_talkIds.mp hx
    refine mem_order.mpr ⟨hpayload n (by omega), n + 1, ?_⟩
    exact (@Rounds.low_chain _ _ _ _ _ chain 256 (talk_parents_zero hk) hchain n
      (by omega)).mpr (Nat.lt_succ_self n)
  · obtain ⟨n, hn, rfl⟩ := talk_of_byId hk (hproper.known x (mem_order.mp hx).1)
    exact mem_talkIds.mpr ⟨n, by omega, rfl⟩

omit hk in
theorem talk_offered : ∃ resolution, resolve crypto talkReader talkStored = .ok resolution ∧
    (talk 256).eventId ∈ resolution.snapshot.activeInvitations := by
  have hvalid := stored_valid talkNode_sound talk_allEvents
  have hinj := unambiguous_stored talkNode_sound talk_allEvents
  obtain ⟨k, hcollect, hk⟩ := candidates_spec (J := talkReader) hvalid hinj
  have hproper := hk.proper hvalid hinj
  have haccepted := talk_accepted hk hproper
  have hreads := (evaluated_final (C := crypto) hproper.toComplete).reads
    (collected_of_collect hcollect)
  refine ⟨k.resolve crypto, resolve_eq hcollect, ?_⟩
  rw [resolve_eq_final, mem_iff]
  refine ⟨(identity 3).publicKey crypto, (hreads.activeInvitations _ _).mpr ⟨⟨?_, ?_⟩, ?_⟩⟩
  · rw [haccepted]
    exact mem_talkIds.mpr ⟨256, by omega, rfl⟩
  · have hentry := (talk_entry hk (show 255 < 256 by omega)).2.1
    exact hentry
  · rintro ⟨x, hx, signature, hpayload⟩
    rw [haccepted] at hx
    obtain ⟨n, hn, rfl⟩ := mem_talkIds.mp hx
    cases n with
    | zero =>
      rw [(talk_entry_zero hk).2.1] at hpayload
      cases hpayload
    | succ n =>
      rw [(talk_entry hk (show n < 256 by omega)).2.1, saying] at hpayload
      split_ifs at hpayload <;> cases hpayload

omit hk in
theorem talk_not_offerable : ¬ talkNode.Offerable (talk 256).eventId := by
  have hknown : ∀ n ≤ 256, (talk n).eventId ∈ talkNode.known := fun n hn =>
    ((mem_stored talkNode_sound talk_allEvents).mp (mem_talkStored.mpr ⟨n, hn, rfl⟩)).1
  have hparents : ∀ n < 256, talkNode.parents (talk (n + 1)).eventId = [(talk n).eventId] := by
    intro n hn
    have hrow := ((mem_stored talkNode_sound talk_allEvents).mp
      (mem_talkStored.mpr ⟨n + 1, hn, rfl⟩)).2
    rw [CoreNode.parents_eq hrow, talk_content]
  have hreach : ∀ m n, n + m ≤ 256 →
      Reaches talkNode.parents (talk n).eventId (talk (n + m)).eventId := by
    intro m
    induction m with
    | zero => exact fun n _ => .refl
    | succ m ih =>
      intro n hn
      refine (ih n (by omega)).tail ?_
      rw [← Nat.add_assoc, ParentOf, hparents (n + m) (by omega)]
      exact List.mem_singleton.mpr rfl
  have hsub : ∀ x ∈ talkIds 257, x ∈ talkNode.past (talk 256).eventId := fun x hx => by
    obtain ⟨n, hn, rfl⟩ := mem_talkIds.mp hx
    rw [talkNode_sound.mem_past (hknown 256 le_rfl)]
    have := hreach (256 - n) n (by omega)
    rwa [Nat.add_sub_cancel' (by omega)] at this
  have hnodup : (talkIds 257).Nodup := by
    rw [talkIds, List.nodup_map_iff_inj_on List.nodup_range]
    intro m hm n hn heq
    rw [List.mem_range] at hm hn
    exact talk_injective (by omega) (by omega) heq
  have hlength := (List.subperm_of_subset hnodup hsub).length_le
  rw [talkIds, List.length_map, List.length_range] at hlength
  rintro ⟨hlimit, _⟩
  rw [MAX_BOOTSTRAP_ANCESTRY_EVENTS] at hlimit
  omega

def talkNetwork : NetworkNode where
  localPeer := ⟨[]⟩
  sync := { node := talkNode, community := club }
  certificate := createDeviceCertificate crypto (identity 1) ⟨bigEndianBytes 32 4, ⟨[]⟩⟩ 0
  allowedUsers := ∅
  revocations := {}

omit hk in
/-- A peer that stores the conversation stops at the next refresh. -/
theorem refresh_fails_on_talk : talkNode.Sound crypto ∧ talkNode.community = some club ∧
    talkNode.allEvents crypto = .ok talkStored ∧
    (∃ resolution, resolve crypto talkReader talkStored = .ok resolution) ∧
    (refreshNetworkAuthorization crypto talkReader ∅ .peer (bigEndianBytes 32 4) talkNetwork).2 ≠
      .ok () := by
  obtain ⟨resolution, hresolve, hactive⟩ := talk_offered
  refine ⟨talkNode_sound, talkNode_community, talk_allEvents, ⟨resolution, hresolve⟩, fun hok => ?_⟩
  have hall := (refresh_ok_iff (show talkNetwork.sync.node.Sound crypto from talkNode_sound)
    (fun c hc => Option.some.inj (hc.symm.trans talkNode_community)) talk_allEvents hresolve ∅
    (bigEndianBytes 32 4)).mp hok
  exact talk_not_offerable (hall _ hactive)

omit hk in
theorem authorization_refreshed_iff_talk : ∃ resolution,
    resolve crypto talkReader talkStored = .ok resolution ∧
    ((refreshNetworkAuthorization crypto talkReader ∅ .peer (bigEndianBytes 32 4) talkNetwork).2 =
        .ok () ↔
      ∀ invitation ∈ resolution.snapshot.activeInvitations, talkNode.Offerable invitation) := by
  obtain ⟨resolution, hresolve, _⟩ := talk_offered
  have h := authorization_refreshed_iff (P := fun _ => some ⟨[]⟩) talkNode_sound talkNode_community
    talk_allEvents hresolve
  exact ⟨resolution, hresolve, h.1 talkNetwork ∅ (bigEndianBytes 32 4) rfl rfl⟩

end Talk

end ChatCommons
