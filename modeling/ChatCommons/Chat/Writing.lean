import ChatCommons.Chat.Genesis
import ChatCommons.Chat.TipResolution

/-!
A member's message is an event at the tips, so it is accepted exactly when nothing
that the node stores is rejected.
-/

namespace ChatCommons

open Collections Candidates Dag JsonText

variable {C : Crypto} {J : PayloadReader} {core : CoreNode} {k k' : Candidates}
  {stored : List SignedEvent} {event : SignedEvent} {x : EventId} {user : Identity}
  {community : CommunityId} {channelId : Bytes 32} {text : String} {timestampMs : Int64}

theorem message_fits (htext : text.utf8ByteSize ≤ MAX_MESSAGE_BYTES) :
    (ChatPayload.messageCreate channelId text).toVec.length ≤ MAX_PAYLOAD_BYTES := by
  have hchannel := byteArray_length_le channelId.toList
  have hstring := string_length_le text
  have e1 : (string "MessageCreate").length = 15 := by decide
  have e2 : (string "channel_id").length = 12 := by decide
  have e3 : (string "text").length = 6 := by decide
  rw [channelId.length_eq] at hchannel
  simp only [ChatPayload.toVec, object, List.map_cons, List.map_nil, commas, field,
    List.length_append, List.length_cons, List.length_nil, e1, e2, e3, MAX_PAYLOAD_BYTES]
  simp only [MAX_MESSAGE_BYTES] at htext
  omega

/-- The reader reads back what the writer of a payload wrote. -/
def PayloadReader.ReadsBack (J : PayloadReader) (payload : ChatPayload) : Prop :=
  J payload.toVec = some payload

theorem decode_created {payload : ChatPayload} {parents : List EventId}
    (hread : J.ReadsBack payload) (hcreate : payload.isCommunityCreate = false) :
    decode J (createChatEvent C user community parents timestampMs payload) = .ok payload := by
  have hpayload : (createChatEvent C user community parents timestampMs payload).content.payload =
      payload.toVec := rfl
  have htype : (createChatEvent C user community parents timestampMs payload).content.eventType =
      payload.eventType := rfl
  rw [decode, hpayload, hread]
  dsimp only
  rw [if_neg (not_not.mpr htype.symm)]
  cases payload with
  | communityCreate _ _ => cases hcreate
  | _ => rfl

theorem authorId_created {payload : ChatPayload} {parents : List EventId} :
    authorId C (createChatEvent C user community parents timestampMs payload) =
      .ok (user.userId C) := by
  simp [authorId, createChatEvent, createSigned, Identity.userId]

theorem communityId_created {payload : ChatPayload} {parents : List EventId} :
    (createChatEvent C user community parents timestampMs payload).content.communityId =
      some community := rfl

theorem exists_genesis (hk : k.Complete) (hmember : ∃ author, author ∈ (k.final C).state.members) :
    ∃ genesis rest, (k.final C).acceptedInOrder = genesis :: rest := by
  have htrace := (evaluated_final (C := C) hk).trace
  cases hids : (k.final C).acceptedInOrder with
  | nil =>
    rw [hids] at htrace
    obtain ⟨author, hauthor⟩ := hmember
    rw [← htrace.stateAfter_eq] at hauthor
    exact absurd hauthor not_mem_empty
  | cons genesis rest => exact ⟨genesis, rest, rfl⟩

namespace AtTips

variable (h : AtTips C J core stored event k k')
include h

theorem rejected_empty_iff : (k.resolve C).rejected = ∅ ↔
    ∀ x ∈ core.known, x ∈ (k.final C).acceptedInOrder := by
  constructor
  · intro hempty x hx
    by_contra hrefused
    have hmem : x ∈ (k.resolve C).rejected := by
      rw [mem_rejected h.proper, resolve_acceptedInOrder]
      exact ⟨h.mem_byId.mpr hx, hrefused⟩
    rw [hempty] at hmem
    exact absurd hmem (by simp)
  · intro hall
    refine map_ext fun x => ?_
    have hnot : x ∉ (k.resolve C).rejected := fun hmem => by
      rw [mem_rejected h.proper, resolve_acceptedInOrder] at hmem
      exact hmem.2 (hall x (h.mem_byId.mp hmem.1))
    rw [not_mem_map.mp hnot]
    simp

/-- Over a history that is accepted entirely, the event meets the state of all of it. -/
theorem verdict_eq (hall : ∀ x ∈ core.known, x ∈ (k.final C).acceptedInOrder)
    {payload : ChatPayload} {author : UserId} (hpayload : decode J event = .ok payload)
    (hauthor : authorId C event = .ok author) :
    k'.verdict C (k.final C).acceptedInOrder event.eventId =
      validateContext C (k.final C).state event payload author (k.final C).accepted := by
  have hfinal := evaluated_final (C := C) h.proper.toComplete
  have hmem : event ∈ stored ++ [event] := by simp
  have hevent : k'.byId[event.eventId]? = some event := h.new.byId.mpr ⟨hmem, rfl⟩
  have hpayload' : k'.payloads[event.eventId]? = some payload :=
    h.new.payloads.mpr ⟨event, hmem, rfl, hpayload⟩
  have hauthor' : k'.authors[event.eventId]? = some author :=
    h.new.authors.mpr ⟨event, hmem, rfl, hauthor⟩
  have hsame : ∀ x ∈ (k.final C).acceptedInOrder, SameAt k k' x := fun x hx =>
    h.sameAt (h.ne_of_known (h.accepted_known hx))
  have hpayloads : ∀ x ∈ core.known, x ∈ k'.payloads := fun x hx =>
    (h.sameAt (h.ne_of_known hx)).mem_payloads.mpr
      (mem_order.mp ((judged_final h.proper).subset_order (hall x hx))).1
  obtain ⟨done, hsplit, hdone⟩ := h.order_eq hpayloads (mem_iff.mpr ⟨payload, hpayload'⟩)
  have hearlier : k'.earlier (k.final C).acceptedInOrder event.eventId =
      (k.final C).acceptedInOrder := by
    refine List.filter_eq_self.mpr fun x hx => ?_
    simpa using before_of_done hsplit ((hdone x).mpr (h.accepted_known hx))
  have hstate : k'.stateAfter C (k.final C).acceptedInOrder = (k.final C).state := by
    rw [stateAfter_eq_of_same hsame, hfinal.trace.stateAfter_eq]
  have hknown : ((k'.parents event.eventId).any fun parent => parent ∉ k'.byId) = false := by
    simp only [List.any_eq_false, decide_eq_true_eq, not_not]
    exact fun parent hp => h.mem_byId'.mpr (Or.inr (h.parent_known hp))
  have haccepted : ((k'.parents event.eventId).any fun parent =>
      parent ∉ (k.final C).acceptedInOrder) = false := by
    simp only [List.any_eq_false, decide_eq_true_eq, not_not]
    exact fun parent hp => hall parent (h.parent_known hp)
  rw [verdict, hearlier, hstate, hknown, haccepted, hevent, hpayload', hauthor',
    hfinal.accepted_eq]
  rfl

/-- An event that the state of everything stored permits is accepted exactly when everything
stored is. -/
theorem accepted_iff {payload : ChatPayload} {author : UserId}
    (hpayload : decode J event = .ok payload) (hauthor : authorId C event = .ok author)
    (hcommunity : event.content.communityId = (k.final C).state.community)
    (hqualified : Qualified C (k.final C).state event author payload)
    (hcreate : payload.isCommunityCreate = false) :
    event.eventId ∈ (k'.final C).acceptedInOrder ↔ (k.resolve C).rejected = ∅ := by
  rw [h.rejected_empty_iff]
  constructor
  · exact fun haccepted x hx => h.stored_accepted haccepted hx
  · intro hall
    by_contra hrefused
    have hverdict := h.verdict_eq hall hpayload hauthor
    have hsame := h.acceptedInOrder_same hrefused
    refine hrefused ((judged_final h.proper').accepted _ |>.mpr ⟨?_, ?_⟩)
    · apply h.mem_order'
      exact mem_iff.mpr ⟨payload, h.new.payloads.mpr ⟨event, by simp, rfl, hpayload⟩⟩
    · rw [hsame, hverdict]
      refine (validateContext_iff hcreate).mpr ⟨hcommunity, fun parent hp => ?_, hqualified⟩
      rw [(evaluated_final (C := C) h.proper.toComplete).accepted]
      exact hall parent (h.parent_known (h.parents_event ▸ hp))

theorem community_eq (hmember : ∃ author, author ∈ (k.final C).state.members)
    (hcommunity : core.community = some community) :
    (k.final C).state.community = some community := by
  obtain ⟨_, hcollect, hdescribes⟩ := candidates_spec (J := J) (stored_valid h.sound h.listed)
    (unambiguous_stored h.sound h.listed)
  obtain rfl := hdescribes.unique h.old fun _ => Iff.rfl
  have hcollected := collected_of_collect hcollect
  obtain ⟨genesis, rest, hids⟩ := exists_genesis h.proper.toComplete hmember
  have htrace := (evaluated_final (C := C) h.proper.toComplete).trace
  rw [hids] at htrace
  obtain ⟨hgenesis, hstate, _⟩ := htrace.rooted hcollected
  obtain ⟨event, hevent, _, hnone⟩ := hgenesis.content
  obtain rfl := hcollected.keyed hevent
  have hknown := h.accepted_known (C := C) (x := event.eventId) (by rw [hids]; simp)
  have hrow := ((mem_stored h.sound h.listed).mp (h.old.byId.mp hevent).1).2
  obtain ⟨c, hc, hbelongs⟩ := h.sound.member hknown hrow
  rw [SignedEvent.belongsTo, hnone] at hbelongs
  rw [hstate, of_decide_eq_true hbelongs, ← hc, hcommunity]

end AtTips

section Message

variable {resolution : ChatResolution}

theorem fresh_of_unambiguous (hcore : core.Sound C) (hstored : core.allEvents C = .ok stored)
    {heads : List EventId} (hheads : core.heads C = .ok heads) (hne : heads ≠ [])
    (hparents : event.content.parents = heads) (hinj : Unambiguous (stored ++ [event])) :
    event.eventId ∉ core.known := by
  intro hknown
  obtain ⟨other, hrow⟩ := hcore.stored hknown
  have hid := hcore.rowId hrow
  have hmem : other ∈ stored := (mem_stored hcore hstored).mpr ⟨hid ▸ hknown, hid.symm ▸ hrow⟩
  obtain rfl : other = event := hinj (by simp [hmem]) (by simp) hid
  obtain ⟨head, hhead⟩ := List.exists_mem_of_ne_nil _ hne
  refine ((mem_heads hcore hheads).mp hhead).2 _ hknown ?_
  rwa [CoreNode.parents_eq hrow, hparents]

/-- A member's message to a channel is accepted exactly when nothing that is stored is
rejected. -/
theorem message_accepted_iff (hsign : C.SignsCorrectly) (hcore : core.Sound C)
    (hcommunity : core.community = some community) (hstored : core.allEvents C = .ok stored)
    (hresolve : resolve C J stored = .ok resolution)
    (hmember : user.userId C ∈ resolution.snapshot.members)
    (hchannel : channelId ∈ resolution.snapshot.channels)
    (htips : core.tips.ncard ≤ MAX_PARENTS) (htext : text.utf8ByteSize ≤ MAX_MESSAGE_BYTES)
    (hread : J.ReadsBack (.messageCreate channelId text))
    (hcreate : core.createAtHeads C user community timestampMs (.messageCreate channelId text) =
      .ok event) (hinj : Unambiguous (stored ++ [event])) :
    ∃ extended, resolve C J (stored ++ [event]) = .ok extended ∧
      (event.eventId ∈ extended.snapshot.eventIds ↔ resolution.rejected = ∅) ∧
      (core.requireCandidateAccepted C J event = .ok () ↔ resolution.rejected = ∅) := by
  obtain ⟨heads, hheads, hsorted, _⟩ := hcore.heads_spec
  rw [CoreNode.createAtHeads, hheads] at hcreate
  obtain rfl := Except.ok.inj hcreate
  have hparents : (createChatEvent C user community heads timestampMs
      (.messageCreate channelId text)).content.parents = heads := sortedParents_eq hsorted
  obtain ⟨k, hcollect, hk⟩ := candidates_spec (J := J) (stored_valid hcore hstored)
    (unambiguous_stored hcore hstored)
  obtain rfl := Except.ok.inj ((resolve_eq hcollect).symm.trans hresolve)
  have hproper := hk.proper (stored_valid hcore hstored) (unambiguous_stored hcore hstored)
  rw [resolve_eq_final] at hmember hchannel
  have hknown : ∃ id, id ∈ core.known := by
    obtain ⟨genesis, rest, hids⟩ := exists_genesis (C := C) hproper.toComplete ⟨_, hmember⟩
    have horder := (judged_final (C := C) hproper).subset_order (x := genesis) (by simp [hids])
    have hbyId := hproper.known genesis (mem_order.mp horder).1
    exact ⟨genesis, (mem_byId_stored hcore hstored hk).mp hbyId⟩
  have hne := heads_ne_nil hcore hheads hknown
  have hvalid : (createChatEvent C user community heads timestampMs
      (.messageCreate channelId text)).Valid C :=
    (createChatEvent_valid_iff hsign hsorted hne (message_fits htext)).mpr
      ((heads_length hcore hheads).trans_le htips)
  have hfresh := fresh_of_unambiguous hcore hstored hheads hne hparents hinj
  obtain ⟨k₁, k', hold, hnew, htips⟩ :=
    exists_atTips J hcore hstored hvalid hfresh (by rw [hparents, hheads])
  obtain rfl := htips.old.unique hk fun _ => Iff.rfl
  have hiff := htips.accepted_iff (decode_created hread rfl) authorId_created
    (communityId_created.trans (htips.community_eq ⟨_, hmember⟩ hcommunity).symm)
    ⟨hmember, hchannel⟩ rfl
  have hids : ∀ id, id ∈ (k'.resolve C).snapshot.eventIds ↔ id ∈ (k'.final C).acceptedInOrder := by
    rw [resolve_eq_final]
    exact (evaluated_final htips.proper'.toComplete).accepted
  have hmem := (hids _).trans hiff
  refine ⟨k'.resolve C, hnew, hmem, ?_⟩
  rw [CoreNode.requireCandidateAccepted, CoreNode.allEventsCli, hstored, ← hmem]
  simp only [bind, Except.bind, resolveCli, hnew]
  split_ifs with haccepted <;> simp [haccepted]

open Sample in
theorem greeting_created :
    brawlNode.createAtHeads crypto (identity 1) club 0 hello = .ok greeting := by
  rw [CoreNode.createAtHeads, brawl_heads]
  rfl

open Sample in
theorem brawl_tips : brawlNode.tips.ncard ≤ MAX_PARENTS := by
  rw [← heads_length brawlNode_sound brawl_heads]
  decide

open Sample in
theorem message_accepted_iff_brawl : ∃ resolution extended,
    resolve crypto brawlReader brawlStored = .ok resolution ∧
      resolve crypto brawlReader (brawlStored ++ [greeting]) = .ok extended ∧
      (greeting.eventId ∈ extended.snapshot.eventIds ↔ resolution.rejected = ∅) ∧
      (brawlNode.requireCandidateAccepted crypto brawlReader greeting = .ok () ↔
        resolution.rejected = ∅) := by
  obtain ⟨resolution, hresolve, hmember, hchannel, _⟩ := brawl_resolved
  obtain ⟨extended, hextended, hiff⟩ := message_accepted_iff crypto_signsCorrectly
    brawlNode_sound brawlNode_community brawl_listed hresolve hmember hchannel brawl_tips
    (by decide) hello_read greeting_created (List.inj_on_of_nodup_map brawl_ids_nodup)
  exact ⟨resolution, extended, hresolve, hextended, hiff⟩

open Sample in
/-- One stored event that no reader understands makes every message on the tips refused. -/
theorem message_refused_on_garbled : brawlNode.Sound crypto ∧ brawlNode.community = some club ∧
    brawlNode.allEvents crypto = .ok brawlStored ∧ brawlNode.tips.ncard ≤ MAX_PARENTS ∧
    (∃ resolution, resolve crypto brawlReader brawlStored = .ok resolution ∧
      (identity 1).userId crypto ∈ resolution.snapshot.members ∧
      bigEndianBytes 32 7 ∈ resolution.snapshot.channels) ∧
    "hello".utf8ByteSize ≤ MAX_MESSAGE_BYTES ∧ brawlReader.ReadsBack hello ∧
    brawlNode.createAtHeads crypto (identity 1) club 0 hello = .ok greeting ∧
    Unambiguous (brawlStored ++ [greeting]) ∧
    ∃ extended, resolve crypto brawlReader (brawlStored ++ [greeting]) = .ok extended ∧
      greeting.eventId ∉ extended.snapshot.eventIds := by
  obtain ⟨resolution, hresolve, hmember, hchannel, _⟩ := brawl_resolved
  obtain ⟨extended, hextended, _, hrefused⟩ := greeting_resolved
  exact ⟨brawlNode_sound, brawlNode_community, brawl_listed, brawl_tips,
    ⟨resolution, hresolve, hmember, hchannel⟩, by decide, hello_read, greeting_created,
    List.inj_on_of_nodup_map brawl_ids_nodup, extended, hextended, hrefused⟩

end Message

end ChatCommons
