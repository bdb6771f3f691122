import ChatCommons.Chat.Founding

/-!
The commands on one database, call after call, carry on a conversation: each call does what
the conversation permits and nothing else.
-/

namespace ChatCommons

open Collections Candidates Dag JsonText Simulation

/-- What the event of the command says. -/
def LocalCommand.payload (C : Crypto) : LocalCommand → ChatPayload
  | .createChannel channelId name => .channelCreate channelId name
  | .sendMessage channelId text => .messageCreate channelId text
  | .setHomeServer serverPublicKey endpoints => .homeServerSet serverPublicKey.toList endpoints
  | .createInvite _ capability => capability.invitationPayload C

variable {C : Crypto} {J : PayloadReader} {P : PeerNames} {F : TextForms} {core : CoreNode}
  {k k' : Candidates} {stored : List SignedEvent} {event : SignedEvent} {user : Identity}
  {community : CommunityId} {timestampMs : Int64} {payload : ChatPayload} {chat : Conversation}
  {store : EventStore} {call : Invocation}

section Sizes

theorem channel_fits {channelId : Bytes 32} {name : String}
    (hname : name.utf8ByteSize ≤ MAX_CHANNEL_NAME_BYTES) :
    (ChatPayload.channelCreate channelId name).toVec.length ≤ MAX_PAYLOAD_BYTES := by
  have hchannel := byteArray_length_le channelId.toList
  have hstring := string_length_le name
  have e1 : (string "ChannelCreate").length = 15 := by decide
  have e2 : (string "channel_id").length = 12 := by decide
  have e3 : (string "name").length = 6 := by decide
  rw [channelId.length_eq] at hchannel
  simp only [ChatPayload.toVec, object, List.map_cons, List.map_nil, commas, field,
    List.length_append, List.length_cons, List.length_nil, e1, e2, e3, MAX_PAYLOAD_BYTES]
  simp only [MAX_CHANNEL_NAME_BYTES] at hname
  omega

theorem invitation_fits {capability : InviteCapability} :
    (capability.invitationPayload C).toVec.length ≤ MAX_PAYLOAD_BYTES := by
  have hkey := byteArray_length_le (capability.publicKey C).toList
  have e1 : (string "MemberInvite").length = 14 := by decide
  have e2 : (string "capability_public_key").length = 23 := by decide
  rw [(capability.publicKey C).length_eq] at hkey
  simp only [InviteCapability.invitationPayload, ChatPayload.toVec, object, List.map_cons,
    List.map_nil, commas, field, List.length_append, List.length_cons, List.length_nil, e1, e2,
    MAX_PAYLOAD_BYTES]
  omega

theorem homeServer_fits {serverPublicKey : Bytes 32} {endpoints : List String}
    (h : Presentable endpoints) :
    (ChatPayload.homeServerSet serverPublicKey.toList endpoints).toVec.length ≤
      MAX_PAYLOAD_BYTES := by
  have hkey := byteArray_length_le serverPublicKey.toList
  have e1 : (string "HomeServerSet").length = 15 := by decide
  have e2 : (string "server_public_key").length = 19 := by decide
  have e3 : (string "endpoints").length = 11 := by decide
  have hitems : ∀ item ∈ endpoints.map string, item.length ≤ 3074 := by
    intro item hitem
    obtain ⟨endpoint, hmem, rfl⟩ := List.mem_map.mp hitem
    have hlength := string_length_le endpoint
    have hsize := (h.visible endpoint hmem).2.1
    simp only [MAX_HOME_SERVER_ENDPOINT_BYTES] at hsize
    omega
  have harray := array_length_le hitems
  have hfew := h.few
  rw [serverPublicKey.length_eq] at hkey
  rw [List.length_map] at harray
  simp only [ChatPayload.toVec, object, List.map_cons, List.map_nil, commas, field,
    List.length_append, List.length_cons, List.length_nil, e1, e2, e3, MAX_PAYLOAD_BYTES]
  simp only [MAX_HOME_SERVER_ENDPOINTS] at hfew
  nlinarith

end Sizes

/-- The event that a call makes at the tips of an unbroken node, and what `resolve` sees then. -/
structure Placed (C : Crypto) (J : PayloadReader) (core : CoreNode) (stored : List SignedEvent)
    (k : Candidates) (user : Identity) (community : CommunityId) (timestampMs : Int64)
    (payload : ChatPayload) (event : SignedEvent) (k' : Candidates) : Prop where
  unbroken : Unbroken C J core stored k
  named : core.community = some community
  ordinary : payload.isCommunityCreate = false
  reads : J.ReadsBack payload
  apart : NoCollision core.store event
  created : core.createAtHeads C user community timestampMs payload = .ok event
  heads : core.heads C = .ok event.content.parents
  resolves : resolve C J (stored ++ [event]) = .ok (k'.resolve C)
  tips : AtTips C J core stored event k k'

theorem exists_created (h : Unbroken C J core stored k) (hnamed : core.community = some community)
    (user : Identity) (timestampMs : Int64) (payload : ChatPayload) : ∃ heads,
      core.heads C = .ok heads ∧ heads.Pairwise (· < ·) ∧ heads ≠ [] ∧
        core.createAtHeads C user community timestampMs payload =
          .ok (createChatEvent C user community heads timestampMs payload) ∧
        (createChatEvent C user community heads timestampMs payload).content.parents = heads := by
  obtain ⟨heads, hheads, hsorted, _⟩ := h.whole.heads_spec
  obtain ⟨id, hid, _⟩ := h.whole.begun hnamed
  refine ⟨heads, hheads, hsorted, heads_ne_nil h.whole.toSound hheads ⟨id, hid⟩, ?_, ?_⟩
  · rw [CoreNode.createAtHeads, hheads]
  · exact sortedParents_eq hsorted

/-- The event is in its place unless its payload is too long for an event. -/
theorem placed_or_unfit (hsign : C.SignsCorrectly) (h : Unbroken C J core stored k)
    (hnamed : core.community = some community) (hfew : core.tips.ncard ≤ MAX_PARENTS)
    (hcreate : payload.isCommunityCreate = false) (hread : J.ReadsBack payload)
    (hapart : ∀ event, core.createAtHeads C user community timestampMs payload = .ok event →
      NoCollision core.store event) :
    (∃ event k', Placed C J core stored k user community timestampMs payload event k') ∨
      ¬ payload.toVec.length ≤ MAX_PAYLOAD_BYTES ∧
        ∃ event error, core.createAtHeads C user community timestampMs payload = .ok event ∧
          resolve C J (stored ++ [event]) = .error error := by
  obtain ⟨heads, hheads, hsorted, hne, hcreated, hparents⟩ :=
    exists_created h hnamed user timestampMs payload
  by_cases hvalid : (createChatEvent C user community heads timestampMs payload).Valid C
  · have hcollision := hapart _ hcreated
    have hheads' := hheads.trans (congrArg _ hparents.symm)
    obtain ⟨k', hresolve, htips⟩ := exists_placed h hvalid hheads' (by rwa [hparents]) hcollision
    exact Or.inl ⟨_, k', h, hnamed, hcreate, hread, hcollision, hcreated, hheads', hresolve, htips⟩
  · obtain ⟨error, herror⟩ : ∃ error, validateEvent C
        (createChatEvent C user community heads timestampMs payload) = .error error := by
      cases hcheck : validateEvent C
          (createChatEvent C user community heads timestampMs payload) with
      | ok u => exact absurd (validateEvent_iff.mp hcheck) hvalid
      | error error => exact ⟨error, rfl⟩
    refine Or.inr ⟨fun hfits => ?_, _, .protocol error, hcreated, ?_⟩
    · apply hvalid
      apply (createChatEvent_valid_iff hsign hsorted hne hfits).mpr
      exact (heads_length h.whole.toSound hheads).trans_le hfew
    · rw [resolve, List.foldlM_append, collect_stored h.whole.toSound h.listed h.described]
      simp only [bind, Except.bind, List.foldlM_cons, collect, herror]

namespace Placed

variable (h : Placed C J core stored k user community timestampMs payload event k')
include h

theorem event_eq : ∃ heads, event = createChatEvent C user community heads timestampMs payload := by
  have hcreated := h.created
  rw [CoreNode.createAtHeads, h.heads] at hcreated
  exact ⟨_, (Except.ok.inj hcreated).symm⟩

theorem decodes : decode J event = .ok payload := by
  obtain ⟨heads, rfl⟩ := h.event_eq
  exact decode_created h.reads h.ordinary

theorem author : authorId C event = .ok (user.userId C) := by
  obtain ⟨heads, rfl⟩ := h.event_eq
  exact authorId_created

theorem place : event.content.communityId = some community := by
  obtain ⟨heads, rfl⟩ := h.event_eq
  rfl

theorem time : event.content.timestampMs = timestampMs := by
  obtain ⟨heads, rfl⟩ := h.event_eq
  rfl

theorem accepted_iff : event.eventId ∈ (k'.final C).acceptedInOrder ↔
    Qualified C (k.final C).state event (user.userId C) payload :=
  h.tips.placed_iff h.unbroken h.decodes h.author
    (h.place.trans (h.unbroken.community_eq h.named).symm) h.ordinary

theorem mem_eventIds : event.eventId ∈ (k'.resolve C).snapshot.eventIds ↔
    Qualified C (k.final C).state event (user.userId C) payload := by
  rw [← h.accepted_iff, resolve_eq_final]
  exact (evaluated_final h.tips.proper'.toComplete).accepted _

theorem state_eq (hqualified : Qualified C (k.final C).state event (user.userId C) payload) :
    (k'.final C).state = apply C (k.final C).state event payload (user.userId C) :=
  (h.tips.admitted h.unbroken h.decodes h.author (h.accepted_iff.mpr hqualified)).2

theorem ingested (hqualified : Qualified C (k.final C).state event (user.userId C) payload) :
    ∃ core' report stored', core.ingest C [event] = (core', .ok report) ∧
      Unbroken C J core' stored' k' ∧ core'.community = some community ∧
      core'.tips.ncard ≤ MAX_PARENTS := by
  obtain ⟨core', report, stored', hingest, hunbroken, hnamed, hheads, _⟩ :=
    appended h.unbroken h.named h.tips.valid h.place h.heads h.apart h.tips
      (h.accepted_iff.mpr hqualified)
  refine ⟨core', report, stored', hingest, hunbroken, hnamed, ?_⟩
  rw [← heads_length hunbroken.whole.toSound hheads, List.length_singleton]
  decide

end Placed

section Mirroring

theorem Conversation.after_community {id : EventId} :
    (chat.after C call id).community = chat.community := by
  obtain ⟨caller, device, callCommunity, time, command⟩ := call
  cases command <;> rfl

theorem Conversation.after_history {id : EventId} :
    (chat.after C call id).history = chat.history ++ [id] := by
  obtain ⟨caller, device, callCommunity, time, command⟩ := call
  cases command <;> rfl

theorem activeInvitation_iff {r : Resolver} {id : EventId} : id ∈ r.snapshot.activeInvitations ↔
    (∃ key : Bytes 32, r.state.invitations[id]? = some key.toList) ∧
      id ∉ r.state.acceptedInvitations := by
  simp only [mem_iff, getElem?_activeInvitations, exists_and_right]

/-- Nobody has redeemed what is not known. -/
theorem Unbroken.unredeemed (h : Unbroken C J core stored k) {id : EventId}
    (hid : id ∉ core.known) : id ∉ (k.final C).state.acceptedInvitations := by
  intro hmem
  obtain ⟨accept, haccept, signature, hpayload⟩ := h.trace.mem_acceptedInvitations.mp hmem
  obtain ⟨pre, post, hsplit⟩ := List.append_of_mem haccept
  obtain ⟨_, _, _, hentry, hentitled⟩ := h.trace.entitled h.collected hsplit
  obtain rfl := Option.some.inj (hpayload.symm.trans hentry.2.1)
  obtain ⟨⟨key, hinvites⟩, _⟩ := hentitled
  apply hid
  apply h.mem_accepted.mp
  rw [hsplit]
  exact List.mem_append_left _ hinvites.1

namespace Placed

variable (h : Placed C J core stored k user community timestampMs payload event k')
include h

theorem entry : k'.Entry event.eventId event payload (user.userId C) :=
  ⟨h.tips.new.byId.mpr ⟨by simp, rfl⟩, h.tips.new.payloads.mpr ⟨event, by simp, rfl, h.decodes⟩,
    h.tips.new.authors.mpr ⟨event, by simp, rfl, h.author⟩⟩

theorem message_eq_none (hpayload : ∀ c t, payload ≠ .messageCreate c t) :
    k'.message event.eventId = none := by
  obtain ⟨hevent, hentry, hauthor⟩ := h.entry
  rw [Candidates.message, hevent, hentry, hauthor]
  cases payload with
  | messageCreate c t => exact absurd rfl (hpayload c t)
  | _ => rfl

theorem message_eq_some {channelId : Bytes 32} {text : String}
    (hpayload : payload = .messageCreate channelId text) :
    k'.message event.eventId = some
      { eventId := event.eventId
        channelId
        authorId := user.userId C
        timestampMs
        text } := by
  obtain ⟨hevent, hentry, hauthor⟩ := h.entry
  rw [Candidates.message, hevent, hentry, hauthor, hpayload]
  simp only [h.time]

end Placed

/-- The state after the event of a call says what the conversation does after the call. -/
theorem State.Mirrors.after {state : State} (h : state.Mirrors chat) {author : UserId}
    (hnew : event.eventId ∉ state.acceptedInvitations) :
    (apply C state event (call.command.payload C) author).Mirrors
      (chat.after C call event.eventId) := by
  obtain ⟨caller, device, callCommunity, time, command⟩ := call
  cases command with
  | createChannel channelId name =>
    refine ⟨h.community, h.owner, h.members, h.administrators, fun other => ?_, h.invitations,
      h.server⟩
    simp only [LocalCommand.payload, apply, Conversation.after, mem_insert, h.channels,
      Set.mem_insert_iff]
  | sendMessage channelId text =>
    exact ⟨h.community, h.owner, h.members, h.administrators, h.channels, h.invitations, h.server⟩
  | setHomeServer serverPublicKey endpoints =>
    simp only [LocalCommand.payload, apply, Bytes.ofList?_toList]
    exact ⟨h.community, h.owner, h.members, h.administrators, h.channels, h.invitations, rfl⟩
  | createInvite address capability =>
    refine ⟨h.community, h.owner, h.members, h.administrators, h.channels, fun id => ?_, h.server⟩
    simp only [LocalCommand.payload, InviteCapability.invitationPayload, apply,
      Conversation.after, getElem?_insert, Set.mem_insert_iff, ← h.invitations]
    by_cases hid : event.eventId = id
    · subst hid
      simp only [if_true, Option.some.injEq, hnew, not_false_eq_true, and_true, true_or, iff_true]
      exact ⟨_, rfl⟩
    · simp only [if_neg hid, Ne.symm hid, false_or]

theorem mirrors_after (h : Placed C J core stored k call.user community call.timestampMs
      (call.command.payload C) event k') (hmirrors : Mirrors C k chat)
    (hqualified : Qualified C (k.final C).state event (call.user.userId C)
      (call.command.payload C)) : Mirrors C k' (chat.after C call event.eventId) := by
  have haccepted := h.accepted_iff.mpr hqualified
  have hmessages := h.tips.messages_snoc h.unbroken haccepted
  rw [hmirrors.messages] at hmessages
  refine ⟨?_, ?_, ?_⟩
  · rw [h.state_eq hqualified]
    exact hmirrors.state.after (h.unbroken.unredeemed h.tips.fresh)
  · rw [hmessages]
    obtain ⟨caller, device, callCommunity, time, command⟩ := call
    cases command with
    | sendMessage channelId text =>
      rw [h.message_eq_some rfl]
      rfl
    | _ =>
      rw [h.message_eq_none (by simp [LocalCommand.payload, InviteCapability.invitationPayload])]
      exact List.append_nil _
  · rw [h.tips.acceptedInOrder_snoc haccepted, hmirrors.history, Conversation.after_history]

end Mirroring

section Commands

theorem requireCandidateAccepted_eq (hstored : core.allEvents C = .ok stored)
    {resolution : ChatResolution} (hresolve : resolve C J (stored ++ [event]) = .ok resolution) :
    core.requireCandidateAccepted C J event =
      if event.eventId ∈ resolution.snapshot.eventIds then .ok () else .error .profileRejected := by
  rw [CoreNode.requireCandidateAccepted, CoreNode.allEventsCli, hstored]
  simp only [bind, Except.bind, resolveCli, hresolve]

namespace Placed

variable (h : Placed C J core stored k user community timestampMs payload event k')
include h

theorem publish_done (hqualified : Qualified C (k.final C).state event (user.userId C) payload)
    {core' : CoreNode} {report : IngestReport} (hingest : core.ingest C [event] = (core', .ok report)) :
    core.publish C J user community timestampMs payload = (core', .ok event) := by
  rw [CoreNode.publish, h.created]
  simp only [requireCandidateAccepted_eq h.unbroken.listed h.resolves,
    if_pos (h.mem_eventIds.mpr hqualified), hingest]

theorem publish_refused
    (hrefused : ¬ Qualified C (k.final C).state event (user.userId C) payload) :
    core.publish C J user community timestampMs payload = (core, .error .profileRejected) := by
  rw [CoreNode.publish, h.created]
  simp only [requireCandidateAccepted_eq h.unbroken.listed h.resolves,
    if_neg (mt h.mem_eventIds.mp hrefused)]

end Placed

/-- A home server that the state names was declared by an accepted event. -/
theorem declared_accepted (hk : k.Proper) (hcollected : k.Collected C) {binding : HomeServerBinding}
    (hserver : (k.final C).state.homeServer = some binding) :
    binding.declaration ∈ (k.final C).acceptedInOrder := by
  have htrace := (evaluated_final (C := C) hk.toComplete).trace
  have hread := htrace.homeServer_eq hcollected
  rw [hserver, Option.map_some] at hread
  obtain ⟨id, hid, hword⟩ := LastWord.exists_of_lastWord hread.symm
  have hdeclaration : binding.declaration = id := by
    unfold Candidates.declaration at hword
    split at hword
    · exact congrArg Prod.fst (Option.some.inj hword).symm
    · cases hword
  rwa [hdeclaration]

theorem AtTips.collected' (h : AtTips C J core stored event k k') : k'.Collected C where
  toComplete := h.proper'.toComplete
  keyed hevent := (h.new.byId.mp hevent).2
  valid hevent := by
    rcases List.mem_append.mp (h.new.byId.mp hevent).1 with hmem | hmem
    · exact stored_valid h.sound h.listed _ hmem
    · exact List.mem_singleton.mp hmem ▸ h.valid

/-- The declaration is in force afterwards exactly when its event is accepted. -/
theorem Placed.inForce_iff {serverPublicKey : Bytes 32} {endpoints : List String}
    (h : Placed C J core stored k user community timestampMs payload event k')
    (hpayload : payload = .homeServerSet serverPublicKey.toList endpoints) :
    ((k'.resolve C).snapshot.homeServer.any fun binding =>
      binding.declaration = event.eventId && binding.serverPublicKey = serverPublicKey) = true ↔
      Qualified C (k.final C).state event (user.userId C) payload := by
  have hserver : (k'.resolve C).snapshot.homeServer = (k'.final C).state.homeServer := by
    rw [resolve_eq_final]
    rfl
  rw [hserver]
  constructor
  · intro hany
    obtain ⟨binding, hbinding, hsame⟩ := (Option.any_eq_true _ _).mp hany
    rw [Bool.and_eq_true, decide_eq_true_eq] at hsame
    apply h.accepted_iff.mp
    rw [← hsame.1]
    exact declared_accepted h.tips.proper' h.tips.collected' hbinding
  · intro hqualified
    rw [h.state_eq hqualified, hpayload]
    simp only [apply, Bytes.ofList?_toList, Option.any_some, decide_true, Bool.and_self]

/-- Where an invitation leads is what the command finds, or the command finds nothing. -/
theorem leadsTo_cases (hmirrors : Mirrors C k chat) (device : DeviceIdentity)
    (address : Option Multiaddr) :
    (∃ peer reached, chat.leadsTo P F device address = some (peer, reached) ∧
      (address = some reached ∧ peer = device.peerId ∨
        address = none ∧ ∃ binding, (k.resolve C).snapshot.homeServer = some binding ∧
          homeServerTarget P F binding = .ok (peer, reached))) ∨
    chat.leadsTo P F device address = none ∧ address = none ∧
      ((k.resolve C).snapshot.homeServer = none ∨
        ∃ binding error, (k.resolve C).snapshot.homeServer = some binding ∧
          homeServerTarget P F binding = .error error) := by
  have hserver : (k.resolve C).snapshot.homeServer = (k.final C).state.homeServer := by
    rw [resolve_eq_final]
    rfl
  have hseen := hmirrors.state.server
  rw [hserver]
  cases address with
  | some reached => exact Or.inl ⟨_, reached, rfl, Or.inl ⟨rfl, rfl⟩⟩
  | none =>
    cases hbinding : (k.final C).state.homeServer with
    | none =>
      rw [hbinding, Option.map_none] at hseen
      refine Or.inr ⟨?_, rfl, Or.inl rfl⟩
      rw [Conversation.leadsTo, ← hseen]
      rfl
    | some binding =>
      rw [hbinding, Option.map_some] at hseen
      cases hpeer : P binding.serverPublicKey with
      | none =>
        refine Or.inr ⟨?_, rfl, Or.inr ⟨binding, .invalidHomeServerPublicKey, rfl, ?_⟩⟩
        · rw [Conversation.leadsTo, ← hseen]
          simp [hpeer]
        · rw [homeServerTarget, hpeer]
      | some peer =>
        cases hreached : binding.endpoints.findSome? F.readAddress with
        | none =>
          refine Or.inr ⟨?_, rfl, Or.inr ⟨binding, .unsupportedHomeServerEndpoint, rfl, ?_⟩⟩
          · rw [Conversation.leadsTo, ← hseen]
            simp [hpeer, hreached]
          · rw [homeServerTarget, hpeer]
            simp only [hreached]
        | some reached =>
          refine Or.inl ⟨peer, reached, ?_, Or.inr ⟨rfl, binding, rfl, ?_⟩⟩
          · rw [Conversation.leadsTo, ← hseen]
            simp [hpeer, hreached]
          · rw [homeServerTarget, hpeer]
            simp only [hreached]

theorem Placed.active_iff {capability : InviteCapability}
    (h : Placed C J core stored k user community timestampMs payload event k')
    (hpayload : payload = capability.invitationPayload C) :
    (event.eventId ∉ (k'.resolve C).snapshot.eventIds ∨
        event.eventId ∉ (k'.resolve C).snapshot.activeInvitations) ↔
      ¬ Qualified C (k.final C).state event (user.userId C) payload := by
  rw [h.mem_eventIds]
  constructor
  · rintro (hrefused | hclosed) hqualified
    · exact hrefused hqualified
    · apply hclosed
      rw [resolve_eq_final]
      apply activeInvitation_iff.mpr
      rw [h.state_eq hqualified, hpayload]
      simp only [InviteCapability.invitationPayload, apply, getElem?_insert, if_true]
      exact ⟨⟨_, rfl⟩, h.unbroken.unredeemed h.tips.fresh⟩
  · exact Or.inl

end Commands

section Calls

/-- On this node the call is carried out, or it is not permitted and changes nothing. -/
def Carries (C : Crypto) (J : PayloadReader) (P : PeerNames) (F : TextForms) (core : CoreNode)
    (chat : Conversation) (call : Invocation) : Prop :=
  (∃ core' id, call.runOn C J P F core = (core', .ok id) ∧ chat.Permits C P F call id ∧
      Shows C J core'.store (chat.after C call id)) ∨
    ∃ id error, call.runOn C J P F core = (core, .error error) ∧ ¬ chat.Permits C P F call id

theorem shows_after (h : Placed C J core stored k call.user call.community call.timestampMs
      (call.command.payload C) event k') (hsame : call.community = chat.community)
    (hmirrors : Mirrors C k chat)
    (hqualified : Qualified C (k.final C).state event (call.user.userId C)
      (call.command.payload C)) :
    ∃ core' report, core.ingest C [event] = (core', .ok report) ∧
      Shows C J core'.store (chat.after C call event.eventId) := by
  obtain ⟨core', report, stored', hingest, hunbroken, hnamed, hfew⟩ := h.ingested hqualified
  refine ⟨core', report, hingest, core', stored', k', rfl, hunbroken, ?_, hfew,
    mirrors_after h hmirrors hqualified⟩
  rw [hnamed, Conversation.after_community, hsame]

theorem payload_ordinary (command : LocalCommand) :
    (command.payload C).isCommunityCreate = false := by
  cases command <;> rfl

variable (hsign : C.SignsCorrectly) (hunbroken : Unbroken C J core stored k)
  (hnamed : core.community = some call.community) (hsame : call.community = chat.community)
  (hfew : core.tips.ncard ≤ MAX_PARENTS) (hmirrors : Mirrors C k chat)
  (hread : J.ReadsBack (call.command.payload C))
  (hapart : ∀ event, core.createAtHeads C call.user call.community call.timestampMs
    (call.command.payload C) = .ok event → NoCollision core.store event)
include hsign hunbroken hnamed hsame hfew hmirrors hread hapart

/-- The commands that end in `publish`. -/
theorem carries_publish (hfits : (call.command.payload C).toVec.length ≤ MAX_PAYLOAD_BYTES)
    (hrun : call.runOn C J P F core = (core.publish C J call.user call.community call.timestampMs
      (call.command.payload C)).map id fun result => result.map SignedEvent.eventId)
    (hpermits : ∀ event id, chat.Permits C P F call id ↔
      Qualified C (k.final C).state event (call.user.userId C) (call.command.payload C)) :
    Carries C J P F core chat call := by
  obtain ⟨event, k', h⟩ | ⟨hlong, _⟩ := placed_or_unfit hsign hunbroken hnamed hfew
    (payload_ordinary call.command) hread hapart
  swap
  · exact absurd hfits hlong
  by_cases hqualified : Qualified C (k.final C).state event (call.user.userId C)
      (call.command.payload C)
  · obtain ⟨core', report, hingest, hshows⟩ := shows_after h hsame hmirrors hqualified
    refine Or.inl ⟨core', event.eventId, ?_, (hpermits event _).mpr hqualified, hshows⟩
    rw [hrun, h.publish_done hqualified hingest]
    rfl
  · refine Or.inr ⟨event.eventId, .profileRejected, ?_, mt (hpermits event _).mp hqualified⟩
    rw [hrun, h.publish_refused hqualified]
    rfl

theorem carries_createChannel {channelId : Bytes 32} {name : String}
    (hcommand : call.command = .createChannel channelId name)
    (hoptions : call.command.checkOptions P = .ok ()) : Carries C J P F core chat call := by
  simp only [hcommand, LocalCommand.checkOptions] at hoptions
  split_ifs at hoptions with hbad
  simp only [Bool.or_eq_true, String.isEmpty_iff, decide_eq_true_eq, not_or, not_lt, gt_iff_lt]
    at hbad
  apply carries_publish hsign hunbroken hnamed hsame hfew hmirrors hread hapart
  · simp only [hcommand, LocalCommand.payload]
    exact channel_fits hbad.2
  · simp only [Invocation.runOn, hcommand, commandCreateChannel, LocalCommand.payload]
    rw [if_neg (by simpa using hbad)]
  · intro event id
    simp only [Conversation.Permits, hcommand, LocalCommand.payload, Qualified, hsame, true_and,
      hmirrors.state.administrators]
    exact ⟨fun h => h.2.2, fun h => ⟨hbad.1, hbad.2, h⟩⟩

theorem carries_sendMessage {channelId : Bytes 32} {text : String}
    (hcommand : call.command = .sendMessage channelId text)
    (hoptions : call.command.checkOptions P = .ok ()) : Carries C J P F core chat call := by
  simp only [hcommand, LocalCommand.checkOptions] at hoptions
  split_ifs at hoptions with hbad
  simp only [Bool.or_eq_true, String.isEmpty_iff, decide_eq_true_eq, not_or, not_lt, gt_iff_lt]
    at hbad
  apply carries_publish hsign hunbroken hnamed hsame hfew hmirrors hread hapart
  · simp only [hcommand, LocalCommand.payload]
    exact message_fits hbad.2
  · simp only [Invocation.runOn, hcommand, commandSendMessage, LocalCommand.payload]
    rw [if_neg (by simpa using hbad)]
  · intro event id
    simp only [Conversation.Permits, hcommand, LocalCommand.payload, Qualified, hsame, true_and,
      hmirrors.state.members, hmirrors.state.channels]
    exact ⟨fun h => h.2.2, fun h => ⟨hbad.1, hbad.2, h⟩⟩

theorem carries_setHomeServer {serverPublicKey : Bytes 32} {endpoints : List String}
    (hcommand : call.command = .setHomeServer serverPublicKey endpoints)
    (hoptions : call.command.checkOptions P = .ok ()) : Carries C J P F core chat call := by
  have hpayload : call.command.payload C = .homeServerSet serverPublicKey.toList endpoints := by
    rw [hcommand]
    rfl
  have hpeer : (P serverPublicKey).isSome := by
    simp only [hcommand, LocalCommand.checkOptions] at hoptions
    split_ifs at hoptions with hnone
    simpa [Option.isSome_iff_ne_none] using hnone
  have hpermits : ∀ event id, chat.Permits C P F call id ↔
      Qualified C (k.final C).state event (call.user.userId C) (call.command.payload C) := by
    intro event id
    simp only [Conversation.Permits, hcommand, LocalCommand.payload, Qualified, hsame, true_and,
      hmirrors.state.owner, hpeer, validateHomeServer_iff, Option.some.injEq]
    rw [eq_comm]
  obtain ⟨event, k', h⟩ | ⟨hlong, event, error, hcreated, herror⟩ := placed_or_unfit hsign
    hunbroken hnamed hfew (payload_ordinary call.command) hread hapart
  swap
  · refine Or.inr ⟨event.eventId, .chat error, ?_, fun hpermit => ?_⟩
    · rw [hpayload] at hcreated
      simp only [Invocation.runOn, hcommand, commandSetHomeServer, hcreated, CoreNode.allEventsCli,
        hunbroken.listed, bind, Except.bind, resolveCli, herror]
      rfl
    · simp only [Conversation.Permits, hcommand] at hpermit
      apply hlong
      rw [hpayload]
      exact homeServer_fits hpermit.2.2.2
  have hcreated := h.created
  have hinForce := h.inForce_iff hpayload
  rw [hpayload] at hcreated
  by_cases hqualified : Qualified C (k.final C).state event (call.user.userId C)
      (call.command.payload C)
  · obtain ⟨core', report, hingest, hshows⟩ := shows_after h hsame hmirrors hqualified
    refine Or.inl ⟨core', event.eventId, ?_, (hpermits event _).mpr hqualified, hshows⟩
    simp only [Invocation.runOn, hcommand, commandSetHomeServer, hcreated, CoreNode.allEventsCli,
      hunbroken.listed, bind, Except.bind, resolveCli, h.resolves, hinForce.mpr hqualified,
      if_true, pure, Except.pure, hingest]
    rfl
  · refine Or.inr ⟨event.eventId, .profileRejected, ?_, mt (hpermits event _).mp hqualified⟩
    simp only [Invocation.runOn, hcommand, commandSetHomeServer, hcreated, CoreNode.allEventsCli,
      hunbroken.listed, bind, Except.bind, resolveCli, h.resolves, if_neg (mt hinForce.mp hqualified)]
    rfl

theorem carries_createInvite {address : Option Multiaddr} {capability : InviteCapability}
    (hcommand : call.command = .createInvite address capability) :
    Carries C J P F core chat call := by
  have hpayload : call.command.payload C = capability.invitationPayload C := by
    rw [hcommand]
    rfl
  have hqualifies : ∀ event, Qualified C (k.final C).state event (call.user.userId C)
      (call.command.payload C) ↔ call.user.userId C ∈ chat.administrators := by
    intro event
    rw [hpayload, ← hmirrors.state.administrators]
    exact and_iff_left (capability.publicKey C).length_eq
  obtain ⟨event, k', h⟩ | ⟨hlong, _⟩ := placed_or_unfit hsign hunbroken hnamed hfew
    (payload_ordinary call.command) hread hapart
  swap
  · rw [hpayload] at hlong
    exact absurd invitation_fits hlong
  have hcreated := h.created
  have hactive := h.active_iff hpayload
  have hresolved := resolve_eq
    (collect_stored hunbroken.whole.toSound hunbroken.listed hunbroken.described)
  rw [hpayload] at hcreated
  obtain ⟨peer, reached, hleads, hfound⟩ | ⟨hleads, rfl, hfound⟩ :=
    leadsTo_cases (P := P) (F := F) hmirrors call.device address
  · by_cases hqualified : Qualified C (k.final C).state event (call.user.userId C)
        (call.command.payload C)
    · cases hcode : createCode F (capability.package chat.community event.eventId).toJson peer
          reached with
      | ok code =>
        obtain ⟨core', report, hingest, hshows⟩ := shows_after h hsame hmirrors hqualified
        refine Or.inl ⟨core', event.eventId, ?_, ?_, hshows⟩
        · rw [← hsame] at hcode
          have hopen := mt hactive.mp (not_not.mpr hqualified)
          rcases hfound with ⟨rfl, rfl⟩ | ⟨rfl, binding, hbinding, htarget⟩
          · simp only [Invocation.runOn, hcommand, commandCreateInvite, CoreNode.allEventsCli,
              hunbroken.listed, hcreated, resolveCli, h.resolves, bind, Except.bind, if_neg hopen,
              InviteCapability.encodePackage, liftInvite, liftBootstrap, hcode, pure, Except.pure,
              hingest]
            rfl
          · simp only [Invocation.runOn, hcommand, commandCreateInvite, CoreNode.allEventsCli,
              hunbroken.listed, hcreated, hresolved, hbinding, htarget, h.resolves, resolveCli, bind,
              Except.bind, if_neg hopen, InviteCapability.encodePackage, liftInvite, liftBootstrap,
              hcode, pure, Except.pure, hingest]
            rfl
        · simp only [Conversation.Permits, hcommand, hsame, true_and]
          exact ⟨(hqualifies event).mp hqualified, peer, reached, code, hleads, hcode⟩
      | error error =>
        refine Or.inr ⟨event.eventId, .bootstrap error, ?_, ?_⟩
        · rw [← hsame] at hcode
          have hopen := mt hactive.mp (not_not.mpr hqualified)
          rcases hfound with ⟨rfl, rfl⟩ | ⟨rfl, binding, hbinding, htarget⟩
          · simp only [Invocation.runOn, hcommand, commandCreateInvite, CoreNode.allEventsCli,
              hunbroken.listed, hcreated, resolveCli, h.resolves, bind, Except.bind, if_neg hopen,
              InviteCapability.encodePackage, liftInvite, liftBootstrap, hcode]
            rfl
          · simp only [Invocation.runOn, hcommand, commandCreateInvite, CoreNode.allEventsCli,
              hunbroken.listed, hcreated, hresolved, hbinding, htarget, h.resolves, resolveCli, bind,
              Except.bind, if_neg hopen, InviteCapability.encodePackage, liftInvite, liftBootstrap,
              hcode]
            rfl
        · simp only [Conversation.Permits, hcommand, hsame, true_and, hleads, Option.some.injEq,
            Prod.mk.injEq]
          rintro ⟨_, _, _, code, ⟨rfl, rfl⟩, hother⟩
          rw [hcode] at hother
          cases hother
    · refine Or.inr ⟨event.eventId, .profileRejected, ?_, fun hpermit => ?_⟩
      · have hclosed := hactive.mpr hqualified
        rcases hfound with ⟨rfl, rfl⟩ | ⟨rfl, binding, hbinding, htarget⟩
        · simp only [Invocation.runOn, hcommand, commandCreateInvite, CoreNode.allEventsCli,
            hunbroken.listed, hcreated, resolveCli, h.resolves, bind, Except.bind, if_pos hclosed]
          rfl
        · simp only [Invocation.runOn, hcommand, commandCreateInvite, CoreNode.allEventsCli,
            hunbroken.listed, hcreated, hresolved, hbinding, htarget, h.resolves, resolveCli, bind,
            Except.bind, if_pos hclosed]
          rfl
      · simp only [Conversation.Permits, hcommand] at hpermit
        exact hqualified ((hqualifies event).mpr hpermit.2.1)
  · obtain ⟨error, hrun⟩ : ∃ error, call.runOn C J P F core = (core, .error error) := by
      rcases hfound with hnone | ⟨binding, error, hbinding, htarget⟩
      · refine ⟨.missingHomeServer, ?_⟩
        simp only [Invocation.runOn, hcommand, commandCreateInvite, CoreNode.allEventsCli,
          hunbroken.listed, resolveCli, hresolved, hnone, bind, Except.bind]
        rfl
      · refine ⟨error, ?_⟩
        simp only [Invocation.runOn, hcommand, commandCreateInvite, CoreNode.allEventsCli,
          hunbroken.listed, resolveCli, hresolved, hbinding, htarget, bind, Except.bind]
        rfl
    refine Or.inr ⟨event.eventId, error, hrun, fun hpermit => ?_⟩
    simp only [Conversation.Permits, hcommand, hleads] at hpermit
    obtain ⟨_, _, _, _, _, hnothing, _⟩ := hpermit
    cases hnothing

end Calls

section Runs

/-- What the payload reader and the hash function owe a call. -/
structure Faithful (C : Crypto) (J : PayloadReader) (store : EventStore) (call : Invocation) :
    Prop where
  reads : J.ReadsBack (call.command.payload C)
  apart : ∀ core event, openCommunity C store call.community = .ok core →
    core.createAtHeads C call.user call.community call.timestampMs (call.command.payload C) =
      .ok event → NoCollision store event

theorem checkOptions_of_permits {id : EventId} (h : chat.Permits C P F call id) :
    call.command.checkOptions P = .ok () := by
  obtain ⟨caller, device, callCommunity, time, command⟩ := call
  obtain ⟨_, hpermit⟩ := h
  cases command with
  | createChannel channelId name => simp_all [LocalCommand.checkOptions]
  | sendMessage channelId text => simp_all [LocalCommand.checkOptions]
  | setHomeServer serverPublicKey endpoints =>
    have hpeer := Option.isSome_iff_ne_none.mp hpermit.1
    simp [LocalCommand.checkOptions, hpeer]
  | createInvite address capability => rfl

theorem openDatabase_eq (h : core.Whole C) (hnamed : core.community = some community)
    (command : LocalCommand) : command.openDatabase C core.store community = .ok core := by
  cases command with
  | createInvite address capability =>
    rw [LocalCommand.openDatabase, h.open_eq hnamed]
    rfl
  | _ => exact openCommunity_of_whole h hnamed

theorem openDatabase_opens (command : LocalCommand)
    (hopen : command.openDatabase C store community = .ok core) :
    CoreNode.open C store (some community) = .ok core := by
  cases command with
  | createInvite address capability => exact liftOpened_eq_ok.mp hopen
  | _ => exact open_of_openCommunity hopen

theorem carries_call (hsign : C.SignsCorrectly) (hunbroken : Unbroken C J core stored k)
    (hnamed : core.community = some call.community) (hsame : call.community = chat.community)
    (hfew : core.tips.ncard ≤ MAX_PARENTS) (hmirrors : Mirrors C k chat)
    (hfit : Faithful C J core.store call) (hoptions : call.command.checkOptions P = .ok ()) :
    Carries C J P F core chat call := by
  have hapart := fun event hcreated =>
    hfit.apart core event (openCommunity_of_whole hunbroken.whole hnamed) hcreated
  cases hcommand : call.command with
  | createChannel channelId name =>
    exact carries_createChannel hsign hunbroken hnamed hsame hfew hmirrors hfit.reads hapart
      hcommand hoptions
  | sendMessage channelId text =>
    exact carries_sendMessage hsign hunbroken hnamed hsame hfew hmirrors hfit.reads hapart
      hcommand hoptions
  | setHomeServer serverPublicKey endpoints =>
    exact carries_setHomeServer hsign hunbroken hnamed hsame hfew hmirrors hfit.reads hapart
      hcommand hoptions
  | createInvite address capability =>
    exact carries_createInvite hsign hunbroken hnamed hsame hfew hmirrors hfit.reads hapart
      hcommand

def Invocation.step (C : Crypto) (J : PayloadReader) (P : PeerNames) (F : TextForms)
    (store : EventStore) (call : Invocation) : EventStore × Option EventId :=
  ((call.run C J P F store).1, (call.run C J P F store).2.toOption)

theorem step_shows (hsign : C.SignsCorrectly) (h : Shows C J store chat)
    (hfit : Faithful C J store call) :
    ∃ chat', Conversation.Step C P F chat call (call.step C J P F store).2 chat' ∧
      Shows C J (call.step C J P F store).1 chat' := by
  obtain ⟨core, stored, k, rfl, hunbroken, hnamed, hfew, hmirrors⟩ := h
  have hsame : Shows C J core.store chat :=
    ⟨core, stored, k, rfl, hunbroken, hnamed, hfew, hmirrors⟩
  have hrefused : ∀ (id : EventId) (error : CommandError), ¬ chat.Permits C P F call id →
      call.run C J P F core.store = (core.store, .error error) →
      ∃ chat', Conversation.Step C P F chat call (call.step C J P F core.store).2 chat' ∧
        Shows C J (call.step C J P F core.store).1 chat' := by
    intro id error hnot hrun
    rw [Invocation.step, hrun]
    exact ⟨chat, .refused hnot, hsame⟩
  cases hoptions : call.command.checkOptions P with
  | error error =>
    apply hrefused ⟨chat.community.bytes⟩ (.cli error)
    · intro hpermit
      rw [checkOptions_of_permits hpermit] at hoptions
      cases hoptions
    · rw [Invocation.run, hoptions]
  | ok u =>
    cases hopen : call.command.openDatabase C core.store call.community with
    | error error =>
      apply hrefused ⟨chat.community.bytes⟩ error
      · intro hpermit
        rw [hpermit.1, openDatabase_eq hunbroken.whole hnamed] at hopen
        cases hopen
      · simp only [Invocation.run, hoptions, hopen]
    | ok opened =>
      have hopened := openDatabase_opens call.command hopen
      obtain rfl := hunbroken.whole.opens hopened
      have hcalled := opened_community hopened
      obtain hcommunity := Option.some.inj (hcalled.symm.trans hnamed)
      have hcarries : Carries C J P F opened chat call :=
        carries_call hsign hunbroken hcalled hcommunity hfew hmirrors hfit hoptions
      obtain ⟨core', id, hrun, hpermits, hshows⟩ | ⟨id, error, hrun, hnot⟩ := hcarries
      · have hstep : call.step C J P F opened.store = (core'.store, some id) := by
          simp only [Invocation.step, Invocation.run, hoptions, hopen, hrun]
          rfl
        rw [hstep]
        exact ⟨_, .done hpermits, hshows⟩
      · apply hrefused id (.cli error) hnot
        simp only [Invocation.run, hoptions, hopen, hrun]
        rfl

/-- A conversation keeps its community, and its history grows by what was carried out. -/
theorem explained_history {calls : List Invocation} {outcomes : List (Option EventId)}
    {chat' : Conversation} (h : Explained (Conversation.Step C P F) chat calls outcomes chat') :
    chat'.community = chat.community ∧ chat'.history = chat.history ++ outcomes.filterMap id := by
  induction h with
  | nil => simp
  | @cons chat mid chat' call outcome calls outcomes hstep _ ih =>
    cases hstep with
    | @done id hpermits =>
      rw [ih.1, ih.2, Conversation.after_community, Conversation.after_history]
      simp
    | refused _ => simpa using ih

theorem Shows.listed (h : Shows C J store chat) : ∃ core channels,
    openCommunity C store chat.community = .ok core ∧
      (∀ id, id ∈ core.known ↔ id ∈ chat.history) ∧
      commandListMessages C J core none = .ok chat.messages ∧
      commandListChannels C J core = .ok channels ∧
      ∀ channelId, (∃ channel ∈ channels, channel.channelId = channelId) ↔
        channelId ∈ chat.channels := by
  obtain ⟨core, stored, k, rfl, hunbroken, hnamed, _, hmirrors⟩ := h
  have hcore := hunbroken.whole.toSound
  obtain ⟨channels, hchannels, hmem⟩ :=
    commandListChannels_eq hcore hunbroken.listed hunbroken.described
  refine ⟨core, channels, openCommunity_of_whole hunbroken.whole hnamed, fun id => ?_, ?_,
    hchannels, fun channelId => ?_⟩
  · rw [← hunbroken.mem_accepted, hmirrors.history]
  · rw [commandListMessages_none hcore hunbroken.listed hunbroken.described, hmirrors.messages]
  · rw [← hmirrors.state.channels, hunbroken.trace.mem_channels]
    constructor
    · rintro ⟨channel, hlisted, rfl⟩
      obtain ⟨id, haccepted, hpayload⟩ := (hmem channel).mp hlisted
      exact ⟨id, haccepted, channel.name, hpayload⟩
    · rintro ⟨id, haccepted, name, hpayload⟩
      exact ⟨⟨channelId, name⟩, (hmem _).mpr ⟨id, haccepted, hpayload⟩, rfl⟩

/-- From `create-community` on, the calls on a database carry on a conversation: each succeeds
exactly when the conversation permits it, what succeeded is all that is stored, in its order, and
the listings show the conversation. -/
theorem commands_carry_conversation (hsign : C.SignsCorrectly) {name : String} {begun : EventStore}
    (hread : J.ReadsBack (.communityCreate PROFILE_ID name))
    (hcreate : commandCreateCommunity C store user name timestampMs = (begun, .ok community))
    {calls : List Invocation}
    (hfit : Along (Invocation.step C J P F) (Faithful C J) begun calls) :
    ∃ genesis chat core channels, community = genesis.toCommunity ∧
      Explained (Conversation.Step C P F) (Conversation.founded C user genesis) calls
        (run (Invocation.step C J P F) begun calls).2 chat ∧
      chat.history =
        genesis :: (run (Invocation.step C J P F) begun calls).2.filterMap id ∧
      openCommunity C (run (Invocation.step C J P F) begun calls).1 community = .ok core ∧
      (∀ id, id ∈ core.known ↔ id ∈ chat.history) ∧
      commandListMessages C J core none = .ok chat.messages ∧
      commandListChannels C J core = .ok channels ∧
      ∀ channelId, (∃ channel ∈ channels, channel.channelId = channelId) ↔
        channelId ∈ chat.channels := by
  obtain ⟨genesis, rfl, hshows⟩ := founded_shows hread hcreate
  obtain ⟨chat, hexplained, hlast⟩ := run_explained (step_shows hsign) hshows hfit
  obtain ⟨hcommunity, hhistory⟩ := explained_history hexplained
  obtain ⟨core, channels, hopen, hlisted⟩ := hlast.listed
  rw [hcommunity] at hopen
  exact ⟨genesis, chat, core, channels, rfl, hexplained, hhistory, hopen, hlisted⟩

end Runs

section Example

open Sample

def bareForms : TextForms where
  encode64 bytes := bytes
  decode64 := some
  peerText _ := ""
  readPeer _ := none
  addressText _ := ""
  readAddress _ := none
  readEnvelope _ := none

def callOf (author : ℕ) (command : LocalCommand) : Invocation where
  user := identity author
  device := ⟨(identity 5).publicKey crypto, ⟨[]⟩⟩
  community := club
  timestampMs := 0
  command := command

/-- A stranger's message in between is refused. -/
def hallCalls : List Invocation :=
  [callOf 1 (.createChannel (bigEndianBytes 32 7) "hall"),
    callOf 2 (.sendMessage (bigEndianBytes 32 7) "hello"),
    callOf 1 (.sendMessage (bigEndianBytes 32 7) "hello")]

def isFaithful (store : EventStore) (call : Invocation) : Bool :=
  decide (brawlReader (call.command.payload crypto).toVec = some (call.command.payload crypto)) &&
    match openCommunity crypto store call.community with
    | .error _ => true
    | .ok core =>
      match core.createAtHeads crypto call.user call.community call.timestampMs
        (call.command.payload crypto) with
      | .error _ => true
      | .ok event => store.rows[event.eventId]?.all (· = event)

theorem faithful_of_check {store : EventStore} {call : Invocation}
    (h : isFaithful store call = true) : Faithful crypto brawlReader store call := by
  rw [isFaithful, Bool.and_eq_true, decide_eq_true_eq] at h
  refine ⟨h.1, fun core event hopen hcreated other hother => ?_⟩
  have hall := h.2
  simp only [hopen, hcreated, hother, Option.all_some, decide_eq_true_eq] at hall
  exact hall

def areFaithful (store : EventStore) : List Invocation → Bool
  | [] => true
  | call :: calls => isFaithful store call &&
    areFaithful (call.step crypto brawlReader (fun _ => none) bareForms store).1 calls

theorem along_of_check {store : EventStore} {calls : List Invocation}
    (h : areFaithful store calls = true) :
    Along (Invocation.step crypto brawlReader (fun _ => none) bareForms)
      (Faithful crypto brawlReader) store calls := by
  induction calls generalizing store with
  | nil => exact trivial
  | cons call calls ih =>
    rw [areFaithful, Bool.and_eq_true] at h
    exact ⟨faithful_of_check h.1, ih h.2⟩

theorem hall_checked :
    areFaithful (commandCreateCommunity crypto {} (identity 1) "club" 0).1 hallCalls = true ∧
      (commandCreateCommunity crypto {} (identity 1) "club" 0).2 = .ok club ∧
      brawlReader (ChatPayload.communityCreate PROFILE_ID "club").toVec =
        some (.communityCreate PROFILE_ID "club") := by decide +kernel

theorem commands_carry_conversation_hall : ∃ begun genesis chat,
    commandCreateCommunity crypto {} (identity 1) "club" 0 = (begun, .ok club) ∧
      Explained (Conversation.Step crypto (fun _ => none) bareForms)
        (Conversation.founded crypto (identity 1) genesis) hallCalls
        (run (Invocation.step crypto brawlReader (fun _ => none) bareForms) begun hallCalls).2
        chat := by
  obtain ⟨hfaithful, hclub, hread⟩ := hall_checked
  obtain ⟨begun, hbegun⟩ : ∃ begun,
      (commandCreateCommunity crypto {} (identity 1) "club" 0).1 = begun := ⟨_, rfl⟩
  have hcreate : commandCreateCommunity crypto {} (identity 1) "club" 0 = (begun, .ok club) :=
    Prod.ext hbegun hclub
  rw [hbegun] at hfaithful
  obtain ⟨genesis, chat, _, _, _, hexplained, _⟩ := commands_carry_conversation
    crypto_signsCorrectly hread hcreate (along_of_check hfaithful)
  exact ⟨begun, genesis, chat, hcreate, hexplained⟩

end Example

end ChatCommons
