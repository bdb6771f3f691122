import ChatCommons.Chat.Conversation

/-!
A community begins with the genesis that its founder writes into an empty database.
-/

namespace ChatCommons

open Collections Candidates Dag

variable {C : Crypto} {J : PayloadReader} {store store' : EventStore} {user : Identity}
  {name : String} {timestampMs : Int64} {community : CommunityId} {core : CoreNode}
  {stored : List SignedEvent} {k : Candidates} {event : SignedEvent} {payload : ChatPayload}
  {author : UserId}

def Conversation.founded (C : Crypto) (user : Identity) (genesis : EventId) : Conversation where
  community := genesis.toCommunity
  owner := user.userId C
  members := {user.userId C}
  administrators := {user.userId C}
  channels := ∅
  invitations := ∅
  server := none
  messages := []
  history := [genesis]

section Alone

variable (hwhole : core.Whole C) (hstored : core.allEvents C = .ok stored)
  (hdescribed : Describes C J stored k)
  (hknown : ∀ x, x ∈ core.known ↔ x = event.eventId)
  (hrow : core.store.rows[event.eventId]? = some event)
include hwhole hstored hdescribed hknown hrow

/-- The only stored event is accepted when it founds a community. -/
theorem alone_accepted (hparents : event.content.parents = [])
    (hpayload : decode J event = .ok payload) (hauthor : authorId C event = .ok author)
    (hcreate : payload.isCommunityCreate = true) :
    (k.final C).acceptedInOrder = [event.eventId] ∧
      (k.final C).state = apply C {} event payload author := by
  have hcore := hwhole.toSound
  have hproper := proper_stored hcore hstored hdescribed
  have hmem : event ∈ stored := (mem_stored hcore hstored).mpr ⟨(hknown _).mpr rfl, hrow⟩
  have hbyId := hdescribed.byId.mpr ⟨hmem, rfl⟩
  have hpayload' := hdescribed.payloads.mpr ⟨event, hmem, rfl, hpayload⟩
  have hauthor' := hdescribed.authors.mpr ⟨event, hmem, rfl, hauthor⟩
  have honly : ∀ x ∈ (k.final C).acceptedInOrder, x = event.eventId := fun x hx =>
    (hknown x).mp (accepted_stored hcore hstored hdescribed hx)
  have hnone : k.parents event.eventId = [] := by
    rw [Candidates.parents, hbyId]
    exact hparents
  have hearlier : k.earlier (k.final C).acceptedInOrder event.eventId = [] := by
    apply List.eq_nil_iff_forall_not_mem.mpr
    intro x hx
    obtain ⟨haccepted, hbefore⟩ := mem_earlier.mp hx
    rw [honly x haccepted] at hbefore
    exact Before.irrefl hbefore
  have haccepted : event.eventId ∈ (k.final C).acceptedInOrder := by
    apply ((judged_final hproper).accepted _).mpr
    constructor
    · exact mem_order_stored hcore hstored hdescribed (mem_iff.mpr ⟨_, hpayload'⟩)
        ((hknown _).mpr rfl)
    · rw [verdict, hnone, hearlier]
      simp only [List.any_nil, Bool.false_eq_true, if_false, hbyId, hpayload', hauthor',
        validateContext, hcreate, if_true]
      rfl
  have hnodup : (k.final C).acceptedInOrder.Nodup :=
    k.order_nodup.sublist (evaluated_final (C := C) hproper.toComplete).sublist
  have hids : (k.final C).acceptedInOrder = [event.eventId] := by
    have hall := List.eq_replicate_iff.mpr ⟨rfl, honly⟩
    obtain ⟨n, hn⟩ : ∃ n, (k.final C).acceptedInOrder.length = n := ⟨_, rfl⟩
    rw [hn] at hall
    rw [hall] at hnodup haccepted ⊢
    have hle := List.nodup_replicate.mp hnodup
    have hpos : n ≠ 0 := fun hzero => by
      rw [hzero] at haccepted
      cases haccepted
    obtain rfl : n = 1 := by omega
    rfl
  refine ⟨hids, ?_⟩
  have htrace := (evaluated_final (C := C) hproper.toComplete).trace
  rw [hids] at htrace
  rw [← htrace.stateAfter_eq, stateAfter]
  simp only [List.foldl_cons, List.foldl_nil, hbyId, hpayload', hauthor']

end Alone

theorem founder_reads (hread : J.ReadsBack (.communityCreate PROFILE_ID name)) :
    decode J (createChatGenesis C user name timestampMs) =
      .ok (.communityCreate PROFILE_ID name) := by
  have hpayload : (createChatGenesis C user name timestampMs).content.payload =
      (ChatPayload.communityCreate PROFILE_ID name).toVec := rfl
  have htype : (createChatGenesis C user name timestampMs).content.eventType = GENESIS_TYPE := rfl
  rw [decode, hpayload, hread]
  simp [htype, ChatPayload.eventType]

theorem founder_author :
    authorId C (createChatGenesis C user name timestampMs) = .ok (user.userId C) := by
  simp [authorId, createChatGenesis, createGenesis, createSigned, Identity.userId]

/-- When `create-community` succeeds, the database holds a conversation of its founder alone. -/
theorem founded_shows (hread : J.ReadsBack (.communityCreate PROFILE_ID name))
    (hcreate : commandCreateCommunity C store user name timestampMs = (store', .ok community)) :
    ∃ genesis : EventId, community = genesis.toCommunity ∧
      Shows C J store' (Conversation.founded C user genesis) := by
  obtain ⟨genesis, hgenesis⟩ : ∃ genesis, createChatGenesis C user name timestampMs = genesis :=
    ⟨_, rfl⟩
  have hnone : genesis.content.communityId = none := hgenesis ▸ rfl
  have hparents : genesis.content.parents = [] := hgenesis ▸ rfl
  unfold commandCreateCommunity at hcreate
  split_ifs at hcreate with hempty
  · cases hcreate
  rw [hgenesis] at hcreate
  cases hcheck : validateEvent C genesis with
  | error error =>
    simp only [communityId, hcheck] at hcreate
    cases hcreate
  | ok u =>
    have hvalid := validateEvent_iff.mp hcheck
    have hid : communityId C genesis = .ok genesis.eventId.toCommunity := by
      simp [communityId, hcheck, hnone]
    have hstore : store = {} := by
      obtain ⟨rows⟩ := store
      have hnothing : rows.isEmpty = true := by simpa [EventStore.isEmpty] using hempty
      congr
      apply map_ext
      intro id
      rw [not_mem_map.mp (map_isEmpty_iff.mp hnothing id)]
      simp
    rw [hstore] at hcreate
    have hfits : genesis.belongsTo genesis.eventId.toCommunity = true :=
      (CoreNode.belongsTo_genesis hnone).mpr rfl
    have hfirst : NoCollision {} genesis := fun other hother => by simp at hother
    obtain ⟨core, report, hingest, hwhole, hnamed, hknown, hrows⟩ := ingest_next CoreNode.Whole.empty
      (Or.inr ⟨rfl, hnone⟩) hvalid hfits (by simp [hparents]) hfirst
    simp only [hid, CoreNode.open, hingest, Prod.mk.injEq, Except.ok.injEq] at hcreate
    obtain ⟨rfl, rfl⟩ := hcreate
    have hknown' : ∀ x, x ∈ core.known ↔ x = genesis.eventId := fun x => by
      simp [hknown]
    have hcore := hwhole.toSound
    obtain ⟨k, _, hk⟩ := candidates_spec (J := J) (stored_valid hcore hcore.allEvents_eq)
      (unambiguous_stored hcore hcore.allEvents_eq)
    have hdecode : decode J genesis = .ok (.communityCreate PROFILE_ID name) :=
      hgenesis ▸ founder_reads hread
    have hauthor : authorId C genesis = .ok (user.userId C) := hgenesis ▸ founder_author
    obtain ⟨hids, hstate⟩ := alone_accepted hwhole hcore.allEvents_eq hk hknown'
      ((hrows _ _).mpr (Or.inr ⟨rfl, rfl⟩)) hparents hdecode hauthor rfl
    refine ⟨genesis.eventId, rfl, core, _, k, rfl, ⟨hwhole, hcore.allEvents_eq, hk, ?_⟩, hnamed,
      ?_, ?_, ?_, ?_⟩
    · intro x hx
      rw [hids, (hknown' x).mp hx]
      exact List.mem_singleton_self _
    · have hsub : core.tips ⊆ {genesis.eventId} := fun x hx => (hknown' x).mp hx.1
      have hcard := Set.ncard_le_ncard hsub (Set.finite_singleton _)
      rw [Set.ncard_singleton] at hcard
      exact hcard.trans (by decide)
    · rw [hstate]
      refine ⟨rfl, rfl, fun other => ?_, fun other => ?_, fun channelId => ?_, fun id => ?_, rfl⟩
      · simp only [apply, Conversation.founded, mem_insert, not_mem_empty, or_false,
          Set.mem_singleton_iff]
      · simp only [apply, Conversation.founded, mem_insert, not_mem_empty, or_false,
          Set.mem_singleton_iff]
      · simp [apply, Conversation.founded]
      · simp [apply, Conversation.founded]
    · have hmem := (mem_stored hcore hcore.allEvents_eq).mpr
        ⟨(hknown' _).mpr rfl, (hrows _ _).mpr (Or.inr ⟨rfl, rfl⟩)⟩
      have hsilent : k.message genesis.eventId = none := by
        rw [Candidates.message, hk.byId.mpr ⟨hmem, rfl⟩, hk.payloads.mpr ⟨_, hmem, rfl, hdecode⟩]
      rw [hids, List.filterMap_cons, hsilent]
      rfl
    · rw [hids]
      rfl

end ChatCommons
