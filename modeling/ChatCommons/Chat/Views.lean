import ChatCommons.Chat.History
import ChatCommons.Chat.TipResolution
import ChatCommons.Core.StoreHistory
import ChatCommons.General.TopologicalOrder
import ChatCommons.Model.LocalCommands

/-!
What the listing commands print of a database, whatever it has gone through: the
accepted channels and messages, and nothing that does not fit together.
-/

namespace ChatCommons

open Collections Candidates Dag

variable {C : Crypto} {J : PayloadReader} {core : CoreNode} {k : Candidates}
  {stored : List SignedEvent} {selectedChannel : Option (Bytes 32)} {id : EventId}

/-- What `list-messages` prints of an accepted event. -/
def Candidates.message (k : Candidates) (id : EventId) : Option MessageView :=
  match k.byId[id]?, k.payloads[id]?, k.authors[id]? with
  | some event, some (.messageCreate channelId text), some author => some
      { eventId := event.eventId
        channelId
        authorId := author
        timestampMs := event.content.timestampMs
        text }
  | _, _, _ => none

theorem message_eq {view : MessageView} : k.message id = some view ↔
    ∃ event, k.Entry id event (.messageCreate view.channelId view.text) view.authorId ∧
      view.eventId = event.eventId ∧ view.timestampMs = event.content.timestampMs := by
  unfold Candidates.message Candidates.Entry
  cases k.byId[id]? with
  | none => simp
  | some event =>
    cases k.payloads[id]? with
    | none => simp
    | some payload =>
      cases k.authors[id]? with
      | none => cases payload <;> simp
      | some author =>
        cases payload with
        | messageCreate channelId text =>
          simp only [Option.some.injEq, ChatPayload.messageCreate.injEq]
          constructor
          · rintro rfl
            exact ⟨event, ⟨rfl, ⟨rfl, rfl⟩, rfl⟩, rfl, rfl⟩
          · rintro ⟨_, ⟨rfl, ⟨rfl, rfl⟩, rfl⟩, hid, htime⟩
            rw [← hid, ← htime]
        | _ => simp

section Reading

variable (hcore : core.Sound C) (hstored : core.allEvents C = .ok stored)
  (hk : Describes C J stored k)
include hcore hstored hk

theorem byId_stored : (offeredOf stored)[id]? = k.byId[id]? := by
  apply Option.ext
  intro event
  rw [offeredOf_spec (fun a ha b hb => unambiguous_stored hcore hstored ha hb), hk.byId]

theorem decode_of_entry {event : SignedEvent} {payload : ChatPayload}
    (hevent : k.byId[id]? = some event) (hpayload : k.payloads[id]? = some payload) :
    decode J event = .ok payload := by
  obtain ⟨other, hmem, hid, hdecode⟩ := hk.payloads.mp hpayload
  obtain ⟨hmem', hid'⟩ := hk.byId.mp hevent
  rwa [unambiguous_stored hcore hstored hmem' hmem (hid'.trans hid.symm)]

theorem authorId_of_entry {event : SignedEvent} {author : UserId}
    (hevent : k.byId[id]? = some event) (hauthor : k.authors[id]? = some author) :
    authorId C event = .ok author := by
  obtain ⟨other, hmem, hid, hdecode⟩ := hk.authors.mp hauthor
  obtain ⟨hmem', hid'⟩ := hk.byId.mp hevent
  rwa [unambiguous_stored hcore hstored hmem' hmem (hid'.trans hid.symm)]

theorem proper_stored : k.Proper :=
  hk.proper (stored_valid hcore hstored) (unambiguous_stored hcore hstored)

theorem accepted_entry (hid : id ∈ (k.final C).acceptedInOrder) :
    ∃ event payload author, k.Entry id event payload author :=
  (evaluated_final (proper_stored hcore hstored hk).toComplete).trace.entry hid

theorem accepted_stored (hid : id ∈ (k.final C).acceptedInOrder) : id ∈ core.known := by
  have hproper := proper_stored hcore hstored hk
  have horder := (judged_final hproper).subset_order hid
  exact (mem_byId_stored hcore hstored hk).mp (hproper.known id (mem_order.mp horder).1)

theorem messageView_eq (hid : id ∈ (k.final C).acceptedInOrder) :
    messageView C J (offeredOf stored) selectedChannel id =
      .ok ((k.message id).filter fun m => selectedChannel.all (· = m.channelId)) := by
  obtain ⟨event, payload, author, hevent, hpayload, hauthor⟩ :=
    accepted_entry hcore hstored hk hid
  rw [messageView, byId_stored hcore hstored hk, Candidates.message]
  simp only [hevent, hpayload, hauthor, decode_of_entry hcore hstored hk hevent hpayload]
  cases payload with
  | messageCreate channelId text =>
    simp only [authorId_of_entry hcore hstored hk hevent hauthor]
    cases selectedChannel with
    | none => rfl
    | some selected =>
      by_cases hselected : selected = channelId <;> simp [hselected, Option.filter]
  | _ => rfl

theorem messageViews_eq {ids : List EventId} (hids : ∀ id ∈ ids, id ∈ (k.final C).acceptedInOrder) :
    messageViews C J (offeredOf stored) selectedChannel ids =
      .ok ((ids.filterMap k.message).filter fun m => selectedChannel.all (· = m.channelId)) := by
  rw [List.filter_filterMap]
  induction ids with
  | nil => rfl
  | cons id ids ih =>
    rw [messageViews, messageView_eq hcore hstored hk (hids id (by simp)),
      ih fun x hx => hids x (by simp [hx]), List.filterMap_cons]
    cases (k.message id).filter fun m => selectedChannel.all (· = m.channelId) <;> rfl

theorem collect_stored : stored.foldlM (collect C J) {} = .ok k := by
  obtain ⟨_, hcollect, hdescribes⟩ := candidates_spec (J := J) (stored_valid hcore hstored)
    (unambiguous_stored hcore hstored)
  obtain rfl := hdescribes.unique hk fun _ => Iff.rfl
  exact hcollect

theorem resolveCli_stored : resolveCli C J stored = .ok (k.resolve C) := by
  rw [resolveCli, resolve_eq (collect_stored hcore hstored hk)]

theorem commandListMessages_eq : commandListMessages C J core selectedChannel =
    .ok (((k.final C).acceptedInOrder.filterMap k.message).filter
      fun m => selectedChannel.all (· = m.channelId)) := by
  rw [commandListMessages, CoreNode.allEventsCli, hstored]
  simp only [liftCli, bind, Except.bind, resolveCli_stored hcore hstored hk]
  rw [resolve_acceptedInOrder, ← messageViews_eq hcore hstored hk fun _ h => h]
  rfl

theorem commandListMessages_none : commandListMessages C J core none =
    .ok ((k.final C).acceptedInOrder.filterMap k.message) := by
  rw [commandListMessages_eq hcore hstored hk, List.filter_eq_self.mpr]
  intro _ _
  rfl

theorem commandListChannels_eq : ∃ channels, commandListChannels C J core = .ok channels ∧
    ∀ view, view ∈ channels ↔ ∃ id ∈ (k.final C).acceptedInOrder,
      k.payloads[id]? = some (.channelCreate view.channelId view.name) := by
  rw [commandListChannels, CoreNode.allEventsCli, hstored]
  simp only [bind, Except.bind, resolveCli_stored hcore hstored hk]
  refine ⟨_, rfl, fun view => ?_⟩
  have hproper := proper_stored hcore hstored hk
  have hids : ∀ id, id ∈ (k.resolve C).snapshot.eventIds ↔ id ∈ (k.final C).acceptedInOrder := by
    rw [resolve_eq_final]
    exact (evaluated_final hproper.toComplete).accepted
  simp only [List.mem_filterMap, List.mem_filter, decide_eq_true_eq, hids]
  constructor
  · rintro ⟨event, ⟨hmem, haccepted⟩, hview⟩
    refine ⟨event.eventId, haccepted, hk.payloads.mpr ⟨event, hmem, rfl, ?_⟩⟩
    unfold channelView at hview
    split at hview
    · rename_i hdecode
      rw [hdecode, ← Option.some.inj hview]
    · cases hview
  · rintro ⟨id, haccepted, hpayload⟩
    obtain ⟨event, hmem, rfl, hdecode⟩ := hk.payloads.mp hpayload
    exact ⟨event, ⟨hmem, haccepted⟩, by rw [channelView, hdecode]⟩

theorem accepted_sorted :
    TopologicalOrder.Sorted core.parents (fun _ => True) (k.final C).acceptedInOrder where
  nodup := by
    have hproper := proper_stored hcore hstored hk
    exact k.order_nodup.sublist (evaluated_final (C := C) hproper.toComplete).sublist
  within _ _ := trivial
  before pre x post hsplit p hp _ := by
    have htrace := (evaluated_final (C := C) (proper_stored hcore hstored hk).toComplete).trace
    have hx : x ∈ core.known := accepted_stored hcore hstored hk (hsplit ▸ by simp)
    rw [hsplit] at htrace
    obtain ⟨_, _, hparents, _⟩ := htrace.split
    rw [← parents_stored hcore hstored hk hx] at hp
    exact hparents p hp

omit hcore hstored in
theorem message_eventId {view : MessageView} (hview : k.message id = some view) :
    view.eventId = id := by
  obtain ⟨event, hentry, hid, _⟩ := message_eq.mp hview
  exact hid.trans (hk.byId.mp hentry.1).2

theorem messages_sorted : ((k.final C).acceptedInOrder.filterMap k.message).Pairwise
    fun m later => m.eventId ≠ later.eventId ∧
      ¬ Reaches core.parents later.eventId m.eventId := by
  have hsorted := accepted_sorted hcore hstored hk
  rw [List.pairwise_filterMap]
  apply (List.Pairwise.and hsorted.nodup hsorted.not_reaches).imp
  intro x y hxy m hm later hlater
  rwa [message_eventId hk hm, message_eventId hk hlater]

end Reading

section Listings

variable (hcore : core.Sound C) (hstored : core.allEvents C = .ok stored)
  (hk : Describes C J stored k)
include hcore hstored hk

theorem channel_listed {view : MessageView} (hid : id ∈ (k.final C).acceptedInOrder)
    (hview : k.message id = some view) : ∃ created ∈ (k.final C).acceptedInOrder, ∃ name,
      k.payloads[created]? = some (.channelCreate view.channelId name) := by
  obtain ⟨pre, post, hsplit⟩ := List.append_of_mem hid
  have hcollected := collected_of_collect (collect_stored hcore hstored hk)
  have htrace := (evaluated_final (C := C) hcollected.toComplete).trace
  obtain ⟨_, payload, _, hentry, hentitled⟩ := htrace.entitled hcollected hsplit
  obtain ⟨_, hmessage, _, _⟩ := message_eq.mp hview
  obtain rfl := Option.some.inj (hmessage.2.1.symm.trans hentry.2.1)
  obtain ⟨created, hcreated, hname⟩ := hentitled.2
  refine ⟨created, ?_, hname⟩
  rw [hsplit]
  exact List.mem_append_left _ hcreated

theorem mem_messages {view : MessageView} :
    view ∈ (k.final C).acceptedInOrder.filterMap k.message ↔
      ∃ event, core.Has event ∧ event.eventId ∈ (k.resolve C).snapshot.eventIds ∧
        decode J event = .ok (.messageCreate view.channelId view.text) ∧
        authorId C event = .ok view.authorId ∧ view.eventId = event.eventId ∧
        view.timestampMs = event.content.timestampMs := by
  have hproper := proper_stored hcore hstored hk
  have hids : ∀ id, id ∈ (k.resolve C).snapshot.eventIds ↔ id ∈ (k.final C).acceptedInOrder := by
    rw [resolve_eq_final]
    exact (evaluated_final hproper.toComplete).accepted
  rw [List.mem_filterMap]
  constructor
  · rintro ⟨id, haccepted, hview⟩
    obtain ⟨event, hentry, hid, htime⟩ := message_eq.mp hview
    obtain ⟨hmem, rfl⟩ := hk.byId.mp hentry.1
    exact ⟨event, (mem_stored hcore hstored).mp hmem, (hids _).mpr haccepted,
      decode_of_entry hcore hstored hk hentry.1 hentry.2.1,
      authorId_of_entry hcore hstored hk hentry.1 hentry.2.2, hid, htime⟩
  · rintro ⟨event, hhas, haccepted, hdecode, hauthor, hid, htime⟩
    have hmem := (mem_stored hcore hstored).mpr hhas
    refine ⟨event.eventId, (hids _).mp haccepted, message_eq.mpr ⟨event, ⟨?_, ?_, ?_⟩, hid, htime⟩⟩
    · exact hk.byId.mpr ⟨hmem, rfl⟩
    · exact hk.payloads.mpr ⟨event, hmem, rfl, hdecode⟩
    · exact hk.authors.mpr ⟨event, hmem, rfl, hauthor⟩

end Listings

theorem liftOpened_eq_ok {x : Except NodeError CoreNode} : liftOpened x = .ok core ↔ x = .ok core := by
  cases x <;> simp [liftOpened]

theorem opened_community {store : EventStore} {community : CommunityId}
    (hopen : CoreNode.open C store (some community) = .ok core) :
    core.community = some community := by
  simp only [CoreNode.open] at hopen
  cases hevents : store.events C community with
  | error error =>
    rw [hevents] at hopen
    cases hopen
  | ok events =>
    rw [hevents] at hopen
    dsimp only at hopen
    split_ifs at hopen
    rw [← Except.ok.inj hopen]

theorem open_of_openCommunity {store : EventStore} {community : CommunityId}
    (hopen : openCommunity C store community = .ok core) :
    CoreNode.open C store (some community) = .ok core := by
  unfold openCommunity at hopen
  cases hevents : store.events C community with
  | error error =>
    rw [hevents] at hopen
    cases hopen
  | ok events =>
    rw [hevents] at hopen
    dsimp only at hopen
    split_ifs at hopen
    exact liftOpened_eq_ok.mp hopen

theorem openCommunity_of_whole {node : CoreNode} {community : CommunityId} (h : node.Whole C)
    (hcommunity : node.community = some community) :
    openCommunity C node.store community = .ok node := by
  obtain ⟨events, hevents, hids⟩ := h.events_spec hcommunity
  obtain ⟨id, hid, _⟩ := h.begun hcommunity
  have hsome : events.isEmpty = false := by
    rw [← Std.ExtTreeSet.mem_toList, ← hids] at hid
    cases events with
    | nil => simp at hid
    | cons event events => rfl
  simp only [openCommunity, hevents, hsome, h.open_eq hcommunity]
  rfl

/-- On every database that can come about, the listings succeed: the messages are the accepted
ones, each once and none above an earlier one, their channels are listed, and choosing a channel
picks its messages out of them. -/
theorem listings_consistent {node : CoreNode} {community : CommunityId} (J : PayloadReader)
    (h : CoreNode.Lives C node) (hopen : openCommunity C node.store community = .ok core) :
    ∃ stored resolution channels messages, core.allEvents C = .ok stored ∧
      resolve C J stored = .ok resolution ∧ commandListChannels C J core = .ok channels ∧
      commandListMessages C J core none = .ok messages ∧
      (∀ view, view ∈ messages ↔
        ∃ event, core.Has event ∧ event.eventId ∈ resolution.snapshot.eventIds ∧
          decode J event = .ok (.messageCreate view.channelId view.text) ∧
          authorId C event = .ok view.authorId ∧ view.eventId = event.eventId ∧
          view.timestampMs = event.content.timestampMs) ∧
      messages.Pairwise (fun m later => m.eventId ≠ later.eventId ∧
        ¬ Reaches core.parents later.eventId m.eventId) ∧
      (∀ m ∈ messages, ∃ channel ∈ channels, channel.channelId = m.channelId) ∧
      ∀ channelId, commandListMessages C J core (some channelId) =
        .ok (messages.filter fun m => channelId = m.channelId) := by
  obtain rfl := h.whole.opens (open_of_openCommunity hopen)
  have hcore := h.whole.toSound
  have hstored := hcore.allEvents_eq
  obtain ⟨k, hcollect, hk⟩ := candidates_spec (J := J) (stored_valid hcore hstored)
    (unambiguous_stored hcore hstored)
  obtain ⟨channels, hchannels, hmem⟩ := commandListChannels_eq hcore hstored hk
  refine ⟨_, k.resolve C, channels, _, hstored, resolve_eq hcollect, hchannels,
    commandListMessages_none hcore hstored hk, fun view => mem_messages hcore hstored hk,
    messages_sorted hcore hstored hk, ?_, ?_⟩
  · intro m hm
    obtain ⟨id, haccepted, hview⟩ := List.mem_filterMap.mp hm
    obtain ⟨created, hcreated, name, hname⟩ := channel_listed hcore hstored hk haccepted hview
    exact ⟨⟨m.channelId, name⟩, (hmem _).mpr ⟨created, hcreated, hname⟩, rfl⟩
  · intro channelId
    rw [commandListMessages_eq hcore hstored hk]
    rfl

section Example

open Sample

def parlour : CoreNode :=
  (CoreNode.ingestUnless crypto (fun _ => false) { store := {}, community := none, known := ∅ }
    [tell 1 [lobby] hello, lobby, genesis]).1

theorem parlour_lives : CoreNode.Lives crypto parlour := .ingest (.start rfl) _ _

theorem parlour_named : parlour.community = some club := by decide +kernel

theorem listings_consistent_parlour : ∃ channels messages,
    commandListChannels crypto brawlReader parlour = .ok channels ∧
      commandListMessages crypto brawlReader parlour none = .ok messages ∧
      ∀ m ∈ messages, ∃ channel ∈ channels, channel.channelId = m.channelId := by
  obtain ⟨_, _, channels, messages, _, _, hchannels, hmessages, _, _, hlisted, _⟩ :=
    listings_consistent brawlReader parlour_lives
      (openCommunity_of_whole parlour_lives.whole parlour_named)
  exact ⟨channels, messages, hchannels, hmessages, hlisted⟩

end Example

end ChatCommons
