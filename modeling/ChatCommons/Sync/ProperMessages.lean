import ChatCommons.Sync.Refinement
import ChatCommons.Sync.Steady

/-!
What a peer says is in order for every peer of its community.
-/

namespace ChatCommons

open Collections

variable {C : Crypto} {community : CommunityId} {node : CoreNode} {start peer later : SyncPeer}
  {message reply : SyncMessage} {events : List SignedEvent} {replies : List SyncMessage}
  {error : SyncError}

structure SyncMessage.Proper (C : Crypto) (community : CommunityId) (message : SyncMessage) :
    Prop where
  valid : validateMessage C message = .ok ()
  addressed : message.community = community
  belongs : ∀ event ∈ message.batch, event.belongsTo community

namespace SyncPeer

structure Stored (C : Crypto) (peer : SyncPeer) : Prop where
  rowId : ∀ {id : EventId} {event : SignedEvent},
    peer.node.store.rows[id]? = some event → event.eventId = id
  rowValid : ∀ {id : EventId} {event : SignedEvent},
    peer.node.store.rows[id]? = some event → event.Valid C

/-- The events are also of the community of the peer. -/
structure Stocked (C : Crypto) (peer : SyncPeer) : Prop extends Stored C peer where
  rowBelongs : ∀ {id : EventId} {event : SignedEvent},
    peer.node.store.rows[id]? = some event → event.belongsTo peer.community

theorem Advances.rows_from (h : peer.Advances C later) {id : EventId} {event : SignedEvent}
    (hrow : later.node.store.rows[id]? = some event) : peer.node.store.rows[id]? = some event ∨
      Fit C (fun _ => True) peer.community event ∧ event.eventId = id :=
  h.grows.rows_from hrow

theorem Stored.advances (h : peer.Stored C) (hadvances : peer.Advances C later) :
    later.Stored C := by
  constructor
  · intro id event hrow
    exact (hadvances.rows_from hrow).elim h.rowId And.right
  · intro id event hrow
    exact (hadvances.rows_from hrow).elim h.rowValid fun hnew => hnew.1.valid

theorem Stocked.advances (h : peer.Stocked C) (hadvances : peer.Advances C later) :
    later.Stocked C := by
  refine { h.toStored.advances hadvances with rowBelongs := ?_ }
  intro id event hrow
  rw [hadvances.community]
  exact (hadvances.rows_from hrow).elim h.rowBelongs fun hnew => hnew.1.belongs

theorem stored_of_new (hnew : SyncPeer.new node community = .ok start)
    (hwritten : node.store.Written C) : start.Stored C := by
  obtain ⟨_, rfl, _⟩ := steady_of_new (C := C) hnew
  exact ⟨fun hrow => (hwritten.row hrow).1, fun hrow => (hwritten.row hrow).2⟩

theorem stocked_of_run (hsteady : start.Steady C) (hstocked : start.Stocked C)
    (hrun : Relation.ReflTransGen (Call C) start peer) :
    peer.Stocked C ∧ peer.community = start.community := by
  induction hrun with
  | refl => exact ⟨hstocked, rfl⟩
  | tail hrun hcall ih =>
    have hadvances := (steady_of_run hsteady hrun).call hcall
    exact ⟨ih.1.advances hadvances, hadvances.community.trans ih.2⟩

section Producers

theorem wantMessages_proper {ids : List EventId} (hsorted : ids.Pairwise (· < ·))
    (hreply : reply ∈ wantMessages community ids) : reply.Proper C community := by
  obtain ⟨chunk, hchunk, rfl⟩ := List.mem_map.mp hreply
  exact ⟨(chunk_validates hsorted hchunk).2, rfl, by simp [SyncMessage.batch]⟩

theorem hello_proper (peer : SyncPeer) : peer.hello.Proper C peer.community := by
  refine ⟨validateMessage_iff.mpr ⟨?_, hello_fits peer.community⟩, rfl, ?_⟩
  · simp [hello, validateBody, MAX_VERSIONS]
  · simp [hello, SyncMessage.batch]

theorem headMessages_proper (h : peer.headMessages C = .ok replies) :
    ∀ reply ∈ replies, reply.Proper C peer.community := by
  unfold headMessages at h
  cases hheads : peer.node.heads C with
  | error error =>
    rw [hheads] at h
    cases h
  | ok heads =>
    have hsorted : heads.Pairwise (· < ·) := by
      unfold CoreNode.heads at hheads
      obtain ⟨events, _, hpure⟩ := Fallible.bind_eq_ok.mp hheads
      rw [← Except.ok.inj hpure]
      exact toList_sorted _
    rw [hheads] at h
    dsimp only at h
    split_ifs at h
    · intro reply hreply
      rw [← Except.ok.inj h, List.mem_singleton] at hreply
      subst hreply
      refine ⟨validateMessage_iff.mpr ⟨rfl, (ids_message_fits (by simp) _).2⟩, rfl, ?_⟩
      simp [SyncMessage.batch]
    · intro reply hreply
      rw [← Except.ok.inj h] at hreply
      obtain ⟨chunk, hchunk, rfl⟩ := List.mem_map.mp hreply
      exact ⟨(chunk_validates hsorted hchunk).1, rfl, by simp [SyncMessage.batch]⟩

theorem serve_proper (h : peer.Stocked C) {ids : List EventId} (hsorted : ids.Pairwise (· < ·)) :
    ∃ replies, peer.serve C ids = .ok replies ∧
      ∀ reply ∈ replies, reply.Proper C peer.community := by
  obtain ⟨batches, hserve, hflat, hbatches⟩ := serve_batches h.rowId h.rowValid hsorted
  refine ⟨_, hserve, fun reply hreply => ?_⟩
  obtain ⟨batch, hbatch, rfl⟩ := List.mem_map.mp hreply
  refine ⟨(hbatches batch hbatch).2, rfl, fun event hevent => ?_⟩
  have hserved : event ∈ batches.flatten := List.mem_flatten.mpr ⟨batch, hbatch, hevent⟩
  rw [hflat] at hserved
  obtain ⟨id, _, hrow⟩ := List.mem_filterMap.mp hserved
  exact h.rowBelongs hrow

theorem accept_proper (h : (peer.accept C events).2 = .ok replies) :
    ∀ reply ∈ replies, reply.Proper C peer.community := by
  have hsteps : ∃ later : SyncPeer, later.community = peer.community ∧
      replies = wantMessages later.community later.missingParents.toList := by
    rw [← acceptUnless_never] at h
    by_cases hadmits : peer.Admits events
    · rw [acceptUnless_admits hadmits] at h
      have hsame : ((peer.admitted events).ingestPendingUnless C fun _ => false).1.community =
          peer.community := by
        unfold ingestPendingUnless
        dsimp only
        split_ifs
        · cases (peer.admitted events).node.ingestUnless C (fun _ => false)
              ((peer.admitted events).pending.toList.map Prod.snd) with
          | mk node result => cases result <;> rfl
        · rfl
      cases hresult : (peer.admitted events).ingestPendingUnless C fun _ => false with
      | mk later result =>
        rw [hresult] at h hsame
        cases result with
        | error error => cases h
        | ok u => exact ⟨later, hsame, (Except.ok.inj h).symm⟩
    · obtain ⟨error, herror⟩ := acceptUnless_refuses C (fun _ => false) hadmits
      rw [herror] at h
      cases h
  obtain ⟨later, hcommunity, rfl⟩ := hsteps
  intro reply hreply
  rw [hcommunity] at hreply
  exact wantMessages_proper (toList_sorted later.missingParents) hreply

theorem receive_proper (h : peer.Stocked C) (hok : (peer.receive C message).2 = .ok replies) :
    ∀ reply ∈ replies, reply.Proper C peer.community := by
  unfold receive at hok
  cases hvalid : validateMessage C message with
  | error error =>
    rw [hvalid] at hok
    cases hok
  | ok u =>
    rw [hvalid] at hok
    dsimp only at hok
    split_ifs at hok
    cases message with
    | hello _ _ _ => exact headMessages_proper hok
    | heads _ ids =>
      have hsorted := (validateIds_iff.mp (validateMessage_iff.mp hvalid).1).2
      rw [← Except.ok.inj hok]
      intro reply hreply
      exact wantMessages_proper (hsorted.sublist List.filter_sublist) hreply
    | want _ ids =>
      have hsorted := (validateIds_iff.mp (validateMessage_iff.mp hvalid).1).2
      obtain ⟨served, hserve, hproper⟩ := serve_proper h hsorted
      rw [← Except.ok.inj (hserve.symm.trans hok)]
      exact hproper
    | events _ events => exact accept_proper hok

end Producers

section Refusals

/-- What may still refuse a message that is in order. -/
def Excused (error : SyncError) : Prop :=
  error = .itemLimitExceeded ∨ (∃ limit, error = .storageQuotaExceeded limit) ∨
    ∃ cause, error = .node (.storage cause)

theorem encodedEventBytes_ok (hvalid : ∀ event ∈ events, event.Valid C)
    (hlength : events.length ≤ MAX_PENDING_SYNC_EVENTS) :
    ∃ bytes, encodedEventBytes events = .ok bytes := by
  have hsum := List.sum_le_card_nsmul (events.map fun event => event.toJson.length) 271000
    (fun bytes hbytes => by
      obtain ⟨event, hevent, rfl⟩ := List.mem_map.mp hbytes
      exact event_json_length_le (hvalid event hevent))
  rw [List.length_map, smul_eq_mul] at hsum
  simp only [MAX_PENDING_SYNC_EVENTS] at hlength
  have hsmall : (events.map fun event => event.toJson.length).sum < 2 ^ 64 := by omega
  exact ⟨_, by rw [encodedEventBytes, if_pos hsmall]⟩

theorem checkQuota_excused (h : peer.Steady C) (hvalid : ∀ event ∈ events, event.Valid C)
    (hlength : events.length ≤ MAX_PENDING_SYNC_EVENTS)
    (herror : peer.checkQuota events = .error error) : Excused error := by
  obtain ⟨pending, hpending⟩ : ∃ bytes, encodedEventBytes peer.candidates = .ok bytes := by
    apply encodedEventBytes_ok (C := C)
    · intro event hevent
      obtain ⟨id, hid⟩ := mem_candidates hevent
      exact h.pendingValid hid
    · rw [candidates, List.length_map, Std.ExtTreeMap.length_toList]
      exact h.pendingSize
  obtain ⟨incoming, hincoming⟩ := encodedEventBytes_ok hvalid hlength
  rw [candidates] at hpending
  unfold checkQuota at herror
  cases hlimit : peer.maxStoredEventBytes with
  | none =>
    rw [hlimit] at herror
    cases herror
  | some limit =>
    rw [hlimit] at herror
    cases hstored : peer.node.storedEventBytes with
    | error cause =>
      simp only [hstored, bind, Except.bind, Except.error.injEq] at herror
      unfold CoreNode.storedEventBytes at hstored
      cases hbytes : peer.node.store.storedEventBytes with
      | error cause' =>
        rw [hbytes] at hstored
        rw [← herror, ← Except.error.inj hstored]
        exact Or.inr (Or.inr ⟨cause', rfl⟩)
      | ok bytes =>
        rw [hbytes] at hstored
        cases hstored
    | ok stored =>
      simp only [hstored, hpending, hincoming, bind, Except.bind] at herror
      split_ifs at herror
      exact Or.inr (Or.inl ⟨limit, (Except.error.inj herror).symm⟩)

theorem accept_excused (h : peer.Steady C) (hvalid : validateEvents C events = .ok ())
    (hbelongs : ∀ event ∈ events, event.belongsTo peer.community)
    (herror : (peer.accept C events).2 = .error error) : Excused error := by
  obtain ⟨_, hlength, _, hevents⟩ := validateEvents_iff.mp hvalid
  rw [← acceptUnless_never] at herror
  by_cases hadmits : peer.Admits events
  · rw [acceptUnless_admits hadmits] at herror
    obtain ⟨_, hbroken⟩ := (h.admitted hadmits hevents).ingestPending fun _ => false
    cases hresult : (peer.admitted events).ingestPendingUnless C fun _ => false with
    | mk later result =>
      rw [hresult] at herror hbroken
      cases result with
      | error cause =>
        obtain ⟨_, id, hfault⟩ := hbroken cause rfl
        cases hfault
      | ok u => cases herror
  · have hwrong : ¬ (events.any fun event => !event.belongsTo peer.community) = true := by
      simpa using hbelongs
    unfold acceptUnless at herror
    rw [if_neg hwrong] at herror
    dsimp only at herror
    split_ifs at herror with hroom
    · exact Or.inl (Except.error.inj herror).symm
    · cases hquota : peer.checkQuota
          (events.filter fun event => event.eventId ∈ peer.newIds events) with
      | ok u => exact absurd ⟨hbelongs, by omega, hquota⟩ hadmits
      | error cause =>
        rw [hquota] at herror
        rw [← Except.error.inj herror]
        apply checkQuota_excused h (fun event hevent => hevents event (List.mem_of_mem_filter hevent))
          _ hquota
        have hfilter := List.length_filter_le
          (fun event => decide (event.eventId ∈ peer.newIds events)) events
        simp only [MAX_EVENTS_PER_MESSAGE] at hlength
        simp only [MAX_PENDING_SYNC_EVENTS]
        omega

theorem headMessages_total (h : peer.Stocked C) : ∃ replies, peer.headMessages C = .ok replies := by
  unfold headMessages CoreNode.heads
  rw [CoreNode.events_eq_rows h.rowValid]
  simp only [bind, Except.bind, pure, Except.pure]
  split_ifs
  · exact ⟨_, rfl⟩
  · exact ⟨_, rfl⟩

theorem receive_excused (hsteady : peer.Steady C) (hstocked : peer.Stocked C)
    (h : message.Proper C peer.community) (herror : (peer.receive C message).2 = .error error) :
    Excused error := by
  unfold receive at herror
  simp only [h.valid, h.addressed, ne_eq, not_true_eq_false, if_false] at herror
  have hbody := (validateMessage_iff.mp h.valid).1
  cases message with
  | hello _ _ _ =>
    obtain ⟨replies, hreplies⟩ := headMessages_total hstocked
    cases hreplies.symm.trans herror
  | heads _ ids => cases herror
  | want _ ids =>
    obtain ⟨replies, hreplies, _⟩ := serve_proper hstocked (validateIds_iff.mp hbody).2
    cases hreplies.symm.trans herror
  | events _ events => exact accept_excused hsteady hbody h.belongs herror

end Refusals

/-- Whatever a peer of one community has received, what it says is in order, and what is in
order is refused by a peer of the community for want of room or by the database alone. -/
theorem proper_exchange (hnew : SyncPeer.new node community = .ok start)
    (hwritten : node.store.Written C)
    (hown : ∀ (id : EventId) (event : SignedEvent), node.store.rows[id]? = some event →
      event.belongsTo community)
    (hrun : Relation.ReflTransGen (Call C) start peer) :
    peer.hello.Proper C community ∧
    (∀ message replies, (peer.receive C message).2 = .ok replies →
      ∀ reply ∈ replies, reply.Proper C community) ∧
    ∀ message error, message.Proper C community → (peer.receive C message).2 = .error error →
      error = .itemLimitExceeded ∨ (∃ limit, error = .storageQuotaExceeded limit) ∨
        ∃ cause, error = .node (.storage cause) := by
  obtain ⟨hsteady, hnode, hstart⟩ := steady_of_new (C := C) hnew
  have hstocked : start.Stocked C := by
    refine { stored_of_new hnew hwritten with rowBelongs := ?_ }
    intro id event hrow
    rw [hnode] at hrow
    rw [hstart]
    exact hown id event hrow
  obtain ⟨hpeer, hsame⟩ := stocked_of_run hsteady hstocked hrun
  obtain rfl : peer.community = community := hsame.trans hstart
  refine ⟨hello_proper peer, ?_, ?_⟩
  · intro message replies hok
    exact receive_proper hpeer hok
  · intro message error hproper herror
    exact receive_excused (steady_of_run hsteady hrun) hpeer hproper herror

open Sample in
theorem proper_exchange_waiting : waiting.hello.Proper crypto club ∧
    (∀ message replies, (waiting.receive crypto message).2 = .ok replies →
      ∀ reply ∈ replies, reply.Proper crypto club) ∧
    ∀ message error, message.Proper crypto club →
      (waiting.receive crypto message).2 = .error error →
      error = .itemLimitExceeded ∨ (∃ limit, error = .storageQuotaExceeded limit) ∨
        ∃ cause, error = .node (.storage cause) :=
  proper_exchange waiting_new .empty
    (fun id event hrow => by
      have hnone : (∅ : BTreeMap EventId SignedEvent)[id]? = some event := hrow
      rw [Std.ExtTreeMap.getElem?_empty] at hnone
      cases hnone)
    (.single (.receive (fun _ => false) (.events club [invitation])))

end SyncPeer

end ChatCommons
