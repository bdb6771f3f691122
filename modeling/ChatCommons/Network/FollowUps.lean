import ChatCommons.Network.FrameSize
import ChatCommons.Sample.Star
import ChatCommons.Sync.ProperMessages

/-!
When the messages that a peer answers with fit into one frame.
-/

namespace ChatCommons

open Collections JsonText

variable {C : Crypto} {community : CommunityId} {node : CoreNode} {start peer later : SyncPeer}
  {message : SyncMessage} {messages : List SyncMessage} {events : List SignedEvent}
  {ids : List EventId}

section Frames

/-- More than a message of 64 ids takes. -/
def SHORT_MESSAGE_BYTES : ℕ := 8600

theorem ids_message_short (h : ids.length ≤ MAX_IDS_PER_MESSAGE) (community : CommunityId) :
    (SyncMessage.want community ids).toJson.length ≤ SHORT_MESSAGE_BYTES ∧
      (SyncMessage.heads community ids).toJson.length ≤ SHORT_MESSAGE_BYTES := by
  have hids : (array (ids.map fun id => byteArray id.asBytes)).length ≤
      131 * MAX_IDS_PER_MESSAGE + 2 := ids_json_length_le h
  have hid := id_json_length_le community
  have e1 : (string "Want").length = 6 := by decide
  have e2 : (string "Heads").length = 7 := by decide
  have e3 : (string "community_id").length = 14 := by decide
  have e4 : (string "event_ids").length = 11 := by decide
  simp only [MAX_IDS_PER_MESSAGE] at hids
  simp only [SyncMessage.toJson, object, List.map_cons, List.map_nil, commas, field,
    List.length_append, List.length_cons, List.length_nil, e1, e2, e3, e4, SHORT_MESSAGE_BYTES]
  omega

theorem sync_response_length_le {k : ℕ} (h : ∀ message ∈ messages, message.toJson.length ≤ k) :
    (NetworkResponse.sync messages).toJson.length ≤ (k + 1) * messages.length + 24 := by
  have hitems : ∀ item ∈ messages.map SyncMessage.toJson, item.length ≤ k := by
    intro item hitem
    obtain ⟨message, hmessage, rfl⟩ := List.mem_map.mp hitem
    exact h message hmessage
  have harray := array_length_le hitems
  have e1 : (string "Sync").length = 6 := by decide
  have e2 : (string "messages").length = 10 := by decide
  rw [List.length_map] at harray
  simp only [NetworkResponse.toJson, object, List.map_cons, List.map_nil, commas, field,
    List.length_append, List.length_cons, List.length_nil, e1, e2]
  omega

theorem normalize_short
    (h : ∀ message ∈ splitWants messages, message.toJson.length ≤ SHORT_MESSAGE_BYTES) :
    (∃ normalized, normalizeMessages messages = .ok normalized) ↔
      (splitWants messages).length ≤ MAX_MESSAGES_PER_FRAME := by
  have hlength := sync_response_length_le h
  unfold normalizeMessages
  dsimp only
  by_cases hcount : (splitWants messages).length ≤ MAX_MESSAGES_PER_FRAME
  · have hfits : ¬ (NetworkResponse.sync (splitWants messages)).toJson.length >
        MAX_NETWORK_FRAME_BYTES := by
      simp only [MAX_MESSAGES_PER_FRAME] at hcount
      simp only [SHORT_MESSAGE_BYTES] at hlength
      simp only [MAX_NETWORK_FRAME_BYTES]
      omega
    rw [if_neg (by omega), if_neg hfits]
    exact ⟨fun _ => hcount, fun _ => ⟨_, rfl⟩⟩
  · rw [if_pos (by omega)]
    constructor
    · rintro ⟨_, h⟩
      cases h
    · intro hle
      exact absurd hle hcount

theorem splitWants_wantMessages (community : CommunityId) (ids : List EventId) :
    splitWants (wantMessages community ids) = ids.map fun id => .want community [id] := by
  have hsplit : ∀ parts : List (List EventId),
      splitWants (parts.map (SyncMessage.want community)) =
        parts.flatten.map fun id => .want community [id] := by
    intro parts
    induction parts with
    | nil => rfl
    | cons part parts ih =>
      rw [List.map_cons, List.flatten_cons, List.map_append, ← ih]
      rfl
  rw [wantMessages, hsplit, chunks_flatten (by decide)]

theorem normalize_wants (community : CommunityId) (ids : List EventId) :
    (∃ normalized, normalizeMessages (wantMessages community ids) = .ok normalized) ↔
      ids.length ≤ MAX_MESSAGES_PER_FRAME := by
  rw [normalize_short, splitWants_wantMessages, List.length_map]
  intro message hmessage
  rw [splitWants_wantMessages] at hmessage
  obtain ⟨id, _, rfl⟩ := List.mem_map.mp hmessage
  exact (ids_message_short (by simp [MAX_IDS_PER_MESSAGE]) community).1

theorem splitWants_of_not_want (h : ∀ message ∈ messages, ∀ c ids, message ≠ .want c ids) :
    splitWants messages = messages := by
  induction messages with
  | nil => rfl
  | cons message messages ih =>
    have hrest := ih fun other hother => h other (List.mem_cons_of_mem _ hother)
    have hfirst := h message (List.mem_cons_self)
    cases message with
    | want c ids => exact absurd rfl (hfirst c ids)
    | hello _ _ _ => exact congrArg (List.cons _) hrest
    | heads _ _ => exact congrArg (List.cons _) hrest
    | events _ _ => exact congrArg (List.cons _) hrest

theorem chunks_length_le {α : Type} {size : ℕ} (hsize : 0 < size) (k : ℕ) (ids : List α) :
    (chunks size ids).length ≤ k ↔ ids.length ≤ k * size := by
  refine chunks_induction hsize
    (P := fun ids parts => ∀ k, parts.length ≤ k ↔ ids.length ≤ k * size) (by simp)
    (fun ids rest hne ih k => ?_) ids k
  have hpos := List.length_pos_iff.mpr hne
  cases k with
  | zero =>
    rw [List.length_cons, Nat.zero_mul]
    omega
  | succ k =>
    have hrest := ih k
    rw [List.length_drop] at hrest
    rw [List.length_cons, Nat.succ_mul]
    omega

theorem normalize_heads {heads : List EventId} (hheads : peer.node.heads C = .ok heads)
    (hok : peer.headMessages C = .ok messages) :
    (∃ normalized, normalizeMessages messages = .ok normalized) ↔
      heads.length ≤ MAX_MESSAGES_PER_FRAME * MAX_IDS_PER_MESSAGE := by
  have hshape : (∀ message ∈ messages, ∃ chunk, chunk.length ≤ MAX_IDS_PER_MESSAGE ∧
      message = .heads peer.community chunk) ∧ (messages.length ≤ MAX_MESSAGES_PER_FRAME ↔
        heads.length ≤ MAX_MESSAGES_PER_FRAME * MAX_IDS_PER_MESSAGE) := by
    unfold SyncPeer.headMessages at hok
    rw [hheads] at hok
    dsimp only at hok
    split_ifs at hok with hempty
    · rw [← Except.ok.inj hok, List.isEmpty_iff.mp hempty]
      refine ⟨fun message hmessage => ⟨[], by simp, List.mem_singleton.mp hmessage⟩, ?_⟩
      simp [MAX_MESSAGES_PER_FRAME]
    · rw [← Except.ok.inj hok]
      constructor
      · intro message hmessage
        obtain ⟨chunk, hchunk, rfl⟩ := List.mem_map.mp hmessage
        exact ⟨chunk, (chunks_shape (by decide) heads chunk hchunk).2.1, rfl⟩
      · rw [List.length_map]
        exact chunks_length_le (by decide) _ _
  obtain ⟨hheadsOnly, hcount⟩ := hshape
  have hsame : splitWants messages = messages := by
    apply splitWants_of_not_want
    intro message hmessage c ids hwant
    obtain ⟨chunk, _, hchunk⟩ := hheadsOnly message hmessage
    cases hchunk.symm.trans hwant
  rw [normalize_short, hsame, hcount]
  intro message hmessage
  rw [hsame] at hmessage
  obtain ⟨chunk, hlength, rfl⟩ := hheadsOnly message hmessage
  exact (ids_message_short hlength peer.community).2

theorem normalize_served (hstored : peer.Stored C) {id : EventId}
    (hok : peer.serve C [id] = .ok messages) :
    ∃ normalized, normalizeMessages messages = .ok normalized := by
  obtain ⟨batches, hserve, hflat, hbatches⟩ :=
    SyncPeer.serve_batches hstored.rowId hstored.rowValid (List.pairwise_singleton _ id)
  obtain rfl := Except.ok.inj (hok.symm.trans hserve)
  have hone : batches.length ≤ 1 := by
    have htotal : batches.flatten.length ≤ 1 := by
      rw [hflat]
      exact (List.length_filterMap_le _ _).trans (by simp)
    have hcount : batches.length ≤ batches.flatten.length := by
      rw [List.length_flatten, ← Nat.mul_one batches.length, ← smul_eq_mul,
          ← List.length_map List.length]
      apply List.card_nsmul_le_sum
      intro n hn
      obtain ⟨batch, hbatch, rfl⟩ := List.mem_map.mp hn
      exact List.length_pos_iff.mpr (hbatches batch hbatch).1
    omega
  have hsame : splitWants (batches.map (SyncMessage.events peer.community)) =
      batches.map (SyncMessage.events peer.community) := by
    apply splitWants_of_not_want
    intro message hmessage c ids hwant
    obtain ⟨batch, _, rfl⟩ := List.mem_map.mp hmessage
    cases hwant
  have hlength := sync_response_length_le (fun message hmessage => by
    obtain ⟨batch, hbatch, rfl⟩ := List.mem_map.mp hmessage
    exact (validateMessage_iff.mp (hbatches batch hbatch).2).2)
  unfold normalizeMessages
  dsimp only
  rw [hsame]
  rw [List.length_map] at hlength ⊢
  simp only [MAX_SYNC_JSON_BYTES] at hlength
  have hfew : ¬ batches.length > MAX_MESSAGES_PER_FRAME := by
    simp only [MAX_MESSAGES_PER_FRAME]
    omega
  have hfits : ¬ (NetworkResponse.sync (batches.map (SyncMessage.events peer.community))).toJson.length
      > MAX_NETWORK_FRAME_BYTES := by
    simp only [MAX_NETWORK_FRAME_BYTES]
    omega
  rw [if_neg hfew, if_neg hfits]
  exact ⟨_, rfl⟩

end Frames

namespace SyncPeer

/-- The calls on a peer whose database works. -/
inductive Talk (C : Crypto) (peer : SyncPeer) : SyncPeer → Prop
  | quota {later : SyncPeer} {maxBytes : ℕ} (h : peer.withStorageQuota maxBytes = .ok later) :
    Talk C peer later
  | receive (message : SyncMessage) : Talk C peer (peer.receive C message).1

def Apart (peer : SyncPeer) : Prop := ∀ id ∈ peer.pending, id ∉ peer.node.known

theorem Talk.call (h : peer.Talk C later) : peer.Call C later := by
  cases h with
  | quota hquota => exact .quota hquota
  | receive message =>
    rw [← receiveUnless_never]
    exact .receive _ message

theorem mem_missing {id : EventId} : id ∈ peer.missingParents ↔
    (∃ (k : EventId) (event : SignedEvent), peer.pending[k]? = some event ∧
      id ∈ event.content.parents) ∧ id ∉ peer.node.known ∧ id ∉ peer.pending := by
  simp only [missingParents, mem_setOf, List.mem_filter, isUnknown, List.mem_flatMap, Prod.exists,
    mem_toList, decide_eq_true_eq]

theorem Apart.admitted (h : peer.Apart) (events : List SignedEvent) :
    (peer.admitted events).Apart := by
  intro id hid
  rcases (admitPending_spec events).2.mp hid with hold | ⟨hnew, _⟩
  · exact h id hold
  · rw [newIds, mem_setOf, List.mem_filter, isUnknown, decide_eq_true_eq] at hnew
    exact hnew.2.1

def pruned (peer : SyncPeer) : SyncPeer :=
  { peer with pending := peer.pending.filter fun id _ => id ∉ peer.node.known }

/-- The unknown parents of the events that are pending and not stored. -/
def awaited (peer : SyncPeer) : BTreeSet EventId := peer.pruned.missingParents

theorem mem_awaited {id : EventId} : id ∈ peer.awaited ↔
    (∃ (k : EventId) (event : SignedEvent), peer.pending[k]? = some event ∧
      k ∉ peer.node.known ∧ id ∈ event.content.parents) ∧
    id ∉ peer.node.known ∧ id ∉ peer.pending := by
  have hkept : ∀ {k : EventId} {event : SignedEvent}, peer.pruned.pending[k]? = some event ↔
      peer.pending[k]? = some event ∧ k ∉ peer.node.known := by
    intro k event
    exact getElem?_filter_key.trans (and_congr_right fun _ => decide_eq_true_iff)
  have hmem : id ∈ peer.pruned.pending ↔ id ∈ peer.pending ∧ id ∉ peer.node.known := by
    simp only [mem_iff, hkept, exists_and_right]
  have hnode : peer.pruned.node = peer.node := rfl
  rw [awaited, mem_missing, hmem, hnode]
  simp only [hkept, and_assoc]
  apply and_congr_right
  intro _
  apply and_congr_right
  intro hknown
  rw [and_iff_left hknown]

theorem Apart.awaited_eq (h : peer.Apart) : peer.awaited = peer.missingParents := by
  apply set_ext
  intro id
  rw [mem_awaited, mem_missing]
  apply and_congr_left
  intro _
  constructor
  · rintro ⟨k, event, hevent, _, hparent⟩
    exact ⟨k, event, hevent, hparent⟩
  · rintro ⟨k, event, hevent, hparent⟩
    exact ⟨k, event, hevent, h k (mem_of_getElem? hevent), hparent⟩

/-- What is taken into the store changes nothing in what is awaited. -/
theorem Steady.ingested (h : peer.Steady C) (hcan : peer.canIngest = true)
    (hcandidates : peer.candidates ≠ []) (hok : peer.ingestPending C = (later, .ok ())) :
    later.Apart ∧ later.missingParents = peer.awaited := by
  have hingest : (peer.canIngest && !(peer.pending.toList.map Prod.snd).isEmpty) = true := by
    rw [hcan, Bool.true_and, Bool.not_eq_true', List.isEmpty_eq_false_iff]
    exact hcandidates
  unfold SyncPeer.ingestPending at hok
  dsimp only at hok
  rw [if_pos hingest] at hok
  have hchecked := h.ingests hcan
  obtain ⟨hgrows, _⟩ : Grows C (· ∈ peer.candidates) peer.community peer.node
      (peer.node.ingestUnless C (fun _ => false) peer.candidates).1 ∧ _ :=
    ingestUnless_checked hchecked.length hchecked.valid hchecked.community hchecked.belongs
  rw [ingestUnless_never, candidates] at hgrows
  cases hresult : peer.node.ingest C (peer.pending.toList.map Prod.snd) with
  | mk node' result =>
    rw [hresult] at hok hgrows
    cases result with
    | error error => cases hok
    | ok report =>
      obtain ⟨hlater, _⟩ := Prod.mk.inj hok
      have hpending : ∀ {id : EventId} {event : SignedEvent}, later.pending[id]? = some event ↔
          peer.pending[id]? = some event ∧ id ∉ node'.known := by
        intro id event
        rw [← hlater]
        exact getElem?_filter_key.trans (and_congr_right fun _ => decide_eq_true_iff)
      have hnode : later.node = node' := by rw [← hlater]
      have hkept : ∀ {id}, id ∈ later.pending ↔ id ∈ peer.pending ∧ id ∉ node'.known := by
        intro id
        simp only [mem_iff, hpending, exists_and_right]
      refine ⟨fun id hid => hnode ▸ (hkept.mp hid).2, set_ext fun id => ?_⟩
      rw [mem_missing, mem_awaited, hnode, hkept]
      constructor
      · rintro ⟨⟨k, event, hevent, hparent⟩, hknown, hnot⟩
        obtain ⟨hold, hk⟩ := hpending.mp hevent
        exact ⟨⟨k, event, hold, fun hid => hk (hgrows.known_mono hid), hparent⟩,
          fun hid => hknown (hgrows.known_mono hid), fun hid => hnot ⟨hid, hknown⟩⟩
      · rintro ⟨⟨k, event, hevent, hfresh, hparent⟩, hknown, hnot⟩
        have hstill : id ∉ node'.known := by
          intro hid
          obtain hold | ⟨other, hfit, hother, _⟩ := hgrows.known_from hid
          · exact hknown hold
          · obtain ⟨j, hj⟩ := mem_candidates hfit.offered
            rw [← hother, h.pendingId hj] at hnot
            exact hnot (mem_of_getElem? hj)
        refine ⟨⟨k, event, hpending.mpr ⟨hevent, fun hk => ?_⟩, hparent⟩, hstill,
          fun hid => hnot hid.1⟩
        obtain hold | ⟨other, hfit, hother, hparents⟩ := hgrows.known_from hk
        · exact hfresh hold
        · obtain ⟨j, hj⟩ := mem_candidates hfit.offered
          obtain rfl : j = k := (h.pendingId hj).symm.trans hother
          obtain rfl : other = event := Option.some.inj (hj.symm.trans hevent)
          exact hstill (hparents id hparent)

theorem ingest_skips (hskip : ¬ (peer.canIngest = true ∧ peer.candidates ≠ []))
    (hok : peer.ingestPending C = (later, .ok ())) : later = peer := by
  have hnone : ¬ (peer.canIngest && !(peer.pending.toList.map Prod.snd).isEmpty) = true := by
    rw [Bool.and_eq_true, Bool.not_eq_true', List.isEmpty_eq_false_iff]
    exact hskip
  unfold SyncPeer.ingestPending at hok
  dsimp only at hok
  rw [if_neg hnone] at hok
  exact (Prod.mk.inj hok).1.symm

theorem Steady.ingest_missing (h : peer.Steady C) (hapart : peer.Apart)
    (hok : peer.ingestPending C = (later, .ok ())) :
    later.Apart ∧ later.missingParents = peer.missingParents := by
  by_cases hingest : peer.canIngest = true ∧ peer.candidates ≠ []
  · obtain ⟨hlater, hmissing⟩ := h.ingested hingest.1 hingest.2 hok
    exact ⟨hlater, hmissing.trans hapart.awaited_eq⟩
  · obtain rfl := ingest_skips hingest hok
    exact ⟨hapart, rfl⟩

theorem Steady.ingest_awaited (h : peer.Steady C) (hopen : peer.node.community.isSome = true)
    (hok : peer.ingestPending C = (later, .ok ())) : later.missingParents = peer.awaited := by
  have hcan : peer.canIngest = true := by
    rw [canIngest, hopen, Bool.true_or]
  by_cases hcandidates : peer.candidates ≠ []
  · exact (h.ingested hcan hcandidates hok).2
  · obtain rfl := ingest_skips (fun hingest => hcandidates hingest.2) hok
    have hnone : later.Apart := by
      intro id hid
      obtain ⟨event, hevent⟩ := mem_iff.mp hid
      have hmem : event ∈ later.candidates := mem_values.mpr ⟨id, hevent⟩
      rw [not_not.mp hcandidates] at hmem
      cases hmem
    exact hnone.awaited_eq.symm

theorem accept_follows (h : peer.Steady C) (hapart : peer.Apart)
    (hvalid : ∀ event ∈ events, event.Valid C) :
    (peer.accept C events).1.Apart ∧ ∀ messages, (peer.accept C events).2 = .ok messages →
      messages = wantMessages peer.community (peer.admitted events).missingParents.toList := by
  rw [← acceptUnless_never]
  by_cases hadmits : peer.Admits events
  swap
  · obtain ⟨error, herror⟩ := acceptUnless_refuses C (fun _ => false) hadmits
    rw [herror]
    exact ⟨hapart, by simp⟩
  rw [acceptUnless_admits hadmits]
  have hadmitted := h.admitted hadmits hvalid
  obtain ⟨hadvances, hnever⟩ := hadmitted.ingestPending fun _ => false
  cases hresult : (peer.admitted events).ingestPendingUnless C fun _ => false with
  | mk later result =>
    rw [hresult] at hadvances hnever
    cases result with
    | error error =>
      obtain ⟨_, _, hfault⟩ := hnever error rfl
      cases hfault
    | ok u =>
      rw [ingestPendingUnless_never] at hresult
      obtain ⟨hlater, hmissing⟩ :=
        hadmitted.ingest_missing (hapart.admitted events) hresult
      refine ⟨hlater, ?_⟩
      rintro _ ⟨⟩
      rw [hmissing, hadvances.community]
      rfl

theorem Apart.receive (h : peer.Apart) (hsteady : peer.Steady C) (message : SyncMessage) :
    (peer.receive C message).1.Apart := by
  unfold SyncPeer.receive
  cases hvalid : validateMessage C message with
  | error error => exact h
  | ok u =>
    dsimp only
    split_ifs
    · exact h
    · cases message with
      | hello _ _ _ => exact h
      | heads _ _ => exact h
      | want _ _ => exact h
      | events _ events =>
        exact (accept_follows hsteady h
          (validateEvents_iff.mp (validateMessage_iff.mp hvalid).1).2.2.2).1

/-- What holds of a peer in every session. -/
structure Talking (C : Crypto) (peer : SyncPeer) : Prop where
  steady : peer.Steady C
  stored : peer.Stored C
  apart : peer.Apart

theorem talking_of_run (hnew : SyncPeer.new node community = .ok start)
    (hwritten : node.store.Written C) (hrun : Relation.ReflTransGen (Talk C) start peer) :
    peer.Talking C := by
  induction hrun with
  | refl =>
    refine ⟨(steady_of_new hnew).1, stored_of_new hnew hwritten, ?_⟩
    unfold SyncPeer.new at hnew
    split_ifs at hnew
    rw [← Except.ok.inj hnew]
    intro id hid
    exact absurd hid (by simp)
  | tail _ hcall ih =>
    have hadvances := ih.steady.call hcall.call
    refine ⟨hadvances.steady, ih.stored.advances hadvances, ?_⟩
    cases hcall with
    | quota hquota =>
      obtain ⟨hnode, _, hpending⟩ := withStorageQuota_keeps hquota
      rw [Apart, hnode, hpending]
      exact ih.apart
    | receive message => exact ih.apart.receive ih.steady message

/-- There are not more heads, or missing parents, than a frame holds messages for. -/
def Fits (C : Crypto) (peer : SyncPeer) : SyncMessage → Prop
  | .hello .. => ∀ heads, peer.node.heads C = .ok heads →
      heads.length ≤ MAX_MESSAGES_PER_FRAME * MAX_IDS_PER_MESSAGE
  | .heads .. => True
  | .want .. => True
  | .events _ events => (peer.admitted events).missingParents.size ≤ MAX_MESSAGES_PER_FRAME

theorem Talking.answer (h : peer.Talking C) (hwant : ∀ c ids, message = .want c ids → ∃ id, ids = [id])
    (hok : (peer.receive C message).2 = .ok messages) :
    (∃ normalized, normalizeMessages messages = .ok normalized) ↔ peer.Fits C message := by
  unfold receive at hok
  cases hvalid : validateMessage C message with
  | error error =>
    rw [hvalid] at hok
    cases hok
  | ok u =>
    rw [hvalid] at hok
    dsimp only at hok
    split_ifs at hok
    cases message with
    | hello _ _ _ =>
      cases hheads : peer.node.heads C with
      | error error =>
        have hfails : peer.headMessages C = .error (.node error) := by
          rw [headMessages, hheads]
        cases hfails.symm.trans hok
      | ok heads =>
        rw [normalize_heads hheads hok]
        constructor
        · intro hfew others hothers
          rwa [← Except.ok.inj (hheads.symm.trans hothers)]
        · intro hfew
          exact hfew heads hheads
    | heads _ ids =>
      have hlength := (validateIds_iff.mp (validateMessage_iff.mp hvalid).1).1
      rw [← Except.ok.inj hok, wantUnknown, normalize_wants]
      have hfilter := List.length_filter_le peer.isUnknown ids
      simp only [MAX_IDS_PER_MESSAGE] at hlength
      simp only [Fits, MAX_MESSAGES_PER_FRAME, iff_true]
      omega
    | want c ids =>
      obtain ⟨id, rfl⟩ := hwant c ids rfl
      exact ⟨fun _ => trivial, fun _ => normalize_served h.stored hok⟩
    | events _ events =>
      have hevents := (validateEvents_iff.mp (validateMessage_iff.mp hvalid).1).2.2.2
      rw [(accept_follows h.steady h.apart hevents).2 messages hok, normalize_wants,
        Std.ExtTreeSet.length_toList]
      exact Iff.rfl

theorem splitWants_single {ids : List EventId}
    (h : SyncMessage.want community ids ∈ splitWants messages) : ∃ id, ids = [id] := by
  obtain ⟨message, _, hsplit⟩ := List.mem_flatMap.mp h
  cases message with
  | want c others =>
    obtain ⟨id, _, hwant⟩ := List.mem_map.mp hsplit
    exact ⟨id, (SyncMessage.want.inj hwant).2.symm⟩
  | hello _ _ _ => simp at hsplit
  | heads _ _ => simp at hsplit
  | events _ _ => simp at hsplit

/-- What a peer answers to a greeting, or to a message that has itself come through a frame,
fits into a frame unless it has more than 4096 heads or lacks more than 64 parents. -/
theorem follow_ups_fit (hnew : SyncPeer.new node community = .ok start)
    (hwritten : node.store.Written C) (hrun : Relation.ReflTransGen (Talk C) start peer)
    (hsent : (∃ other : SyncPeer, message = other.hello) ∨ ∃ earlier normalized,
      normalizeMessages earlier = .ok normalized ∧ message ∈ normalized)
    (hok : (peer.receive C message).2 = .ok messages) :
    (∃ normalized, normalizeMessages messages = .ok normalized) ↔ peer.Fits C message := by
  have hwant : ∀ c ids, message = .want c ids → ∃ id, ids = [id] := by
    rintro c ids rfl
    obtain ⟨other, hother⟩ | ⟨earlier, normalized, hnormalized, hmem⟩ := hsent
    · cases hother
    · unfold normalizeMessages at hnormalized
      dsimp only at hnormalized
      split_ifs at hnormalized
      rw [← Except.ok.inj hnormalized] at hmem
      exact splitWants_single hmem
  exact (talking_of_run hnew hwritten hrun).answer hwant hok

section Example

open Sample Dag

theorem waiting_answers : (waiting.receive crypto (waiting.hello)).2 = .ok [.heads club []] := by
  decide +kernel

theorem follow_ups_fit_waiting :
    (∃ normalized, normalizeMessages [.heads club []] = .ok normalized) ↔
      waiting.Fits crypto waiting.hello :=
  follow_ups_fit waiting_new .empty
    (.single (by
      rw [waiting, receiveUnless_never]
      exact .receive (.events club [invitation])))
    (Or.inl ⟨waiting, rfl⟩) waiting_answers

def starPeer (n : ℕ) : SyncPeer := { node := starNode n, community := Sample.community }

theorem starPeer_new (n : ℕ) : SyncPeer.new (starNode n) Sample.community = .ok (starPeer n) := by
  have hnone : (starNode n).community.any (· ≠ Sample.community) = false := by
    rw [starNode, CoreNode.ofEvents]
    split_ifs <;> simp
  rw [SyncPeer.new, hnone]
  rfl

variable {n : ℕ} (hn : n ≤ MAX_PAYLOAD_BYTES)
include hn

theorem star_heads_length {heads : List EventId}
    (hmem : ∀ id, id ∈ heads ↔ IsHead (starNode n).parents (starNode n).knownSet id) :
    n - 1 ≤ heads.length := by
  have hnodup : ((List.range (n - 1)).map fun k => linkId (k + 1)).Nodup := by
    refine List.Nodup.map_on ?_ List.nodup_range
    intro j hj k hk heq
    rw [List.mem_range] at hj hk
    have := linkId_inj_below hn (by omega) (by omega) heq
    omega
  have hsub : ∀ id ∈ (List.range (n - 1)).map fun k => linkId (k + 1), id ∈ heads := by
    intro id hid
    obtain ⟨k, hk, rfl⟩ := List.mem_map.mp hid
    rw [List.mem_range] at hk
    exact (hmem _).mpr (starNode_isHead hn (by omega) (by omega))
  have hlength := (List.subperm_of_subset hnodup hsub).length_le
  rwa [List.length_map, List.length_range] at hlength

theorem starPeer_overflows (hmany : 4098 ≤ n) :
    ∃ messages, ((starPeer n).receive crypto (starPeer n).hello).2 = .ok messages ∧
      normalizeMessages messages = .error .frameLimit := by
  have hsound : (starPeer n).node.Sound crypto := starNode_sound hn
  obtain ⟨heads, hheads, _, hmem⟩ := hsound.heads_spec
  have hgreeted : ((starPeer n).receive crypto (starPeer n).hello).2 =
      (starPeer n).headMessages crypto := by
    have hvalid : validateMessage crypto (starPeer n).hello = .ok () :=
      (hello_proper (starPeer n)).valid
    have hcommunity : (starPeer n).hello.community = (starPeer n).community := rfl
    unfold receive
    rw [hvalid]
    dsimp only
    rw [if_neg (by simpa using hcommunity)]
    rfl
  cases hmessages : (starPeer n).headMessages crypto with
  | error error =>
    unfold headMessages at hmessages
    rw [hheads] at hmessages
    dsimp only at hmessages
    split_ifs at hmessages
  | ok messages =>
    refine ⟨messages, hgreeted.trans hmessages, ?_⟩
    have hlength := star_heads_length hn hmem
    have hnot : ¬ ∃ normalized, normalizeMessages messages = .ok normalized := by
      rw [normalize_heads hheads hmessages]
      simp only [MAX_MESSAGES_PER_FRAME, MAX_IDS_PER_MESSAGE]
      omega
    unfold normalizeMessages at hnot ⊢
    dsimp only at hnot ⊢
    split_ifs at hnot ⊢
    · rfl
    · rfl
    · exact absurd ⟨_, rfl⟩ hnot

omit hn in
/-- One event with 4097 branches on it: a greeting is answered with 65 messages. -/
theorem crowded_overflows : (starNode 4098).Sound crypto ∧
    SyncPeer.new (starNode 4098) Sample.community = .ok (starPeer 4098) ∧
    ∃ messages, ((starPeer 4098).receive crypto (starPeer 4098).hello).2 = .ok messages ∧
      normalizeMessages messages = .error .frameLimit :=
  ⟨starNode_sound (by decide), starPeer_new _, starPeer_overflows (by decide) (le_refl _)⟩

end Example

end SyncPeer

end ChatCommons
