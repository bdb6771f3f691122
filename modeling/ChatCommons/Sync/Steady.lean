import ChatCommons.Core.Growth
import ChatCommons.Model.FaultyPeer
import ChatCommons.Sync.AcceptSpec
import ChatCommons.Sync.Confinement

/-!
Whatever messages a peer is given and wherever its database fails, its pending events stay fit
to be taken in, so a message that it refuses leaves it as it was.
-/

namespace ChatCommons

open Collections

variable {C : Crypto} {community : CommunityId} {node : CoreNode} {start peer later : SyncPeer}
  {message : SyncMessage} {events : List SignedEvent} {fault : EventId → Bool}

namespace SyncPeer

inductive Call (C : Crypto) (peer : SyncPeer) : SyncPeer → Prop
  | quota {later : SyncPeer} {maxBytes : ℕ} (h : peer.withStorageQuota maxBytes = .ok later) :
    Call C peer later
  | receive (fault : EventId → Bool) (message : SyncMessage) :
    Call C peer (peer.receiveUnless C fault message).1

structure Steady (C : Crypto) (peer : SyncPeer) : Prop where
  community : ∀ c, peer.node.community = some c → c = peer.community
  pendingId : ∀ {id : EventId} {event : SignedEvent},
    peer.pending[id]? = some event → event.eventId = id
  pendingValid : ∀ {id : EventId} {event : SignedEvent},
    peer.pending[id]? = some event → event.Valid C
  pendingBelongs : ∀ {id : EventId} {event : SignedEvent},
    peer.pending[id]? = some event → event.belongsTo peer.community
  pendingSize : peer.pending.size ≤ MAX_PENDING_SYNC_EVENTS

structure Admits (peer : SyncPeer) (events : List SignedEvent) : Prop where
  belongs : ∀ event ∈ events, event.belongsTo peer.community
  room : peer.pending.size + (peer.newIds events).size ≤ MAX_PENDING_SYNC_EVENTS
  quota : peer.checkQuota (events.filter fun event => event.eventId ∈ peer.newIds events) = .ok ()

def admitted (peer : SyncPeer) (events : List SignedEvent) : SyncPeer :=
  peer.admitPending (peer.newIds events) events

def candidates (peer : SyncPeer) : List SignedEvent := peer.pending.toList.map Prod.snd

theorem acceptUnless_refuses (C : Crypto) (fault : EventId → Bool)
    (h : ¬ peer.Admits events) : ∃ error, peer.acceptUnless C fault events = (peer, .error error) := by
  unfold acceptUnless
  by_cases hbelongs : ∀ event ∈ events, event.belongsTo peer.community
  swap
  · have hwrong : (events.any fun event => !event.belongsTo peer.community) = true := by
      simpa using hbelongs
    exact ⟨_, by rw [if_pos hwrong]⟩
  have hwrong : ¬ (events.any fun event => !event.belongsTo peer.community) = true := by
    simpa using hbelongs
  rw [if_neg hwrong]
  by_cases hroom : peer.pending.size + (peer.newIds events).size ≤ MAX_PENDING_SYNC_EVENTS
  swap
  · exact ⟨_, by dsimp only; rw [if_pos (by omega)]⟩
  dsimp only
  rw [if_neg (by omega)]
  cases hquota : peer.checkQuota (events.filter fun event => event.eventId ∈ peer.newIds events) with
  | error error => exact ⟨error, rfl⟩
  | ok u => exact absurd ⟨hbelongs, hroom, hquota⟩ h

theorem acceptUnless_admits (h : peer.Admits events) :
    peer.acceptUnless C fault events =
      match (peer.admitted events).ingestPendingUnless C fault with
      | (later, .error error) => (later, .error error)
      | (later, .ok _) => (later, .ok (wantMessages later.community later.missingParents.toList)) := by
  have hwrong : ¬ (events.any fun event => !event.belongsTo peer.community) = true := by
    simpa using h.belongs
  have hroom := h.room
  unfold acceptUnless
  rw [if_neg hwrong]
  dsimp only
  rw [if_neg (by omega), h.quota]
  rfl

/-- A peer of the same community, whose node has grown. -/
structure Advances (C : Crypto) (peer later : SyncPeer) : Prop where
  steady : later.Steady C
  community : later.community = peer.community
  grows : Grows C (fun _ => True) peer.community peer.node later.node

theorem Steady.refl (h : peer.Steady C) : peer.Advances C peer := ⟨h, rfl, .refl⟩

theorem Steady.admitted (h : peer.Steady C) (hadmits : peer.Admits events)
    (hvalid : ∀ event ∈ events, event.Valid C) : (peer.admitted events).Steady C := by
  have hfrom : ∀ {id : EventId} {event : SignedEvent},
      (peer.admitted events).pending[id]? = some event →
        peer.pending[id]? = some event ∨ event ∈ events ∧ event.eventId = id := by
    intro id event hevent
    obtain hold | ⟨hmem, hid, _⟩ := (admitPending_spec events).1 event hevent
    · exact Or.inl hold
    · exact Or.inr ⟨hmem, hid⟩
  refine ⟨h.community, ?_, ?_, ?_, ?_⟩
  · intro id event hevent
    exact (hfrom hevent).elim h.pendingId And.right
  · intro id event hevent
    exact (hfrom hevent).elim h.pendingValid fun hnew => hvalid event hnew.1
  · intro id event hevent
    exact (hfrom hevent).elim h.pendingBelongs fun hnew => hadmits.belongs event hnew.1
  · exact admitPending_size.trans hadmits.room

section Ingesting

theorem mem_candidates {event : SignedEvent} (h : event ∈ peer.candidates) :
    ∃ id : EventId, peer.pending[id]? = some event := mem_values.mp h

/-- The pending events pass the checks of `ingest`. -/
structure Ingests (C : Crypto) (peer : SyncPeer) : Prop where
  length : peer.candidates.length ≤ MAX_PENDING_EVENTS
  valid : ∀ event ∈ peer.candidates, event.Valid C
  belongs : ∀ event ∈ peer.candidates, event.belongsTo peer.community
  community : peer.node.ingestCommunity C peer.candidates = .ok peer.community

theorem Steady.ingests (h : peer.Steady C) (hcan : peer.canIngest = true) : peer.Ingests C := by
  have hvalid : ∀ event ∈ peer.candidates, event.Valid C := by
    intro event hevent
    obtain ⟨id, hid⟩ := mem_candidates hevent
    exact h.pendingValid hid
  have hbelongs : ∀ event ∈ peer.candidates, event.belongsTo peer.community := by
    intro event hevent
    obtain ⟨id, hid⟩ := mem_candidates hevent
    exact h.pendingBelongs hid
  refine ⟨?_, hvalid, hbelongs, ingestCommunity_eq hvalid hbelongs ?_⟩
  · rw [candidates, List.length_map, Std.ExtTreeMap.length_toList]
    exact h.pendingSize
  · cases hc : peer.node.community with
    | some c => exact Or.inl (by rw [h.community c hc])
    | none =>
      right
      simp only [canIngest, hc, Option.isSome_none, Bool.false_or, List.any_eq_true,
        Bool.and_eq_true, Option.isNone_iff_eq_none] at hcan
      obtain ⟨row, hrow, hgenesis, _⟩ := hcan
      exact ⟨rfl, row.2, List.mem_map_of_mem hrow, hgenesis⟩

/-- The pending events move into the store; only the database can refuse them. -/
theorem Steady.ingestPending (h : peer.Steady C) (fault : EventId → Bool) :
    peer.Advances C (peer.ingestPendingUnless C fault).1 ∧
      ∀ error, (peer.ingestPendingUnless C fault).2 = .error error →
        (∃ cause, error = .node (.storage cause)) ∧ ∃ id, fault id = true := by
  unfold ingestPendingUnless
  dsimp only
  by_cases hcan : (peer.canIngest && !peer.candidates.isEmpty) = true
  swap
  · have hskip : ¬ (peer.canIngest && !(peer.pending.toList.map Prod.snd).isEmpty) = true := hcan
    rw [if_neg hskip]
    exact ⟨h.refl, by simp⟩
  have hingest : (peer.canIngest && !(peer.pending.toList.map Prod.snd).isEmpty) = true := hcan
  rw [if_pos hingest]
  have hchecked := h.ingests (Bool.and_eq_true_iff.mp hcan).1
  obtain ⟨hgrows, hfails⟩ : Grows C (· ∈ peer.candidates) peer.community peer.node
        (peer.node.ingestUnless C fault peer.candidates).1 ∧
      ((∃ report, (peer.node.ingestUnless C fault peer.candidates).2 = .ok report) ∨
        ∃ id, fault id = true) :=
    ingestUnless_checked hchecked.length hchecked.valid hchecked.community hchecked.belongs
  have hbroken : ∀ error, (peer.node.ingestUnless C fault peer.candidates).2 = .error error →
      ∃ cause, error = .storage cause := fun error herror =>
    ingestUnless_broken hchecked.length hchecked.valid hchecked.community hchecked.belongs herror
  rw [candidates] at hgrows hfails hbroken
  cases hresult : peer.node.ingestUnless C fault (peer.pending.toList.map Prod.snd) with
  | mk node' result =>
    rw [hresult] at hgrows hfails hbroken
    have hcommunity : ∀ c, node'.community = some c → c = peer.community := by
      intro c hc
      obtain hsame | hsame := hgrows.community_from
      · exact h.community c (hsame ▸ hc)
      · exact (Option.some.inj (hsame.symm.trans hc)).symm
    have hgrown : Grows C (fun _ => True) peer.community peer.node node' :=
      hgrows.mono fun _ _ => trivial
    cases result with
    | error error =>
      refine ⟨⟨⟨hcommunity, h.pendingId, h.pendingValid, h.pendingBelongs, h.pendingSize⟩, rfl,
        hgrown⟩, ?_⟩
      rintro _ ⟨⟩
      obtain ⟨cause, rfl⟩ := hbroken error rfl
      exact ⟨⟨cause, rfl⟩, hfails.resolve_left (by simp)⟩
    | ok report =>
      refine ⟨⟨⟨hcommunity, ?_, ?_, ?_, ?_⟩, rfl, hgrown⟩, by simp⟩
      · intro id event hevent
        exact h.pendingId (getElem?_filter_key.mp hevent).1
      · intro id event hevent
        exact h.pendingValid (getElem?_filter_key.mp hevent).1
      · intro id event hevent
        exact h.pendingBelongs (getElem?_filter_key.mp hevent).1
      · refine (map_size_le (l := peer.pending.keys) fun id hid => ?_).trans ?_
        · obtain ⟨event, hevent⟩ := mem_iff.mp hid
          exact Std.ExtTreeMap.mem_keys.mpr (mem_of_getElem? (getElem?_filter_key.mp hevent).1)
        · rw [Std.ExtTreeMap.length_keys]
          exact h.pendingSize

end Ingesting

theorem Steady.receive (h : peer.Steady C) (fault : EventId → Bool) (message : SyncMessage) :
    peer.Advances C (peer.receiveUnless C fault message).1 ∧
      ∀ error, (peer.receiveUnless C fault message).2 = .error error →
        (peer.receiveUnless C fault message).1 = peer ∨
          (∃ cause, error = .node (.storage cause)) ∧ ∃ id, fault id = true := by
  unfold receiveUnless
  cases hvalid : validateMessage C message with
  | error error => exact ⟨h.refl, fun _ _ => Or.inl rfl⟩
  | ok u =>
    dsimp only
    split_ifs with hcommunity
    · exact ⟨h.refl, fun _ _ => Or.inl rfl⟩
    · cases message with
      | hello _ _ _ => exact ⟨h.refl, fun _ _ => Or.inl rfl⟩
      | heads _ _ => exact ⟨h.refl, fun _ _ => Or.inl rfl⟩
      | want _ _ => exact ⟨h.refl, fun _ _ => Or.inl rfl⟩
      | events _ events =>
        dsimp only
        by_cases hadmits : peer.Admits events
        · have hevents := (validateEvents_iff.mp (validateMessage_iff.mp hvalid).1).2.2.2
          obtain ⟨hadvances, herrors⟩ :=
            (h.admitted hadmits hevents).ingestPending fault
          rw [acceptUnless_admits hadmits]
          have hcommunity : (peer.admitted events).community = peer.community := rfl
          have hnode : (peer.admitted events).node = peer.node := rfl
          cases hresult : (peer.admitted events).ingestPendingUnless C fault with
          | mk later result =>
            rw [hresult] at hadvances herrors
            have hlater : peer.Advances C later :=
              ⟨hadvances.steady, hadvances.community, hadvances.grows⟩
            cases result with
            | error error =>
              refine ⟨hlater, ?_⟩
              rintro _ ⟨⟩
              exact Or.inr (herrors error rfl)
            | ok u => exact ⟨hlater, by simp⟩
        · obtain ⟨error, herror⟩ := acceptUnless_refuses C fault hadmits
          rw [herror]
          exact ⟨h.refl, fun _ _ => Or.inl rfl⟩

theorem withStorageQuota_keeps {maxBytes : ℕ} (h : peer.withStorageQuota maxBytes = .ok later) :
    later.node = peer.node ∧ later.community = peer.community ∧ later.pending = peer.pending := by
  unfold withStorageQuota at h
  cases hstored : peer.node.storedEventBytes with
  | error error =>
    rw [hstored] at h
    split_ifs at h
  | ok stored =>
    rw [hstored] at h
    dsimp only at h
    split_ifs at h
    rw [← Except.ok.inj h]
    exact ⟨rfl, rfl, rfl⟩

theorem Steady.call (h : peer.Steady C) (hcall : peer.Call C later) : peer.Advances C later := by
  cases hcall with
  | quota hquota =>
    obtain ⟨hnode, hcommunity, hpending⟩ := withStorageQuota_keeps hquota
    refine ⟨⟨?_, ?_, ?_, ?_, ?_⟩, hcommunity, ?_⟩
    · rw [hnode, hcommunity]
      exact h.community
    · rw [hpending]
      exact h.pendingId
    · rw [hpending]
      exact h.pendingValid
    · rw [hpending, hcommunity]
      exact h.pendingBelongs
    · rw [hpending]
      exact h.pendingSize
    · rw [hnode]
      exact .refl
  | receive fault message => exact (h.receive fault message).1

theorem steady_of_new (h : SyncPeer.new node community = .ok start) :
    start.Steady C ∧ start.node = node ∧ start.community = community := by
  unfold SyncPeer.new at h
  split_ifs at h with hwrong
  rw [← Except.ok.inj h]
  refine ⟨⟨?_, ?_, ?_, ?_, ?_⟩, rfl, rfl⟩
  · intro c hc
    by_contra hne
    have hc' : node.community = some c := hc
    rw [hc'] at hwrong
    simp only [Option.any_some, decide_eq_true_eq] at hwrong
    exact hwrong hne
  all_goals simp

theorem steady_of_run (hstart : start.Steady C)
    (hrun : Relation.ReflTransGen (Call C) start peer) : peer.Steady C := by
  induction hrun with
  | refl => exact hstart
  | tail _ hcall ih => exact (ih.call hcall).steady

theorem receive_refused (h : peer.Steady C) {error : SyncError}
    (herror : (peer.receive C message).2 = .error error) : (peer.receive C message).1 = peer := by
  rw [← receiveUnless_never] at herror ⊢
  obtain hsame | ⟨_, id, hfault⟩ := (h.receive (fun _ => false) message).2 error herror
  · exact hsame
  · cases hfault

/-- A refused message changes nothing, unless the database has failed; the pending events it
leads to are refused by nothing but the database. -/
theorem refused_unchanged (hnew : SyncPeer.new node community = .ok start)
    (hrun : Relation.ReflTransGen (Call C) start peer) (message : SyncMessage) :
    (∀ error, (peer.receive C message).2 = .error error → (peer.receive C message).1 = peer) ∧
    (∀ fault error, (peer.receiveUnless C fault message).2 = .error error →
      (peer.receiveUnless C fault message).1 = peer ∨
        (∃ cause, error = .node (.storage cause)) ∧ ∃ id, fault id = true) ∧
    ∀ events fault error, validateMessage C (.events peer.community events) = .ok () →
      peer.Admits events → (peer.admitted events).canIngest = true →
      ((peer.admitted events).node.ingestUnless C fault (peer.admitted events).candidates).2 =
        .error error → ∃ cause, error = .storage cause := by
  have h := steady_of_run (steady_of_new hnew).1 hrun
  refine ⟨fun error herror => receive_refused h herror, fun fault error herror => ?_, ?_⟩
  · exact (h.receive fault message).2 error herror
  · intro events fault error hvalid hadmits hcan herror
    have hevents := (validateEvents_iff.mp (validateMessage_iff.mp hvalid).1).2.2.2
    have hchecked := (h.admitted hadmits hevents).ingests hcan
    exact ingestUnless_broken hchecked.length hchecked.valid hchecked.community
      hchecked.belongs herror

section Example

open Sample

def empty : CoreNode := { store := {}, community := none, known := ∅ }

def waiting : SyncPeer :=
  (receiveUnless crypto (fun _ => false) { node := empty, community := club }
    (.events club [invitation])).1

theorem waiting_refuses : (waiting.receive crypto (.events club [annex, invitation])).2 =
    .error .invalidEventIds := by decide +kernel

theorem waiting_new :
    SyncPeer.new empty club = .ok { node := empty, community := club } := rfl

theorem refused_unchanged_waiting :
    (waiting.receive crypto (.events club [annex, invitation])).1 = waiting :=
  (refused_unchanged waiting_new (.single (.receive (fun _ => false) (.events club [invitation])))
    (.events club [annex, invitation])).1 _ waiting_refuses

end Example

end SyncPeer

end ChatCommons
