import ChatCommons.General.Weight
import ChatCommons.Sync.Steady

/-!
What the storage quota counts: the bytes of the stored and of the pending events. Taking events
in moves bytes from the second sum to the first, and never adds to both.
-/

namespace ChatCommons

open Collections

variable {C : Crypto} {peer later : SyncPeer} {events : List SignedEvent} {message : SyncMessage}
  {limit : ℕ}

def rowBytes (row : EventId × SignedEvent) : ℕ := row.2.toJson.length

namespace SyncPeer

/-- The bytes that the quota counts. -/
def occupied (peer : SyncPeer) : ℕ :=
  weight rowBytes peer.node.store.rows + weight rowBytes peer.pending

structure Within (C : Crypto) (limit : ℕ) (peer : SyncPeer) : Prop where
  steady : peer.Steady C
  quota : peer.maxStoredEventBytes = some limit
  fits : peer.occupied ≤ limit

theorem storedEventBytes_eq {bytes : ℕ} (h : peer.node.storedEventBytes = .ok bytes) :
    bytes = weight rowBytes peer.node.store.rows := by
  unfold CoreNode.storedEventBytes EventStore.storedEventBytes at h
  dsimp only at h
  split_ifs at h
  exact (Except.ok.inj h).symm

theorem checkQuota_ok {incoming : List SignedEvent} (hquota : peer.maxStoredEventBytes = some limit)
    (h : peer.checkQuota incoming = .ok ()) :
    peer.occupied + (incoming.map fun event => event.toJson.length).sum ≤ limit := by
  unfold checkQuota encodedEventBytes at h
  rw [hquota] at h
  cases hstored : peer.node.storedEventBytes with
  | error error =>
    rw [hstored] at h
    cases h
  | ok stored =>
    rw [hstored] at h
    simp only [bind, Except.bind, List.map_map] at h
    split_ifs at h with hpending hincoming
    dsimp only at h
    split_ifs at h with hprojected
    have hrows := storedEventBytes_eq hstored
    have hsum : (peer.pending.toList.map ((fun event => event.toJson.length) ∘ Prod.snd)).sum =
        weight rowBytes peer.pending := rfl
    rw [occupied, ← hrows, ← hsum]
    omega

/-- What `accept` puts among the pending events is what the quota test counted. -/
theorem Admits.occupied (h : peer.Admits events) (hquota : peer.maxStoredEventBytes = some limit) :
    (peer.admitted events).occupied ≤ limit := by
  have hcounted := checkQuota_ok hquota h.quota
  have hadded : weight rowBytes (peer.admitted events).pending ≤ weight rowBytes peer.pending +
      (((events.filter fun event => event.eventId ∈ peer.newIds events).map
        fun event => (event.eventId, event)).map rowBytes).sum := by
    apply weight_le_add
    rintro ⟨id, event⟩ hrow
    obtain hold | ⟨hmem, rfl, hnew⟩ := (admitPending_spec events).1 event (mem_toList.mp hrow)
    · exact .inl (mem_toList.mpr hold)
    · right
      apply List.mem_map.mpr
      exact ⟨event, List.mem_filter.mpr ⟨hmem, decide_eq_true hnew⟩, rfl⟩
  rw [List.map_map] at hadded
  have hsame : (rowBytes ∘ fun event : SignedEvent => (event.eventId, event)) =
      fun event => event.toJson.length := rfl
  rw [hsame] at hadded
  have hnode : (peer.admitted events).node = peer.node := rfl
  rw [SyncPeer.occupied, hnode]
  rw [SyncPeer.occupied] at hcounted
  omega

end SyncPeer

namespace SyncPeer

theorem Steady.ingestPending_occupied (h : peer.Steady C) :
    (peer.ingestPending C).1.occupied ≤ peer.occupied := by
  unfold SyncPeer.ingestPending
  dsimp only
  by_cases hcan : (peer.canIngest && !peer.candidates.isEmpty) = true
  swap
  · have hskip : ¬ (peer.canIngest && !(peer.pending.toList.map Prod.snd).isEmpty) = true := hcan
    rw [if_neg hskip]
  have hingest : (peer.canIngest && !(peer.pending.toList.map Prod.snd).isEmpty) = true := hcan
  rw [if_pos hingest]
  have hchecked := h.ingests (Bool.and_eq_true_iff.mp hcan).1
  obtain ⟨hgrows, hfails⟩ : Grows C (· ∈ peer.candidates) peer.community peer.node
        (peer.node.ingestUnless C (fun _ => false) peer.candidates).1 ∧
      ((∃ report, (peer.node.ingestUnless C (fun _ => false) peer.candidates).2 = .ok report) ∨
        ∃ id, (fun _ : EventId => false) id = true) :=
    ingestUnless_checked hchecked.length hchecked.valid hchecked.community hchecked.belongs
  rw [ingestUnless_never, candidates] at hgrows hfails
  cases hresult : peer.node.ingest C (peer.pending.toList.map Prod.snd) with
  | mk later result =>
    rw [hresult] at hgrows hfails
    cases result with
    | error error =>
      obtain ⟨report, hreport⟩ | ⟨id, hid⟩ := hfails
      · cases hreport
      · cases hid
    | ok report =>
      apply weight_move
      · rintro ⟨id, event⟩ hrow
        have hrow' := mem_toList.mp hrow
        obtain hold | hknown := hgrows.row_known hrow'
        · exact .inl (mem_toList.mpr hold)
        obtain hold | ⟨hfit, rfl⟩ := hgrows.rows_from hrow'
        · exact .inl (mem_toList.mpr hold)
        · right
          obtain ⟨id, hid⟩ := mem_candidates hfit.offered
          obtain rfl := h.pendingId hid
          refine ⟨mem_toList.mpr hid, fun hstill => ?_⟩
          obtain ⟨other, hother⟩ := mem_iff.mp hstill
          exact absurd hknown (of_decide_eq_true (getElem?_filter_key.mp hother).2)
      · rintro ⟨id, event⟩ hrow
        exact mem_toList.mpr (getElem?_filter_key.mp (mem_toList.mp hrow)).1

theorem ingestPending_quota (peer : SyncPeer) :
    (peer.ingestPending C).1.maxStoredEventBytes = peer.maxStoredEventBytes := by
  unfold SyncPeer.ingestPending
  dsimp only
  split_ifs
  · cases peer.node.ingest C (peer.pending.toList.map Prod.snd) with
    | mk node result => cases result <;> rfl
  · rfl

/-- Only the peer that `accept` puts the events into counts, whatever comes of the ingestion. -/
theorem accept_within (h : peer.Within C limit) (hvalid : ∀ event ∈ events, event.Valid C) :
    (peer.accept C events).1.maxStoredEventBytes = some limit ∧
      (peer.accept C events).1.occupied ≤ limit := by
  rw [← acceptUnless_never]
  by_cases hadmits : peer.Admits events
  swap
  · obtain ⟨error, herror⟩ := acceptUnless_refuses C (fun _ => false) hadmits
    rw [herror]
    exact ⟨h.quota, h.fits⟩
  · have hadmitted := h.steady.admitted hadmits hvalid
    have hle := hadmitted.ingestPending_occupied.trans (hadmits.occupied h.quota)
    have hquota : ((peer.admitted events).ingestPending C).1.maxStoredEventBytes = some limit :=
      (ingestPending_quota _).trans h.quota
    rw [acceptUnless_admits hadmits, ingestPendingUnless_never]
    revert hle hquota
    cases (peer.admitted events).ingestPending C with
    | mk later result => cases result <;> exact fun hle hquota => ⟨hquota, hle⟩

theorem Within.receive (h : peer.Within C limit) (message : SyncMessage) :
    (peer.receive C message).1.Within C limit := by
  have hsteady := (h.steady.receive (fun _ => false) message).1.steady
  rw [receiveUnless_never] at hsteady
  suffices hkept : (peer.receive C message).1.maxStoredEventBytes = some limit ∧
      (peer.receive C message).1.occupied ≤ limit from ⟨hsteady, hkept.1, hkept.2⟩
  unfold SyncPeer.receive
  cases hvalid : validateMessage C message with
  | error error => exact ⟨h.quota, h.fits⟩
  | ok u =>
    dsimp only
    split_ifs
    · exact ⟨h.quota, h.fits⟩
    · cases message with
      | hello _ _ _ | heads _ _ | want _ _ => exact ⟨h.quota, h.fits⟩
      | events _ events =>
        apply accept_within h
        exact (validateEvents_iff.mp (validateMessage_iff.mp hvalid).1).2.2.2

theorem Within.reopens (h : peer.Within C limit) {reopened : SyncPeer}
    (hstore : reopened.node.store = peer.node.store) :
    reopened.withStorageQuota limit ≠ .error (.storageQuotaExceeded limit) := by
  unfold withStorageQuota
  split_ifs
  · simp
  · cases hstored : reopened.node.storedEventBytes with
    | error error => simp
    | ok stored =>
      have hbytes := storedEventBytes_eq hstored
      have hfits := h.fits
      rw [occupied, ← hstore] at hfits
      dsimp only
      rw [if_neg (by omega)]
      simp

theorem within_of_start {node : CoreNode} {community : CommunityId} {start : SyncPeer}
    (hnew : SyncPeer.new node community = .ok start)
    (hquota : start.withStorageQuota limit = .ok peer) : peer.Within C limit := by
  have hsteady := ((steady_of_new (C := C) hnew).1.call (.quota hquota)).steady
  have hpending : start.pending = ∅ := by
    unfold SyncPeer.new at hnew
    split_ifs at hnew
    rw [← Except.ok.inj hnew]
  unfold withStorageQuota at hquota
  split_ifs at hquota
  cases hstored : start.node.storedEventBytes with
  | error error =>
    rw [hstored] at hquota
    cases hquota
  | ok stored =>
    rw [hstored] at hquota
    dsimp only at hquota
    split_ifs at hquota with hexceeds
    cases hquota
    refine ⟨hsteady, rfl, ?_⟩
    have hbytes := storedEventBytes_eq hstored
    have hempty : weight rowBytes start.pending = 0 := by rw [hpending]; rfl
    rw [occupied, ← hbytes, hempty]
    omega

end SyncPeer

end ChatCommons
