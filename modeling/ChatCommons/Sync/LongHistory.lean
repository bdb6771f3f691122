import ChatCommons.Sync.PendingLimit

/-!
A history without branches, fetched from an empty start: it arrives last event
first, and nothing can be stored before the first event is there.
-/

namespace ChatCommons

open Collections AntiEntropy Sample

variable {C : Crypto} {s t : SyncSession} {last : ℕ}

theorem exists_in_order_end (hacc : Acc (fun t s => s.Step C t) s) :
    ∃ t, Relation.ReflTransGen (SyncSession.InOrder C) s t ∧ t.flight = [] := by
  induction hacc with
  | intro s _ ih =>
    cases hflight : s.flight with
    | nil => exact ⟨s, .refl, hflight⟩
    | cons e rest =>
      have hsplit : s.flight = [] ++ (e.1, e.2) :: rest := hflight
      obtain ⟨t, hrun, ht⟩ := ih _ (.deliver hsplit)
      exact ⟨t, .head (.deliver hsplit (by simp)) hrun, ht⟩

theorem steps_of_in_order
    (h : Relation.ReflTransGen (SyncSession.InOrder C) s t) : s.Steps C t :=
  Relation.ReflTransGen.mono (fun _ _ ⟨hflight, _⟩ => .deliver hflight) _ _ h

structure Climbing (last : ℕ) (s : SyncSession) : Prop where
  empty : ∀ id, id ∉ (s.peer .right).node.known
  upward : ∀ k < last, linkId k ∈ (s.peer .right).pending ∨ s.view.Mentions .right (linkId k) →
    linkId (k + 1) ∈ (s.peer .right).pending

section Chain

variable (hlast : MAX_PENDING_SYNC_EVENTS ≤ last) (hbound : last < MAX_PAYLOAD_BYTES)
include hbound

theorem chain_injOn : Set.InjOn SignedEvent.eventId (rowEvents (chainNodes (last + 1) 0)) :=
  chainNodes_injOn hbound (by decide)

theorem parentsOf_link {k : ℕ} (hk : k ≤ last) :
    parentsOf (rowEvents (chainNodes (last + 1) 0)) (linkId k) =
      if k = 0 then [] else [linkId (k - 1)] := by
  have hrow : link k ∈ rowEvents (chainNodes (last + 1) 0) :=
    ⟨.left, linkId k, (chainNode_row hbound).mpr ⟨k, by omega, rfl, rfl⟩⟩
  have hparents := parentsOf_eq (chain_injOn hbound) hrow
  rw [link_eventId, link_content] at hparents
  rw [hparents, linkContent]

theorem linkId_inj_le {j k : ℕ} (hj : j ≤ last) (hk : k ≤ last) (h : linkId j = linkId k) :
    j = k := by
  have hsmall : MAX_PAYLOAD_BYTES < 2 ^ 255 := by decide
  exact linkId_injective (by omega) (by omega) h

theorem chain_download (hrun : (SyncSession.start (chainPeers (last + 1) 0)).Steps crypto s) :
    Download crypto community (chainNodes (last + 1) 0) .right s :=
  download_run (chainNodes_sound hbound (by decide)) (chainNodes_new _ _) (chain_injOn hbound)
    (fun id hid => by
      obtain ⟨k, hk, _⟩ := chainNode_known.mp hid
      omega) hrun

omit hbound in
theorem Download.link_of_known (h : Download crypto community (chainNodes (last + 1) 0) .right s)
    {d : Side} {id : EventId} (hid : id ∈ (s.peer d).node.known) : ∃ k ≤ last, linkId k = id := by
  obtain ⟨k, hk, he⟩ := chainNode_known.mp (h.within d id hid)
  exact ⟨k, by omega, he⟩

theorem first_stored (h : Download crypto community (chainNodes (last + 1) 0) .right s)
    {id : EventId} (hid : id ∈ (s.peer .right).node.known) :
    linkId 0 ∈ (s.peer .right).node.known := by
  obtain ⟨k, hk, rfl⟩ := h.link_of_known hid
  have hclosed := (h.coherent.honest .right).closed (chain_injOn hbound)
  induction k with
  | zero => exact hid
  | succ k ih =>
    refine ih (by omega) (hclosed _ hid _ ?_)
    rw [parentsOf_link hbound hk]
    simp

omit hbound in
theorem Climbing.all_pending (hc : Climbing last s)
    (h0 : linkId 0 ∈ (s.peer .right).pending ∨ s.view.Mentions .right (linkId 0)) :
    ∀ k < last, linkId (k + 1) ∈ (s.peer .right).pending := by
  intro k
  induction k with
  | zero => exact fun hk => hc.upward 0 hk h0
  | succ k ih => exact fun hk => hc.upward _ hk (Or.inl (ih (by omega)))

include hlast in
/-- Once the first event of the chain arrives, there is no room for all of the chain. -/
theorem climbing_overflow (hc : Climbing last s) {message : SyncMessage}
    (hmem : (Side.right, message) ∈ s.flight)
    (hsize : (s.peer .right).pending.size + ((s.peer .right).newIds message.batch).size
      ≤ MAX_PENDING_SYNC_EVENTS)
    (h0 : linkId 0 ∈ (s.peer .right).pending ∨
      ∃ event ∈ message.batch, event.eventId = linkId 0) : False := by
  have hup := hc.all_pending (h0.imp_right fun ⟨event, he, heq⟩ =>
    Or.inr (Or.inr (heq ▸ sent_of_batch hmem he)))
  have hnodup : ((List.range (last + 1)).map linkId).Nodup := by
    refine List.Nodup.map_on (fun j hj k hk h => ?_) List.nodup_range
    rw [List.mem_range] at hj hk
    exact linkId_inj_le hbound (by omega) (by omega) h
  have hle : ((List.range (last + 1)).map linkId).length ≤ ((s.peer .right).pending.keys ++
      ((s.peer .right).newIds message.batch).toList).length := by
    refine List.Subperm.length_le (List.subperm_of_subset hnodup fun id hid => ?_)
    obtain ⟨k, hk, rfl⟩ := List.mem_map.mp hid
    rw [List.mem_range] at hk
    rw [List.mem_append, Std.ExtTreeMap.mem_keys, Std.ExtTreeSet.mem_toList, mem_newIds]
    cases k with
    | zero =>
      by_cases hp : linkId 0 ∈ (s.peer .right).pending
      · exact Or.inl hp
      · exact Or.inr ⟨h0.resolve_left hp, hc.empty _, hp⟩
    | succ k => exact Or.inl (hup k (by omega))
  rw [List.length_map, List.length_range, List.length_append, Std.ExtTreeMap.length_keys,
    Std.ExtTreeSet.length_toList] at hle
  omega

include hlast in
theorem climbing_empty (h : Download crypto community (chainNodes (last + 1) 0) .right s)
    (ht : Download crypto community (chainNodes (last + 1) 0) .right t)
    (hc : Climbing last s) (hstep : s.Step crypto t) (herr : t.errors = s.errors) :
    ∀ id, id ∉ (t.peer .right).node.known := by
  obtain ⟨_, _, d, message, hflight, ⟨_, _, rfl⟩ | ⟨peer', _, ha, rfl⟩⟩ :=
    h.coherent.step_cases (chain_injOn hbound) hstep
  · simp at herr
  · have hmem : (d, message) ∈ s.flight := by rw [hflight]; simp
    intro id hid
    have hfirst := first_stored hbound ht hid
    cases d with
    | left => exact hc.empty _ (by simpa using hid)
    | right =>
      simp only [Function.update_self] at hid hfirst
      rcases ha.receives.eq_or_events with hview | ⟨l, hl, hacc⟩
      · exact hc.empty id ((Set.ext_iff.mp (congrArg Peer.stored hview) id).mp hid)
      · cases message with
        | hello _ _ _ => cases hl
        | heads _ _ => cases hl
        | want _ _ => cases hl
        | events _ events =>
          cases hl
          have hbody := (validateMessage_iff.mp (h.coherent.fit _ hmem).valid).1
          refine climbing_overflow hlast hbound hc hmem (ha.room (validateEvents_iff.mp hbody).1) ?_
          rcases (hacc.known_iff (linkId 0)).mp (fun hu => hu.1 hfirst) with hk | hin
          · refine Or.inl ?_
            by_contra hp
            exact hk ⟨hc.empty _, hp⟩
          · exact Or.inr (List.mem_map.mp hin)

include hlast in
theorem climbing_step (h : Download crypto community (chainNodes (last + 1) 0) .right s)
    (ht : Download crypto community (chainNodes (last + 1) 0) .right t)
    (hc : Climbing last s) (hstep : s.Step crypto t) (herr : t.errors = s.errors) :
    Climbing last t := by
  have hempty := climbing_empty hlast hbound h ht hc hstep herr
  obtain ⟨d, m, replies, hd⟩ := (h.coherent.refines (chain_injOn hbound) hstep).delivers
    (by simp [SyncSession.view, herr])
  have hkept : ∀ id, id ∈ (s.peer .right).pending → id ∈ (t.peer .right).pending := by
    intro id hid
    by_contra hp
    exact hd.known_mono (n := .right) (fun hu => hu.2 hid) ⟨hempty id, hp⟩
  refine ⟨hempty, fun k hk hmem => ?_⟩
  have hold : (s.view.peer .right).waiting (linkId k) ∨ s.view.Mentions .right (linkId k) →
      linkId (k + 1) ∈ (t.peer .right).pending := fun hm => hkept _ (hc.upward k hk hm)
  rcases hmem with hmem | hmem | hmem | hmem
  · rcases hd.waiting hmem with hw | hs
    · exact hold (Or.inl hw)
    · exact hold (Or.inr (Or.inr (Or.inr hs)))
  · rcases hd.announced hmem with hs | ⟨_, _, hhead⟩
    · exact hold (Or.inr (Or.inl hs))
    · have hnext : linkId (k + 1) ∈ (s.peer .left).node.known :=
        h.kept .left _ (chainNode_known.mpr ⟨k + 1, by omega, rfl⟩)
      refine absurd ?_ (hhead.2 (linkId (k + 1)) hnext)
      rw [parentsOf_link hbound hk]
      simp
  · rcases hd.requested hmem with hs | ⟨_, hs⟩ | ⟨_, y, hy, hp⟩
    · exact hold (Or.inr (Or.inr (Or.inl hs)))
    · exact hold (Or.inr (Or.inl hs))
    · obtain ⟨j, hj, rfl⟩ := ht.link_of_known ((ht.trusted .right).trusted y (Or.inl hy))
      rw [parentsOf_link hbound hj] at hp
      split_ifs at hp with hzero
      · simp at hp
      · have hkj := linkId_inj_le hbound (by omega) (by omega) (List.mem_singleton.mp hp)
        rw [show k + 1 = j by omega]
        exact hy
  · rcases hd.dispatched hmem with hs | hs
    · exact hold (Or.inr (Or.inr (Or.inr hs)))
    · exact hold (Or.inr (Or.inr (Or.inl hs)))

include hlast in
theorem climbing_run (hrun : (SyncSession.start (chainPeers (last + 1) 0)).Steps crypto s)
    (herr : s.errors = []) : Climbing last s := by
  induction hrun with
  | refl =>
    refine ⟨fun id hid => ?_, fun k _ hmem => ?_⟩
    · obtain ⟨k, hk, _⟩ := chainNode_known.mp hid
      omega
    · rcases hmem with hp | ⟨l, hl, _⟩ | ⟨l, hl, _⟩ | ⟨l, hl, _⟩
      · exact absurd hp (by simp [SyncSession.start, chainPeers])
      all_goals
        simp [SyncSession.view, SyncSession.start, SyncPeer.hello, SyncMessage.view] at hl
  | @tail b c hrun hstep ih =>
    have hsame : c.errors = b.errors := by
      obtain ⟨_, _, _, _, _, ⟨_, _, rfl⟩ | ⟨_, _, _, rfl⟩⟩ :=
        (chain_download hbound hrun).coherent.step_cases (chain_injOn hbound) hstep
      · simp at herr
      · rfl
    exact climbing_step hlast hbound (chain_download hbound hrun)
      (chain_download hbound (hrun.tail hstep)) (ih (by rw [← hsame, herr])) hstep hsame

end Chain

/-- A history of 1025 events in a row cannot be fetched from an empty start, not even
when the messages arrive in order. -/
theorem long_history_refused :
    ¬ ∀ {node : Side → CoreNode} {peer : Side → SyncPeer} {community : CommunityId} {n : Side},
      (∀ d, (node d).Sound crypto) →
      (∀ d, SyncPeer.new (node d) community = .ok (peer d)) →
      Set.InjOn SignedEvent.eventId (rowEvents node) →
      (∀ id ∈ (node n).known, id ∈ (node n.other).known) →
      ∀ s, Relation.ReflTransGen (SyncSession.InOrder crypto) (SyncSession.start peer) s →
        s.errors = [] := by
  intro hall
  have hlast : MAX_PENDING_SYNC_EVENTS ≤ 1024 := by decide
  have hbound : 1024 < MAX_PAYLOAD_BYTES := by decide
  have hsound := chainNodes_sound (m := 1025) (n := 0) hbound (by decide)
  have hnew := chainNodes_new 1025 0
  have hinj := chain_injOn hbound
  obtain ⟨s, hrun, hflight⟩ :=
    exists_in_order_end (steps_acc hinj (fresh_coherent hsound hnew) .refl)
  have herr := hall (n := .right) hsound hnew hinj (fun id hid => by
    obtain ⟨k, hk, _⟩ := chainNode_known.mp hid
    omega) s hrun
  have hsteps := steps_of_in_order hrun
  have hknown := (fresh_agrees hsound hnew hinj hsteps hflight herr .right).1 (linkId 0)
  refine (climbing_run hlast hbound hsteps herr).empty (linkId 0) (hknown.mpr (Or.inl ?_))
  exact chainNode_known.mpr ⟨0, by omega, rfl⟩

end ChatCommons
