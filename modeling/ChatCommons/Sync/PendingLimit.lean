import ChatCommons.Sync.Agreement

/-!
A learner whose source stores all that it stores. The only message that can be
refused is one with more events than the pending set of the learner has room for.
-/

namespace ChatCommons

open Collections AntiEntropy

variable {C : Crypto} {community : CommunityId} {peer : Side → SyncPeer} {node : Side → CoreNode}
  {n : Side}

structure Download (C : Crypto) (community : CommunityId) (node : Side → CoreNode) (n : Side)
    (s : SyncSession) : Prop where
  coherent : s.Coherent C (rowEvents node) community
  trusted : ∀ d, s.view.Coherent (parentsOf (rowEvents node)) d
  quota : ∀ d, (s.peer d).maxStoredEventBytes = none
  idle : ∀ id, id ∉ (s.peer n.other).pending
  disjoint : ∀ d, ∀ id ∈ (s.peer d).pending, id ∉ (s.peer d).node.known
  within : ∀ d, ∀ id ∈ (s.peer d).node.known, id ∈ (node n.other).known
  kept : ∀ d, ∀ id ∈ (node d).known, id ∈ (s.peer d).node.known

section Run

variable (hnode : ∀ d, (node d).Sound C) (hnew : ∀ d, SyncPeer.new (node d) community = .ok (peer d))
  (hinj : Set.InjOn SignedEvent.eventId (rowEvents node))
  (hsub : ∀ id ∈ (node n).known, id ∈ (node n.other).known)
include hnode hnew hinj hsub

theorem download_run {s : SyncSession} (hrun : (SyncSession.start peer).Steps C s) :
    Download C community node n s := by
  have hhonest := fresh_honest hnode hnew
  have hpeer := fun d => (new_eq (hnew d)).1
  have hstart := fresh_coherent hnode hnew
  have hwait : ∀ d x, x ∉ (peer d).view.waiting := fun d x hx => by
    simp [hpeer d, SyncPeer.view] at hx
  have htrust : ∀ d, (SyncSession.start peer).view.Coherent (parentsOf (rowEvents node)) d :=
    fun d => coherent_start (fun d => (hhonest d).sound hinj) fun x hx => absurd hx (hwait d x)
  have hknown : ∀ d x, x ∈ (peer d).view.stored ↔ x ∈ (node d).known := fun d x => by
    rw [hpeer d]; rfl
  have hmoves := moves_of_steps (hstart.run hinj hrun).2
  have hsub' : ∀ d, ∀ x ∈ (peer d).view.stored, x ∈ (peer n.other).view.stored := by
    intro d x hx
    rcases d.eq_or_other n with rfl | rfl
    · rw [hknown] at hx ⊢
      exact hsub x hx
    · exact hx
  constructor
  · exact (hstart.run hinj hrun).1
  · exact fun d => (htrust d).moves_run hmoves
  · clear hmoves
    induction hrun with
    | refl => exact fun d => by simp [SyncSession.start, hpeer d]
    | tail hrun hstep ih =>
      obtain ⟨_, _, d, _, _, ⟨_, _, rfl⟩ | ⟨peer', _, ha, rfl⟩⟩ :=
        (hstart.run hinj hrun).1.step_cases hinj hstep
      · exact ih
      · exact forall_update (P := fun p : SyncPeer => p.maxStoredEventBytes = none) ih
          (ha.quota.trans (ih d))
  · exact never_waits htrust hwait (fun x hx => hsub' _ x hx) hmoves
  · exact waiting_not_stored_run hmoves fun d x hx => absurd hx (hwait d x)
  · intro d id hid
    obtain ⟨k, hk⟩ := stored_of_start htrust hmoves d id hid
    exact (hknown _ id).mp (hsub' k id hk)
  · exact fun d id hid => stored_mono_run hmoves ((hknown d id).mpr hid)

end Run

theorem sent_of_batch {s : SyncSession} {d : Side} {message : SyncMessage} {event : SignedEvent}
    (hmem : (d, message) ∈ s.flight) (hevent : event ∈ message.batch) :
    s.view.Sent d event.eventId := by
  cases message with
  | events c events =>
    exact ⟨events.map SignedEvent.eventId, List.mem_map.mpr ⟨_, hmem, rfl⟩,
      List.mem_map_of_mem hevent⟩
  | hello _ _ _ => simp [SyncMessage.batch] at hevent
  | heads _ _ => simp [SyncMessage.batch] at hevent
  | want _ _ => simp [SyncMessage.batch] at hevent

namespace Download

variable {s : SyncSession} (h : Download C community node n s) {d : Side} {message : SyncMessage}
include h

theorem batch_stored (hmem : (d, message) ∈ s.flight) {event : SignedEvent}
    (hevent : event ∈ message.batch) : event.eventId ∈ (s.peer d.other).node.known :=
  (h.trusted d).trusted _ (Or.inr (Or.inr (Or.inr (sent_of_batch hmem hevent))))

theorem batch_belongs (hinj : Set.InjOn SignedEvent.eventId (rowEvents node))
    (hmem : (d, message) ∈ s.flight) {event : SignedEvent} (hevent : event ∈ message.batch) :
    event.belongsTo (s.peer d).community := by
  have hsource := h.coherent.honest d.other
  have hid := h.batch_stored hmem hevent
  obtain ⟨row, hrow⟩ := hsource.node.stored hid
  have heq : row = event := hinj (hsource.rows hrow) ((h.coherent.fit _ hmem).events event hevent)
    (hsource.node.rowId hrow)
  obtain ⟨c, hc, hbelongs⟩ := hsource.node.member hid hrow
  rw [hsource.community c hc, h.coherent.same] at hbelongs
  rwa [h.coherent.same, ← heq]

theorem new_ids_empty (hmem : (n.other, message) ∈ s.flight) :
    ((s.peer n.other).newIds message.batch).size = 0 := by
  have hnone : ∀ id, id ∉ (s.peer n.other).newIds message.batch := by
    intro id hid
    obtain ⟨⟨event, hevent, rfl⟩, hunknown⟩ := mem_newIds.mp hid
    exact hunknown.1 (h.kept n.other _ (h.within _ _ (h.batch_stored hmem hevent)))
  exact Nat.le_zero.mp (size_le_of_subset (t := (∅ : BTreeSet EventId)) fun id hid =>
    absurd hid (hnone id))

/-- Only a batch for which the learner has no room left is refused. -/
theorem refusal (hinj : Set.InjOn SignedEvent.eventId (rowEvents node)) {error : SyncError}
    (hmem : (d, message) ∈ s.flight) (hrefuses : Refuses (s.peer d) message.batch error) :
    d = n ∧ error = .itemLimitExceeded ∧ MAX_PENDING_SYNC_EVENTS <
      (s.peer n).pending.size + ((s.peer n).newIds message.batch).size := by
  rcases hrefuses with ⟨_, event, hevent, hnot⟩ | ⟨rfl, hsize⟩ | hquota
  · exact absurd (h.batch_belongs hinj hmem hevent) hnot
  · rcases d.eq_or_other n with rfl | rfl
    · exact ⟨rfl, rfl, hsize⟩
    · have hpending : (s.peer n.other).pending.size = 0 :=
        Nat.le_zero.mp (map_size_le (l := []) fun id hid => absurd hid (h.idle id))
      rw [hpending, h.new_ids_empty hmem] at hsize
      simp [MAX_PENDING_SYNC_EVENTS] at hsize
  · exact absurd (h.quota d) hquota

/-- All that the learner keeps pending or is sent is among what it lacked at the start. -/
theorem room (hmem : (n, message) ∈ s.flight) :
    (s.peer n).pending.size + ((s.peer n).newIds message.batch).size ≤
      ((node n.other).known \ (node n).known).size := by
  have hlacked : ∀ id ∈ (s.peer n.other).node.known, id ∉ (s.peer n).node.known →
      id ∈ (node n.other).known \ (node n).known := fun id hid hnot =>
    Std.ExtTreeSet.mem_diff_iff.mpr ⟨h.within _ id hid, fun hk => hnot (h.kept n id hk)⟩
  rw [← Std.ExtTreeMap.length_keys, ← Std.ExtTreeSet.length_toList, ← Std.ExtTreeSet.length_toList,
    ← List.length_append]
  refine List.Subperm.length_le (List.subperm_of_subset ?_ fun id hid => ?_)
  · refine List.nodup_append.mpr ⟨Std.ExtTreeMap.nodup_keys, toList_nodup _, ?_⟩
    rintro id hpending id' hnew rfl
    rw [Std.ExtTreeSet.mem_toList, mem_newIds] at hnew
    exact hnew.2.2 (Std.ExtTreeMap.mem_keys.mp hpending)
  · rw [Std.ExtTreeSet.mem_toList]
    rcases List.mem_append.mp hid with hid | hid
    · have hpending := Std.ExtTreeMap.mem_keys.mp hid
      exact hlacked id ((h.trusted n).trusted id (Or.inl hpending)) (h.disjoint n id hpending)
    · rw [Std.ExtTreeSet.mem_toList, mem_newIds] at hid
      obtain ⟨⟨event, hevent, rfl⟩, hunknown⟩ := hid
      exact hlacked _ (h.batch_stored hmem hevent) hunknown.1

end Download

/-- While a learner downloads from a source that stores all that it stores, no message is
refused but for want of room in the pending set of the learner. -/
theorem sync_refuses_only_for_room (hnode : ∀ d, (node d).Sound C)
    (hnew : ∀ d, SyncPeer.new (node d) community = .ok (peer d))
    (hinj : Set.InjOn SignedEvent.eventId (rowEvents node))
    (hsub : ∀ id ∈ (node n).known, id ∈ (node n.other).known) {s : SyncSession}
    (hrun : (SyncSession.start peer).Steps C s) :
    (∀ t, s.Step C t → t.errors = s.errors ∨ t.errors = s.errors ++ [(n, .itemLimitExceeded)] ∧
      ∃ message, (n, message) ∈ s.flight ∧ MAX_PENDING_SYNC_EVENTS <
        (s.peer n).pending.size + ((s.peer n).newIds message.batch).size) ∧
    (((node n.other).known \ (node n).known).size ≤ MAX_PENDING_SYNC_EVENTS → s.errors = []) := by
  have hstep : ∀ {s t : SyncSession}, (SyncSession.start peer).Steps C s → s.Step C t →
      t.errors = s.errors ∨ t.errors = s.errors ++ [(n, .itemLimitExceeded)] ∧
        ∃ message, (n, message) ∈ s.flight ∧ MAX_PENDING_SYNC_EVENTS <
          (s.peer n).pending.size + ((s.peer n).newIds message.batch).size := by
    intro s t hrun hstep
    have h := download_run hnode hnew hinj hsub hrun
    obtain ⟨_, _, d, message, hflight, ⟨error, hrefuses, rfl⟩ | ⟨_, _, _, rfl⟩⟩ :=
      h.coherent.step_cases hinj hstep
    · have hmem : (d, message) ∈ s.flight := by rw [hflight]; simp
      obtain ⟨rfl, rfl, hsize⟩ := h.refusal hinj hmem hrefuses
      exact Or.inr ⟨rfl, message, hmem, hsize⟩
    · exact Or.inl rfl
  refine ⟨fun t ht => hstep hrun ht, fun hfew => ?_⟩
  induction hrun with
  | refl => rfl
  | tail hrun ht ih =>
    rcases hstep hrun ht with hsame | ⟨_, message, hmem, hsize⟩
    · rw [hsame, ih]
    · have := (download_run hnode hnew hinj hsub hrun).room hmem
      omega

open Sample in
theorem sync_refuses_only_for_room_chain :
    (∀ t, (SyncSession.start (chainPeers 2 0)).Step crypto t →
      t.errors = (SyncSession.start (chainPeers 2 0)).errors ∨
        t.errors = (SyncSession.start (chainPeers 2 0)).errors ++ [(.right, .itemLimitExceeded)] ∧
        ∃ message, (Side.right, message) ∈ (SyncSession.start (chainPeers 2 0)).flight ∧
          MAX_PENDING_SYNC_EVENTS < (chainPeers 2 0 .right).pending.size +
            ((chainPeers 2 0 .right).newIds message.batch).size) ∧
      (((chainNodes 2 0 .left).known \ (chainNodes 2 0 .right).known).size
        ≤ MAX_PENDING_SYNC_EVENTS → (SyncSession.start (chainPeers 2 0)).errors = []) :=
  sync_refuses_only_for_room (n := .right) (chainNodes_sound (by decide) (by decide))
    (chainNodes_new 2 0) (chainNodes_injOn (by decide) (by decide))
    (fun id hid => by
      obtain ⟨k, hk, _⟩ := chainNode_known.mp hid
      omega) .refl

end ChatCommons
