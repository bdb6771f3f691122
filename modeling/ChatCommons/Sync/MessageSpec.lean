import ChatCommons.Sync.MessageSize

namespace ChatCommons

variable {C : Crypto} {community : CommunityId}

section Chunks

variable {α : Type} {size : ℕ}

theorem chunks_cons (hsize : 0 < size) {ids : List α} (hne : ids ≠ []) :
    chunks size ids = ids.take size :: chunks size (ids.drop size) := by
  rw [chunks, dif_neg]
  rintro (h | h)
  · omega
  · exact hne h

theorem chunks_nil : chunks size ([] : List α) = [] := by
  rw [chunks, dif_pos (Or.inr rfl)]

theorem chunks_induction {P : List α → List (List α) → Prop} (hsize : 0 < size) (hnil : P [] [])
    (hcons : ∀ ids rest, ids ≠ [] → P (ids.drop size) rest → P ids (ids.take size :: rest))
    (ids : List α) : P ids (chunks size ids) := by
  obtain ⟨n, hn⟩ : ∃ n, n = ids.length := ⟨_, rfl⟩
  induction n using Nat.strong_induction_on generalizing ids with
  | _ n ih =>
    by_cases hne : ids = []
    · subst hne
      rw [chunks_nil]
      exact hnil
    · rw [chunks_cons hsize hne]
      refine hcons ids _ hne (ih _ ?_ _ rfl)
      have := List.length_pos_iff.mpr hne
      rw [List.length_drop]
      omega

theorem chunks_flatten (hsize : 0 < size) (ids : List α) : (chunks size ids).flatten = ids :=
  chunks_induction hsize (P := fun ids chunks => chunks.flatten = ids) rfl
    (fun ids rest _ ih => by rw [List.flatten_cons, ih, List.take_append_drop]) ids

theorem chunks_shape (hsize : 0 < size) (ids : List α) :
    ∀ chunk ∈ chunks size ids, chunk ≠ [] ∧ chunk.length ≤ size ∧ chunk.Sublist ids := by
  refine chunks_induction hsize
    (P := fun ids chunks => ∀ c ∈ chunks, c ≠ [] ∧ c.length ≤ size ∧ c.Sublist ids) (by simp)
    (fun ids rest hne ih chunk hchunk => ?_) ids
  rcases List.mem_cons.mp hchunk with rfl | hchunk
  · exact ⟨by simp [hne, hsize.ne'], List.length_take_le _ _, List.take_sublist _ _⟩
  · obtain ⟨hne', hlen, hsub⟩ := ih chunk hchunk
    exact ⟨hne', hlen, hsub.trans (List.drop_sublist _ _)⟩

theorem mem_chunks (hsize : 0 < size) {ids : List α} {x : α} :
    x ∈ ids ↔ ∃ chunk ∈ chunks size ids, x ∈ chunk := by
  conv_lhs => rw [← chunks_flatten hsize ids]
  exact List.mem_flatten

end Chunks

theorem validateMessage_iff {message : SyncMessage} : validateMessage C message = .ok () ↔
    validateBody C message = .ok () ∧ message.toJson.length ≤ MAX_SYNC_JSON_BYTES := by
  rw [validateMessage, Fallible.bind_eq_ok]
  split_ifs with h
  · simp [not_le.mpr h]
  · simp only [not_lt.mp h, and_true]
    exact ⟨fun ⟨(), h⟩ => h, fun h => ⟨(), h⟩⟩

theorem validateIds_iff {ids : List EventId} : validateIds ids = .ok () ↔
    ids.length ≤ MAX_IDS_PER_MESSAGE ∧ ids.Pairwise (· < ·) := by
  unfold validateIds
  rw [← strictlySorted_iff]
  split_ifs with h1 h2
  · simp; omega
  · simp_all
  · simp_all

theorem validateEvents_iff {events : List SignedEvent} : validateEvents C events = .ok () ↔
    events ≠ [] ∧ events.length ≤ MAX_EVENTS_PER_MESSAGE ∧
      (events.map SignedEvent.eventId).Pairwise (· < ·) ∧ ∀ event ∈ events, event.Valid C := by
  unfold validateEvents
  rw [← strictlySorted_iff, ← forM_validateEvent]
  split_ifs with h1 h2
  · simp at h1 ⊢
    rintro hne
    rcases h1 with h1 | h1
    · exact absurd h1 hne
    · omega
  · simp_all
  · cases h : events.forM (validateEvent C) <;> simp_all

theorem chunk_validates {ids chunk : List EventId} (hsorted : ids.Pairwise (· < ·))
    (hchunk : chunk ∈ chunks MAX_IDS_PER_MESSAGE ids) :
    validateMessage C (.heads community chunk) = .ok () ∧
      validateMessage C (.want community chunk) = .ok () := by
  obtain ⟨_, hlen, hsub⟩ := chunks_shape (by decide) ids chunk hchunk
  have hfit := ids_message_fits hlen community
  have hids := validateIds_iff.mpr ⟨hlen, hsorted.sublist hsub⟩
  exact ⟨validateMessage_iff.mpr ⟨hids, hfit.2⟩, validateMessage_iff.mpr ⟨hids, hfit.1⟩⟩

section Packing

/-- The batches of a packing, all of which pass validation. -/
structure Packing.Packs (C : Crypto) (community : CommunityId) (done : List SignedEvent)
    (p : Packing) : Prop where
  batches : ∃ full : List (List SignedEvent), p.messages = full.map (.events community) ∧
    full.flatten ++ p.batch = done ∧
    ∀ b ∈ full, b ≠ [] ∧ validateMessage C (.events community b) = .ok ()
  last : p.batch ≠ [] → validateMessage C (.events community p.batch) = .ok ()

variable {events : List SignedEvent} (hvalid : ∀ event ∈ events, event.Valid C)
  (hsorted : (events.map SignedEvent.eventId).Pairwise (· < ·))
include hvalid

include hsorted in
theorem batch_validates {b : List SignedEvent} (hsub : b.Sublist events) (hne : b ≠ [])
    (hlen : b.length ≤ MAX_EVENTS_PER_MESSAGE) :
    validateMessage C (.events community b) = .ok () ∨
      validateMessage C (.events community b) = .error .tooLarge := by
  have hbody : validateBody C (.events community b) = .ok () := validateEvents_iff.mpr
    ⟨hne, hlen, hsorted.sublist (hsub.map _), fun event he => hvalid event (hsub.subset he)⟩
  rw [validateMessage, hbody]
  change (if _ then _ else _) = _ ∨ (if _ then _ else _) = _
  split_ifs
  · exact Or.inr rfl
  · exact Or.inl rfl

theorem single_validates {event : SignedEvent} (hmem : event ∈ events) :
    validateMessage C (.events community [event]) = .ok () := by
  have hv := hvalid event hmem
  refine validateMessage_iff.mpr ⟨validateEvents_iff.mpr ⟨by simp, by simp [MAX_EVENTS_PER_MESSAGE],
    by simp, by simpa using hv⟩, single_event_fits hv community⟩

include hsorted in
theorem packEvent_spec {done rest : List SignedEvent} {event : SignedEvent} {p : Packing}
    (hevents : events = done ++ event :: rest) (h : p.Packs C community done) :
    ∃ p', packEvent C community p event = .ok p' ∧ p'.Packs C community (done ++ [event]) := by
  obtain ⟨⟨full, hmessages, hflat, hfull⟩, hlast⟩ := h
  have hmem : event ∈ events := by rw [hevents]; simp
  have hsub : (p.batch ++ [event]).Sublist events := by
    have h1 : p.batch.Sublist done := by rw [← hflat]; exact List.sublist_append_right _ _
    rw [hevents]
    exact h1.append (by simp)
  have hsingle : validateMessage C (.events community [event]) = .ok () :=
    single_validates hvalid hmem
  have hbatch : p.batch.length ≤ MAX_EVENTS_PER_MESSAGE := by
    by_cases hne : p.batch = []
    · simp [hne]
    · exact (validateEvents_iff.mp (validateMessage_iff.mp (hlast hne)).1).2.1
  by_cases hflush : p.batch.length = MAX_EVENTS_PER_MESSAGE ∨
      validateMessage C (.events community (p.batch ++ [event])) = .error .tooLarge
  · have hne : p.batch ≠ [] := by
      rintro hempty
      rw [hempty] at hflush
      rcases hflush with h | h
      · simp [MAX_EVENTS_PER_MESSAGE] at h
      · rw [List.nil_append, hsingle] at h; cases h
    have hfalse : p.batch.isEmpty = false := by simpa using hne
    refine ⟨_, by rw [packEvent]; dsimp only; rw [if_pos hflush, hfalse, hsingle]; rfl,
      ⟨full ++ [p.batch], by simp [hmessages], by simp [hflat], ?_⟩, fun _ => hsingle⟩
    intro b hb
    rcases List.mem_append.mp hb with hb | hb
    · exact hfull b hb
    · rw [List.mem_singleton.mp hb]
      exact ⟨hne, hlast hne⟩
  · have hok : validateMessage C (.events community (p.batch ++ [event])) = .ok () := by
      rw [not_or] at hflush
      refine (batch_validates hvalid hsorted hsub (by simp) ?_).resolve_right hflush.2
      rw [List.length_append, List.length_singleton]
      omega
    refine ⟨{ p with batch := p.batch ++ [event] },
      by rw [packEvent]; dsimp only; rw [if_neg hflush, hok]; rfl, ⟨full, hmessages,
      by simp [← hflat], hfull⟩, fun _ => hok⟩

include hsorted in
theorem packEvents_spec (community : CommunityId) : ∃ batches : List (List SignedEvent),
    packEvents C community events = .ok (batches.map (.events community)) ∧
      batches.flatten = events ∧
      ∀ b ∈ batches, b ≠ [] ∧ validateMessage C (.events community b) = .ok () := by
  have hstart : Packing.Packs C community [] {} := ⟨⟨[], by simp⟩, by simp⟩
  obtain ⟨p, hp, ⟨full, hmessages, hflat, hfull⟩, hlast⟩ := Fallible.foldlM_ok
    (Packing.Packs C community) hstart fun done event rest p he hp =>
      packEvent_spec hvalid hsorted he hp
  by_cases hne : p.batch = []
  · refine ⟨full, ?_, by simpa [hne] using hflat, hfull⟩
    rw [packEvents, hp]
    simp [bind, Except.bind, pure, Except.pure, hne, hmessages]
  · refine ⟨full ++ [p.batch], ?_, by simpa using hflat, fun b hb => ?_⟩
    · rw [packEvents, hp]
      simp [bind, Except.bind, pure, Except.pure, hne, hmessages]
    · rcases List.mem_append.mp hb with hb | hb
      · exact hfull b hb
      · rw [List.mem_singleton.mp hb]
        exact ⟨hne, hlast hne⟩

end Packing

end ChatCommons
