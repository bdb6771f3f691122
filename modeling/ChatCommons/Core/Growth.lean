import ChatCommons.Core.IngestSpec
import ChatCommons.Model.FaultyStore

/-!
Whatever batch a node is given and wherever the database fails, the node has taken in some of
the events, one after the other, each with its parents known.
-/

namespace ChatCommons

open Collections Dag

variable {C : Crypto} {offered : SignedEvent → Prop} {community : CommunityId}
  {node node' : CoreNode} {event : SignedEvent} {fault : EventId → Bool}

def CoreNode.take (node : CoreNode) (community : CommunityId) (event : SignedEvent) : CoreNode where
  store := ⟨node.store.rows.insertIfNew event.eventId event⟩
  community := if event.content.communityId.isNone then some community else node.community
  known := node.known.insert event.eventId

structure Fit (C : Crypto) (offered : SignedEvent → Prop) (community : CommunityId)
    (event : SignedEvent) : Prop where
  offered : offered event
  valid : event.Valid C
  belongs : event.belongsTo community

inductive Grows (C : Crypto) (offered : SignedEvent → Prop) (community : CommunityId)
    (node : CoreNode) : CoreNode → Prop
  | refl : Grows C offered community node node
  | take {mid : CoreNode} {event : SignedEvent} (h : Grows C offered community node mid)
      (hfit : Fit C offered community event)
      (hparents : ∀ parent ∈ event.content.parents, parent ∈ mid.known) :
    Grows C offered community node (mid.take community event)

theorem Grows.known_mono (h : Grows C offered community node node') {id : EventId}
    (hid : id ∈ node.known) : id ∈ node'.known := by
  induction h with
  | refl => exact hid
  | take h _ _ ih => exact mem_insert.mpr (Or.inr ih)

/-- What is newly known was offered, and its parents are known. -/
theorem Grows.known_from (h : Grows C offered community node node') {id : EventId}
    (hid : id ∈ node'.known) : id ∈ node.known ∨ ∃ event, Fit C offered community event ∧
      event.eventId = id ∧ ∀ parent ∈ event.content.parents, parent ∈ node'.known := by
  induction h with
  | refl => exact Or.inl hid
  | @take mid event h hfit hparents ih =>
    have hlater : ∀ {x}, x ∈ mid.known → x ∈ (mid.take community event).known := fun hx =>
      mem_insert.mpr (Or.inr hx)
    rcases mem_insert.mp hid with rfl | hid
    · exact Or.inr ⟨event, hfit, rfl, fun parent hp => hlater (hparents parent hp)⟩
    · obtain hid | ⟨other, hother, heq, hknown⟩ := ih hid
      · exact Or.inl hid
      · exact Or.inr ⟨other, hother, heq, fun parent hp => hlater (hknown parent hp)⟩

theorem Grows.rows_kept (h : Grows C offered community node node') {id : EventId}
    (hrow : node.store.rows[id]? = some event) : node'.store.rows[id]? = some event := by
  induction h with
  | refl => exact hrow
  | take h _ _ ih =>
    rw [CoreNode.take, getElem?_insertIfNew, if_neg]
    · exact ih
    · rintro ⟨rfl, hnew⟩
      exact hnew (mem_of_getElem? ih)

theorem Grows.row_known (h : Grows C offered community node node') {id : EventId}
    (hrow : node'.store.rows[id]? = some event) :
    node.store.rows[id]? = some event ∨ id ∈ node'.known := by
  induction h with
  | refl => exact Or.inl hrow
  | take h hfit _ ih =>
    rw [CoreNode.take, getElem?_insertIfNew] at hrow
    split_ifs at hrow with hnew
    · exact Or.inr (mem_insert.mpr (Or.inl hnew.1.symm))
    · exact (ih hrow).imp_right fun hknown => mem_insert.mpr (Or.inr hknown)

theorem Grows.rows_from (h : Grows C offered community node node') {id : EventId}
    (hrow : node'.store.rows[id]? = some event) : node.store.rows[id]? = some event ∨
      Fit C offered community event ∧ event.eventId = id := by
  induction h with
  | refl => exact Or.inl hrow
  | @take mid other h hfit _ ih =>
    rw [CoreNode.take, getElem?_insertIfNew] at hrow
    split_ifs at hrow with hnew
    · obtain rfl := Option.some.inj hrow
      exact Or.inr ⟨hfit, hnew.1⟩
    · exact ih hrow

theorem Grows.community_from (h : Grows C offered community node node') :
    node'.community = node.community ∨ node'.community = some community := by
  induction h with
  | refl => exact Or.inl rfl
  | take h _ _ ih =>
    rw [CoreNode.take]
    split_ifs
    · exact Or.inr rfl
    · exact ih

theorem Grows.mono {other : SignedEvent → Prop} (h : Grows C offered community node node')
    (hother : ∀ event, offered event → other event) : Grows C other community node node' := by
  induction h with
  | refl => exact .refl
  | take h hfit hparents ih =>
    exact ih.take ⟨hother _ hfit.offered, hfit.valid, hfit.belongs⟩ hparents

theorem insertUnless_cases (fault : EventId → Bool) (store : EventStore) (hvalid : event.Valid C) :
    (fault event.eventId = true ∧ store.insertUnless C fault event = .error .sqlite) ∨
    ∃ outcome, store.insertUnless C fault event =
      .ok (⟨store.rows.insertIfNew event.eventId event⟩, outcome) := by
  have hchecked := validateEvent_iff.mpr hvalid
  by_cases hfault : fault event.eventId = true
  · refine Or.inl ⟨hfault, ?_⟩
    simp only [EventStore.insertUnless, hchecked, hfault, if_true]
  · refine Or.inr ?_
    simp only [EventStore.insertUnless, EventStore.insert, hchecked, if_neg hfault]
    by_cases hmem : event.eventId ∈ store.rows
    · have hsame : store.rows.insertIfNew event.eventId event = store.rows := by
        apply map_ext
        intro id
        rw [getElem?_insertIfNew, if_neg fun h => h.2 hmem]
      exact ⟨.alreadyPresent, by rw [if_pos hmem, hsame]⟩
    · have hnew : store.rows.insertIfNew event.eventId event =
          store.rows.insert event.eventId event := by
        apply map_ext
        intro id
        rw [getElem?_insertIfNew, getElem?_insert]
        simp only [hmem, not_false_eq_true, and_true]
      exact ⟨.inserted, by rw [if_neg hmem, hnew]⟩

namespace Ingestion

variable {s : Ingestion}

structure Growing (C : Crypto) (offered : SignedEvent → Prop) (community : CommunityId)
    (node : CoreNode) (s : Ingestion) : Prop where
  grows : Grows C offered community node s.node
  fit : ∀ {id : EventId} {event : SignedEvent}, s.pending[id]? = some event →
    Fit C offered community event ∧ event.eventId = id

def Failed (C : Crypto) (fault : EventId → Bool) (offered : SignedEvent → Prop)
    (community : CommunityId) (node : CoreNode) (failure : CoreNode × NodeError) : Prop :=
  (∃ id, fault id = true) ∧ Grows C offered community node failure.1

theorem storeReady_cases (fault : EventId → Bool) (h : s.Growing C offered community node)
    {id : EventId} (hid : s.pending[id]? = some event)
    (hparents : ∀ parent ∈ event.content.parents, parent ∈ s.node.known) :
    (∃ s', storeReadyUnless C fault community s id = .ok s' ∧
      s'.Growing C offered community node ∧ s'.pending = s.pending.erase id ∧
      ∀ x ∈ s.node.known, x ∈ s'.node.known) ∨
    ∃ failure, storeReadyUnless C fault community s id = .error failure ∧
      Failed C fault offered community node failure := by
  obtain ⟨hfit, rfl⟩ := h.fit hid
  obtain ⟨hfault, hinsert⟩ | ⟨outcome, hinsert⟩ :=
    insertUnless_cases fault s.node.store hfit.valid
  · refine Or.inr ⟨(s.node, .storage .sqlite), ?_, ⟨_, hfault⟩, h.grows⟩
    simp only [storeReadyUnless, hid, hinsert]
  · refine Or.inl ⟨_, by simp only [storeReadyUnless, hid, hinsert]; rfl, ⟨?_, ?_⟩, rfl, ?_⟩
    · exact h.grows.take hfit hparents
    · intro x other hother
      rw [getElem?_erase] at hother
      split_ifs at hother
      exact h.fit hother
    · exact fun x hx => mem_insert.mpr (Or.inr hx)

/-- The loop over the ready ids `done` has led from `s` to `t`. -/
structure Storing (C : Crypto) (offered : SignedEvent → Prop) (community : CommunityId)
    (node : CoreNode) (s : Ingestion) (done : List EventId) (t : Ingestion) : Prop where
  growing : t.Growing C offered community node
  pending : ∀ id, id ∉ done → t.pending[id]? = s.pending[id]?
  known : ∀ id ∈ s.node.known, id ∈ t.node.known

theorem round_cases (fault : EventId → Bool) (h : s.Growing C offered community node) :
    (∃ s', s.ready.foldlM (storeReadyUnless C fault community) s = .ok s' ∧
      s'.Growing C offered community node) ∨
    ∃ failure, s.ready.foldlM (storeReadyUnless C fault community) s = .error failure ∧
      Failed C fault offered community node failure := by
  have hstart : Storing C offered community node s [] s := ⟨h, fun _ _ => rfl, fun _ => id⟩
  have hstep : ∀ done id rest t, s.ready = done ++ id :: rest →
      Storing C offered community node s done t →
      (∃ t', storeReadyUnless C fault community t id = .ok t' ∧
        Storing C offered community node s (done ++ [id]) t') ∨
      ∃ failure, storeReadyUnless C fault community t id = .error failure ∧
        Failed C fault offered community node failure := by
    intro done id rest t hready ht
    obtain ⟨event, hevent, hparents⟩ := mem_ready.mp (by rw [hready]; simp : id ∈ s.ready)
    have hnot : id ∉ done := fun hd =>
      (List.nodup_append.mp (hready ▸ ready_nodup s)).2.2 id hd id (by simp) rfl
    obtain ⟨t', ht', hgrowing, hpending, hknown⟩ | hfailed := storeReady_cases fault ht.growing
      ((ht.pending id hnot).trans hevent) fun parent hp => ht.known parent (hparents parent hp)
    · refine Or.inl ⟨t', ht', hgrowing, fun x hx => ?_, fun x hx => hknown x (ht.known x hx)⟩
      rw [List.mem_append, List.mem_singleton, not_or] at hx
      rw [hpending, getElem?_erase, if_neg fun heq => hx.2 heq.symm, ht.pending x hx.1]
    · exact Or.inr hfailed
  obtain ⟨s', hs', hstored⟩ | hfailed := Fallible.foldlM_cases _ _ hstart hstep
  · exact Or.inl ⟨s', hs', hstored.growing⟩
  · exact Or.inr hfailed

theorem run_cases (fault : EventId → Bool) (fuel : ℕ) (h : s.Growing C offered community node) :
    (∃ s', runUnless C fault community fuel s = .ok s' ∧ s'.Growing C offered community node) ∨
    ∃ failure, runUnless C fault community fuel s = .error failure ∧
      Failed C fault offered community node failure := by
  induction fuel generalizing s with
  | zero => exact Or.inl ⟨s, rfl, h⟩
  | succ fuel ih =>
    rw [runUnless]
    cases hready : s.ready with
    | nil => exact Or.inl ⟨s, rfl, h⟩
    | cons id ids =>
      dsimp only
      have hround := round_cases fault h
      rw [hready] at hround
      obtain ⟨s', hs', hgrowing⟩ | ⟨failure, hfailure, hfailed⟩ := hround
      · rw [hs']
        exact ih hgrowing
      · rw [hfailure]
        exact Or.inr ⟨failure, rfl, hfailed⟩

section Rule

variable {P : Ingestion → Prop} {Q : CoreNode × NodeError → Prop} (fault)
  (hstep : ∀ s id event, P s → s.pending[id]? = some event →
    (∀ parent ∈ event.content.parents, parent ∈ s.node.known) →
    (∃ s', storeReadyUnless C fault community s id = .ok s' ∧ P s' ∧
      s'.pending = s.pending.erase id ∧ ∀ x ∈ s.node.known, x ∈ s'.node.known) ∨
    ∃ failure, storeReadyUnless C fault community s id = .error failure ∧ Q failure)
include hstep

theorem round_rule (h : P s) :
    (∃ s', s.ready.foldlM (storeReadyUnless C fault community) s = .ok s' ∧ P s' ∧
      s'.pending.size + s.ready.length = s.pending.size) ∨
    ∃ failure, s.ready.foldlM (storeReadyUnless C fault community) s = .error failure ∧
      Q failure := by
  let passed : List EventId → Ingestion → Prop := fun done t =>
    P t ∧ (∀ x, x ∉ done → t.pending[x]? = s.pending[x]?) ∧
      (∀ x ∈ s.node.known, x ∈ t.node.known) ∧ t.pending.size + done.length = s.pending.size
  have hstart : passed [] s := ⟨h, fun _ _ => rfl, fun _ => id, rfl⟩
  have hnext : ∀ done id rest t, s.ready = done ++ id :: rest → passed done t →
      (∃ t', storeReadyUnless C fault community t id = .ok t' ∧ passed (done ++ [id]) t') ∨
      ∃ failure, storeReadyUnless C fault community t id = .error failure ∧ Q failure := by
    rintro done id rest t hready ⟨hP, hpending, hknown, hsize⟩
    obtain ⟨event, hevent, hparents⟩ := mem_ready.mp (by rw [hready]; simp : id ∈ s.ready)
    have hnot : id ∉ done := fun hd =>
      (List.nodup_append.mp (hready ▸ ready_nodup s)).2.2 id hd id (by simp) rfl
    have hcurrent : t.pending[id]? = some event := (hpending id hnot).trans hevent
    obtain ⟨t', ht', hP', herase, hmono⟩ | hfailed := hstep t id event hP hcurrent
      fun parent hp => hknown parent (hparents parent hp)
    · refine Or.inl ⟨t', ht', hP', fun x hx => ?_, fun x hx => hmono x (hknown x hx), ?_⟩
      · rw [List.mem_append, List.mem_singleton, not_or] at hx
        rw [herase, getElem?_erase, if_neg fun heq => hx.2 heq.symm, hpending x hx.1]
      · have hpos := map_size_erase (mem_of_getElem? hcurrent)
        rw [herase, List.length_append, List.length_singleton]
        omega
    · exact Or.inr hfailed
  obtain ⟨s', hs', hP', _, _, hsize⟩ | hfailed := Fallible.foldlM_cases passed Q hstart hnext
  · exact Or.inl ⟨s', hs', hP', hsize⟩
  · exact Or.inr hfailed

/-- What storing one ready event preserves holds when the loop ends, and then nothing is ready. -/
theorem run_rule (fuel : ℕ) (h : P s) (hfuel : s.pending.size ≤ fuel) :
    (∃ s', runUnless C fault community fuel s = .ok s' ∧ P s' ∧ s'.ready = []) ∨
    ∃ failure, runUnless C fault community fuel s = .error failure ∧ Q failure := by
  induction fuel generalizing s with
  | zero =>
    obtain ⟨_, _, _, hsize⟩ | ⟨failure, hfailure, hQ⟩ := round_rule fault hstep h
    · exact Or.inl ⟨s, rfl, h, List.length_eq_zero_iff.mp (by omega)⟩
    · cases hready : s.ready with
      | nil => exact Or.inl ⟨s, rfl, h, hready⟩
      | cons id ids =>
        obtain ⟨event, hevent, _⟩ := mem_ready.mp (by rw [hready]; simp : id ∈ s.ready)
        have hpos := map_size_erase (mem_of_getElem? hevent)
        omega
  | succ fuel ih =>
    rw [runUnless]
    have hround := round_rule fault hstep h
    cases hready : s.ready with
    | nil => exact Or.inl ⟨s, rfl, h, hready⟩
    | cons id ids =>
      dsimp only
      rw [hready] at hround
      obtain ⟨s', hs', hP', hsize⟩ | ⟨failure, hfailure, hQ⟩ := hround
      · rw [hs']
        rw [List.length_cons] at hsize
        exact ih hP' (by omega)
      · rw [hfailure]
        exact Or.inr ⟨failure, rfl, hQ⟩

end Rule

def Broken (failure : CoreNode × NodeError) : Prop := ∃ error, failure.2 = .storage error

theorem run_broken (C : Crypto) (fault : EventId → Bool) (community : CommunityId) (fuel : ℕ)
    (s : Ingestion) (hfuel : s.pending.size ≤ fuel) :
    (∃ s', runUnless C fault community fuel s = .ok s') ∨
    ∃ failure, runUnless C fault community fuel s = .error failure ∧ Broken failure := by
  have hstep : ∀ (s : Ingestion) (id : EventId) (event : SignedEvent), True →
      s.pending[id]? = some event →
      (∀ parent ∈ event.content.parents, parent ∈ s.node.known) →
      (∃ s', storeReadyUnless C fault community s id = .ok s' ∧ True ∧
        s'.pending = s.pending.erase id ∧ ∀ x ∈ s.node.known, x ∈ s'.node.known) ∨
      ∃ failure, storeReadyUnless C fault community s id = .error failure ∧ Broken failure := by
    intro s id event _ hid _
    cases hinsert : s.node.store.insertUnless C fault event with
    | error error =>
      right
      exact ⟨_, by simp only [storeReadyUnless, hid, hinsert]; rfl, error, rfl⟩
    | ok written =>
      left
      refine ⟨_, by simp only [storeReadyUnless, hid, hinsert]; rfl, trivial, rfl, ?_⟩
      exact fun x hx => mem_insert.mpr (Or.inr hx)
  obtain ⟨s', hs', _⟩ | hbroken := run_rule fault hstep fuel trivial hfuel
  · exact Or.inl ⟨s', hs'⟩
  · exact Or.inr hbroken

end Ingestion

section Batches

variable {events : List SignedEvent}

theorem offeredOf_mem {id : EventId} (h : (offeredOf events)[id]? = some event) :
    event ∈ events ∧ event.eventId = id := by
  unfold offeredOf at h
  induction events using List.reverseRecOn with
  | nil => simp at h
  | append_singleton events last ih =>
    rw [List.foldl_append, List.foldl_cons, List.foldl_nil, getElem?_insert] at h
    split_ifs at h with hlast
    · rw [← Option.some.inj h]
      exact ⟨by simp, hlast⟩
    · exact ⟨List.mem_append_left _ (ih h).1, (ih h).2⟩

theorem ingestUnless_checked (hlength : events.length ≤ MAX_PENDING_EVENTS)
    (hvalid : ∀ event ∈ events, event.Valid C)
    (hcommunity : node.ingestCommunity C events = .ok community)
    (hbelongs : ∀ event ∈ events, event.belongsTo community) :
    Grows C (· ∈ events) community node (node.ingestUnless C fault events).1 ∧
      ((∃ report, (node.ingestUnless C fault events).2 = .ok report) ∨ ∃ id, fault id = true) := by
  have hwrong : ¬ (events.any fun event => !event.belongsTo community) = true := by
    simpa using hbelongs
  have hstart : Ingestion.Growing C (· ∈ events) community node
      { node, pending := offeredOf events } := by
    refine ⟨.refl, fun {id event} h => ?_⟩
    obtain ⟨hmem, hid⟩ := offeredOf_mem h
    exact ⟨⟨hmem, hvalid event hmem, hbelongs event hmem⟩, hid⟩
  unfold CoreNode.ingestUnless
  simp only [not_lt.mpr hlength, if_false, forM_validateEvent.mpr hvalid, hcommunity, hwrong]
  obtain ⟨s', hrun, hgrowing⟩ | ⟨failure, hrun, hfailed⟩ :=
    Ingestion.run_cases fault (offeredOf events).size hstart
  · rw [offeredOf] at hrun
    simp only [hrun]
    exact ⟨hgrowing.grows, Or.inl ⟨_, rfl⟩⟩
  · rw [offeredOf] at hrun
    simp only [hrun]
    exact ⟨hfailed.2, Or.inr hfailed.1⟩

theorem ingestUnless_broken (hlength : events.length ≤ MAX_PENDING_EVENTS)
    (hvalid : ∀ event ∈ events, event.Valid C)
    (hcommunity : node.ingestCommunity C events = .ok community)
    (hbelongs : ∀ event ∈ events, event.belongsTo community) {error : NodeError}
    (herror : (node.ingestUnless C fault events).2 = .error error) :
    ∃ cause, error = .storage cause := by
  have hwrong : ¬ (events.any fun event => !event.belongsTo community) = true := by
    simpa using hbelongs
  unfold CoreNode.ingestUnless at herror
  simp only [not_lt.mpr hlength, if_false, forM_validateEvent.mpr hvalid, hcommunity,
    hwrong] at herror
  obtain ⟨s', hrun⟩ | ⟨failure, hrun, cause, hcause⟩ := Ingestion.run_broken C fault community
    (offeredOf events).size { node, pending := offeredOf events } (le_refl _)
  · rw [offeredOf] at hrun
    simp only [hrun] at herror
    cases herror
  · rw [offeredOf] at hrun
    simp only [hrun] at herror
    exact ⟨cause, (Except.error.inj herror).symm.trans hcause⟩

theorem ingestUnless_grows (C : Crypto) (fault : EventId → Bool) (node : CoreNode)
    (events : List SignedEvent) : (node.ingestUnless C fault events).1 = node ∨
    ∃ community, node.ingestCommunity C events = .ok community ∧
      Grows C (· ∈ events) community node (node.ingestUnless C fault events).1 := by
  by_cases hlength : events.length ≤ MAX_PENDING_EVENTS
  swap
  · exact Or.inl (by rw [CoreNode.ingestUnless, if_pos (by omega)])
  cases hvalid : events.forM (validateEvent C) with
  | error e =>
    refine Or.inl ?_
    simp only [CoreNode.ingestUnless, not_lt.mpr hlength, if_false, hvalid]
  | ok u =>
    cases hcommunity : node.ingestCommunity C events with
    | error e =>
      refine Or.inl ?_
      simp only [CoreNode.ingestUnless, not_lt.mpr hlength, if_false, hvalid, hcommunity]
    | ok community =>
      by_cases hbelongs : ∀ event ∈ events, event.belongsTo community
      · exact Or.inr ⟨community, rfl, (ingestUnless_checked hlength
          (forM_validateEvent.mp hvalid) hcommunity hbelongs).1⟩
      · have hwrong : (events.any fun event => !event.belongsTo community) = true := by
          simpa using hbelongs
        refine Or.inl ?_
        simp only [CoreNode.ingestUnless, not_lt.mpr hlength, if_false, hvalid, hcommunity, hwrong,
          if_true]

end Batches

end ChatCommons
