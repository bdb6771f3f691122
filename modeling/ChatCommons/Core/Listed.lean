import ChatCommons.Core.IngestSpec

namespace ChatCommons

open Collections Dag

variable (C : Crypto) (community : CommunityId)

structure Follows (events : List SignedEvent) (event : SignedEvent) : Prop where
  valid : event.Valid C
  belongs : event.belongsTo community
  parents : ∀ parent ∈ event.content.parents, ∃ earlier ∈ events, earlier.eventId = parent
  fresh : ∀ earlier ∈ events, earlier.eventId ≠ event.eventId

inductive Listed : List SignedEvent → Prop
  | nil : Listed []
  | snoc {events event} : Listed events → Follows C community events event →
      Listed (events ++ [event])

def CoreNode.ofEvents (events : List SignedEvent) : CoreNode where
  store := ⟨offeredOf events⟩
  community := if events.isEmpty then none else some community
  known := setOf (events.map SignedEvent.eventId)

variable {C community} {events : List SignedEvent}

theorem offeredOf_snoc (events : List SignedEvent) (event : SignedEvent) :
    offeredOf (events ++ [event]) = (offeredOf events).insert event.eventId event := by
  simp [offeredOf]

theorem CoreNode.known_ofEvents {id : EventId} :
    id ∈ (ofEvents community events).known ↔ ∃ event ∈ events, event.eventId = id := by
  simp [ofEvents]

theorem Listed.injOn (h : Listed C community events) :
    ∀ a ∈ events, ∀ b ∈ events, a.eventId = b.eventId → a = b := by
  induction h with
  | nil => simp
  | @snoc events event _ hf ih =>
    intro a ha b hb hab
    rcases List.mem_append.mp ha with ha | ha <;> rcases List.mem_append.mp hb with hb | hb
    · exact ih a ha b hb hab
    · rw [List.mem_singleton.mp hb] at hab
      exact absurd hab (hf.fresh a ha)
    · rw [List.mem_singleton.mp ha] at hab
      exact absurd hab.symm (hf.fresh b hb)
    · rw [List.mem_singleton.mp ha, List.mem_singleton.mp hb]

theorem Listed.row_iff (h : Listed C community events) {id : EventId} {event : SignedEvent} :
    (CoreNode.ofEvents community events).store.rows[id]? = some event ↔
      event ∈ events ∧ event.eventId = id := offeredOf_spec h.injOn

theorem CoreNode.sound_empty (store : EventStore)
    (hid : ∀ {id : EventId} {event : SignedEvent}, store.rows[id]? = some event → event.eventId = id)
    (hvalid : ∀ {id : EventId} {event : SignedEvent}, store.rows[id]? = some event → event.Valid C) :
    (⟨store, none, ∅⟩ : CoreNode).Sound C where
  rowId := hid
  rowValid := hvalid
  stored h := absurd h not_mem_empty
  member h := absurd h not_mem_empty
  closed _ h := absurd h not_mem_empty
  grounded _ h := absurd h not_mem_empty

theorem Listed.sound (h : Listed C community events) :
    (CoreNode.ofEvents community events).Sound C := by
  induction h with
  | nil => exact CoreNode.sound_empty ⟨∅⟩ (by simp) (by simp)
  | @snoc events event h hf ih =>
    have hnext : CoreNode.ofEvents community (events ++ [event]) = ⟨⟨offeredOf (events ++ [event])⟩,
        some community, (CoreNode.ofEvents community events).known.insert event.eventId⟩ := by
      have hknown : setOf ((events ++ [event]).map SignedEvent.eventId) =
          (setOf (events.map SignedEvent.eventId)).insert event.eventId := by
        refine set_ext fun id => ?_
        rw [mem_insert, mem_setOf, mem_setOf, List.map_append, List.mem_append, or_comm,
          List.map_singleton, List.mem_singleton]
      simp [CoreNode.ofEvents, ← hknown]
    rw [hnext]
    refine ih.extend hf.valid (fun parent hp => ?_) (fun id => ?_) (fun other hrow => ?_) hf.belongs
      (fun c hc => ?_)
    · exact CoreNode.known_ofEvents.mpr (hf.parents parent hp)
    · rw [offeredOf_snoc, getElem?_insert]
      rfl
    · obtain ⟨hmem, hid⟩ := h.row_iff.mp hrow
      exact absurd hid (hf.fresh other hmem)
    · rw [CoreNode.ofEvents] at hc
      split_ifs at hc
      exact (Option.some.inj hc).symm

section Check

theorem follows_iff {event : SignedEvent} : Follows C community events event ↔
    validateEvent C event = .ok () ∧ event.belongsTo community ∧
      (∀ parent ∈ event.content.parents, parent ∈ events.map SignedEvent.eventId) ∧
      event.eventId ∉ events.map SignedEvent.eventId := by
  simp only [validateEvent_iff, List.mem_map]
  exact ⟨fun h => ⟨h.valid, h.belongs, h.parents, fun ⟨e, he, heq⟩ => h.fresh e he heq⟩,
    fun ⟨hv, hb, hp, hf⟩ => ⟨hv, hb, hp, fun e he heq => hf ⟨e, he, heq⟩⟩⟩

instance (event : SignedEvent) : Decidable (Follows C community events event) :=
  decidable_of_iff' _ follows_iff

variable (C community) in
def isListed (done : List SignedEvent) : List SignedEvent → Bool
  | [] => true
  | event :: rest => decide (Follows C community done event) && isListed (done ++ [event]) rest

theorem listed_append {done rest : List SignedEvent} (hdone : Listed C community done)
    (h : isListed C community done rest = true) : Listed C community (done ++ rest) := by
  induction rest generalizing done with
  | nil => rwa [List.append_nil]
  | cons event rest ih =>
    rw [isListed, Bool.and_eq_true, decide_eq_true_eq] at h
    have := ih (hdone.snoc h.1) h.2
    rwa [List.append_assoc] at this

theorem listed_of_isListed (h : isListed C community [] events = true) :
    Listed C community events := listed_append .nil h

end Check

end ChatCommons
