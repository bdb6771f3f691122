import ChatCommons.Archive.Import
import ChatCommons.Chat.Appending
import ChatCommons.Model.ArchiveCommands

/-!
An import either fails before it writes or takes in all of its archive.
-/

namespace ChatCommons

open Collections Dag TopologicalOrder

variable {C : Crypto} {J : PayloadReader} {community : CommunityId} {core core' mid : CoreNode}
  {pending : BTreeMap EventId SignedEvent} {events : List SignedEvent} {event : SignedEvent}
  {U : SignedEvent → Prop}

theorem Grows.trans (h : Grows C U community core mid) (h' : Grows C U community mid core') :
    Grows C U community core core' := by
  induction h' with
  | refl => exact h
  | take _ hfit hparents ih => exact ih.take hfit hparents

theorem Calm.ingestAll_grows (hvalid : ∀ event, U event → event.Valid C)
    (hbelongs : ∀ event, U event → event.belongsTo community) {batches : List (List SignedEvent)}
    (h : Calm U community core) (hU : ∀ batch ∈ batches, ∀ event ∈ batch, U event) :
    Grows C U community core (core.ingestAll C batches) := by
  induction batches generalizing core with
  | nil => exact .refl
  | cons batch batches ih =>
    have hfirst := h.ingest_grows hvalid hbelongs (hU batch List.mem_cons_self)
    have hrest := ih (h.grows hfirst) fun other hother => hU other (List.mem_cons_of_mem _ hother)
    exact hfirst.trans hrest

theorem pending_enclosed_order (henclosed : Enclosed core pending) :
    topologicalOrder core pending = .error .incompleteArchive ∨
    ∃ order, topologicalOrder core pending = .ok order ∧ ParentsFirst pending order ∧
      ∀ x, Grounded (pendingParents pending) x := by
  obtain ⟨order, hsorted, _, horder⟩ := topologicalOrder_cases henclosed
  rw [horder]
  by_cases hlength : order.length = pending.size
  · right
    rw [if_neg (not_not.mpr hlength)]
    have hall : ∀ x, x ∈ pending → x ∈ order := by
      intro x hx
      have hsubset : order ⊆ pending.keys := fun y hy =>
        Std.ExtTreeMap.mem_keys.mpr (hsorted.within y hy)
      have hperm : order.Perm pending.keys := by
        apply (List.subperm_of_subset hsorted.nodup hsubset).perm_of_length_le
        rw [Std.ExtTreeMap.length_keys, hlength]
      exact hperm.mem_iff.mpr (Std.ExtTreeMap.mem_keys.mpr hx)
    refine ⟨order, rfl, { hsorted with all := hall }, hsorted.grounded hall ?_⟩
    intro x hx
    apply grounded_of_parents
    intro p hp
    rw [pendingParents, not_mem_map.mp hx] at hp
    cases hp
  · left
    rw [if_pos hlength]

/-- The two nodes hold the same community, and `core'` has the events besides. -/
structure CoreNode.Absorbed (C : Crypto) (community : CommunityId) (events : List SignedEvent)
    (core core' : CoreNode) : Prop where
  whole : core'.Whole C
  named : core'.community = some community
  has : ∀ event, core'.Has event ↔ core.Has event ∨ event ∈ events

section Absorbing

variable (harchive : Archived C community events) (hwhole : core.Whole C)
  (hnamed : core.community = none ∨ core.community = some community)
  (hcollision : ∀ event ∈ events, NoCollision core.store event)
include hwhole hnamed

theorem whole_takes : core.Takes community := by
  rcases hnamed with hnone | hsome
  · refine Or.inl ⟨hnone, ?_, ?_⟩
    · apply map_ext
      intro id
      rw [not_mem_map.mp fun hid => hwhole.known_empty_of_community hnone id (hwhole.rowKnown hid)]
      simp
    · apply set_ext
      intro id
      exact iff_of_false (hwhole.known_empty_of_community hnone id) not_mem_empty
  · refine Or.inr ⟨hsome, ⟨hwhole.rowId, fun id hid => ?_⟩, fun id row hrow _ =>
      hwhole.rowKnown (mem_of_getElem? hrow)⟩
    obtain ⟨row, hrow⟩ := hwhole.stored hid
    refine ⟨row, hrow, fun parent hp => ?_⟩
    rw [← CoreNode.parents_eq hrow] at hp
    exact hwhole.closed id hid parent hp

include harchive hcollision

theorem absorbed_of_grows
    (hgrows : Grows C (PendingEvent (core.archivePending events)) community core core')
    (hknown : ∀ id ∈ events.map SignedEvent.eventId, id ∈ core'.known) :
    core.Absorbed C community events core' := by
  have hown : ∀ c, core.community = some c → c = community := by
    intro c hc
    rcases hnamed with hnone | hsome
    · rw [hnone] at hc
      cases hc
    · exact Option.some.inj (hc.symm.trans hsome)
  obtain ⟨hwhole', hown'⟩ := hwhole.grows hown hgrows
  have hmem : ∀ event ∈ events, core'.Has event := by
    intro event hevent
    have hid := hknown event.eventId (List.mem_map_of_mem hevent)
    obtain ⟨row, hrow⟩ := hwhole'.stored hid
    rcases hgrows.rows_from hrow with hold | ⟨⟨⟨x, hpending⟩, _, _⟩, hsame⟩
    · rw [hcollision event hevent row hold] at hrow
      exact ⟨hid, hrow⟩
    · obtain ⟨hrowMem, rfl, _⟩ := (archivePending_iff harchive).mp hpending
      rw [harchive.inj hrowMem hevent hsame] at hrow
      exact ⟨hid, hrow⟩
  obtain ⟨genesis, hgenesis, _⟩ := harchive.genesis
  refine ⟨hwhole', ?_, fun event => ⟨?_, ?_⟩⟩
  · obtain ⟨c, hc, _⟩ := hwhole'.member (hmem genesis hgenesis).1 (hmem genesis hgenesis).2
    rw [hc, hown' c hc]
  · rintro ⟨hid, hrow⟩
    rcases hgrows.rows_from hrow with hold | ⟨⟨⟨x, hpending⟩, _, _⟩, _⟩
    · exact Or.inl ⟨hwhole.rowKnown (mem_of_getElem? hold), hold⟩
    · exact Or.inr ((archivePending_iff harchive).mp hpending).1
  · rintro (⟨hid, hrow⟩ | hevent)
    · exact ⟨hgrows.known_mono hid, hgrows.rows_kept hrow⟩
    · exact hmem event hevent

theorem ingestArchive_of_order {order : List EventId}
    (horder : topologicalOrder core (core.archivePending events) = .ok order)
    (hfirst : ParentsFirst (core.archivePending events) order)
    (hground : ∀ x, Grounded (pendingParents (core.archivePending events)) x) :
    ∃ batches, core.ingestArchive C events = (core.ingestAll C batches, .ok
        (events.countP fun event => event.eventId ∉ core.known,
          events.countP fun event => event.eventId ∈ core.known)) ∧
      core.Absorbed C community events (core.ingestAll C batches) := by
  have hmissing : Missing C core community (core.archivePending events) :=
    missing_of_grounded harchive hground
  have hhash : ∀ event ∈ events, ∀ row, core.store.rows[event.eventId]? = some row →
      row.content = event.content := fun event hevent row hrow => by
    rw [hcollision event hevent row hrow]
  have hstart := imported_start harchive (whole_takes hwhole hnamed) hhash
  have hshape : ∀ ids ∈ chunks MAX_PENDING_EVENTS order,
      ids ≠ [] ∧ ids.length ≤ MAX_PENDING_EVENTS := fun ids hids =>
    have hshape := chunks_shape (by decide) order ids hids
    ⟨hshape.1, hshape.2.1⟩
  have hsplit : order = [] ++ (chunks MAX_PENDING_EVENTS order).flatten := by
    rw [List.nil_append, chunks_flatten (by decide)]
  obtain ⟨hingest, himported, _⟩ := ingestBatches_spec hmissing hfirst hsplit hshape hstart 0
  rw [chunks_flatten (by decide), hfirst.length_eq, archivePending_size harchive,
    Nat.zero_add] at hingest
  refine ⟨(chunks MAX_PENDING_EVENTS order).map (eventsOf (core.archivePending events)), ?_, ?_⟩
  · rw [CoreNode.ingestArchive, archiveBatches_of_order hfirst.nodup horder]
    simp only [hingest]
  apply absorbed_of_grows harchive hwhole hnamed hcollision
  · apply hstart.calm.ingestAll_grows
    · intro batch hbatch event hevent
      obtain ⟨ids, _, rfl⟩ := List.mem_map.mp hbatch
      obtain ⟨id, _, hrow⟩ := Missing.mem_eventsOf hevent
      exact ⟨id, hrow⟩
    · rintro event ⟨_, hrow⟩
      exact hmissing.valid hrow
    · rintro event ⟨_, hrow⟩
      exact hmissing.belongs hrow
  · intro id hid
    obtain ⟨event, hmem, rfl⟩ := List.mem_map.mp hid
    apply (himported.known _).mpr
    by_cases hold : event.eventId ∈ core.known
    · exact Or.inl hold
    · have hrow : (core.archivePending events)[event.eventId]? = some event :=
        (archivePending_iff harchive).mpr ⟨hmem, rfl, hold⟩
      exact Or.inr (hfirst.all _ (mem_of_getElem? hrow))

theorem ingestArchive_cases :
    core.ingestArchive C events = (core, .error .incompleteArchive) ∨
    ∃ batches, core.ingestArchive C events = (core.ingestAll C batches, .ok
        (events.countP fun event => event.eventId ∉ core.known,
          events.countP fun event => event.eventId ∈ core.known)) ∧
      core.Absorbed C community events (core.ingestAll C batches) := by
  have henclosed : Enclosed core (core.archivePending events) := archive_enclosed harchive
  rcases pending_enclosed_order henclosed with
    herror | ⟨order, horder, hfirst, hground⟩
  · left
    simp only [CoreNode.ingestArchive, CoreNode.archiveBatches, herror, bind, Except.bind]
  · right
    exact ingestArchive_of_order harchive hwhole hnamed hcollision horder hfirst hground

theorem ingestArchive_grounded
    (hground : ∀ x, Grounded (pendingParents (core.archivePending events)) x) :
    ∃ batches, core.ingestArchive C events = (core.ingestAll C batches, .ok
        (events.countP fun event => event.eventId ∉ core.known,
          events.countP fun event => event.eventId ∈ core.known)) ∧
      core.Absorbed C community events (core.ingestAll C batches) := by
  have hmissing : Missing C core community (core.archivePending events) :=
    missing_of_grounded harchive hground
  obtain ⟨order, horder, hfirst⟩ := topologicalOrder_spec hmissing.toSortable
  exact ingestArchive_of_order harchive hwhole hnamed hcollision horder hfirst hground

end Absorbing

end ChatCommons
