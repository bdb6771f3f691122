import ChatCommons.Core.EventValidity
import ChatCommons.General.Dag
import ChatCommons.Model.NodeCore

namespace ChatCommons

open Collections Dag

namespace CoreNode

variable (C : Crypto) (node : CoreNode)

def parents (id : EventId) : List EventId :=
  match node.store.rows[id]? with
  | some event => event.content.parents
  | none => []

def knownSet : Set EventId := {id | id ∈ node.known}

/-- The rows are those that `insert` writes, and the known ids are a closed history
of one community. -/
structure Sound : Prop where
  rowId : ∀ {id : EventId} {event : SignedEvent},
    node.store.rows[id]? = some event → event.eventId = id
  rowValid : ∀ {id : EventId} {event : SignedEvent},
    node.store.rows[id]? = some event → event.Valid C
  stored : ∀ {id : EventId}, id ∈ node.known → ∃ event, node.store.rows[id]? = some event
  member : ∀ {id : EventId} {event : SignedEvent}, id ∈ node.known →
    node.store.rows[id]? = some event →
      ∃ community, node.community = some community ∧ event.belongsTo community
  closed : Closed node.parents node.knownSet
  grounded : ∀ id ∈ node.knownSet, Grounded node.parents id

variable {C node}

theorem parents_eq {id : EventId} {event : SignedEvent}
    (h : node.store.rows[id]? = some event) : node.parents id = event.content.parents := by
  simp [parents, h]

theorem knownSet_finite : node.knownSet.Finite :=
  (node.known.toList.finite_toSet).subset fun id hid => by
    simpa [knownSet, Std.ExtTreeSet.mem_toList] using hid

section Reading

theorem event_eq_of_valid {id : EventId}
    (hrow : ∀ event, node.store.rows[id]? = some event → event.Valid C) :
    node.event C id = .ok node.store.rows[id]? := by
  rw [event, EventStore.get]
  cases h : node.store.rows[id]? with
  | none => rfl
  | some event => simp [decodeStored, validateEvent_iff.mpr (hrow event h), Except.map]

theorem events_eq_of_valid {ids : List EventId}
    (hrows : ∀ id ∈ ids, ∀ event, node.store.rows[id]? = some event → event.Valid C) :
    node.events C ids = .ok (ids.filterMap fun id => node.store.rows[id]?) := by
  induction ids with
  | nil => rfl
  | cons id ids ih =>
    have hhead := event_eq_of_valid (hrows id List.mem_cons_self)
    have htail := ih fun x hx => hrows x (List.mem_cons_of_mem _ hx)
    rw [events, hhead, htail]
    cases hrow : node.store.rows[id]? <;> simp [bind, Except.bind, pure, Except.pure, hrow]

theorem heads_of_valid
    (hrows : ∀ id ∈ node.known, ∀ event, node.store.rows[id]? = some event → event.Valid C) :
    ∃ heads, node.heads C = .ok heads ∧ heads.Pairwise (· < ·) ∧
      ∀ id, id ∈ heads ↔ IsHead node.parents node.knownSet id := by
  have hreferenced : ∀ (events : List SignedEvent) (s : BTreeSet EventId) (id : EventId),
      id ∈ events.foldl (fun referenced event =>
        event.content.parents.foldl (fun s id => s.insert id) referenced) s ↔
          id ∈ s ∨ ∃ event ∈ events, id ∈ event.content.parents := by
    intro events
    induction events with
    | nil => simp
    | cons event events ih =>
      intro s id
      simp only [List.foldl_cons, ih, mem_foldl_insert, List.mem_cons, exists_eq_or_imp]
      tauto
  have hmem : ∀ event, event ∈ node.known.toList.filterMap (fun id => node.store.rows[id]?) ↔
      ∃ id ∈ node.known, node.store.rows[id]? = some event := by
    simp [List.mem_filterMap]
  have hevents := events_eq_of_valid fun id hid => hrows id (Std.ExtTreeSet.mem_toList.mp hid)
  refine ⟨_, by rw [heads, hevents]; rfl, toList_sorted _, fun id => ?_⟩
  simp only [Std.ExtTreeSet.mem_toList, Std.ExtTreeSet.mem_diff_iff, hreferenced, not_mem_empty,
    false_or, hmem, IsHead, knownSet, Set.mem_ofPred_eq]
  apply and_congr_right
  intro _
  constructor
  · intro hnot x hx hp
    cases hrow : node.store.rows[x]? with
    | none =>
      rw [parents, hrow] at hp
      cases hp
    | some event =>
      rw [parents_eq hrow] at hp
      exact hnot ⟨event, ⟨x, hx, hrow⟩, hp⟩
  · rintro hall ⟨event, ⟨x, hx, hrow⟩, hp⟩
    apply hall x hx
    rwa [parents_eq hrow]

variable (hrows : ∀ {id : EventId} {event : SignedEvent},
  node.store.rows[id]? = some event → event.Valid C)
include hrows

theorem event_eq_row (id : EventId) : node.event C id = .ok node.store.rows[id]? :=
  event_eq_of_valid fun _ => hrows

theorem events_eq_rows (ids : List EventId) :
    node.events C ids = .ok (ids.filterMap fun id => node.store.rows[id]?) :=
  events_eq_of_valid fun _ _ _ => hrows

end Reading

namespace Sound

variable (h : node.Sound C)
include h

theorem event_eq (id : EventId) : node.event C id = .ok node.store.rows[id]? :=
  event_eq_row h.rowValid id

theorem events_eq (ids : List EventId) :
    node.events C ids = .ok (ids.filterMap fun id => node.store.rows[id]?) :=
  events_eq_rows h.rowValid ids

theorem allEvents_eq : node.allEvents C =
    .ok (node.known.toList.filterMap fun id => node.store.rows[id]?) := h.events_eq _

theorem heads_spec : ∃ heads, node.heads C = .ok heads ∧ heads.Pairwise (· < ·) ∧
    ∀ id, id ∈ heads ↔ IsHead node.parents node.knownSet id :=
  heads_of_valid fun _ _ _ => h.rowValid

theorem known_empty_of_community (hnone : node.community = none) (id : EventId) :
    id ∉ node.known := by
  intro hid
  obtain ⟨event, hrow⟩ := h.stored hid
  obtain ⟨community, hc, _⟩ := h.member hid hrow
  rw [hnone] at hc
  cases hc

end Sound

end CoreNode

end ChatCommons
