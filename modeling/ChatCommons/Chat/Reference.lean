import ChatCommons.Chat.TipResolution
import ChatCommons.General.RoundsDepth

/-!
What the round loop of `resolve` is for: one pass over the events whose payload
decodes, sorted by depth, priority and id.
-/

namespace ChatCommons

open Collections Candidates

variable (C : Crypto) (J : PayloadReader) (events : List SignedEvent)

section Specification

def eventOf (id : EventId) : Option SignedEvent := events.find? fun event => event.eventId = id

def parentsIn (id : EventId) : List EventId :=
  match eventOf events id with
  | some event => event.content.parents
  | none => []

def Acyclic : Prop := ∀ id, ¬ Relation.TransGen (Dag.ParentOf (parentsIn events)) id id

def decodes (event : SignedEvent) : Bool :=
  match decode J event with
  | .ok _ => true
  | .error _ => false

def decodable : BTreeSet EventId := setOf ((events.filter (decodes J)).map SignedEvent.eventId)

def priorityOf (id : EventId) : ℕ :=
  match eventOf events id with
  | some event =>
    match decode J event with
    | .ok payload => priority payload
    | .error _ => 0
  | none => 0

noncomputable def rank (id : EventId) : ℕ ×ₗ ℕ ×ₗ EventId :=
  toLex (Rounds.depth (parentsIn events) (decodable J events) id,
    toLex (priorityOf J events id, id))

noncomputable def evaluationOrder : List EventId :=
  (decodable J events).toList.insertionSort fun a b => rank J events a ≤ rank J events b

structure Replay where
  rejected : BTreeMap EventId RejectionReason
  state : State := {}
  accepted : List EventId := []

def Replay.reject (r : Replay) (id : EventId) (reason : RejectionReason) : Replay :=
  { r with rejected := r.rejected.insert id reason }

def replayStep (r : Replay) (id : EventId) : Replay :=
  match eventOf events id with
  | none => r
  | some event =>
    match decode J event, authorId C event with
    | .ok payload, .ok author =>
      if event.content.parents.any (fun parent => parent ∉ events.map SignedEvent.eventId) then
        r.reject id .missingParent
      else if event.content.parents.any (fun parent => parent ∈ r.rejected) then
        r.reject id .parentRejected
      else
        match validateContext C r.state event payload author (setOf r.accepted) with
        | .ok _ => { r with
            state := apply C r.state event payload author
            accepted := r.accepted ++ [id] }
        | .error reason => r.reject id reason
    | _, _ => r

def undecodable : BTreeMap EventId RejectionReason :=
  (events.filter fun event => !decodes J event).foldl
    (fun rejected event => rejected.insert event.eventId .invalidPayload) ∅

noncomputable def reference : Replay :=
  (evaluationOrder J events).foldl (replayStep C J events) { rejected := undecodable J events }

/-- The variables of `resolve` after its loop, when the fold has ended so. -/
def Replay.resolver (r : Replay) : Resolver :=
  { rejected := r.rejected
    pending := ∅
    state := r.state
    accepted := setOf r.accepted
    acceptedInOrder := r.accepted }

end Specification

variable {C J events} {k : Candidates} {id : EventId}

section Described

variable (hinj : Unambiguous events) (hk : Describes C J events k)
include hinj hk

theorem eventOf_eq : eventOf events id = k.byId[id]? := by
  apply Option.ext
  intro event
  rw [hk.byId]
  constructor
  · intro h
    exact ⟨List.mem_of_find?_eq_some h, by simpa using List.find?_some h⟩
  · rintro ⟨hmem, rfl⟩
    cases hfind : eventOf events event.eventId with
    | none =>
      have := List.find?_eq_none.mp hfind event hmem
      simp at this
    | some other =>
      have hid : other.eventId = event.eventId := by simpa using List.find?_some hfind
      rw [hinj (List.mem_of_find?_eq_some hfind) hmem hid]

theorem parentsIn_eq : parentsIn events = k.parents := by
  funext id
  have hfind : eventOf events id = k.byId[id]? := eventOf_eq hinj hk
  unfold parentsIn Candidates.parents
  cases h : k.byId[id]? with
  | none => rw [hfind, h]
  | some event => rw [hfind, h]

theorem payload_eq {event : SignedEvent} (hevent : k.byId[id]? = some event) :
    k.payloads[id]? = (decode J event).toOption := by
  obtain ⟨hmem, rfl⟩ := hk.byId.mp hevent
  apply Option.ext
  intro payload
  rw [hk.payloads]
  constructor
  · rintro ⟨other, hother, hid, hdecode⟩
    rw [hinj hother hmem hid] at hdecode
    rw [hdecode]
    rfl
  · intro h
    cases hdecode : decode J event with
    | ok value =>
      rw [hdecode] at h
      obtain rfl := Option.some.inj h
      exact ⟨event, hmem, rfl, hdecode⟩
    | error error =>
      rw [hdecode] at h
      cases h

theorem author_eq {event : SignedEvent} (hevent : k.byId[id]? = some event) :
    k.authors[id]? = (authorId C event).toOption := by
  obtain ⟨hmem, rfl⟩ := hk.byId.mp hevent
  apply Option.ext
  intro author
  rw [hk.authors]
  constructor
  · rintro ⟨other, hother, hid, hauthor⟩
    rw [hinj hother hmem hid] at hauthor
    rw [hauthor]
    rfl
  · intro h
    cases hauthor : authorId C event with
    | ok value =>
      rw [hauthor] at h
      obtain rfl := Option.some.inj h
      exact ⟨event, hmem, rfl, hauthor⟩
    | error error =>
      rw [hauthor] at h
      cases h

theorem priorityOf_eq (hproper : k.Proper) : priorityOf J events id = k.priority id := by
  rw [priorityOf, eventOf_eq hinj hk, Candidates.priority]
  cases hevent : k.byId[id]? with
  | none =>
    have hpayload : k.payloads[id]? = none := not_mem_map.mp fun hmem =>
      not_mem_map.mpr hevent (hproper.known id hmem)
    rw [hpayload]
  | some event =>
    rw [payload_eq hinj hk hevent]
    dsimp only
    cases decode J event <;> rfl

end Described

theorem mem_byId_iff (hk : Describes C J events k) :
    id ∈ k.byId ↔ id ∈ events.map SignedEvent.eventId := by
  rw [mem_iff, List.mem_map]
  exact exists_congr fun event => hk.byId

theorem decodable_eq (hk : Describes C J events k) : decodable J events = keySet k.payloads := by
  refine set_ext fun id => ?_
  rw [decodable, mem_setOf, mem_keySet, mem_iff, List.mem_map]
  constructor
  · rintro ⟨event, hmem, rfl⟩
    obtain ⟨hmem, hdecodes⟩ := List.mem_filter.mp hmem
    unfold decodes at hdecodes
    split at hdecodes
    · rename_i payload hdecode
      exact ⟨payload, hk.payloads.mpr ⟨event, hmem, rfl, hdecode⟩⟩
    · cases hdecodes
  · rintro ⟨payload, hpayload⟩
    obtain ⟨event, hmem, hid, hdecode⟩ := hk.payloads.mp hpayload
    exact ⟨event, List.mem_filter.mpr ⟨hmem, by simp [decodes, hdecode]⟩, hid⟩

theorem undecodable_eq (hk : Describes C J events k) : undecodable J events = k.rejected := by
  refine map_ext fun id => Option.ext fun reason => ?_
  have hmem : id ∈ (events.filter fun event => !decodes J event).map SignedEvent.eventId ↔
      ∃ event ∈ events, event.eventId = id ∧ ∃ error, decode J event = .error error := by
    rw [List.mem_map]
    refine exists_congr fun event => ?_
    rw [List.mem_filter, and_assoc]
    refine and_congr_right fun _ => ?_
    rw [and_comm]
    refine and_congr_right fun _ => ?_
    unfold decodes
    cases decode J event <;> simp
  rw [undecodable, getElem?_foldl_insert, hk.rejected, ← hmem]
  split_ifs with h
  · simp [h, eq_comm]
  · simp [h]

section Simulation

/-- The fold and the loop agree on everything but what is left to do. -/
structure Replays (t : Replay) (r : Resolver) : Prop where
  rejected : r.rejected = t.rejected
  state : r.state = t.state
  acceptedInOrder : r.acceptedInOrder = t.accepted
  accepted : r.accepted = setOf t.accepted

theorem setOf_snoc (l : List EventId) (id : EventId) :
    setOf (l ++ [id]) = (setOf l).insert id :=
  set_ext fun x => by
    rw [mem_insert, mem_setOf, mem_setOf, List.mem_append, List.mem_singleton, or_comm]

variable (hinj : Unambiguous events) (hk : Describes C J events k)
include hinj hk

theorem Replays.step {t : Replay} {r : Resolver} (h : Replays t r) (id : EventId) :
    Replays (replayStep C J events t id) (evaluate C k r id) := by
  unfold replayStep evaluate
  rw [eventOf_eq hinj hk]
  cases hevent : k.byId[id]? with
  | none => exact ⟨h.rejected, h.state, h.acceptedInOrder, h.accepted⟩
  | some event =>
    simp only [payload_eq hinj hk hevent, author_eq hinj hk hevent, h.rejected, h.state, h.accepted,
      mem_byId_iff hk]
    cases decode J event with
    | error _ => exact ⟨rfl, rfl, h.acceptedInOrder, rfl⟩
    | ok payload =>
      cases authorId C event with
      | error _ => exact ⟨rfl, rfl, h.acceptedInOrder, rfl⟩
      | ok author =>
        simp only [Except.toOption]
        split_ifs
        · exact ⟨rfl, rfl, h.acceptedInOrder, rfl⟩
        · exact ⟨rfl, rfl, h.acceptedInOrder, rfl⟩
        · cases validateContext C t.state event payload author (setOf t.accepted)
          · exact ⟨rfl, rfl, h.acceptedInOrder, rfl⟩
          · exact ⟨rfl, rfl, congrArg (· ++ [id]) h.acceptedInOrder, (setOf_snoc _ _).symm⟩

theorem Replays.foldl {t : Replay} {r : Resolver} (h : Replays t r) (ids : List EventId) :
    Replays (ids.foldl (replayStep C J events) t) (ids.foldl (evaluate C k) r) := by
  induction ids generalizing t r with
  | nil => exact h
  | cons id ids ih => exact ih (h.step hinj hk id)

end Simulation

section Refinement

variable (hinj : Unambiguous events) (hk : Describes C J events k) (hacyclic : Acyclic events)
include hinj hk hacyclic

theorem exists_low (id : EventId) : ∃ n, Rounds.Low k.parents (keySet k.payloads) n id := by
  apply Rounds.low_of_acc
  refine Dag.grounded_of_acyclic (S := {id | id ∈ k.byId.keys}) (k.byId.keys.finite_toSet)
    (fun id hid => ?_) (fun id => ?_) id
  · have hnone : k.byId[id]? = none := not_mem_map.mp fun hmem =>
      hid (Std.ExtTreeMap.mem_keys.mpr hmem)
    rw [Candidates.parents, hnone]
  · rw [← parentsIn_eq hinj hk]
    exact hacyclic id

theorem mem_order_of_acyclic : id ∈ k.order ↔ id ∈ k.payloads :=
  ⟨fun h => (mem_order.mp h).1, fun h =>
    mem_order.mpr ⟨h, exists_low hinj hk hacyclic id⟩⟩

variable (hproper : k.Proper)
include hproper

theorem evaluationOrder_eq : evaluationOrder J events = k.order := by
  have hrank : ∀ id, rank J events id =
      toLex (Rounds.depth k.parents (keySet k.payloads) id, k.sortKey id) := fun id => by
    rw [rank, parentsIn_eq hinj hk, decodable_eq hk, priorityOf_eq hinj hk hproper,
      Candidates.sortKey]
  rw [evaluationOrder, decodable_eq hk]
  simp only [hrank]
  exact Rounds.insertionSort_depth sortKey_injective fun id _ =>
    exists_low hinj hk hacyclic id

/-- The loop ends with nothing pending and everything else as the fold has it. -/
theorem final_eq_reference : k.final C = (reference C J events).resolver := by
  have hstart : Replays { rejected := undecodable J events } k.start :=
    ⟨(undecodable_eq hk).symm, rfl, rfl, rfl⟩
  have hreplays := hstart.foldl hinj hk (evaluationOrder J events)
  rw [← reference] at hreplays
  have horder := evaluationOrder_eq hinj hk hacyclic hproper
  have hpending : (k.final C).pending = ∅ := set_ext fun id => by
    rw [mem_final_pending, mem_order_of_acyclic hinj hk hacyclic]
    simp
  rw [horder] at hreplays
  obtain ⟨hrejected, hstate, haccepted, hset⟩ := hreplays
  rw [← Candidates.final] at hrejected hstate haccepted hset
  cases hfinal : k.final C
  simp only [hfinal] at hrejected hstate haccepted hset hpending
  simp only [Replay.resolver, hrejected, hstate, haccepted, hset, hpending]

end Refinement

theorem rejectPending_resolver (t : Replay) : rejectPending t.resolver = t.rejected :=
  map_ext fun id => by
    rw [getElem?_rejectPending, Replay.resolver]
    simp

/-- `resolve` is the fold over the events sorted by depth, priority and id; so it decides each
event, after its parents. -/
theorem resolve_eq_reference (hvalid : ∀ event ∈ events, event.Valid C)
    (hinj : Unambiguous events) (hacyclic : Acyclic events) :
    let t := reference C J events
    (∃ k, events.foldlM (collect C J) {} = .ok k ∧
      resolveLoop C k (keySet k.payloads).size k.start = t.resolver) ∧
    resolve C J events = .ok
      { acceptedInOrder := t.accepted, rejected := t.rejected, snapshot := t.resolver.snapshot } ∧
    (∀ id, id ∈ events.map SignedEvent.eventId ↔ id ∈ t.accepted ∨ id ∈ t.rejected) ∧
    (∀ id ∈ t.accepted, id ∉ t.rejected) ∧
    ∀ pre id post, t.accepted = pre ++ id :: post → ∀ parent ∈ parentsIn events id, parent ∈ pre := by
  intro t
  obtain ⟨k, hcollect, hk⟩ := candidates_spec (J := J) hvalid hinj
  have hproper := hk.proper hvalid hinj
  have hfinal : k.final C = t.resolver := final_eq_reference hinj hk hacyclic hproper
  have hresolution : k.resolve C =
      { acceptedInOrder := t.accepted, rejected := t.rejected, snapshot := t.resolver.snapshot } := by
    rw [resolve_eq_final, hfinal, rejectPending_resolver]
    rfl
  have hrejected : ∀ id, id ∈ t.rejected ↔ id ∈ k.byId ∧ id ∉ t.accepted := fun id => by
    have h := mem_rejected (C := C) (x := id) hproper
    rwa [hresolution] at h
  have htrace := (evaluated_final (C := C) hproper.toComplete).trace
  rw [hfinal] at htrace
  refine ⟨⟨k, hcollect, (resolveLoop_eq _ _).trans hfinal⟩, ?_, fun id => ?_, fun id hid hr => ?_,
    fun pre id post hsplit => ?_⟩
  · rw [resolve_eq hcollect, hresolution]
  · rw [← mem_byId_iff hk, hrejected]
    constructor
    · intro hid
      by_cases haccepted : id ∈ t.accepted
      · exact Or.inl haccepted
      · exact Or.inr ⟨hid, haccepted⟩
    · rintro (haccepted | ⟨hid, _⟩)
      · have hmem : id ∈ (k.final C).acceptedInOrder := by rw [hfinal]; exact haccepted
        exact hproper.known id (mem_order.mp ((judged_final hproper).subset_order hmem)).1
      · exact hid
  · exact ((hrejected id).mp hr).2 hid
  · have hpre : Trace C k (pre ++ id :: post) t.state := hsplit ▸ htrace
    rw [parentsIn_eq hinj hk]
    obtain ⟨_, hdone⟩ := hpre.shorten (show pre ++ [id] <+: pre ++ id :: post from ⟨post, by simp⟩)
    obtain ⟨_, _, hparents, _⟩ := hdone.snoc_inv
    exact hparents

theorem acyclic_stored {core : CoreNode} {stored : List SignedEvent} (hcore : core.Sound C)
    (hstored : core.allEvents C = .ok stored) (J : PayloadReader) : Acyclic stored := by
  obtain ⟨k, _, hk⟩ := candidates_spec (J := J) (stored_valid hcore hstored)
    (unambiguous_stored hcore hstored)
  intro id hcycle
  rw [parentsIn_eq (unambiguous_stored hcore hstored) hk] at hcycle
  by_cases hid : id ∈ core.known
  · exact (grounded_stored hcore hstored hk hid).not_cyclic hcycle
  · obtain ⟨parent, _, hparent⟩ := Relation.TransGen.tail'_iff.mp hcycle
    have hnone : k.byId[id]? = none := not_mem_map.mp fun hmem =>
      hid ((mem_byId_stored hcore hstored hk).mp hmem)
    rw [Dag.ParentOf, Candidates.parents, hnone] at hparent
    cases hparent

open Sample in
theorem resolve_eq_reference_brawl :
    let t := reference crypto brawlReader brawlStored
    (∃ k, brawlStored.foldlM (collect crypto brawlReader) {} = .ok k ∧
      resolveLoop crypto k (keySet k.payloads).size k.start = t.resolver) ∧
    resolve crypto brawlReader brawlStored = .ok
      { acceptedInOrder := t.accepted, rejected := t.rejected, snapshot := t.resolver.snapshot } ∧
    (∀ id, id ∈ brawlStored.map SignedEvent.eventId ↔ id ∈ t.accepted ∨ id ∈ t.rejected) ∧
    (∀ id ∈ t.accepted, id ∉ t.rejected) ∧
    ∀ pre id post, t.accepted = pre ++ id :: post →
      ∀ parent ∈ parentsIn brawlStored id, parent ∈ pre :=
  resolve_eq_reference (stored_valid brawlNode_sound brawl_listed)
    (unambiguous_stored brawlNode_sound brawl_listed)
    (acyclic_stored brawlNode_sound brawl_listed brawlReader)

end ChatCommons
