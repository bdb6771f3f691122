import ChatCommons.Core.Growth
import ChatCommons.Sample.Club

/-!
The known events after a batch are the least closed set above those before it, so neither the
order of the events nor their division into batches matters.
-/

namespace ChatCommons

open Collections

variable {C : Crypto} {offered : SignedEvent → Prop} {community : CommunityId}
  {node node' : CoreNode} {events : List SignedEvent} {event : SignedEvent}

def ClosedUnder (offered : SignedEvent → Prop) (S : Set EventId) : Prop :=
  ∀ event, offered event → (∀ parent ∈ event.content.parents, parent ∈ S) → event.eventId ∈ S

namespace CoreNode

def closures (node : CoreNode) (offered : SignedEvent → Prop) : Set (Set EventId) :=
  {S | node.knownSet ⊆ S ∧ ClosedUnder offered S}

/-- The rows stand under their ids, and those of known events name known parents. -/
structure ParentClosed (node : CoreNode) : Prop where
  rowId : ∀ {id : EventId} {event : SignedEvent},
    node.store.rows[id]? = some event → event.eventId = id
  closed : ∀ id ∈ node.known, ∃ event, node.store.rows[id]? = some event ∧
    ∀ parent ∈ event.content.parents, parent ∈ node.known

/-- The events that are offered or stored; no two of them are to have the same id. -/
def met (node : CoreNode) (offered : SignedEvent → Prop) : Set SignedEvent :=
  {event | offered event ∨ ∃ id : EventId, node.store.rows[id]? = some event}

end CoreNode

section Growing

variable (h : Grows C offered community node node')
include h

theorem Grows.least {S : Set EventId} (hS : S ∈ node.closures offered) : node'.knownSet ⊆ S := by
  induction h with
  | refl => exact hS.1
  | take h hfit hparents ih =>
    intro id hid
    rcases mem_insert.mp hid with rfl | hid
    · exact hS.2 _ hfit.offered fun parent hp => ih (hparents parent hp)
    · exact ih hid

theorem Grows.rows_mono {id : EventId} (hid : id ∈ node.store.rows) : id ∈ node'.store.rows := by
  obtain ⟨event, hrow⟩ := mem_iff.mp hid
  exact mem_of_getElem? (h.rows_kept hrow)

theorem Grows.rows_known {id : EventId} (hid : id ∈ node'.store.rows) :
    id ∈ node.store.rows ∨ id ∈ node'.known := by
  obtain ⟨event, hrow⟩ := mem_iff.mp hid
  exact (h.row_known hrow).imp_left mem_of_getElem?

theorem Grows.met_subset : node'.met offered ⊆ node.met offered := by
  rintro event (hoffered | ⟨id, hrow⟩)
  · exact Or.inl hoffered
  · exact (h.rows_from hrow).elim (fun hold => Or.inr ⟨id, hold⟩) fun hnew =>
      Or.inl hnew.1.offered

theorem Grows.parentClosed (hnode : node.ParentClosed)
    (hinj : Set.InjOn SignedEvent.eventId (node.met offered)) : node'.ParentClosed := by
  have hrowId : ∀ {mid : CoreNode} {id : EventId} {event : SignedEvent},
      Grows C offered community node mid → mid.store.rows[id]? = some event →
        event.eventId = id := by
    intro mid id event hgrows hrow
    exact (hgrows.rows_from hrow).elim hnode.rowId And.right
  refine ⟨fun hrow => hrowId h hrow, ?_⟩
  induction h with
  | refl => exact hnode.closed
  | @take mid event h hfit hparents ih =>
    have hlater : ∀ x ∈ mid.known, x ∈ (mid.take community event).known := fun x hx =>
      mem_insert.mpr (Or.inr hx)
    have hrows : ∀ {x : EventId} {row : SignedEvent}, mid.store.rows[x]? = some row →
        (mid.take community event).store.rows[x]? = some row := by
      intro x row hrow
      rw [CoreNode.take, getElem?_insertIfNew, if_neg, hrow]
      rintro ⟨rfl, hnot⟩
      exact hnot (mem_of_getElem? hrow)
    intro id hid
    rcases mem_insert.mp hid with rfl | hid
    · refine ⟨event, ?_, fun parent hp => hlater parent (hparents parent hp)⟩
      by_cases hstored : event.eventId ∈ mid.store.rows
      · obtain ⟨other, hother⟩ := mem_iff.mp hstored
        have hsame : other = event := hinj (h.met_subset (Or.inr ⟨_, hother⟩))
          (Or.inl hfit.offered) (hrowId h hother)
        exact hrows (hsame ▸ hother)
      · rw [CoreNode.take, getElem?_insertIfNew, if_pos ⟨rfl, hstored⟩]
    · obtain ⟨row, hrow, hclosed⟩ := ih id hid
      exact ⟨row, hrows hrow, fun parent hp => hlater parent (hclosed parent hp)⟩

end Growing

namespace Ingestion

variable {s : Ingestion}

/-- The accounts of the loop. -/
structure Tally (C : Crypto) (events : List SignedEvent) (community : CommunityId)
    (node : CoreNode) (s : Ingestion) : Prop where
  grows : Grows C (· ∈ events) community node s.node
  source : ∀ {id : EventId} {event : SignedEvent}, s.pending[id]? = some event →
    (offeredOf events)[id]? = some event
  rest : ∀ {id : EventId} {event : SignedEvent}, (offeredOf events)[id]? = some event →
    s.pending[id]? = some event ∨ id ∈ s.node.known
  inserted : s.inserted + node.store.rows.size = s.node.store.rows.size
  total : s.inserted + s.alreadyPresent + s.pending.size = (offeredOf events).size

theorem insertIfNew_size (rows : BTreeMap EventId SignedEvent) (event : SignedEvent) :
    (rows.insertIfNew event.eventId event).size =
      if event.eventId ∈ rows then rows.size else rows.size + 1 := by
  rw [Std.ExtTreeMap.size_insertIfNew]

theorem insert_outcome (store : EventStore) (hvalid : event.Valid C) :
    store.insert C event = .ok (⟨store.rows.insertIfNew event.eventId event⟩,
      if event.eventId ∈ store.rows then .alreadyPresent else .inserted) := by
  simp only [EventStore.insert, validateEvent_iff.mpr hvalid]
  by_cases hmem : event.eventId ∈ store.rows
  · have hsame : store.rows.insertIfNew event.eventId event = store.rows := by
      apply map_ext
      intro id
      rw [getElem?_insertIfNew, if_neg fun h => h.2 hmem]
    rw [if_pos hmem, if_pos hmem, hsame]
  · have hnew : store.rows.insertIfNew event.eventId event =
        store.rows.insert event.eventId event := by
      apply map_ext
      intro id
      rw [getElem?_insertIfNew, getElem?_insert]
      simp only [hmem, not_false_eq_true, and_true]
    rw [if_neg hmem, if_neg hmem, hnew]

theorem Tally.store (h : s.Tally C events community node) (hvalid : ∀ event ∈ events, event.Valid C)
    (hbelongs : ∀ event ∈ events, event.belongsTo community) {id : EventId}
    (hid : s.pending[id]? = some event)
    (hparents : ∀ parent ∈ event.content.parents, parent ∈ s.node.known) :
    ∃ s', storeReadyUnless C (fun _ => false) community s id = .ok s' ∧
      s'.Tally C events community node ∧ s'.pending = s.pending.erase id ∧
      ∀ x ∈ s.node.known, x ∈ s'.node.known := by
  obtain ⟨hmem, rfl⟩ := offeredOf_mem (h.source hid)
  have hinsert := insert_outcome s.node.store (hvalid event hmem)
  have herase := map_size_erase (mem_of_getElem? hid)
  have hrows := insertIfNew_size s.node.store.rows event
  have hinserted := h.inserted
  have htotal := h.total
  refine ⟨_, by simp only [storeReadyUnless, hid, insertUnless_never, hinsert]; rfl,
    ⟨?_, ?_, ?_, ?_, ?_⟩, rfl, ?_⟩
  · exact h.grows.take ⟨hmem, hvalid event hmem, hbelongs event hmem⟩ hparents
  · intro x other hother
    rw [getElem?_erase] at hother
    split_ifs at hother
    exact h.source hother
  · intro x other hother
    rw [getElem?_erase, mem_insert]
    rcases h.rest hother with hpending | hknown
    · by_cases heq : event.eventId = x
      · exact Or.inr (Or.inl heq.symm)
      · exact Or.inl (by rwa [if_neg heq])
    · exact Or.inr (Or.inr hknown)
  · dsimp only
    by_cases hstored : event.eventId ∈ s.node.store.rows
    · simp only [hstored, if_true, reduceCtorEq, if_false] at hrows ⊢
      omega
    · simp only [hstored, if_false, if_true] at hrows ⊢
      omega
  · dsimp only
    by_cases hstored : event.eventId ∈ s.node.store.rows
    · simp only [hstored, if_true, reduceCtorEq, if_false]
      omega
    · simp only [hstored, if_false, if_true, reduceCtorEq]
      omega
  · exact fun x hx => mem_insert.mpr (Or.inr hx)

end Ingestion

section Batch

def distinctIds (events : List SignedEvent) : List EventId :=
  (setOf (events.map SignedEvent.eventId)).toList

theorem mem_distinctIds {id : EventId} :
    id ∈ distinctIds events ↔ ∃ event ∈ events, event.eventId = id := by
  simp [distinctIds]

theorem distinctIds_sorted (events : List SignedEvent) :
    (distinctIds events).Pairwise (· < ·) := toList_sorted _

structure Account (node : CoreNode) (events : List SignedEvent) (node' : CoreNode)
    (report : IngestReport) : Prop where
  known : IsLeast (node.closures (· ∈ events)) node'.knownSet
  inserted : report.inserted = (distinctIds events).countP fun id =>
    id ∈ node'.known ∧ id ∉ node.store.rows
  alreadyPresent : report.alreadyPresent = (distinctIds events).countP fun id =>
    id ∈ node'.known ∧ id ∈ node.store.rows
  unresolved : report.unresolved = (distinctIds events).filter fun id => id ∉ node'.known
  total : report.inserted + report.alreadyPresent + report.unresolved.length =
    (distinctIds events).length

variable (hvalid : ∀ event ∈ events, event.Valid C)
  (hbelongs : ∀ event ∈ events, event.belongsTo community) (hnode : node.ParentClosed)
  (hinj : Set.InjOn SignedEvent.eventId (node.met (· ∈ events)))

include hinj in
theorem offered_iff {id : EventId} :
    (offeredOf events)[id]? = some event ↔ event ∈ events ∧ event.eventId = id :=
  offeredOf_spec fun _ ha _ hb hab => hinj (Or.inl ha) (Or.inl hb) hab

include hinj in
theorem offeredOf_size : (offeredOf events).size = (distinctIds events).length := by
  have hkeys : (offeredOf events).keys = distinctIds events := by
    apply (keys_sorted _).eq_of_mem_iff (distinctIds_sorted events)
    intro id
    rw [Std.ExtTreeMap.mem_keys, mem_iff, mem_distinctIds]
    simp only [offered_iff hinj]
  rw [← hkeys, Std.ExtTreeMap.length_keys]

section Finished

variable {s : Ingestion} (h : s.Tally C events community node) (hready : s.ready = [])
include hnode hinj h hready

omit hnode in
theorem known_least : IsLeast (node.closures (· ∈ events)) s.node.knownSet := by
  refine ⟨⟨fun id hid => h.grows.known_mono hid, fun event hevent hparents => ?_⟩, fun S hS => ?_⟩
  · rcases h.rest ((offered_iff hinj).mpr ⟨hevent, rfl⟩) with hpending | hknown
    · have hmem : event.eventId ∈ s.ready := Ingestion.mem_ready.mpr ⟨event, hpending, hparents⟩
      rw [hready] at hmem
      cases hmem
    · exact hknown
  · exact h.grows.least hS

theorem mem_unresolved {id : EventId} :
    id ∈ s.pending ↔ id ∈ distinctIds events ∧ id ∉ s.node.known := by
  constructor
  · intro hid
    obtain ⟨event, hevent⟩ := mem_iff.mp hid
    obtain ⟨hmem, hkey⟩ := (offered_iff hinj).mp (h.source hevent)
    refine ⟨mem_distinctIds.mpr ⟨event, hmem, hkey⟩, fun hknown => ?_⟩
    have hclosed := h.grows.parentClosed hnode hinj
    obtain ⟨row, hrow, hparents⟩ := hclosed.closed id hknown
    obtain rfl : row = event := hinj (h.grows.met_subset (Or.inr ⟨id, hrow⟩)) (Or.inl hmem)
      ((hclosed.rowId hrow).trans hkey.symm)
    have hmem : id ∈ s.ready := Ingestion.mem_ready.mpr ⟨row, hevent, hparents⟩
    rw [hready] at hmem
    cases hmem
  · rintro ⟨hid, hnot⟩
    obtain ⟨event, hmem, rfl⟩ := mem_distinctIds.mp hid
    rcases h.rest ((offered_iff hinj).mpr ⟨hmem, rfl⟩) with hpending | hknown
    · exact mem_of_getElem? hpending
    · exact absurd hknown hnot

theorem unresolved_eq : s.pending.keys = (distinctIds events).filter fun id => id ∉ s.node.known := by
  apply (keys_sorted _).eq_of_mem_iff ((distinctIds_sorted events).filter _)
  intro id
  rw [Std.ExtTreeMap.mem_keys, mem_unresolved hnode hinj h hready, List.mem_filter,
    decide_eq_true_eq]

omit hready in
theorem inserted_eq : s.inserted = (distinctIds events).countP fun id =>
    id ∈ s.node.known ∧ id ∉ node.store.rows := by
  have hkeys : s.node.store.rows.keys.Perm (node.store.rows.keys ++
      (distinctIds events).filter fun id => id ∈ s.node.known ∧ id ∉ node.store.rows) := by
    apply (List.perm_ext_iff_of_nodup Std.ExtTreeMap.nodup_keys ?_).mpr
    · intro id
      simp only [Std.ExtTreeMap.mem_keys, List.mem_append, List.mem_filter, decide_eq_true_eq]
      constructor
      · intro hid
        by_cases hold : id ∈ node.store.rows
        · exact Or.inl hold
        · have hknown := (h.grows.rows_known hid).resolve_left hold
          obtain ⟨event, hrow⟩ := mem_iff.mp hid
          obtain hrow | ⟨hfit, hkey⟩ := h.grows.rows_from hrow
          · exact absurd (mem_of_getElem? hrow) hold
          · exact Or.inr ⟨mem_distinctIds.mpr ⟨event, hfit.offered, hkey⟩, hknown, hold⟩
      · rintro (hid | ⟨_, hknown, _⟩)
        · exact h.grows.rows_mono hid
        · obtain ⟨row, hrow, _⟩ := (h.grows.parentClosed hnode hinj).closed id hknown
          exact mem_of_getElem? hrow
    · refine List.nodup_append.mpr ⟨Std.ExtTreeMap.nodup_keys, ?_, ?_⟩
      · exact ((distinctIds_sorted events).imp fun h => ne_of_lt h).filter _
      · rintro id hid other hother rfl
        rw [List.mem_filter, decide_eq_true_eq] at hother
        exact hother.2.2 (Std.ExtTreeMap.mem_keys.mp hid)
  have hlength := hkeys.length_eq
  rw [List.length_append, Std.ExtTreeMap.length_keys, Std.ExtTreeMap.length_keys,
    ← List.countP_eq_length_filter] at hlength
  have hinserted := h.inserted
  omega

theorem account : Account node events s.node
    { inserted := s.inserted, alreadyPresent := s.alreadyPresent, unresolved := s.pending.keys } := by
  have hinserted := inserted_eq hnode hinj h
  have hunresolved := unresolved_eq hnode hinj h hready
  have htotal := h.total
  rw [offeredOf_size hinj, ← Std.ExtTreeMap.length_keys] at htotal
  refine ⟨known_least hinj h hready, hinserted, ?_, hunresolved, htotal⟩
  have hsplit := List.length_eq_countP_add_countP (fun id : EventId => decide (id ∈ s.node.known))
    (l := distinctIds events)
  have hpresent : (distinctIds events).countP (fun id => decide (id ∈ s.node.known)) =
      (distinctIds events).countP (fun id => id ∈ s.node.known ∧ id ∈ node.store.rows) +
        (distinctIds events).countP (fun id => id ∈ s.node.known ∧ id ∉ node.store.rows) := by
    rw [List.countP_eq_length_filter, List.length_eq_countP_add_countP
      (fun id : EventId => decide (id ∈ node.store.rows)), List.countP_filter, List.countP_filter]
    congr 2
    · funext id
      simp [and_comm]
    · funext id
      simp [and_comm]
  rw [hunresolved, ← List.countP_eq_length_filter] at htotal
  simp only [decide_not] at htotal
  dsimp only
  have hrest : (distinctIds events).countP (fun id => !decide (id ∈ s.node.known)) =
      (distinctIds events).countP (fun id => ¬ decide (id ∈ s.node.known) = true) := by
    congr 1
    funext id
    simp
  omega

end Finished

include hvalid hbelongs hnode hinj in
theorem ingest_account (hlength : events.length ≤ MAX_PENDING_EVENTS)
    (hcommunity : node.ingestCommunity C events = .ok community) :
    ∃ node' report, node.ingest C events = (node', .ok report) ∧
      Account node events node' report ∧ Grows C (· ∈ events) community node node' := by
  have hstart : Ingestion.Tally C events community node
      { node, pending := offeredOf events } :=
    ⟨.refl, id, Or.inl, by simp, by simp⟩
  have hstep : ∀ (s : Ingestion) (id : EventId) (event : SignedEvent),
      s.Tally C events community node → s.pending[id]? = some event →
      (∀ parent ∈ event.content.parents, parent ∈ s.node.known) →
      (∃ s', Ingestion.storeReadyUnless C (fun _ => false) community s id = .ok s' ∧
        s'.Tally C events community node ∧ s'.pending = s.pending.erase id ∧
        ∀ x ∈ s.node.known, x ∈ s'.node.known) ∨
      ∃ failure, Ingestion.storeReadyUnless C (fun _ => false) community s id = .error failure ∧
        False := fun s id event h hid hparents =>
    Or.inl (h.store hvalid hbelongs hid hparents)
  obtain ⟨s, hrun, htally, hready⟩ | ⟨_, _, hfalse⟩ :=
    Ingestion.run_rule (fun _ => false) hstep (offeredOf events).size hstart (le_refl _)
  · have hwrong : ¬ (events.any fun event => !event.belongsTo community) = true := by
      simpa using hbelongs
    refine ⟨s.node, _, ?_, account hnode hinj htally hready, htally.grows⟩
    rw [runUnless_never, offeredOf] at hrun
    simp only [CoreNode.ingest, not_lt.mpr hlength, if_false, hwrong, Bool.false_eq_true,
      forM_validateEvent.mpr hvalid, hcommunity, hrun]
  · exact hfalse.elim

end Batch

section Runs

/-- What the nodes have that are offered events of one community, none of two with the same id. -/
structure Calm (U : SignedEvent → Prop) (community : CommunityId) (node : CoreNode) : Prop
    extends node.ParentClosed where
  inj : Set.InjOn SignedEvent.eventId (node.met U)
  own : ∀ c, node.community = some c → c = community
  named : node.community = none → ∀ id, id ∉ node.known

variable {U : SignedEvent → Prop} (hvalid : ∀ event, U event → event.Valid C)
  (hbelongs : ∀ event, U event → event.belongsTo community)

theorem Grows.named (h : Grows C offered community node node')
    (hnamed : node.community = none → ∀ id, id ∉ node.known) :
    node'.community = none → ∀ id, id ∉ node'.known := by
  induction h with
  | refl => exact hnamed
  | @take mid event h hfit hparents ih =>
    intro hnone id hid
    rw [CoreNode.take] at hnone
    split_ifs at hnone with hgenesis
    have hempty := ih hnone
    apply hgenesis
    rw [Option.isNone_iff_eq_none, hfit.valid.content.genesis, List.eq_nil_iff_forall_not_mem]
    exact fun parent hp => hempty parent (hparents parent hp)

theorem Calm.grows (h : Calm U community node) (hgrows : Grows C U community node node') :
    Calm U community node' := by
  refine { hgrows.parentClosed h.toParentClosed h.inj with
    inj := h.inj.mono hgrows.met_subset
    own := ?_
    named := hgrows.named h.named }
  intro c hc
  obtain hsame | hsame := hgrows.community_from
  · exact h.own c (hsame ▸ hc)
  · exact (Option.some.inj (hsame.symm.trans hc)).symm

include hvalid hbelongs

theorem ingestCommunity_own (h : Calm U community node) (hU : ∀ event ∈ events, U event)
    {c : CommunityId} (hc : node.ingestCommunity C events = .ok c) : c = community := by
  cases hnode : node.community with
  | some own =>
    rw [CoreNode.ingestCommunity, hnode] at hc
    rw [← Except.ok.inj hc, h.own own hnode]
  | none =>
    by_cases hgenesis : ∃ event ∈ events, event.content.communityId = none
    · have hown := ingestCommunity_eq (fun event he => hvalid event (hU event he))
        (fun event he => hbelongs event (hU event he)) (Or.inr ⟨hnode, hgenesis⟩)
      exact Except.ok.inj (hc.symm.trans hown)
    · have hnone : events.find? (fun event => event.content.communityId.isNone) = none := by
        apply List.find?_eq_none.mpr
        intro event he hisNone
        exact hgenesis ⟨event, he, Option.isNone_iff_eq_none.mp hisNone⟩
      rw [CoreNode.ingestCommunity, hnode] at hc
      simp only [hnone] at hc
      cases hc

theorem Calm.ingest_grows (h : Calm U community node) (hU : ∀ event ∈ events, U event) :
    Grows C U community node (node.ingest C events).1 := by
  rw [← ingestUnless_never]
  obtain hsame | ⟨c, hc, hgrows⟩ := ingestUnless_grows C (fun _ => false) node events
  · rw [hsame]
    exact .refl
  · obtain rfl := ingestCommunity_own hvalid hbelongs h hU hc
    exact hgrows.mono hU

/-- A batch that changes nothing has nothing to add. -/
theorem Calm.still_closed (h : Calm U community node) (hU : ∀ event ∈ events, U event)
    (hlength : events.length ≤ MAX_PENDING_EVENTS)
    (hstill : (node.ingest C events).1.known = node.known) :
    ClosedUnder (· ∈ events) node.knownSet := by
  have hbatch : node.met (· ∈ events) ⊆ node.met U := by
    rintro event (hmem | hrow)
    · exact Or.inl (hU event hmem)
    · exact Or.inr hrow
  cases hcommunity : node.ingestCommunity C events with
  | ok c =>
    obtain rfl := ingestCommunity_own hvalid hbelongs h hU hcommunity
    obtain ⟨node', report, hingest, haccount, _⟩ := ingest_account
      (fun event he => hvalid event (hU event he)) (fun event he => hbelongs event (hU event he))
      h.toParentClosed (h.inj.mono hbatch) hlength hcommunity
    rw [hingest] at hstill
    have hclosed := haccount.known.1.2
    rwa [CoreNode.knownSet, hstill] at hclosed
  | error error =>
    intro event hevent hparents
    have hnone : node.community = none := by
      cases hc : node.community with
      | none => rfl
      | some c =>
        rw [CoreNode.ingestCommunity, hc] at hcommunity
        cases hcommunity
    have hgenesis : event.content.communityId = none := by
      rw [(hvalid event (hU event hevent)).content.genesis, List.eq_nil_iff_forall_not_mem]
      exact fun parent hp => h.named hnone parent (hparents parent hp)
    have hown := ingestCommunity_eq (fun event he => hvalid event (hU event he))
      (fun event he => hbelongs event (hU event he)) (Or.inr ⟨hnone, event, hevent, hgenesis⟩)
    cases hcommunity.symm.trans hown

end Runs

section Settling

def CoreNode.ingestAll (C : Crypto) (node : CoreNode) (batches : List (List SignedEvent)) :
    CoreNode :=
  batches.foldl (fun node batch => (node.ingest C batch).1) node

/-- The node has been offered events of `U` in batches, until offering those that it still lacks
changed nothing. -/
structure Settles (C : Crypto) (U : SignedEvent → Prop) (node final : CoreNode) : Prop where
  offers : ∃ batches : List (List SignedEvent), (∀ batch ∈ batches, ∀ event ∈ batch, U event) ∧
    final = node.ingestAll C batches
  still : ∃ again : List (List SignedEvent), (∀ batch ∈ again,
      batch.length ≤ MAX_PENDING_EVENTS ∧ (∀ event ∈ batch, U event) ∧
        (final.ingest C batch).1.known = final.known) ∧
    ∀ event, U event → event.eventId ∉ final.known → ∃ batch ∈ again, event ∈ batch

variable {U : SignedEvent → Prop} {final : CoreNode} (hvalid : ∀ event, U event → event.Valid C)
  (hbelongs : ∀ event, U event → event.belongsTo community)
include hvalid hbelongs

theorem Calm.ingestAll {batches : List (List SignedEvent)} (h : Calm U community node)
    (hU : ∀ batch ∈ batches, ∀ event ∈ batch, U event) :
    Calm U community (node.ingestAll C batches) ∧
      ∀ S ∈ node.closures U, (node.ingestAll C batches).knownSet ⊆ S ∧
        node.knownSet ⊆ (node.ingestAll C batches).knownSet := by
  induction batches generalizing node with
  | nil => exact ⟨h, fun S hS => ⟨hS.1, subset_rfl⟩⟩
  | cons batch batches ih =>
    have hgrows := h.ingest_grows hvalid hbelongs (hU batch (List.mem_cons_self))
    obtain ⟨hcalm, hleast⟩ := ih (h.grows hgrows) fun b hb => hU b (List.mem_cons_of_mem _ hb)
    refine ⟨hcalm, fun S hS => ?_⟩
    obtain ⟨hbelow, habove⟩ := hleast S ⟨hgrows.least hS, hS.2⟩
    exact ⟨hbelow, fun id hid => habove (hgrows.known_mono hid)⟩

theorem Settles.least (hsettles : Settles C U node final) (h : Calm U community node) :
    IsLeast (node.closures U) final.knownSet := by
  obtain ⟨batches, hU, rfl⟩ := hsettles.offers
  obtain ⟨again, hagain, hall⟩ := hsettles.still
  obtain ⟨hcalm, hleast⟩ := h.ingestAll hvalid hbelongs hU
  have hclosed : ClosedUnder U (node.ingestAll C batches).knownSet := by
    intro event hevent hparents
    by_contra hnot
    obtain ⟨batch, hbatch, hmem⟩ := hall event hevent hnot
    obtain ⟨hlength, hbatchU, hstill⟩ := hagain batch hbatch
    exact hnot (hcalm.still_closed hvalid hbelongs hbatchU hlength hstill event hmem hparents)
  have htop : Set.univ ∈ node.closures U := ⟨Set.subset_univ _, fun _ _ _ => trivial⟩
  exact ⟨⟨(hleast _ htop).2, hclosed⟩, fun S hS => (hleast S hS).1⟩

end Settling

theorem Account.whole {report : IngestReport} (h : Account node events node' report)
    (hrows : ∀ event ∈ events, event.eventId ∈ node.store.rows → event.eventId ∈ node.known)
    (hstored : ∀ id ∈ node.known, id ∈ node.store.rows) :
    report.inserted = (node'.known \ node.known).size ∧
      report.alreadyPresent = (distinctIds events).countP fun id => id ∈ node.known := by
  have hsame : ∀ id ∈ distinctIds events, (id ∈ node.store.rows ↔ id ∈ node.known) := by
    intro id hid
    obtain ⟨event, hevent, rfl⟩ := mem_distinctIds.mp hid
    exact ⟨hrows event hevent, hstored _⟩
  have hmono : ∀ id ∈ node.known, id ∈ node'.known := fun id hid => h.known.1.1 hid
  constructor
  · have hadded : (node'.known \ node.known).toList = (distinctIds events).filter fun id =>
        id ∈ node'.known ∧ id ∉ node.store.rows := by
      apply (toList_sorted _).eq_of_mem_iff ((distinctIds_sorted events).filter _)
      intro id
      rw [Std.ExtTreeSet.mem_toList, Std.ExtTreeSet.mem_diff_iff, List.mem_filter,
        decide_eq_true_eq]
      constructor
      · rintro ⟨hid, hnot⟩
        have hoffered : id ∈ distinctIds events := by
          have hbound : node'.knownSet ⊆ node.knownSet ∪ {x | x ∈ distinctIds events} := by
            apply h.known.2
            refine ⟨Set.subset_union_left, fun event hevent _ => Or.inr ?_⟩
            exact mem_distinctIds.mpr ⟨event, hevent, rfl⟩
          exact (hbound hid).resolve_left hnot
        exact ⟨hoffered, hid, fun hrow => hnot ((hsame id hoffered).mp hrow)⟩
      · rintro ⟨hoffered, hid, hnot⟩
        exact ⟨hid, fun hknown => hnot ((hsame id hoffered).mpr hknown)⟩
    rw [h.inserted, ← Std.ExtTreeSet.length_toList, hadded, List.countP_eq_length_filter]
  · rw [h.alreadyPresent]
    apply List.countP_congr
    intro id hid
    rw [decide_eq_true_eq, decide_eq_true_eq, hsame id hid]
    exact ⟨And.right, fun hknown => ⟨hmono id hknown, hknown⟩⟩

/-- `ingest` reaches the least closed set and reports how; offered until nothing changes, the
same events lead to the same known set. -/
theorem ingest_least (hnode : node.ParentClosed) :
    (∀ events community, events.length ≤ MAX_PENDING_EVENTS →
      (∀ event ∈ events, validateEvent C event = .ok ()) →
      node.ingestCommunity C events = .ok community →
      (∀ event ∈ events, event.belongsTo community) →
      Set.InjOn SignedEvent.eventId (node.met (· ∈ events)) →
      ∃ node' report, node.ingest C events = (node', .ok report) ∧
        Account node events node' report ∧
        ((∀ event ∈ events, event.eventId ∈ node.store.rows → event.eventId ∈ node.known) →
          report.inserted = (node'.known \ node.known).size ∧
          report.alreadyPresent = (distinctIds events).countP fun id => id ∈ node.known)) ∧
    ∀ (U : SignedEvent → Prop) (community : CommunityId),
      (∀ event, U event → validateEvent C event = .ok () ∧ event.belongsTo community) →
      Set.InjOn SignedEvent.eventId (node.met U) →
      (∀ c, node.community = some c → c = community) →
      (node.community = none → ∀ id, id ∉ node.known) →
      ∀ final, Settles C U node final → IsLeast (node.closures U) final.knownSet ∧
        ∀ other, Settles C U node other → other.known = final.known := by
  constructor
  · intro events community hlength hvalid hcommunity hbelongs hinj
    obtain ⟨node', report, hingest, haccount, _⟩ := ingest_account
      (fun event he => validateEvent_iff.mp (hvalid event he)) hbelongs hnode hinj hlength hcommunity
    refine ⟨node', report, hingest, haccount, fun hrows => haccount.whole hrows fun id hid => ?_⟩
    obtain ⟨event, hrow, _⟩ := hnode.closed id hid
    exact mem_of_getElem? hrow
  · intro U community hU hinj hown hnamed final hfinal
    have hcalm : Calm U community node :=
      { hnode with inj := hinj, own := hown, named := hnamed }
    have hvalid : ∀ event, U event → event.Valid C := fun event he =>
      validateEvent_iff.mp (hU event he).1
    have hbelongs : ∀ event, U event → event.belongsTo community := fun event he => (hU event he).2
    have hleast := hfinal.least hvalid hbelongs hcalm
    refine ⟨hleast, fun other hother => set_ext fun id => ?_⟩
    exact Set.ext_iff.mp ((hother.least hvalid hbelongs hcalm).unique hleast) id

section Example

open Sample

def blank : CoreNode := { store := {}, community := none, known := ∅ }

theorem blank_parentClosed : blank.ParentClosed where
  rowId h := by simp [blank] at h
  closed _ h := absurd h not_mem_empty

def pair : List SignedEvent := [invitation, genesis]

theorem pair_met : Set.InjOn SignedEvent.eventId (blank.met (· ∈ pair)) := by
  have hpair : ∀ event ∈ blank.met (· ∈ pair), event ∈ clubEvents := by
    rintro event (hmem | ⟨id, hrow⟩)
    · simp only [pair, List.mem_cons, List.not_mem_nil, or_false] at hmem
      rcases hmem with rfl | rfl <;> simp [clubEvents]
    · simp [blank] at hrow
  intro a ha b hb hab
  exact List.inj_on_of_nodup_map club_ids_nodup (hpair a ha) (hpair b hb) hab

theorem pair_checked : ∀ event ∈ pair,
    validateEvent crypto event = .ok () ∧ event.belongsTo club := by decide +kernel

theorem pair_settles :
    Settles crypto (· ∈ pair) blank (blank.ingestAll crypto [[invitation], [genesis], pair]) where
  offers := ⟨_, by simp [pair], rfl⟩
  still := ⟨[pair], by
    have hstill : ((blank.ingestAll crypto [[invitation], [genesis], pair]).ingest crypto
        pair).1.known = (blank.ingestAll crypto [[invitation], [genesis], pair]).known := by
      decide +kernel
    intro batch hbatch
    rw [List.mem_singleton.mp hbatch]
    exact ⟨by decide, fun _ h => h, hstill⟩, fun event h _ => ⟨pair, List.mem_singleton_self _, h⟩⟩

theorem ingest_least_pair :
    (∃ node' report, blank.ingest crypto pair = (node', .ok report) ∧
      Account blank pair node' report ∧
      ((∀ event ∈ pair, event.eventId ∈ blank.store.rows → event.eventId ∈ blank.known) →
        report.inserted = (node'.known \ blank.known).size ∧
        report.alreadyPresent = (distinctIds pair).countP fun id => id ∈ blank.known)) ∧
    IsLeast (blank.closures (· ∈ pair))
      (blank.ingestAll crypto [[invitation], [genesis], pair]).knownSet :=
  ⟨(ingest_least blank_parentClosed).1 pair club (by decide) (fun event h => (pair_checked event h).1)
      (by decide +kernel) (fun event h => (pair_checked event h).2) pair_met,
    ((ingest_least blank_parentClosed).2 (· ∈ pair) club pair_checked pair_met (by simp [blank])
      (fun _ _ => not_mem_empty) _ pair_settles).1⟩

def unaware : CoreNode where
  store := ⟨(∅ : BTreeMap EventId SignedEvent).insertIfNew genesis.eventId genesis⟩
  community := none
  known := ∅

/-- The genesis becomes known, but it is counted as present and not as inserted. -/
theorem unaware_counts : EventStore.insert crypto {} genesis = .ok (unaware.store, .inserted) ∧
    CoreNode.open crypto unaware.store none = .ok unaware ∧
    (unaware.ingest crypto [genesis]).2 =
      .ok { inserted := 0, alreadyPresent := 1, unresolved := [] } ∧
    genesis.eventId ∉ unaware.known ∧
    genesis.eventId ∈ (unaware.ingest crypto [genesis]).1.known := by
  have hvalid := club_valid genesis (by simp [clubEvents])
  have hwritten := Ingestion.insert_outcome (C := crypto) {} hvalid
  have hfresh : genesis.eventId ∉ ({} : EventStore).rows := Std.ExtTreeMap.not_mem_empty
  rw [if_neg hfresh] at hwritten
  refine ⟨hwritten, rfl, ?_⟩
  decide +kernel

end Example

end ChatCommons
