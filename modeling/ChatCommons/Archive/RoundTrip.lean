import ChatCommons.Archive.Checks
import ChatCommons.Chat.Genesis
import ChatCommons.Core.StoreHistory

/-!
What a node exports passes the checks of an import, and an import that passes them is the
history of one community.
-/

namespace ChatCommons

open Collections Dag

variable {C : Crypto} {J : PayloadReader} {R : ArchiveReader} {community : CommunityId}
  {node : CoreNode} {events : List SignedEvent}

def archiveOf (community : CommunityId) (events : List SignedEvent) : ArchiveWire :=
  { version := ARCHIVE_VERSION, communityId := community, events }

section Export

theorem CoreNode.Whole.allEvents_spec (h : node.Whole C) :
    ∃ events, node.allEvents C = .ok events ∧
      events.map SignedEvent.eventId = node.known.toList ∧
      ∀ event, event ∈ events ↔ node.Has event := by
  have hids : ∀ ids : List EventId, (∀ id ∈ ids, id ∈ node.known) →
      (ids.filterMap fun id => node.store.rows[id]?).map SignedEvent.eventId = ids := by
    intro ids hids
    induction ids with
    | nil => rfl
    | cons id ids ih =>
      obtain ⟨event, hrow⟩ := h.stored (hids id List.mem_cons_self)
      rw [List.filterMap_cons, hrow, List.map_cons, h.rowId hrow,
        ih fun x hx => hids x (List.mem_cons_of_mem _ hx)]
  refine ⟨_, h.allEvents_eq, hids _ fun id hid => Std.ExtTreeSet.mem_toList.mp hid, fun event => ?_⟩
  rw [List.mem_filterMap]
  constructor
  · rintro ⟨id, hid, hrow⟩
    obtain rfl := h.rowId hrow
    exact ⟨Std.ExtTreeSet.mem_toList.mp hid, hrow⟩
  · rintro ⟨hid, hrow⟩
    exact ⟨event.eventId, Std.ExtTreeSet.mem_toList.mpr hid, hrow⟩

theorem CoreNode.Whole.archived (h : node.Whole C) (hcommunity : node.community = some community)
    (hids : events.map SignedEvent.eventId = node.known.toList)
    (hevents : ∀ event, event ∈ events ↔ node.Has event)
    (hlimit : events.length ≤ MAX_ARCHIVE_EVENTS) : Archived C community events where
  limit := hlimit
  sorted := List.pairwise_map.mp (hids ▸ toList_sorted node.known)
  valid event hevent := h.rowValid ((hevents event).mp hevent).2
  genesis := by
    obtain ⟨id, hid, _⟩ := h.begun hcommunity
    obtain ⟨genesis, hgenesis, hnone, _⟩ := h.exists_genesis hid
    refine ⟨genesis, (hevents genesis).mpr hgenesis, hnone, fun other hother hother_none => ?_⟩
    have hhas := (hevents other).mp hother
    have hsame : other.eventId = genesis.eventId := by
      apply EventId.toCommunity_injective
      rw [(belongsTo_genesis hother_none).mp (h.belongs hcommunity hhas),
        (belongsTo_genesis hnone).mp (h.belongs hcommunity hgenesis)]
    have hrow := hhas.2
    rw [hsame, hgenesis.2] at hrow
    exact (Option.some.inj hrow).symm
  belongs event hevent := h.belongs hcommunity ((hevents event).mp hevent)
  closed event hevent parent hp := by
    obtain ⟨hknown, hrow⟩ := (hevents event).mp hevent
    rw [hids, Std.ExtTreeSet.mem_toList]
    rw [← parents_eq hrow] at hp
    exact h.closed event.eventId hknown parent hp

theorem Archived.mergeSort_eq (h : Archived C community events) {given : List SignedEvent}
    (hperm : given.Perm events) :
    (given.mergeSort fun a b => a.eventId ≤ b.eventId) = events := by
  have hsorted : (given.mergeSort fun a b => a.eventId ≤ b.eventId).Pairwise
      fun a b => a.eventId ≤ b.eventId := by
    have hpairwise := @List.pairwise_mergeSort _ (fun a b : SignedEvent => a.eventId ≤ b.eventId)
      (fun a b c hab hbc => by
        rw [decide_eq_true_eq] at hab hbc ⊢
        exact hab.trans hbc)
      (fun a b => by
        rw [Bool.or_eq_true, decide_eq_true_eq, decide_eq_true_eq]
        exact le_total _ _) given
    exact hpairwise.imp fun hle => of_decide_eq_true hle
  have hsame : (given.mergeSort fun a b => a.eventId ≤ b.eventId).Perm events :=
    (List.mergeSort_perm _ _).trans hperm
  apply hsame.eq_of_pairwise _ hsorted (h.sorted.imp fun hlt => le_of_lt hlt)
  intro a b ha hb hab hba
  exact h.inj (hsame.mem_iff.mp ha) hb (le_antisymm hab hba)

theorem Archived.encode_eq (h : Archived C community events) {given : List SignedEvent}
    (hperm : given.Perm events)
    (hbytes : (archiveOf community events).toJson.length ≤ MAX_ARCHIVE_BYTES) :
    encodeArchive C community given = .ok (archiveOf community events).toJson := by
  have hwire := validateWire_iff.mpr ⟨rfl, (show Archived C (archiveOf community events).communityId
    (archiveOf community events).events from h), rfl⟩
  rw [archiveOf] at hwire
  rw [encodeArchive, h.mergeSort_eq hperm]
  simp only [hwire]
  rw [if_neg]
  · rfl
  · exact not_lt.mpr hbytes

end Export

section Resolved

theorem Archived.resolve_community (h : Archived C community events) :
    ∃ resolution, resolve C J events = .ok resolution ∧
      (resolution.snapshot.community = some community ∨ resolution.snapshot.community = none) := by
  have hinj : Unambiguous events := fun a ha b hb hab => h.inj ha hb hab
  obtain ⟨k, hcollect, hk⟩ := candidates_spec (J := J) h.valid hinj
  have hcollected := collected_of_collect hcollect
  have htrace := (evaluated_final (C := C) hcollected.toComplete).trace
  refine ⟨k.resolve C, resolve_eq hcollect, ?_⟩
  rw [resolve_eq_final]
  dsimp only [Resolver.snapshot]
  cases horder : (k.final C).acceptedInOrder with
  | nil =>
    rw [horder] at htrace
    rw [← htrace.stateAfter_eq]
    exact Or.inr rfl
  | cons genesis rest =>
    rw [horder] at htrace
    obtain ⟨hgenesis, hcommunity, _⟩ := htrace.rooted hcollected
    obtain ⟨event, hrow, _, hnone⟩ := hgenesis.content
    obtain ⟨hmem, rfl⟩ := hk.byId.mp hrow
    rw [hcommunity, (CoreNode.belongsTo_genesis hnone).mp (h.belongs event hmem)]
    exact Or.inl rfl

end Resolved

/-- The export of a node is the same bytes for every order of its events and comes back as what
was exported; and what passes the checks, from wherever it is, is a closed history with one
genesis. -/
theorem archive_round_trip (J : PayloadReader) (hlives : CoreNode.Lives C node)
    (hcommunity : node.community = some community) (hsize : node.known.size ≤ MAX_ARCHIVE_EVENTS) :
    (∃ events, node.allEvents C = .ok events ∧
      events.map SignedEvent.eventId = node.known.toList ∧
      ((archiveOf community events).toJson.length ≤ MAX_ARCHIVE_BYTES →
        ∃ bytes, bytes = (archiveOf community events).toJson ∧
          (∀ given, given.Perm events → encodeArchive C community given = .ok bytes) ∧
          ∀ R : ArchiveReader, R bytes = some (archiveOf community events) →
            ∃ parsed archive, parseArchive R bytes = .ok parsed ∧
              parsed.validate C = .ok archive ∧ archive = ⟨community, events⟩ ∧
              encodeArchive C archive.community archive.events = .ok bytes)) ∧
    ∀ wire archive, validateWire C wire = .ok archive →
      (archive.events.map SignedEvent.eventId).Nodup ∧
      (∀ event ∈ archive.events, ∀ parent ∈ event.content.parents,
        parent ∈ archive.events.map SignedEvent.eventId) ∧
      (∃! genesis, genesis ∈ archive.events ∧ genesis.content.communityId = none) ∧
      ∃ resolution, resolve C J archive.events = .ok resolution ∧
        (resolution.snapshot.community = some archive.community ∨
          resolution.snapshot.community = none) := by
  constructor
  · have hwhole := hlives.whole
    obtain ⟨events, hevents, hids, hmem⟩ := hwhole.allEvents_spec
    refine ⟨events, hevents, hids, fun hbytes => ?_⟩
    have hlength : events.length = node.known.size := by
      rw [← Std.ExtTreeSet.length_toList, ← hids, List.length_map]
    have harchived := hwhole.archived hcommunity hids hmem (hlength ▸ hsize)
    have hencode : ∀ given, given.Perm events → encodeArchive C community given =
        .ok (archiveOf community events).toJson := fun given hperm =>
      harchived.encode_eq hperm hbytes
    refine ⟨_, rfl, hencode, fun R hread => ?_⟩
    refine ⟨⟨archiveOf community events⟩, ⟨community, events⟩, ?_, ?_, rfl,
      hencode events (List.Perm.refl events)⟩
    · rw [parseArchive, if_neg (not_lt.mpr hbytes), hread]
    · exact validateWire_iff.mpr ⟨rfl, harchived, rfl⟩
  · intro wire archive hwire
    obtain ⟨_, harchived, rfl⟩ := validateWire_iff.mp hwire
    obtain ⟨genesis, hgenesis, hnone, honly⟩ := harchived.genesis
    refine ⟨harchived.nodup, harchived.closed, ⟨genesis, ⟨hgenesis, hnone⟩, ?_⟩,
      harchived.resolve_community⟩
    exact fun other hother => honly other hother.1 hother.2

section Example

open Sample CoreNode

def begun : CoreNode :=
  (CoreNode.ingestUnless crypto (fun _ => false)
    { store := {}, community := none, known := ∅ } [invitation, genesis]).1

theorem begun_lives : CoreNode.Lives crypto begun := .ingest (.start rfl) _ _

theorem begun_named : begun.community = some club ∧ begun.known.size ≤ MAX_ARCHIVE_EVENTS ∧
    begun.allEvents crypto = .ok [genesis, invitation] := by decide +kernel

theorem begun_small :
    (archiveOf club [genesis, invitation]).toJson.length ≤ MAX_ARCHIVE_BYTES := by decide +kernel

def begunReader : ArchiveReader := fun bytes =>
  if bytes = (archiveOf club [genesis, invitation]).toJson then
    some (archiveOf club [genesis, invitation])
  else none

theorem archive_round_trip_begun : ∃ events, begun.allEvents crypto = .ok events ∧
    ∃ bytes, bytes = (archiveOf club events).toJson ∧
      (∀ given, given.Perm events → encodeArchive crypto club given = .ok bytes) ∧
      ∃ parsed archive, parseArchive begunReader bytes = .ok parsed ∧
        parsed.validate crypto = .ok archive ∧ archive = ⟨club, events⟩ := by
  obtain ⟨events, hevents, _, hbytes⟩ :=
    (archive_round_trip clubReader begun_lives begun_named.1 begun_named.2.1).1
  obtain rfl := Except.ok.inj (hevents.symm.trans begun_named.2.2)
  obtain ⟨bytes, rfl, hencode, hread⟩ := hbytes begun_small
  have hreader : begunReader (archiveOf club [genesis, invitation]).toJson =
      some (archiveOf club [genesis, invitation]) := if_pos rfl
  obtain ⟨parsed, archive, hparse, hvalidate, harchive, _⟩ := hread begunReader hreader
  exact ⟨_, hevents, _, rfl, hencode, parsed, archive, hparse, hvalidate, harchive⟩

end Example

end ChatCommons
