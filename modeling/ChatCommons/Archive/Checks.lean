import ChatCommons.Core.EventValidity
import ChatCommons.Model.Archive

namespace ChatCommons

open Collections

variable {C : Crypto} {community : CommunityId} {events : List SignedEvent} {event : SignedEvent}

/-- The events that an archive of the community may list. -/
structure Archived (C : Crypto) (community : CommunityId) (events : List SignedEvent) : Prop where
  limit : events.length ≤ MAX_ARCHIVE_EVENTS
  sorted : events.Pairwise fun a b => a.eventId < b.eventId
  valid : ∀ event ∈ events, event.Valid C
  genesis : ∃ genesis ∈ events, genesis.content.communityId = none ∧
    ∀ other ∈ events, other.content.communityId = none → other = genesis
  belongs : ∀ event ∈ events, event.belongsTo community
  closed : ∀ event ∈ events, ∀ parent ∈ event.content.parents,
    parent ∈ events.map SignedEvent.eventId

namespace Archived

variable (h : Archived C community events)
include h

theorem nodup : (events.map SignedEvent.eventId).Nodup :=
  List.pairwise_map.mpr (h.sorted.imp fun hlt => ne_of_lt hlt)

theorem inj {a b : SignedEvent} (ha : a ∈ events) (hb : b ∈ events)
    (hab : a.eventId = b.eventId) : a = b := List.inj_on_of_nodup_map h.nodup ha hb hab

theorem filter_genesis : ∃ genesis,
    events.filter (fun event => event.content.communityId.isNone) = [genesis] := by
  obtain ⟨genesis, hmem, hnone, honly⟩ := h.genesis
  refine ⟨genesis, List.perm_singleton.mp ?_⟩
  apply (List.perm_ext_iff_of_nodup (h.nodup.of_map.filter _) (List.nodup_singleton genesis)).mpr
  intro event
  rw [List.mem_filter, List.mem_singleton, Option.isNone_iff_eq_none]
  constructor
  · rintro ⟨he, hevent⟩
    exact honly event he hevent
  · rintro rfl
    exact ⟨hmem, hnone⟩

end Archived

theorem SignedEvent.belongsTo_of_genesis (hnone : event.content.communityId = none) :
    event.belongsTo community = decide (event.eventId.toCommunity = community) := by
  rw [SignedEvent.belongsTo, hnone]

theorem SignedEvent.belongsTo_of_some {c : CommunityId} (hsome : event.content.communityId = some c) :
    event.belongsTo community = decide (c = community) := by
  rw [SignedEvent.belongsTo, hsome]

theorem strictlySorted_ids : strictlySorted (events.map SignedEvent.eventId) = true ↔
    events.Pairwise fun a b => a.eventId < b.eventId := by
  rw [strictlySorted_iff, List.pairwise_map]

theorem isOnlyGenesis_iff : isOnlyGenesis community events = true ↔
    ∃ event, events = [event] ∧ event.eventId.toCommunity = community := by
  match events with
  | [] => simp [isOnlyGenesis]
  | [event] => simp [isOnlyGenesis]
  | _ :: _ :: _ => simp [isOnlyGenesis]

theorem foreign_iff : (events.any fun event =>
      event.content.communityId.any fun c => c ≠ community) = false ↔
    ∀ event ∈ events, ∀ c, event.content.communityId = some c → c = community := by
  rw [List.any_eq_false]
  apply forall₂_congr
  intro event _
  cases event.content.communityId with
  | none => simp
  | some c => simp

theorem orphan_iff : (events.any fun event => event.content.parents.any fun parent =>
      parent ∉ setOf (events.map SignedEvent.eventId)) = false ↔
    ∀ event ∈ events, ∀ parent ∈ event.content.parents,
      parent ∈ events.map SignedEvent.eventId := by
  simp only [List.any_eq_false, List.any_eq_true, mem_setOf, decide_eq_true_eq, not_exists, not_and,
    not_not]

theorem validateWire_iff {wire : ArchiveWire} {archive : ValidatedArchive} :
    validateWire C wire = .ok archive ↔ wire.version = ARCHIVE_VERSION ∧
      Archived C wire.communityId wire.events ∧ archive = ⟨wire.communityId, wire.events⟩ := by
  constructor
  · intro h
    cases hvalid : wire.events.forM (validateEvent C) with
    | error error =>
      simp only [validateWire, hvalid] at h
      split_ifs at h
    | ok u =>
      simp only [validateWire, hvalid] at h
      split_ifs at h with hversion hlimit hsorted hgenesis hforeign horphan
      rw [Bool.or_eq_true, not_or, decide_eq_true_eq, not_lt] at hlimit
      rw [Bool.not_eq_true', Bool.not_eq_false, strictlySorted_ids] at hsorted
      rw [Bool.not_eq_true', Bool.not_eq_false, isOnlyGenesis_iff] at hgenesis
      rw [Bool.not_eq_true, foreign_iff] at hforeign
      rw [Bool.not_eq_true, orphan_iff] at horphan
      obtain ⟨genesis, hfilter, hnames⟩ := hgenesis
      have hmem : ∀ event, event ∈ wire.events ∧ event.content.communityId = none ↔
          event = genesis := by
        intro event
        rw [← List.mem_singleton (a := event), ← hfilter, List.mem_filter, Option.isNone_iff_eq_none]
      have hown := (hmem genesis).mpr rfl
      refine ⟨not_not.mp hversion, ⟨hlimit.2, hsorted, forM_validateEvent.mp hvalid, ?_, ?_, horphan⟩,
        (Except.ok.inj h).symm⟩
      · exact ⟨genesis, hown.1, hown.2, fun other hother hnone => (hmem other).mp ⟨hother, hnone⟩⟩
      · intro event hevent
        cases hc : event.content.communityId with
        | none =>
          obtain rfl := (hmem event).mp ⟨hevent, hc⟩
          rw [SignedEvent.belongsTo_of_genesis hc, decide_eq_true hnames]
        | some c =>
          rw [SignedEvent.belongsTo_of_some hc, decide_eq_true (hforeign event hevent c hc)]
  · rintro ⟨hversion, h, rfl⟩
    obtain ⟨genesis, hfilter⟩ := h.filter_genesis
    have hgenesis : genesis ∈ wire.events ∧ genesis.content.communityId = none := by
      rw [← Option.isNone_iff_eq_none, ← List.mem_filter (p := fun event : SignedEvent =>
        event.content.communityId.isNone), hfilter]
      exact List.mem_singleton_self genesis
    have hnames : genesis.eventId.toCommunity = wire.communityId := by
      have hbelongs := h.belongs genesis hgenesis.1
      rwa [SignedEvent.belongsTo_of_genesis hgenesis.2, decide_eq_true_eq] at hbelongs
    have hforeign : ∀ event ∈ wire.events, ∀ c, event.content.communityId = some c →
        c = wire.communityId := by
      intro event hevent c hc
      have hbelongs := h.belongs event hevent
      rwa [SignedEvent.belongsTo_of_some hc, decide_eq_true_eq] at hbelongs
    have hnonempty : wire.events.isEmpty = false := by
      rw [List.isEmpty_eq_false_iff_exists_mem]
      exact ⟨genesis, hgenesis.1⟩
    simp only [validateWire, hversion, ne_eq, not_true_eq_false, if_false, hnonempty,
      Bool.false_or, decide_eq_true_eq, not_lt.mpr h.limit, strictlySorted_ids.mpr h.sorted,
      Bool.not_true, Bool.false_eq_true, forM_validateEvent.mpr h.valid, hfilter,
      isOnlyGenesis_iff.mpr ⟨genesis, rfl, hnames⟩, foreign_iff.mpr hforeign,
      orphan_iff.mpr h.closed]

end ChatCommons
