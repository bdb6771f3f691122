import ChatCommons.Chat.Genesis
import ChatCommons.Chat.History
import ChatCommons.Chat.Judged
import ChatCommons.Core.StoreHistory

/-!
Whether the events of a community resolve to it hangs on its genesis alone.
-/

namespace ChatCommons

open Collections Candidates

variable {C : Crypto} {J : PayloadReader} {community : CommunityId} {events : List SignedEvent}
  {genesis event : SignedEvent} {k : Candidates} {id : EventId}

/-- Events of one community, no two of them with the same id. -/
structure Communal (C : Crypto) (community : CommunityId) (events : List SignedEvent) : Prop where
  valid : ∀ event ∈ events, event.Valid C
  unambiguous : Unambiguous events
  belongs : ∀ event ∈ events, event.belongsTo community = true

def Founds (J : PayloadReader) (genesis : SignedEvent) : Prop :=
  ∃ profile name, decode J genesis = .ok (.communityCreate profile name)

section Genesis

variable (h : Communal C community events) (hgenesis : genesis ∈ events)
  (hnone : genesis.content.communityId = none)
include h hgenesis hnone

theorem communal_genesis (hevent : event ∈ events) (hother : event.content.communityId = none) :
    event = genesis := by
  apply h.unambiguous hevent hgenesis
  apply EventId.toCommunity_injective
  rw [(CoreNode.belongsTo_genesis hother).mp (h.belongs event hevent),
    (CoreNode.belongsTo_genesis hnone).mp (h.belongs genesis hgenesis)]

variable (hk : Describes C J events k)
include hk

theorem genesis_first {first : EventId} {rest : List EventId}
    (hids : (k.final C).acceptedInOrder = first :: rest) :
    first = genesis.eventId ∧ (k.final C).state.community = some community ∧ Founds J genesis := by
  have hcollected : k.Collected C := by
    obtain ⟨k', hcollect, hk'⟩ := candidates_spec (J := J) h.valid h.unambiguous
    obtain rfl := hk'.unique hk fun _ => Iff.rfl
    exact collected_of_collect hcollect
  have htrace := (evaluated_final (C := C) hcollected.toComplete).trace
  rw [hids] at htrace
  obtain ⟨hroot, hstate, _⟩ := htrace.rooted hcollected
  obtain ⟨event, hevent, _, hother⟩ := hroot.content
  obtain ⟨hmem, rfl⟩ := hk.byId.mp hevent
  obtain rfl := communal_genesis h hgenesis hnone hmem hother
  obtain ⟨profile, name, hpayload⟩ := hroot.payload
  obtain ⟨other, hother', hid, hdecode⟩ := hk.payloads.mp hpayload
  obtain rfl := h.unambiguous hother' hmem hid
  refine ⟨rfl, ?_, profile, name, hdecode⟩
  rw [hstate, (CoreNode.belongsTo_genesis hnone).mp (h.belongs _ hgenesis)]

theorem genesis_earlier : k.earlier (k.final C).acceptedInOrder genesis.eventId = [] := by
  apply List.eq_nil_iff_forall_not_mem.mpr
  intro x hx
  obtain ⟨haccepted, hbefore⟩ := mem_earlier.mp hx
  cases hids : (k.final C).acceptedInOrder with
  | nil =>
    rw [hids] at haccepted
    cases haccepted
  | cons first rest =>
    have hproper := hk.proper h.valid h.unambiguous
    obtain ⟨rfl, _⟩ := genesis_first h hgenesis hnone hk hids
    have hsorted := (judged_final (C := C) hproper).sorted
    rw [hids] at haccepted hsorted
    rcases List.mem_cons.mp haccepted with rfl | hrest
    · exact hbefore.irrefl
    · exact hbefore.asymm ((List.pairwise_cons.mp hsorted).1 x hrest)

theorem genesis_accepted (hfounds : Founds J genesis) :
    genesis.eventId ∈ (k.final C).acceptedInOrder := by
  have hproper := hk.proper h.valid h.unambiguous
  obtain ⟨profile, name, hdecode⟩ := hfounds
  obtain ⟨author, hauthor⟩ := (h.valid genesis hgenesis).authorId_eq
  have hevent := hk.byId.mpr ⟨hgenesis, rfl⟩
  have hpayload := hk.payloads.mpr ⟨genesis, hgenesis, rfl, hdecode⟩
  have hauthors := hk.authors.mpr ⟨genesis, hgenesis, rfl, hauthor⟩
  have hparents : k.parents genesis.eventId = [] := by
    rw [Candidates.parents, hevent]
    exact (h.valid genesis hgenesis).content.genesis.mp hnone
  apply ((judged_final hproper).accepted _).mpr
  constructor
  · refine mem_order.mpr ⟨mem_iff.mpr ⟨_, hpayload⟩, 1, fun p hp => ?_⟩
    rw [hparents] at hp
    cases hp
  · rw [verdict, hparents, genesis_earlier h hgenesis hnone hk]
    simp only [List.any_nil, Bool.false_eq_true, if_false, hevent, hpayload, hauthors,
      validateContext, ChatPayload.isCommunityCreate, if_true]
    rfl

theorem community_iff : (k.final C).state.community = some community ↔ Founds J genesis := by
  constructor
  · intro hcommunity
    cases hids : (k.final C).acceptedInOrder with
    | nil =>
      have hproper := hk.proper h.valid h.unambiguous
      have htrace := (evaluated_final (C := C) hproper.toComplete).trace
      rw [hids] at htrace
      rw [← htrace.stateAfter_eq] at hcommunity
      cases hcommunity
    | cons first rest => exact (genesis_first h hgenesis hnone hk hids).2.2
  · intro hfounds
    have haccepted := genesis_accepted h hgenesis hnone hk hfounds
    cases hids : (k.final C).acceptedInOrder with
    | nil =>
      rw [hids] at haccepted
      cases haccepted
    | cons first rest => exact (genesis_first h hgenesis hnone hk hids).2.1

omit hk

/-- `resolve` knows the community exactly when its genesis says that it is one. -/
theorem resolve_community_iff (J : PayloadReader) : ∃ resolution, resolve C J events = .ok resolution ∧
    (resolution.snapshot.community = some community ↔ Founds J genesis) := by
  obtain ⟨k, hcollect, hk⟩ := candidates_spec (J := J) h.valid h.unambiguous
  refine ⟨k.resolve C, resolve_eq hcollect, ?_⟩
  rw [resolve_eq_final]
  exact community_iff h hgenesis hnone hk

end Genesis

end ChatCommons
