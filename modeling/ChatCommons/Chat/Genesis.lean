import ChatCommons.Chat.History
import ChatCommons.General.Dag

/-!
The accepted events of a resolution are one community: the first of them is its
genesis, and every other descends from it.
-/

namespace ChatCommons

open Collections Dag

variable {C : Crypto} {J : PayloadReader} {k : Candidates} {ids : List EventId}
  {id genesis : EventId} {state : State}

structure Candidates.IsGenesis (k : Candidates) (id : EventId) : Prop where
  content : ∃ event, k.byId[id]? = some event ∧ event.content.parents = [] ∧
    event.content.communityId = none
  payload : ∃ profile name, k.payloads[id]? = some (.communityCreate profile name)

structure Candidates.DescendsFrom (k : Candidates) (genesis id : EventId) : Prop where
  content : ∃ event, k.byId[id]? = some event ∧
    event.content.communityId = some genesis.toCommunity
  payload : ∀ profile name, k.payloads[id]? ≠ some (.communityCreate profile name)
  descends : Relation.TransGen (ParentOf k.parents) genesis id

theorem apply_community_eq {event : SignedEvent} {payload : ChatPayload} {author : UserId}
    (hcreate : payload.isCommunityCreate = false) :
    (apply C state event payload author).community = state.community := by
  cases payload with
  | communityCreate _ _ => cases hcreate
  | homeServerSet _ _ =>
    simp only [apply]
    split <;> rfl
  | _ => rfl

section Rooted

variable (hk : k.Collected C)
include hk

theorem Trace.first (h : Trace C k [genesis] state) :
    k.IsGenesis genesis ∧ state.community = some genesis.toCommunity := by
  obtain ⟨before, htrace, hparents, hadmits⟩ := Trace.snoc_inv
    (show Trace C k ([] ++ [genesis]) state from h)
  obtain ⟨event, payload, author, hevent, hpayload, _, hvalid, rfl⟩ := hadmits
  obtain rfl : before = {} := htrace.stateAfter_eq.symm
  obtain ⟨profile, name, rfl⟩ := ungoverned_only_genesis .initial rfl (permitted_of_valid hvalid)
  have hroot : event.content.parents = [] := by
    apply List.eq_nil_iff_forall_not_mem.mpr
    intro parent hp
    have hmem := hparents parent (by simpa [Candidates.parents, hevent] using hp)
    cases hmem
  have hcommunity := (hk.valid hevent).content.genesis.mpr hroot
  refine ⟨⟨⟨event, hevent, hroot, hcommunity⟩, profile, name, hpayload⟩, ?_⟩
  simp only [apply, hk.keyed hevent]

theorem Admits.descends {rest : List EventId} {state' : State}
    (hadmits : Admits C k state (setOf (genesis :: rest)) id state')
    (hcommunity : state.community = some genesis.toCommunity)
    (hrest : ∀ x ∈ rest, k.DescendsFrom genesis x) :
    k.DescendsFrom genesis id ∧ state'.community = some genesis.toCommunity := by
  obtain ⟨event, payload, author, hevent, hpayload, _, hvalid, rfl⟩ := hadmits
  have hcreate : payload.isCommunityCreate = false := by
    by_contra hcreate
    rw [Bool.not_eq_false] at hcreate
    rw [validateContext_genesis hvalid hcreate] at hcommunity
    cases hcommunity
  obtain ⟨hplace, hparents⟩ := validateContext_place hvalid hcreate
  have hne : event.content.parents ≠ [] := fun hnil => by
    rw [(hk.valid hevent).content.genesis.mpr hnil, hcommunity] at hplace
    cases hplace
  obtain ⟨parent, hparent⟩ := List.exists_mem_of_ne_nil _ hne
  have hstep : ParentOf k.parents parent id := by
    simpa [ParentOf, Candidates.parents, hevent] using hparent
  refine ⟨⟨⟨event, hevent, hplace.trans hcommunity⟩, fun profile name h => ?_, ?_⟩, ?_⟩
  · obtain rfl := Option.some.inj (hpayload.symm.trans h)
    cases hcreate
  · rcases List.mem_cons.mp (mem_setOf.mp (hparents parent hparent)) with rfl | hmem
    · exact .single hstep
    · exact (hrest parent hmem).descends.tail hstep
  · rw [apply_community_eq hcreate, hcommunity]

theorem Trace.rooted {rest : List EventId} (h : Trace C k (genesis :: rest) state) :
    k.IsGenesis genesis ∧ state.community = some genesis.toCommunity ∧
      ∀ x ∈ rest, k.DescendsFrom genesis x := by
  induction rest using List.reverseRecOn generalizing state with
  | nil =>
    obtain ⟨hgenesis, hcommunity⟩ := h.first hk
    exact ⟨hgenesis, hcommunity, by simp⟩
  | append_singleton rest y ih =>
    rw [← List.cons_append] at h
    obtain ⟨before, htrace, _, hadmits⟩ := h.snoc_inv
    obtain ⟨hgenesis, hcommunity, hrest⟩ := ih htrace
    obtain ⟨hdescends, hafter⟩ := hadmits.descends hk hcommunity hrest
    refine ⟨hgenesis, hafter, fun x hx => ?_⟩
    rcases List.mem_append.mp hx with hx | hx
    · exact hrest x hx
    · exact List.mem_singleton.mp hx ▸ hdescends

theorem Trace.community_stable {pre post : List EventId} {before : State} {c : CommunityId}
    (hpre : Trace C k pre before) (h : Trace C k (pre ++ post) state)
    (hc : before.community = some c) : state.community = some c := by
  cases pre with
  | nil =>
    rw [← hpre.stateAfter_eq] at hc
    cases hc
  | cons genesis rest =>
    obtain ⟨_, hbefore, _⟩ := hpre.rooted hk
    obtain ⟨_, hafter, _⟩ := Trace.rooted hk h
    rw [hafter, ← hbefore, hc]

end Rooted

/-- What is accepted is one community: its genesis first, then events that carry its id and
descend from it. -/
theorem resolve_rooted {events : List SignedEvent} (hvalid : ∀ event ∈ events, event.Valid C) :
    ∃ k resolution, events.foldlM (collect C J) {} = .ok k ∧
      resolve C J events = .ok resolution ∧
      ∀ genesis rest, resolution.acceptedInOrder = genesis :: rest →
        k.IsGenesis genesis ∧ resolution.snapshot.community = some genesis.toCommunity ∧
          ∀ x ∈ rest, k.DescendsFrom genesis x := by
  obtain ⟨k, hk⟩ := collect_ok (J := J) hvalid
  have hcollected := collected_of_collect hk
  refine ⟨k, k.resolve C, hk, resolve_eq hk, fun genesis rest hsplit => ?_⟩
  have htrace := (evaluated_final (C := C) hcollected.toComplete).trace
  rw [resolve_acceptedInOrder] at hsplit
  rw [hsplit] at htrace
  rw [resolve_eq_final]
  exact htrace.rooted hcollected

open Sample in
theorem resolve_rooted_club :
    ∃ k resolution, clubEvents.foldlM (collect crypto clubReader) {} = .ok k ∧
      resolve crypto clubReader clubEvents = .ok resolution ∧
      ∀ genesis rest, resolution.acceptedInOrder = genesis :: rest →
        k.IsGenesis genesis ∧ resolution.snapshot.community = some genesis.toCommunity ∧
          ∀ x ∈ rest, k.DescendsFrom genesis x :=
  resolve_rooted club_valid

end ChatCommons
