import ChatCommons.Core.AncestryExact

/-!
The heads of a node cover all that it knows.
-/

namespace ChatCommons

open Collections Dag

namespace CoreNode

variable {C : Crypto} {node : CoreNode}

def below (node : CoreNode) (ids : List EventId) : Set EventId :=
  {x | ∃ h ∈ ids, x ∈ node.ancestors h}

theorem below_heads {heads : List EventId} (hclosed : Closed node.parents node.knownSet)
    (hheads : ∀ id, id ∈ heads ↔ IsHead node.parents node.knownSet id)
    (hcover : ∀ id ∈ node.known, ∃ h ∈ heads, Reaches node.parents id h) :
    node.below heads = node.knownSet := by
  ext x
  constructor
  · rintro ⟨h, hh, hreach⟩
    exact hclosed.reaches hreach ((hheads h).mp hh).1
  · intro hx
    exact hcover x hx

/-- The heads are the known events that are no known event's parent, in order. None is above
another, each known event is at or below one of them, and what they and their missing ancestors
bring to a part of the history completes it. -/
theorem heads_cover
    (hrows : ∀ id ∈ node.known, ∀ event, node.store.rows[id]? = some event → event.Valid C)
    (hclosed : ∀ id ∈ node.known, ∀ parent ∈ node.parents id, parent ∈ node.known)
    (hacyclic : ∀ id ∈ node.known, ¬ Relation.TransGen (ParentOf node.parents) id id) :
    ∃ heads, node.heads C = .ok heads ∧ heads.Pairwise (· < ·) ∧
      (∀ id, id ∈ heads ↔ id ∈ node.known ∧ ∀ x ∈ node.known, id ∉ node.parents x) ∧
      (∀ a ∈ heads, ∀ b ∈ heads, a ∈ node.ancestors b → a = b) ∧
      (∀ id ∈ node.known, ∃ h ∈ heads, id ∈ node.ancestors h) ∧
      (heads = [] ↔ ∀ id, id ∉ node.known) ∧
      ((∀ id ∈ node.store.rows, id ∈ node.known) → heads = [] → node.store.isEmpty = true) ∧
      ∀ held ⊆ node.knownSet, held ∪ (node.below heads \ held) = node.knownSet := by
  have hground : ∀ id ∈ node.knownSet, Grounded node.parents id :=
    grounded_of_acyclic_on knownSet_finite (fun x hx p hp => Or.inl (hclosed x hx p hp)) hacyclic
  obtain ⟨heads, hheads, hsorted, hmem⟩ := heads_of_valid hrows
  have hcover : ∀ id ∈ node.known, ∃ h ∈ heads, Reaches node.parents id h := by
    intro id hid
    obtain ⟨h, hh, hreach⟩ := exists_head knownSet_finite hground hid
    exact ⟨h, (hmem h).mpr hh, hreach⟩
  have hempty : heads = [] → ∀ id, id ∉ node.known := by
    rintro rfl id hid
    obtain ⟨h, hh, _⟩ := hcover id hid
    cases hh
  refine ⟨heads, hheads, hsorted, hmem, fun a ha b hb hreach => ?_, hcover, ⟨hempty, fun h => ?_⟩,
    fun hall h => ?_, fun held hheld => ?_⟩
  · have hhead := (hmem b).mp hb
    exact (Closed.parent_of_reaches hclosed ((hmem a).mp ha) hhead.1 hreach).symm
  · apply List.eq_nil_iff_forall_not_mem.mpr
    intro id hid
    exact h id ((hmem id).mp hid).1
  · apply map_isEmpty_iff.mpr
    intro id hid
    exact hempty h id (hall id hid)
  · rw [below_heads hclosed hmem hcover, Set.union_sdiff_cancel hheld]

section Example

open Sample

theorem heads_cover_chain : ∃ heads, (chainNode 3).heads crypto = .ok heads ∧
    heads.Pairwise (· < ·) ∧
    (∀ id, id ∈ heads ↔
      id ∈ (chainNode 3).known ∧ ∀ x ∈ (chainNode 3).known, id ∉ (chainNode 3).parents x) ∧
    (∀ a ∈ heads, ∀ b ∈ heads, a ∈ (chainNode 3).ancestors b → a = b) ∧
    (∀ id ∈ (chainNode 3).known, ∃ h ∈ heads, id ∈ (chainNode 3).ancestors h) ∧
    (heads = [] ↔ ∀ id, id ∉ (chainNode 3).known) ∧
    ((∀ id ∈ (chainNode 3).store.rows, id ∈ (chainNode 3).known) → heads = [] →
      (chainNode 3).store.isEmpty = true) ∧
    ∀ held ⊆ (chainNode 3).knownSet,
      held ∪ ((chainNode 3).below heads \ held) = (chainNode 3).knownSet := by
  have hpayload : 2 + 1 ≤ MAX_PAYLOAD_BYTES := by decide
  have hsound : (chainNode 3).Sound crypto := (chain_listed hpayload).sound
  exact heads_cover (fun _ _ _ => hsound.rowValid) hsound.closed fun id _ =>
    chain_acyclic hpayload id

/-- A table opened without its community: nothing is known of it, and there are no heads. -/
theorem heads_unopened : ∃ node,
    CoreNode.open crypto ⟨offeredOf [genesis]⟩ none = .ok node ∧
      (∀ id ∈ node.known, ∀ event, node.store.rows[id]? = some event → event.Valid crypto) ∧
      (∀ id ∈ node.known, ∀ parent ∈ node.parents id, parent ∈ node.known) ∧
      (∀ id ∈ node.known, ¬ Relation.TransGen (ParentOf node.parents) id id) ∧
      node.heads crypto = .ok [] ∧ node.store.isEmpty = false := by
  refine ⟨⟨⟨offeredOf [genesis]⟩, none, ∅⟩, rfl, fun id hid => ?_, fun id hid => ?_,
    fun id hid => ?_, ?_, by decide +kernel⟩
  · exact absurd hid not_mem_empty
  · exact absurd hid not_mem_empty
  · exact absurd hid not_mem_empty
  · obtain ⟨heads, hheads, _, hmem⟩ := @heads_of_valid crypto ⟨⟨offeredOf [genesis]⟩, none, ∅⟩
      fun id hid => absurd hid not_mem_empty
    have hnil : heads = [] := by
      apply List.eq_nil_iff_forall_not_mem.mpr
      intro id hid
      exact not_mem_empty ((hmem id).mp hid).1
    rw [hheads, hnil]

end Example

end CoreNode

end ChatCommons
