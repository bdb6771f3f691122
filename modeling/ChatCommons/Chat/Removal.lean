import ChatCommons.Chat.Governance
import ChatCommons.General.Dag
import ChatCommons.Sample.Club

namespace ChatCommons

open Collections

namespace Candidates

variable (k : Candidates) (id : EventId) (member : UserId)

def Revokes : Prop :=
  k.payloads[id]? = some (.memberRemove member) ∨ k.payloads[id]? = some (.administratorRevoke member)

def Restores : Prop :=
  k.payloads[id]? = some (.administratorGrant member) ∨
    k.payloads[id]? = some (.ownershipTransfer member)

/-- The event is a channel creation, an invitation or a removal by `member`. -/
def ActsFor : Prop :=
  k.authors[id]? = some member ∧
    ((∃ channelId name, k.payloads[id]? = some (.channelCreate channelId name)) ∨
      (∃ key, k.payloads[id]? = some (.memberInvite key)) ∨
      ∃ other, k.payloads[id]? = some (.memberRemove other))

end Candidates

variable {C : Crypto} {J : PayloadReader} {k : Candidates} {member : UserId} {id r : EventId}
  {accepted : BTreeSet EventId} {state state' : State}

def State.Without (state : State) (member : UserId) : Prop :=
  state.community ≠ none ∧ member ∉ state.administrators

theorem Admits.revokes (h : Admits C k state accepted r state') (hs : state.Ordered)
    (hr : k.Revokes r member) : state'.Without member := by
  obtain ⟨event, payload, author, _, hpayload, _, hvalid, rfl⟩ := h
  have hpermitted := permitted_of_valid hvalid
  have hcommunity : state.community ≠ none := fun hnone => by
    obtain ⟨profile, name, rfl⟩ := ungoverned_only_genesis hs hnone hpermitted
    rcases hr with hr | hr <;> rw [hpayload] at hr <;> cases hr
  refine ⟨apply_community hcommunity, ?_⟩
  rcases hr with hr | hr <;> obtain rfl := Option.some.inj (hpayload.symm.trans hr) <;>
    exact fun hmem => (mem_erase.mp hmem).1 rfl

theorem Admits.without (h : Admits C k state accepted id state') (hs : state.Without member)
    (hid : ¬ k.Restores id member) : state'.Without member := by
  obtain ⟨event, payload, author, _, hpayload, _, hvalid, rfl⟩ := h
  have hpermitted := permitted_of_valid hvalid
  refine ⟨apply_community hs.1, ?_⟩
  cases payload with
  | communityCreate _ _ => exact absurd hpermitted hs.1
  | memberRemove _ => exact fun hmem => hs.2 (mem_erase.mp hmem).2
  | administratorRevoke _ => exact fun hmem => hs.2 (mem_erase.mp hmem).2
  | administratorGrant other =>
    intro hmem
    rcases mem_insert.mp hmem with rfl | hmem
    · exact hid (Or.inl hpayload)
    · exact hs.2 hmem
  | ownershipTransfer other =>
    intro hmem
    rcases mem_insert.mp hmem with rfl | hmem
    · exact hid (Or.inr hpayload)
    · exact hs.2 hmem
  | homeServerSet _ _ =>
    simp only [apply]
    split <;> exact hs.2
  | _ => exact hs.2

theorem Admits.not_actsFor (h : Admits C k state accepted id state') (hs : state.Without member) :
    ¬ k.ActsFor id member := by
  obtain ⟨event, payload, author, _, hpayload, hauthor, hvalid, rfl⟩ := h
  have hpermitted := permitted_of_valid hvalid
  rintro ⟨hmember, hkind⟩
  obtain rfl := Option.some.inj (hauthor.symm.trans hmember)
  rcases hkind with ⟨_, _, hkind⟩ | ⟨_, hkind⟩ | ⟨_, hkind⟩ <;>
    obtain rfl := Option.some.inj (hpayload.symm.trans hkind)
  · exact hs.2 hpermitted
  · exact hs.2 hpermitted
  · exact hs.2 hpermitted.1

theorem Trace.without {pre post : List EventId} (htrace : Trace C k (pre ++ r :: post) state)
    (hr : k.Revokes r member) (hpost : ∀ y ∈ post, ¬ k.Restores y member) :
    state.Without member := by
  induction post using List.reverseRecOn generalizing state with
  | nil =>
    obtain ⟨_, hpre, _, hadmits⟩ := htrace.snoc_inv
    exact hadmits.revokes hpre.ordered hr
  | append_singleton post y ih =>
    rw [← List.cons_append, ← List.append_assoc] at htrace
    obtain ⟨_, hbefore, _, hadmits⟩ := htrace.snoc_inv
    exact hadmits.without (ih hbefore fun x hx => hpost x (List.mem_append_left _ hx))
      (hpost y (by simp))

theorem Trace.not_actsFor {pre post : List EventId} (htrace : Trace C k (pre ++ r :: post) state)
    (hr : k.Revokes r member) (hpost : ∀ y ∈ post, ¬ k.Restores y member) {x : EventId}
    (hx : x ∈ post) : ¬ k.ActsFor x member := by
  obtain ⟨before, after, rfl⟩ := List.append_of_mem hx
  have hinitial : pre ++ r :: (before ++ [x]) <+: pre ++ r :: (before ++ x :: after) :=
    ⟨after, by simp⟩
  obtain ⟨_, hdone⟩ := htrace.shorten hinitial
  rw [← List.cons_append, ← List.append_assoc] at hdone
  obtain ⟨_, hbefore, _, hadmits⟩ := hdone.snoc_inv
  exact hadmits.not_actsFor
    (hbefore.without hr fun y hy => hpost y (List.mem_append_left _ hy))

theorem Trace.ancestors_mem {ids : List EventId} (htrace : Trace C k ids state) {x y : EventId}
    (hx : x ∈ ids) (hreach : Dag.Reaches k.parents y x) : y ∈ ids := by
  have hclosed : Dag.Closed k.parents {id | id ∈ ids} := fun _ hid => htrace.parents_mem hid
  exact hclosed.reaches hreach hx

/-- After its removal or revocation a member does not act as an administrator again: what it
did stands before, and not below. -/
theorem removed_administrator_precedes {events : List SignedEvent} {pre post : List EventId}
    (hk : events.foldlM (collect C J) {} = .ok k)
    (hsplit : (k.resolve C).acceptedInOrder = pre ++ r :: post) (hr : k.Revokes r member)
    (hpost : ∀ y ∈ post, ¬ k.Restores y member) {x : EventId}
    (hx : x ∈ (k.resolve C).acceptedInOrder) (hacts : k.ActsFor x member) (hne : x ≠ r) :
    x ∈ pre ∧ Rounds.Before k.parents k.sortKey (keySet k.payloads) x r ∧
      ¬ Dag.Reaches k.parents r x := by
  have hfinal := evaluated_final (C := C) (complete_of_collect hk)
  have hordered := (Rounds.fullOrder_pairwise (sortKey_injective (k := k))).sublist hfinal.sublist
  have htrace := hfinal.trace
  rw [← resolve_acceptedInOrder, hsplit] at htrace hordered
  rw [hsplit] at hx
  have hpre : x ∈ pre := by
    rcases List.mem_append.mp hx with hx | hx
    · exact hx
    · exact absurd hacts (htrace.not_actsFor hr hpost ((List.mem_cons.mp hx).resolve_left hne))
  have hbefore := (List.pairwise_append.mp hordered).2.2 x hpre r (by simp)
  refine ⟨hpre, hbefore, fun hreach => ?_⟩
  obtain ⟨_, hdone⟩ := htrace.shorten (List.prefix_append pre _)
  have hr' := hdone.ancestors_mem hpre hreach
  have hself := (List.pairwise_append.mp hordered).2.2 r hr' r (by simp)
  exact hself.asymm hself

section Club

open Sample

theorem club_collected : ∃ k, clubEvents.foldlM (collect crypto clubReader) {} = .ok k ∧
    (k.resolve crypto).acceptedInOrder =
      [genesis, invitation, acceptance, promotion, hall, annex].map SignedEvent.eventId
        ++ demotion.eventId :: [] ∧
    k.payloads[demotion.eventId]? = some (.administratorRevoke (user 2)) ∧
    k.authors[annex.eventId]? = some (user 2) ∧
    k.payloads[annex.eventId]? = some (.channelCreate (bigEndianBytes 32 8) "annexe") ∧
    annex.eventId ≠ demotion.eventId ∧
    ∃ past : List EventId, demotion.eventId ∈ past ∧ annex.eventId ∉ past ∧
      ∀ id ∈ past, ∀ parent ∈ k.parents id, parent ∈ past := by
  have h : collected clubEvents (fun k => decide (
      (k.resolve crypto).acceptedInOrder =
        [genesis, invitation, acceptance, promotion, hall, annex].map SignedEvent.eventId
          ++ demotion.eventId :: [] ∧
      k.payloads[demotion.eventId]? = some (.administratorRevoke (user 2)) ∧
      k.authors[annex.eventId]? = some (user 2) ∧
      k.payloads[annex.eventId]? = some (.channelCreate (bigEndianBytes 32 8) "annexe") ∧
      annex.eventId ≠ demotion.eventId ∧
      let past := [genesis, invitation, acceptance, promotion, hall, demotion].map
        SignedEvent.eventId
      demotion.eventId ∈ past ∧ annex.eventId ∉ past ∧
        ∀ id ∈ past, ∀ parent ∈ k.parents id, parent ∈ past)) = true := by
    decide +kernel
  obtain ⟨k, hk, hall⟩ := exists_of_collected h
  obtain ⟨h1, h2, h3, h4, h5, hpast⟩ := of_decide_eq_true hall
  exact ⟨k, hk, h1, h2, h3, h4, h5, _, hpast⟩

theorem removed_administrator_precedes_club :
    ∃ k, clubEvents.foldlM (collect crypto clubReader) {} = .ok k ∧
      Rounds.Before k.parents k.sortKey (keySet k.payloads) annex.eventId demotion.eventId ∧
      ¬ Dag.Reaches k.parents demotion.eventId annex.eventId := by
  obtain ⟨k, hk, hsplit, hrevokes, hauthor, hpayload, hne, _⟩ := club_collected
  have hacts : k.ActsFor annex.eventId (user 2) := ⟨hauthor, Or.inl ⟨_, _, hpayload⟩⟩
  have hmem : annex.eventId ∈ (k.resolve crypto).acceptedInOrder := by rw [hsplit]; simp
  obtain ⟨_, hbefore, hreach⟩ := removed_administrator_precedes hk hsplit (Or.inr hrevokes)
    (by simp) hmem hacts hne
  exact ⟨k, hk, hbefore, hreach⟩

/-- A revoked administrator adds a channel beside the revocation. -/
theorem channel_beside_revocation : ∃ k pre post r member x,
    clubEvents.foldlM (collect crypto clubReader) {} = .ok k ∧
      (k.resolve crypto).acceptedInOrder = pre ++ r :: post ∧ k.Revokes r member ∧
      (∀ y ∈ post, ¬ k.Restores y member ∧ ∀ invitation signature,
        k.payloads[y]? ≠ some (.memberAccept invitation signature)) ∧
      x ∈ (k.resolve crypto).acceptedInOrder ∧ k.ActsFor x member ∧ x ≠ r ∧
      ¬ Dag.Reaches k.parents x r := by
  obtain ⟨k, hk, hsplit, hrevokes, hauthor, hpayload, hne, past, hr, hx, hclosed⟩ := club_collected
  refine ⟨k, _, _, _, user 2, annex.eventId, hk, hsplit, Or.inr hrevokes, by simp, ?_,
    ⟨hauthor, Or.inl ⟨_, _, hpayload⟩⟩, hne, fun hreach => hx ?_⟩
  · rw [hsplit]
    simp
  · have hset : Dag.Closed k.parents {id | id ∈ past} := hclosed
    exact hset.reaches hreach hr

end Club

end ChatCommons
