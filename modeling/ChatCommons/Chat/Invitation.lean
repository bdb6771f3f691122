import ChatCommons.Chat.Genesis

/-!
Invitations in a resolution: each acceptance rests on an open invitation by an
administrator and closes it, and nobody but the founder is a member without one.
-/

namespace ChatCommons

open Collections LastWord

variable {C : Crypto} {J : PayloadReader} {k : Candidates} {ids pre post : List EventId}
  {id invitation : EventId} {state : State} {signature : ByteString} {user : UserId}

/-- The acceptance `id`, made after `pre`, redeems the invitation under the key it publishes. -/
structure Candidates.Redeems (C : Crypto) (k : Candidates) (community : CommunityId)
    (pre : List EventId) (id invitation : EventId) (signature : ByteString) : Prop where
  invited : ∃ before between inviter, pre = before ++ invitation :: between ∧
    k.authors[invitation]? = some inviter ∧ inviter ∈ (k.stateAfter C before).administrators
  signed : ∃ key author, k.payloads[invitation]? = some (.memberInvite key) ∧
    k.authors[id]? = some author ∧
    verify C key (acceptanceBytes community invitation author) signature = .ok ()

section Acceptance

variable (hk : k.Collected C) (h : Trace C k (pre ++ id :: post) state)
include hk h

theorem Trace.single_use (haccept : k.payloads[id]? = some (.memberAccept invitation signature)) :
    ¬ k.Redeemed pre invitation ∧ ¬ k.Redeemed post invitation := by
  have hopen : ∀ {before after : List EventId} {other : EventId} {bytes : ByteString},
      pre ++ id :: post = before ++ other :: after →
      k.payloads[other]? = some (.memberAccept invitation bytes) →
        ¬ k.Redeemed before invitation := by
    intro before after other bytes hsplit hother
    obtain ⟨event, payload, author, hentry, hentitled⟩ := h.entitled hk hsplit
    obtain rfl := Option.some.inj (hentry.2.1.symm.trans hother)
    exact hentitled.2
  refine ⟨hopen rfl haccept, ?_⟩
  rintro ⟨other, hmem, bytes, hother⟩
  obtain ⟨between, after, rfl⟩ := List.append_of_mem hmem
  have hsplit : pre ++ id :: (between ++ other :: after) =
      (pre ++ id :: between) ++ other :: after := by simp
  exact hopen hsplit hother ⟨id, by simp, signature, haccept⟩

theorem Trace.redeems (haccept : k.payloads[id]? = some (.memberAccept invitation signature)) :
    ∃ community, state.community = some community ∧
      k.Redeems C community pre id invitation signature := by
  obtain ⟨before, hpre, hparents, event, payload, author, hentry, hvalid⟩ := h.split
  obtain rfl := Option.some.inj (hentry.2.1.symm.trans haccept)
  obtain ⟨hplace, _, key, community, hinvite, _, hcommunity, hverify⟩ :=
    (validateContext_iff rfl).mp hvalid
  obtain ⟨hmem, hpayload⟩ := (hpre.invitations_iff hk).mp hinvite
  obtain ⟨past, between, rfl⟩ := List.append_of_mem hmem
  refine ⟨community, ?_, ⟨past, between, ?_⟩, key, author, hpayload, hentry.2.2, hverify⟩
  · exact hpre.community_stable hk h (hplace.symm.trans hcommunity)
  · obtain ⟨atInvite, hpast, _, event', payload', inviter, hentry', hvalid'⟩ := hpre.split
    obtain rfl := Option.some.inj (hentry'.2.1.symm.trans hpayload)
    rw [hpast.stateAfter_eq]
    exact ⟨inviter, rfl, hentry'.2.2, permitted_of_valid hvalid'⟩

end Acceptance

section Membership

theorem Candidates.membership_true (h : k.membership user id = some true) :
    k.authors[id]? = some user ∧ ((∃ profile name, k.payloads[id]? =
      some (.communityCreate profile name)) ∨
        ∃ invitation signature, k.payloads[id]? = some (.memberAccept invitation signature)) := by
  unfold membership at h
  split at h
  · rename_i profile name hpayload
    split_ifs at h with hauthor
    exact ⟨hauthor, Or.inl ⟨profile, name, hpayload⟩⟩
  · rename_i invitation signature hpayload
    split_ifs at h with hauthor
    exact ⟨hauthor, Or.inr ⟨invitation, signature, hpayload⟩⟩
  · split_ifs at h
    cases h
  · cases h

variable (hk : k.Collected C)
include hk

theorem Trace.accepted_of_member (h : Trace C k ids state) (hmember : user ∈ state.members)
    (hfounder : ∀ genesis rest, ids = genesis :: rest → k.authors[genesis]? ≠ some user) :
    ∃ id ∈ ids, k.authors[id]? = some user ∧
      ∃ invitation signature, k.payloads[id]? = some (.memberAccept invitation signature) := by
  obtain ⟨id, hid, hword⟩ := exists_of_lastWord (h.mem_members.mp hmember)
  obtain ⟨hauthor, ⟨profile, name, hpayload⟩ | haccept⟩ := k.membership_true hword
  · obtain ⟨pre, post, rfl⟩ := List.append_of_mem hid
    obtain ⟨event, payload, author, hentry, hentitled⟩ := h.entitled hk rfl
    obtain rfl := Option.some.inj (hentry.2.1.symm.trans hpayload)
    obtain rfl : pre = [] := hentitled
    exact absurd hauthor (hfounder id post rfl)
  · exact ⟨id, hid, hauthor, haccept⟩

theorem Trace.accepted_since_removal (h : Trace C k (pre ++ id :: post) state)
    (hremove : k.payloads[id]? = some (.memberRemove user)) (hmember : user ∈ state.members) :
    ∃ other ∈ post, k.authors[other]? = some user ∧
      ∃ invitation signature, k.payloads[other]? = some (.memberAccept invitation signature) ∧
        ¬ k.Redeemed pre invitation := by
  have hword : k.membership user id = some false := by simp [Candidates.membership, hremove]
  have hlast := h.mem_members.mp hmember
  rw [Candidates.IsMember, List.append_cons, lastWord_append, lastWord_snoc, hword,
      Option.some_or] at hlast
  have hpost : lastWord (k.membership user) post = some true := by
    cases hcases : lastWord (k.membership user) post with
    | none =>
      rw [hcases] at hlast
      cases hlast
    | some value => rwa [hcases, Option.some_or] at hlast
  obtain ⟨other, hother, htrue⟩ := exists_of_lastWord hpost
  obtain ⟨between, after, rfl⟩ := List.append_of_mem hother
  have hsplit : pre ++ id :: (between ++ other :: after) =
      (pre ++ id :: between) ++ other :: after := by simp
  obtain ⟨hauthor, ⟨profile, name, hpayload⟩ | ⟨invitation, signature, haccept⟩⟩ :=
    k.membership_true htrue
  · obtain ⟨event, payload, author, hentry, hentitled⟩ := h.entitled hk hsplit
    obtain rfl := Option.some.inj (hentry.2.1.symm.trans hpayload)
    exact absurd hentitled (by simp [Candidates.Entitled])
  · refine ⟨other, hother, hauthor, invitation, signature, haccept, fun hredeemed => ?_⟩
    rw [hsplit] at h
    obtain ⟨earlier, hmem, hearlier⟩ := hredeemed
    exact (h.single_use hk haccept).1 ⟨earlier, List.mem_append_left _ hmem, hearlier⟩

end Membership

/-- Each accepted acceptance redeems an invitation that an administrator made before it and that
no other acceptance names; members other than the founder have one, a new one after a removal. -/
theorem resolve_redeems {events : List SignedEvent} (hvalid : ∀ event ∈ events, event.Valid C) :
    ∃ k resolution, events.foldlM (collect C J) {} = .ok k ∧
      resolve C J events = .ok resolution ∧
      (∀ pre id post invitation signature, resolution.acceptedInOrder = pre ++ id :: post →
        k.payloads[id]? = some (.memberAccept invitation signature) →
          (∃ community, resolution.snapshot.community = some community ∧
            k.Redeems C community pre id invitation signature) ∧
          ¬ k.Redeemed pre invitation ∧ ¬ k.Redeemed post invitation) ∧
      (∀ user ∈ resolution.snapshot.members,
        (∀ genesis rest, resolution.acceptedInOrder = genesis :: rest →
          k.authors[genesis]? ≠ some user) →
        ∃ id ∈ resolution.acceptedInOrder, k.authors[id]? = some user ∧
          ∃ invitation signature, k.payloads[id]? = some (.memberAccept invitation signature)) ∧
      ∀ pre id between post user, resolution.acceptedInOrder = pre ++ id :: between ++ post →
        k.payloads[id]? = some (.memberRemove user) →
        user ∈ (k.stateAfter C (pre ++ id :: between)).members →
          ∃ other ∈ between, k.authors[other]? = some user ∧
            ∃ invitation signature, k.payloads[other]? = some (.memberAccept invitation signature) ∧
              ¬ k.Redeemed pre invitation := by
  obtain ⟨k, hcollect⟩ := collect_ok (J := J) hvalid
  have hk := collected_of_collect hcollect
  have htrace := (evaluated_final (C := C) hk.toComplete).trace
  refine ⟨k, k.resolve C, hcollect, resolve_eq hcollect, ?_⟩
  rw [resolve_eq_final]
  refine ⟨fun pre id post invitation signature hsplit haccept => ?_, fun user hmember hfounder => ?_,
    fun pre id between post user hsplit hremove hmember => ?_⟩
  · dsimp only at hsplit
    rw [hsplit] at htrace
    exact ⟨htrace.redeems hk haccept, htrace.single_use hk haccept⟩
  · exact htrace.accepted_of_member hk hmember hfounder
  · obtain ⟨state, hdone⟩ := htrace.shorten ⟨post, hsplit.symm⟩
    rw [hdone.stateAfter_eq] at hmember
    exact hdone.accepted_since_removal hk hremove hmember

open Sample in
theorem resolve_redeems_club :
    ∃ k resolution, clubEvents.foldlM (collect crypto clubReader) {} = .ok k ∧
      resolve crypto clubReader clubEvents = .ok resolution ∧
      ∀ pre id post invitation signature, resolution.acceptedInOrder = pre ++ id :: post →
        k.payloads[id]? = some (.memberAccept invitation signature) →
          (∃ community, resolution.snapshot.community = some community ∧
            k.Redeems crypto community pre id invitation signature) ∧
          ¬ k.Redeemed pre invitation ∧ ¬ k.Redeemed post invitation := by
  obtain ⟨k, resolution, hk, hresolve, hredeems, _⟩ := resolve_redeems club_valid
  exact ⟨k, resolution, hk, hresolve, hredeems⟩

end ChatCommons
