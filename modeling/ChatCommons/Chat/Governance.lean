import ChatCommons.Chat.Trace

namespace ChatCommons

open Collections

variable {C : Crypto} {J : PayloadReader} {k : Candidates}

/-- Nobody governs before the genesis; afterwards one owner does, who is a member and an
administrator, and every administrator is a member. -/
def Governed (community : Option CommunityId) (owner : Option UserId)
    (members administrators : BTreeSet UserId) (channels : BTreeSet (Bytes 32))
    (homeServer : Option HomeServerBinding) : Prop :=
  (community = none ∧ owner = none ∧ members = ∅ ∧ administrators = ∅ ∧ channels = ∅ ∧
      homeServer = none) ∨
    ∃ c o, community = some c ∧ owner = some o ∧ o ∈ members ∧ o ∈ administrators ∧
      ∀ user ∈ administrators, user ∈ members

def State.Governed (s : State) : Prop :=
  ChatCommons.Governed s.community s.owner s.members s.administrators s.channels s.homeServer

def ChatSnapshot.Governed (s : ChatSnapshot) : Prop :=
  ChatCommons.Governed s.community s.owner s.members s.administrators s.channels s.homeServer

def Candidates.stateAfter (C : Crypto) (k : Candidates) (ids : List EventId) : State :=
  ids.foldl (fun state id =>
    match k.byId[id]?, k.payloads[id]?, k.authors[id]? with
    | some event, some payload, some author => apply C state event payload author
    | _, _, _ => state) {}

structure State.Ordered (s : State) : Prop where
  governed : s.Governed
  closed : s.community = none → s.invitations = ∅

theorem State.Ordered.initial : State.Ordered {} :=
  ⟨Or.inl ⟨rfl, rfl, rfl, rfl, rfl, rfl⟩, fun _ => rfl⟩

section Guards

variable {state : State} {event : SignedEvent} {payload : ChatPayload} {author : UserId}
  {accepted : BTreeSet EventId}

theorem requireAdmin_ok : requireAdmin state author = .ok () ↔ author ∈ state.administrators := by
  unfold requireAdmin
  split_ifs with h <;> simp [h]

theorem requireOwner_ok : requireOwner state author = .ok () ↔ state.owner = some author := by
  unfold requireOwner
  split_ifs with h <;> simp [h]

/-- What `validate_context` grants each kind of payload. -/
def Permitted (state : State) (author : UserId) : ChatPayload → Prop
  | .communityCreate .. => state.community = none
  | .channelCreate .. => author ∈ state.administrators
  | .memberInvite .. => author ∈ state.administrators
  | .memberAccept invitation _ => ∃ key, state.invitations[invitation]? = some key
  | .memberRemove member =>
    author ∈ state.administrators ∧ state.owner ≠ some member ∧ member ∈ state.members
  | .messageCreate channelId _ => author ∈ state.members ∧ channelId ∈ state.channels
  | .administratorGrant member => state.owner = some author ∧ member ∈ state.members
  | .administratorRevoke member => state.owner = some author ∧ state.owner ≠ some member
  | .ownershipTransfer newOwner => state.owner = some author ∧ newOwner ∈ state.members
  | .homeServerSet .. => state.owner = some author

theorem validateContext_genesis (h : validateContext C state event payload author accepted = .ok ())
    (hcreate : payload.isCommunityCreate = true) : state.community = none := by
  unfold validateContext at h
  rw [if_pos hcreate] at h
  split_ifs at h with hnone
  exact Option.isNone_iff_eq_none.mp hnone

/-- What `validate_context` asks of an event that is in its place. -/
def Qualified (C : Crypto) (state : State) (event : SignedEvent) (author : UserId) :
    ChatPayload → Prop
  | .communityCreate _ _ => True
  | .channelCreate _ _ => author ∈ state.administrators
  | .memberInvite capabilityPublicKey =>
    author ∈ state.administrators ∧ capabilityPublicKey.length = PUBLIC_KEY_LEN
  | .memberAccept invitation capabilitySignature => ∃ key community,
    state.invitations[invitation]? = some key ∧ invitation ∉ state.acceptedInvitations ∧
      event.content.communityId = some community ∧
      verify C key (acceptanceBytes community invitation author) capabilitySignature = .ok ()
  | .memberRemove member =>
    author ∈ state.administrators ∧ state.owner ≠ some member ∧ member ∈ state.members
  | .messageCreate channelId _ => author ∈ state.members ∧ channelId ∈ state.channels
  | .administratorGrant member =>
    state.owner = some author ∧ member ∈ state.members ∧ member ∉ state.administrators
  | .administratorRevoke member =>
    state.owner = some author ∧ state.owner ≠ some member ∧ member ∈ state.administrators
  | .ownershipTransfer newOwner => state.owner = some author ∧ newOwner ∈ state.members
  | .homeServerSet serverPublicKey endpoints =>
    state.owner = some author ∧ validateHomeServer serverPublicKey endpoints = .ok ()

theorem signature_length_of_verify {key bytes signature : ByteString}
    (h : verify C key bytes signature = .ok ()) : signature.length = SIGNATURE_LEN := by
  unfold verify at h
  split at h
  · cases h
  · split at h
    · cases h
    · rename_i value hvalue
      rw [Bytes.ofList?_eq_some.mp hvalue]
      exact value.length_eq

theorem validateContext_iff (hcreate : payload.isCommunityCreate = false) :
    validateContext C state event payload author accepted = .ok () ↔
      event.content.communityId = state.community ∧
        (∀ parent ∈ event.content.parents, parent ∈ accepted) ∧
        Qualified C state event author payload := by
  unfold validateContext
  rw [if_neg (by rw [hcreate]; decide)]
  by_cases hcommunity : event.content.communityId = state.community
  · rw [if_neg (not_not.mpr hcommunity)]
    by_cases hparents : ∀ parent ∈ event.content.parents, parent ∈ accepted
    · rw [if_neg (by simpa using hparents), and_iff_right hcommunity, and_iff_right hparents]
      cases payload with
      | communityCreate _ _ => cases hcreate
      | channelCreate _ _ => exact requireAdmin_ok
      | memberInvite key =>
        dsimp only [Qualified]
        rw [Fallible.unit_bind_eq_ok, requireAdmin_ok]
        refine and_congr_right fun _ => ?_
        split_ifs with hlength <;> simp [hlength]
      | memberAccept invitation signature =>
        dsimp only [Qualified]
        cases hinvite : state.invitations[invitation]? with
        | none => simp
        | some key =>
          dsimp only
          constructor
          · intro h
            split_ifs at h with hopen
            cases hc : event.content.communityId with
            | none => simp [hc] at h
            | some community =>
              simp only [hc] at h
              split at h
              · rename_i hverify
                exact ⟨key, community, rfl, fun hmem => hopen (Or.inl hmem), rfl, hverify⟩
              · cases h
          · rintro ⟨other, community, hother, hopen, hc, hverify⟩
            obtain rfl := Option.some.inj hother
            have hlength := signature_length_of_verify hverify
            simp [hopen, hlength, hc, hverify]
      | memberRemove member =>
        dsimp only [Qualified]
        rw [Fallible.unit_bind_eq_ok, requireAdmin_ok]
        refine and_congr_right fun _ => ?_
        split_ifs with howner hmember <;> simp [*]
      | messageCreate channelId _ =>
        dsimp only [Qualified]
        split_ifs with hmember hchannel <;> simp_all
      | administratorGrant member =>
        dsimp only [Qualified]
        rw [Fallible.unit_bind_eq_ok, requireOwner_ok]
        refine and_congr_right fun _ => ?_
        split_ifs with hmember hadmin <;> simp_all
      | administratorRevoke member =>
        dsimp only [Qualified]
        rw [Fallible.unit_bind_eq_ok, requireOwner_ok]
        refine and_congr_right fun _ => ?_
        split_ifs with howner hadmin <;> simp_all
      | ownershipTransfer newOwner =>
        dsimp only [Qualified]
        rw [Fallible.unit_bind_eq_ok, requireOwner_ok]
        refine and_congr_right fun _ => ?_
        split_ifs with hmember <;> simp_all
      | homeServerSet serverPublicKey endpoints =>
        dsimp only [Qualified]
        rw [Fallible.unit_bind_eq_ok, requireOwner_ok]
    · have hany : (event.content.parents.any fun parent => parent ∉ accepted) = true := by
        simpa using hparents
      rw [if_pos hany]
      simp [hparents]
  · rw [if_pos hcommunity]
    simp [hcommunity]

theorem validateContext_place (h : validateContext C state event payload author accepted = .ok ())
    (hcreate : payload.isCommunityCreate = false) :
    event.content.communityId = state.community ∧ ∀ parent ∈ event.content.parents,
      parent ∈ accepted := by
  obtain ⟨hcommunity, hparents, _⟩ := (validateContext_iff hcreate).mp h
  exact ⟨hcommunity, hparents⟩

theorem permitted_of_valid (h : validateContext C state event payload author accepted = .ok ()) :
    Permitted state author payload := by
  cases payload with
  | communityCreate _ _ => exact validateContext_genesis h rfl
  | channelCreate _ _ => exact ((validateContext_iff rfl).mp h).2.2
  | memberInvite _ => exact ((validateContext_iff rfl).mp h).2.2.1
  | memberAccept _ _ =>
    obtain ⟨_, _, key, _, hinvite, _⟩ := (validateContext_iff rfl).mp h
    exact ⟨key, hinvite⟩
  | memberRemove _ => exact ((validateContext_iff rfl).mp h).2.2
  | messageCreate _ _ => exact ((validateContext_iff rfl).mp h).2.2
  | administratorGrant _ =>
    obtain ⟨_, _, howner, hmember, _⟩ := (validateContext_iff rfl).mp h
    exact ⟨howner, hmember⟩
  | administratorRevoke _ =>
    obtain ⟨_, _, howner, hother, _⟩ := (validateContext_iff rfl).mp h
    exact ⟨howner, hother⟩
  | ownershipTransfer _ => exact ((validateContext_iff rfl).mp h).2.2
  | homeServerSet _ _ => exact ((validateContext_iff rfl).mp h).2.2.1

end Guards

theorem ungoverned_only_genesis {state : State} {payload : ChatPayload} {author : UserId}
    (hs : state.Ordered) (hnone : state.community = none) (h : Permitted state author payload) :
    ∃ profile name, payload = .communityCreate profile name := by
  have hclosed := hs.closed hnone
  rcases hs.governed with ⟨_, howner, hmembers, hadmins, _⟩ | ⟨c, _, hc, _⟩
  · cases payload <;> simp_all [Permitted]
  · rw [hnone] at hc
    cases hc

theorem apply_community {state : State} {event : SignedEvent} {payload : ChatPayload}
    {author : UserId} (h : state.community ≠ none) :
    (apply C state event payload author).community ≠ none := by
  cases payload with
  | communityCreate _ _ => exact Option.some_ne_none _
  | homeServerSet _ _ =>
    simp only [apply]
    split <;> exact h
  | _ => exact h

theorem apply_ordered {state : State} {event : SignedEvent} {payload : ChatPayload}
    {author : UserId} (hs : state.Ordered) (h : Permitted state author payload) :
    (apply C state event payload author).Ordered := by
  by_cases hnone : state.community = none
  · obtain ⟨profile, name, rfl⟩ := ungoverned_only_genesis hs hnone h
    have hempty : state.administrators = ∅ := by
      rcases hs.governed with ⟨_, _, _, hadmins, _⟩ | ⟨c, _, hc, _⟩
      · exact hadmins
      · rw [hnone] at hc
        cases hc
    refine ⟨Or.inr ⟨event.eventId.toCommunity, author, rfl, rfl, ?_, ?_, fun user huser => ?_⟩,
      fun hc => by cases hc⟩
    · exact mem_insert.mpr (Or.inl rfl)
    · exact mem_insert.mpr (Or.inl rfl)
    · simp only [apply, hempty, mem_insert, not_mem_empty, or_false] at huser ⊢
      exact Or.inl huser
  · obtain ⟨c, o, hc, ho, hmember, hadmin, hsub⟩ := hs.governed.resolve_left fun hl => hnone hl.1
    refine ⟨Or.inr ?_, fun hn => absurd hn (apply_community hnone)⟩
    cases payload with
    | communityCreate _ _ => exact absurd h hnone
    | channelCreate _ _ => exact ⟨c, o, hc, ho, hmember, hadmin, hsub⟩
    | memberInvite _ => exact ⟨c, o, hc, ho, hmember, hadmin, hsub⟩
    | memberAccept _ _ =>
      exact ⟨c, o, hc, ho, mem_insert.mpr (Or.inr hmember), hadmin,
        fun user huser => mem_insert.mpr (Or.inr (hsub user huser))⟩
    | memberRemove member =>
      have hne : o ≠ member := fun heq => h.2.1 (heq ▸ ho)
      exact ⟨c, o, hc, ho, mem_erase.mpr ⟨hne, hmember⟩, mem_erase.mpr ⟨hne, hadmin⟩,
        fun user huser => mem_erase.mpr ((mem_erase.mp huser).imp_right (hsub user))⟩
    | messageCreate _ _ => exact ⟨c, o, hc, ho, hmember, hadmin, hsub⟩
    | administratorGrant member =>
      refine ⟨c, o, hc, ho, hmember, mem_insert.mpr (Or.inr hadmin), fun user huser => ?_⟩
      rcases mem_insert.mp huser with rfl | huser
      · exact h.2
      · exact hsub user huser
    | administratorRevoke member =>
      have hne : o ≠ member := fun heq => h.2 (heq ▸ ho)
      exact ⟨c, o, hc, ho, hmember, mem_erase.mpr ⟨hne, hadmin⟩,
        fun user huser => hsub user (mem_erase.mp huser).2⟩
    | ownershipTransfer newOwner =>
      refine ⟨c, newOwner, hc, rfl, h.2, mem_insert.mpr (Or.inl rfl), fun user huser => ?_⟩
      rcases mem_insert.mp huser with rfl | huser
      · exact h.2
      · exact hsub user huser
    | homeServerSet _ _ =>
      simp only [apply]
      split
      · exact ⟨c, o, hc, ho, hmember, hadmin, hsub⟩
      · exact ⟨c, o, hc, ho, hmember, hadmin, hsub⟩

theorem Trace.ordered {ids : List EventId} {state : State} (h : Trace C k ids state) :
    state.Ordered := by
  induction h with
  | nil => exact .initial
  | snoc _ _ hadmits ih =>
    obtain ⟨_, _, _, _, _, _, hvalid, rfl⟩ := hadmits
    exact apply_ordered ih (permitted_of_valid hvalid)

theorem Trace.stateAfter_eq {ids : List EventId} {state : State} (h : Trace C k ids state) :
    k.stateAfter C ids = state := by
  induction h with
  | nil => rfl
  | snoc _ _ hadmits ih =>
    obtain ⟨event, payload, author, hevent, hpayload, hauthor, _, rfl⟩ := hadmits
    rw [Candidates.stateAfter, List.foldl_append, ← Candidates.stateAfter, ih]
    simp only [List.foldl_cons, List.foldl_nil, hevent, hpayload, hauthor]

theorem Evaluated.snapshot_governed {done : List EventId} {r : Resolver}
    (h : Evaluated C k done r) : r.snapshot.Governed := h.trace.ordered.governed

/-- The community has one owner, a member and an administrator, and every administrator is a
member, after each of the accepted events and in the snapshot. -/
theorem resolve_governed {events : List SignedEvent} (hvalid : ∀ event ∈ events, event.Valid C) :
    ∃ k resolution, events.foldlM (collect C J) {} = .ok k ∧
      resolve C J events = .ok resolution ∧
      (∀ done, done <+: resolution.acceptedInOrder → (k.stateAfter C done).Governed) ∧
      resolution.snapshot.Governed := by
  obtain ⟨k, hk⟩ := collect_ok (J := J) hvalid
  have hcomplete := complete_of_collect hk
  refine ⟨k, k.resolve C, hk, resolve_eq hk, ?_⟩
  rw [resolve_eq_final]
  refine ⟨fun done hinitial => ?_, (evaluated_final hcomplete).snapshot_governed⟩
  obtain ⟨state, htrace⟩ := (evaluated_final hcomplete).trace.shorten hinitial
  rw [htrace.stateAfter_eq]
  exact htrace.ordered.governed

open Sample in
theorem resolve_governed_club :
    ∃ k resolution, clubEvents.foldlM (collect crypto clubReader) {} = .ok k ∧
      resolve crypto clubReader clubEvents = .ok resolution ∧
      (∀ done, done <+: resolution.acceptedInOrder → (k.stateAfter crypto done).Governed) ∧
      resolution.snapshot.Governed :=
  resolve_governed club_valid

end ChatCommons
