import ChatCommons.Chat.Invitation
import ChatCommons.Chat.Resolution
import ChatCommons.Chat.Writing
import ChatCommons.Model.Invite

/-!
Whoever holds the capability of an active invitation can redeem it: the acceptance on
top of the invitation is decided by what precedes it, and that does not change.
-/

namespace ChatCommons

open Collections Candidates JsonText

variable {C : Crypto} {J : PayloadReader} {events : List SignedEvent} {k k' : Candidates}
  {invite : ValidatedInvite} {user : Identity} {timestampMs : Int64} {x : EventId}

section Acceptance

theorem acceptance_fits : (invite.acceptancePayload C user).toVec.length ≤ MAX_PAYLOAD_BYTES := by
  have hinvitation := byteArray_length_le invite.invitation.asBytes
  have hsignature := byteArray_length_le (invite.capability.signAcceptance C invite.community
    invite.invitation (user.userId C))
  have e1 : (string "MemberAccept").length = 14 := by decide
  have e2 : (string "invitation").length = 12 := by decide
  have e3 : (string "capability_signature").length = 22 := by decide
  rw [Id.asBytes_length] at hinvitation
  rw [InviteCapability.signAcceptance, Bytes.length_eq, ← InviteCapability.signAcceptance]
    at hsignature
  simp only [ValidatedInvite.acceptancePayload, ChatPayload.toVec, object, List.map_cons,
    List.map_nil, commas, field, List.length_append, List.length_cons, List.length_nil, e1, e2, e3,
    MAX_PAYLOAD_BYTES]
  omega

theorem acceptance_valid (hsign : C.SignsCorrectly) :
    (invite.createAcceptance C user [invite.invitation] timestampMs).Valid C :=
  (createChatEvent_valid_iff hsign (List.pairwise_singleton _ _) (by simp) acceptance_fits).mpr
    (by simp [MAX_PARENTS])

theorem acceptance_parents : (invite.createAcceptance C user [invite.invitation]
    timestampMs).content.parents = [invite.invitation] :=
  sortedParents_eq (List.pairwise_singleton _ _)

theorem verify_acceptance (hsign : C.SignsCorrectly) :
    verify C (invite.capability.publicKey C).toList
      (acceptanceBytes invite.community invite.invitation (user.userId C))
      (invite.capability.signAcceptance C invite.community invite.invitation (user.userId C)) =
        .ok () :=
  verify_sign hsign ⟨invite.capability.seed⟩ _

end Acceptance

structure Redeeming (C : Crypto) (J : PayloadReader) (events : List SignedEvent)
    (invite : ValidatedInvite) (event : SignedEvent) (author : UserId) (k k' : Candidates) : Prop where
  old : Describes C J events k
  new : Describes C J (events ++ [event]) k'
  valid : ∀ e ∈ events ++ [event], e.Valid C
  unambiguous : Unambiguous (events ++ [event])
  collected : k.Collected C
  collected' : k'.Collected C
  active : ∃ key, (k.resolve C).snapshot.activeInvitations[invite.invitation]? = some key
  published : k.payloads[invite.invitation]? =
    some (.memberInvite (invite.capability.publicKey C).toList)
  community : ∃ e, k.byId[invite.invitation]? = some e ∧
    e.content.communityId = some invite.community
  payload : decode J event = .ok (.memberAccept invite.invitation
    (invite.capability.signAcceptance C invite.community invite.invitation author))
  authored : authorId C event = .ok author
  parents : event.content.parents = [invite.invitation]
  place : event.content.communityId = some invite.community
  signed : verify C (invite.capability.publicKey C).toList
    (acceptanceBytes invite.community invite.invitation author)
    (invite.capability.signAcceptance C invite.community invite.invitation author) = .ok ()

namespace Redeeming

variable {event : SignedEvent} {author : UserId}
  (h : Redeeming C J events invite event author k k')
include h

theorem proper : k.Proper :=
  h.old.proper (fun e he => h.valid e (by simp [he])) (h.unambiguous.mono fun e he => by
    simp only [Set.mem_ofPred_eq, List.mem_append] at he ⊢
    exact Or.inl he)

theorem proper' : k'.Proper := h.new.proper h.valid h.unambiguous

theorem sameAt (hx : x ≠ event.eventId) : SameAt k k' x :=
  h.old.sameAt h.new fun e he => by
    rw [List.mem_append, List.mem_singleton, or_iff_left]
    rintro rfl
    exact hx he.symm

theorem sameAt_known (hx : x ∈ k.byId) : SameAt k k' x := by
  refine h.old.sameAt h.new fun e he => ?_
  rw [List.mem_append, List.mem_singleton]
  refine ⟨?_, Or.inl⟩
  rintro (hmem | rfl)
  · exact hmem
  · obtain ⟨other, hother⟩ := mem_iff.mp hx
    obtain ⟨hmem, hid⟩ := h.old.byId.mp hother
    obtain rfl : other = e := h.unambiguous (by simp [hmem]) (by simp) (hid.trans he.symm)
    exact hmem

theorem accepted_known (hx : x ∈ (k.final C).acceptedInOrder) : x ∈ k.byId :=
  h.proper.known x (mem_order.mp ((judged_final h.proper).subset_order hx)).1

theorem sameAt_accepted : ∀ x ∈ (k.final C).acceptedInOrder, SameAt k k' x := fun _ hx =>
  h.sameAt_known (h.accepted_known hx)

theorem entry : k'.Entry event.eventId event (.memberAccept invite.invitation
    (invite.capability.signAcceptance C invite.community invite.invitation author)) author := by
  have hmem : event ∈ events ++ [event] := by simp
  exact ⟨h.new.byId.mpr ⟨hmem, rfl⟩, h.new.payloads.mpr ⟨event, hmem, rfl, h.payload⟩,
    h.new.authors.mpr ⟨event, hmem, rfl, h.authored⟩⟩

theorem parents_eq : k'.parents event.eventId = [invite.invitation] := by
  rw [Candidates.parents, h.entry.1]
  exact h.parents

theorem reads : k.Reads (k.final C).acceptedInOrder (k.final C).snapshot :=
  (evaluated_final h.proper.toComplete).reads h.collected

theorem invited : invite.invitation ∈ (k.final C).acceptedInOrder ∧
    ¬ k.Redeemed (k.final C).acceptedInOrder invite.invitation := by
  obtain ⟨key, hkey⟩ := h.active
  rw [resolve_eq_final] at hkey
  obtain ⟨⟨hmem, _⟩, hopen⟩ := (h.reads.activeInvitations _ _).mp hkey
  exact ⟨hmem, hopen⟩

theorem invitation_order : invite.invitation ∈ k'.order :=
  (judged_final h.proper).mem_order_of_same h.sameAt_accepted h.invited.1

theorem event_order : event.eventId ∈ k'.order := by
  obtain ⟨_, n, hlow⟩ := mem_order.mp h.invitation_order
  refine mem_order.mpr ⟨mem_iff.mpr ⟨_, h.entry.2.1⟩, n + 1, fun parent hp _ => ?_⟩
  rw [h.parents_eq, List.mem_singleton] at hp
  exact hp ▸ hlow

section Split

variable {done rest : List EventId} (hsplit : k'.order = done ++ event.eventId :: rest)
include hsplit

theorem invitation_done : invite.invitation ∈ done :=
  parent_done hsplit (by rw [h.parents_eq]; simp) (mem_order.mp h.invitation_order).1

variable (hdone : event.eventId ∉ done)
include hdone

theorem agree : ∀ x ∈ done, x ∈ (k.final C).acceptedInOrder ↔ x ∈ (k'.final C).acceptedInOrder :=
  (judged_final h.proper).agree h.sameAt_accepted (judged_final h.proper') hsplit
    fun _ hx _ => h.sameAt fun heq => hdone (heq ▸ hx)

theorem exists_past : ∃ pre state, Trace C k' pre state ∧
    k'.earlier (k'.final C).acceptedInOrder event.eventId = pre ∧
    invite.invitation ∈ pre ∧ ∀ x ∈ pre, x ∈ (k.final C).acceptedInOrder := by
  have hpast := evaluated_upto (C := C) h.proper'.toComplete hsplit
  have hearlier := earlier_eq (C := C) h.proper' hsplit
  have hmem := h.invitation_done hsplit
  refine ⟨_, _, hpast.trace, hearlier, ?_, fun x hx => ?_⟩
  · rw [← accepted_done_iff hsplit hmem, ← h.agree hsplit hdone _ hmem]
    exact h.invited.1
  · have hx' := hpast.sublist.subset hx
    rw [h.agree hsplit hdone x hx', accepted_done_iff hsplit hx']
    exact hx

theorem verdict_ok :
    k'.verdict C (k'.final C).acceptedInOrder event.eventId = .ok () := by
  obtain ⟨pre, state, htrace, hearlier, hmem, hold⟩ := h.exists_past hsplit hdone
  have hinvited := h.invited
  have hinvites : k'.Invites pre invite.invitation (invite.capability.publicKey C).toList :=
    ⟨hmem, by rw [(h.sameAt_accepted _ hinvited.1).payloads]; exact h.published⟩
  have hopen : ¬ k'.Redeemed pre invite.invitation := by
    rintro ⟨id, hid, signature, hpayload⟩
    refine hinvited.2 ⟨id, hold id hid, signature, ?_⟩
    rw [← (h.sameAt_accepted id (hold id hid)).payloads]
    exact hpayload
  have hcommunity : state.community = some invite.community := by
    cases pre with
    | nil => cases hmem
    | cons genesis rest =>
      obtain ⟨hgenesis, hstate, hrest⟩ := htrace.rooted h.collected'
      rcases List.mem_cons.mp hmem with heq | hmem
      · obtain ⟨profile, name, hpayload⟩ := hgenesis.payload
        rw [← heq, hinvites.2] at hpayload
        cases hpayload
      · obtain ⟨e, he, hplace⟩ := (hrest _ hmem).content
        obtain ⟨e', he', hplace'⟩ := h.community
        rw [(h.sameAt_accepted _ hinvited.1).byId, he'] at he
        obtain rfl := Option.some.inj he
        rw [hstate, ← hplace, hplace']
  have haccepted : invite.invitation ∈ (k'.final C).acceptedInOrder :=
    (mem_earlier.mp (hearlier ▸ hmem)).1
  have hknown : invite.invitation ∈ k'.byId := by
    obtain ⟨e, he, _⟩ := h.community
    exact mem_iff.mpr ⟨e, by rw [(h.sameAt_accepted _ hinvited.1).byId]; exact he⟩
  have hvalid : validateContext C state event (.memberAccept invite.invitation
      (invite.capability.signAcceptance C invite.community invite.invitation author)) author
      (setOf pre) = .ok () := by
    refine (validateContext_iff rfl).mpr ⟨by rw [h.place, hcommunity], fun parent hp => ?_, ?_⟩
    · rw [h.parents, List.mem_singleton] at hp
      exact mem_setOf.mpr (hp ▸ hmem)
    · exact ⟨_, _, (htrace.invitations_iff h.collected').mpr hinvites,
        fun hredeemed => hopen (htrace.mem_acceptedInvitations.mp hredeemed), h.place, h.signed⟩
  rw [verdict, hearlier, htrace.stateAfter_eq, h.parents_eq, h.entry.1, h.entry.2.1, h.entry.2.2]
  simp only [List.any_cons, List.any_nil, hknown, haccepted, not_true_eq_false, decide_false,
    Bool.or_false, Bool.false_eq_true, if_false]
  exact hvalid

end Split

theorem accepted : ∃ pre post, (k'.final C).acceptedInOrder = pre ++ event.eventId :: post ∧
    pre <+: (k.final C).acceptedInOrder := by
  obtain ⟨done, rest, hsplit, hdone, _⟩ := order_split h.event_order
  have heval := evaluate_verdict (C := C) h.proper' hsplit
  rw [h.verdict_ok hsplit hdone] at heval
  obtain ⟨more, _, hfinal⟩ := foldl_accepted (C := C) (k := k') rest
    (evaluate C k' (done.foldl (evaluate C k') k'.start) event.eventId)
  rw [← final_eq hsplit, heval] at hfinal
  refine ⟨_, more, by rw [hfinal, List.append_assoc]; rfl, ?_⟩
  rw [← earlier_eq (C := C) h.proper' hsplit]
  exact (judged_final h.proper).earlier_isPrefix h.sameAt_accepted (judged_final h.proper') hsplit
    (h.agree hsplit hdone)

theorem closed : invite.invitation ∉ (k'.resolve C).snapshot.activeInvitations := by
  intro hactive
  obtain ⟨key, hkey⟩ := mem_iff.mp hactive
  rw [resolve_eq_final] at hkey
  obtain ⟨pre, post, hsplit, _⟩ := h.accepted
  have hreads := (evaluated_final (C := C) h.proper'.toComplete).reads h.collected'
  refine ((hreads.activeInvitations _ _).mp hkey).2 ⟨event.eventId, ?_, _, h.entry.2.1⟩
  rw [hsplit]
  simp

end Redeeming

theorem validate_ok {prepared : PreparedInvite} {invitationEvent : SignedEvent}
    (h : prepared.validate C J invitationEvent = .ok invite) :
    invitationEvent.eventId = invite.invitation ∧
      invitationEvent.content.communityId = some invite.community ∧
      decode J invitationEvent = .ok (.memberInvite (invite.capability.publicKey C).toList) := by
  unfold PreparedInvite.validate at h
  split at h
  · cases h
  · split at h
    · cases h
    · rename_i payload hpayload
      split_ifs at h with hmatches
      obtain rfl := Except.ok.inj h
      exact ⟨hmatches.1, hmatches.2.1, hmatches.2.2 ▸ hpayload⟩

/-- Every active invitation is redeemed by the acceptance that its capability signs, on top of
what was accepted before. -/
theorem acceptance_accepted {prepared : PreparedInvite} {invitationEvent : SignedEvent}
    {resolution : ChatResolution} (hsign : C.SignsCorrectly)
    (hvalid : ∀ event ∈ events, event.Valid C) (hresolve : resolve C J events = .ok resolution)
    (hmem : invitationEvent ∈ events)
    (hvalidate : prepared.validate C J invitationEvent = .ok invite)
    (hactive : invite.invitation ∈ resolution.snapshot.activeInvitations)
    (hread : J.ReadsBack (invite.acceptancePayload C user))
    (hinj : Unambiguous
      (events ++ [invite.createAcceptance C user [invite.invitation] timestampMs])) :
    ∃ extended, resolve C J
        (events ++ [invite.createAcceptance C user [invite.invitation] timestampMs]) = .ok extended ∧
      (∃ pre post, extended.acceptedInOrder = pre ++
          (invite.createAcceptance C user [invite.invitation] timestampMs).eventId :: post ∧
        pre <+: resolution.acceptedInOrder) ∧
      invite.invitation ∉ extended.snapshot.activeInvitations := by
  obtain ⟨hid, hplace, hdecode⟩ := validate_ok hvalidate
  have hsub : Unambiguous events := hinj.mono fun e he => by
    simp only [Set.mem_ofPred_eq, List.mem_append] at he ⊢
    exact Or.inl he
  obtain ⟨k, hcollect, hk⟩ := candidates_spec (J := J) hvalid hsub
  obtain rfl := Except.ok.inj ((resolve_eq hcollect).symm.trans hresolve)
  have hall : ∀ e ∈ events ++ [invite.createAcceptance C user [invite.invitation] timestampMs],
      e.Valid C := fun e he => by
    rcases List.mem_append.mp he with he | he
    · exact hvalid e he
    · exact List.mem_singleton.mp he ▸ acceptance_valid hsign
  obtain ⟨k', hcollect', hk'⟩ := candidates_spec (J := J) hall hinj
  have h : Redeeming C J events invite
      (invite.createAcceptance C user [invite.invitation] timestampMs) (user.userId C) k k' :=
    { old := hk
      new := hk'
      valid := hall
      unambiguous := hinj
      collected := collected_of_collect hcollect
      collected' := collected_of_collect hcollect'
      active := mem_iff.mp hactive
      published := hk.payloads.mpr ⟨invitationEvent, hmem, hid, hdecode⟩
      community := ⟨invitationEvent, hk.byId.mpr ⟨hmem, hid⟩, hplace⟩
      payload := decode_created hread rfl
      authored := authorId_created
      parents := acceptance_parents
      place := communityId_created
      signed := verify_acceptance hsign }
  refine ⟨k'.resolve C, resolve_eq hcollect', ?_, h.closed⟩
  rw [resolve_acceptedInOrder, resolve_acceptedInOrder]
  exact h.accepted

section Club

open Sample

def clubInvite : ValidatedInvite := ⟨club, invitation.eventId, ⟨bigEndianBytes 32 3⟩⟩

theorem club_invites : ∃ resolution,
    resolve crypto clubReader [genesis, invitation] = .ok resolution ∧
      clubInvite.invitation ∈ resolution.snapshot.activeInvitations := by
  have h : resolved clubReader [genesis, invitation] (fun resolution => decide (
      clubInvite.invitation ∈ resolution.snapshot.activeInvitations)) = true := by decide +kernel
  obtain ⟨resolution, hresolve, hfacts⟩ := exists_of_resolved h
  exact ⟨resolution, hresolve, of_decide_eq_true hfacts⟩

theorem clubInvite_validated :
    (⟨club, invitation.eventId, ⟨bigEndianBytes 32 3⟩⟩ : PreparedInvite).validate crypto clubReader
      invitation = .ok clubInvite := by
  have hvalid : validateEvent crypto invitation = .ok () :=
    validateEvent_iff.mpr (club_valid invitation (by simp [clubEvents]))
  have hdecode : decode clubReader invitation =
      .ok (.memberInvite ((identity 3).publicKey crypto).toList) := by decide
  unfold PreparedInvite.validate
  rw [hvalid]
  dsimp only
  rw [hdecode]
  exact if_pos ⟨rfl, rfl, rfl⟩

theorem acceptance_accepted_club : ∃ resolution extended,
    resolve crypto clubReader [genesis, invitation] = .ok resolution ∧
      resolve crypto clubReader ([genesis, invitation] ++
        [clubInvite.createAcceptance crypto (identity 2) [invitation.eventId] 0]) = .ok extended ∧
      (∃ pre post, extended.acceptedInOrder = pre ++
          (clubInvite.createAcceptance crypto (identity 2) [invitation.eventId] 0).eventId :: post ∧
        pre <+: resolution.acceptedInOrder) ∧
      invitation.eventId ∉ extended.snapshot.activeInvitations := by
  obtain ⟨resolution, hresolve, hactive⟩ := club_invites
  have hread : clubReader.ReadsBack (clubInvite.acceptancePayload crypto (identity 2)) := by
    unfold PayloadReader.ReadsBack
    decide +kernel
  have hnodup : (([genesis, invitation] ++
      [clubInvite.createAcceptance crypto (identity 2) [clubInvite.invitation] 0]).map
        SignedEvent.eventId).Nodup := by decide +kernel
  obtain ⟨extended, hextended, haccepted, hclosed⟩ := acceptance_accepted crypto_signsCorrectly
    (fun e he => club_valid e (by
      simp only [List.mem_cons, List.not_mem_nil, or_false] at he
      rcases he with rfl | rfl <;> simp [clubEvents]))
    hresolve (by simp) clubInvite_validated hactive hread (List.inj_on_of_nodup_map hnodup)
  exact ⟨resolution, extended, hresolve, hextended, haccepted, hclosed⟩

end Club

end ChatCommons
