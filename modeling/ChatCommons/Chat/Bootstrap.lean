import ChatCommons.Chat.History
import ChatCommons.Chat.TipResolution
import ChatCommons.Model.Commands
import ChatCommons.Sample.Sponsor

/-!
An endpoint resolves everything that it stores, and a joiner the past of one
invitation. Both accept the invitation when what lies outside of that past, and is
accepted earlier, has no say in it.
-/

namespace ChatCommons

open Collections Candidates Dag

variable {C : Crypto} {J : PayloadReader} {core : CoreNode} {k k' : Candidates}
  {stored ancestry : List SignedEvent} {ids pre : List EventId} {x invitation : EventId}

section Neutral

def ChatPayload.IsNeutral : ChatPayload → Prop
  | messageCreate .. | homeServerSet .. => True
  | _ => False

/-- Equal but for the home server. -/
def State.Alike (s s' : State) : Prop := { s with homeServer := s'.homeServer } = s'

variable {s s' : State} {event : SignedEvent} {payload : ChatPayload} {author : UserId}
  {accepted accepted' : BTreeSet EventId}

theorem State.Alike.refl : State.Alike s s := rfl

theorem validateContext_alike (h : s.Alike s') :
    validateContext C s' event payload author accepted =
      validateContext C s event payload author accepted := by
  rw [← h]
  rfl

theorem validateContext_congr
    (h : ∀ parent ∈ event.content.parents, parent ∈ accepted' ↔ parent ∈ accepted) :
    validateContext C s event payload author accepted' =
      validateContext C s event payload author accepted := by
  have hany : event.content.parents.any (fun parent => parent ∉ accepted') =
      event.content.parents.any fun parent => parent ∉ accepted := by
    rw [Bool.eq_iff_iff]
    simp only [List.any_eq_true, decide_eq_true_eq]
    exact exists_congr fun parent => and_congr_right fun hp => not_congr (h parent hp)
  unfold validateContext
  rw [hany]

theorem apply_alike (h : s.Alike s') :
    (apply C s event payload author).Alike (apply C s' event payload author) := by
  rw [← h]
  cases payload with
  | homeServerSet serverPublicKey endpoints =>
    simp only [apply]
    split <;> rfl
  | _ => rfl

theorem apply_neutral (h : payload.IsNeutral) : (apply C s event payload author).Alike s := by
  cases payload with
  | messageCreate _ _ => rfl
  | homeServerSet serverPublicKey endpoints =>
    simp only [apply]
    split <;> rfl
  | _ => exact h.elim

theorem State.Alike.trans {s'' : State} (h : s.Alike s') (h' : s'.Alike s'') : s.Alike s'' := by
  rw [← h', ← h]
  rfl

def Candidates.Neutral (k : Candidates) (x : EventId) : Prop :=
  ∃ payload, k.payloads[x]? = some payload ∧ payload.IsNeutral

end Neutral

section Replay

theorem Trace.without_neutral {past : List EventId} {state : State} (h : Trace C k ids state)
    (hpast : ∀ x ∈ ids, x ∈ past → ∀ parent ∈ k.parents x, parent ∈ past)
    (hneutral : ∀ x ∈ ids, x ∉ past → k.Neutral x) :
    ∃ state', state.Alike state' ∧ Trace C k (ids.filter fun x => x ∈ past) state' := by
  induction h with
  | nil => exact ⟨{}, .refl, .nil⟩
  | @snoc ids before x after htrace hparents hadmits ih =>
    obtain ⟨before', halike, htrace'⟩ := ih
      (fun y hy => hpast y (List.mem_append_left _ hy))
      fun y hy => hneutral y (List.mem_append_left _ hy)
    obtain ⟨event, payload, author, hevent, hpayload, hauthor, hvalid, rfl⟩ := hadmits
    rw [List.filter_append]
    by_cases hx : x ∈ past
    · rw [List.filter_singleton, decide_eq_true hx, cond_true]
      have hkept : ∀ parent ∈ k.parents x, parent ∈ ids.filter fun x => x ∈ past := fun parent hp =>
        List.mem_filter.mpr ⟨hparents parent hp, by simpa using hpast x (by simp) hx parent hp⟩
      refine ⟨_, apply_alike halike, .snoc htrace' hkept
        ⟨event, payload, author, hevent, hpayload, hauthor, ?_, rfl⟩⟩
      rw [validateContext_alike halike, ← hvalid]
      apply validateContext_congr
      intro parent hp
      have hparent : parent ∈ k.parents x := by rwa [Candidates.parents, hevent]
      simp only [mem_setOf, hkept parent hparent, hparents parent hparent]
    · rw [List.filter_singleton, decide_eq_false hx, cond_false, List.append_nil]
      obtain ⟨payload', hpayload', hneutral'⟩ := hneutral x (by simp) hx
      obtain rfl := Option.some.inj (hpayload.symm.trans hpayload')
      exact ⟨before', (apply_neutral hneutral').trans halike, htrace'⟩

theorem Trace.congr {state : State} (h : Trace C k ids state)
    (hsame : ∀ x ∈ ids, SameAt k k' x) : Trace C k' ids state := by
  induction h with
  | nil => exact .nil
  | @snoc ids before x after _ hparents hadmits ih =>
    have hx := hsame x (by simp)
    obtain ⟨event, payload, author, hevent, hpayload, hauthor, hdecision⟩ := hadmits
    refine .snoc (ih fun y hy => hsame y (List.mem_append_left _ hy)) ?_
      ⟨event, payload, author, ?_, ?_, ?_, hdecision⟩
    · rwa [hx.parents_eq]
    · rwa [hx.byId]
    · rwa [hx.payloads]
    · rwa [hx.authors]

theorem earlier_of_sorted {post : List EventId} (h : (pre ++ x :: post).Pairwise k.Before) :
    k.earlier (pre ++ x :: post) x = pre := by
  obtain ⟨_, hpost, hpre⟩ := List.pairwise_append.mp h
  rw [earlier, List.filter_append, List.filter_eq_self.mpr, List.filter_eq_nil_iff.mpr,
    List.append_nil]
  · intro y hy
    rcases List.mem_cons.mp hy with rfl | hy
    · simpa using Before.irrefl
    · simpa using ((List.pairwise_cons.mp hpost).1 y hy).asymm
  · intro y hy
    simpa using hpre y hy x (by simp)

theorem Trace.verdict_ok {state : State} (h : Trace C k ids state)
    (hsorted : ids.Pairwise k.Before) (hx : x ∈ ids) : k.verdict C ids x = .ok () := by
  have hknown : ∀ y ∈ ids, y ∈ k.byId := fun y hy => by
    obtain ⟨event, _, _, hentry⟩ := h.entry hy
    exact mem_iff.mpr ⟨event, hentry.1⟩
  have hparents := h.parents_mem hx
  have hmissing : ((k.parents x).any fun parent => parent ∉ k.byId) = false := by
    simpa using fun parent hp => hknown parent (hparents parent hp)
  have hrefused : ((k.parents x).any fun parent => parent ∉ ids) = false := by
    simpa using hparents
  obtain ⟨pre, post, rfl⟩ := List.append_of_mem hx
  obtain ⟨before, hpre, _, event, payload, author, hentry, hvalid⟩ := h.split
  rw [verdict, hmissing, hrefused, earlier_of_sorted hsorted]
  simp only [Bool.false_eq_true, if_false, hentry.1, hentry.2.1, hentry.2.2]
  rw [hpre.stateAfter_eq]
  exact hvalid

theorem Trace.accepted_eq {state : State} (h : Trace C k ids state) (hk : k.Proper)
    (hsorted : ids.Pairwise k.Before) (hids : ∀ x, x ∈ ids ↔ x ∈ k.order) :
    (k.final C).acceptedInOrder = ids := by
  have hjudged : Judged C k ids := ⟨hsorted, fun x =>
    ⟨fun hx => ⟨(hids x).mp hx, h.verdict_ok hsorted hx⟩, fun hx => (hids x).mpr hx.1⟩⟩
  exact (hjudged.eq_of_same (fun _ _ => .refl) (judged_final hk) fun _ _ => .refl).symm

end Replay

theorem invites_of_active (hk : k.Proper) (hcollected : k.Collected C)
    (hactive : invitation ∈ (k.resolve C).snapshot.activeInvitations) : ∃ key : Bytes 32,
      k.Invites (k.final C).acceptedInOrder invitation key.toList ∧
        ¬ k.Redeemed (k.final C).acceptedInOrder invitation := by
  obtain ⟨key, hkey⟩ := mem_iff.mp hactive
  rw [resolve_eq_final] at hkey
  have hreads := (evaluated_final (C := C) hk.toComplete).reads hcollected
  exact ⟨key, (hreads.activeInvitations _ _).mp hkey⟩

theorem known_of_accepted (hcore : core.Sound C) (hstored : core.allEvents C = .ok stored)
    (hk : Describes C J stored k) (hx : x ∈ (k.final C).acceptedInOrder) : x ∈ core.known := by
  have hproper := hk.proper (stored_valid hcore hstored) (unambiguous_stored hcore hstored)
  have horder := (judged_final hproper).subset_order hx
  exact (mem_byId_stored hcore hstored hk).mp (hproper.known x (mem_order.mp horder).1)

theorem mem_pastEvents (hcore : core.Sound C) (hstored : core.allEvents C = .ok stored)
    (hknown : invitation ∈ core.known) {event : SignedEvent} :
    event ∈ core.pastEvents invitation ↔
      event.eventId ∈ core.past invitation ∧ event ∈ stored := by
  rw [CoreNode.pastEvents, List.mem_filterMap, mem_stored hcore hstored]
  constructor
  · rintro ⟨x, hx, hrow⟩
    obtain rfl := hcore.rowId hrow
    exact ⟨hx, hcore.known_of_reaches hknown ((hcore.mem_past hknown).mp hx), hrow⟩
  · rintro ⟨hx, _, hrow⟩
    exact ⟨event.eventId, hx, hrow⟩

structure Disclosed (C : Crypto) (J : PayloadReader) (core : CoreNode) (stored : List SignedEvent)
    (invitation : EventId) (k k' : Candidates) : Prop where
  sound : core.Sound C
  listed : core.allEvents C = .ok stored
  whole : Describes C J stored k
  part : Describes C J (core.pastEvents invitation) k'
  collected : k.Collected C
  collected' : k'.Collected C
  offered : invitation ∈ (k.resolve C).snapshot.activeInvitations

namespace Disclosed

variable (h : Disclosed C J core stored invitation k k')
include h

theorem proper : k.Proper :=
  h.whole.proper (stored_valid h.sound h.listed) (unambiguous_stored h.sound h.listed)

theorem accepted : invitation ∈ (k.final C).acceptedInOrder := by
  obtain ⟨_, hinvites, _⟩ := invites_of_active h.proper h.collected h.offered
  exact hinvites.1

theorem known : invitation ∈ core.known := known_of_accepted h.sound h.listed h.whole h.accepted

theorem mem_past : x ∈ core.past invitation ↔ Reaches core.parents x invitation :=
  h.sound.mem_past h.known

theorem part_stored {event : SignedEvent} (he : event ∈ core.pastEvents invitation) :
    event ∈ stored := ((mem_pastEvents h.sound h.listed h.known).mp he).2

theorem proper' : k'.Proper := h.part.proper
  (fun event he => stored_valid h.sound h.listed event (h.part_stored he))
  ((unambiguous_stored h.sound h.listed).mono fun _ he => h.part_stored he)

theorem sameAt (hx : x ∈ core.past invitation) : SameAt k k' x :=
  h.whole.sameAt h.part fun event he => by
    rw [mem_pastEvents h.sound h.listed h.known, he, and_iff_right hx]

theorem mem_byId' (hx : x ∈ k'.byId) : x ∈ core.past invitation := by
  obtain ⟨event, hevent⟩ := mem_iff.mp hx
  obtain ⟨hmem, rfl⟩ := h.part.byId.mp hevent
  exact ((mem_pastEvents h.sound h.listed h.known).mp hmem).1

theorem accepted_past (hx : x ∈ (k'.final C).acceptedInOrder) : x ∈ core.past invitation :=
  h.mem_byId' (h.proper'.known x (mem_order.mp ((judged_final h.proper').subset_order hx)).1)

theorem past_closed (hx : x ∈ core.past invitation) :
    ∀ parent ∈ k.parents x, parent ∈ core.past invitation := by
  have hreach := h.mem_past.mp hx
  rw [parents_stored h.sound h.listed h.whole (h.sound.known_of_reaches h.known hreach)]
  exact fun parent hp => h.mem_past.mpr (.head hp hreach)

theorem self_mem : invitation ∈ core.past invitation := h.mem_past.mpr .refl

theorem past_mem {S : Set EventId} (hmem : invitation ∈ S)
    (hS : ∀ y ∈ core.past invitation, y ∈ S → ∀ parent ∈ k.parents y, parent ∈ S)
    (hx : x ∈ core.past invitation) : x ∈ S := by
  have hclosed : Closed core.parents {y | y ∈ core.past invitation ∧ y ∈ S} := by
    rintro y ⟨hy, hyS⟩ parent hp
    have hknown := h.sound.known_of_reaches h.known (h.mem_past.mp hy)
    rw [← parents_stored h.sound h.listed h.whole hknown] at hp
    exact ⟨h.past_closed hy parent hp, hS y hy hyS parent hp⟩
  exact (hclosed.reaches (h.mem_past.mp hx) ⟨h.self_mem, hmem⟩).2

theorem mem_kept : x ∈ (k.final C).acceptedInOrder.filter (fun x => x ∈ core.past invitation) ↔
    x ∈ core.past invitation := by
  rw [List.mem_filter, decide_eq_true_eq, and_iff_right_iff_imp]
  exact h.past_mem (S := {y | y ∈ (k.final C).acceptedInOrder}) h.accepted fun y _ hy =>
    (judged_final h.proper).rooted y hy

theorem kept_sorted : ((k.final C).acceptedInOrder.filter fun x =>
    x ∈ core.past invitation).Pairwise k.Before := (judged_final h.proper).sorted.filter _

theorem kept_rooted : k.Rooted ((k.final C).acceptedInOrder.filter fun x =>
    x ∈ core.past invitation) := fun _ hx parent hp =>
  h.mem_kept.mpr (h.past_closed (h.mem_kept.mp hx) parent hp)

theorem kept_same : ∀ x ∈ (k.final C).acceptedInOrder.filter (fun x =>
    x ∈ core.past invitation), SameAt k k' x := fun _ hx => h.sameAt (h.mem_kept.mp hx)

theorem kept_sorted' : ((k.final C).acceptedInOrder.filter fun x =>
    x ∈ core.past invitation).Pairwise k'.Before :=
  sorted_of_same h.kept_rooted h.kept_same h.kept_sorted

theorem accepted_eq_kept (hmem : invitation ∈ (k'.final C).acceptedInOrder) :
    (k.final C).acceptedInOrder.filter (fun x => x ∈ core.past invitation) =
      (k'.final C).acceptedInOrder := by
  have hjudged := judged_final (C := C) h.proper'
  refine eq_of_sorted h.kept_sorted' hjudged.sorted fun x => ?_
  rw [h.mem_kept]
  refine ⟨fun hx => ?_, h.accepted_past⟩
  refine h.past_mem (S := {y | y ∈ (k'.final C).acceptedInOrder}) hmem (fun y hy hyS => ?_) hx
  rw [← (h.sameAt hy).parents_eq]
  exact hjudged.rooted y hyS

theorem accepted_iff : invitation ∈ (k'.final C).acceptedInOrder ↔ ∃ state, Trace C k
    ((k.final C).acceptedInOrder.filter fun x => x ∈ core.past invitation) state := by
  constructor
  · intro hmem
    have htrace := (evaluated_final (C := C) h.proper'.toComplete).trace
    rw [← h.accepted_eq_kept hmem] at htrace
    exact ⟨_, htrace.congr fun x hx => (h.kept_same x hx).symm⟩
  · rintro ⟨state, htrace⟩
    have htrace' := htrace.congr h.kept_same
    rw [htrace'.accepted_eq h.proper' h.kept_sorted' fun x => ⟨fun hx => ?_, fun hx => ?_⟩]
    · exact h.mem_kept.mpr h.self_mem
    · have horder := (judged_final h.proper).subset_order (List.mem_filter.mp hx).1
      exact mem_order_of_same h.kept_rooted h.kept_same hx horder
    · exact h.mem_kept.mpr (h.mem_byId' (h.proper'.known x (mem_order.mp hx).1))

theorem active_iff : invitation ∈ (k'.resolve C).snapshot.activeInvitations ↔
    invitation ∈ (k'.final C).acceptedInOrder := by
  have hreads := (evaluated_final (C := C) h.proper'.toComplete).reads h.collected'
  rw [resolve_eq_final, mem_iff]
  constructor
  · rintro ⟨key, hkey⟩
    exact ((hreads.activeInvitations _ _).mp hkey).1.1
  · intro hmem
    obtain ⟨key, ⟨_, hpayload⟩, hopen⟩ :=
      invites_of_active h.proper h.collected h.offered
    refine ⟨key, (hreads.activeInvitations _ _).mpr ⟨⟨hmem, ?_⟩, ?_⟩⟩
    · rwa [(h.sameAt h.self_mem).payloads]
    · rintro ⟨x, hx, signature, haccept⟩
      have hpast := h.accepted_past hx
      rw [(h.sameAt hpast).payloads] at haccept
      exact hopen ⟨x, (List.mem_filter.mp (h.mem_kept.mpr hpast)).1, signature, haccept⟩

theorem replays_of_neutral {post : List EventId}
    (hsplit : (k.final C).acceptedInOrder = pre ++ invitation :: post)
    (hneutral : ∀ x ∈ pre, x ∈ core.past invitation ∨ k.Neutral x) : ∃ state, Trace C k
      ((k.final C).acceptedInOrder.filter fun x => x ∈ core.past invitation) state := by
  have htrace := (evaluated_final (C := C) h.proper.toComplete).trace
  rw [hsplit] at htrace
  obtain ⟨before, htrace⟩ := htrace.shorten
    (show pre ++ [invitation] <+: pre ++ invitation :: post from ⟨post, by simp⟩)
  have hclosed : ∀ x ∈ pre ++ [invitation], x ∈ core.past invitation →
      ∀ parent ∈ k.parents x, parent ∈ core.past invitation := fun x _ hx => h.past_closed hx
  obtain ⟨state, _, hstate⟩ := htrace.without_neutral hclosed fun x hx hnot => by
      rcases List.mem_append.mp hx with hx | hx
      · exact (hneutral x hx).resolve_left hnot
      · exact absurd (List.mem_singleton.mp hx ▸ h.self_mem) hnot
  refine ⟨state, ?_⟩
  have hbelow : ∀ x ∈ core.past invitation, x ∈ pre ++ [invitation] := fun x hx =>
    h.past_mem (S := {y | y ∈ pre ++ [invitation]}) (by simp)
      (fun y _ hy => htrace.parents_mem hy) hx
  have hnodup : (pre ++ [invitation] ++ post).Nodup := by
    have := (evaluated_final (C := C) h.proper.toComplete).sublist.nodup k.order_nodup
    rwa [hsplit, List.append_cons] at this
  have hafter : post.filter (fun x => x ∈ core.past invitation) = [] := by
    apply List.filter_eq_nil_iff.mpr
    intro x hx hpast
    exact (List.nodup_append.mp hnodup).2.2 x (hbelow x (by simpa using hpast)) x hx rfl
  rwa [hsplit, List.append_cons, List.filter_append, hafter, List.append_nil]

end Disclosed

theorem checkAncestry_rejected {prepared : PreparedInvite} {resolution : ChatResolution}
    (hresolve : resolve C J ancestry = .ok resolution)
    (h : checkAncestry C J prepared invitation ancestry = .error .profileRejected) :
    invitation ∉ resolution.snapshot.activeInvitations := by
  unfold checkAncestry at h
  split at h
  · cases h
  · split at h
    · cases h
    · rw [resolveCli, hresolve] at h
      intro hmem
      simp [bind, Except.bind, hmem] at h

/-- The joiner finds an offered invitation active exactly when its past is valid alone, and so
whenever everything else that the endpoint accepts before it is a message or a declaration of
a home server. -/
theorem joiner_agrees {resolution : ChatResolution} (hcore : core.Sound C)
    (hstored : core.allEvents C = .ok stored) (hresolve : resolve C J stored = .ok resolution)
    (hactive : invitation ∈ resolution.snapshot.activeInvitations)
    (hancestry : core.ancestry C invitation MAX_BOOTSTRAP_ANCESTRY_EVENTS = .ok ancestry) :
    ∃ k joined, stored.foldlM (collect C J) {} = .ok k ∧ resolve C J ancestry = .ok joined ∧
      (invitation ∈ joined.snapshot.activeInvitations ↔ ∃ state, Trace C k
        (resolution.acceptedInOrder.filter fun x => x ∈ core.past invitation) state) ∧
      ∀ pre post, resolution.acceptedInOrder = pre ++ invitation :: post →
        (∀ x ∈ pre, x ∈ core.past invitation ∨ k.Neutral x) →
        invitation ∈ joined.snapshot.activeInvitations ∧
          ∀ prepared, checkAncestry C J prepared invitation ancestry ≠ .error .profileRejected := by
  have hinj := unambiguous_stored hcore hstored
  have hvalid := stored_valid hcore hstored
  obtain ⟨k, hcollect, hk⟩ := candidates_spec (J := J) hvalid hinj
  obtain rfl := Except.ok.inj ((resolve_eq hcollect).symm.trans hresolve)
  have hcollected := collected_of_collect hcollect
  obtain ⟨_, hinvites, _⟩ := invites_of_active (hk.proper hvalid hinj) hcollected hactive
  have hknown := known_of_accepted hcore hstored hk hinvites.1
  rw [CoreNode.ancestry_eq hcore hknown] at hancestry
  split_ifs at hancestry with hlength
  obtain rfl := Except.ok.inj hancestry
  have hsub : ∀ event ∈ core.pastEvents invitation, event ∈ stored := fun _ he =>
    ((mem_pastEvents hcore hstored hknown).mp he).2
  obtain ⟨k', hcollect', hk'⟩ := candidates_spec (J := J)
    (fun event he => hvalid event (hsub event he)) (hinj.mono hsub)
  have h : Disclosed C J core stored invitation k k' :=
    ⟨hcore, hstored, hk, hk', hcollected, collected_of_collect hcollect', hactive⟩
  have hjoined := resolve_eq hcollect'
  rw [resolve_acceptedInOrder]
  refine ⟨k, k'.resolve C, hcollect, hjoined, h.active_iff.trans h.accepted_iff,
    fun pre post hsplit hneutral => ?_⟩
  have hfound := h.active_iff.mpr (h.accepted_iff.mpr (h.replays_of_neutral hsplit hneutral))
  exact ⟨hfound, fun prepared hrejected => checkAncestry_rejected hjoined hrejected hfound⟩

open Sample in
theorem joiner_agrees_sponsor : ∃ resolution,
    resolve crypto sponsorReader sponsorStored = .ok resolution ∧
      ∃ k joined, sponsorStored.foldlM (collect crypto sponsorReader) {} = .ok k ∧
        resolve crypto sponsorReader sponsorDisclosed = .ok joined ∧
        (sponsorship.eventId ∈ joined.snapshot.activeInvitations ↔ ∃ state, Trace crypto k
          (resolution.acceptedInOrder.filter fun x =>
            x ∈ sponsorNode.past sponsorship.eventId) state) := by
  obtain ⟨resolution, hresolve, hactive⟩ := sponsor_resolved
  obtain ⟨k, joined, hcollect, hjoined, hiff, _⟩ := joiner_agrees sponsorNode_sound sponsor_listed
    hresolve hactive sponsor_disclosed
  exact ⟨resolution, hresolve, k, joined, hcollect, hjoined, hiff⟩

open Sample in
/-- The invitation is offered on the strength of a promotion that the joiner does not learn. -/
theorem joiner_refuses_offered : sponsorNode.Sound crypto ∧ sponsorNode.community = some club ∧
    sponsorNode.allEvents crypto = .ok sponsorStored ∧
    (∃ resolution, resolve crypto sponsorReader sponsorStored = .ok resolution ∧
      sponsorship.eventId ∈ resolution.snapshot.activeInvitations) ∧
    sponsorNode.ancestry crypto sponsorship.eventId MAX_BOOTSTRAP_ANCESTRY_EVENTS =
      .ok sponsorDisclosed ∧
    ∃ joined, resolve crypto sponsorReader sponsorDisclosed = .ok joined ∧
      sponsorship.eventId ∉ joined.snapshot.activeInvitations :=
  ⟨sponsorNode_sound, rfl, sponsor_listed, sponsor_resolved, sponsor_disclosed, sponsor_joined⟩

end ChatCommons
