import ChatCommons.Chat.Views
import ChatCommons.Chat.Writing

/-!
An event at the tips of a node that accepts everything it stores: when it is accepted and
taken in, the node again accepts everything, with the event last.
-/

namespace ChatCommons

open Collections Candidates Dag

variable {C : Crypto} {J : PayloadReader} {core : CoreNode} {k k' : Candidates}
  {stored : List SignedEvent} {event : SignedEvent} {payload : ChatPayload} {author : UserId}
  {community : CommunityId} {x : EventId}

def NoCollision (store : EventStore) (event : SignedEvent) : Prop :=
  ∀ other, store.rows[event.eventId]? = some other → other = event

theorem NoCollision.unambiguous (hcore : core.Sound C) (hstored : core.allEvents C = .ok stored)
    (h : NoCollision core.store event) : Unambiguous (stored ++ [event]) := by
  have hsplit : ∀ e ∈ stored ++ [event], e ∈ stored ∨ e = event := fun e he => by
    simpa using he
  have hsame : ∀ e ∈ stored, e.eventId = event.eventId → e = event := by
    intro e he hid
    apply h
    rw [← hid]
    exact ((mem_stored hcore hstored).mp he).2
  intro a ha b hb hab
  rcases hsplit a ha with ha | ha <;> rcases hsplit b hb with hb | hb
  · exact unambiguous_stored hcore hstored ha hb hab
  · rw [hb] at hab ⊢
    exact hsame a ha hab
  · rw [ha] at hab ⊢
    exact (hsame b hb hab.symm).symm
  · rw [ha, hb]

/-- The node accepts everything that it stores, and `stored` and `k` are what `resolve` sees. -/
structure Unbroken (C : Crypto) (J : PayloadReader) (core : CoreNode) (stored : List SignedEvent)
    (k : Candidates) : Prop where
  whole : core.Whole C
  listed : core.allEvents C = .ok stored
  described : Describes C J stored k
  accepted : ∀ x ∈ core.known, x ∈ (k.final C).acceptedInOrder

namespace Unbroken

variable (h : Unbroken C J core stored k)
include h

theorem proper : k.Proper := proper_stored h.whole.toSound h.listed h.described

theorem collected : k.Collected C :=
  collected_of_collect (collect_stored h.whole.toSound h.listed h.described)

theorem mem_accepted : x ∈ (k.final C).acceptedInOrder ↔ x ∈ core.known :=
  ⟨accepted_stored h.whole.toSound h.listed h.described, h.accepted x⟩

theorem trace : Trace C k (k.final C).acceptedInOrder (k.final C).state :=
  (evaluated_final h.proper.toComplete).trace

/-- The community of the state is the one that the database was opened with. -/
theorem community_eq (hcommunity : core.community = some community) :
    (k.final C).state.community = some community := by
  obtain ⟨id, hid, _⟩ := h.whole.begun hcommunity
  have htrace := h.trace
  cases hids : (k.final C).acceptedInOrder with
  | nil =>
    have hmem := h.accepted id hid
    rw [hids] at hmem
    cases hmem
  | cons genesis rest =>
    rw [hids] at htrace
    obtain ⟨hgenesis, hstate, _⟩ := htrace.rooted h.collected
    obtain ⟨event, hevent, _, hnone⟩ := hgenesis.content
    obtain rfl := h.collected.keyed hevent
    have hknown := h.mem_accepted.mp (hids ▸ List.mem_cons_self)
    have hrow := ((mem_stored h.whole.toSound h.listed).mp (h.described.byId.mp hevent).1).2
    have hbelongs := h.whole.belongs hcommunity ⟨hknown, hrow⟩
    rw [hstate, (CoreNode.belongsTo_genesis hnone).mp hbelongs]

end Unbroken

section Placing

variable (h : Unbroken C J core stored k) (hvalid : event.Valid C)
  (hheads : core.heads C = .ok event.content.parents) (hne : event.content.parents ≠ [])
  (hcollision : NoCollision core.store event)
include h hvalid hheads hne hcollision

theorem exists_placed : ∃ k', resolve C J (stored ++ [event]) = .ok (k'.resolve C) ∧
    AtTips C J core stored event k k' := by
  have hcore := h.whole.toSound
  have hinj := hcollision.unambiguous hcore h.listed
  have hfresh := fresh_of_unambiguous hcore h.listed hheads hne rfl hinj
  obtain ⟨k₁, k', _, hnew, htips⟩ := exists_atTips J hcore h.listed hvalid hfresh hheads
  obtain rfl := htips.old.unique h.described fun _ => Iff.rfl
  exact ⟨k', hnew, htips⟩

end Placing

namespace AtTips

variable (hunbroken : Unbroken C J core stored k) (htips : AtTips C J core stored event k k')
include hunbroken htips

/-- The event meets the state of everything stored, and leads on from there. -/
theorem admitted (hpayload : decode J event = .ok payload) (hauthor : authorId C event = .ok author)
    (haccepted : event.eventId ∈ (k'.final C).acceptedInOrder) :
    validateContext C (k.final C).state event payload author
        (setOf (k.final C).acceptedInOrder) = .ok () ∧
      (k'.final C).state = apply C (k.final C).state event payload author := by
  have htrace := (evaluated_final (C := C) htips.proper'.toComplete).trace
  rw [htips.acceptedInOrder_snoc haccepted] at htrace
  obtain ⟨before, hbefore, _, other, payload', author', hevent, hpayload', hauthor', hcontext,
    hafter⟩ := htrace.snoc_inv
  have hmem : event ∈ stored ++ [event] := by simp
  have hevent' := htips.new.byId.mpr ⟨hmem, rfl⟩
  have hpayload'' := htips.new.payloads.mpr ⟨event, hmem, rfl, hpayload⟩
  have hauthor'' := htips.new.authors.mpr ⟨event, hmem, rfl, hauthor⟩
  obtain rfl := Option.some.inj (hevent'.symm.trans hevent)
  obtain rfl := Option.some.inj (hpayload''.symm.trans hpayload')
  obtain rfl := Option.some.inj (hauthor''.symm.trans hauthor')
  have hstate : before = (k.final C).state := by
    rw [← hbefore.stateAfter_eq, ← hunbroken.trace.stateAfter_eq]
    apply stateAfter_eq_of_same
    intro y hy
    exact htips.sameAt (htips.ne_of_known (hunbroken.mem_accepted.mp hy))
  rw [hstate] at hcontext hafter
  exact ⟨hcontext, hafter⟩

theorem placed_iff (hpayload : decode J event = .ok payload)
    (hauthor : authorId C event = .ok author)
    (hcommunity : event.content.communityId = (k.final C).state.community)
    (hcreate : payload.isCommunityCreate = false) :
    event.eventId ∈ (k'.final C).acceptedInOrder ↔
      Qualified C (k.final C).state event author payload := by
  constructor
  · intro haccepted
    obtain ⟨hcontext, _⟩ := htips.admitted hunbroken hpayload hauthor haccepted
    exact ((validateContext_iff hcreate).mp hcontext).2.2
  · intro hqualified
    apply (htips.accepted_iff hpayload hauthor hcommunity hqualified hcreate).mpr
    exact htips.rejected_empty_iff.mpr hunbroken.accepted

theorem messages_snoc (haccepted : event.eventId ∈ (k'.final C).acceptedInOrder) :
    (k'.final C).acceptedInOrder.filterMap k'.message =
      (k.final C).acceptedInOrder.filterMap k.message ++ (k'.message event.eventId).toList := by
  have hold : (k.final C).acceptedInOrder.filterMap k'.message =
      (k.final C).acceptedInOrder.filterMap k.message := by
    apply List.filterMap_congr
    intro x hx
    have hsame := htips.sameAt (htips.ne_of_known (hunbroken.mem_accepted.mp hx))
    rw [Candidates.message, Candidates.message, hsame.byId, hsame.payloads, hsame.authors]
  rw [htips.acceptedInOrder_snoc haccepted, List.filterMap_append, hold]
  cases hmessage : k'.message event.eventId <;> simp [hmessage]

end AtTips

section Taking

/-- An event whose parents are known is taken in, and nothing else changes. -/
theorem ingest_next (hwhole : core.Whole C)
    (hcommunity : core.community = some community ∨
      core.community = none ∧ event.content.communityId = none)
    (hvalid : event.Valid C) (hfits : event.belongsTo community = true)
    (hparents : ∀ parent ∈ event.content.parents, parent ∈ core.known)
    (hcollision : NoCollision core.store event) :
    ∃ core' report, core.ingest C [event] = (core', .ok report) ∧
      core'.Whole C ∧ core'.community = some community ∧
      (∀ x, x ∈ core'.known ↔ x = event.eventId ∨ x ∈ core.known) ∧
      ∀ x other, core'.store.rows[x]? = some other ↔
        core.store.rows[x]? = some other ∨ x = event.eventId ∧ other = event := by
  have hcore := hwhole.toSound
  have hall : ∀ e ∈ [event], e.Valid C := by simpa using hvalid
  have hallFit : ∀ e ∈ [event], e.belongsTo community = true := by simpa using hfits
  have hnamed : core.community = some community ∨
      core.community = none ∧ ∃ e ∈ [event], e.content.communityId = none := by simpa using hcommunity
  have hsame : ∀ c, core.community = some c → c = community := by
    intro c hc
    rcases hcommunity with h | ⟨h, _⟩
    · exact Option.some.inj (hc.symm.trans h)
    · rw [h] at hc
      cases hc
  have hoffer : ∀ {x : EventId} {e : SignedEvent}, (offeredOf [event])[x]? = some e →
      e = event ∧ event.eventId = x := by
    intro x e he
    obtain ⟨hmem, hid⟩ := offeredOf_mem he
    obtain rfl := List.mem_singleton.mp hmem
    exact ⟨rfl, hid⟩
  have hone : [event].length ≤ MAX_PENDING_EVENTS := by
    rw [List.length_singleton]
    decide
  have hself : (offeredOf [event])[event.eventId]? = some event := by
    apply (offeredOf_spec (by simp)).mpr
    simp
  have hoffered : Offered C core.store community (offeredOf [event]) := by
    refine ⟨fun he => ?_, fun he => ?_, fun he => ?_, fun he hrow => ?_⟩
    · rw [(hoffer he).1, (hoffer he).2]
    · rwa [(hoffer he).1]
    · rwa [(hoffer he).1]
    · obtain ⟨rfl, rfl⟩ := hoffer he
      exact hcollision _ hrow
  obtain ⟨core', report, hingest, hingested, hmissing⟩ := ingest_spec hcore hone hall
    hallFit hoffered hnamed
  have hgrows : Grows C (· ∈ [event]) community core
      (core.ingestUnless C (fun _ => false) [event]).1 :=
    (ingestUnless_checked hone hall (ingestCommunity_eq hall hallFit hnamed) hallFit).1
  rw [ingestUnless_never, hingest] at hgrows
  have hwhole' := (hwhole.grows hsame hgrows).1
  have hnew : event.eventId ∈ core'.known := by
    by_contra hnot
    obtain ⟨parent, hparent, hunknown⟩ := hmissing hself hnot
    exact hunknown (hingested.known_mono (hparents parent hparent))
  refine ⟨core', report, hingest, hwhole', ?_, fun x => ⟨fun hx => ?_, ?_⟩, fun x other => ?_⟩
  · obtain ⟨e, hrow⟩ := hwhole'.stored hnew
    obtain ⟨c, hc, _⟩ := hwhole'.member hnew hrow
    rw [hc, (hwhole.grows hsame hgrows).2 c hc]
  · rcases hingested.known_from hx with hold | ⟨e, he⟩
    · exact Or.inr hold
    · exact Or.inl (hoffer he).2.symm
  · rintro (rfl | hx)
    · exact hnew
    · exact hingested.known_mono hx
  · rw [hingested.rows]
    apply or_congr_right
    constructor
    · rintro ⟨_, he⟩
      exact ⟨(hoffer he).2.symm, (hoffer he).1⟩
    · rintro ⟨rfl, rfl⟩
      exact ⟨hnew, hself⟩

variable (h : Unbroken C J core stored k) (hcommunity : core.community = some community)
  (hvalid : event.Valid C) (hbelongs : event.content.communityId = some community)
  (hheads : core.heads C = .ok event.content.parents)
  (hcollision : NoCollision core.store event)
include h hcommunity hvalid hbelongs hheads hcollision

/-- The accepted event is the only tip, and the last of what is accepted. -/
theorem appended (htips : AtTips C J core stored event k k')
    (haccepted : event.eventId ∈ (k'.final C).acceptedInOrder) :
    ∃ core' report stored', core.ingest C [event] = (core', .ok report) ∧
      Unbroken C J core' stored' k' ∧ core'.community = some community ∧
      core'.heads C = .ok [event.eventId] ∧
      ∀ x, x ∈ core'.known ↔ x = event.eventId ∨ x ∈ core.known := by
  have hcore := h.whole.toSound
  have hfits : event.belongsTo community = true := by
    rw [SignedEvent.belongsTo, hbelongs]
    simp
  obtain ⟨core', report, hingest, hwhole, hnamed, hknown, hrows⟩ :=
    ingest_next h.whole (Or.inl hcommunity) hvalid hfits
      (fun parent hp => ((mem_heads hcore hheads).mp hp).1) hcollision
  have hcore' := hwhole.toSound
  obtain ⟨stored', hstored'⟩ : ∃ stored', core'.allEvents C = .ok stored' :=
    ⟨_, hcore'.allEvents_eq⟩
  have hmem : ∀ e, e ∈ stored' ↔ e ∈ stored ++ [event] := by
    intro e
    rw [mem_stored hcore' hstored', hknown, hrows, List.mem_append, List.mem_singleton,
      mem_stored hcore h.listed]
    constructor
    · rintro ⟨hid, hrow | ⟨_, rfl⟩⟩
      · exact Or.inl ⟨h.whole.rowKnown (mem_of_getElem? hrow), hrow⟩
      · exact Or.inr rfl
    · rintro (⟨hid, hrow⟩ | rfl)
      · exact ⟨Or.inr hid, Or.inl hrow⟩
      · exact ⟨Or.inl rfl, Or.inr ⟨rfl, rfl⟩⟩
  have hdescribed : Describes C J stored' k' := by
    obtain ⟨k₁, _, hk₁⟩ := candidates_spec (J := J) (stored_valid hcore' hstored')
      (unambiguous_stored hcore' hstored')
    rwa [hk₁.unique htips.new hmem] at hk₁
  refine ⟨core', report, stored', hingest, ⟨hwhole, hstored', hdescribed, fun x hx => ?_⟩,
    hnamed, ?_, hknown⟩
  · rcases (hknown x).mp hx with rfl | hx
    · exact haccepted
    · exact htips.all_accepted haccepted hx
  · obtain ⟨heads, hheads', hsorted, hhead⟩ := hcore'.heads_spec
    rw [hheads']
    congr 1
    apply hsorted.eq_of_mem_iff (List.pairwise_singleton _ _)
    intro x
    rw [hhead, List.mem_singleton]
    have hparents : ∀ y ∈ core.known, core'.parents y = core.parents y := by
      intro y hy
      obtain ⟨e, hrow⟩ := hcore.stored hy
      rw [CoreNode.parents_eq hrow, CoreNode.parents_eq ((hrows y e).mpr (Or.inl hrow))]
    have hown : core'.parents event.eventId = event.content.parents :=
      CoreNode.parents_eq ((hrows _ _).mpr (Or.inr ⟨rfl, rfl⟩))
    have hnew : event.eventId ∈ core'.known := (hknown _).mpr (Or.inl rfl)
    constructor
    · rintro ⟨hx, htop⟩
      rcases (hknown x).mp hx with rfl | hold
      · rfl
      · exfalso
        have hchild : ¬ IsHead core.parents core.knownSet x := fun hisHead =>
          htop _ hnew (hown ▸ (mem_heads hcore hheads).mpr hisHead)
        simp only [IsHead, not_and, not_forall, not_not] at hchild
        obtain ⟨y, hy, hxy⟩ := hchild hold
        exact htop y ((hknown y).mpr (Or.inr hy)) (hparents y hy ▸ hxy)
    · rintro rfl
      refine ⟨hnew, fun y hy hparent => htips.fresh ?_⟩
      rcases (hknown y).mp hy with rfl | hy
      · rw [hown] at hparent
        exact ((mem_heads hcore hheads).mp hparent).1
      · rw [hparents y hy] at hparent
        exact hcore.closed y hy _ hparent

end Taking

end ChatCommons
