import ChatCommons.Chat.Resolution
import ChatCommons.Chat.TipEvent

/-!
One event more, on top of everything that a node stores: the resolution of what was
stored stays, and the event is accepted only when nothing stored is rejected.
-/

namespace ChatCommons

open Collections Candidates Dag

variable {C : Crypto} {J : PayloadReader} {core : CoreNode} {k k' : Candidates}
  {event : SignedEvent} {x y : EventId}

section Stored

variable (hcore : core.Sound C) {stored : List SignedEvent} (hstored : core.allEvents C = .ok stored)
include hcore hstored

theorem mem_stored {e : SignedEvent} :
    e ∈ stored ↔ e.eventId ∈ core.known ∧ core.store.rows[e.eventId]? = some e := by
  obtain rfl := Except.ok.inj (hcore.allEvents_eq.symm.trans hstored)
  simp only [List.mem_filterMap, Std.ExtTreeSet.mem_toList]
  constructor
  · rintro ⟨id, hid, hrow⟩
    obtain rfl := hcore.rowId hrow
    exact ⟨hid, hrow⟩
  · rintro ⟨hid, hrow⟩
    exact ⟨e.eventId, hid, hrow⟩

theorem stored_valid : ∀ e ∈ stored, e.Valid C := fun _ he =>
  hcore.rowValid ((mem_stored hcore hstored).mp he).2

theorem unambiguous_snoc (hnew : event.eventId ∉ core.known) :
    Unambiguous (stored ++ [event]) := by
  have hmem : ∀ {e : SignedEvent}, e ∈ stored ++ [event] →
      e = event ∨ e.eventId ∈ core.known ∧ core.store.rows[e.eventId]? = some e := fun he => by
    rw [List.mem_append, List.mem_singleton, mem_stored hcore hstored] at he
    exact he.symm
  intro a ha b hb hab
  rcases hmem ha with rfl | ⟨ha, harow⟩ <;> rcases hmem hb with rfl | ⟨hb, hbrow⟩
  · rfl
  · exact absurd (by rwa [hab]) hnew
  · exact absurd (by rwa [← hab]) hnew
  · rw [hab, hbrow] at harow
    exact (Option.some.inj harow).symm

theorem unambiguous_stored : Unambiguous stored := by
  intro a ha b hb hab
  have harow := ((mem_stored hcore hstored).mp ha).2
  rw [hab, ((mem_stored hcore hstored).mp hb).2] at harow
  exact (Option.some.inj harow).symm

variable (hk : Describes C J stored k)
include hk

theorem mem_byId_stored : x ∈ k.byId ↔ x ∈ core.known := by
  constructor
  · intro hx
    obtain ⟨e, he⟩ := mem_iff.mp hx
    obtain ⟨hmem, rfl⟩ := hk.byId.mp he
    exact ((mem_stored hcore hstored).mp hmem).1
  · intro hx
    obtain ⟨e, hrow⟩ := hcore.stored hx
    obtain rfl := hcore.rowId hrow
    exact mem_iff.mpr ⟨e, hk.byId.mpr ⟨(mem_stored hcore hstored).mpr ⟨hx, hrow⟩, rfl⟩⟩

theorem parents_stored (hx : x ∈ core.known) : k.parents x = core.parents x := by
  obtain ⟨e, hrow⟩ := hcore.stored hx
  obtain rfl := hcore.rowId hrow
  have hbyId := hk.byId.mpr ⟨(mem_stored hcore hstored).mpr ⟨hx, hrow⟩, rfl⟩
  rw [CoreNode.parents_eq hrow, Candidates.parents, hbyId]

theorem grounded_stored (hx : x ∈ core.known) : Grounded k.parents x :=
  (hcore.grounded x hx).congr hcore.closed
    (fun _ hy => parents_stored hcore hstored hk hy) hx

theorem mem_order_stored (hx : x ∈ k.payloads) (hknown : x ∈ core.known) : x ∈ k.order :=
  mem_order.mpr ⟨hx, Rounds.low_of_acc (grounded_stored hcore hstored hk hknown)⟩

end Stored

/-- What a node stores and one event whose parents are all of its tips. -/
structure AtTips (C : Crypto) (J : PayloadReader) (core : CoreNode) (stored : List SignedEvent)
    (event : SignedEvent) (k k' : Candidates) : Prop where
  sound : core.Sound C
  listed : core.allEvents C = .ok stored
  valid : event.Valid C
  fresh : event.eventId ∉ core.known
  atHeads : core.heads C = .ok event.content.parents
  old : Describes C J stored k
  new : Describes C J (stored ++ [event]) k'

namespace AtTips

variable {stored : List SignedEvent} (h : AtTips C J core stored event k k')
include h

theorem proper : k.Proper :=
  h.old.proper (stored_valid h.sound h.listed) (unambiguous_stored h.sound h.listed)

theorem proper' : k'.Proper := by
  refine h.new.proper (fun e he => ?_) (unambiguous_snoc h.sound h.listed h.fresh)
  rcases List.mem_append.mp he with he | he
  · exact stored_valid h.sound h.listed e he
  · exact List.mem_singleton.mp he ▸ h.valid

theorem sameAt (hx : x ≠ event.eventId) : SameAt k k' x :=
  h.old.sameAt h.new fun e he => by
    rw [List.mem_append, List.mem_singleton, or_iff_left]
    rintro rfl
    exact hx he.symm

theorem ne_of_known (hx : x ∈ core.known) : x ≠ event.eventId := fun heq => h.fresh (heq ▸ hx)

theorem mem_byId : x ∈ k.byId ↔ x ∈ core.known := mem_byId_stored h.sound h.listed h.old

theorem mem_byId' : x ∈ k'.byId ↔ x = event.eventId ∨ x ∈ core.known := by
  by_cases hx : x = event.eventId
  · simp only [hx, true_or, iff_true]
    exact mem_iff.mpr ⟨event, h.new.byId.mpr ⟨by simp, rfl⟩⟩
  · rw [(h.sameAt hx).mem_byId, h.mem_byId, or_iff_right hx]

theorem parents_eq (hx : x ∈ core.known) : k.parents x = core.parents x :=
  parents_stored h.sound h.listed h.old hx

theorem parents_known (hx : x ∈ core.known) (hy : y ∈ k.parents x) : y ∈ core.known :=
  h.sound.closed x hx y (h.parents_eq hx ▸ hy)

theorem parents_event : k'.parents event.eventId = event.content.parents := by
  have hevent : k'.byId[event.eventId]? = some event := h.new.byId.mpr ⟨by simp, rfl⟩
  rw [Candidates.parents, hevent]

theorem mem_parents_event : y ∈ k'.parents event.eventId ↔ IsHead core.parents core.knownSet y := by
  rw [h.parents_event]
  exact mem_heads h.sound h.atHeads

theorem parent_known (hy : y ∈ k'.parents event.eventId) : y ∈ core.known :=
  (h.mem_parents_event.mp hy).1

theorem grounded (hx : x ∈ core.known) : Grounded k'.parents x :=
  (h.sound.grounded x hx).congr h.sound.closed
    (fun y hy => by rw [(h.sameAt (h.ne_of_known hy)).parents_eq, h.parents_eq hy]) hx

theorem grounded_event : Grounded k'.parents event.eventId :=
  grounded_of_parents fun _ hp => h.grounded (h.parent_known hp)

theorem mem_order' (hx : x ∈ k'.payloads) : x ∈ k'.order := by
  refine mem_order.mpr ⟨hx, Rounds.low_of_acc ?_⟩
  rcases h.mem_byId'.mp (h.proper'.known x hx) with rfl | hknown
  · exact h.grounded_event
  · exact h.grounded hknown

theorem mem_order_old (hx : x ∈ k.payloads) : x ∈ k.order :=
  mem_order_stored h.sound h.listed h.old hx (h.mem_byId.mp (h.proper.known x hx))

/-- A set that holds the tips and the known parents of its members holds every known id. -/
theorem mem_of_closed {S : Set EventId} (htips : ∀ y ∈ k'.parents event.eventId, y ∈ S)
    (hclosed : ∀ z ∈ core.known, z ∈ S → ∀ y ∈ core.parents z, y ∈ S) (hx : x ∈ core.known) :
    x ∈ S := by
  obtain ⟨head, hhead, hreach⟩ := exists_head CoreNode.knownSet_finite h.sound.grounded hx
  have hset : Closed core.parents {z | z ∈ core.known ∧ z ∈ S} := fun z hz y hy =>
    ⟨h.sound.closed z hz.1 y hy, hclosed z hz.1 hz.2 y hy⟩
  exact (hset.reaches hreach ⟨hhead.1, htips head (h.mem_parents_event.mpr hhead)⟩).2

theorem accepted_known (hx : x ∈ (k.final C).acceptedInOrder) : x ∈ core.known :=
  h.mem_byId.mp (h.proper.known x (mem_order.mp ((judged_final h.proper).subset_order hx)).1)

/-- When everything decodes, the event at the tips is taken last. -/
theorem order_eq (hpayloads : ∀ x ∈ core.known, x ∈ k'.payloads)
    (hevent : event.eventId ∈ k'.payloads) :
    ∃ done, k'.order = done ++ [event.eventId] ∧ ∀ x, x ∈ done ↔ x ∈ core.known := by
  obtain ⟨done, rest, hsplit, hdone, hrest⟩ := order_split (h.mem_order' hevent)
  have hknown : ∀ x ∈ core.known, x ∈ done := fun x hx => by
    refine h.mem_of_closed (S := {z | z ∈ done}) (fun y hy => ?_) (fun z hz hmem y hy => ?_) hx
    · exact parent_done hsplit hy (hpayloads y (h.parent_known hy))
    · have hparent : y ∈ k'.parents z := by
        rwa [(h.sameAt (h.ne_of_known hz)).parents_eq, h.parents_eq hz]
      exact done_closed hsplit hmem hparent (hpayloads y (h.sound.closed z hz y hy))
  have hmem : ∀ x ∈ k'.order, x = event.eventId ∨ x ∈ core.known := fun x hx =>
    h.mem_byId'.mp (h.proper'.known x (mem_order.mp hx).1)
  have hnodup := k'.order_nodup
  rw [hsplit] at hmem hnodup
  have hnil : rest = [] := by
    apply List.eq_nil_iff_forall_not_mem.mpr
    intro x hx
    rcases hmem x (by simp [hx]) with rfl | hold
    · exact hrest hx
    · exact (List.nodup_append.mp hnodup).2.2 x (hknown x hold) x (by simp [hx]) rfl
  refine ⟨done, by rw [hsplit, hnil], fun x => ⟨fun hx => ?_, hknown x⟩⟩
  exact (hmem x (by simp [hx])).resolve_left fun heq => hdone (heq ▸ hx)

section Accepted

variable (haccepted : event.eventId ∈ (k'.final C).acceptedInOrder)
include haccepted

theorem all_accepted (hx : x ∈ core.known) : x ∈ (k'.final C).acceptedInOrder := by
  have hjudged := judged_final (C := C) h.proper'
  refine h.mem_of_closed (S := {z | z ∈ (k'.final C).acceptedInOrder}) (fun y hy => ?_)
    (fun z hz hmem y hy => ?_) hx
  · exact hjudged.closed haccepted y hy
  · refine hjudged.closed hmem y ?_
    rwa [(h.sameAt (h.ne_of_known hz)).parents_eq, h.parents_eq hz]

theorem payload_of_known (hx : x ∈ core.known) : x ∈ k'.payloads :=
  (mem_order.mp ((judged_final h.proper').subset_order (h.all_accepted haccepted hx))).1

theorem acceptedInOrder_snoc : (k'.final C).acceptedInOrder =
    (k.final C).acceptedInOrder ++ [event.eventId] := by
  obtain ⟨done, hsplit, hdone⟩ := h.order_eq (fun _ hx => h.payload_of_known haccepted hx)
    (mem_order.mp ((judged_final h.proper').subset_order haccepted)).1
  have hold := judged_final (C := C) h.proper
  have hnew := judged_final (C := C) h.proper'
  have hsame : ∀ x ∈ (k.final C).acceptedInOrder, SameAt k k' x := fun x hx =>
    h.sameAt (h.ne_of_known (h.accepted_known hx))
  have hagree := hold.agree hsame hnew hsplit fun x hx _ =>
    h.sameAt (h.ne_of_known ((hdone x).mp hx))
  apply eq_of_sorted hnew.sorted
  · refine List.pairwise_append.mpr ⟨hold.sorted_of_same hsame, List.pairwise_singleton _ _, ?_⟩
    intro x hx y hy
    rw [List.mem_singleton.mp hy]
    exact before_of_done hsplit ((hdone x).mpr (h.accepted_known hx))
  · intro x
    rw [List.mem_append, List.mem_singleton]
    constructor
    · intro hx
      have horder := hnew.subset_order hx
      rw [hsplit, List.mem_append, List.mem_singleton] at horder
      exact horder.imp_left fun hmem => (hagree x hmem).mpr hx
    · rintro (hx | rfl)
      · exact (hagree x ((hdone x).mpr (h.accepted_known hx))).mp hx
      · exact haccepted

theorem stored_accepted (hx : x ∈ core.known) : x ∈ (k.final C).acceptedInOrder := by
  have hmem := h.all_accepted haccepted hx
  rw [h.acceptedInOrder_snoc haccepted, List.mem_append, List.mem_singleton] at hmem
  exact hmem.resolve_right (h.ne_of_known hx)

end Accepted

theorem acceptedInOrder_same (hrefused : event.eventId ∉ (k'.final C).acceptedInOrder) :
    (k'.final C).acceptedInOrder = (k.final C).acceptedInOrder := by
  refine ((judged_final h.proper).eq_of_same (fun x hx => ?_) (judged_final h.proper')
    fun x hx => ?_).symm
  · have horder := (judged_final h.proper).subset_order hx
    exact h.sameAt (h.ne_of_known (h.mem_byId.mp (h.proper.known x (mem_order.mp horder).1)))
  · exact h.sameAt fun heq => hrefused (heq ▸ hx)

/-- What was rejected stays so, for the same reason. -/
theorem rejected_eq (hx : x ∈ core.known) :
    (k'.resolve C).rejected[x]? = (k.resolve C).rejected[x]? := by
  by_cases haccepted : event.eventId ∈ (k'.final C).acceptedInOrder
  · have hnew : x ∉ (k'.resolve C).rejected := fun hr =>
      ((mem_rejected h.proper').mp hr).2 (by
        rw [resolve_acceptedInOrder]
        exact h.all_accepted haccepted hx)
    have hold : x ∉ (k.resolve C).rejected := fun hr =>
      ((mem_rejected h.proper).mp hr).2 (by
        rw [resolve_acceptedInOrder]
        exact h.stored_accepted haccepted hx)
    rw [not_mem_map.mp hnew, not_mem_map.mp hold]
  · have hsame := h.sameAt (h.ne_of_known hx)
    rw [resolve_rejected h.proper', resolve_rejected h.proper, resolve_acceptedInOrder,
      resolve_acceptedInOrder, h.acceptedInOrder_same haccepted]
    have hverdict : k'.verdict C (k.final C).acceptedInOrder x =
        k.verdict C (k.final C).acceptedInOrder x := by
      refine verdict_eq_of_known (judged_final h.proper).rooted (fun y hy => ?_) hsame
        fun parent hp => ?_
      · rw [← h.acceptedInOrder_same haccepted] at hy
        exact h.sameAt fun heq => haccepted (heq ▸ hy)
      · rw [h.mem_byId', h.mem_byId, or_iff_right (h.ne_of_known (h.parents_known hx hp))]
    by_cases hpayload : x ∈ k.payloads
    · have hpayload' := hsame.mem_payloads.mpr hpayload
      have horder := h.mem_order_old hpayload
      have horder' := h.mem_order' hpayload'
      simp only [refusal, hpayload, hpayload', horder, horder', hverdict, not_true_eq_false,
        if_false]
    · have hpayload' : x ∉ k'.payloads := fun hmem => hpayload (hsame.mem_payloads.mp hmem)
      simp only [refusal, hpayload, hpayload', not_false_eq_true, if_true, hsame.rejected]

end AtTips

theorem exists_atTips {stored : List SignedEvent} (J : PayloadReader) (hcore : core.Sound C)
    (hstored : core.allEvents C = .ok stored) (hvalid : event.Valid C)
    (hfresh : event.eventId ∉ core.known) (hheads : core.heads C = .ok event.content.parents) :
    ∃ k k', resolve C J stored = .ok (k.resolve C) ∧
      resolve C J (stored ++ [event]) = .ok (k'.resolve C) ∧
      AtTips C J core stored event k k' := by
  obtain ⟨k, hcollect, hk⟩ := candidates_spec (J := J) (stored_valid hcore hstored)
    (unambiguous_stored hcore hstored)
  have hall : ∀ e ∈ stored ++ [event], e.Valid C := fun e he => by
    rcases List.mem_append.mp he with he | he
    · exact stored_valid hcore hstored e he
    · exact List.mem_singleton.mp he ▸ hvalid
  obtain ⟨k', hcollect', hk'⟩ := candidates_spec (J := J) hall
    (unambiguous_snoc hcore hstored hfresh)
  exact ⟨k, k', resolve_eq hcollect, resolve_eq hcollect',
    hcore, hstored, hvalid, hfresh, hheads, hk, hk'⟩

/-- An event on top of everything stored is accepted last or not at all, and the decisions on
what is stored do not change. -/
theorem resolve_on_tips {stored : List SignedEvent} (hcore : core.Sound C)
    (hstored : core.allEvents C = .ok stored) (hvalid : event.Valid C)
    (hfresh : event.eventId ∉ core.known) (hheads : core.heads C = .ok event.content.parents) :
    ∃ old new, resolve C J stored = .ok old ∧ resolve C J (stored ++ [event]) = .ok new ∧
      (new.acceptedInOrder = old.acceptedInOrder ∨
        new.acceptedInOrder = old.acceptedInOrder ++ [event.eventId]) ∧
      ∀ id ∈ core.known, new.rejected[id]? = old.rejected[id]? := by
  obtain ⟨k, k', hold, hnew, h⟩ := exists_atTips J hcore hstored hvalid hfresh hheads
  refine ⟨k.resolve C, k'.resolve C, hold, hnew, ?_, fun id hid => h.rejected_eq hid⟩
  rw [resolve_acceptedInOrder, resolve_acceptedInOrder]
  by_cases haccepted : event.eventId ∈ (k'.final C).acceptedInOrder
  · exact Or.inr (h.acceptedInOrder_snoc haccepted)
  · exact Or.inl (h.acceptedInOrder_same haccepted)

open Sample in
theorem resolve_on_tips_brawl : ∃ old new, resolve crypto brawlReader brawlStored = .ok old ∧
    resolve crypto brawlReader (brawlStored ++ [greeting]) = .ok new ∧
      (new.acceptedInOrder = old.acceptedInOrder ∨
        new.acceptedInOrder = old.acceptedInOrder ++ [greeting.eventId]) ∧
      ∀ id ∈ brawlNode.known, new.rejected[id]? = old.rejected[id]? :=
  resolve_on_tips brawlNode_sound brawl_listed (brawl_valid greeting (by simp)) greeting_fresh
    brawl_heads

end ChatCommons
