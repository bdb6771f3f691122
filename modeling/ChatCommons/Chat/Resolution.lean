import ChatCommons.Chat.Judged
import ChatCommons.Sample.Brawl

/-!
What `resolve` returns, in terms of the decisions on the single events, and what the
rejected events have to do with it: nothing.
-/

namespace ChatCommons

open Collections Candidates

variable {C : Crypto} {J : PayloadReader} {k k' : Candidates} {events others : List SignedEvent}
  {x : EventId}

section Rejected

theorem getElem?_rejectPending (r : Resolver) (x : EventId) : (rejectPending r)[x]? =
    if x ∈ r.pending then some .missingParent else r.rejected[x]? := by
  rw [rejectPending, getElem?_foldl_insert (fun id => id), List.map_id']
  simp only [Std.ExtTreeSet.mem_toList]

theorem mem_final_pending : x ∈ (k.final C).pending ↔ x ∈ k.payloads ∧ x ∉ k.order := by
  rw [Candidates.final, foldl_evaluate_pending, mem_foldl_erase, Candidates.start, mem_keySet]

/-- Why `x` is not accepted when `ids` are. -/
noncomputable def Candidates.refusal (C : Crypto) (k : Candidates) (ids : List EventId)
    (x : EventId) : Option RejectionReason :=
  if x ∉ k.payloads then k.rejected[x]?
  else if x ∉ k.order then some .missingParent
  else
    match k.verdict C ids x with
    | .ok _ => none
    | .error reason => some reason

theorem resolve_rejected (hk : k.Proper) : (k.resolve C).rejected[x]? =
    k.refusal C (k.resolve C).acceptedInOrder x := by
  rw [resolve_eq_final, getElem?_rejectPending, refusal]
  simp only [mem_final_pending]
  by_cases hpayload : x ∈ k.payloads
  · by_cases horder : x ∈ k.order
    · simp only [hpayload, horder, not_true_eq_false, and_false, if_false]
      exact final_rejected hk horder
    · simp only [hpayload, horder, not_true_eq_false, not_false_eq_true, and_true, if_false,
        if_true]
  · have horder : x ∉ k.order := fun h => hpayload (mem_order.mp h).1
    simp only [hpayload, false_and, not_false_eq_true, if_false, if_true]
    exact final_rejected_outside horder

theorem mem_accepted (hk : k.Proper) : x ∈ (k.resolve C).acceptedInOrder ↔
    x ∈ k.order ∧ k.verdict C (k.resolve C).acceptedInOrder x = .ok () := by
  rw [resolve_acceptedInOrder]
  exact (judged_final hk).accepted x

theorem mem_rejected (hk : k.Proper) : x ∈ (k.resolve C).rejected ↔
    x ∈ k.byId ∧ x ∉ (k.resolve C).acceptedInOrder := by
  have hmem := mem_accepted (C := C) (x := x) hk
  rw [mem_iff, resolve_rejected hk, refusal, hmem]
  by_cases hpayload : x ∈ k.payloads
  · have hknown := hk.known x hpayload
    by_cases horder : x ∈ k.order
    · cases hverdict : k.verdict C (k.resolve C).acceptedInOrder x <;>
        simp [hpayload, horder, hknown]
    · simp [hpayload, horder, hknown]
  · have horder : x ∉ k.order := fun h => hpayload (mem_order.mp h).1
    simp only [hpayload, horder, not_false_eq_true, if_true, false_and, and_true]
    constructor
    · rintro ⟨reason, hreason⟩
      exact (hk.invalid hreason).1
    · intro hknown
      exact mem_iff.mp ((hk.payloads x hknown).resolve_left hpayload)

end Rejected

theorem resolve_snapshot (hk : k.Complete) : (k.resolve C).snapshot = Resolver.snapshot
    { rejected := ∅
      pending := ∅
      state := k.stateAfter C (k.resolve C).acceptedInOrder
      accepted := setOf (k.resolve C).acceptedInOrder } := by
  have hfinal := evaluated_final (C := C) hk
  rw [resolve_eq_final]
  dsimp only
  rw [hfinal.trace.stateAfter_eq, ← hfinal.accepted_eq]
  rfl

section Same

theorem Describes.sameAt (hk : Describes C J events k) (hk' : Describes C J others k')
    (h : ∀ event, event.eventId = x → (event ∈ others ↔ event ∈ events)) : SameAt k k' x where
  byId := by
    apply Option.ext
    intro event
    rw [hk.byId, hk'.byId]
    exact and_congr_left fun hid => h event hid
  payloads := by
    apply Option.ext
    intro payload
    rw [hk.payloads, hk'.payloads]
    exact exists_congr fun event =>
      ⟨fun ⟨hmem, hid, hdecode⟩ => ⟨(h event hid).mp hmem, hid, hdecode⟩,
        fun ⟨hmem, hid, hdecode⟩ => ⟨(h event hid).mpr hmem, hid, hdecode⟩⟩
  authors := by
    apply Option.ext
    intro author
    rw [hk.authors, hk'.authors]
    exact exists_congr fun event =>
      ⟨fun ⟨hmem, hid, hauthor⟩ => ⟨(h event hid).mp hmem, hid, hauthor⟩,
        fun ⟨hmem, hid, hauthor⟩ => ⟨(h event hid).mpr hmem, hid, hauthor⟩⟩
  rejected := by
    apply Option.ext
    intro reason
    rw [hk.rejected, hk'.rejected]
    refine and_congr_right fun _ => exists_congr fun event => ?_
    exact ⟨fun ⟨hmem, hid, herror⟩ => ⟨(h event hid).mp hmem, hid, herror⟩,
      fun ⟨hmem, hid, herror⟩ => ⟨(h event hid).mpr hmem, hid, herror⟩⟩

/-- The same is accepted among candidates that agree on what either of them accepts. -/
theorem acceptedInOrder_eq (hk : k.Proper) (hk' : k'.Proper)
    (h : ∀ x ∈ (k.resolve C).acceptedInOrder, SameAt k k' x)
    (h' : ∀ x ∈ (k'.resolve C).acceptedInOrder, SameAt k k' x) :
    (k.resolve C).acceptedInOrder = (k'.resolve C).acceptedInOrder := by
  rw [resolve_acceptedInOrder] at h
  rw [resolve_acceptedInOrder] at h'
  rw [resolve_acceptedInOrder, resolve_acceptedInOrder]
  exact (judged_final hk).eq_of_same h (judged_final hk') h'

theorem snapshot_eq (hk : k.Complete) (hk' : k'.Complete)
    (haccepted : (k.resolve C).acceptedInOrder = (k'.resolve C).acceptedInOrder)
    (h : ∀ x ∈ (k.resolve C).acceptedInOrder, SameAt k k' x) :
    (k'.resolve C).snapshot = (k.resolve C).snapshot := by
  rw [resolve_snapshot hk, resolve_snapshot hk', ← haccepted, stateAfter_eq_of_same h]

end Same

/-- Without any of the rejected events, the same is accepted, and what is left of them is still
rejected. -/
theorem resolve_without_rejected {resolution : ChatResolution} {removed : BTreeSet EventId}
    (hvalid : ∀ event ∈ events, event.Valid C) (hinj : Unambiguous events)
    (hresolve : resolve C J events = .ok resolution)
    (hremoved : ∀ id ∈ removed, id ∈ resolution.rejected) :
    ∃ smaller, resolve C J (events.filter fun event => event.eventId ∉ removed) = .ok smaller ∧
      smaller.acceptedInOrder = resolution.acceptedInOrder ∧
      smaller.snapshot = resolution.snapshot ∧
      ∀ id ∈ resolution.rejected, id ∉ removed → id ∈ smaller.rejected := by
  obtain ⟨k, hcollect, hk⟩ := candidates_spec (J := J) hvalid hinj
  have hsub : ∀ event ∈ events.filter fun event => event.eventId ∉ removed, event ∈ events :=
    fun event he => List.mem_of_mem_filter he
  obtain ⟨k', hcollect', hk'⟩ := candidates_spec (J := J)
    (fun event he => hvalid event (hsub event he)) (hinj.mono hsub)
  obtain rfl := Except.ok.inj ((resolve_eq hcollect).symm.trans hresolve)
  have hproper := hk.proper hvalid hinj
  have hproper' := hk'.proper (fun event he => hvalid event (hsub event he)) (hinj.mono hsub)
  have hsame : ∀ x, x ∉ removed → SameAt k k' x := fun x hx =>
    hk.sameAt hk' fun event hid => by simp [hid, hx]
  have hkept : ∀ x ∈ (k.resolve C).acceptedInOrder, x ∉ removed := fun x hx hr =>
    ((mem_rejected hproper).mp (hremoved x hr)).2 hx
  have hkept' : ∀ x ∈ k'.byId, x ∉ removed := fun x hx => by
    obtain ⟨event, hevent⟩ := mem_iff.mp hx
    obtain ⟨hmem, rfl⟩ := hk'.byId.mp hevent
    simpa using List.of_mem_filter hmem
  have haccepted : (k.resolve C).acceptedInOrder = (k'.resolve C).acceptedInOrder :=
    acceptedInOrder_eq hproper hproper' (fun x hx => hsame x (hkept x hx)) fun x hx =>
      hsame x (hkept' x (hproper'.known x (mem_order.mp ((mem_accepted hproper').mp hx).1).1))
  refine ⟨k'.resolve C, resolve_eq hcollect', haccepted.symm, ?_, fun id hid hnot => ?_⟩
  · exact snapshot_eq hproper.toComplete hproper'.toComplete haccepted fun x hx =>
      hsame x (hkept x hx)
  · obtain ⟨hknown, hrefused⟩ := (mem_rejected hproper).mp hid
    rw [mem_rejected hproper', ← haccepted, (hsame id hnot).mem_byId]
    exact ⟨hknown, hrefused⟩

open Sample in
theorem resolve_without_rejected_brawl : ∃ resolution,
    resolve crypto brawlReader (brawlStored ++ [greeting]) = .ok resolution ∧
      ∃ smaller, resolve crypto brawlReader ((brawlStored ++ [greeting]).filter
          fun event => event.eventId ∉ (setOf [garbled.eventId])) = .ok smaller ∧
        smaller.acceptedInOrder = resolution.acceptedInOrder ∧
        smaller.snapshot = resolution.snapshot ∧
        ∀ id ∈ resolution.rejected, id ∉ setOf [garbled.eventId] → id ∈ smaller.rejected := by
  obtain ⟨resolution, hresolve, hgarbled, _⟩ := greeting_resolved
  refine ⟨resolution, hresolve, resolve_without_rejected brawl_valid
    (List.inj_on_of_nodup_map brawl_ids_nodup) hresolve fun id hid => ?_⟩
  rw [mem_setOf, List.mem_singleton] at hid
  exact hid ▸ hgarbled

end ChatCommons
