import ChatCommons.Chat.Governance

/-!
The pass over the candidates decides each event by the accepted events that stand
before it, and by nothing else; the accepted events are determined by that.
-/

namespace ChatCommons

open Collections

variable {C : Crypto} {J : PayloadReader} {k : Candidates} {events : List SignedEvent}
  {ids others done rest : List EventId} {x y : EventId}

/-- What events of distinct ids are collected into. -/
structure Candidates.Proper (k : Candidates) : Prop extends k.Complete where
  known : ∀ id ∈ k.payloads, id ∈ k.byId
  decoded : ∀ id ∈ k.payloads, id ∉ k.rejected
  invalid : ∀ {id : EventId} {reason : RejectionReason}, k.rejected[id]? = some reason →
    id ∈ k.byId ∧ reason = .invalidPayload

theorem Describes.proper (hvalid : ∀ event ∈ events, event.Valid C) (hinj : Unambiguous events)
    (h : Describes C J events k) : k.Proper where
  authors id hid := by
    obtain ⟨event, hevent⟩ := mem_iff.mp hid
    obtain ⟨hmem, heq⟩ := h.byId.mp hevent
    obtain ⟨author, hauthor⟩ := (hvalid event hmem).authorId_eq
    exact mem_iff.mpr ⟨author, h.authors.mpr ⟨event, hmem, heq, hauthor⟩⟩
  payloads id hid := by
    obtain ⟨event, hevent⟩ := mem_iff.mp hid
    obtain ⟨hmem, heq⟩ := h.byId.mp hevent
    cases hdecode : decode J event with
    | ok payload => exact Or.inl (mem_iff.mpr ⟨payload, h.payloads.mpr ⟨event, hmem, heq, hdecode⟩⟩)
    | error error =>
      exact Or.inr (mem_iff.mpr ⟨_, h.rejected.mpr ⟨rfl, event, hmem, heq, error, hdecode⟩⟩)
  known id hid := by
    obtain ⟨payload, hpayload⟩ := mem_iff.mp hid
    obtain ⟨event, hmem, heq, _⟩ := h.payloads.mp hpayload
    exact mem_iff.mpr ⟨event, h.byId.mpr ⟨hmem, heq⟩⟩
  decoded id hid hrejected := by
    obtain ⟨payload, hpayload⟩ := mem_iff.mp hid
    obtain ⟨reason, hreason⟩ := mem_iff.mp hrejected
    obtain ⟨event, hmem, heq, hdecode⟩ := h.payloads.mp hpayload
    obtain ⟨_, other, hmem', heq', error, herror⟩ := h.rejected.mp hreason
    rw [hinj hmem hmem' (heq.trans heq'.symm), herror] at hdecode
    cases hdecode
  invalid hreason := by
    obtain ⟨hreason, event, hmem, heq, _⟩ := h.rejected.mp hreason
    exact ⟨mem_iff.mpr ⟨event, h.byId.mpr ⟨hmem, heq⟩⟩, hreason⟩

namespace Candidates

def Before (k : Candidates) (x y : EventId) : Prop :=
  Rounds.Before k.parents k.sortKey (keySet k.payloads) x y

theorem Before.asymm (h : k.Before x y) : ¬ k.Before y x := Rounds.Before.asymm h

theorem Before.irrefl : ¬ k.Before x x := fun h => h.asymm h

theorem order_pairwise : k.order.Pairwise k.Before := Rounds.fullOrder_pairwise sortKey_injective

theorem order_nodup : k.order.Nodup := Rounds.fullOrder_nodup sortKey_injective

theorem mem_order : x ∈ k.order ↔
    x ∈ k.payloads ∧ ∃ n, Rounds.Low k.parents (keySet k.payloads) n x := by
  rw [order, Rounds.mem_fullOrder, mem_keySet]

theorem parent_done (h : k.order = done ++ x :: rest) (hy : y ∈ k.parents x)
    (hmem : y ∈ k.payloads) : y ∈ done :=
  Rounds.parent_done sortKey_injective h hy (mem_keySet.mpr hmem)

theorem done_closed (h : k.order = done ++ rest) (hx : x ∈ done) (hy : y ∈ k.parents x)
    (hmem : y ∈ k.payloads) : y ∈ done := by
  obtain ⟨past, between, rfl⟩ := List.append_of_mem hx
  rw [List.append_assoc, List.cons_append] at h
  exact List.mem_append_left _ (parent_done h hy hmem)

theorem before_of_done (h : k.order = done ++ x :: rest) (hy : y ∈ done) : k.Before y x := by
  have hpair := k.order_pairwise
  rw [h] at hpair
  exact (List.pairwise_append.mp hpair).2.2 y hy x (by simp)

theorem done_of_before (h : k.order = done ++ x :: rest) (hy : y ∈ k.order) (hyx : k.Before y x) :
    y ∈ done := by
  have hpair := k.order_pairwise
  rw [h] at hpair hy
  rcases List.mem_append.mp hy with hy | hy
  · exact hy
  · rcases List.mem_cons.mp hy with rfl | hy
    · exact absurd hyx Before.irrefl
    · exact absurd hyx ((List.pairwise_cons.mp (List.pairwise_append.mp hpair).2.1).1 y hy).asymm

open Classical in
noncomputable def earlier (k : Candidates) (ids : List EventId) (x : EventId) : List EventId :=
  ids.filter fun y => k.Before y x

theorem mem_earlier : y ∈ k.earlier ids x ↔ y ∈ ids ∧ k.Before y x := by
  simp [earlier]

/-- The decision on `x` when `ids` are the accepted events. -/
noncomputable def verdict (C : Crypto) (k : Candidates) (ids : List EventId) (x : EventId) :
    Except RejectionReason Unit :=
  if (k.parents x).any fun parent => parent ∉ k.byId then .error .missingParent
  else if (k.parents x).any fun parent => parent ∉ ids then .error .parentRejected
  else
    match k.byId[x]?, k.payloads[x]?, k.authors[x]? with
    | some event, some payload, some author =>
      validateContext C (k.stateAfter C (k.earlier ids x)) event payload author
        (setOf (k.earlier ids x))
    | _, _, _ => .ok ()

theorem parents_of_verdict (h : k.verdict C ids x = .ok ()) :
    ∀ parent ∈ k.parents x, parent ∈ k.byId ∧ parent ∈ ids := by
  unfold verdict at h
  split_ifs at h with hmissing hrejected
  simp only [List.any_eq_true, decide_eq_true_eq, not_exists, not_and, not_not] at hmissing hrejected
  exact fun parent hp => ⟨hmissing parent hp, hrejected parent hp⟩

end Candidates

section Pass

open Candidates

theorem foldl_accepted (l : List EventId) (r : Resolver) : ∃ more : List EventId,
    (∀ id ∈ more, id ∈ l) ∧
      (l.foldl (evaluate C k) r).acceptedInOrder = r.acceptedInOrder ++ more := by
  induction l generalizing r with
  | nil => exact ⟨[], by simp, (List.append_nil _).symm⟩
  | cons id l ih =>
    obtain ⟨more, hmore, heq⟩ := ih (evaluate C k r id)
    rcases evaluate_cases (C := C) (k := k) r id with ⟨_, _, _, h⟩ | ⟨_, h⟩ | ⟨_, h⟩
    · refine ⟨id :: more, fun z hz => ?_, ?_⟩
      · rcases List.mem_cons.mp hz with rfl | hz
        · simp
        · exact List.mem_cons_of_mem _ (hmore z hz)
      · rw [List.foldl_cons, heq, h, List.append_assoc]
        rfl
    · exact ⟨more, fun z hz => List.mem_cons_of_mem _ (hmore z hz), by rw [List.foldl_cons, heq, h]⟩
    · exact ⟨more, fun z hz => List.mem_cons_of_mem _ (hmore z hz), by rw [List.foldl_cons, heq, h]⟩

theorem foldl_rejected {l : List EventId} (hx : x ∉ l) (r : Resolver) :
    (l.foldl (evaluate C k) r).rejected[x]? = r.rejected[x]? := by
  induction l generalizing r with
  | nil => rfl
  | cons id l ih =>
    rw [List.foldl_cons, ih fun hmem => hx (List.mem_cons_of_mem _ hmem)]
    have hne : id ≠ x := fun heq => hx (by simp [heq])
    rcases evaluate_cases (C := C) (k := k) r id with ⟨_, _, _, h⟩ | ⟨_, h⟩ | ⟨_, h⟩
    · rw [h]
    · rw [h, getElem?_insert, if_neg hne]
    · rw [h]

theorem final_accepted_split (hsplit : k.order = done ++ x :: rest) :
    ∃ more : List EventId, (∀ id ∈ more, id ∈ x :: rest) ∧
    (k.final C).acceptedInOrder =
      (done.foldl (evaluate C k) k.start).acceptedInOrder ++ more := by
  rw [Candidates.final, hsplit, List.foldl_append]
  exact foldl_accepted _ _

theorem accepted_done_iff (hsplit : k.order = done ++ x :: rest) (hy : y ∈ done) :
    y ∈ (k.final C).acceptedInOrder ↔
    y ∈ (done.foldl (evaluate C k) k.start).acceptedInOrder := by
  obtain ⟨more, hmore, heq⟩ := final_accepted_split (C := C) hsplit
  have hnodup := k.order_nodup
  rw [hsplit] at hnodup
  rw [heq, List.mem_append, or_iff_left]
  exact fun hmem => (List.nodup_append.mp hnodup).2.2 y hy y (hmore y hmem) rfl

variable (hk : k.Proper) (hsplit : k.order = done ++ x :: rest)
include hk hsplit

theorem earlier_eq : k.earlier (k.final C).acceptedInOrder x =
    (done.foldl (evaluate C k) k.start).acceptedInOrder := by
  obtain ⟨more, hmore, heq⟩ := final_accepted_split (C := C) hsplit
  have hdone := (evaluated_upto (C := C) hk.toComplete hsplit).sublist
  have hpair := k.order_pairwise
  rw [hsplit] at hpair
  rw [earlier, heq, List.filter_append, List.filter_eq_self.mpr, List.filter_eq_nil_iff.mpr,
    List.append_nil]
  · intro y hy
    rcases List.mem_cons.mp (hmore y hy) with rfl | hmem
    · simpa using Before.irrefl
    · simpa using
        ((List.pairwise_cons.mp (List.pairwise_append.mp hpair).2.1).1 y hmem).asymm
  · intro y hy
    simpa using before_of_done hsplit (hdone.subset hy)

/-- A known parent is accepted in the end or is rejected already. -/
theorem parent_accepted_iff (hy : y ∈ k.parents x) (hmem : y ∈ k.byId) :
    y ∈ (k.final C).acceptedInOrder ↔
      y ∉ (done.foldl (evaluate C k) k.start).rejected := by
  have hdone := evaluated_upto (C := C) hk.toComplete hsplit
  rcases hk.payloads y hmem with hpayload | hrejected
  · have hy' := parent_done hsplit hy hpayload
    rw [accepted_done_iff hsplit hy']
    constructor
    · intro haccepted hrejected
      rcases hdone.rejected y hrejected with h | h
      · exact hk.decoded y hpayload h
      · exact h.2 haccepted
    · exact fun hnot => (hdone.decided y hy' hmem hpayload (hk.authors y hmem)).resolve_right hnot
  · refine ⟨fun haccepted => ?_, fun hnot => absurd (hdone.kept y hrejected) hnot⟩
    have horder := (evaluated_final (C := C) hk.toComplete).sublist.subset haccepted
    exact absurd hrejected (hk.decoded y (mem_order.mp horder).1)

theorem evaluate_verdict : evaluate C k (done.foldl (evaluate C k) k.start) x =
    let r := done.foldl (evaluate C k) k.start
    match k.verdict C (k.final C).acceptedInOrder x with
    | .ok _ => { evaluate C k r x with
        accepted := r.accepted.insert x
        acceptedInOrder := r.acceptedInOrder ++ [x]
        rejected := r.rejected }
    | .error reason => { r with
        pending := r.pending.erase x
        rejected := r.rejected.insert x reason } := by
  have hx : x ∈ k.order := by rw [hsplit]; simp
  have hpayload := (mem_order.mp hx).1
  have hevent := hk.known x hpayload
  have hauthor := hk.authors x hevent
  rw [mem_iff] at hpayload hevent hauthor
  obtain ⟨payload, hpayload⟩ := hpayload
  obtain ⟨event, hevent⟩ := hevent
  obtain ⟨author, hauthor⟩ := hauthor
  have hdone := evaluated_upto (C := C) hk.toComplete hsplit
  have hparents : k.parents x = event.content.parents := by simp [Candidates.parents, hevent]
  have hrejected : event.content.parents.any (fun parent => parent ∉ k.byId) = false →
      event.content.parents.any
          (fun parent => parent ∈ (done.foldl (evaluate C k) k.start).rejected) =
        event.content.parents.any fun parent => parent ∉ (k.final C).acceptedInOrder := by
    intro hmissing
    rw [Bool.eq_iff_iff]
    simp only [List.any_eq_false, List.any_eq_true, decide_eq_true_eq, not_not] at hmissing ⊢
    refine exists_congr fun p => and_congr_right fun hp => ?_
    rw [parent_accepted_iff (C := C) hk hsplit (hparents ▸ hp) (hmissing p hp), not_not]
  simp only [verdict, evaluate, hparents, hevent, hpayload, hauthor, Resolver.reject,
    earlier_eq (C := C) hk hsplit, hdone.trace.stateAfter_eq, hdone.accepted_eq]
  cases hmissing : event.content.parents.any (fun parent => parent ∉ k.byId) with
  | true => simp
  | false =>
    simp only [Bool.false_eq_true, if_false, hrejected hmissing]
    split_ifs
    · rfl
    · cases validateContext C _ event payload author _ <;> rfl

end Pass

end ChatCommons
