import ChatCommons.Chat.Candidates
import ChatCommons.General.Rounds

/-!
The loop of the resolver is one pass over the candidates in a fixed order, and the
accepted events are a trace in which each was valid in the state before it.
-/

namespace ChatCommons

open Collections

variable (C : Crypto) (k : Candidates)

def Candidates.order : List EventId := Rounds.fullOrder k.parents k.sortKey (keySet k.payloads)

def Candidates.final : Resolver := k.order.foldl (evaluate C k) k.start

/-- The event `id` is valid in `state`, after the ids of `accepted`, and leads to `state'`. -/
def Admits (state : State) (accepted : BTreeSet EventId) (id : EventId) (state' : State) : Prop :=
  ∃ event payload author, k.byId[id]? = some event ∧ k.payloads[id]? = some payload ∧
    k.authors[id]? = some author ∧
    validateContext C state event payload author accepted = .ok () ∧
    state' = apply C state event payload author

/-- The accepted ids, each after its parents, and the state they lead to. -/
inductive Trace : List EventId → State → Prop
  | nil : Trace [] {}
  | snoc {ids state id state'} : Trace ids state → (∀ parent ∈ k.parents id, parent ∈ ids) →
      Admits C k state (setOf ids) id state' → Trace (ids ++ [id]) state'

variable {C k} {r : Resolver} {id : EventId}

theorem Trace.snoc_inv {ids : List EventId} {state' : State} (h : Trace C k (ids ++ [id]) state') :
    ∃ state, Trace C k ids state ∧ (∀ parent ∈ k.parents id, parent ∈ ids) ∧
      Admits C k state (setOf ids) id state' := by
  generalize hl : ids ++ [id] = l at h
  cases h with
  | nil => simp at hl
  | snoc htrace hparents hadmits =>
    obtain ⟨rfl, hid⟩ := List.append_inj' hl rfl
    obtain rfl := List.singleton_inj.mp hid
    exact ⟨_, htrace, hparents, hadmits⟩

theorem Trace.shorten {ids done : List EventId} {state' : State} (h : Trace C k ids state')
    (hinitial : done <+: ids) : ∃ state, Trace C k done state := by
  obtain ⟨rest, rfl⟩ := hinitial
  induction rest using List.reverseRecOn generalizing state' with
  | nil => exact ⟨state', by simpa using h⟩
  | append_singleton rest id ih =>
    rw [← List.append_assoc] at h
    obtain ⟨_, htrace, _, _⟩ := h.snoc_inv
    exact ih htrace

theorem Trace.parents_mem {ids : List EventId} {state : State} (h : Trace C k ids state)
    (hid : id ∈ ids) : ∀ parent ∈ k.parents id, parent ∈ ids := by
  induction h with
  | nil => cases hid
  | snoc _ hparents _ ih =>
    intro parent hparent
    rcases List.mem_append.mp hid with hid | hid
    · exact List.mem_append_left _ (ih hid parent hparent)
    · obtain rfl := List.mem_singleton.mp hid
      exact List.mem_append_left _ (hparents parent hparent)

theorem sortKey_injective : Function.Injective k.sortKey := fun a b h => by
  simpa [Candidates.sortKey] using congrArg (fun p => (ofLex p).2) h

theorem evaluate_pending : (evaluate C k r id).pending = r.pending.erase id := by
  simp only [evaluate, Resolver.reject]
  split
  · split_ifs
    · rfl
    · rfl
    · split <;> rfl
  · rfl

theorem foldl_evaluate_pending (ids : List EventId) (r : Resolver) :
    (ids.foldl (evaluate C k) r).pending = ids.foldl (fun s id => s.erase id) r.pending := by
  induction ids generalizing r with
  | nil => rfl
  | cons id ids ih => rw [List.foldl_cons, ih, evaluate_pending, List.foldl_cons]

theorem order_nil_of_ready {fuel : ℕ} {pending : BTreeSet EventId}
    (h : Rounds.ready k.parents k.sortKey pending = []) :
    Rounds.order k.parents k.sortKey fuel pending = [] := by
  induction fuel with
  | zero => rfl
  | succ fuel ih => rw [Rounds.order, h]; exact ih

theorem resolveLoop_eq (fuel : ℕ) (r : Resolver) : resolveLoop C k fuel r =
    (Rounds.order k.parents k.sortKey fuel r.pending).foldl (evaluate C k) r := by
  induction fuel generalizing r with
  | zero => rfl
  | succ fuel ih =>
    have hready : ready k r.pending = Rounds.ready k.parents k.sortKey r.pending := rfl
    rw [resolveLoop, Rounds.order, ← hready]
    cases h : ready k r.pending with
    | nil =>
      rw [hready] at h
      exact (congrArg (List.foldl (evaluate C k) r) (order_nil_of_ready h)).symm
    | cons id ids =>
      dsimp only
      rw [ih, List.foldl_append, foldl_evaluate_pending]

theorem resolve_eq_final : k.resolve C =
    { acceptedInOrder := (k.final C).acceptedInOrder
      rejected := rejectPending (k.final C)
      snapshot := (k.final C).snapshot } := by
  have hloop : resolveLoop C k (keySet k.payloads).size k.start = k.final C := resolveLoop_eq _ _
  rw [Candidates.resolve, hloop]

theorem resolve_acceptedInOrder :
    (k.resolve C).acceptedInOrder = (k.final C).acceptedInOrder := by
  rw [resolve_eq_final]

theorem evaluate_cases (r : Resolver) (id : EventId) :
    (∃ state', Admits C k r.state r.accepted id state' ∧
      (∀ parent ∈ k.parents id, parent ∈ k.byId ∧ parent ∉ r.rejected) ∧
      evaluate C k r id = { r with
        pending := r.pending.erase id
        state := state'
        accepted := r.accepted.insert id
        acceptedInOrder := r.acceptedInOrder ++ [id] }) ∨
    (∃ reason, evaluate C k r id = { r with
        pending := r.pending.erase id
        rejected := r.rejected.insert id reason }) ∨
    ((k.byId[id]? = none ∨ k.payloads[id]? = none ∨ k.authors[id]? = none) ∧
      evaluate C k r id = { r with pending := r.pending.erase id }) := by
  cases hevent : k.byId[id]? with
  | none => exact Or.inr (Or.inr ⟨Or.inl rfl, by simp [evaluate, hevent]⟩)
  | some event =>
    cases hpayload : k.payloads[id]? with
    | none => exact Or.inr (Or.inr ⟨Or.inr (Or.inl rfl), by simp [evaluate, hpayload]⟩)
    | some payload =>
      cases hauthor : k.authors[id]? with
      | none => exact Or.inr (Or.inr ⟨Or.inr (Or.inr rfl), by simp [evaluate, hauthor]⟩)
      | some author =>
        have hparents : k.parents id = event.content.parents := by
          simp [Candidates.parents, hevent]
        simp only [evaluate, hevent, hpayload, hauthor, Resolver.reject, hparents]
        split_ifs with hmissing hrejected
        · exact Or.inr (Or.inl ⟨_, rfl⟩)
        · exact Or.inr (Or.inl ⟨_, rfl⟩)
        · cases hvalid : validateContext C r.state event payload author r.accepted with
          | error reason => exact Or.inr (Or.inl ⟨_, rfl⟩)
          | ok u =>
            refine Or.inl ⟨_, ⟨event, payload, author, hevent, hpayload, hauthor, hvalid, rfl⟩,
              fun parent hp => ?_, rfl⟩
            simp only [List.any_eq_true, decide_eq_true_eq, not_exists, not_and] at hmissing hrejected
            exact ⟨not_not.mp (hmissing parent hp), hrejected parent hp⟩

structure Evaluated (C : Crypto) (k : Candidates) (done : List EventId) (r : Resolver) : Prop where
  trace : Trace C k r.acceptedInOrder r.state
  accepted : ∀ id, id ∈ r.accepted ↔ id ∈ r.acceptedInOrder
  sublist : r.acceptedInOrder.Sublist done
  decided : ∀ id ∈ done, id ∈ k.byId → id ∈ k.payloads → id ∈ k.authors →
    id ∈ r.acceptedInOrder ∨ id ∈ r.rejected
  rejected : ∀ id ∈ r.rejected, id ∈ k.rejected ∨ id ∈ done ∧ id ∉ r.acceptedInOrder
  kept : ∀ id ∈ k.rejected, id ∈ r.rejected

theorem Evaluated.start : Evaluated C k [] k.start where
  trace := .nil
  accepted id := by simp [Candidates.start]
  sublist := List.Sublist.refl _
  decided id h := by cases h
  rejected id h := Or.inl h
  kept id h := h

theorem Evaluated.accepted_eq {done : List EventId} (h : Evaluated C k done r) :
    r.accepted = setOf r.acceptedInOrder :=
  set_ext fun id => by rw [h.accepted, mem_setOf]

theorem Evaluated.parent_accepted {done : List EventId} (hk : k.Complete)
    (h : Evaluated C k done r) {parent : EventId} (hdone : parent ∈ k.payloads → parent ∈ done)
    (hmem : parent ∈ k.byId) (hnot : parent ∉ r.rejected) : parent ∈ r.acceptedInOrder := by
  have hpayload := (hk.payloads parent hmem).resolve_right fun hr => hnot (h.kept parent hr)
  exact (h.decided parent (hdone hpayload) hmem hpayload (hk.authors parent hmem)).resolve_right hnot

theorem Evaluated.step {done : List EventId} (hk : k.Complete) (h : Evaluated C k done r)
    (hid : id ∉ done) (hdone : ∀ parent ∈ k.parents id, parent ∈ k.payloads → parent ∈ done) :
    Evaluated C k (done ++ [id]) (evaluate C k r id) := by
  have hnot : id ∉ r.acceptedInOrder := fun hmem => hid (h.sublist.subset hmem)
  have hdecided : ∀ x ∈ done ++ [id], x ≠ id → x ∈ done := fun x hx hne => by
    rcases List.mem_append.mp hx with hx | hx
    · exact hx
    · exact absurd (List.mem_singleton.mp hx) hne
  rcases evaluate_cases (C := C) (k := k) r id with
    ⟨state', hadmits, hparents, heq⟩ | ⟨reason, heq⟩ | ⟨hnone, heq⟩
  · rw [heq]
    rw [h.accepted_eq] at hadmits
    have hrooted : ∀ parent ∈ k.parents id, parent ∈ r.acceptedInOrder := fun parent hp =>
      h.parent_accepted hk (hdone parent hp) (hparents parent hp).1 (hparents parent hp).2
    refine ⟨.snoc h.trace hrooted hadmits, fun x => ?_, h.sublist.append (List.Sublist.refl _),
      fun x hx h1 h2 h3 => ?_, fun x hx => ?_, h.kept⟩
    · simp only [mem_insert, List.mem_append, List.mem_singleton, h.accepted]
      tauto
    · by_cases hne : x = id
      · exact Or.inl (by simp [hne])
      · exact (h.decided x (hdecided x hx hne) h1 h2 h3).imp_left (List.mem_append_left _)
    · rcases h.rejected x hx with hx | ⟨hx, hnot'⟩
      · exact Or.inl hx
      · refine Or.inr ⟨List.mem_append_left _ hx, fun hmem => ?_⟩
        rcases List.mem_append.mp hmem with hmem | hmem
        · exact hnot' hmem
        · exact hid (List.mem_singleton.mp hmem ▸ hx)
  · rw [heq]
    refine ⟨h.trace, h.accepted, h.sublist.trans (List.sublist_append_left _ _),
      fun x hx h1 h2 h3 => ?_, fun x hx => ?_, fun x hx => mem_map_insert.mpr (Or.inr (h.kept x hx))⟩
    · by_cases hne : x = id
      · exact Or.inr (mem_map_insert.mpr (Or.inl hne))
      · exact (h.decided x (hdecided x hx hne) h1 h2 h3).imp_right
          fun h => mem_map_insert.mpr (Or.inr h)
    · rcases mem_map_insert.mp hx with rfl | hx
      · exact Or.inr ⟨by simp, hnot⟩
      · exact (h.rejected x hx).imp_right fun h => ⟨List.mem_append_left _ h.1, h.2⟩
  · rw [heq]
    refine ⟨h.trace, h.accepted, h.sublist.trans (List.sublist_append_left _ _),
      fun x hx h1 h2 h3 => ?_, fun x hx => ?_, h.kept⟩
    · by_cases hne : x = id
      · subst hne
        rw [mem_iff] at h1 h2 h3
        obtain ⟨_, h1⟩ := h1
        obtain ⟨_, h2⟩ := h2
        obtain ⟨_, h3⟩ := h3
        simp [h1, h2, h3] at hnone
      · exact h.decided x (hdecided x hx hne) h1 h2 h3
    · exact (h.rejected x hx).imp_right fun h => ⟨List.mem_append_left _ h.1, h.2⟩

theorem evaluated_upto (hk : k.Complete) {done rest : List EventId}
    (hsplit : k.order = done ++ rest) :
    Evaluated C k done (done.foldl (evaluate C k) k.start) := by
  induction done using List.reverseRecOn generalizing rest with
  | nil => exact .start
  | append_singleton done id ih =>
    rw [List.append_assoc] at hsplit
    have hnodup : k.order.Nodup := Rounds.fullOrder_nodup sortKey_injective
    have hnot : id ∉ done := fun hmem => by
      rw [hsplit] at hnodup
      exact (List.nodup_append.mp hnodup).2.2 id hmem id (by simp) rfl
    have hdone : ∀ parent ∈ k.parents id, parent ∈ k.payloads → parent ∈ done :=
      fun parent hp hmem =>
        Rounds.parent_done sortKey_injective hsplit hp (mem_keySet.mpr hmem)
    rw [List.foldl_append, List.foldl_cons, List.foldl_nil]
    exact (ih hsplit).step hk hnot hdone

theorem evaluated_final (hk : k.Complete) : Evaluated C k k.order (k.final C) :=
  evaluated_upto hk (List.append_nil _).symm

end ChatCommons
