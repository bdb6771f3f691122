import Mathlib

/-!
Pre- and postconditions of computations that change a state and may fail; a failure
keeps the state in which it arose.
-/

namespace ChatCommons.Stateful

variable {ε σ α β : Type} {pre mid : σ → Prop} {fails : ε → σ → Prop}

def Triple (pre : σ → Prop) (x : EStateM ε σ α) (post : α → σ → Prop) (fails : ε → σ → Prop) :
    Prop :=
  ∀ s, pre s → match x s with
    | .ok a s' => post a s'
    | .error e s' => fails e s'

/-- From every state of `pre` the computation returns, in a state of `post`. -/
abbrev Returns (pre : σ → Prop) (x : EStateM ε σ α) (post : σ → Prop) : Prop :=
  Triple pre x (fun _ => post) fun _ _ => False

/-- From no state of `pre` does the computation return. -/
abbrev Fails (pre : σ → Prop) (x : EStateM ε σ α) : Prop :=
  Triple pre x (fun _ _ => False) fun _ _ => True

namespace Triple

variable {x : EStateM ε σ α} {f : α → EStateM ε σ β} {post : α → σ → Prop}

theorem weaken {pre' : σ → Prop} {post' : α → σ → Prop} (h : Triple pre x post fails)
    (hpre : ∀ s, pre' s → pre s) (hpost : ∀ a s, post a s → post' a s) :
    Triple pre' x post' fails := by
  intro s hs
  have hx := h s (hpre s hs)
  revert hx
  cases x s with
  | ok a s' => exact hpost a s'
  | error e s' => exact id

theorem conseq {post' : α → σ → Prop} {fails' : ε → σ → Prop} (h : Triple pre x post fails)
    (hpost : ∀ a s, post a s → post' a s) (hfails : ∀ e s, fails e s → fails' e s) :
    Triple pre x post' fails' := by
  intro s hs
  have hx := h s hs
  revert hx
  cases x s with
  | ok a s' => exact hpost a s'
  | error e s' => exact hfails e s'

theorem pure {a : α} (h : ∀ s, pre s → post a s) :
    Triple pre (pure a : EStateM ε σ α) post fails := h

theorem throw {e : ε} (h : ∀ s, pre s → fails e s) :
    Triple pre (throw e : EStateM ε σ α) post fails := h

theorem bind {mid : α → σ → Prop} {post : β → σ → Prop} (hx : Triple pre x mid fails)
    (hf : ∀ a, Triple (mid a) (f a) post fails) : Triple pre (x >>= f) post fails := by
  intro s hs
  have hs' := hx s hs
  change match (match x s with
    | .ok a s' => f a s'
    | .error e s' => EStateM.Result.error e s') with
    | .ok b s' => post b s'
    | .error e s' => fails e s'
  revert hs'
  cases x s with
  | ok a s' => exact hf a s'
  | error e s' => exact id

theorem map {g : α → β} {post : β → σ → Prop} (h : Triple pre x (fun a => post (g a)) fails) :
    Triple pre (g <$> x) post fails := by
  intro s hs
  have hx := h s hs
  change match (match x s with
    | .ok a s' => EStateM.Result.ok (g a) s'
    | .error e s' => EStateM.Result.error e s') with
    | .ok b s' => post b s'
    | .error e s' => fails e s'
  revert hx
  cases x s with
  | ok a s' => exact id
  | error e s' => exact id

theorem get_bind {f : σ → EStateM ε σ β} {post : β → σ → Prop}
    (h : ∀ s, pre s → Triple (· = s) (f s) post fails) :
    Triple pre (get >>= f) post fails := fun s hs => h s hs s rfl

protected theorem set {s : σ} {post : PUnit → σ → Prop} (h : post ⟨⟩ s) :
    Triple pre (set s : EStateM ε σ PUnit) post fails := fun _ _ => h

theorem set_bind {s : σ} {f : PUnit → EStateM ε σ β} {post : β → σ → Prop}
    (h : Triple (· = s) (f ⟨⟩) post fails) : Triple pre (set s >>= f) post fails :=
  fun _ _ => h s rfl

theorem modify_bind {g : σ → σ} {f : PUnit → EStateM ε σ β} {post : β → σ → Prop}
    (hpre : ∀ s, pre s → mid (g s)) (h : Triple mid (f ⟨⟩) post fails) :
    Triple pre (modify g >>= f) post fails := fun s hs => h (g s) (hpre s hs)

theorem modify_bind_eq {g : σ → σ} {s : σ} {f : PUnit → EStateM ε σ β} {post : β → σ → Prop}
    (h : Triple (· = g s) (f ⟨⟩) post fails) : Triple (· = s) (modify g >>= f) post fails :=
  fun s hs => h (g s) (congrArg g hs)

theorem ite {p : Prop} [Decidable p] {y : EStateM ε σ α} (hx : p → Triple pre x post fails)
    (hy : ¬ p → Triple pre y post fails) : Triple pre (if p then x else y) post fails := by
  split_ifs with h
  · exact hx h
  · exact hy h

theorem forM {l : List α} {f : α → EStateM ε σ PUnit}
    (h : ∀ a ∈ l, Triple pre (f a) (fun _ => pre) fails) :
    Triple pre (l.forM f) (fun _ => pre) fails := by
  induction l with
  | nil => exact pure fun _ => id
  | cons a l ih =>
    exact bind (h a (by simp)) fun _ => ih fun b hb => h b (List.mem_cons_of_mem a hb)

end Triple

/-- From `s` the computation ends or fails in a state related to `s`. -/
def Evolves (R : σ → σ → Prop) (s : σ) (x : EStateM ε σ α) : Prop :=
  Triple (· = s) x (fun _ => R s) fun _ => R s

namespace Evolves

variable {R : σ → σ → Prop} {s t : σ} {x y : EStateM ε σ α} {f : α → EStateM ε σ β}

theorem map {g : α → β} (hx : Evolves R s x) : Evolves R s (g <$> x) := Triple.map hx

theorem ite {p : Prop} [Decidable p] (hx : p → Evolves R s x) (hy : ¬ p → Evolves R s y) :
    Evolves R s (if p then x else y) := Triple.ite hx hy

theorem get {f : σ → EStateM ε σ β} (h : Evolves R s (f s)) : Evolves R s (get >>= f) :=
  Triple.get_bind fun _ hs => hs ▸ h

protected theorem set (h : R s t) : Evolves R s (set t : EStateM ε σ PUnit) := Triple.set h

variable [IsPreorder σ R]

theorem pure {a : α} : Evolves R s (pure a : EStateM ε σ α) :=
  Triple.pure fun _ h => h ▸ refl_of R s

theorem throw {e : ε} : Evolves R s (throw e : EStateM ε σ α) :=
  Triple.throw fun _ h => h ▸ refl_of R s

theorem from_later (h : R s t) (hx : Evolves R t x) :
    Triple (· = t) x (fun _ => R s) fun _ => R s :=
  hx.conseq (fun _ _ => trans_of R h) fun _ _ => trans_of R h

theorem bind (hx : Evolves R s x) (hf : ∀ a t, R s t → Evolves R t (f a)) :
    Evolves R s (x >>= f) :=
  Triple.bind hx fun a t h => from_later h (hf a t h) t rfl

theorem bind_of_run (hx : Evolves R s x) (hf : ∀ a t, x s = .ok a t → Evolves R t (f a)) :
    Evolves R s (x >>= f) := by
  have hrun : Triple (· = s) x (fun a t => R s t ∧ x s = .ok a t) fun _ => R s := by
    rintro _ rfl
    have hafter := hx _ rfl
    revert hafter
    cases x _ with
    | ok a t => exact fun h => ⟨h, rfl⟩
    | error e t => exact id
  exact Triple.bind hrun fun a t h => from_later h.1 (hf a t h.2) t rfl

theorem set_bind {f : PUnit → EStateM ε σ β} (h : R s t) (hf : Evolves R t (f ⟨⟩)) :
    Evolves R s (set t >>= f) := Triple.set_bind (from_later h hf)

theorem modify_bind {g : σ → σ} {f : PUnit → EStateM ε σ β} (h : R s (g s))
    (hf : Evolves R (g s) (f ⟨⟩)) : Evolves R s (modify g >>= f) :=
  Triple.modify_bind_eq (from_later h hf)

theorem forM {l : List α} {f : α → EStateM ε σ PUnit}
    (h : ∀ a ∈ l, ∀ t, R s t → Evolves R t (f a)) : Evolves R s (l.forM f) := by
  induction l generalizing s with
  | nil => exact pure
  | cons a l ih =>
    refine bind (h a (by simp) s (refl_of R s)) fun _ t hst => ih fun b hb u htu => ?_
    exact h b (List.mem_cons_of_mem a hb) u (trans_of R hst htu)

end Evolves

/-- Whatever the computation returns satisfies the property. -/
def Yields (x : EStateM ε σ α) (Q : α → Prop) : Prop := ∀ s a t, x s = .ok a t → Q a

namespace Yields

variable {x y : EStateM ε σ α} {f : α → EStateM ε σ β} {Q : β → Prop}

theorem pure {b : β} (h : Q b) : Yields (pure b : EStateM ε σ β) Q := by
  rintro s _ _ ⟨⟩
  exact h

theorem throw {e : ε} : Yields (throw e : EStateM ε σ β) Q := by
  rintro s _ _ ⟨⟩

theorem bind (h : ∀ a, Yields (f a) Q) : Yields (x >>= f) Q := by
  intro s b t heq
  change EStateM.bind x f s = _ at heq
  unfold EStateM.bind at heq
  cases hx : x s with
  | ok a s' =>
    rw [hx] at heq
    exact h a s' b t heq
  | error e s' =>
    rw [hx] at heq
    cases heq

theorem map {g : α → β} (h : Yields x fun a => Q (g a)) : Yields (g <$> x) Q := by
  intro s b t heq
  change EStateM.map g x s = _ at heq
  unfold EStateM.map at heq
  cases hx : x s with
  | ok a s' =>
    rw [hx] at heq
    cases heq
    exact h s a t hx
  | error e s' =>
    rw [hx] at heq
    cases heq

theorem ite {p : Prop} [Decidable p] {Q : α → Prop} (hx : p → Yields x Q) (hy : ¬ p → Yields y Q) :
    Yields (if p then x else y) Q := by
  split_ifs with h
  · exact hx h
  · exact hy h

end Yields

/-- What held before the step holds after it. -/
def Preserves (P : σ → Prop) (s t : σ) : Prop := P s → P t

instance (P : σ → Prop) : IsPreorder σ (Preserves P) where
  refl _ := id
  trans _ _ _ h h' hs := h' (h hs)

namespace Evolves

variable {P : σ → Prop} {s : σ} {x : EStateM ε σ α}

theorem vacuous (h : ¬ P s) : Evolves (Preserves P) s x := by
  rintro _ rfl
  cases x _ with
  | ok a t => exact fun hs => absurd hs h
  | error e t => exact fun hs => absurd hs h

theorem assuming (h : P s → Evolves (Preserves P) s x) : Evolves (Preserves P) s x := by
  by_cases hs : P s
  · exact h hs
  · exact vacuous hs

end Evolves

theorem bind_run (x : EStateM ε σ α) (f : α → EStateM ε σ β) (s : σ) : (x >>= f) s =
    match x s with
    | .ok a s' => f a s'
    | .error e s' => .error e s' := by
  change EStateM.bind x f s = _
  unfold EStateM.bind
  cases x s <;> rfl

theorem get_run (s : σ) : (get : EStateM ε σ σ) s = .ok s s := rfl

theorem set_run (s t : σ) : (set t : EStateM ε σ PUnit) s = .ok ⟨⟩ t := rfl

theorem modify_run (g : σ → σ) (s : σ) : (modify g : EStateM ε σ PUnit) s = .ok ⟨⟩ (g s) := rfl

theorem pure_run (a : α) (s : σ) : (pure a : EStateM ε σ α) s = .ok a s := rfl

theorem throw_run (e : ε) (s : σ) : (throw e : EStateM ε σ α) s = .error e s := rfl

theorem forM_cons_run (f : α → EStateM ε σ PUnit) (a : α) (l : List α) (s : σ) :
    (a :: l).forM f s =
      match f a s with
      | .ok _ s' => l.forM f s'
      | .error e s' => .error e s' := by
  have hcons : (a :: l).forM f = f a >>= fun _ => l.forM f := rfl
  rw [hcons, bind_run]
  cases f a s <;> rfl

theorem Returns.ok {x : EStateM ε σ α} {post : σ → Prop} (h : Returns pre x post) {s : σ}
    (hs : pre s) : ∃ a s', x s = .ok a s' ∧ post s' := by
  have hx := h s hs
  revert hx
  cases x s with
  | ok a s' => exact fun hpost => ⟨a, s', rfl, hpost⟩
  | error e s' => exact False.elim

theorem Fails.not_ok {x : EStateM ε σ α} (h : Fails pre x) {s : σ} (hs : pre s) :
    ¬ ∃ a s', x s = .ok a s' := by
  rintro ⟨a, s', heq⟩
  have hx := h s hs
  rw [heq] at hx
  exact hx

end ChatCommons.Stateful
