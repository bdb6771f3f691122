import Mathlib

/-!
Loops over a list whose body may fail.
-/

namespace ChatCommons.Fallible

variable {ε α β σ : Type}

theorem bind_eq_ok {x : Except ε α} {f : α → Except ε β} {b : β} :
    (x >>= f) = .ok b ↔ ∃ a, x = .ok a ∧ f a = .ok b := by
  cases x <;> simp [bind, Except.bind]

theorem unit_bind_eq_ok {x : Except ε Unit} {y : Except ε α} {a : α} :
    (x >>= fun _ => y) = .ok a ↔ x = .ok () ∧ y = .ok a := by
  cases x <;> simp [bind, Except.bind]

theorem forM_eq_ok {l : List α} {f : α → Except ε Unit} :
    l.forM f = .ok () ↔ ∀ a ∈ l, f a = .ok () := by
  induction l with
  | nil => simp [List.forM, pure, Except.pure]
  | cons a l ih =>
    change (f a >>= fun _ => l.forM f) = .ok () ↔ _
    rw [bind_eq_ok]
    simp only [ih, List.mem_cons, forall_eq_or_imp]
    exact ⟨fun ⟨_, ha, hl⟩ => ⟨ha, hl⟩, fun ⟨ha, hl⟩ => ⟨(), ha, hl⟩⟩

theorem mapM_eq_ok {l : List α} {f : α → Except ε β} {l' : List β} :
    l.mapM f = .ok l' ↔ List.Forall₂ (fun a b => f a = .ok b) l l' := by
  induction l generalizing l' with
  | nil => simp [pure, Except.pure, eq_comm]
  | cons a l ih =>
    rw [List.mapM_cons, bind_eq_ok]
    constructor
    · rintro ⟨b, hb, hrest⟩
      obtain ⟨rest, hl, hpure⟩ := bind_eq_ok.mp hrest
      rw [← Except.ok.inj hpure]
      exact .cons hb (ih.mp hl)
    · intro h
      cases h with
      | @cons _ b _ rest hb hl => exact ⟨b, hb, bind_eq_ok.mpr ⟨rest, ih.mpr hl, rfl⟩⟩

theorem foldlM_preserves {l : List α} {f : σ → α → Except ε σ} (P : σ → Prop)
    (hstep : ∀ s a s', f s a = .ok s' → P s → P s') {s s' : σ} (h : l.foldlM f s = .ok s')
    (h0 : P s) : P s' := by
  induction l generalizing s with
  | nil => rwa [← Except.ok.inj h]
  | cons a l ih =>
    rw [List.foldlM_cons] at h
    obtain ⟨t, ht, hrest⟩ := bind_eq_ok.mp h
    exact ih hrest (hstep s a t ht h0)

/-- A loop either ends in the invariant or fails as its body may. The invariant is indexed by
the elements already passed. -/
theorem foldlM_cases {l : List α} {f : σ → α → Except ε σ} (P : List α → σ → Prop) (Q : ε → Prop)
    {s : σ} (h0 : P [] s)
    (hstep : ∀ done a rest s, l = done ++ a :: rest → P done s →
      (∃ s', f s a = .ok s' ∧ P (done ++ [a]) s') ∨ ∃ e, f s a = .error e ∧ Q e) :
    (∃ s', l.foldlM f s = .ok s' ∧ P l s') ∨ ∃ e, l.foldlM f s = .error e ∧ Q e := by
  suffices h : ∀ done rest s, l = done ++ rest → P done s →
      (∃ s', rest.foldlM f s = .ok s' ∧ P l s') ∨ ∃ e, rest.foldlM f s = .error e ∧ Q e from
    h [] l s rfl h0
  intro done rest
  induction rest generalizing done with
  | nil =>
    intro s hl hs
    rw [List.append_nil] at hl
    exact Or.inl ⟨s, rfl, hl ▸ hs⟩
  | cons a rest ih =>
    intro s hl hs
    rw [List.foldlM_cons]
    obtain ⟨s', hs', hP⟩ | ⟨e, he, hQ⟩ := hstep done a rest s hl hs
    · rw [hs']
      exact ih (done ++ [a]) s' (by simp [hl]) hP
    · rw [he]
      exact Or.inr ⟨e, rfl, hQ⟩

theorem foldlM_ok {l : List α} {f : σ → α → Except ε σ} (P : List α → σ → Prop) {s : σ}
    (h0 : P [] s)
    (hstep : ∀ done a rest s, l = done ++ a :: rest → P done s →
      ∃ s', f s a = .ok s' ∧ P (done ++ [a]) s') :
    ∃ s', l.foldlM f s = .ok s' ∧ P l s' := by
  obtain h | ⟨_, _, hfalse⟩ := foldlM_cases P (fun _ => False) h0
    fun done a rest s hl hs => Or.inl (hstep done a rest s hl hs)
  · exact h
  · exact hfalse.elim

end ChatCommons.Fallible
