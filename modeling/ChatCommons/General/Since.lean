import Mathlib

/-!
What has held in a history since an entry of it: the operator `since` of temporal logic
over the past, on finite histories.
-/

namespace ChatCommons

variable {α : Type} {φ ψ : α → Prop} {history : List α} {entry : α}

/-- Some entry satisfies `ψ`, and every later one satisfies `φ`. -/
def Since (φ ψ : α → Prop) (history : List α) : Prop :=
  ∃ before entry after, history = before ++ entry :: after ∧ ψ entry ∧ ∀ later ∈ after, φ later

theorem since_snoc :
    Since φ ψ (history ++ [entry]) ↔ ψ entry ∨ φ entry ∧ Since φ ψ history := by
  constructor
  · rintro ⟨before, found, after, hsplit, hfound, hafter⟩
    cases after using List.reverseRecOn with
    | nil =>
      obtain ⟨_, hentry⟩ := List.append_inj' hsplit rfl
      rw [List.cons.inj hentry |>.1]
      exact Or.inl hfound
    | append_singleton after last =>
      rw [← List.cons_append, ← List.append_assoc] at hsplit
      obtain ⟨hhistory, hlast⟩ := List.append_inj' hsplit rfl
      rw [List.cons.inj hlast |>.1]
      refine Or.inr ⟨hafter last (by simp), before, found, after, hhistory, hfound, ?_⟩
      exact fun later hlater => hafter later (List.mem_append_left _ hlater)
  · rintro (hentry | ⟨hentry, before, found, after, rfl, hfound, hafter⟩)
    · exact ⟨history, entry, [], rfl, hentry, by simp⟩
    · refine ⟨before, found, after ++ [entry], by simp, hfound, fun later hlater => ?_⟩
      rcases List.mem_append.mp hlater with hlater | hlater
      · exact hafter later hlater
      · rwa [List.mem_singleton.mp hlater]

theorem Since.start (h : ψ entry) : Since φ ψ (history ++ [entry]) := since_snoc.mpr (Or.inl h)

theorem Since.snoc (h : Since φ ψ history) (hentry : φ entry) : Since φ ψ (history ++ [entry]) :=
  since_snoc.mpr (Or.inr ⟨hentry, h⟩)

end ChatCommons
