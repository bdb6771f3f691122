import Mathlib

/-!
A log read back by its last word: each entry may say something about a question, and
the last entry that does so decides. A fold that keeps the answer up to date is read so.
-/

namespace ChatCommons.LastWord

variable {ι α σ : Type}

def lastWord (word : ι → Option α) (log : List ι) : Option α := (log.filterMap word).getLast?

@[simp] theorem lastWord_nil (word : ι → Option α) : lastWord word [] = none := rfl

theorem lastWord_append (word : ι → Option α) (log rest : List ι) :
    lastWord word (log ++ rest) = (lastWord word rest).or (lastWord word log) := by
  rw [lastWord, List.filterMap_append, List.getLast?_append]
  rfl

@[simp] theorem lastWord_singleton (word : ι → Option α) (i : ι) : lastWord word [i] = word i := by
  cases h : word i <;> simp [lastWord, h]

@[simp] theorem lastWord_snoc (word : ι → Option α) (log : List ι) (i : ι) :
    lastWord word (log ++ [i]) = (word i).or (lastWord word log) := by
  rw [lastWord_append, lastWord_singleton]

theorem exists_of_lastWord {word : ι → Option α} {log : List ι} {a : α}
    (h : lastWord word log = some a) : ∃ i ∈ log, word i = some a :=
  List.mem_filterMap.mp (List.mem_of_getLast? h)

section Fold

variable {step : σ → ι → σ} {start : σ}

theorem holds_foldl_iff {P : σ → Prop} {word : ι → Option Bool} (hstart : ¬ P start)
    (log : List ι) (hstep : ∀ i ∈ log, ∀ s,
      P (step s i) ↔ word i = some true ∨ word i = none ∧ P s) :
    P (log.foldl step start) ↔ lastWord word log = some true := by
  induction log using List.reverseRecOn with
  | nil => simp [hstart]
  | append_singleton log i ih =>
    rw [List.foldl_append, List.foldl_cons, List.foldl_nil, hstep i (by simp),
      ih fun j hj => hstep j (List.mem_append_left _ hj), lastWord_snoc]
    cases word i <;> simp

theorem holds_foldl_iff_exists {P : σ → Prop} {word : ι → Prop} (hstart : ¬ P start)
    (log : List ι) (hstep : ∀ i ∈ log, ∀ s, P (step s i) ↔ word i ∨ P s) :
    P (log.foldl step start) ↔ ∃ i ∈ log, word i := by
  induction log using List.reverseRecOn with
  | nil => simp [hstart]
  | append_singleton log i ih =>
    rw [List.foldl_append, List.foldl_cons, List.foldl_nil, hstep i (by simp),
      ih fun j hj => hstep j (List.mem_append_left _ hj)]
    simp only [List.mem_append, List.mem_singleton, or_and_right, exists_or, exists_eq_left]
    exact or_comm

end Fold

end ChatCommons.LastWord
