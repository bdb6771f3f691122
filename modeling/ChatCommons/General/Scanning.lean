import Mathlib

/-!
Scanning a text: its runs rewritten one by one, its words, and the replacement of a pattern.
-/

namespace ChatCommons.Scanning

variable {α : Type*}

section Runs

variable (inRun : α → Bool) (f : List α → List α)

def mapRunsLoop : List α → List α → List α
  | run, [] => f run
  | run, a :: rest =>
    if inRun a then mapRunsLoop (run ++ [a]) rest else f run ++ a :: mapRunsLoop [] rest

/-- Each longest run of elements that pass the test is rewritten, the others are copied. -/
def mapRuns (text : List α) : List α := mapRunsLoop inRun f [] text

variable {inRun f}

theorem mapRunsLoop_append_run (run : List α) {word : List α} (hword : ∀ a ∈ word, inRun a)
    (rest : List α) :
    mapRunsLoop inRun f run (word ++ rest) = mapRunsLoop inRun f (run ++ word) rest := by
  induction word generalizing run with
  | nil => simp
  | cons a word ih =>
    rw [List.cons_append, mapRunsLoop, if_pos (hword a List.mem_cons_self),
      ih _ fun x hx => hword x (List.mem_cons_of_mem a hx)]
    simp

theorem mapRunsLoop_break (run front rest : List α) {a : α} (ha : inRun a = false) :
    mapRunsLoop inRun f run (front ++ a :: rest) =
      mapRunsLoop inRun f run front ++ a :: mapRuns inRun f rest := by
  induction front generalizing run with
  | nil => simp [mapRunsLoop, ha, mapRuns]
  | cons b front ih =>
    rw [List.cons_append, mapRunsLoop, mapRunsLoop]
    by_cases hb : inRun b
    · rw [if_pos hb, if_pos hb, ih]
    · rw [if_neg hb, if_neg hb, ih, List.append_assoc, List.cons_append]

theorem mapRuns_nil (hf : f [] = []) : mapRuns inRun f [] = [] := hf

theorem mapRuns_break (front rest : List α) {a : α} (ha : inRun a = false) :
    mapRuns inRun f (front ++ a :: rest) = mapRuns inRun f front ++ a :: mapRuns inRun f rest :=
  mapRunsLoop_break [] front rest ha

theorem mapRuns_cons (hf : f [] = []) {a : α} (ha : inRun a = false) (rest : List α) :
    mapRuns inRun f (a :: rest) = a :: mapRuns inRun f rest := by
  rw [← List.nil_append (a :: rest), mapRuns_break [] rest ha, mapRuns_nil hf, List.nil_append]

theorem mapRuns_run_append (hf : f [] = []) {word rest : List α} (hword : ∀ a ∈ word, inRun a)
    (hrest : ∀ a ∈ rest.head?, inRun a = false) :
    mapRuns inRun f (word ++ rest) = f word ++ mapRuns inRun f rest := by
  rw [mapRuns, mapRunsLoop_append_run [] hword, List.nil_append]
  cases rest with
  | nil => rw [mapRuns_nil hf, List.append_nil, mapRunsLoop]
  | cons a rest =>
    have ha := hrest a rfl
    rw [mapRuns_cons hf ha, mapRunsLoop, if_neg (by rw [ha]; exact Bool.false_ne_true), mapRuns]

theorem mapRuns_append (hf : f [] = []) {front : List α}
    (hfront : ∀ a ∈ front.getLast?, inRun a = false) (rest : List α) :
    mapRuns inRun f (front ++ rest) = mapRuns inRun f front ++ mapRuns inRun f rest := by
  induction front using List.reverseRecOn with
  | nil => rw [mapRuns_nil hf, List.nil_append, List.nil_append]
  | append_singleton front a _ =>
    have ha : inRun a = false := hfront a (by simp)
    rw [List.append_assoc, List.singleton_append, mapRuns_break front rest ha,
      mapRuns_break front [] ha, mapRuns_nil hf, List.append_assoc, List.singleton_append]

end Runs

section Words

variable (sep : α → Bool)

def words (text : List α) : List (List α) := (text.splitOnP sep).filter (!·.isEmpty)

/-- The end of the text after its last separator. -/
def unfinished (text : List α) : List α := text.rtakeWhile (!sep ·)

/-- The text up to its last separator, which it includes. -/
def finished (text : List α) : List α := text.rdropWhile (!sep ·)

variable {sep}

theorem finished_append_unfinished (text : List α) :
    finished sep text ++ unfinished sep text = text := by
  exact List.rdropWhile_append_rtakeWhile

theorem sep_of_mem_unfinished {text : List α} {a : α} (h : a ∈ unfinished sep text) :
    sep a = false := by
  simpa using List.mem_rtakeWhile_imp h

theorem unfinished_append {word : List α} (hword : ∀ a ∈ word, sep a = false) (text : List α) :
    unfinished sep (text ++ word) = unfinished sep text ++ word := by
  induction word using List.reverseRecOn with
  | nil => simp
  | append_singleton word a ih =>
    have ha : (!sep a) = true := by rw [hword a (by simp)]; rfl
    have hprev := ih fun x hx => hword x (List.mem_append_left [a] hx)
    rw [unfinished] at hprev ⊢
    rw [← List.append_assoc, List.rtakeWhile_concat_pos (fun x => !sep x) _ a ha, hprev,
      List.append_assoc]

@[simp] theorem words_nil : words sep [] = [] := rfl

theorem words_break (front rest : List α) {a : α} (ha : sep a = true) :
    words sep (front ++ a :: rest) = words sep front ++ words sep rest := by
  rw [words, List.splitOnP_append_cons _ _ ha, List.filter_append, ← words, ← words]

theorem words_single {word : List α} (hne : word ≠ []) (hword : ∀ a ∈ word, sep a = false) :
    words sep word = [word] := by
  rw [words, List.splitOnP_eq_singleton hword]
  simp [hne]

/-- A word that no separator stands before belongs to the last word of the text before it. -/
theorem words_around {word rest : List α} (hne : word ≠ []) (hword : ∀ a ∈ word, sep a = false)
    (hrest : ∀ a ∈ rest.head?, sep a = true) (front : List α) :
    words sep (front ++ (word ++ rest)) =
      words sep (finished sep front) ++ (unfinished sep front ++ word) :: words sep rest := by
  have hjoined : ∀ a ∈ unfinished sep front ++ word, sep a = false := by
    intro a ha
    rcases List.mem_append.mp ha with ha | ha
    · exact sep_of_mem_unfinished ha
    · exact hword a ha
  have hback : words sep (unfinished sep front ++ word ++ rest) =
      (unfinished sep front ++ word) :: words sep rest := by
    cases rest with
    | nil => rw [List.append_nil, words_single (by simp [hne]) hjoined, words_nil]
    | cons a rest =>
      have ha := hrest a rfl
      have hafter : words sep (a :: rest) = words sep rest := words_break [] rest ha
      rw [words_break _ rest ha, words_single (by simp [hne]) hjoined, hafter,
        List.singleton_append]
  have hsplit : front ++ (word ++ rest) =
      finished sep front ++ (unfinished sep front ++ word ++ rest) := by
    rw [← List.append_assoc, ← List.append_assoc, ← List.append_assoc,
      finished_append_unfinished]
  rw [hsplit, ← hback]
  have hlast := List.rdropWhile_last_not (fun a => !sep a) front
  rw [← finished] at hlast
  induction hfront : finished sep front using List.reverseRecOn with
  | nil => rw [words_nil, List.nil_append, List.nil_append]
  | append_singleton init a _ =>
    have ha : sep a = true := by simpa [hfront] using hlast
    have hinit : words sep (init ++ [a]) = words sep init := by
      rw [words_break init [] ha, words_nil, List.append_nil]
    rw [hinit, List.append_assoc, List.singleton_append, words_break _ _ ha]

theorem word_unique {left right x y : List α} {a b : α} (ha : sep a = true) (hb : sep b = true)
    (hleft : ∀ c ∈ left, sep c = false) (hright : ∀ c ∈ right, sep c = false)
    (h : left ++ a :: x = right ++ b :: y) : left = right := by
  have htake : ∀ {word z : List α} {c : α}, (∀ d ∈ word, sep d = false) → sep c = true →
      (word ++ c :: z).takeWhile (!sep ·) = word := by
    intro word z c hword hc
    rw [List.takeWhile_append_of_pos fun d hd => by rw [hword d hd]; rfl]
    simp [hc]
  rw [← htake (z := x) hleft ha, h, htake hright hb]

theorem intercalate_around (gap : List α) (front rest : List (List α)) (word : List α) :
    gap.intercalate (front ++ word :: rest) =
      front.flatMap (· ++ gap) ++ (word ++ rest.flatMap (gap ++ ·)) := by
  induction front with
  | nil =>
    rw [List.nil_append, List.flatMap_nil, List.nil_append]
    induction rest generalizing word with
    | nil => simp [List.intercalate]
    | cons next rest ih =>
      rw [List.intercalate_cons_cons, ih next, List.flatMap_cons]
      simp
  | cons first front ih =>
    cases front with
    | nil => rw [List.nil_append] at ih; simp [List.intercalate_cons_cons, ih]
    | cons second front =>
      rw [List.cons_append, List.cons_append, List.intercalate_cons_cons, ← List.cons_append, ih]
      simp

end Words

section Replacement

variable [DecidableEq α] (pattern new : List α)

def replaceLoop : ℕ → List α → List α
  | _, [] => []
  | skip + 1, _ :: rest => replaceLoop skip rest
  | 0, a :: rest =>
    if pattern.isPrefixOf (a :: rest) then new ++ replaceLoop (pattern.length - 1) rest
    else a :: replaceLoop 0 rest

/-- Every occurrence is replaced, from left to right; the pattern is not empty. -/
def replaceAll (text : List α) : List α := replaceLoop pattern new 0 text

/-- An occurrence of the pattern shares an element with the middle part. -/
def Overlaps (front middle rest : List α) : Prop :=
  ∃ left right, front ++ (middle ++ rest) = left ++ (pattern ++ right) ∧
    front.length < left.length + pattern.length ∧ left.length < front.length + middle.length

variable {pattern new}

theorem replaceLoop_append {front rest : List α}
    (hacross : ∀ left right, front ++ rest = left ++ (pattern ++ right) →
      left.length < front.length → left.length + pattern.length ≤ front.length)
    {skip : ℕ} (hskip : skip ≤ front.length) :
    replaceLoop pattern new skip (front ++ rest) =
      replaceLoop pattern new skip front ++ replaceAll pattern new rest := by
  induction front generalizing skip with
  | nil =>
    have hzero : skip = 0 := by simpa using hskip
    rw [hzero, replaceLoop]
    rfl
  | cons a front ih =>
    have hnext : ∀ left right, front ++ rest = left ++ (pattern ++ right) →
        left.length < front.length → left.length + pattern.length ≤ front.length := by
      intro left right heq hlt
      have h := hacross (a :: left) right (by rw [List.cons_append, heq, List.cons_append])
        (by simpa using hlt)
      rw [List.length_cons, List.length_cons] at h
      omega
    cases skip with
    | succ skip =>
      rw [List.cons_append, replaceLoop, replaceLoop]
      apply ih hnext
      simpa using hskip
    | zero =>
      rw [List.cons_append, replaceLoop, replaceLoop]
      by_cases hfound : pattern.isPrefixOf (a :: (front ++ rest))
      · obtain ⟨right, hright⟩ := List.isPrefixOf_iff_prefix.mp hfound
        have hlen := hacross [] right (by rw [List.nil_append, hright, List.cons_append]) (by simp)
        have hshort : pattern <+: a :: front := by
          have hwhole : a :: front <+: a :: (front ++ rest) := ⟨rest, rfl⟩
          apply List.prefix_of_prefix_length_le ⟨right, hright⟩
          · exact hwhole
          · simpa using hlen
        rw [if_pos hfound, if_pos (List.isPrefixOf_iff_prefix.mpr hshort), List.append_assoc,
          ih hnext]
        simp only [List.length_nil, List.length_cons] at hlen
        omega
      · have hlong : ¬ pattern.isPrefixOf (a :: front) := by
          intro h
          apply hfound
          apply List.isPrefixOf_iff_prefix.mpr
          exact (List.isPrefixOf_iff_prefix.mp h).trans ⟨rest, rfl⟩
        rw [if_neg hfound, if_neg hlong, ih hnext (Nat.zero_le _), List.cons_append]

theorem replaceAll_kept {middle rest : List α}
    (hnone : ∀ left right, middle ++ rest = left ++ (pattern ++ right) →
      middle.length ≤ left.length) :
    replaceAll pattern new (middle ++ rest) = middle ++ replaceAll pattern new rest := by
  induction middle with
  | nil => rfl
  | cons a middle ih =>
    have hnot : ¬ pattern.isPrefixOf (a :: (middle ++ rest)) := by
      intro h
      obtain ⟨right, hright⟩ := List.isPrefixOf_iff_prefix.mp h
      have hle := hnone [] right (by rw [List.nil_append, hright, List.cons_append])
      simp at hle
    have hnext := ih fun left right heq => by
      have h := hnone (a :: left) right (by rw [List.cons_append, heq, List.cons_append])
      simpa using h
    rw [List.cons_append, replaceAll, replaceLoop, if_neg hnot, ← replaceAll, hnext,
      List.cons_append]

theorem replaceAll_apart (hpattern : pattern ≠ []) {front middle rest : List α}
    (h : ¬ Overlaps pattern front middle rest) :
    replaceAll pattern new (front ++ (middle ++ rest)) =
      replaceAll pattern new front ++ (middle ++ replaceAll pattern new rest) := by
  have hfront : replaceAll pattern new (front ++ (middle ++ rest)) =
      replaceAll pattern new front ++ replaceAll pattern new (middle ++ rest) := by
    apply replaceLoop_append _ (Nat.zero_le _)
    intro left right heq hlt
    by_contra hlong
    apply h
    exact ⟨left, right, heq, by omega, by omega⟩
  have hpos := List.length_pos_iff.mpr hpattern
  rw [hfront, replaceAll_kept]
  intro left right heq
  by_contra hlt
  apply h
  refine ⟨front ++ left, right, by rw [heq, List.append_assoc], ?_, ?_⟩ <;>
    rw [List.length_append] <;> omega

theorem head?_replaceAll (hnew : new ≠ []) {text : List α} {a : α}
    (ha : a ∈ (replaceAll pattern new text).head?) : a ∈ text.head? ∨ a ∈ new.head? := by
  cases text with
  | nil => cases ha
  | cons b rest =>
    rw [replaceAll, replaceLoop] at ha
    by_cases hfound : pattern.isPrefixOf (b :: rest)
    · rw [if_pos hfound, List.head?_append_of_ne_nil _ hnew] at ha
      exact .inr ha
    · rw [if_neg hfound] at ha
      exact .inl ha

theorem replaceAll_eq_nil (hnew : new ≠ []) {text : List α} :
    replaceAll pattern new text = [] ↔ text = [] := by
  constructor
  · intro h
    cases text with
    | nil => rfl
    | cons b rest =>
      rw [replaceAll, replaceLoop] at h
      by_cases hfound : pattern.isPrefixOf (b :: rest)
      · rw [if_pos hfound] at h
        exact absurd (List.append_eq_nil_iff.mp h).1 hnew
      · rw [if_neg hfound] at h
        cases h
  · rintro rfl
    rfl

/-- The text ends as it did, or with what the last occurrence was replaced by. -/
theorem replaceLoop_end (hnew : new ≠ []) {text : List α} {skip : ℕ} {a : α}
    (ha : a ∈ (replaceLoop pattern new skip text).getLast?) :
    a ∈ text.getLast? ∨ new <:+ replaceLoop pattern new skip text := by
  induction text generalizing skip with
  | nil => cases skip <;> cases ha
  | cons b rest ih =>
    have hlast : ∀ x ∈ rest.getLast?, x ∈ (b :: rest).getLast? := by
      intro x hx
      rw [List.getLast?_cons, Option.mem_def.mp hx]
      rfl
    cases skip with
    | succ skip =>
      rw [replaceLoop] at ha ⊢
      exact (ih ha).imp_left (hlast a)
    | zero =>
      rw [replaceLoop] at ha ⊢
      by_cases hfound : pattern.isPrefixOf (b :: rest)
      · rw [if_pos hfound] at ha ⊢
        by_cases hend : replaceLoop pattern new (pattern.length - 1) rest = []
        · rw [hend, List.append_nil]
          exact .inr (List.suffix_refl new)
        · rw [List.getLast?_append_of_ne_nil _ hend] at ha
          exact (ih ha).imp (hlast a) fun h => h.trans (List.suffix_append _ _)
      · rw [if_neg hfound] at ha ⊢
        by_cases hend : replaceLoop pattern new 0 rest = []
        · have hrest : rest = [] := (replaceAll_eq_nil hnew).mp hend
          rw [hrest] at ha ⊢
          exact .inl ha
        · rw [← List.singleton_append, List.getLast?_append_of_ne_nil _ hend] at ha
          exact (ih ha).imp (hlast a) fun h => h.trans (List.suffix_cons _ _)

end Replacement

end ChatCommons.Scanning
