import ChatCommons.General.Dag

/-!
Putting some of the nodes of a graph in an order in which parents come first, by counting for
each node the parents that are still to come.
-/

namespace ChatCommons.TopologicalOrder

open Dag

variable {ι : Type} [DecidableEq ι] (parents : ι → List ι) (inside : ι → Prop)
  [DecidablePred inside]

/-- How many parents of the node are still to come. -/
def left (done : List ι) (x : ι) : ℕ := (parents x).countP fun p => inside p ∧ p ∉ done

structure Sorted (done : List ι) : Prop where
  nodup : done.Nodup
  within : ∀ x ∈ done, inside x
  before : ∀ pre x post, done = pre ++ x :: post → ∀ p ∈ parents x, inside p → p ∈ pre

variable {parents inside} {done : List ι} {x p : ι}

theorem left_eq_zero : left parents inside done x = 0 ↔ ∀ p ∈ parents x, inside p → p ∈ done := by
  rw [left, List.countP_eq_zero]
  simp only [decide_eq_true_eq, not_and, not_not]

theorem left_snoc (hnodup : (parents x).Nodup) (hp : inside p) (hnot : p ∉ done) :
    left parents inside done x =
      left parents inside (done ++ [p]) x + if p ∈ parents x then 1 else 0 := by
  have hcount : ∀ l : List ι, l.Nodup → l.countP (fun q => inside q ∧ q ∉ done) =
      l.countP (fun q => inside q ∧ q ∉ done ++ [p]) + if p ∈ l then 1 else 0 := by
    intro l hl
    induction l with
    | nil => rfl
    | cons q l ih =>
      obtain ⟨hq, hl⟩ := List.nodup_cons.mp hl
      have hrest := ih hl
      by_cases heq : q = p
      · subst heq
        rw [if_neg hq] at hrest
        rw [if_pos (List.mem_cons_self), List.countP_cons_of_pos (by simp [hp, hnot]),
          List.countP_cons_of_neg (by simp)]
        omega
      · have hsame : (inside q ∧ q ∉ done ++ [p]) ↔ (inside q ∧ q ∉ done) := by
          simp [heq]
        have hmem : (p ∈ q :: l) ↔ p ∈ l := by
          simp [Ne.symm heq]
        simp only [List.countP_cons, hsame, hmem]
        omega
  exact hcount (parents x) hnodup

omit [DecidableEq ι] [DecidablePred inside] in
theorem Sorted.nil : Sorted parents inside [] where
  nodup := List.nodup_nil
  within _ h := absurd h List.not_mem_nil
  before _ _ _ h := by simp at h

theorem Sorted.snoc (h : Sorted parents inside done) (hx : inside x) (hnot : x ∉ done)
    (hleft : left parents inside done x = 0) : Sorted parents inside (done ++ [x]) where
  nodup := by
    apply List.nodup_append.mpr
    refine ⟨h.nodup, List.nodup_singleton x, ?_⟩
    rintro y hy z hz rfl
    rw [List.mem_singleton.mp hz] at hy
    exact hnot hy
  within y hy := by
    rcases List.mem_append.mp hy with hy | hy
    · exact h.within y hy
    · rwa [List.mem_singleton.mp hy]
  before pre y post hsplit := by
    rcases List.eq_nil_or_concat post with rfl | ⟨post, last, rfl⟩
    · obtain ⟨rfl, hlast⟩ := List.append_inj' hsplit rfl
      obtain rfl : x = y := by simpa using hlast
      exact left_eq_zero.mp hleft
    · have hsplit : done ++ [x] = (pre ++ y :: post) ++ [last] := by simpa using hsplit
      obtain ⟨hdone, _⟩ := List.append_inj' hsplit rfl
      exact h.before pre y post hdone

omit [DecidableEq ι] [DecidablePred inside] in
/-- In an order of everything that is above its nodes, no node has a later one above it. -/
theorem Sorted.not_reaches (h : Sorted parents (fun _ => True) done) :
    done.Pairwise fun x y => ¬ Reaches parents y x := by
  have hclosed : ∀ pre post, done = pre ++ post → Closed parents {z | z ∈ pre} := by
    intro pre post hsplit x hx p hp
    obtain ⟨past, between, rfl⟩ := List.append_of_mem hx
    rw [List.append_assoc, List.cons_append] at hsplit
    exact List.mem_append_left _ (h.before past x (between ++ post) hsplit p hp trivial)
  have hnodup := h.nodup
  clear h
  induction done using List.reverseRecOn with
  | nil => exact .nil
  | append_singleton done y ih =>
    obtain ⟨hdone, _, hapart⟩ := List.nodup_append.mp hnodup
    apply List.pairwise_append.mpr
    refine ⟨ih (fun pre post hsplit => ?_) hdone, List.pairwise_singleton _ _, ?_⟩
    · apply hclosed pre (post ++ [y])
      rw [hsplit, List.append_assoc]
    · intro x hx z hz hreach
      have hmem : z ∈ done := (hclosed done [y] rfl).reaches hreach hx
      exact hapart z hmem y (by simp) (List.mem_singleton.mp hz)

omit [DecidableEq ι] [DecidablePred inside] in
/-- What can be put in such an order has no cycle. -/
theorem Sorted.grounded (h : Sorted parents inside done) (hall : ∀ x, inside x → x ∈ done)
    (hout : ∀ x, ¬ inside x → Grounded parents x) (x : ι) : Grounded parents x := by
  have hprefix : ∀ pre post, done = pre ++ post → ∀ y ∈ pre, Grounded parents y := by
    intro pre
    induction pre using List.reverseRecOn with
    | nil => simp
    | append_singleton pre z ih =>
      intro post hsplit y hy
      rw [List.append_assoc] at hsplit
      have hpre := ih ([z] ++ post) hsplit
      rcases List.mem_append.mp hy with hy | hy
      · exact hpre y hy
      · obtain rfl := List.mem_singleton.mp hy
        apply grounded_of_parents
        intro p hp
        by_cases hinside : inside p
        · exact hpre p (h.before pre y post hsplit p hp hinside)
        · exact hout p hinside
  by_cases hinside : inside x
  · exact hprefix done [] (List.append_nil done).symm x (hall x hinside)
  · exact hout x hinside

/-- If no node is left whose parents have all come, every node has come. -/
theorem all_done (hground : ∀ x, inside x → Grounded parents x)
    (hstuck : ∀ x, inside x → x ∉ done → left parents inside done x ≠ 0) :
    ∀ x, inside x → x ∈ done := by
  intro x hx
  have hg := hground x hx
  induction hg with
  | intro x _ ih =>
    by_contra hnot
    apply hstuck x hx hnot
    apply left_eq_zero.mpr
    intro p hp hinside
    exact ih p hp hinside

end ChatCommons.TopologicalOrder
