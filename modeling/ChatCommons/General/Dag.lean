import Mathlib

/-!
Directed graphs given by the parents of each node. A node is grounded when no
descending chain of parents from it is infinite; a closed set of grounded nodes
is the shape of a stored history.
-/

namespace ChatCommons.Dag

variable {ι : Type} (parents : ι → List ι)

def ParentOf (p x : ι) : Prop := p ∈ parents x

def Grounded (x : ι) : Prop := Acc (ParentOf parents) x

def Closed (S : Set ι) : Prop := ∀ x ∈ S, ∀ p ∈ parents x, p ∈ S

abbrev Reaches : ι → ι → Prop := Relation.ReflTransGen (ParentOf parents)

def IsHead (S : Set ι) (h : ι) : Prop := h ∈ S ∧ ∀ x ∈ S, h ∉ parents x

variable {parents} {S : Set ι}

theorem Closed.reaches (hS : Closed parents S) {p x : ι} (h : Reaches parents p x) (hx : x ∈ S) :
    p ∈ S := by
  induction h with
  | refl => exact hx
  | tail _ hstep ih => exact ih (hS _ hx _ hstep)

theorem Closed.parent_of_reaches (hS : Closed parents S) {h x : ι} (hh : IsHead parents S h)
    (hx : x ∈ S) (hreach : Reaches parents h x) : x = h := by
  rcases Relation.ReflTransGen.cases_head hreach with heq | ⟨y, hy, hyx⟩
  · exact heq.symm
  · exact absurd hy (hh.2 y (hS.reaches hyx hx))

theorem grounded_of_parents {x : ι} (h : ∀ p ∈ parents x, Grounded parents p) :
    Grounded parents x := Acc.intro x h

theorem Grounded.reaches {p x : ι} (hx : Grounded parents x) (h : Reaches parents p x) :
    Grounded parents p := by
  induction h with
  | refl => exact hx
  | tail _ hstep ih => exact ih (hx.inv hstep)

theorem Grounded.not_cyclic {x : ι} (hx : Grounded parents x) :
    ¬ Relation.TransGen (ParentOf parents) x x := by
  induction hx with
  | intro x _ ih =>
    intro hcycle
    obtain ⟨p, hxp, hp⟩ := Relation.TransGen.tail'_iff.mp hcycle
    exact ih p hp (Relation.TransGen.head'_iff.mpr ⟨x, hp, hxp⟩)

theorem Grounded.exists_root {x : ι} (hx : Grounded parents x) :
    ∃ r, Reaches parents r x ∧ parents r = [] := by
  induction hx with
  | intro x _ ih =>
    cases hparents : parents x with
    | nil => exact ⟨x, .refl, hparents⟩
    | cons p _ =>
      have hp : ParentOf parents p x := by simp [ParentOf, hparents]
      obtain ⟨r, hr, hroot⟩ := ih p hp
      exact ⟨r, hr.tail hp, hroot⟩

theorem grounded_of_acyclic_on (hfin : S.Finite)
    (hnext : ∀ x ∈ S, ∀ p ∈ parents x, p ∈ S ∨ Grounded parents p)
    (hacyclic : ∀ x ∈ S, ¬ Relation.TransGen (ParentOf parents) x x) :
    ∀ x ∈ S, Grounded parents x := by
  have : Finite S := hfin
  let below : S → S → Prop := fun a b => Relation.TransGen (ParentOf parents) a.1 b.1
  have : Std.Irrefl below := ⟨fun a h => hacyclic a a.2 h⟩
  have : IsTrans S below := ⟨fun _ _ _ hab hbc => hab.trans hbc⟩
  have hwf : WellFounded below := Finite.wellFounded_of_trans_of_irrefl below
  intro x hx
  have hmem : ∀ y : S, Grounded parents y.1 := by
    intro y
    induction y using hwf.induction with
    | _ y ih =>
      apply grounded_of_parents
      intro p hp
      obtain hin | hground := hnext y y.2 p hp
      · exact ih ⟨p, hin⟩ (.single hp)
      · exact hground
  exact hmem ⟨x, hx⟩

theorem grounded_of_acyclic (hfin : S.Finite) (hout : ∀ x, x ∉ S → parents x = [])
    (hacyclic : ∀ x, ¬ Relation.TransGen (ParentOf parents) x x) (x : ι) : Grounded parents x := by
  have hroot : ∀ x, x ∉ S → Grounded parents x := by
    intro x hx
    apply grounded_of_parents
    intro p hp
    rw [hout x hx] at hp
    cases hp
  by_cases hx : x ∈ S
  · apply grounded_of_acyclic_on hfin _ (fun x _ => hacyclic x) x hx
    intro y _ p _
    by_cases hp : p ∈ S
    · exact Or.inl hp
    · exact Or.inr (hroot p hp)
  · exact hroot x hx

theorem exists_head (hfin : S.Finite) (hground : ∀ x ∈ S, Grounded parents x) {x : ι}
    (hx : x ∈ S) : ∃ h, IsHead parents S h ∧ Reaches parents x h := by
  have : Finite S := hfin
  let above : S → S → Prop := fun a b => Relation.TransGen (ParentOf parents) b.1 a.1
  have : Std.Irrefl above := ⟨fun a h => (hground a a.2).not_cyclic h⟩
  have : IsTrans S above := ⟨fun _ _ _ hab hbc => hbc.trans hab⟩
  have hwf : WellFounded above := Finite.wellFounded_of_trans_of_irrefl above
  obtain ⟨h, hreach, hmax⟩ := hwf.has_min {y | Reaches parents x y.1} ⟨⟨x, hx⟩, .refl⟩
  refine ⟨h, ⟨h.2, fun y hy hparent => ?_⟩, hreach⟩
  exact hmax ⟨y, hy⟩ (Relation.ReflTransGen.tail hreach hparent) (.single hparent)

theorem heads_nonempty (hfin : S.Finite) (hground : ∀ x ∈ S, Grounded parents x)
    (hS : S.Nonempty) : ∃ h, IsHead parents S h := by
  obtain ⟨x, hx⟩ := hS
  obtain ⟨h, hh, _⟩ := exists_head hfin hground hx
  exact ⟨h, hh⟩

theorem Closed.congr {other : ι → List ι} (hS : Closed parents S)
    (heq : ∀ x ∈ S, other x = parents x) : Closed other S := by
  intro x hx p hp
  rw [heq x hx] at hp
  exact hS x hx p hp

theorem Grounded.congr {other : ι → List ι} (hS : Closed parents S)
    (heq : ∀ x ∈ S, other x = parents x) {x : ι} (hx : x ∈ S) (hground : Grounded parents x) :
    Grounded other x := by
  induction hground with
  | intro x _ ih =>
    refine grounded_of_parents fun p hp => ?_
    rw [heq x hx] at hp
    exact ih p hp (hS x hx p hp)

end ChatCommons.Dag
