import ChatCommons.General.AntiEntropyDelivery

/-!
Where a run ends. When nothing is in flight any more, a learner that was woken
stores all its source reported; a learner that was not woken has not moved.
-/

namespace ChatCommons.AntiEntropy

open Dag

variable {ι : Type} {parents : ι → List ι} {s t : Session ι} {n : Side}

variable (parents) in
/-- What every delivery preserves. -/
structure Session.Coherent (s : Session ι) (n : Side) : Prop where
  sound : ∀ n, (s.peer n).Sound parents
  trusted : s.Trusted n

theorem Session.Coherent.moves (hs : s.Coherent parents n) (h : Moves parents s t) :
    t.Coherent parents n := by
  rcases h with ⟨_, _, _, h⟩ | h
  · exact ⟨h.sound hs.sound, h.trusted hs.sound hs.trusted⟩
  · refine ⟨h.1 ▸ hs.sound, fun x hx => ?_⟩
    rw [h.1] at hx ⊢
    exact hs.trusted x (hx.imp_right h.mentions)

theorem Session.Coherent.moves_run (hs : s.Coherent parents n)
    (h : Relation.ReflTransGen (Moves parents) s t) : t.Coherent parents n := by
  induction h with
  | refl => exact hs
  | tail _ hstep ih => exact ih.moves hstep

theorem moves_of_delivers (h : Relation.ReflTransGen (Delivers parents) s t) :
    Relation.ReflTransGen (Moves parents) s t :=
  Relation.ReflTransGen.mono (fun _ _ hd => Or.inl hd) _ _ h

theorem Session.Coherent.run (hs : s.Coherent parents n)
    (h : Relation.ReflTransGen (Delivers parents) s t) : t.Coherent parents n :=
  hs.moves_run (moves_of_delivers h)

theorem run_induction {P : Session ι → Prop} (hs : s.Coherent parents n)
    (h : Relation.ReflTransGen (Delivers parents) s t) (h0 : P s)
    (hstep : ∀ s t d m replies, s.Coherent parents n → Delivery parents s t d m replies →
      P s → P t) : P t := by
  have hboth : t.Coherent parents n ∧ P t := by
    induction h with
    | refl => exact ⟨hs, h0⟩
    | tail _ h ih =>
      obtain ⟨d, m, replies, hd⟩ := h
      exact ⟨ih.1.moves (Or.inl ⟨d, m, replies, hd⟩), hstep _ _ d m replies ih.1 hd ih.2⟩
  exact hboth.2

theorem stored_mono_run (h : Relation.ReflTransGen (Moves parents) s t) {x : ι}
    (hx : x ∈ (s.peer n).stored) : x ∈ (t.peer n).stored := by
  induction h with
  | refl => exact hx
  | tail _ h ih =>
    rcases h with ⟨_, _, _, h⟩ | h
    · exact h.stored_mono ih
    · rwa [h.1]

section Quiescence

variable (hflight : s.flight = [])
include hflight

theorem not_carries (d : Side) (x : ι) (form : List ι → Message ι) : ¬ s.Carries d x form := by
  rintro ⟨l, hl, _⟩
  simp [hflight] at hl

theorem covered_iff_known (x : ι) : s.Covered n x ↔ ¬ (s.peer n).Unknown x := by
  have h := fun d => not_carries hflight d x
  simp [Session.Covered, Session.Requested, Session.Sent, h]

/-- A node that waits would have a parent that waits, and so on for ever. -/
theorem waiting_empty (hs : s.Coherent parents n) (hawake : s.Awake parents n) (x : ι) :
    x ∉ (s.peer n).waiting := by
  intro hx
  have hground := (hs.sound n.other).grounded x (hs.trusted x (Or.inl hx))
  induction hground with
  | intro x _ ih =>
    obtain ⟨⟨p, hp, hstored⟩, hcovered⟩ := hawake x hx
    have hknown := (covered_iff_known hflight p).mp (hcovered p hp)
    refine ih p hp ?_
    by_contra hw
    exact hknown ⟨hstored, hw⟩

theorem stored_of_reported (hs : s.Coherent parents n) (hawake : s.Awake parents n) {S : Set ι}
    (hrep : s.Reported parents n S) {x : ι} (hx : x ∈ S) : x ∈ (s.peer n).stored := by
  obtain ⟨y, hreach, hy⟩ := hrep x hx
  have hknown : ¬ (s.peer n).Unknown y := by
    rcases hy with hy | hy
    · exact absurd hy (not_carries hflight n y _)
    · exact (covered_iff_known hflight y).mp hy
  refine (hs.sound n).closed.reaches hreach ?_
  by_contra hstored
  exact hknown ⟨hstored, waiting_empty hflight hs hawake y⟩

end Quiescence

/-- The greeting of `n` is still on its way, or has been answered. -/
def Session.Greeted (parents : ι → List ι) (s : Session ι) (n : Side) (S : Set ι) : Prop :=
  (n.other, .hello) ∈ s.flight ∨ s.Reported parents n S

theorem greeted_step {S : Set ι} {d : Side} {m : Message ι} {replies : List (Message ι)}
    (hs : s.Coherent parents n) (h : Delivery parents s t d m replies)
    (hS : ∀ x ∈ S, x ∈ (s.peer n.other).stored) (hg : s.Greeted parents n S) :
    t.Greeted parents n S := by
  rcases hg with hg | hg
  · rcases h.kept _ hg with he | ht
    · obtain ⟨rfl, rfl⟩ := Prod.mk.inj he
      exact Or.inr fun x hx => h.reported_of_hello hs.sound x (hS x hx)
    · exact Or.inl ht
  · exact Or.inr (h.reported hs.sound hs.trusted hg)

theorem greeted_run {S : Set ι} (hs : s.Coherent parents n)
    (h : Relation.ReflTransGen (Delivers parents) s t)
    (hS : ∀ x ∈ S, x ∈ (s.peer n.other).stored) (hg : s.Greeted parents n S) :
    t.Greeted parents n S := by
  have hboth : (∀ x ∈ S, x ∈ (t.peer n.other).stored) ∧ t.Greeted parents n S :=
    run_induction (P := fun s => (∀ x ∈ S, x ∈ (s.peer n.other).stored) ∧ s.Greeted parents n S)
      hs h ⟨hS, hg⟩ fun _ _ _ _ _ hs hd ⟨hS, hg⟩ =>
        ⟨fun x hx => hd.stored_mono (hS x hx), greeted_step hs hd hS hg⟩
  exact hboth.2

theorem stored_of_start (hs : ∀ n, s.Coherent parents n)
    (h : Relation.ReflTransGen (Moves parents) s t) (n : Side) :
    ∀ x ∈ (t.peer n).stored, ∃ d, x ∈ (s.peer d).stored := by
  induction h generalizing n with
  | refl => exact fun x hx => ⟨n, hx⟩
  | @tail b _ hrun hstep ih =>
    intro x hx
    rcases hstep with ⟨_, _, _, hd⟩ | hdrop
    · have htrust := ((hs n).moves_run hrun).trusted x
      rcases hd.known (fun hu => hu.1 hx) with hk | hsent
      · by_cases hb : x ∈ (b.peer n).stored
        · exact ih n x hb
        · refine ih n.other x (htrust (Or.inl ?_))
          by_contra hw
          exact hk ⟨hb, hw⟩
      · exact ih n.other x (htrust (Or.inr (Or.inr (Or.inr hsent))))
    · exact ih n x (by rwa [← hdrop.1])

theorem moves_of_steps (h : Relation.ReflTransGen (Step parents) s t) :
    Relation.ReflTransGen (Moves parents) s t :=
  Relation.ReflTransGen.mono (fun _ _ hstep => hstep.moves) _ _ h

theorem waiting_not_stored_run (h : Relation.ReflTransGen (Moves parents) s t)
    (hs : ∀ n, ∀ x ∈ (s.peer n).waiting, x ∉ (s.peer n).stored) :
    ∀ n, ∀ x ∈ (t.peer n).waiting, x ∉ (t.peer n).stored := by
  induction h with
  | refl => exact hs
  | tail _ hstep ih =>
    rcases hstep with ⟨_, _, _, hd⟩ | hdrop
    · exact hd.waiting_not_stored ih
    · rw [hdrop.1]
      exact ih

theorem never_waits (hs : ∀ n, s.Coherent parents n) (hwait : ∀ n x, x ∉ (s.peer n).waiting)
    (hsub : ∀ x ∈ (s.peer n.other).stored, x ∈ (s.peer n).stored)
    (h : Relation.ReflTransGen (Moves parents) s t) : ∀ x, x ∉ (t.peer n).waiting := by
  induction h with
  | refl => exact hwait n
  | @tail b _ hrun hstep ih =>
    rcases id hstep with ⟨_, _, _, hd⟩ | hdrop
    · intro x hx
      have hnot := waiting_not_stored_run (hrun.tail hstep)
        (fun n x hx => absurd hx (hwait n x)) n x hx
      rcases hd.waiting hx with hold | hsent
      · exact ih x hold
      · have hother := ((hs n).moves_run hrun).trusted x (Or.inr (Or.inr (Or.inr hsent)))
        obtain ⟨d, hd'⟩ := stored_of_start hs hrun n.other x hother
        refine hnot (stored_mono_run (hrun.tail hstep) ?_)
        rcases d.eq_or_other n with rfl | rfl
        · exact hd'
        · exact hsub x hd'
    · rw [hdrop.1]
      exact ih

section Start

variable {peer : Side → Peer ι}

theorem coherent_start (hsound : ∀ n, (peer n).Sound parents)
    (hwait : ∀ x ∈ (peer n).waiting, x ∈ (peer n.other).stored) :
    (Session.start peer).Coherent parents n := by
  refine ⟨hsound, ?_⟩
  rintro x (hx | ⟨l, hl, _⟩ | ⟨l, hl, _⟩ | ⟨l, hl, _⟩)
  · exact hwait x hx
  all_goals simp [Session.start] at hl

theorem greeted_start (S : Set ι) : (Session.start peer).Greeted parents n S :=
  Or.inl (by cases n <;> simp [Session.start, Side.other])

variable (hs : (Session.start peer).Coherent parents n)
  (hrun : Relation.ReflTransGen (Delivers parents) (Session.start peer) t)
  (hflight : t.flight = [])
include hs hrun hflight

theorem learns_all (hwait : ∀ x, x ∉ (peer n).waiting) :
    (∀ x ∈ (peer n.other).stored, x ∈ (t.peer n).stored) ∧ ∀ x, x ∉ (t.peer n).waiting := by
  have hawake : t.Awake parents n :=
    run_induction hs hrun (fun x hx => absurd hx (hwait x)) fun _ _ _ _ _ hs hd h =>
      hd.awake hs.sound hs.trusted h
  have ht := hs.run hrun
  refine ⟨fun x hx => ?_, waiting_empty hflight ht hawake⟩
  rcases greeted_run hs hrun (fun x hx => hx) (greeted_start _) with h | h
  · simp [hflight] at h
  · exact stored_of_reported hflight ht hawake h hx

end Start

theorem agreement {peer : Side → Peer ι} (hsound : ∀ n, (peer n).Sound parents)
    (hwait : ∀ n x, x ∉ (peer n).waiting)
    (hrun : Relation.ReflTransGen (Delivers parents) (Session.start peer) t)
    (hflight : t.flight = []) (n : Side) :
    (t.peer n).stored = (peer .left).stored ∪ (peer .right).stored ∧ (t.peer n).waiting = ∅ := by
  have hs : ∀ n, (Session.start peer).Coherent parents n := fun n =>
    coherent_start hsound fun x hx => absurd hx (hwait n x)
  obtain ⟨hall, hnone⟩ := learns_all (hs n) hrun hflight (hwait n)
  refine ⟨Set.Subset.antisymm (fun x hx => ?_) fun x hx => ?_, Set.eq_empty_of_forall_notMem hnone⟩
  · obtain ⟨d, hd⟩ := stored_of_start hs (moves_of_delivers hrun) n x hx
    cases d
    · exact Or.inl hd
    · exact Or.inr hd
  · have hcases : x ∈ (peer n).stored ∨ x ∈ (peer n.other).stored := by
      cases n
      · exact hx
      · exact hx.symm
    rcases hcases with hx | hx
    · exact stored_mono_run (moves_of_delivers hrun) hx
    · exact hall x hx

end ChatCommons.AntiEntropy
