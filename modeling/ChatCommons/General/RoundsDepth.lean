import ChatCommons.General.Rounds

/-!
The depth of a node is the length of the longest chain of nodes that ends in it; the
rounds take the nodes by depth, and by key where the depths are equal.
-/

namespace ChatCommons.Rounds

open Collections

variable {ι κ : Type} [LinearOrder ι] (parents : ι → List ι) (nodes : BTreeSet ι)

/-- There is a chain of `n` nodes, each a parent of the next, that ends in the given one. -/
inductive ChainTo : ℕ → ι → Prop
  | root {x} : x ∈ nodes → ChainTo 1 x
  | step {n p x} : ChainTo n p → p ∈ parents x → x ∈ nodes → ChainTo (n + 1) x

noncomputable def depth (x : ι) : ℕ := sSup {n | ChainTo parents nodes n x}

variable {parents nodes} {x y : ι} {m n : ℕ}

theorem ChainTo.mem (h : ChainTo parents nodes n x) : x ∈ nodes := by
  cases h with
  | root hx => exact hx
  | step _ _ hx => exact hx

theorem low_iff_chains (hx : x ∈ nodes) :
    Low parents nodes n x ↔ ∀ m, ChainTo parents nodes m x → m ≤ n := by
  induction n generalizing x with
  | zero => exact ⟨False.elim, fun h => absurd (h 1 (.root hx)) (by omega)⟩
  | succ n ih =>
    constructor
    · intro hlow m hchain
      cases hchain with
      | root => omega
      | step hp hparent _ =>
        have := (ih hp.mem).mp (hlow _ hparent hp.mem) _ hp
        omega
    · intro h p hparent hp
      refine (ih hp).mpr fun m hchain => ?_
      have := h (m + 1) (.step hchain hparent hx)
      omega

theorem depth_le_iff (hx : x ∈ nodes) (hlow : Low parents nodes m x) :
    depth parents nodes x ≤ n ↔ Low parents nodes n x := by
  rw [depth, low_iff_chains hx]
  exact csSup_le_iff ⟨m, fun _ hchain => (low_iff_chains hx).mp hlow _ hchain⟩ ⟨1, .root hx⟩

variable [LinearOrder κ] {key : ι → κ}

theorem before_iff_depth (hx : x ∈ nodes) (hy : y ∈ nodes) (hlowx : Low parents nodes m x)
    (hlowy : Low parents nodes n y) : Before parents key nodes x y ↔
      toLex (depth parents nodes x, key x) < toLex (depth parents nodes y, key y) := by
  have hdx : ∀ j, depth parents nodes x ≤ j ↔ Low parents nodes j x := fun _ => depth_le_iff hx hlowx
  have hdy : ∀ j, depth parents nodes y ≤ j ↔ Low parents nodes j y := fun _ => depth_le_iff hy hlowy
  rw [Prod.Lex.toLex_lt_toLex, Before]
  refine or_congr ⟨?_, fun h => ?_⟩ (and_congr_left fun _ => ⟨fun h => ?_, fun h j => ?_⟩)
  · rintro ⟨j, hj, hnot⟩
    rw [← hdx] at hj
    rw [← hdy] at hnot
    dsimp only
    omega
  · refine ⟨depth parents nodes x, (hdx _).mp le_rfl, fun hy => ?_⟩
    have := (hdy _).mpr hy
    dsimp only at h
    omega
  · exact le_antisymm ((hdx _).mpr ((h _).mpr ((hdy _).mp le_rfl)))
      ((hdy _).mpr ((h _).mp ((hdx _).mp le_rfl)))
  · rw [← hdx, ← hdy, show depth parents nodes x = depth parents nodes y from h]

/-- The order of the rounds is one sort by depth and key. -/
theorem insertionSort_depth (hkey : Function.Injective key)
    (hlow : ∀ x ∈ nodes, ∃ n, Low parents nodes n x) :
    (nodes.toList.insertionSort fun a b =>
      toLex (depth parents nodes a, key a) ≤ toLex (depth parents nodes b, key b)) =
        fullOrder parents key nodes := by
  set rank : ι → ℕ ×ₗ κ := fun a => toLex (depth parents nodes a, key a) with hrank
  have hinjective : Function.Injective rank := fun a b h =>
    hkey (congrArg (fun p : ℕ ×ₗ κ => (ofLex p).2) h)
  have hperm := List.perm_insertionSort (fun a b => rank a ≤ rank b) nodes.toList
  have hmem : ∀ x, x ∈ nodes.toList.insertionSort (fun a b => rank a ≤ rank b) ↔ x ∈ nodes :=
    fun x => hperm.mem_iff.trans Std.ExtTreeSet.mem_toList
  have hsorted : (nodes.toList.insertionSort fun a b => rank a ≤ rank b).Pairwise
      fun a b => rank a ≤ rank b :=
    have : Std.Total fun a b : ι => rank a ≤ rank b := ⟨fun a b => le_total _ _⟩
    have : IsTrans ι fun a b => rank a ≤ rank b := ⟨fun _ _ _ => le_trans⟩
    List.pairwise_insertionSort _ _
  have hnodup := hperm.nodup_iff.mpr (toList_nodup nodes)
  apply eq_fullOrder hkey
  · intro x
    rw [hmem]
    exact ⟨fun hx => ⟨hx, hlow x hx⟩, And.left⟩
  · refine (hsorted.and hnodup).imp_of_mem fun {a b} ha hb h => ?_
    obtain ⟨m, hm⟩ := hlow a ((hmem a).mp ha)
    obtain ⟨n, hn⟩ := hlow b ((hmem b).mp hb)
    rw [before_iff_depth ((hmem a).mp ha) ((hmem b).mp hb) hm hn]
    exact lt_of_le_of_ne h.1 fun heq => h.2 (hinjective heq)

end ChatCommons.Rounds
