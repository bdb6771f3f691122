import ChatCommons.General.Collections

/-!
Nodes of a finite graph are taken round by round: those none of whose parents is
left, in the order of their keys. A node is low at `n` when the chains of nodes
that lead to it have at most `n` members; the rounds visit the nodes by height.
-/

namespace ChatCommons.Rounds

open Collections

variable {ι κ : Type} [LinearOrder ι] [LinearOrder κ] (parents : ι → List ι) (key : ι → κ)

def ready (pending : BTreeSet ι) : List ι :=
  (pending.toList.filter fun x => (parents x).all fun p => p ∉ pending).insertionSort
    fun a b => key a ≤ key b

def order : ℕ → BTreeSet ι → List ι
  | 0, _ => []
  | fuel + 1, pending =>
    let ids := ready parents key pending
    ids ++ order fuel (ids.foldl (fun s x => s.erase x) pending)

def Low (nodes : BTreeSet ι) : ℕ → ι → Prop
  | 0, _ => False
  | n + 1, x => ∀ p ∈ parents x, p ∈ nodes → Low nodes n p

def Before (nodes : BTreeSet ι) (a b : ι) : Prop :=
  (∃ n, Low parents nodes n a ∧ ¬ Low parents nodes n b) ∨
    (∀ n, Low parents nodes n a ↔ Low parents nodes n b) ∧ key a < key b

variable {parents key} {nodes pending : BTreeSet ι} {x y : ι} {m n : ℕ}

theorem Low.succ (h : Low parents nodes n x) : Low parents nodes (n + 1) x := by
  induction n generalizing x with
  | zero => exact h.elim
  | succ n ih => exact fun p hp hn => ih (h p hp hn)

theorem Low.mono (h : Low parents nodes m x) (hmn : m ≤ n) : Low parents nodes n x := by
  induction hmn with
  | refl => exact h
  | step _ ih => exact ih.succ

theorem Low.parent (h : Low parents nodes (n + 1) x) (hy : y ∈ parents x) (hn : y ∈ nodes) :
    Low parents nodes n y := h y hy hn

theorem low_of_acc (h : Acc (fun p x => p ∈ parents x) x) : ∃ n, Low parents nodes n x := by
  induction h with
  | intro x _ ih =>
    have hall : ∀ l : List ι, (∀ p ∈ l, p ∈ parents x) →
        ∃ n, ∀ p ∈ l, Low parents nodes n p := by
      intro l
      induction l with
      | nil => exact fun _ => ⟨0, by simp⟩
      | cons p l ihl =>
        intro hl
        obtain ⟨n, hn⟩ := ihl fun q hq => hl q (List.mem_cons_of_mem p hq)
        obtain ⟨m, hm⟩ := ih p (hl p (by simp))
        refine ⟨max m n, fun q hq => ?_⟩
        rcases List.mem_cons.mp hq with rfl | hq
        · exact hm.mono (le_max_left m n)
        · exact (hn q hq).mono (le_max_right m n)
    obtain ⟨n, hn⟩ := hall (parents x) fun p hp => hp
    exact ⟨n + 1, fun p hp _ => hn p hp⟩

/-- Two graphs that agree on a set of nodes closed under parents give its members one height. -/
theorem low_congr {parents' : ι → List ι} {nodes' : BTreeSet ι} {S : Set ι}
    (hparents : ∀ x ∈ S, parents' x = parents x)
    (hnodes : ∀ x ∈ S, ∀ p ∈ parents x, p ∈ nodes' ↔ p ∈ nodes)
    (hclosed : ∀ x ∈ S, ∀ p ∈ parents x, p ∈ nodes → p ∈ S) (hx : x ∈ S) (n : ℕ) :
    Low parents' nodes' n x ↔ Low parents nodes n x := by
  induction n generalizing x with
  | zero => rfl
  | succ n ih =>
    simp only [Low, hparents x hx]
    refine forall₂_congr fun p hp => ?_
    rw [hnodes x hx p hp]
    exact forall_congr' fun hmem => ih (hclosed x hx p hp hmem)

theorem exists_height (h : Low parents nodes n x) :
    ∃ j, Low parents nodes (j + 1) x ∧ ¬ Low parents nodes j x := by
  induction n with
  | zero => exact h.elim
  | succ n ih =>
    by_cases hn : Low parents nodes n x
    · exact ih hn
    · exact ⟨n, h, hn⟩

theorem Before.asymm (h : Before parents key nodes x y) : ¬ Before parents key nodes y x := by
  rintro (⟨m, hm, hm'⟩ | ⟨heq, hlt⟩)
  · rcases h with ⟨n, hn, hn'⟩ | ⟨heq, _⟩
    · rcases le_total m n with hmn | hmn
      · exact hn' (hm.mono hmn)
      · exact hm' (hn.mono hmn)
    · exact hm' ((heq m).mpr hm)
  · rcases h with ⟨n, hn, hn'⟩ | ⟨_, hlt'⟩
    · exact hn' ((heq n).mpr hn)
    · exact absurd hlt (not_lt.mpr hlt'.le)

theorem before_parent (hy : y ∈ parents x) (hn : y ∈ nodes) (hlow : Low parents nodes n x) :
    Before parents key nodes y x := by
  obtain ⟨j, hj, hnot⟩ := exists_height hlow
  exact Or.inl ⟨j, hj.parent hy hn, hnot⟩

theorem low_chain {chain : ℕ → ι} {last : ℕ} (h0 : parents (chain 0) = [])
    (hsucc : ∀ i < last, parents (chain (i + 1)) = [chain i] ∧ chain i ∈ nodes) {i : ℕ}
    (hi : i ≤ last) : Low parents nodes n (chain i) ↔ i < n := by
  induction n generalizing i with
  | zero => exact iff_of_false id (Nat.not_lt_zero i)
  | succ n ih =>
    cases i with
    | zero =>
      refine iff_of_true (fun p hp => ?_) (Nat.succ_pos n)
      rw [h0] at hp
      cases hp
    | succ i =>
      obtain ⟨hparents, hmem⟩ := hsucc i hi
      have hlow := ih (i := i) (by omega)
      have hstep : Low parents nodes (n + 1) (chain (i + 1)) ↔ Low parents nodes n (chain i) := by
        simp [Low, hparents, hmem]
      rw [hstep, hlow, Nat.succ_lt_succ_iff]

theorem before_chain {chain : ℕ → ι} {last : ℕ} (h0 : parents (chain 0) = [])
    (hsucc : ∀ i < last, parents (chain (i + 1)) = [chain i] ∧ chain i ∈ nodes) {i j : ℕ}
    (hij : i < j) (hj : j ≤ last) : Before parents key nodes (chain i) (chain j) := by
  refine Or.inl ⟨i + 1, (low_chain h0 hsucc (by omega)).mpr (Nat.lt_succ_self i), fun hlow => ?_⟩
  have := (low_chain h0 hsucc hj).mp hlow
  omega

theorem mem_ready : x ∈ ready parents key pending ↔
    x ∈ pending ∧ ∀ p ∈ parents x, p ∉ pending := by
  simp [ready]

theorem ready_nodup : (ready parents key pending).Nodup :=
  ((List.perm_insertionSort _ _).nodup_iff).mpr ((toList_nodup pending).filter _)

theorem ready_sorted (hkey : Function.Injective key) :
    (ready parents key pending).Pairwise fun a b => key a < key b := by
  have hle : (ready parents key pending).Pairwise fun a b => key a ≤ key b :=
    have : Std.Total fun a b : ι => key a ≤ key b := ⟨fun a b => le_total _ _⟩
    have : IsTrans ι fun a b => key a ≤ key b := ⟨fun _ _ _ => le_trans⟩
    List.pairwise_insertionSort _ _
  exact (hle.and ready_nodup).imp fun h => lt_of_le_of_ne h.1 fun he => h.2 (hkey he)

section Levels

def Left (nodes : BTreeSet ι) (parents : ι → List ι) (n : ℕ) (pending : BTreeSet ι) : Prop :=
  ∀ x, x ∈ pending ↔ x ∈ nodes ∧ ¬ Low parents nodes n x

theorem left_zero : Left nodes parents 0 nodes := fun x => by simp [Low]

variable (h : Left nodes parents n pending)
include h

theorem Left.mem_ready : x ∈ ready parents key pending ↔
    x ∈ nodes ∧ ¬ Low parents nodes n x ∧ Low parents nodes (n + 1) x := by
  rw [Rounds.mem_ready, h x, and_assoc]
  refine and_congr_right fun _ => and_congr_right fun _ => forall₂_congr fun p _ => ?_
  rw [h p]
  tauto

theorem Left.next : Left nodes parents (n + 1)
    ((ready parents key pending).foldl (fun s x => s.erase x) pending) := by
  intro x
  rw [mem_foldl_erase, h x, h.mem_ready]
  have hsucc : Low parents nodes n x → Low parents nodes (n + 1) x := Low.succ
  tauto

theorem Left.exists_ready (hx : x ∈ pending) (hlow : Low parents nodes m x) :
    ready parents key pending ≠ [] := by
  have hnodes := (h x).mp hx
  by_cases hn : Low parents nodes (n + 1) x
  · exact List.ne_nil_of_mem (h.mem_ready.mpr ⟨hnodes.1, hnodes.2, hn⟩)
  · induction m generalizing x with
    | zero => exact hlow.elim
    | succ m ih =>
      rw [Low] at hn
      push Not at hn
      obtain ⟨p, hp, hpn, hnot⟩ := hn
      by_cases hready : Low parents nodes (n + 1) p
      · exact List.ne_nil_of_mem (h.mem_ready.mpr ⟨hpn, hnot, hready⟩)
      · exact ih ((h p).mpr ⟨hpn, hnot⟩) (hlow.parent hp hpn) ⟨hpn, hnot⟩ hready

theorem Left.mem_order_imp {fuel : ℕ} (hx : x ∈ order parents key fuel pending) :
    x ∈ nodes ∧ ¬ Low parents nodes n x ∧ Low parents nodes (n + fuel) x := by
  induction fuel generalizing n pending with
  | zero => simp [order] at hx
  | succ fuel ih =>
    rcases List.mem_append.mp hx with hx | hx
    · obtain ⟨hmem, hnot, hlow⟩ := h.mem_ready.mp hx
      exact ⟨hmem, hnot, hlow.mono (by omega)⟩
    · obtain ⟨hmem, hnot, hlow⟩ := ih h.next hx
      exact ⟨hmem, fun hn => hnot hn.succ, by rwa [show n + (fuel + 1) = n + 1 + fuel by omega]⟩

theorem Left.mem_order {fuel : ℕ} (hfuel : pending.size ≤ fuel) (hx : x ∈ pending)
    (hlow : Low parents nodes m x) : x ∈ order parents key fuel pending := by
  induction fuel generalizing n pending with
  | zero =>
    have : pending.toList.length = 0 := by rw [Std.ExtTreeSet.length_toList]; omega
    have hnil := List.length_eq_zero_iff.mp this
    have := Std.ExtTreeSet.mem_toList.mpr hx
    rw [hnil] at this
    cases this
  | succ fuel ih =>
    refine List.mem_append.mpr ?_
    by_cases hready : x ∈ ready parents key pending
    · exact Or.inl hready
    · refine Or.inr (ih h.next ?_ (mem_foldl_erase _ _ |>.mpr ⟨hx, hready⟩))
      have hne : ready parents key pending ≠ [] := h.exists_ready hx hlow
      obtain ⟨y, hy⟩ := List.exists_mem_of_ne_nil _ hne
      have hlt := size_lt_of_subset
        (s := (ready parents key pending).foldl (fun s x => s.erase x) pending) (t := pending) (a := y)
        (fun b hb => ((mem_foldl_erase _ _).mp hb).1) (Rounds.mem_ready.mp hy).1
        (fun hmem => ((mem_foldl_erase _ _).mp hmem).2 hy)
      omega

theorem Left.order_pairwise (hkey : Function.Injective key) (fuel : ℕ) :
    (order parents key fuel pending).Pairwise (Before parents key nodes) := by
  induction fuel generalizing n pending with
  | zero => exact List.Pairwise.nil
  | succ fuel ih =>
    refine List.pairwise_append.mpr ⟨?_, ih h.next, fun a ha b hb => ?_⟩
    · refine (ready_sorted hkey).imp_of_mem fun {a b} ha hb hlt => Or.inr ⟨fun j => ?_, hlt⟩
      obtain ⟨_, hna, hla⟩ := h.mem_ready.mp ha
      obtain ⟨_, hnb, hlb⟩ := h.mem_ready.mp hb
      rcases Nat.lt_or_ge n j with hj | hj
      · exact ⟨fun _ => hlb.mono hj, fun _ => hla.mono hj⟩
      · exact ⟨fun hl => absurd (hl.mono hj) hna, fun hl => absurd (hl.mono hj) hnb⟩
    · exact Or.inl ⟨n + 1, (h.mem_ready.mp ha).2.2, (h.next.mem_order_imp hb).2.1⟩

end Levels

section Order

variable (parents key nodes) in
def fullOrder : List ι := order parents key nodes.size nodes

theorem mem_fullOrder : x ∈ fullOrder parents key nodes ↔
    x ∈ nodes ∧ ∃ n, Low parents nodes n x := by
  constructor
  · intro hx
    obtain ⟨hmem, _, hlow⟩ := left_zero.mem_order_imp hx
    exact ⟨hmem, _, hlow⟩
  · rintro ⟨hx, n, hlow⟩
    exact left_zero.mem_order (le_refl _) hx hlow

theorem fullOrder_pairwise (hkey : Function.Injective key) :
    (fullOrder parents key nodes).Pairwise (Before parents key nodes) :=
  left_zero.order_pairwise hkey _

theorem fullOrder_nodup (hkey : Function.Injective key) :
    (fullOrder parents key nodes).Nodup :=
  (fullOrder_pairwise hkey).imp fun h he => (he ▸ h).asymm (he ▸ h)

/-- The order is the only one that follows heights and keys. -/
theorem eq_fullOrder (hkey : Function.Injective key) {l : List ι}
    (hmem : ∀ x, x ∈ l ↔ x ∈ nodes ∧ ∃ n, Low parents nodes n x)
    (hl : l.Pairwise (Before parents key nodes)) : l = fullOrder parents key nodes := by
  have : Std.Antisymm (Before parents key nodes) := ⟨fun _ _ h h' => absurd h' h.asymm⟩
  have : Std.Irrefl (Before parents key nodes) := ⟨fun _ h => h.asymm h⟩
  exact hl.eq_of_mem_iff (fullOrder_pairwise hkey) fun x => (hmem x).trans mem_fullOrder.symm

theorem parent_done (hkey : Function.Injective key) {done rest : List ι}
    (hsplit : fullOrder parents key nodes = done ++ x :: rest) (hy : y ∈ parents x)
    (hn : y ∈ nodes) : y ∈ done := by
  have hx : x ∈ fullOrder parents key nodes := by rw [hsplit]; simp
  obtain ⟨_, n, hlow⟩ := mem_fullOrder.mp hx
  obtain ⟨j, hj, _⟩ := exists_height hlow
  have hbefore : Before parents key nodes y x := before_parent hy hn hlow
  have hmem : y ∈ fullOrder parents key nodes := mem_fullOrder.mpr ⟨hn, _, hj.parent hy hn⟩
  have hpair : (fullOrder parents key nodes).Pairwise (Before parents key nodes) :=
    fullOrder_pairwise hkey
  rw [hsplit] at hmem hpair
  rcases List.mem_append.mp hmem with hd | hd
  · exact hd
  · rcases List.mem_cons.mp hd with rfl | hd
    · exact absurd hbefore hbefore.asymm
    · have := (List.pairwise_cons.mp (List.pairwise_append.mp hpair).2.1).1 y hd
      exact absurd hbefore this.asymm

end Order

end ChatCommons.Rounds
