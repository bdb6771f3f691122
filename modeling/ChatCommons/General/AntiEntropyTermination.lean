import ChatCommons.General.AntiEntropy

/-!
Every run of two peers is finite. A delivery either makes a node known that was
not, or replaces its message by messages of lower rank; the ranks in flight are
compared in the Dershowitz–Manna order.
-/

namespace ChatCommons.AntiEntropy

open Dag
open scoped Classical

noncomputable section

variable {ι : Type} {parents : ι → List ι}

structure Inside (U : Finset ι) (p : Peer ι) : Prop where
  held : ∀ x ∈ p.held, x ∈ U
  stored : ∀ x ∈ p.stored, x ∈ U
  waiting : ∀ x ∈ p.waiting, x ∈ U

structure Within (U : Finset ι) (s : Session ι) : Prop where
  peer : ∀ d, Inside U (s.peer d)
  events : ∀ d l, (d, Message.events l) ∈ s.flight → ∀ x ∈ l, x ∈ U

theorem Inside.of_unknown {U : Finset ι} {p : Peer ι} (h : Inside U p) {x : ι}
    (hx : ¬ p.Unknown x) : x ∈ U := by
  by_contra hU
  exact hx ⟨fun hs => hU (h.stored x hs), fun hw => hU (h.waiting x hw)⟩

theorem Inside.accepts {U : Finset ι} {p p' : Peer ι} {l : List ι} (hp : Inside U p)
    (hl : ∀ x ∈ l, x ∈ U) (h : Accepts parents p l p') : Inside U p' := by
  have hknown : ∀ x, ¬ p'.Unknown x → x ∈ U := by
    intro x hx
    rcases (h.known_iff x).mp hx with hx | hxl
    · exact hp.of_unknown hx
    · exact hl x hxl
  have hstored : ∀ x ∈ p'.stored, x ∈ U := fun x hx => hknown x fun hu => hu.1 hx
  refine ⟨fun x hx => ?_, hstored, fun x hx => hknown x fun hu => hu.2 hx⟩
  rcases (h.held_eq x).mp hx with hx | hx
  · exact hp.held x hx
  · exact hstored x hx

theorem Inside.receives {U : Finset ι} {p p' : Peer ι} {m : Message ι}
    {replies : List (Message ι)} (hp : Inside U p)
    (hm : ∀ l, m = .events l → ∀ x ∈ l, x ∈ U) (h : Receives parents p m p' replies) :
    Inside U p' ∧ ∀ l, Message.events l ∈ replies → ∀ x ∈ l, x ∈ U := by
  cases h with
  | hello hc =>
    exact ⟨hp, fun l hl => by obtain ⟨_, _, he, _⟩ := hc.1 _ hl; cases he⟩
  | helloEmpty _ => exact ⟨hp, fun l hl => by simp at hl⟩
  | heads hc =>
    exact ⟨hp, fun l hl => by obtain ⟨_, _, he, _⟩ := hc.1 _ hl; cases he⟩
  | want hc =>
    refine ⟨hp, fun l hl x hx => ?_⟩
    obtain ⟨l', _, he, hids⟩ := hc.1 _ hl
    cases he
    exact hp.held x (hids x hx).2
  | events ha hc =>
    refine ⟨hp.accepts (hm _ rfl) ha, fun l hl => ?_⟩
    obtain ⟨_, _, he, _⟩ := hc.1 _ hl
    cases he

theorem Within.step {U : Finset ι} {s t : Session ι} (hs : Within U s) (h : Step parents s t) :
    Within U t := by
  cases h with
  | @receive pre post d m p' replies hflight hrec =>
    have hthis : (d, m) ∈ s.flight := by rw [hflight]; simp
    obtain ⟨hpeer, hreplies⟩ := (hs.peer d).receives
      (fun l he => hs.events d l (he ▸ hthis)) hrec
    refine ⟨forall_update hs.peer hpeer, fun n l hl => ?_⟩
    rcases List.mem_append.mp hl with hl | hl
    · exact hs.events n l (by rw [hflight]; simp at hl ⊢; tauto)
    · obtain ⟨m', hm', he⟩ := List.mem_map.mp hl
      obtain ⟨rfl, rfl⟩ := Prod.mk.inj he
      exact hreplies l hm'
  | @fail pre post e hflight =>
    refine ⟨hs.peer, fun n l hl => hs.events n l ?_⟩
    rw [hflight]
    simp at hl ⊢
    tauto

/-- A request for unknown nodes only, or nodes one of which is unknown, brings progress. -/
def rank (s : Session ι) : Side × Message ι → ℕ
  | (_, .hello) => 5
  | (_, .heads _) => 4
  | (d, .want ids) => if ∀ x ∈ ids, (s.peer d.other).Unknown x then 1 else 3
  | (d, .events ids) => if ∃ x ∈ ids, (s.peer d).Unknown x then 0 else 2

def ranks (s : Session ι) : Multiset ℕ := (s.flight.map (rank s) : List ℕ)

def missing (U : Finset ι) (p : Peer ι) : ℕ := (U.filter p.Unknown).card

def totalMissing (U : Finset ι) (s : Session ι) : ℕ :=
  missing U (s.peer .left) + missing U (s.peer .right)

theorem missing_lt {U : Finset ι} {p p' : Peer ι} (h : ∀ x, p'.Unknown x → p.Unknown x) {x : ι}
    (hx : x ∈ U) (hp : p.Unknown x) (hp' : ¬ p'.Unknown x) : missing U p' < missing U p := by
  apply Finset.card_lt_card
  refine ⟨fun y hy => ?_, fun hsub => ?_⟩
  · rw [Finset.mem_filter] at hy ⊢
    exact ⟨hy.1, h y hy.2⟩
  · exact hp' (Finset.mem_filter.mp (hsub (Finset.mem_filter.mpr ⟨hx, hp⟩))).2

theorem totalMissing_update (U : Finset ι) (s : Session ι) (d : Side) (p' : Peer ι)
    (flight : List (Side × Message ι)) (errors : ℕ) :
    totalMissing U ⟨Function.update s.peer d p', flight, errors⟩ + missing U (s.peer d)
      = totalMissing U s + missing U p' := by
  cases d <;> simp [totalMissing] <;> omega

/-- A delivery that makes nothing known is answered by messages of lower rank. -/
theorem rank_reply {s : Session ι} {d : Side} {m : Message ι} {p' : Peer ι}
    {replies : List (Message ι)} (h : Receives parents (s.peer d) m p' replies)
    (hsame : ∀ x, p'.Unknown x ↔ (s.peer d).Unknown x) {m' : Message ι} (hm' : m' ∈ replies) :
    rank s (d.other, m') < rank s (d, m) := by
  cases h with
  | hello hc =>
    obtain ⟨l, _, rfl, _⟩ := hc.1 _ hm'
    simp [rank]
  | helloEmpty _ =>
    rw [List.mem_singleton.mp hm']
    simp [rank]
  | heads hc =>
    obtain ⟨l, _, rfl, hids⟩ := hc.1 _ hm'
    have hall : ∀ x ∈ l, (s.peer d).Unknown x := fun x hx => (hids x hx).2
    simp only [rank, Side.other_other, if_pos hall]
    omega
  | @want l _ hc =>
    obtain ⟨l', hne, rfl, hids⟩ := hc.1 _ hm'
    by_cases hall : ∀ x ∈ l, (s.peer d.other).Unknown x
    · obtain ⟨x, hx⟩ := List.exists_mem_of_ne_nil l' hne
      have hex : ∃ x ∈ l', (s.peer d.other).Unknown x := ⟨x, hx, hall x (hids x hx).1⟩
      simp only [rank, if_pos hall, if_pos hex]
      omega
    · simp only [rank, if_neg hall]
      split_ifs <;> omega
  | @events l _ _ ha hc =>
    obtain ⟨l', _, rfl, hids⟩ := hc.1 _ hm'
    have hall : ∀ x ∈ l', (s.peer d).Unknown x := fun x hx => (hsame x).mp (hids x hx).2
    have hnone : ¬ ∃ x ∈ l, (s.peer d).Unknown x := by
      rintro ⟨x, hx, hu⟩
      exact (ha.known_iff x).mpr (Or.inr hx) ((hsame x).mpr hu)
    simp only [rank, Side.other_other, if_pos hall, if_neg hnone]
    omega

theorem rank_congr {s t : Session ι} (h : ∀ d x, (t.peer d).Unknown x ↔ (s.peer d).Unknown x)
    (e : Side × Message ι) : rank t e = rank s e := by
  obtain ⟨d, m⟩ := e
  cases m <;> simp only [rank, h]

theorem ranks_split {s : Session ι} {pre post : List (Side × Message ι)} {e : Side × Message ι}
    (h : s.flight = pre ++ e :: post) :
    ranks s = ((pre ++ post).map (rank s) : List ℕ) + {rank s e} := by
  rw [ranks, h, add_comm, Multiset.singleton_add, Multiset.cons_coe, Multiset.coe_eq_coe,
    ← List.map_cons]
  exact List.perm_middle.map _

def Smaller : ℕ × Multiset ℕ → ℕ × Multiset ℕ → Prop :=
  Prod.Lex (· < ·) Multiset.IsDershowitzMannaLT

theorem smaller_wf : WellFounded Smaller :=
  (Prod.lex ⟨_, wellFounded_lt⟩ ⟨_, Multiset.wellFounded_isDershowitzMannaLT⟩).wf

theorem step_smaller {U : Finset ι} {s t : Session ι} (hs : Within U s) (h : Step parents s t) :
    Smaller (totalMissing U t, ranks t) (totalMissing U s, ranks s) := by
  cases h with
  | @receive pre post d m p' replies hflight hrec =>
    have htotal := totalMissing_update U s d p'
      (pre ++ post ++ replies.map (d.other, ·)) s.errors
    by_cases hprogress : ∃ x, (s.peer d).Unknown x ∧ ¬ p'.Unknown x
    · obtain ⟨x, hx, hx'⟩ := hprogress
      have hthis : (d, m) ∈ s.flight := by rw [hflight]; simp
      have hinside := ((hs.peer d).receives (fun l he => hs.events d l (he ▸ hthis)) hrec).1
      have hlt := missing_lt (fun y => hrec.unknown_mono) (hinside.of_unknown hx') hx hx'
      exact Prod.Lex.left _ _ (by omega)
    · have hsame : ∀ x, p'.Unknown x ↔ (s.peer d).Unknown x := by
        intro x
        refine ⟨hrec.unknown_mono, fun hx => ?_⟩
        by_contra hx'
        exact hprogress ⟨x, hx, hx'⟩
      have hmissing : missing U p' = missing U (s.peer d) :=
        congrArg Finset.card (Finset.filter_congr fun x _ => hsame x)
      have hrank := rank_congr (s := s)
        (t := ⟨Function.update s.peer d p', pre ++ post ++ replies.map (d.other, ·), s.errors⟩)
        (fun n x => by
          by_cases hn : n = d
          · subst hn; simpa using hsame x
          · simp [hn])
      rw [show totalMissing U _ = totalMissing U s by omega]
      refine Prod.Lex.right _ ⟨((pre ++ post).map (rank s) : List ℕ),
        ((replies.map (d.other, ·)).map (rank s) : List ℕ), {rank s (d, m)}, by simp, ?_,
        ranks_split hflight, ?_⟩
      · simp only [ranks, List.map_append, ← Multiset.coe_add, List.map_congr_left fun e _ => hrank e]
      · intro r hr
        simp only [List.map_map, Multiset.mem_coe, List.mem_map, Function.comp] at hr
        obtain ⟨m', hm', rfl⟩ := hr
        exact ⟨_, Multiset.mem_singleton_self _, rank_reply hrec hsame hm'⟩
  | @fail pre post e hflight =>
    refine Prod.Lex.right _ ⟨((pre ++ post).map (rank s) : List ℕ), 0, {rank s e}, by simp, ?_,
      ranks_split hflight, by simp⟩
    rw [add_zero]
    exact congrArg _ (List.map_congr_left fun e _ => rank_congr (fun _ _ => Iff.rfl) e)

theorem step_acc {U : Finset ι} {s : Session ι} (hs : Within U s) :
    Acc (fun b a => Step parents a b) s := by
  obtain ⟨v, hv⟩ : ∃ v, v = (totalMissing U s, ranks s) := ⟨_, rfl⟩
  induction v using smaller_wf.induction generalizing s with
  | _ v ih =>
    subst hv
    exact Acc.intro s fun t ht => ih _ (step_smaller hs ht) (hs.step ht) rfl

end

end ChatCommons.AntiEntropy
