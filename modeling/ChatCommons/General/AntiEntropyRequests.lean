import ChatCommons.General.AntiEntropyAgreement

/-!
What a peer asks for. It asks only for what it does not know and the other stores, and a node it
has asked for once stays requested, or on its way, until it is known.
-/

namespace ChatCommons.AntiEntropy

open Dag

variable {ι : Type} {parents : ι → List ι} {s t : Session ι} {d n : Side} {m : Message ι}
  {replies : List (Message ι)} {x : ι}

section Splitting

/-- A request for several nodes, cut into requests for one each. -/
def Message.split : Message ι → List (Message ι)
  | .want ids => ids.map fun x => .want [x]
  | m => [m]

variable {ids : Set ι}

theorem Covers.split_want (h : Covers .want ids replies) :
    Covers .want ids (replies.flatMap Message.split) := by
  constructor
  · intro m hm
    obtain ⟨r, hr, hm⟩ := List.mem_flatMap.mp hm
    obtain ⟨l, _, rfl, hl⟩ := h.1 r hr
    obtain ⟨x, hx, rfl⟩ := List.mem_map.mp hm
    refine ⟨[x], by simp, rfl, fun y hy => ?_⟩
    rw [List.mem_singleton.mp hy]
    exact hl x hx
  · intro x hx
    obtain ⟨l, hl, hxl⟩ := h.2 x hx
    exact ⟨[x], List.mem_flatMap.mpr ⟨_, hl, List.mem_map.mpr ⟨x, hxl, rfl⟩⟩, by simp⟩

theorem Covers.split_same {form : List ι → Message ι} (hform : ∀ l, (form l).split = [form l])
    (h : Covers form ids replies) : replies.flatMap Message.split = replies := by
  have hsame : ∀ r ∈ replies, r.split = [r] := by
    intro r hr
    obtain ⟨l, _, rfl, _⟩ := h.1 r hr
    exact hform l
  clear h
  induction replies with
  | nil => rfl
  | cons r replies ih =>
    rw [List.flatMap_cons, hsame r (by simp), ih fun q hq => hsame q (List.mem_cons_of_mem r hq)]
    rfl

theorem Receives.split {p p' : Peer ι} (h : Receives parents p m p' replies) :
    Receives parents p m p' (replies.flatMap Message.split) := by
  cases h with
  | hello hc =>
    rw [hc.split_same fun _ => rfl]
    exact .hello hc
  | helloEmpty hnone => exact .helloEmpty hnone
  | heads hc => exact .heads hc.split_want
  | want hc =>
    rw [hc.split_same fun _ => rfl]
    exact .want hc
  | events ha hc => exact .events ha hc.split_want

end Splitting

namespace Delivery

variable (h : Delivery parents s t d m replies)
include h

theorem asked_unknown (hx : ∃ l, .want l ∈ replies ∧ x ∈ l) : (t.peer d).Unknown x := by
  obtain ⟨l, hl, hx⟩ := hx
  have hrec := h.receives
  generalize t.peer d = p' at hrec ⊢
  cases hrec with
  | hello hc => obtain ⟨_, _, he, _⟩ := hc.1 _ hl; cases he
  | helloEmpty _ => cases List.mem_singleton.mp hl
  | heads hc =>
    obtain ⟨_, _, he, hids⟩ := hc.1 _ hl
    cases he
    exact (hids x hx).2
  | want hc => obtain ⟨_, _, he, _⟩ := hc.1 _ hl; cases he
  | events _ hc =>
    obtain ⟨_, _, he, hids⟩ := hc.1 _ hl
    cases he
    exact (hids x hx).2

theorem asked_stored (hs : s.Coherent parents d) (hx : ∃ l, .want l ∈ replies ∧ x ∈ l) :
    x ∈ (s.peer d.other).stored := by
  obtain ⟨l, hl, hx⟩ := hx
  have hrequested : t.Requested d x := ⟨l, h.sent _ hl, hx⟩
  rw [← h.other]
  exact h.trusted hs.sound hs.trusted x (.inr (.inr (.inl hrequested)))

theorem asked_covered (hx : ∃ l, .want l ∈ replies ∧ x ∈ l) : t.Covered d x := by
  obtain ⟨l, hl, hx⟩ := hx
  exact .inr (.inl ⟨l, h.sent _ hl, hx⟩)

end Delivery

theorem known_mono_run (h : Relation.ReflTransGen (Delivers parents) s t)
    (hx : ¬ (s.peer n).Unknown x) : ¬ (t.peer n).Unknown x := by
  induction h with
  | refl => exact hx
  | tail _ hstep ih =>
    obtain ⟨_, _, _, hd⟩ := hstep
    exact hd.known_mono ih

end ChatCommons.AntiEntropy
