import ChatCommons.General.AntiEntropy

/-!
One delivery between a learner and its source, and what it preserves: the learner
speaks only of nodes its source stores, a node it has announced to it, asked for
or been sent ends up known to it, and a node that waits has asked for its parents.
-/

namespace ChatCommons.AntiEntropy

open Dag

variable {ι : Type} (parents : ι → List ι)

structure Peer.Sound (p : Peer ι) : Prop where
  held : ∀ x ∈ p.stored, x ∈ p.held
  closed : Closed parents p.stored
  grounded : ∀ x ∈ p.stored, Grounded parents x
  finite : {x | ¬ p.Unknown x}.Finite

/-- All that the delivery of the message `m` to the peer `d` can do to a session. -/
structure Delivery (s t : Session ι) (d : Side) (m : Message ι) (replies : List (Message ι)) :
    Prop where
  receives : Receives parents (s.peer d) m (t.peer d) replies
  other : t.peer d.other = s.peer d.other
  mem : (d, m) ∈ s.flight
  kept : ∀ e ∈ s.flight, e = (d, m) ∨ e ∈ t.flight
  sent : ∀ r ∈ replies, (d.other, r) ∈ t.flight
  origin : ∀ e ∈ t.flight, e ∈ s.flight ∨ ∃ r ∈ replies, e = (d.other, r)
  greetings : ∀ n, t.greetings n + (if d = n ∧ m.isHello then 1 else 0) = s.greetings n

def Delivers (s t : Session ι) : Prop := ∃ d m replies, Delivery parents s t d m replies

namespace Session

variable (s : Session ι) (n : Side) (x : ι)

def Carries (form : List ι → Message ι) : Prop := ∃ l, (n, form l) ∈ s.flight ∧ x ∈ l

def Announced : Prop := s.Carries n x .heads

def Requested : Prop := s.Carries n.other x .want

def Sent : Prop := s.Carries n x .events

def Mentions : Prop := s.Announced n x ∨ s.Requested n x ∨ s.Sent n x

/-- The learner `n` knows the node, or is bound to know it. -/
def Covered : Prop := ¬ (s.peer n).Unknown x ∨ s.Requested n x ∨ s.Sent n x

/-- Whatever the learner waits for or will be told of is stored by its source. -/
def Trusted : Prop :=
  ∀ x, x ∈ (s.peer n).waiting ∨ s.Mentions n x → x ∈ (s.peer n.other).stored

def Awake : Prop :=
  ∀ x ∈ (s.peer n).waiting, (∃ p ∈ parents x, p ∉ (s.peer n).stored) ∧
    ∀ p ∈ parents x, s.Covered n p

def Reported (S : Set ι) : Prop :=
  ∀ x ∈ S, ∃ y, Reaches parents x y ∧ (s.Announced n y ∨ s.Covered n y)

end Session

variable {parents} {s t : Session ι} {d n : Side} {m : Message ι} {replies : List (Message ι)}

theorem Peer.Sound.receives {p p' : Peer ι} (hp : p.Sound parents)
    (h : Receives parents p m p' replies) : p'.Sound parents := by
  rcases h.eq_or_events with rfl | ⟨l, rfl, ha⟩
  · exact hp
  · refine ⟨fun x hx => (ha.held_eq x).mpr (Or.inr hx), ha.closed, ha.grounded, ?_⟩
    refine (hp.finite.union l.finite_toSet).subset fun x hx => ?_
    exact (ha.known_iff x).mp hx

theorem Peer.Sound.stored_finite {p : Peer ι} (hp : p.Sound parents) : p.stored.Finite :=
  hp.finite.subset fun _ hx hu => hu.1 hx

theorem Receives.delivery {pre post : List (Side × Message ι)} {p' : Peer ι} (errors : ℕ)
    (hflight : s.flight = pre ++ (d, m) :: post)
    (hrec : Receives parents (s.peer d) m p' replies) :
    Delivery parents s
      ⟨Function.update s.peer d p', pre ++ post ++ replies.map (d.other, ·), errors⟩ d m replies := by
  refine ⟨by simpa using hrec, by simp, by simp [hflight], ?_, ?_, ?_, ?_⟩
  · intro e he
    rw [hflight] at he
    simp only [List.mem_append, List.mem_cons] at he ⊢
    tauto
  · intro r hr
    simp [hr]
  · intro e he
    rw [hflight]
    simp only [List.mem_append, List.mem_cons, List.mem_map] at he ⊢
    rcases he with (he | he) | ⟨r, hr, rfl⟩
    · exact Or.inl (Or.inl he)
    · exact Or.inl (Or.inr (Or.inr he))
    · exact Or.inr ⟨r, hr, rfl⟩
  · intro n
    have hnone : (replies.map (d.other, ·)).countP (fun e => decide (e.1 = n) && e.2.isHello)
        = 0 := by
      rw [List.countP_eq_zero]
      intro e he
      obtain ⟨r, hr, rfl⟩ := List.mem_map.mp he
      simp [hrec.not_hello r hr]
    simp only [Session.greetings, hflight, List.countP_append, List.countP_cons, hnone,
      Bool.and_eq_true, decide_eq_true_eq]
    omega

theorem Step.delivers (h : Step parents s t) (herr : t.errors = s.errors) :
    Delivers parents s t := by
  cases h with
  | @receive pre post d m p' replies hflight hrec => exact ⟨d, m, replies, hrec.delivery _ hflight⟩
  | fail _ => simp at herr

def Drops (s t : Session ι) : Prop := t.peer = s.peer ∧ ∀ e ∈ t.flight, e ∈ s.flight

variable (parents) in
def Moves (s t : Session ι) : Prop := Delivers parents s t ∨ Drops s t

theorem Step.moves (h : Step parents s t) : Moves parents s t := by
  by_cases herr : t.errors = s.errors
  · exact Or.inl (h.delivers herr)
  · cases h with
    | receive _ _ => exact absurd rfl herr
    | fail hflight =>
      refine Or.inr ⟨rfl, fun e he => ?_⟩
      rw [hflight]
      simp only [List.mem_append, List.mem_cons] at he ⊢
      tauto

theorem Drops.mentions (h : Drops s t) {x : ι} (hx : t.Mentions n x) : s.Mentions n x := by
  rcases hx with ⟨l, hl, hx⟩ | ⟨l, hl, hx⟩ | ⟨l, hl, hx⟩
  · exact Or.inl ⟨l, h.2 _ hl, hx⟩
  · exact Or.inr (Or.inl ⟨l, h.2 _ hl, hx⟩)
  · exact Or.inr (Or.inr ⟨l, h.2 _ hl, hx⟩)

theorem errors_mono (h : Relation.ReflTransGen (Step parents) s t) : s.errors ≤ t.errors := by
  induction h with
  | refl => exact le_refl _
  | tail _ hstep ih => cases hstep <;> simp only <;> omega

theorem delivers_of_errors_eq (h : Relation.ReflTransGen (Step parents) s t)
    (herr : t.errors = s.errors) : Relation.ReflTransGen (Delivers parents) s t := by
  induction h with
  | refl => exact .refl
  | tail hrun hstep ih =>
    have hle := errors_mono hrun
    have hle' := errors_mono (.single hstep)
    exact (ih (by omega)).tail (hstep.delivers (by omega))

namespace Delivery

theorem sound (h : Delivery parents s t d m replies) (hs : ∀ n, (s.peer n).Sound parents)
    (n : Side) : (t.peer n).Sound parents := by
  rcases n.eq_or_other d with rfl | rfl
  · exact (hs _).receives h.receives
  · rw [h.other]; exact hs _

theorem stored_mono (h : Delivery parents s t d m replies) {x : ι}
    (hx : x ∈ (s.peer n).stored) : x ∈ (t.peer n).stored := by
  rcases n.eq_or_other d with rfl | rfl
  · exact h.receives.stored_mono hx
  · rw [h.other]; exact hx

theorem known_mono (h : Delivery parents s t d m replies) {x : ι}
    (hx : ¬ (s.peer n).Unknown x) : ¬ (t.peer n).Unknown x := by
  rcases n.eq_or_other d with rfl | rfl
  · exact fun hu => hx (h.receives.unknown_mono hu)
  · rw [h.other]; exact hx

theorem carries (h : Delivery parents s t d m replies) {x : ι} {form : List ι → Message ι}
    (hx : t.Carries n x form) :
    s.Carries n x form ∨ n = d.other ∧ ∃ l, form l ∈ replies ∧ x ∈ l := by
  obtain ⟨l, hl, hxl⟩ := hx
  rcases h.origin _ hl with hs | ⟨r, hr, he⟩
  · exact Or.inl ⟨l, hs, hxl⟩
  · obtain ⟨rfl, rfl⟩ := Prod.mk.inj he
    exact Or.inr ⟨rfl, l, hr, hxl⟩

theorem carries_or (h : Delivery parents s t d m replies) {x : ι} {form : List ι → Message ι}
    (hx : s.Carries n x form) : t.Carries n x form ∨ n = d ∧ ∃ l, m = form l ∧ x ∈ l := by
  obtain ⟨l, hl, hxl⟩ := hx
  rcases h.kept _ hl with he | ht
  · obtain ⟨rfl, rfl⟩ := Prod.mk.inj he
    exact Or.inr ⟨rfl, l, rfl, hxl⟩
  · exact Or.inl ⟨l, ht, hxl⟩

theorem announced (h : Delivery parents s t d m replies) {x : ι} (hx : t.Announced n x) :
    s.Announced n x ∨ n = d.other ∧ m = .hello ∧ IsHead parents (s.peer n.other).stored x := by
  rcases h.carries hx with hs | ⟨rfl, l, hl, hxl⟩
  · exact Or.inl hs
  · rw [Side.other_other]
    have hrec := h.receives
    generalize t.peer d = p' at hrec
    cases hrec with
    | hello hc =>
      obtain ⟨_, _, he, hids⟩ := hc.1 _ hl
      cases he
      exact Or.inr ⟨rfl, rfl, hids x hxl⟩
    | helloEmpty _ =>
      cases List.mem_singleton.mp hl
      cases hxl
    | heads hc => obtain ⟨_, _, he, _⟩ := hc.1 _ hl; cases he
    | want hc => obtain ⟨_, _, he, _⟩ := hc.1 _ hl; cases he
    | events _ hc => obtain ⟨_, _, he, _⟩ := hc.1 _ hl; cases he

theorem requested (h : Delivery parents s t d m replies) {x : ι} (hx : t.Requested n x) :
    s.Requested n x ∨ (s.peer n).Unknown x ∧ s.Announced n x
      ∨ ((∃ l, (n, .events l) ∈ s.flight) ∧ ∃ y ∈ (t.peer n).waiting, x ∈ parents y) := by
  rcases h.carries hx with hs | ⟨hn, l, hl, hxl⟩
  · exact Or.inl hs
  · have hn : n = d := by simpa using congrArg Side.other hn
    subst hn
    have hrec := h.receives
    have hmem := h.mem
    generalize t.peer n = p' at hrec ⊢
    cases hrec with
    | hello hc => obtain ⟨_, _, he, _⟩ := hc.1 _ hl; cases he
    | helloEmpty _ => cases List.mem_singleton.mp hl
    | heads hc =>
      obtain ⟨_, _, he, hids⟩ := hc.1 _ hl
      cases he
      exact Or.inr (Or.inl ⟨(hids x hxl).2, _, hmem, (hids x hxl).1⟩)
    | want hc => obtain ⟨_, _, he, _⟩ := hc.1 _ hl; cases he
    | events _ hc =>
      obtain ⟨_, _, he, hids⟩ := hc.1 _ hl
      cases he
      exact Or.inr (Or.inr ⟨⟨_, hmem⟩, (hids x hxl).1⟩)

theorem dispatched (h : Delivery parents s t d m replies) {x : ι} (hx : t.Sent n x) :
    s.Sent n x ∨ s.Requested n x := by
  rcases h.carries hx with hs | ⟨rfl, l, hl, hxl⟩
  · exact Or.inl hs
  · have hrec := h.receives
    have hmem := h.mem
    generalize t.peer d = p' at hrec
    cases hrec with
    | hello hc => obtain ⟨_, _, he, _⟩ := hc.1 _ hl; cases he
    | helloEmpty _ => cases List.mem_singleton.mp hl
    | heads hc => obtain ⟨_, _, he, _⟩ := hc.1 _ hl; cases he
    | want hc =>
      obtain ⟨_, _, he, hids⟩ := hc.1 _ hl
      cases he
      exact Or.inr ⟨_, by rwa [Side.other_other], (hids x hxl).1⟩
    | events _ hc => obtain ⟨_, _, he, _⟩ := hc.1 _ hl; cases he

theorem peer_eq_or_events (h : Delivery parents s t d m replies) (n : Side) :
    t.peer n = s.peer n ∨ d = n ∧ ∃ l, m = .events l ∧ Accepts parents (s.peer n) l (t.peer n) := by
  rcases n.eq_or_other d with rfl | rfl
  · exact h.receives.eq_or_events.imp_right fun hl => ⟨rfl, hl⟩
  · exact Or.inl h.other

theorem known (h : Delivery parents s t d m replies) {x : ι} (hx : ¬ (t.peer n).Unknown x) :
    ¬ (s.peer n).Unknown x ∨ s.Sent n x := by
  rcases h.peer_eq_or_events n with hpeer | ⟨rfl, l, rfl, ha⟩
  · rw [hpeer] at hx
    exact Or.inl hx
  · exact ((ha.known_iff x).mp hx).imp_right fun hl => ⟨l, h.mem, hl⟩

theorem waiting_not_stored (h : Delivery parents s t d m replies)
    (hs : ∀ n, ∀ x ∈ (s.peer n).waiting, x ∉ (s.peer n).stored) (n : Side) :
    ∀ x ∈ (t.peer n).waiting, x ∉ (t.peer n).stored := by
  rcases h.peer_eq_or_events n with hpeer | ⟨rfl, l, rfl, ha⟩
  · rw [hpeer]
    exact hs n
  · intro x hx hstored
    obtain ⟨y, hy, hmissing⟩ := ha.blocked x hx
    exact hmissing (ha.closed x hstored y hy)

theorem waiting (h : Delivery parents s t d m replies) {x : ι} (hx : x ∈ (t.peer n).waiting) :
    x ∈ (s.peer n).waiting ∨ s.Sent n x := by
  rcases h.peer_eq_or_events n with hpeer | ⟨rfl, l, rfl, ha⟩
  · rw [hpeer] at hx
    exact Or.inl hx
  · obtain ⟨y, hy, hmissing⟩ := ha.blocked x hx
    have hnot : x ∉ (s.peer d).stored := fun hs =>
      hmissing (ha.closed x (ha.stored_mono x hs) y hy)
    rcases h.known (fun hu => hu.2 hx) with hk | hs
    · refine Or.inl ?_
      by_contra hw
      exact hk ⟨hnot, hw⟩
    · exact Or.inr hs

theorem trusted (h : Delivery parents s t d m replies) (hs : ∀ n, (s.peer n).Sound parents)
    (htrust : s.Trusted n) : t.Trusted n := by
  have hwait : ∀ x ∈ (t.peer n).waiting, x ∈ (t.peer n.other).stored := by
    intro x hx
    refine h.stored_mono (htrust x ?_)
    rcases h.waiting hx with hx | hx
    · exact Or.inl hx
    · exact Or.inr (Or.inr (Or.inr hx))
  rintro x (hx | hx | hx | hx)
  · exact hwait x hx
  · rcases h.announced hx with hx | ⟨_, _, hx⟩
    · exact h.stored_mono (htrust x (Or.inr (Or.inl hx)))
    · exact h.stored_mono hx.1
  · rcases h.requested hx with hx | ⟨_, hx⟩ | ⟨_, y, hy, hx⟩
    · exact h.stored_mono (htrust x (Or.inr (Or.inr (Or.inl hx))))
    · exact h.stored_mono (htrust x (Or.inr (Or.inl hx)))
    · exact (h.sound hs _).closed y (hwait y hy) x hx
  · rcases h.dispatched hx with hx | hx
    · exact h.stored_mono (htrust x (Or.inr (Or.inr (Or.inr hx))))
    · exact h.stored_mono (htrust x (Or.inr (Or.inr (Or.inl hx))))

theorem covered (h : Delivery parents s t d m replies) (hs : ∀ n, (s.peer n).Sound parents)
    (htrust : s.Trusted n) {x : ι} (hx : s.Covered n x) : t.Covered n x := by
  rcases hx with hx | hx | hx
  · exact Or.inl (h.known_mono hx)
  · have hstored := htrust x (Or.inr (Or.inr (Or.inl hx)))
    rcases h.carries_or hx with ht | ⟨rfl, l, rfl, hxl⟩
    · exact Or.inr (Or.inl ht)
    · refine Or.inr (Or.inr ?_)
      have hrec := h.receives
      generalize t.peer n.other = p' at hrec
      cases hrec with
      | want hc =>
        obtain ⟨l', hl', hx'⟩ := hc.2 x ⟨hxl, (hs _).held x hstored⟩
        exact ⟨l', by simpa using h.sent _ hl', hx'⟩
  · rcases h.carries_or hx with ht | ⟨rfl, l, rfl, hxl⟩
    · exact Or.inr (Or.inr ht)
    · have hrec := h.receives
      generalize ht : t.peer n = p' at hrec
      cases hrec with
      | events ha _ => exact Or.inl (by rw [ht]; exact (ha.known_iff x).mpr (Or.inr hxl))

theorem announced_or_covered (h : Delivery parents s t d m replies) {x : ι}
    (hx : s.Announced n x) : t.Announced n x ∨ t.Covered n x := by
  rcases h.carries_or hx with ht | ⟨rfl, l, rfl, hxl⟩
  · exact Or.inl ht
  · right
    by_cases hu : (s.peer n).Unknown x
    · have hrec := h.receives
      generalize t.peer n = p' at hrec
      cases hrec with
      | heads hc =>
        obtain ⟨l', hl', hx'⟩ := hc.2 x ⟨hxl, hu⟩
        exact Or.inr (Or.inl ⟨l', h.sent _ hl', hx'⟩)
    · exact Or.inl (h.known_mono hu)

theorem reported (h : Delivery parents s t d m replies) (hs : ∀ n, (s.peer n).Sound parents)
    (htrust : s.Trusted n) {S : Set ι} (hrep : s.Reported parents n S) :
    t.Reported parents n S := by
  intro x hx
  obtain ⟨y, hreach, hy⟩ := hrep x hx
  refine ⟨y, hreach, ?_⟩
  rcases hy with hy | hy
  · exact h.announced_or_covered hy
  · exact Or.inr (h.covered hs htrust hy)

theorem reported_of_hello (h : Delivery parents s t n.other .hello replies)
    (hs : ∀ n, (s.peer n).Sound parents) : t.Reported parents n (s.peer n.other).stored := by
  intro x hx
  have hrec := h.receives
  generalize t.peer n.other = p' at hrec
  cases hrec with
  | hello hc =>
    obtain ⟨y, hy, hreach⟩ := exists_head (hs _).stored_finite (hs _).grounded hx
    obtain ⟨l, hl, hyl⟩ := hc.2 y hy
    exact ⟨y, hreach, Or.inl ⟨l, by simpa using h.sent _ hl, hyl⟩⟩
  | helloEmpty hnone => exact absurd hx (hnone x)

theorem awake_of_events (h : Delivery parents s t n (.events l) replies) :
    t.Awake parents n := by
  intro x hx
  have hrec := h.receives
  generalize ht : t.peer n = p' at hrec hx
  cases hrec with
  | events ha hc =>
    refine ⟨by simpa [ht] using ha.blocked x hx, fun p hp => ?_⟩
    by_cases hu : p'.Unknown p
    · obtain ⟨l', hl', hp'⟩ := hc.2 p ⟨⟨x, hx, hp⟩, hu⟩
      exact Or.inr (Or.inl ⟨l', h.sent _ hl', hp'⟩)
    · exact Or.inl (by rwa [ht])

theorem awake (h : Delivery parents s t d m replies) (hs : ∀ n, (s.peer n).Sound parents)
    (htrust : s.Trusted n) (hawake : s.Awake parents n) : t.Awake parents n := by
  rcases h.peer_eq_or_events n with hpeer | ⟨rfl, l, rfl, _⟩
  · intro x hx
    rw [hpeer] at hx ⊢
    obtain ⟨hmissing, hcovered⟩ := hawake x hx
    exact ⟨hmissing, fun p hp => h.covered hs htrust (hcovered p hp)⟩
  · exact h.awake_of_events

end Delivery

end ChatCommons.AntiEntropy
