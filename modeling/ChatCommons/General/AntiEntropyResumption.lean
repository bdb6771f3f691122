import ChatCommons.General.AntiEntropyAgreement

/-!
A learner that already waits for nodes when the exchange begins asks for their
parents only after it is sent something, so all depends on whether its source
announces a node it does not know.
-/

namespace ChatCommons.AntiEntropy

open Dag

variable {ι : Type} {parents : ι → List ι} {s t : Session ι} {n d : Side} {m : Message ι}
  {replies : List (Message ι)}

def Session.Promised (s : Session ι) (n : Side) : Prop :=
  ∃ y, (s.peer n).Unknown y ∧ s.Mentions n y

/-- Nothing is on its way that would make the learner ask or move. -/
structure Session.Still (s : Session ι) (n : Side) : Prop where
  want : ∀ l, (n.other, .want l) ∉ s.flight
  events : ∀ l, (n, .events l) ∉ s.flight
  heads : ∀ y, s.Announced n y → ¬ (s.peer n).Unknown y

theorem promised_step (hs : s.Coherent parents n) (h : Delivery parents s t d m replies)
    (hp : s.Promised n) : t.Awake parents n ∨ t.Promised n := by
  rcases h.peer_eq_or_events n with hpeer | ⟨rfl, l, rfl, _⟩
  · right
    obtain ⟨y, hu, hy⟩ := hp
    rw [← hpeer] at hu
    refine ⟨y, hu, ?_⟩
    have hcovered : s.Requested n y ∨ s.Sent n y → t.Requested n y ∨ t.Sent n y := fun hy =>
      (h.covered hs.sound hs.trusted (Or.inr hy)).resolve_left fun hk => hk hu
    rcases hy with hy | hy
    · rcases h.announced_or_covered hy with ht | ht
      · exact Or.inl ht
      · exact Or.inr (ht.resolve_left fun hk => hk hu)
    · exact Or.inr (hcovered hy)
  · exact Or.inl h.awake_of_events

theorem awake_of_promised (hs : s.Coherent parents n)
    (hrun : Relation.ReflTransGen (Delivers parents) s t) (hflight : t.flight = [])
    (hp : s.Promised n) : t.Awake parents n := by
  have hor : t.Awake parents n ∨ t.Promised n :=
    run_induction hs hrun (P := fun s => s.Awake parents n ∨ s.Promised n) (Or.inr hp)
      fun _ _ _ _ _ hs hd h => by
        rcases h with h | h
        · exact Or.inl (hd.awake hs.sound hs.trusted h)
        · exact promised_step hs hd h
  refine hor.resolve_right ?_
  rintro ⟨y, _, hy | hy | hy⟩
  all_goals exact not_carries hflight _ _ _ hy

theorem still_step (h : Delivery parents s t d m replies) (hstill : s.Still n)
    (hhello : d = n.other → m = .hello →
      ∀ y, IsHead parents (s.peer n.other).stored y → ¬ (s.peer n).Unknown y) :
    t.Still n ∧ t.peer n = s.peer n := by
  have hpeer : t.peer n = s.peer n := by
    rcases h.peer_eq_or_events n with hpeer | ⟨rfl, l, rfl, _⟩
    · exact hpeer
    · exact absurd h.mem (hstill.events l)
  have hrec := h.receives
  have hmem := h.mem
  refine ⟨⟨fun l hl => ?_, fun l hl => ?_, fun y hy => ?_⟩, hpeer⟩
  · rcases h.origin _ hl with hl | ⟨r, hr, he⟩
    · exact hstill.want l hl
    · obtain ⟨hn, rfl⟩ := Prod.mk.inj he
      have hn : n = d := by simpa using congrArg Side.other hn
      subst hn
      generalize t.peer n = p' at hrec
      cases hrec with
      | hello hc => obtain ⟨_, _, he, _⟩ := hc.1 _ hr; cases he
      | helloEmpty _ => cases List.mem_singleton.mp hr
      | heads hc =>
        obtain ⟨l', hne, _, hids⟩ := hc.1 _ hr
        obtain ⟨x, hx⟩ := List.exists_mem_of_ne_nil l' hne
        exact hstill.heads x ⟨_, hmem, (hids x hx).1⟩ (hids x hx).2
      | want hc => obtain ⟨_, _, he, _⟩ := hc.1 _ hr; cases he
      | events _ _ => exact hstill.events _ hmem
  · rcases h.origin _ hl with hl | ⟨r, hr, he⟩
    · exact hstill.events l hl
    · obtain ⟨rfl, rfl⟩ := Prod.mk.inj he
      generalize t.peer d = p' at hrec
      cases hrec with
      | hello hc => obtain ⟨_, _, he, _⟩ := hc.1 _ hr; cases he
      | helloEmpty _ => cases List.mem_singleton.mp hr
      | heads hc => obtain ⟨_, _, he, _⟩ := hc.1 _ hr; cases he
      | want _ => exact hstill.want _ (by rwa [Side.other_other])
      | events _ hc => obtain ⟨_, _, he, _⟩ := hc.1 _ hr; cases he
  · rw [hpeer]
    rcases h.announced hy with hy | ⟨hn, hm, hy⟩
    · exact hstill.heads y hy
    · exact hhello (by rw [hn, Side.other_other]) hm y hy

theorem still_before {peer : Side → Peer ι}
    (hrun : Relation.ReflTransGen (Delivers parents) (Session.start peer) s)
    (hgreeting : 0 < s.greetings n.other) :
    s.Still n ∧ s.peer n = peer n ∧ s.greetings n.other = 1 := by
  induction hrun with
  | refl =>
    refine ⟨⟨fun l hl => ?_, fun l hl => ?_, fun y hy => ?_⟩, rfl, ?_⟩
    · simp [Session.start] at hl
    · simp [Session.start] at hl
    · obtain ⟨l, hl, _⟩ := hy
      simp [Session.start] at hl
    · cases n <;> rfl
  | tail _ hstep ih =>
    obtain ⟨d, m, replies, hd⟩ := hstep
    have hcount := hd.greetings n.other
    obtain ⟨hstill, hpeer, hone⟩ := ih (by omega)
    have hnot : ¬ (d = n.other ∧ m.isHello) := by
      intro hm
      rw [if_pos hm] at hcount
      omega
    rw [if_neg hnot] at hcount
    obtain ⟨hstill', hpeer'⟩ := still_step hd hstill fun hn hm => by
      simp [hn, hm, Message.isHello] at hnot
    exact ⟨hstill', hpeer'.trans hpeer, by omega⟩

theorem still_after (hrun : Relation.ReflTransGen (Delivers parents) s t)
    (hgreeting : s.greetings n.other = 0) (hstill : s.Still n) : t.peer n = s.peer n := by
  have hall : t.Still n ∧ t.peer n = s.peer n ∧ t.greetings n.other = 0 := by
    induction hrun with
    | refl => exact ⟨hstill, rfl, hgreeting⟩
    | tail _ hstep ih =>
      obtain ⟨d, m, replies, hd⟩ := hstep
      obtain ⟨hstill, hpeer, hzero⟩ := ih
      have hcount := hd.greetings n.other
      obtain ⟨hstill', hpeer'⟩ := still_step hd hstill fun hn hm => by
        simp [hn, hm, Message.isHello, hzero] at hcount
      exact ⟨hstill', hpeer'.trans hpeer, by omega⟩
  exact hall.2.1

/-- An exchange repairs the learner exactly when it waits for nothing at its
beginning, or the answer to its greeting announces a node it does not know. -/
theorem resumption_iff {peer : Side → Peer ι} {s₁ s₂ : Session ι}
    (hs : (Session.start peer).Coherent parents n)
    (hbefore : Relation.ReflTransGen (Delivers parents) (Session.start peer) s₁)
    (hanswer : Delivers parents s₁ s₂) (hgreeting : 0 < s₁.greetings n.other)
    (hanswered : s₂.greetings n.other = 0)
    (hafter : Relation.ReflTransGen (Delivers parents) s₂ t) (hflight : t.flight = []) :
    (∀ x ∈ (peer n.other).stored, x ∈ (t.peer n).stored ∧ x ∉ (t.peer n).waiting) ↔
      (∀ x, x ∉ (peer n).waiting) ∨
        ∃ y, IsHead parents (s₁.peer n.other).stored y ∧ (peer n).Unknown y := by
  obtain ⟨hstill, hpeer, hone⟩ := still_before hbefore hgreeting
  have hrun := (hbefore.tail hanswer).trans hafter
  obtain ⟨d, m, replies, hd⟩ := id hanswer
  have hcount := hd.greetings n.other
  have hthis : d = n.other ∧ m.isHello := by
    by_contra hnot
    rw [if_neg hnot] at hcount
    omega
  obtain ⟨rfl, hm⟩ := hthis
  have hm : m = .hello := by cases m <;> simp_all [Message.isHello]
  subst hm
  constructor
  · intro hall
    by_contra hcond
    push Not at hcond
    obtain ⟨⟨x, hx⟩, hknown⟩ := hcond
    obtain ⟨hstill₂, hpeer₂⟩ := still_step hd hstill fun _ _ y hy => by
      rw [hpeer]
      exact hknown y hy
    have hend : t.peer n = peer n := (still_after hafter hanswered hstill₂).trans (hpeer₂.trans hpeer)
    refine (hall x (hs.trusted x (Or.inl hx))).2 ?_
    rw [hend]
    exact hx
  · rintro (hwait | ⟨y, hhead, hu⟩)
    · obtain ⟨hall, hnone⟩ := learns_all hs hrun hflight hwait
      exact fun x hx => ⟨hall x hx, hnone x⟩
    · have hs₁ := hs.run hbefore
      have hs₂ := hs₁.moves (Or.inl hanswer)
      have hpeer₂ : s₂.peer n = s₁.peer n := by simpa using hd.other
      have hpromised : s₂.Promised n := by
        refine ⟨y, by rwa [hpeer₂, hpeer], Or.inl ?_⟩
        have hrec := hd.receives
        generalize s₂.peer n.other = p' at hrec
        cases hrec with
        | hello hc =>
          obtain ⟨l, hl, hyl⟩ := hc.2 y hhead
          exact ⟨l, by simpa using hd.sent _ hl, hyl⟩
        | helloEmpty hnone => exact absurd hhead.1 (hnone y)
      have hawake := awake_of_promised hs₂ hafter hflight hpromised
      have ht := hs₂.run hafter
      have hrep : t.Reported parents n (peer n.other).stored := by
        have h := greeted_run hs hrun (fun x hx => hx) (greeted_start _)
        exact h.resolve_left (by simp [hflight])
      exact fun x hx => ⟨stored_of_reported hflight ht hawake hrep hx,
        waiting_empty hflight ht hawake x⟩

end ChatCommons.AntiEntropy
