import ChatCommons.General.AntiEntropyTermination
import ChatCommons.Sync.ReceiveSpec

namespace ChatCommons

open Collections AntiEntropy

variable {C : Crypto} {E : Set SignedEvent} {community : CommunityId} {s t : SyncSession}

def rowEvents (node : Side → CoreNode) : Set SignedEvent :=
  {event | ∃ d, ∃ id : EventId, (node d).store.rows[id]? = some event}

namespace SyncSession

def view (s : SyncSession) : AntiEntropy.Session EventId where
  peer d := (s.peer d).view
  flight := s.flight.map fun e => (e.1, e.2.view)
  errors := s.errors.length

structure Coherent (C : Crypto) (E : Set SignedEvent) (community : CommunityId) (s : SyncSession) :
    Prop where
  honest : ∀ d, (s.peer d).Honest C E
  same : ∀ d, (s.peer d).community = community
  fit : ∀ e ∈ s.flight, e.2.Fit C E community

theorem view_update (peer : Side → SyncPeer) (d : Side) (peer' : SyncPeer) :
    (fun n => (Function.update peer d peer' n).view) =
      Function.update (fun n => (peer n).view) d peer'.view := by
  funext n
  by_cases hn : n = d
  · subst hn; simp
  · simp [hn]

/-- A step is a refusal that changes no peer, or an answer. -/
theorem Coherent.step_cases (hs : s.Coherent C E community)
    (hE : Set.InjOn SignedEvent.eventId E) (h : s.Step C t) :
    ∃ pre post d message, s.flight = pre ++ (d, message) :: post ∧
      ((∃ error, Refuses (s.peer d) message.batch error ∧
          t = ⟨s.peer, pre ++ post, s.errors ++ [(d, error)]⟩) ∨
        ∃ peer' replies, Answers C E (s.peer d) message peer' replies ∧
          t = ⟨Function.update s.peer d peer', pre ++ post ++ replies.map (d.other, ·),
            s.errors⟩) := by
  cases h with
  | @deliver pre post d message hflight =>
  refine ⟨pre, post, d, message, hflight, ?_⟩
  have hfit : message.Fit C E (s.peer d).community := by
    rw [hs.same d]
    exact hs.fit (d, message) (by rw [hflight]; simp)
  rcases receive_spec (hs.honest d) hE hfit with ⟨error, hrec, hrefuses⟩ | ⟨p', replies, hrec, ha⟩
  · refine Or.inl ⟨error, hrefuses, ?_⟩
    simp only [SyncSession.deliver, hrec, Function.update_eq_self]
  · refine Or.inr ⟨p', replies, ha, ?_⟩
    simp only [SyncSession.deliver, hrec]

theorem Coherent.step (hs : s.Coherent C E community) (hE : Set.InjOn SignedEvent.eventId E)
    (h : s.Step C t) : t.Coherent C E community := by
  obtain ⟨pre, post, d, message, hflight, ⟨error, _, rfl⟩ | ⟨peer', replies, ha, rfl⟩⟩ :=
    hs.step_cases hE h
  · refine ⟨hs.honest, hs.same, fun e he => hs.fit e ?_⟩
    rw [hflight]
    simp only [List.mem_append, List.mem_cons] at he ⊢
    tauto
  · refine ⟨fun n => ?_, fun n => ?_, fun e he => ?_⟩
    · by_cases hn : n = d
      · subst hn; simpa using ha.honest
      · simpa [hn] using hs.honest n
    · by_cases hn : n = d
      · subst hn; simpa using ha.community.trans (hs.same n)
      · simpa [hn] using hs.same n
    · rcases List.mem_append.mp he with he | he
      · refine hs.fit e ?_
        rw [hflight]
        simp only [List.mem_append, List.mem_cons] at he ⊢
        tauto
      · obtain ⟨m, hm, rfl⟩ := List.mem_map.mp he
        rw [← hs.same d]
        exact ha.replies m hm

/-- The session refines the abstract exchange. -/
theorem Coherent.refines (hs : s.Coherent C E community) (hE : Set.InjOn SignedEvent.eventId E)
    (h : s.Step C t) : AntiEntropy.Step (parentsOf E) s.view t.view := by
  obtain ⟨pre, post, d, message, hflight, ⟨error, _, rfl⟩ | ⟨peer', replies, ha, rfl⟩⟩ :=
    hs.step_cases hE h
  · have hview : s.view.flight = (pre.map fun e => (e.1, e.2.view)) ++
        (d, message.view) :: post.map fun e => (e.1, e.2.view) := by simp [view, hflight]
    convert AntiEntropy.Step.fail hview using 1
    simp [view]
  · have hview : s.view.flight = (pre.map fun e => (e.1, e.2.view)) ++
        (d, message.view) :: post.map fun e => (e.1, e.2.view) := by simp [view, hflight]
    convert AntiEntropy.Step.receive hview ha.receives using 1
    simp [view, view_update]

theorem Coherent.run (hs : s.Coherent C E community) (hE : Set.InjOn SignedEvent.eventId E)
    (h : s.Steps C t) : t.Coherent C E community ∧
      Relation.ReflTransGen (AntiEntropy.Step (parentsOf E)) s.view t.view := by
  induction h with
  | refl => exact ⟨hs, .refl⟩
  | tail _ hstep ih => exact ⟨ih.1.step hE hstep, ih.2.tail (ih.1.refines hE hstep)⟩

theorem Coherent.acc (hs : s.Coherent C E community) (hE : Set.InjOn SignedEvent.eventId E)
    (hacc : Acc (fun b a => AntiEntropy.Step (parentsOf E) a b) s.view) :
    Acc (fun t s => s.Step C t) s := by
  obtain ⟨v, hv⟩ : ∃ v, v = s.view := ⟨_, rfl⟩
  rw [← hv] at hacc
  induction hacc generalizing s with
  | intro v _ ih =>
    subst hv
    exact Acc.intro s fun t ht => ih t.view (hs.refines hE ht) (hs.step hE ht) rfl

theorem next_step (h : s.flight ≠ []) : s.Step C (s.next C) := by
  obtain ⟨peer, flight, errors⟩ := s
  cases flight with
  | nil => exact absurd rfl h
  | cons e rest => exact @Step.deliver C _ [] rest e.1 e.2 rfl

theorem next_steps (s : SyncSession) : s.Steps C (s.next C) := by
  by_cases hflight : s.flight = []
  · rw [next, hflight]
  · exact .single (next_step hflight)

theorem stuck_of_flight_empty (h : s.flight = []) (u : SyncSession) : ¬ s.Step C u := by
  rintro ⟨hsplit⟩
  simp [h] at hsplit

theorem flight_empty_of_stuck (h : ∀ u, ¬ s.Step C u) : s.flight = [] := by
  cases hflight : s.flight with
  | nil => rfl
  | cons e rest =>
    exact absurd (@Step.deliver C s [] rest e.1 e.2 hflight) (h _)

end SyncSession

theorem within_start (peer : Side → SyncPeer) :
    ∃ U : Finset EventId, Within U (SyncSession.start peer).view := by
  let U : Finset EventId := (Finset.univ : Finset Bool).biUnion fun b =>
    let p := if b then peer .left else peer .right
    (p.node.store.rows.keys ++ p.node.known.toList ++ p.pending.keys).toFinset
  have hmem : ∀ d id, id ∈ (peer d).node.store.rows ∨ id ∈ (peer d).node.known ∨
      id ∈ (peer d).pending → id ∈ U := by
    intro d id h
    refine Finset.mem_biUnion.mpr ⟨decide (d = .left), Finset.mem_univ _, ?_⟩
    cases d <;> simpa [or_assoc] using h
  refine ⟨U, fun d => ⟨fun id h => ?_, fun id h => ?_, fun id h => ?_⟩, fun d l hl => ?_⟩
  · exact hmem d id (Or.inl h)
  · exact hmem d id (Or.inr (Or.inl h))
  · exact hmem d id (Or.inr (Or.inr h))
  · simp [SyncSession.view, SyncSession.start, SyncPeer.hello, SyncMessage.view] at hl

end ChatCommons
