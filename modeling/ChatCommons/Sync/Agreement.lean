import ChatCommons.General.AntiEntropyResumption
import ChatCommons.Sample.ChainPeers

namespace ChatCommons

open Collections AntiEntropy

variable {C : Crypto} {E : Set SignedEvent} {community : CommunityId} {peer : Side → SyncPeer}

theorem new_eq {node : CoreNode} {p : SyncPeer} (h : SyncPeer.new node community = .ok p) :
    p = { node, community } ∧ ∀ c, node.community = some c → c = community := by
  rw [SyncPeer.new] at h
  split_ifs at h with hany
  refine ⟨(Except.ok.inj h).symm, fun c hc => ?_⟩
  simpa [hc] using hany

theorem new_honest {node : CoreNode} {p : SyncPeer} (hnode : node.Sound C)
    (hrows : ∀ {id : EventId} {event : SignedEvent}, node.store.rows[id]? = some event → event ∈ E)
    (h : SyncPeer.new node community = .ok p) : p.Honest C E := by
  obtain ⟨rfl, hcommunity⟩ := new_eq h
  exact ⟨hnode, hcommunity, hrows, by simp, by simp, by simp, by simp⟩

namespace SyncSession

theorem start_coherent (hhonest : ∀ d, (peer d).Honest C E)
    (hsame : ∀ d, (peer d).community = community) :
    (start peer).Coherent C E community := by
  refine ⟨hhonest, hsame, ?_⟩
  have hhello : ∀ d, ((peer d).hello).Fit C E community := fun d =>
    ⟨validateMessage_iff.mpr ⟨by simp [SyncPeer.hello, validateBody, MAX_VERSIONS],
      hello_fits (peer d).community⟩, hsame d, by simp [SyncPeer.hello, SyncMessage.batch]⟩
  intro e he
  simp only [start, List.mem_cons, List.not_mem_nil, or_false] at he
  rcases he with rfl | rfl
  · exact hhello _
  · exact hhello _

theorem start_view : (start peer).view = AntiEntropy.Session.start fun d => (peer d).view := rfl

/-- The steps of a run without errors are the deliveries of an abstract run. -/
theorem Coherent.delivers {s t : SyncSession} (hs : s.Coherent C E community)
    (hE : Set.InjOn SignedEvent.eventId E) (h : s.Steps C t) (hs0 : s.errors = [])
    (ht : t.errors = []) : Relation.ReflTransGen (Delivers (parentsOf E)) s.view t.view :=
  delivers_of_errors_eq (hs.run hE h).2 (by simp [view, hs0, ht])

end SyncSession

theorem steps_acc {s : SyncSession} (hE : Set.InjOn SignedEvent.eventId E)
    (hs : (SyncSession.start peer).Coherent C E community)
    (hrun : (SyncSession.start peer).Steps C s) : Acc (fun t s => s.Step C t) s := by
  obtain ⟨U, hU⟩ := within_start peer
  have hstart := hs.acc hE (step_acc hU)
  induction hrun with
  | refl => exact hstart
  | tail _ hstep ih => exact ih.inv hstep

section Fresh

variable {node : Side → CoreNode} (hnode : ∀ d, (node d).Sound C)
  (hnew : ∀ d, SyncPeer.new (node d) community = .ok (peer d))
  (hinj : Set.InjOn SignedEvent.eventId (rowEvents node))
include hnode hnew

theorem fresh_honest (d : Side) : (peer d).Honest C (rowEvents node) :=
  new_honest (hnode d) (fun hrow => ⟨d, _, hrow⟩) (hnew d)

theorem fresh_coherent : (SyncSession.start peer).Coherent C (rowEvents node) community :=
  SyncSession.start_coherent (fresh_honest hnode hnew) fun d => by rw [(new_eq (hnew d)).1]

include hinj

theorem fresh_agrees {t : SyncSession} (hrun : (SyncSession.start peer).Steps C t)
    (hflight : t.flight = []) (hok : t.errors = []) (d : Side) :
    (∀ id, id ∈ (t.peer d).node.known ↔
        id ∈ (node .left).known ∨ id ∈ (node .right).known) ∧
      (t.peer d).pending.size = 0 := by
  have hpeer := fun d => (new_eq (hnew d)).1
  have hdelivers := (fresh_coherent hnode hnew).delivers hinj hrun rfl hok
  rw [SyncSession.start_view] at hdelivers
  obtain ⟨hstored, hwaiting⟩ := agreement (fun n => (fresh_honest hnode hnew n).sound hinj)
    (fun n x hx => by simp [hpeer n, SyncPeer.view] at hx) hdelivers
    (by simp [SyncSession.view, hflight]) d
  refine ⟨fun id => ?_, ?_⟩
  · have hid := Set.ext_iff.mp hstored id
    rw [hpeer .left, hpeer .right] at hid
    exact hid
  · refine Nat.le_zero.mp (map_size_le (l := []) fun id hid => ?_)
    have hmem : id ∈ (t.view.peer d).waiting := hid
    rw [hwaiting] at hmem
    exact absurd hmem (Set.notMem_empty id)

end Fresh

/-- Two peers that greet each other stop after finitely many deliveries, and unless a
message was refused both then store the union of their histories. -/
theorem sync_terminates_and_agrees {node : Side → CoreNode} (hnode : ∀ d, (node d).Sound C)
    (hnew : ∀ d, SyncPeer.new (node d) community = .ok (peer d))
    (hinj : Set.InjOn SignedEvent.eventId (rowEvents node)) :
    Acc (fun t s => s.Step C t) (SyncSession.start peer) ∧
      ∀ t, (SyncSession.start peer).Steps C t → (∀ u, ¬ t.Step C u) → t.errors = [] →
        ∀ d, (∀ id, id ∈ (t.peer d).node.known ↔
            id ∈ (node .left).known ∨ id ∈ (node .right).known) ∧
          (t.peer d).pending.size = 0 :=
  ⟨steps_acc hinj (fresh_coherent hnode hnew) .refl, fun _ hrun hmax hok d =>
    fresh_agrees hnode hnew hinj hrun (SyncSession.flight_empty_of_stuck hmax) hok d⟩

open Sample in
theorem sync_terminates_and_agrees_chain :
    Acc (fun t s => s.Step crypto t) (SyncSession.start (chainPeers 2 0)) ∧
      ∀ t, (SyncSession.start (chainPeers 2 0)).Steps crypto t → (∀ u, ¬ t.Step crypto u) →
        t.errors = [] → ∀ d, (∀ id, id ∈ (t.peer d).node.known ↔
            id ∈ (chainNodes 2 0 .left).known ∨ id ∈ (chainNodes 2 0 .right).known) ∧
          (t.peer d).pending.size = 0 :=
  sync_terminates_and_agrees (chainNodes_sound (by decide) (by decide)) (chainNodes_new 2 0)
    (chainNodes_injOn (by decide) (by decide))

end ChatCommons
