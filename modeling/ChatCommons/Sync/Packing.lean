import ChatCommons.Sample.Chain
import ChatCommons.Sync.MessageSpec

/-!
Packing is greedy: a batch is closed only when the event after it does not fit.
-/

namespace ChatCommons

variable {C : Crypto} {community : CommunityId} {events batch : List SignedEvent}
  {event : SignedEvent}

/-- The batch cannot take the event. -/
def Overflows (community : CommunityId) (batch : List SignedEvent) (event : SignedEvent) : Prop :=
  MAX_EVENTS_PER_MESSAGE < (batch ++ [event]).length ∨
    MAX_SYNC_JSON_BYTES < (SyncMessage.events community (batch ++ [event])).toJson.length

/-- The next batch begins with an event for which this one has no room. -/
def Closes (community : CommunityId) (batch next : List SignedEvent) : Prop :=
  ∀ event ∈ next.head?, Overflows community batch event

theorem validateEvents_not_tooLarge : validateEvents C events ≠ .error .tooLarge := by
  unfold validateEvents
  split_ifs
  · simp
  · simp
  · cases events.forM (validateEvent C) <;> simp

theorem tooLarge_length
    (h : validateMessage C (.events community batch) = .error .tooLarge) :
    MAX_SYNC_JSON_BYTES < (SyncMessage.events community batch).toJson.length := by
  by_contra hfits
  rw [validateMessage, if_neg hfits] at h
  cases hbody : validateBody C (.events community batch) with
  | error error =>
    rw [hbody] at h
    obtain rfl : error = .tooLarge := Except.error.inj h
    exact validateEvents_not_tooLarge hbody
  | ok u =>
    rw [hbody] at h
    cases h

namespace Packing

/-- The batches so far, the open one last. -/
def Greedy (community : CommunityId) (p : Packing) : Prop :=
  ∃ full : List (List SignedEvent), p.messages = full.map (.events community) ∧
    (p.batch = [] → full = []) ∧ (full ++ [p.batch]).IsChain (Closes community)

theorem greedy_start : Greedy community {} := ⟨[], rfl, fun _ => rfl, List.IsChain.singleton _⟩

theorem Greedy.flush {p : Packing} (h : p.Greedy community)
    (hfull : Overflows community p.batch event) :
    Greedy community
      { messages := p.messages ++ [.events community p.batch], batch := [event] } := by
  obtain ⟨full, hmessages, _, hchain⟩ := h
  refine ⟨full ++ [p.batch], by simp [hmessages], by simp, ?_⟩
  apply List.isChain_append.mpr
  refine ⟨hchain, List.IsChain.singleton _, fun last hlast next hnext => ?_⟩
  rw [List.getLast?_concat, Option.mem_some_iff] at hlast
  rw [List.head?_cons, Option.mem_some_iff] at hnext
  subst hlast hnext
  intro first hfirst
  rw [List.head?_cons, Option.mem_some_iff] at hfirst
  rwa [← hfirst]

theorem Greedy.extend {p : Packing} (h : p.Greedy community) :
    Greedy community { p with batch := p.batch ++ [event] } := by
  obtain ⟨full, hmessages, hfirst, hchain⟩ := h
  refine ⟨full, hmessages, by simp, ?_⟩
  by_cases hempty : p.batch = []
  · rw [hfirst hempty]
    exact List.IsChain.singleton _
  · obtain ⟨hfull, _, hclosed⟩ := List.isChain_append.mp hchain
    apply List.isChain_append.mpr
    refine ⟨hfull, List.IsChain.singleton _, fun last hlast next hnext => ?_⟩
    rw [List.head?_cons, Option.mem_some_iff] at hnext
    subst hnext
    intro first hfirst
    apply hclosed last hlast p.batch (by simp) first
    rwa [List.head?_append_of_ne_nil _ hempty] at hfirst

theorem Greedy.pack {p p' : Packing} (h : p.Greedy community)
    (hp : packEvent C community p event = .ok p') : p'.Greedy community := by
  unfold packEvent at hp
  dsimp only at hp
  split_ifs at hp with hflush hempty
  · rw [List.isEmpty_iff] at hempty
    obtain ⟨hcandidate, _⟩ := Fallible.unit_bind_eq_ok.mp hp
    rcases hflush with hlength | htooLarge
    · rw [hempty] at hlength
      simp [MAX_EVENTS_PER_MESSAGE] at hlength
    · rw [htooLarge] at hcandidate
      cases hcandidate
  · rw [List.isEmpty_iff] at hempty
    have hfull : Overflows community p.batch event := by
      rcases hflush with hlength | htooLarge
      · left
        rw [List.length_append, List.length_singleton]
        omega
      · exact Or.inr (tooLarge_length htooLarge)
    obtain ⟨_, hp⟩ := Fallible.unit_bind_eq_ok.mp hp
    obtain ⟨_, hp⟩ := Fallible.unit_bind_eq_ok.mp hp
    rw [← Except.ok.inj hp]
    exact h.flush hfull
  · obtain ⟨_, hp⟩ := Fallible.unit_bind_eq_ok.mp hp
    rw [← Except.ok.inj hp]
    exact h.extend

end Packing

theorem packEvents_greedy {messages : List SyncMessage}
    (h : packEvents C community events = .ok messages) :
    ∃ batches : List (List SignedEvent), messages = batches.map (.events community) ∧
      batches.IsChain (Closes community) := by
  obtain ⟨p, hp, hmessages⟩ := Fallible.bind_eq_ok.mp h
  obtain ⟨full, hfull, _, hchain⟩ := Fallible.foldlM_preserves (Packing.Greedy community)
    (fun _ _ _ hs hgreedy => hgreedy.pack hs) hp Packing.greedy_start
  rw [← Except.ok.inj hmessages]
  split_ifs with hempty
  · exact ⟨full, hfull, (List.isChain_append.mp hchain).1⟩
  · exact ⟨full ++ [p.batch], by simp [hfull], hchain⟩

theorem events_injective : Function.Injective (SyncMessage.events community) :=
  fun _ _ h => (SyncMessage.events.inj h).2

/-- Valid events in the order of their ids are packed without loss, and no batch but the last
has room for the event that follows it. -/
theorem packing_complete (hvalid : ∀ event ∈ events, validateEvent C event = .ok ())
    (hsorted : strictlySorted (events.map SignedEvent.eventId) = true) (community : CommunityId) :
    ∃ batches : List (List SignedEvent),
      packEvents C community events = .ok (batches.map (.events community)) ∧
      batches.flatten = events ∧
      (∀ batch ∈ batches, batch ≠ [] ∧ batch.length ≤ MAX_EVENTS_PER_MESSAGE ∧
        validateMessage C (.events community batch) = .ok ()) ∧
      ∀ before batch event next after, batches = before ++ batch :: (event :: next) :: after →
        MAX_EVENTS_PER_MESSAGE < (batch ++ [event]).length ∨
          MAX_SYNC_JSON_BYTES <
            (SyncMessage.events community (batch ++ [event])).toJson.length := by
  obtain ⟨batches, hpack, hflat, hbatches⟩ := packEvents_spec
    (fun event he => validateEvent_iff.mp (hvalid event he))
    ((strictlySorted_iff _).mp hsorted) community
  refine ⟨batches, hpack, hflat, fun batch hbatch => ?_, ?_⟩
  · obtain ⟨hne, hok⟩ := hbatches batch hbatch
    exact ⟨hne, (validateEvents_iff.mp (validateMessage_iff.mp hok).1).2.1, hok⟩
  · intro before batch event next after hsplit
    obtain ⟨others, hothers, hchain⟩ := packEvents_greedy hpack
    obtain rfl := List.map_injective_iff.mpr events_injective hothers
    rw [hsplit] at hchain
    have hclosed := (List.isChain_append.mp hchain).2.1
    exact (List.isChain_cons_cons.mp hclosed).1 event rfl

open Sample in
theorem chain_strictlySorted :
    strictlySorted ((chain 65).map SignedEvent.eventId) = true := by
  have hids : (chain 65).map SignedEvent.eventId = (List.range 65).map linkId := by
    rw [chain, List.map_map]
    exact List.map_congr_left fun n _ => link_eventId n
  rw [hids]
  decide +kernel

open Sample in
theorem packing_complete_chain : ∃ batches : List (List SignedEvent),
    packEvents crypto Sample.community (chain 65) =
        .ok (batches.map (.events Sample.community)) ∧
      batches.flatten = chain 65 ∧
      (∀ batch ∈ batches, batch ≠ [] ∧ batch.length ≤ MAX_EVENTS_PER_MESSAGE ∧
        validateMessage crypto (.events Sample.community batch) = .ok ()) ∧
      ∀ before batch event next after, batches = before ++ batch :: (event :: next) :: after →
        MAX_EVENTS_PER_MESSAGE < (batch ++ [event]).length ∨
          MAX_SYNC_JSON_BYTES <
            (SyncMessage.events Sample.community (batch ++ [event])).toJson.length :=
  packing_complete (fun event hevent => by
    obtain ⟨k, hk, rfl⟩ := mem_chain.mp hevent
    exact validateEvent_iff.mpr (link_valid (by simp only [MAX_PAYLOAD_BYTES]; omega)))
    chain_strictlySorted Sample.community

end ChatCommons
