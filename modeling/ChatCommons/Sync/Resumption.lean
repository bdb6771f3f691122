import ChatCommons.Sync.Agreement

namespace ChatCommons

open Collections Dag AntiEntropy

variable {C : Crypto} {E : Set SignedEvent}

/-- A peer after any calls, with any replies lost: `receive` of any message, and `ingest`
into its node of valid events of its community. All events are in `E`. -/
inductive SyncPeer.Reached (C : Crypto) (E : Set SignedEvent) : SyncPeer → Prop
  | new {node community peer} : node.Sound C →
      (∀ {id : EventId} {event : SignedEvent}, node.store.rows[id]? = some event → event ∈ E) →
      SyncPeer.new node community = .ok peer → Reached C E peer
  | withStorageQuota {peer peer' maxBytes} : Reached C E peer →
      peer.withStorageQuota maxBytes = .ok peer' → Reached C E peer'
  | receive {peer message} : Reached C E peer → (∀ event ∈ message.batch, event ∈ E) →
      Reached C E (peer.receive C message).1
  | ingest {peer events} : Reached C E peer → (∀ event ∈ events, event ∈ E) →
      (∀ event ∈ events, event.Valid C) → (∀ event ∈ events, event.belongsTo peer.community) →
      Reached C E { peer with node := (peer.node.ingest C events).1 }

theorem withStorageQuota_eq {peer peer' : SyncPeer} {maxBytes : ℕ}
    (h : peer.withStorageQuota maxBytes = .ok peer') :
    peer' = { peer with maxStoredEventBytes := some maxBytes } := by
  rw [SyncPeer.withStorageQuota] at h
  split_ifs at h
  split at h
  · cases h
  · split_ifs at h
    exact (Except.ok.inj h).symm

section Preserved

variable {peer : SyncPeer} (h : peer.Honest C E) (hE : Set.InjOn SignedEvent.eventId E)
include h hE

theorem receive_honest {message : SyncMessage} (hevents : ∀ event ∈ message.batch, event ∈ E) :
    (peer.receive C message).1.Honest C E := by
  cases hvalid : validateMessage C message with
  | error error => simpa only [SyncPeer.receive, hvalid] using h
  | ok u =>
    by_cases hcommunity : message.community = peer.community
    · rcases receive_spec h hE ⟨hvalid, hcommunity, hevents⟩ with ⟨_, hrec, _⟩ | ⟨_, _, hrec, ha⟩
      · rwa [hrec]
      · rw [hrec]
        exact ha.honest
    · simpa only [SyncPeer.receive, hvalid, if_pos hcommunity] using h

theorem ingest_honest {events : List SignedEvent} (hevents : ∀ event ∈ events, event ∈ E)
    (hvalid : ∀ event ∈ events, event.Valid C)
    (hbelongs : ∀ event ∈ events, event.belongsTo peer.community) :
    ({ peer with node := (peer.node.ingest C events).1 } : SyncPeer).Honest C E := by
  have hspec : ∀ {id : EventId} {event : SignedEvent}, (offeredOf events)[id]? = some event ↔
      event ∈ events ∧ event.eventId = id :=
    offeredOf_spec fun a ha b hb hab => hE (hevents a ha) (hevents b hb) hab
  have hoffered : Offered C peer.node.store peer.community (offeredOf events) := by
    refine ⟨fun he => (hspec.mp he).2, fun he => hvalid _ (hspec.mp he).1,
      fun he => hbelongs _ (hspec.mp he).1, fun he hrow => ?_⟩
    exact hE (h.rows hrow) (hevents _ (hspec.mp he).1)
      ((h.node.rowId hrow).trans (hspec.mp he).2.symm)
  by_cases hlength : events.length > MAX_PENDING_EVENTS
  · rw [CoreNode.ingest, if_pos hlength]
    exact h
  · by_cases hcommunity : peer.node.community = some peer.community ∨
        peer.node.community = none ∧ ∃ event ∈ events, event.content.communityId = none
    · obtain ⟨node', _, hingest, hin, _⟩ :=
        ingest_spec h.node (not_lt.mp hlength) hvalid hbelongs hoffered hcommunity
      rw [hingest]
      refine ⟨hin.sound, fun c hc => ?_, fun hrow => ?_, h.pendingId, h.pendingIn,
        h.pendingValid, h.pendingBelongs⟩
      · rcases hin.community with heq | heq
        · exact h.community c (heq ▸ hc)
        · exact Option.some.inj (hc.symm.trans heq)
      · rcases hin.rows.mp hrow with hrow | ⟨_, hrow⟩
        · exact h.rows hrow
        · exact hevents _ (hspec.mp hrow).1
    · have hnone : peer.node.community = none := by
        cases hc : peer.node.community with
        | none => rfl
        | some c => exact absurd (Or.inl (by rw [hc, h.community c hc])) hcommunity
      have hfind : events.find? (fun event => event.content.communityId.isNone) = none := by
        refine List.find?_eq_none.mpr fun event he hgenesis =>
          hcommunity (Or.inr ⟨hnone, event, he, ?_⟩)
        simpa using hgenesis
      simpa only [CoreNode.ingest, if_neg hlength, forM_validateEvent.mpr hvalid,
        CoreNode.ingestCommunity, hnone, hfind] using h

end Preserved

theorem SyncPeer.Reached.honest {peer : SyncPeer} (hE : Set.InjOn SignedEvent.eventId E)
    (h : peer.Reached C E) : peer.Honest C E := by
  induction h with
  | new hnode hrows hnew => exact new_honest hnode hrows hnew
  | withStorageQuota _ hquota ih =>
    rw [withStorageQuota_eq hquota]
    exact ⟨ih.node, ih.community, ih.rows, ih.pendingId, ih.pendingIn, ih.pendingValid,
      ih.pendingBelongs⟩
  | receive _ hevents ih => exact receive_honest ih hE hevents
  | ingest _ hevents hvalid hbelongs ih => exact ingest_honest ih hE hevents hvalid hbelongs

section Session

variable {community : CommunityId} {peer : Side → SyncPeer} {n : Side} {s t : SyncSession}

theorem errors_eq_nil (hs : s.Coherent C E community) (hE : Set.InjOn SignedEvent.eventId E)
    (h : s.Steps C t) (ht : t.errors = []) : s.errors = [] := by
  have hle := errors_mono (hs.run hE h).2
  rw [← List.length_eq_zero_iff] at ht ⊢
  simp only [SyncSession.view] at hle
  omega

theorem greetings_eq_zero {flight : List (Side × SyncMessage)} {errors : List (Side × SyncError)} :
    (SyncSession.mk peer flight errors).view.greetings n = 0 ↔
      ∀ e ∈ flight, e.1 = n → e.2.view.isHello = false := by
  simp [SyncSession.view, AntiEntropy.Session.greetings, List.countP_eq_zero]

theorem greetings_cons {pre post : List (Side × SyncMessage)} {e : Side × SyncMessage}
    {errors : List (Side × SyncError)} (he : e.1 = n ∧ e.2.view.isHello) :
    (SyncSession.mk peer (pre ++ e :: post) errors).view.greetings n =
      (SyncSession.mk peer (pre ++ post) errors).view.greetings n + 1 := by
  simp [SyncSession.view, AntiEntropy.Session.greetings, List.countP_append, he]
  omega

theorem greeting_answered (hs : s.Coherent C E community) (hE : Set.InjOn SignedEvent.eventId E)
    (hstep : s.Step C t) (hone : s.view.greetings n = 1) {hello : SyncMessage}
    (hview : hello.view = .hello) (hmem : (n, hello) ∈ s.flight) (hgone : (n, hello) ∉ t.flight) :
    t.view.greetings n = 0 := by
  obtain ⟨pre, post, d, message, hflight, hcases⟩ := hs.step_cases hE hstep
  have hkept : ∀ e ∈ pre ++ post, e ∈ t.flight := by
    intro e he
    rcases hcases with ⟨_, _, rfl⟩ | ⟨_, _, _, rfl⟩
    · exact he
    · exact List.mem_append_left _ he
  have hthis : (n, hello) = (d, message) := by
    rw [hflight] at hmem
    by_contra hne
    refine hgone (hkept _ ?_)
    simp only [List.mem_append, List.mem_cons] at hmem ⊢
    tauto
  obtain ⟨rfl, rfl⟩ := Prod.mk.inj hthis
  obtain ⟨speer, sflight, serrors⟩ := s
  simp only at hflight
  subst hflight
  rw [greetings_cons ⟨rfl, by rw [hview]; rfl⟩] at hone
  have hrest := greetings_eq_zero.mp (Nat.succ.inj hone)
  rcases hcases with ⟨_, _, rfl⟩ | ⟨peer', replies, ha, rfl⟩
  · exact greetings_eq_zero.mpr hrest
  · refine greetings_eq_zero.mpr fun e he => ?_
    rcases List.mem_append.mp he with he | he
    · exact hrest e he
    · obtain ⟨r, hr, rfl⟩ := List.mem_map.mp he
      exact fun _ => ha.receives.not_hello _ (List.mem_map_of_mem hr)

end Session

/-- A learner that was cut off keeps what it has pending, and the next session completes
its history exactly when nothing is pending, or when the answer to its greeting names a
head that is neither stored nor pending. -/
theorem resumed_sync_complete_iff {community : CommunityId} {peer : Side → SyncPeer} {n : Side}
    (hE : Set.InjOn SignedEvent.eventId E) (hpeer : ∀ d, (peer d).Reached C E)
    (hsame : ∀ d, (peer d).community = community)
    (hpending : ∀ id ∈ (peer n).pending, id ∈ (peer n.other).node.known)
    {s₁ s₂ t : SyncSession} (hbefore : (SyncSession.start peer).Steps C s₁)
    (hanswer : s₁.Step C s₂) (hhello : (n.other, (peer n).hello) ∈ s₁.flight)
    (hanswered : (n.other, (peer n).hello) ∉ s₂.flight) (hafter : s₂.Steps C t)
    (hmax : ∀ u, ¬ t.Step C u) (hok : t.errors = []) :
    ((∀ id ∈ (peer n.other).node.known, id ∈ (t.peer n).node.known ∧ id ∉ (t.peer n).pending) ↔
      (peer n).pending.size = 0 ∨
        ∃ id, IsHead (s₁.peer n.other).node.parents (s₁.peer n.other).node.knownSet id ∧
          (peer n).isUnknown id = true) ∧
    ((peer n.other).pending.size = 0 → ∀ id ∈ (t.peer n.other).node.known,
      id ∈ (peer n.other).node.known ∨ id ∈ (peer n).node.known) := by
  have hhonest : ∀ d, (peer d).Honest C E := fun d => (hpeer d).honest hE
  have hs := SyncSession.start_coherent hhonest hsame
  have hs₁ := (hs.run hE hbefore).1
  have hs₂ := hs₁.step hE hanswer
  have herr₂ := errors_eq_nil hs₂ hE hafter hok
  have herr₁ := errors_eq_nil hs₁ hE (.single hanswer) herr₂
  have hd₁ := hs.delivers hE hbefore rfl herr₁
  have hd₂ := (hs₁.refines hE hanswer).delivers (by simp [SyncSession.view, herr₁, herr₂])
  have hd₃ := hs₂.delivers hE hafter herr₂ hok
  have hflight : t.view.flight = [] := by
    simp [SyncSession.view, SyncSession.flight_empty_of_stuck hmax]
  rw [SyncSession.start_view] at hd₁
  have hsound := fun d => (hhonest d).sound hE
  have hlearner := coherent_start (n := n) hsound hpending
  have hview : ((peer n).hello).view = .hello := rfl
  have hpositive : 0 < s₁.view.greetings n.other := by
    refine Nat.pos_of_ne_zero fun hzero => ?_
    have := greetings_eq_zero.mp hzero _ hhello rfl
    simp [hview, Message.isHello] at this
  have hone := (still_before hd₁ hpositive).2.2
  have hgone := greeting_answered hs₁ hE hanswer hone hview hhello hanswered
  constructor
  · refine (resumption_iff hlearner hd₁ hd₂ hpositive hgone hd₃ hflight).trans (or_congr ?_ ?_)
    · constructor
      · intro hnone
        exact Nat.le_zero.mp (map_size_le (l := []) fun id hid => absurd hid (hnone id))
      · intro hsize id hid
        have := map_size_erase hid
        omega
    · refine exists_congr fun id => and_congr ?_ isUnknown_iff.symm
      exact (hs₁.honest n.other).isHead_iff hE
  · intro hsize id hid
    have hsource := coherent_start (n := n.other) hsound fun id hid => by
      have := map_size_erase hid
      omega
    have hboth : ∀ d, (AntiEntropy.Session.start fun d => (peer d).view).Coherent (parentsOf E) d := by
      intro d
      rcases d.eq_or_other n with rfl | rfl
      · exact hlearner
      · exact hsource
    obtain ⟨d, hd⟩ := stored_of_start hboth
      (moves_of_delivers ((hd₁.tail hd₂).trans hd₃)) n.other id hid
    rcases d.eq_or_other n with rfl | rfl
    · exact Or.inr hd
    · exact Or.inl hd

section Interrupted

open Sample

def cutPeer : SyncPeer := ((chainPeers 0 0 .right).receive crypto (.events community [link 1])).1

def cutPeers : Side → SyncPeer
  | .left => chainPeers 2 0 .left
  | .right => cutPeer

theorem cutPeers_reached (d : Side) : (cutPeers d).Reached crypto (rowEvents (chainNodes 2 0)) := by
  have hsound := chainNodes_sound (m := 2) (n := 0) (by decide) (by decide)
  cases d with
  | left => exact .new (hsound .left) (fun hrow => ⟨.left, _, hrow⟩) (chainNodes_new 2 0 .left)
  | right =>
    refine .receive (.new (hsound .right) (fun hrow => ⟨.right, _, hrow⟩) (chainNodes_new 2 0 .right))
      fun event he => ?_
    rw [List.mem_singleton.mp he]
    exact ⟨.left, linkId 1, (chainNode_row (by decide)).mpr ⟨1, by omega, rfl, rfl⟩⟩

def cutRun : ℕ → SyncSession
  | 0 => SyncSession.start cutPeers
  | k + 1 => (cutRun k).next crypto

theorem cutRun_steps (j k : ℕ) : (cutRun j).Steps crypto (cutRun (j + k)) := by
  induction k with
  | zero => exact .refl
  | succ k ih => exact ih.trans (SyncSession.next_steps _)

theorem cut_checked : (cutPeers .left).community = community ∧
    (cutPeers .right).community = community ∧ (cutRun 1).flight ≠ [] ∧
    (cutRun 4).flight = [] ∧ (cutRun 4).errors = [] ∧
    (∀ id ∈ cutPeer.pending.keys, id ∈ (cutPeers .left).node.known) ∧
    linkId 1 ∈ (cutPeers .left).node.known ∧
    linkId 1 ∈ ((cutRun 4).peer .right).pending ∧
    (Side.right.other, (cutPeers .right).hello) ∈ (cutRun 1).flight ∧
    (Side.right.other, (cutPeers .right).hello) ∉ (cutRun 2).flight := by decide +kernel

theorem cutPeers_community (d : Side) : (cutPeers d).community = community := by
  cases d with
  | left => exact cut_checked.1
  | right => exact cut_checked.2.1

theorem cutRun_end : (cutRun 4).flight = [] ∧ (cutRun 4).errors = [] := by
  obtain ⟨_, _, _, hflight, herrors, _⟩ := cut_checked
  exact ⟨hflight, herrors⟩

theorem cutPeers_pending :
    ∀ id ∈ (cutPeers .right).pending, id ∈ (cutPeers .left).node.known := by
  obtain ⟨_, _, _, _, _, hkeys, _⟩ := cut_checked
  exact fun id hid => hkeys id (Std.ExtTreeMap.mem_keys.mpr hid)

theorem resumed_sync_complete_iff_cut :
    ((∀ id ∈ (cutPeers Side.right.other).node.known, id ∈ ((cutRun 4).peer .right).node.known ∧
        id ∉ ((cutRun 4).peer .right).pending) ↔
      (cutPeers .right).pending.size = 0 ∨
        ∃ id, IsHead ((cutRun 1).peer Side.right.other).node.parents
          ((cutRun 1).peer Side.right.other).node.knownSet id ∧
          (cutPeers .right).isUnknown id = true) ∧
    ((cutPeers Side.right.other).pending.size = 0 →
      ∀ id ∈ ((cutRun 4).peer Side.right.other).node.known,
        id ∈ (cutPeers Side.right.other).node.known ∨ id ∈ (cutPeers .right).node.known) := by
  obtain ⟨_, _, hflight, _, _, _, _, _, hhello, hanswered⟩ := cut_checked
  exact resumed_sync_complete_iff (chainNodes_injOn (m := 2) (n := 0) (by decide) (by decide))
    cutPeers_reached cutPeers_community cutPeers_pending (cutRun_steps 0 1)
    (SyncSession.next_step hflight) hhello hanswered (cutRun_steps 2 2)
    (SyncSession.stuck_of_flight_empty cutRun_end.1) cutRun_end.2

/-- After the cut the only head of the source is pending already, so nothing is asked for. -/
theorem interrupted_sync_not_resumed :
    ¬ ∀ {E : Set SignedEvent} {community : CommunityId} {peer : Side → SyncPeer} {n : Side},
      Set.InjOn SignedEvent.eventId E → (∀ d, (peer d).Reached crypto E) →
      (∀ d, (peer d).community = community) →
      (∀ id ∈ (peer n).pending, id ∈ (peer n.other).node.known) →
      ∀ t, (SyncSession.start peer).Steps crypto t → (∀ u, ¬ t.Step crypto u) → t.errors = [] →
        ∀ id ∈ (peer n.other).node.known,
          id ∈ (t.peer n).node.known ∧ id ∉ (t.peer n).pending := by
  intro hall
  obtain ⟨_, _, _, _, _, _, hknown, hpending, _⟩ := cut_checked
  have hend := hall (n := .right) (chainNodes_injOn (m := 2) (n := 0) (by decide) (by decide))
    cutPeers_reached cutPeers_community cutPeers_pending (cutRun 4) (cutRun_steps 0 4)
    (SyncSession.stuck_of_flight_empty cutRun_end.1) cutRun_end.2 (linkId 1) hknown
  exact hend.2 hpending

end Interrupted

end ChatCommons
