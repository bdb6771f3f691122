import ChatCommons.General.AntiEntropyRequests
import ChatCommons.Model.RequestSession
import ChatCommons.Network.FollowUps
import ChatCommons.Network.HeadsGate
import ChatCommons.Sample.Brawl
import ChatCommons.Sync.Agreement

/-!
How often a peer asks for an event. It forgets what it has asked for, so it asks again for an
event whose answer is still on its way; it never asks for an event that it has.
-/

namespace ChatCommons

open Collections AntiEntropy

variable {C : Crypto} {E : Set SignedEvent} {community : CommunityId} {s t : RequestSession}

section Replies

variable {peer : SyncPeer} {message : SyncMessage} {replies outgoing : List SyncMessage}

theorem splitWants_view (messages : List SyncMessage) :
    (splitWants messages).map SyncMessage.view =
      (messages.map SyncMessage.view).flatMap Message.split := by
  induction messages with
  | nil => rfl
  | cons message messages ih =>
    rw [List.map_cons, List.flatMap_cons, ← ih, splitWants, List.flatMap_cons, List.map_append]
    apply congrArg (· ++ _)
    cases message with
    | want c ids =>
      dsimp only [SyncMessage.view, Message.split]
      rw [List.map_map]
      rfl
    | hello _ _ _ | heads _ _ | events _ _ => rfl

theorem normalizeMessages_eq (h : normalizeMessages replies = .ok outgoing) :
    outgoing = splitWants replies := by
  unfold normalizeMessages at h
  dsimp only at h
  split_ifs at h
  exact (Except.ok.inj h).symm

theorem splitWants_fit (h : ∀ reply ∈ replies, reply.Fit C E community) :
    ∀ message ∈ splitWants replies, message.Fit C E community := by
  intro message hmessage
  obtain ⟨reply, hreply, hmessage⟩ := List.mem_flatMap.mp hmessage
  have hfit := h reply hreply
  cases reply with
  | want c ids =>
    obtain ⟨id, _, rfl⟩ := List.mem_map.mp hmessage
    have hlength : [id].length ≤ MAX_IDS_PER_MESSAGE := by simp [MAX_IDS_PER_MESSAGE]
    have hids := validateIds_iff.mpr ⟨hlength, List.pairwise_singleton _ id⟩
    have hvalid : validateMessage C (.want c [id]) = .ok () :=
      validateMessage_iff.mpr ⟨hids, (ids_message_fits hlength c).1⟩
    exact ⟨hvalid, hfit.community, by simp [SyncMessage.batch]⟩
  | hello _ _ _ | heads _ _ | events _ _ =>
    rw [List.mem_singleton.mp hmessage]
    exact hfit

theorem wanted_iff {messages : List SyncMessage} {id : EventId} :
    id ∈ messages.flatMap SyncMessage.wanted ↔
      ∃ l, .want l ∈ messages.map SyncMessage.view ∧ id ∈ l := by
  rw [List.mem_flatMap]
  constructor
  · rintro ⟨message, hmessage, hid⟩
    cases message with
    | want c ids => exact ⟨ids, List.mem_map_of_mem (f := SyncMessage.view) hmessage, hid⟩
    | hello _ _ _ | heads _ _ | events _ _ => cases hid
  · rintro ⟨l, hl, hid⟩
    obtain ⟨message, hmessage, hview⟩ := List.mem_map.mp hl
    refine ⟨message, hmessage, ?_⟩
    cases message with
    | want c ids =>
      obtain rfl := Message.want.inj hview
      exact hid
    | hello _ _ _ | heads _ _ | events _ _ => cases hview

theorem wantMessages_wanted (community : CommunityId) (ids : List EventId) :
    (splitWants (wantMessages community ids)).flatMap SyncMessage.wanted = ids := by
  rw [splitWants_wantMessages, List.flatMap_map]
  simp [SyncMessage.wanted]

theorem wanted_nil (h : ∀ reply ∈ replies, ∀ c ids, reply ≠ .want c ids) :
    (splitWants replies).flatMap SyncMessage.wanted = [] := by
  rw [splitWants_of_not_want h, List.flatMap_eq_nil_iff]
  intro reply hreply
  cases reply with
  | want c ids => exact absurd rfl (h _ hreply c ids)
  | hello _ _ _ | heads _ _ | events _ _ => rfl

theorem receive_wanted (h : (peer.receive C message).2 = .ok replies) :
    ((splitWants replies).flatMap SyncMessage.wanted).Nodup ∧
      ((splitWants replies).flatMap SyncMessage.wanted ≠ [] → message.prompts = true) := by
  unfold SyncPeer.receive at h
  cases hvalid : validateMessage C message with
  | error error =>
    rw [hvalid] at h
    cases h
  | ok u =>
    rw [hvalid] at h
    dsimp only at h
    split_ifs at h with hcommunity
    have hbody := (validateMessage_iff.mp hvalid).1
    cases message with
    | hello _ _ _ =>
      have hnone : (splitWants replies).flatMap SyncMessage.wanted = [] := by
        apply wanted_nil
        rintro reply hreply c ids rfl
        change peer.headMessages C = .ok replies at h
        unfold SyncPeer.headMessages at h
        split at h
        · cases h
        · split_ifs at h
          · rw [← Except.ok.inj h, List.mem_singleton] at hreply
            cases hreply
          · rw [← Except.ok.inj h] at hreply
            obtain ⟨chunk, _, hchunk⟩ := List.mem_map.mp hreply
            cases hchunk
      rw [hnone]
      exact ⟨List.nodup_nil, fun hne => absurd rfl hne⟩
    | heads c ids =>
      have hsorted := (validateIds_iff.mp hbody).2
      obtain rfl := Except.ok.inj h
      rw [SyncPeer.wantUnknown, wantMessages_wanted]
      exact ⟨(hsorted.nodup).filter _, fun _ => rfl⟩
    | want c ids =>
      have hnone : (splitWants replies).flatMap SyncMessage.wanted = [] := by
        apply wanted_nil
        rintro reply hreply c ids rfl
        obtain ⟨batch, hbatch⟩ := serve_events h _ hreply
        cases hbatch
      rw [hnone]
      exact ⟨List.nodup_nil, fun hne => absurd rfl hne⟩
    | events c events =>
      change (peer.accept C events).2 = .ok replies at h
      unfold SyncPeer.accept at h
      dsimp only at h
      split_ifs at h
      split at h
      · cases h
      · split at h
        · cases h
        · obtain rfl := Except.ok.inj h
          rw [wantMessages_wanted]
          exact ⟨toList_nodup _, fun _ => rfl⟩

end Replies

namespace RequestSession

def session (s : RequestSession) : SyncSession where
  peer := s.peer
  flight := s.flight

/-- One delivery to `d` that nothing refuses, and what it makes `d` ask for. -/
structure Asks (C : Crypto) (E : Set SignedEvent) (s t : RequestSession) (d : Side)
    (message : SyncMessage) (asked : List EventId) : Prop where
  handled : t.handled = s.handled ++ [(d, message)]
  requested : t.requested = s.requested ++ asked.map (d, ·)
  nodup : asked.Nodup
  prompted : asked ≠ [] → message.prompts = true
  delivery : ∃ replies, Delivery (parentsOf E) s.session.view t.session.view d message.view replies ∧
    ∀ id, id ∈ asked ↔ ∃ l, .want l ∈ replies ∧ id ∈ l

theorem deliver_asks {pre post : List (Side × SyncMessage)} {d : Side} {message : SyncMessage}
    (hs : s.session.Coherent C E community) (hE : Set.InjOn SignedEvent.eventId E)
    (hflight : s.flight = pre ++ (d, message) :: post)
    (hok : (s.deliver C d message (pre ++ post)).errors = []) :
    s.errors = [] ∧ (s.deliver C d message (pre ++ post)).session.Coherent C E community ∧
      ∃ asked, s.Asks C E (s.deliver C d message (pre ++ post)) d message asked := by
  have hflight' : s.session.flight = pre ++ (d, message) :: post := hflight
  have hfit : message.Fit C E (s.session.peer d).community := by
    rw [hs.same d]
    exact hs.fit (d, message) (by rw [hflight']; simp)
  obtain ⟨error, hreceive, _⟩ | ⟨peer', replies, hreceive, hanswers⟩ :=
    receive_spec (hs.honest d) hE hfit
  · have hreceive' : (s.peer d).receive C message = (s.peer d, .error error) := hreceive
    rw [deliver, hreceive'] at hok
    simp at hok
  have hreceive' : (s.peer d).receive C message = (peer', .ok replies) := hreceive
  have hsame : (s.session.deliver C d message (pre ++ post)).Coherent C E community :=
    hs.step hE (.deliver hflight')
  rw [SyncSession.deliver, hreceive] at hsame
  rw [deliver, hreceive'] at hok ⊢
  dsimp only at hok ⊢
  cases hnormalized : normalizeMessages replies with
  | error reason =>
    rw [hnormalized] at hok
    simp at hok
  | ok outgoing =>
    rw [hnormalized] at hok
    obtain rfl := normalizeMessages_eq hnormalized
    obtain ⟨hnodup, hprompted⟩ := receive_wanted (congrArg Prod.snd hreceive')
    refine ⟨hok, ⟨hsame.honest, hsame.same, fun e he => ?_⟩, _,
      ⟨rfl, rfl, hnodup, hprompted, (splitWants replies).map SyncMessage.view, ?_,
        fun id => wanted_iff⟩⟩
    · obtain he | he := List.mem_append.mp he
      · exact hsame.fit e (List.mem_append_left _ he)
      · obtain ⟨outgoing, hmem, rfl⟩ := List.mem_map.mp he
        have hfits := @splitWants_fit C E community replies fun reply hreply =>
          hsame.fit (d.other, reply) (List.mem_append_right _ (List.mem_map_of_mem hreply))
        exact hfits outgoing hmem
    · have hview : s.session.view.flight = (pre.map fun e => (e.1, e.2.view)) ++
          (d, message.view) :: post.map fun e => (e.1, e.2.view) := by
        simp [SyncSession.view, hflight']
      have hrec := hanswers.receives.split
      rw [← splitWants_view] at hrec
      convert hrec.delivery 0 hview using 1
      simp [SyncSession.view, session, SyncSession.view_update]

theorem deliver_errors {d : Side} {message : SyncMessage} {rest : List (Side × SyncMessage)}
    (h : (s.deliver C d message rest).errors = []) : s.errors = [] := by
  unfold deliver at h
  dsimp only at h
  split at h
  · simp at h
  · split at h
    · simp at h
    · exact h

theorem run_coherent (hs : s.session.Coherent C E community) (hE : Set.InjOn SignedEvent.eventId E)
    (hrun : s.Steps C t) (hok : t.errors = []) : t.session.Coherent C E community ∧
      Relation.ReflTransGen (Delivers (parentsOf E)) s.session.view t.session.view := by
  induction hrun with
  | refl => exact ⟨hs, .refl⟩
  | tail _ hstep ih =>
    cases hstep with
    | deliver hflight =>
      obtain ⟨hcoherent, hdelivers⟩ := ih (deliver_errors hok)
      obtain ⟨_, hlater, asked, hasks⟩ := deliver_asks hcoherent hE hflight hok
      obtain ⟨replies, hdelivery, _⟩ := hasks.delivery
      exact ⟨hlater, hdelivers.tail ⟨_, _, _, hdelivery⟩⟩

variable {peer : Side → SyncPeer}

theorem start_session : (start peer).session = SyncSession.start peer := rfl

theorem open_of_covered {d : Side} {id : EventId} (h : s.session.view.Covered d id)
    (hunknown : (s.session.view.peer d).Unknown id) : s.Open d id := by
  obtain hknown | ⟨l, hl, hid⟩ | ⟨l, hl, hid⟩ := h
  · exact absurd hunknown hknown
  · obtain ⟨⟨n, message⟩, hmem, heq⟩ := List.mem_map.mp hl
    obtain ⟨rfl, hview⟩ := Prod.mk.inj heq
    cases message with
    | want c ids =>
      obtain rfl := Message.want.inj hview
      exact .inl ⟨c, ids, hmem, hid⟩
    | hello _ _ _ | heads _ _ | events _ _ => cases hview
  · obtain ⟨⟨n, message⟩, hmem, heq⟩ := List.mem_map.mp hl
    obtain ⟨rfl, hview⟩ := Prod.mk.inj heq
    cases message with
    | events c events =>
      obtain rfl := Message.events.inj hview
      exact .inr ⟨c, events, hmem, hid⟩
    | hello _ _ _ | heads _ _ | want _ _ => cases hview

theorem Asks.requests {d n : Side} {message : SyncMessage} {asked : List EventId}
    (h : s.Asks C E t d message asked) :
    t.requests n = s.requests n + if d = n then asked.length else 0 := by
  have hasked : (asked.map (d, ·)).countP (fun e => e.1 = n) =
      if d = n then asked.length else 0 := by
    rw [List.countP_map]
    by_cases hn : d = n
    · rw [if_pos hn, List.countP_eq_length.mpr (by simp [hn])]
    · rw [if_neg hn, List.countP_eq_zero.mpr (by simp [hn])]
  rw [RequestSession.requests, h.requested, List.countP_append, hasked]
  rfl

theorem Asks.prompts {d n : Side} {message : SyncMessage} {asked : List EventId}
    (h : s.Asks C E t d message asked) :
    t.prompts n = s.prompts n + if d = n ∧ message.prompts = true then 1 else 0 := by
  rw [RequestSession.prompts, h.handled, List.countP_append, RequestSession.prompts]
  simp [List.countP_singleton]

section Fresh

variable {node : Side → CoreNode} (hnode : ∀ d, (node d).Sound C)
  (hnew : ∀ d, SyncPeer.new (node d) community = .ok (peer d))
  (hinj : Set.InjOn SignedEvent.eventId (rowEvents node))
include hnode hnew hinj

theorem fresh_run (hrun : (start peer).Steps C s) (hok : s.errors = []) :
    s.session.Coherent C (rowEvents node) community ∧
      (∀ n, s.session.view.Coherent (parentsOf (rowEvents node)) n) ∧
      Relation.ReflTransGen (Delivers (parentsOf (rowEvents node)))
        (Session.start fun d => (peer d).view) s.session.view := by
  have hpeer := fun d => (new_eq (hnew d)).1
  obtain ⟨hcoherent, hdelivers⟩ :=
    run_coherent (s := start peer) (fresh_coherent hnode hnew) hinj hrun hok
  refine ⟨hcoherent, fun n => ?_, hdelivers⟩
  have hstart : (Session.start fun d => (peer d).view).Coherent (parentsOf (rowEvents node)) n := by
    refine coherent_start (fun n => (fresh_honest hnode hnew n).sound hinj) fun x hx => ?_
    simp [hpeer n, SyncPeer.view] at hx
  exact hstart.run hdelivers

/-- What has been asked for stays asked for, or on its way, until it is there. -/
theorem requested_covered (hrun : (start peer).Steps C s) (hok : s.errors = []) {d : Side}
    {id : EventId} (hrequested : (d, id) ∈ s.requested) : s.session.view.Covered d id := by
  induction hrun with
  | refl => simp [start] at hrequested
  | tail hmid hstep ih =>
    cases hstep with
    | @deliver pre post d' message hflight =>
      have hbefore := deliver_errors hok
      obtain ⟨hcoherent, hviews, _⟩ := fresh_run hnode hnew hinj hmid hbefore
      obtain ⟨_, _, asked, hasks⟩ := deliver_asks hcoherent hinj hflight hok
      obtain ⟨replies, hdelivery, hasked⟩ := hasks.delivery
      rw [hasks.requested] at hrequested
      obtain hold | hfresh := List.mem_append.mp hrequested
      · exact hdelivery.covered (hviews d).sound (hviews d).trusted (ih hbefore hold)
      · obtain ⟨other, hmem, heq⟩ := List.mem_map.mp hfresh
        obtain ⟨rfl, rfl⟩ := Prod.mk.inj heq
        exact hdelivery.asked_covered ((hasked other).mp hmem)

/-- What `d` is ever made to ask for is an event that only the other peer had at the start. -/
theorem asked_lacking (hrun : (start peer).Steps C s) (hok : s.errors = []) {d : Side}
    {message : SyncMessage} {asked : List EventId}
    (hasks : s.Asks C (rowEvents node) t d message asked) {id : EventId} (hid : id ∈ asked) :
    (s.session.view.peer d).Unknown id ∧ (t.session.view.peer d).Unknown id ∧
      id ∈ (s.peer d.other).node.known ∧ id ∈ (node d.other).known ∧ id ∉ (node d).known := by
  have hnodes : ∀ n id, id ∈ (peer n).view.stored ↔ id ∈ (node n).known := by
    intro n id
    rw [(new_eq (hnew n)).1]
    rfl
  obtain ⟨_, hviews, hdelivers⟩ := fresh_run hnode hnew hinj hrun hok
  obtain ⟨replies, hdelivery, hasked⟩ := hasks.delivery
  have hwanted := (hasked id).mp hid
  have hafter := hdelivery.asked_unknown hwanted
  have hbefore : (s.session.view.peer d).Unknown id := by
    by_contra hknown
    exact hdelivery.known_mono hknown hafter
  have hstored := hdelivery.asked_stored (hviews d) hwanted
  have hlacked : id ∉ (node d).known := by
    intro hmem
    have hknown : ¬ (peer d).view.Unknown id := fun h => h.1 ((hnodes d id).mpr hmem)
    exact known_mono_run hdelivers hknown hbefore
  refine ⟨hbefore, hafter, hstored, ?_, hlacked⟩
  have hstart : ∀ n, (Session.start fun d => (peer d).view).Coherent (parentsOf (rowEvents node)) n :=
    fun n => (fresh_run hnode hnew hinj (s := start peer) .refl rfl).2.1 n
  obtain ⟨n, hn⟩ := stored_of_start hstart (moves_of_delivers hdelivers) d.other id hstored
  have hmem : id ∈ (node n).known := (hnodes n id).mp hn
  obtain rfl | rfl := d.eq_or_other n
  · exact absurd hmem hlacked
  · rwa [Side.other_other]

theorem asked_length_le (hrun : (start peer).Steps C s) (hok : s.errors = []) {d : Side}
    {message : SyncMessage} {asked : List EventId}
    (hasks : s.Asks C (rowEvents node) t d message asked) :
    asked.length ≤ ((node d.other).known \ (node d).known).size := by
  rw [← Std.ExtTreeSet.length_toList]
  apply List.Subperm.length_le
  apply List.subperm_of_subset hasks.nodup
  intro id hid
  obtain ⟨_, _, _, hother, hown⟩ := asked_lacking hnode hnew hinj hrun hok hasks hid
  rw [Std.ExtTreeSet.mem_toList, Std.ExtTreeSet.mem_diff_iff]
  exact ⟨hother, hown⟩

theorem requests_le (hrun : (start peer).Steps C s) (hok : s.errors = []) (d : Side) :
    s.requests d ≤ s.prompts d * ((node d.other).known \ (node d).known).size := by
  induction hrun with
  | refl => simp [requests, start]
  | @tail mid later hmid hstep ih =>
    cases hstep with
    | @deliver pre post n message hflight =>
      have hbefore := deliver_errors hok
      have hcoherent := (fresh_run hnode hnew hinj hmid hbefore).1
      obtain ⟨_, _, asked, hasks⟩ := deliver_asks hcoherent hinj hflight hok
      have hbound := ih hbefore
      rw [hasks.requests, hasks.prompts]
      by_cases hn : n = d
      · subst hn
        have hlength := asked_length_le hnode hnew hinj hmid hbefore hasks
        by_cases hprompts : message.prompts = true
        · rw [if_pos rfl, if_pos ⟨rfl, hprompts⟩, Nat.succ_mul]
          omega
        · have hnil : asked = [] := by
            by_contra hne
            exact hprompts (hasks.prompted hne)
          rw [if_pos rfl, if_neg fun h => hprompts h.2, hnil]
          simpa using hbound
      · rw [if_neg hn, if_neg fun h => hn h.1]
        simpa using hbound

end Fresh

/-- Until a message is refused, a peer asks only for events that it lacks and the other has, for
each at most once in answer to one message, and again only while an earlier request is open. -/
theorem requests_while_open {node : Side → CoreNode} (hnode : ∀ d, (node d).Sound C)
    (hnew : ∀ d, SyncPeer.new (node d) community = .ok (peer d))
    (hinj : Set.InjOn SignedEvent.eventId (rowEvents node)) (hrun : (start peer).Steps C s)
    (hok : s.errors = []) :
    (∀ d, s.requests d ≤ s.prompts d * ((node d.other).known \ (node d).known).size) ∧
      ∀ t, s.Step C t → t.errors = [] → ∃ (d : Side) (asked : List EventId),
        t.requested = s.requested ++ asked.map (d, ·) ∧ asked.Nodup ∧ ∀ id ∈ asked,
          (s.peer d).isUnknown id = true ∧ (t.peer d).isUnknown id = true ∧
          id ∈ (s.peer d.other).node.known ∧ ((d, id) ∈ s.requested → s.Open d id) := by
  refine ⟨requests_le hnode hnew hinj hrun hok, fun t hstep ht => ?_⟩
  cases hstep with
  | @deliver pre post d message hflight =>
    have hcoherent := (fresh_run hnode hnew hinj hrun hok).1
    obtain ⟨_, _, asked, hasks⟩ := deliver_asks hcoherent hinj hflight ht
    refine ⟨d, asked, hasks.requested, hasks.nodup, fun id hid => ?_⟩
    obtain ⟨hbefore, hafter, hother, _⟩ := asked_lacking hnode hnew hinj hrun hok hasks hid
    refine ⟨isUnknown_iff.mpr hbefore, isUnknown_iff.mpr hafter, hother, fun hrequested => ?_⟩
    exact open_of_covered (requested_covered hnode hnew hinj hrun hok hrequested) hbefore

theorem next_inOrder (s : RequestSession) : Relation.ReflTransGen (InOrder C) s (s.next C) := by
  obtain ⟨peer, flight, handled, requested, errors⟩ := s
  cases flight with
  | nil => exact .refl
  | cons e rest => exact .single (@InOrder.deliver C _ [] rest e.1 e.2 rfl (by simp))

theorem nexts_inOrder (s : RequestSession) (n : ℕ) :
    Relation.ReflTransGen (InOrder C) s ((next C)^[n] s) := by
  induction n generalizing s with
  | zero => exact .refl
  | succ n ih => exact (next_inOrder s).trans (ih (s.next C))

section Example

open Sample

def fork : List SignedEvent :=
  [genesis, lobby, tell 1 [lobby] hello,
    tell 2 [lobby] (.messageCreate (bigEndianBytes 32 7) "hello to you")]

def forkNodes : Side → CoreNode
  | .left => CoreNode.ofEvents club [genesis]
  | .right => CoreNode.ofEvents club fork

def forkPeers (d : Side) : SyncPeer := { node := forkNodes d, community := club }

theorem fork_checked : isListed crypto club [] [genesis] = true ∧
    isListed crypto club [] fork = true := by decide +kernel

theorem forkNodes_sound (d : Side) : (forkNodes d).Sound crypto := by
  cases d
  · exact (listed_of_isListed fork_checked.1).sound
  · exact (listed_of_isListed fork_checked.2).sound

theorem forkNodes_new (d : Side) : SyncPeer.new (forkNodes d) club = .ok (forkPeers d) := by
  cases d <;> simp [SyncPeer.new, forkPeers, forkNodes, CoreNode.ofEvents, fork]

theorem forkNodes_injOn : Set.InjOn SignedEvent.eventId (rowEvents forkNodes) := by
  have hfork := listed_of_isListed fork_checked.2
  have hmem : ∀ event ∈ rowEvents forkNodes, event ∈ fork := by
    rintro event ⟨d, id, hrow⟩
    cases d
    · have hgenesis := ((listed_of_isListed fork_checked.1).row_iff.mp hrow).1
      rw [List.mem_singleton.mp hgenesis]
      simp [fork]
    · exact (hfork.row_iff.mp hrow).1
  intro a ha b hb hab
  exact hfork.injOn a (hmem a ha) b (hmem b hb) hab

def forked (n : ℕ) : RequestSession := (next crypto)^[n] (start forkPeers)

theorem forked_checked : (forked 4).errors = [] ∧ (forked 8).errors = [] ∧
    (forked 8).requested.count (.left, lobby.eventId) = 2 ∧ (forked 8).requests .left = 4 ∧
    ((forkNodes .right).known \ (forkNodes .left).known).size = 3 := by decide +kernel

theorem steps_of_inOrder {s t : RequestSession} (h : Relation.ReflTransGen (InOrder C) s t) :
    s.Steps C t := by
  induction h with
  | refl => exact .refl
  | tail _ hstep ih =>
    cases hstep with
    | deliver hflight _ => exact ih.tail (.deliver hflight)

theorem requests_while_open_forked :
    (∀ d, (forked 4).requests d ≤ (forked 4).prompts d *
      ((forkNodes d.other).known \ (forkNodes d).known).size) ∧
    ∀ t, (forked 4).Step crypto t → t.errors = [] → ∃ (d : Side) (asked : List EventId),
      t.requested = (forked 4).requested ++ asked.map (d, ·) ∧ asked.Nodup ∧ ∀ id ∈ asked,
        ((forked 4).peer d).isUnknown id = true ∧ (t.peer d).isUnknown id = true ∧
        id ∈ ((forked 4).peer d.other).node.known ∧
        ((d, id) ∈ (forked 4).requested → (forked 4).Open d id) :=
  requests_while_open forkNodes_sound forkNodes_new forkNodes_injOn
    (steps_of_inOrder (nexts_inOrder _ 4)) forked_checked.1

/-- The channel below both messages is asked for when the first arrives, and again when the second
does: four requests for the three events that are lacked. -/
theorem channel_requested_twice :
    (∀ d, (forkNodes d).Sound crypto) ∧
    (∀ d, SyncPeer.new (forkNodes d) club = .ok (forkPeers d)) ∧
    Set.InjOn SignedEvent.eventId (rowEvents forkNodes) ∧
    Relation.ReflTransGen (InOrder crypto) (start forkPeers) (forked 8) ∧
    (forked 8).errors = [] ∧ (forked 8).requested.count (.left, lobby.eventId) = 2 ∧
    ((forkNodes .right).known \ (forkNodes .left).known).size < (forked 8).requests .left := by
  obtain ⟨_, hok, htwice, hfour, hthree⟩ := forked_checked
  refine ⟨forkNodes_sound, forkNodes_new, forkNodes_injOn, nexts_inOrder _ 8, hok, htwice, ?_⟩
  rw [hfour, hthree]
  decide

end Example

end RequestSession

end ChatCommons
