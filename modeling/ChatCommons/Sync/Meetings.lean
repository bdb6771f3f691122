import ChatCommons.Archive.Spread
import ChatCommons.General.Gossip
import ChatCommons.Sync.Resumption
import ChatCommons.Sync.Steady

/-!
Members of a community who meet two by two, now and then cut off in the middle, and start again
from their databases in between.
-/

namespace ChatCommons

open Collections AntiEntropy Gossip

variable {ι : Type} {C : Crypto} {community : CommunityId}

inductive Encounter (ι : Type)
  | restart (member : ι)
  | meeting (left right : ι) (completed : Bool)

/-- What `command_network` makes of a database. -/
def SyncPeer.Opened (C : Crypto) (community : CommunityId) (store : EventStore) (peer : SyncPeer) :
    Prop :=
  ∃ node fresh,
    CoreNode.open C store (if store.isEmpty then none else some community) = .ok node ∧
    SyncPeer.new node community = .ok fresh ∧
    (peer = fresh ∨ ∃ maxBytes, fresh.withStorageQuota maxBytes = .ok peer)

def seat (left right : ι) : Side → ι
  | .left => left
  | .right => right

variable [DecidableEq ι]

inductive Meets (C : Crypto) (community : CommunityId) (peers : ι → SyncPeer) :
    Encounter ι → (ι → SyncPeer) → Prop
  | restart {member : ι} {peer : SyncPeer}
      (hopened : SyncPeer.Opened C community (peers member).node.store peer) :
    Meets C community peers (.restart member) (Function.update peers member peer)
  | meeting {left right : ι} {completed : Bool} {session : SyncSession} (happart : left ≠ right)
      (hrun : (SyncSession.start fun d => peers (seat left right d)).Steps C session)
      (hend : completed = true → session.flight = [] ∧ session.errors = []) :
    Meets C community peers (.meeting left right completed)
      (Function.update (Function.update peers left (session.peer .left)) right
        (session.peer .right))

inductive MeetsAll (C : Crypto) (community : CommunityId) :
    (ι → SyncPeer) → List (Encounter ι) → (ι → SyncPeer) → Prop
  | nil {peers : ι → SyncPeer} : MeetsAll C community peers [] peers
  | cons {peers mid final : ι → SyncPeer} {encounter : Encounter ι} {rest : List (Encounter ι)}
      (hmeets : Meets C community peers encounter mid) (hrest : MeetsAll C community mid rest final) :
    MeetsAll C community peers (encounter :: rest) final

namespace Encounter

/-- Who may have told whom. -/
def contacts : Encounter ι → List (Telling ι)
  | restart _ => []
  | meeting left right _ => [⟨left, right⟩, ⟨right, left⟩]

/-- Who has nothing pending. -/
def cleared (clear : ι → Bool) : Encounter ι → ι → Bool
  | restart member => Function.update clear member true
  | meeting _ _ true => clear
  | meeting left right false => Function.update (Function.update clear left false) right false

/-- Who has told whom everything: a member that was cut off learns for sure only after a
restart. -/
def lessons (clear : ι → Bool) : Encounter ι → List (Telling ι)
  | meeting left right true =>
    (if clear right then [⟨left, right⟩] else []) ++ if clear left then [⟨right, left⟩] else []
  | _ => []

def allLessons (clear : ι → Bool) : List (Encounter ι) → List (Telling ι)
  | [] => []
  | encounter :: rest =>
    encounter.lessons clear ++ allLessons (encounter.cleared clear) rest

end Encounter

section Session

/-- The events of `may` are all a peer can have, those of `must` it stores. -/
structure Standing (C : Crypto) (community : CommunityId) (may must : Set SignedEvent)
    (clear : Bool) (peer : SyncPeer) : Prop where
  honest : peer.Honest C may
  steady : peer.Steady C
  whole : peer.node.Whole C
  same : peer.community = community
  learnt : ∀ event ∈ must, peer.node.Has event
  idle : clear = true → ∀ id, id ∉ peer.pending

theorem SyncPeer.Honest.mono {E F : Set SignedEvent} {peer : SyncPeer} (h : peer.Honest C E)
    (hsub : E ⊆ F) : peer.Honest C F where
  node := h.node
  community := h.community
  rows hrow := hsub (h.rows hrow)
  pendingId := h.pendingId
  pendingIn hpending := hsub (h.pendingIn hpending)
  pendingValid := h.pendingValid
  pendingBelongs := h.pendingBelongs

theorem SyncPeer.Advances.keeps {peer later : SyncPeer} (h : peer.Advances C later)
    (hsteady : peer.Steady C) (hwhole : peer.node.Whole C) :
    later.node.Whole C ∧ ∀ event, peer.node.Has event → later.node.Has event := by
  refine ⟨(hwhole.grows hsteady.community h.grows).1, fun event hevent => ?_⟩
  exact ⟨h.grows.known_mono hevent.1, h.grows.rows_kept hevent.2⟩

variable {peer : Side → SyncPeer} {s t : SyncSession} {d : Side}

theorem SyncSession.deliver_peer (s : SyncSession) (d : Side) (message : SyncMessage)
    (rest : List (Side × SyncMessage)) :
    (s.deliver C d message rest).peer =
      Function.update s.peer d ((s.peer d).receive C message).1 := by
  unfold SyncSession.deliver
  rcases (s.peer d).receive C message with ⟨later, _ | _⟩ <;> rfl

/-- What a session leaves of a peer. -/
structure Outlives (C : Crypto) (before after : SyncPeer) : Prop where
  steady : after.Steady C
  whole : after.node.Whole C
  kept : ∀ event, before.node.Has event → after.node.Has event

theorem SyncSession.Steps.outlives (hsteady : ∀ d, (peer d).Steady C)
    (hwhole : ∀ d, (peer d).node.Whole C) (hrun : (start peer).Steps C s) (d : Side) :
    Outlives C (peer d) (s.peer d) := by
  induction hrun generalizing d with
  | refl => exact ⟨hsteady d, hwhole d, fun _ => id⟩
  | tail _ hstep ih =>
    cases hstep with
    | @deliver pre post side message hflight =>
      rw [deliver_peer]
      by_cases hside : d = side
      · subst hside
        rw [Function.update_self]
        have hadvances := ((ih d).steady.receive (fun _ => false) message).1
        rw [SyncPeer.receiveUnless_never] at hadvances
        obtain ⟨hgrown, hkept⟩ := hadvances.keeps (ih d).steady (ih d).whole
        exact ⟨hadvances.steady, hgrown, fun event hevent => hkept event ((ih d).kept event hevent)⟩
      · rw [Function.update_of_ne hside]
        exact ih d

variable {may must : Side → Set SignedEvent} {clear : Side → Bool} {completed : Bool}

omit [DecidableEq ι] in
theorem subset_both (d : Side) : may d ⊆ may .left ∪ may .right := by
  cases d with
  | left => exact Set.subset_union_left
  | right => exact Set.subset_union_right

/-- A member that had nothing pending has learnt all, and has nothing pending again. -/
theorem session_teaches (hpeer : ∀ d, Standing C community (may d) (must d) (clear d) (peer d))
    (hinj : Set.InjOn SignedEvent.eventId (may .left ∪ may .right))
    (hrun : (SyncSession.start peer).Steps C s) (hflight : s.flight = []) (herrors : s.errors = [])
    (hclear : clear d = true) :
    (∀ event, (peer d.other).node.Has event → (s.peer d).node.Has event) ∧
      ∀ id, id ∉ (s.peer d).pending := by
  have hhonest := fun n => (hpeer n).honest.mono (subset_both n)
  have hcoherent := SyncSession.start_coherent hhonest fun n => (hpeer n).same
  have hafter := (hcoherent.run hinj hrun).1
  have hdelivers := hcoherent.delivers hinj hrun rfl herrors
  rw [SyncSession.start_view] at hdelivers
  obtain ⟨hlearns, hidle⟩ := learns_all
    (coherent_start (fun n => (hhonest n).sound hinj) fun id hid =>
      absurd hid ((hpeer d).idle hclear id))
    hdelivers (by simp [SyncSession.view, hflight]) ((hpeer d).idle hclear)
  refine ⟨fun event hevent => ?_, hidle⟩
  have hknown : event.eventId ∈ (s.peer d).node.known := hlearns event.eventId hevent.1
  have houtlives := hrun.outlives (fun n => (hpeer n).steady) (fun n => (hpeer n).whole) d
  obtain ⟨other, hid, hother⟩ := houtlives.whole.has_of_known hknown
  have hsame : other = event :=
    hinj ((hafter.honest d).rows hother.2) ((hhonest d.other).rows hevent.2) hid
  rwa [← hsame]

theorem session_standing (may must : Side → Set SignedEvent) (clear : Side → Bool)
    (hpeer : ∀ d, Standing C community (may d) (must d) (clear d) (peer d))
    (hinj : Set.InjOn SignedEvent.eventId (may .left ∪ may .right))
    (hrun : (SyncSession.start peer).Steps C s)
    (hend : completed = true → s.flight = [] ∧ s.errors = []) (d : Side) :
    Standing C community (may .left ∪ may .right)
      (must d ∪ {event | (completed && clear d) = true ∧ event ∈ must d.other})
      (completed && clear d) (s.peer d) := by
  have hcoherent := SyncSession.start_coherent (fun n => (hpeer n).honest.mono (subset_both n))
    fun n => (hpeer n).same
  have hafter := (hcoherent.run hinj hrun).1
  have houtlives := hrun.outlives (fun n => (hpeer n).steady) (fun n => (hpeer n).whole) d
  have htaught : (completed && clear d) = true →
      (∀ event, (peer d.other).node.Has event → (s.peer d).node.Has event) ∧
        ∀ id, id ∉ (s.peer d).pending := by
    intro hboth
    rw [Bool.and_eq_true] at hboth
    obtain ⟨hflight, herrors⟩ := hend hboth.1
    exact session_teaches hpeer hinj hrun hflight herrors hboth.2
  refine ⟨hafter.honest d, houtlives.steady, houtlives.whole, hafter.same d, ?_, ?_⟩
  · rintro event (hold | ⟨hboth, hnew⟩)
    · exact houtlives.kept event ((hpeer d).learnt event hold)
    · exact (htaught hboth).1 event ((hpeer d.other).learnt event hnew)
  · intro hboth
    exact (htaught hboth).2

end Session

section Restart

variable {may must : Set SignedEvent} {clear : Bool} {peer later : SyncPeer} {node : CoreNode}

theorem CoreNode.Whole.opened (h : node.Whole C)
    (hopened : SyncPeer.Opened C community node.store later) :
    later.node = node ∧ later.community = community ∧ later.Steady C ∧
      ∀ id, id ∉ later.pending := by
  obtain ⟨opened, fresh, hopen, hnew, hlater⟩ := hopened
  have hsame : opened = node := by
    split_ifs at hopen with hempty
    · have hnone := (whole_isEmpty h).mp hempty
      have hknown : node.known = ∅ := by
        apply set_ext
        intro id
        exact ⟨fun hid => absurd hid (h.known_empty_of_community hnone id),
          fun hid => absurd hid not_mem_empty⟩
      rw [CoreNode.open] at hopen
      obtain ⟨store, named, known⟩ := node
      cases hnone
      cases hknown
      exact (Except.ok.inj hopen).symm
    · exact h.opens hopen
  have hsteady : fresh.Steady C := (SyncPeer.steady_of_new hnew).1
  obtain ⟨hfresh, _⟩ := new_eq hnew
  rcases hlater with hlater | ⟨maxBytes, hquota⟩
  · refine ⟨?_, ?_, hlater ▸ hsteady, ?_⟩
    all_goals simp [hlater, hfresh, hsame]
  · have hlater := withStorageQuota_eq hquota
    refine ⟨?_, ?_, (hsteady.call (.quota hquota)).steady, ?_⟩
    all_goals simp [hlater, hfresh, hsame]

theorem Standing.restart (h : Standing C community may must clear peer)
    (hopened : SyncPeer.Opened C community peer.node.store later) :
    Standing C community may must true later := by
  obtain ⟨hnode, hcommunity, hsteady, hidle⟩ := h.whole.opened hopened
  have hpending : ∀ {id : EventId} {event : SignedEvent}, later.pending[id]? ≠ some event :=
    fun hevent => hidle _ (mem_of_getElem? hevent)
  refine ⟨⟨hnode ▸ h.honest.node, hsteady.community, hnode ▸ h.honest.rows, ?_, ?_, ?_, ?_⟩,
    hsteady, hnode ▸ h.whole, hcommunity, hnode ▸ h.learnt, fun _ => hidle⟩
  all_goals exact fun hevent => absurd hevent hpending

end Restart

/-- What is stored decides whether there is a community. -/
theorem CoreNode.Whole.named_eq {node other : CoreNode} (h : node.Whole C) (hother : other.Whole C)
    (hhas : ∀ event, node.Has event ↔ other.Has event)
    (hsame : ∀ c c', node.community = some c → other.community = some c' → c = c') :
    node.community = other.community := by
  have hnone : ∀ {a b : CoreNode} {c : CommunityId}, a.Whole C → b.Whole C →
      (∀ event, b.Has event → a.Has event) → b.community = some c → a.community ≠ none := by
    intro a b c ha hb hba hc hempty
    obtain ⟨id, hid, _⟩ := hb.begun hc
    obtain ⟨event, _, hevent⟩ := hb.has_of_known hid
    exact ha.known_empty_of_community hempty _ (hba event hevent).1
  cases hc : node.community with
  | none =>
    cases hc' : other.community with
    | none => rfl
    | some c' => exact absurd hc (hnone h hother (fun event => (hhas event).mpr) hc')
  | some c =>
    cases hc' : other.community with
    | none => exact absurd hc' (hnone hother h (fun event => (hhas event).mp) hc)
    | some c' => rw [hsame c c' hc hc']

section Community

variable {peers mid final : ι → SyncPeer} {may must : ι → Set SignedEvent} {clear : ι → Bool}
  {encounter : Encounter ι} {encounters : List (Encounter ι)}

/-- All members are of the community, and no two of the events about share an id. -/
structure Scattered (C : Crypto) (community : CommunityId) (may must : ι → Set SignedEvent)
    (clear : ι → Bool) (peers : ι → SyncPeer) : Prop where
  member : ∀ i, Standing C community (may i) (must i) (clear i) (peers i)
  apart : ∀ {i j a b}, a ∈ may i → b ∈ may j → a.eventId = b.eventId → a = b

theorem Standing.weaken {may may' must must' : Set SignedEvent} {clear clear' : Bool}
    {peer : SyncPeer} (h : Standing C community may must clear peer) (hmay : may ⊆ may')
    (hmust : must' ⊆ must) (hclear : clear' = true → clear = true) :
    Standing C community may' must' clear' peer where
  honest := h.honest.mono hmay
  steady := h.steady
  whole := h.whole
  same := h.same
  learnt event hevent := h.learnt event (hmust hevent)
  idle hc := h.idle (hclear hc)

variable {left right i : ι} {completed : Bool} {event : SignedEvent}

theorem mem_contacts : event ∈ tellAll may (Encounter.meeting left right completed).contacts i ↔
    event ∈ may i ∨ (i = left ∨ i = right) ∧ (event ∈ may left ∨ event ∈ may right) := by
  simp only [Encounter.contacts, tellAll_cons, tellAll_nil, mem_tell]
  by_cases hl : i = left
  · subst hl
    tauto
  · by_cases hr : i = right
    · subst hr
      tauto
    · simp [hl, hr]

theorem mem_lessons
    (h : event ∈ tellAll must ((Encounter.meeting left right completed).lessons clear) i) :
    event ∈ must i ∨ i = left ∧ (completed && clear left) = true ∧ event ∈ must right ∨
      i = right ∧ (completed && clear right) = true ∧ event ∈ must left := by
  cases completed with
  | false => exact Or.inl h
  | true =>
    simp only [Encounter.lessons, Bool.true_and] at h ⊢
    split_ifs at h with hr hl hl
    all_goals
      simp only [List.cons_append, List.nil_append, List.append_nil, tellAll_cons, tellAll_nil,
        mem_tell] at h
    · rcases h with (hold | ⟨rfl, hnew⟩) | ⟨rfl, hnew | ⟨_, hold⟩⟩
      · exact Or.inl hold
      · exact Or.inr (Or.inr ⟨rfl, hr, hnew⟩)
      · exact Or.inr (Or.inl ⟨rfl, hl, hnew⟩)
      · exact Or.inl hold
    · rcases h with hold | ⟨rfl, hnew⟩
      · exact Or.inl hold
      · exact Or.inr (Or.inr ⟨rfl, hr, hnew⟩)
    · rcases h with hold | ⟨rfl, hnew⟩
      · exact Or.inl hold
      · exact Or.inr (Or.inl ⟨rfl, hl, hnew⟩)
    · exact Or.inl h

theorem Scattered.restart (h : Scattered C community may must clear peers) {member : ι}
    {peer : SyncPeer} (hopened : SyncPeer.Opened C community (peers member).node.store peer) :
    Scattered C community may must (Function.update clear member true)
      (Function.update peers member peer) := by
  refine ⟨fun i => ?_, h.apart⟩
  by_cases hi : i = member
  · subst hi
    rw [Function.update_self, Function.update_self]
    exact (h.member i).restart hopened
  · rw [Function.update_of_ne hi, Function.update_of_ne hi]
    exact h.member i

theorem Scattered.meeting (h : Scattered C community may must clear peers) (happart : left ≠ right)
    {session : SyncSession}
    (hrun : (SyncSession.start fun d => peers (seat left right d)).Steps C session)
    (hend : completed = true → session.flight = [] ∧ session.errors = []) (i : ι) :
    Standing C community (tellAll may (Encounter.meeting left right completed).contacts i)
      (tellAll must ((Encounter.meeting left right completed).lessons clear) i)
      ((Encounter.meeting left right completed).cleared clear i)
      (Function.update (Function.update peers left (session.peer .left)) right
        (session.peer .right) i) := by
  have hinj : Set.InjOn SignedEvent.eventId (may left ∪ may right) := by
    rintro a (ha | ha) b (hb | hb) hab
    all_goals exact h.apart ha hb hab
  have hsession := session_standing (fun d => may (seat left right d))
    (fun d => must (seat left right d)) (fun d => clear (seat left right d))
    (fun d => h.member (seat left right d)) hinj hrun hend
  by_cases hr : i = right
  · subst hr
    rw [Function.update_self]
    refine (hsession .right).weaken ?_ ?_ ?_
    · exact fun event hevent => mem_contacts.mpr (Or.inr ⟨Or.inr rfl, hevent⟩)
    · intro event hevent
      rcases mem_lessons hevent with hold | ⟨hl, _⟩ | ⟨_, hboth, hnew⟩
      · exact Or.inl hold
      · exact absurd hl.symm happart
      · exact Or.inr ⟨hboth, hnew⟩
    · cases completed with
      | false => simp [Encounter.cleared]
      | true => simp [Encounter.cleared, seat]
  rw [Function.update_of_ne hr]
  by_cases hl : i = left
  · subst hl
    rw [Function.update_self]
    refine (hsession .left).weaken ?_ ?_ ?_
    · exact fun event hevent => mem_contacts.mpr (Or.inr ⟨Or.inl rfl, hevent⟩)
    · intro event hevent
      rcases mem_lessons hevent with hold | ⟨_, hboth, hnew⟩ | ⟨hr', _⟩
      · exact Or.inl hold
      · exact Or.inr ⟨hboth, hnew⟩
      · exact absurd hr' hr
    · cases completed with
      | false => simp [Encounter.cleared, hr]
      | true => simp [Encounter.cleared, seat]
  · rw [Function.update_of_ne hl]
    refine (h.member i).weaken ?_ ?_ ?_
    · exact fun event hevent => mem_contacts.mpr (Or.inl hevent)
    · intro event hevent
      rcases mem_lessons hevent with hold | ⟨hl', _⟩ | ⟨hr', _⟩
      · exact hold
      · exact absurd hl' hl
      · exact absurd hr' hr
    · cases completed with
      | false => simp [Encounter.cleared, hl, hr]
      | true => exact id

theorem Scattered.meets (h : Scattered C community may must clear peers)
    (hmeets : Meets C community peers encounter mid) :
    Scattered C community (tellAll may encounter.contacts)
      (tellAll must (encounter.lessons clear)) (encounter.cleared clear) mid := by
  cases hmeets with
  | restart hopened => exact h.restart hopened
  | meeting happart hrun hend =>
    refine ⟨fun i => h.meeting happart hrun hend i, ?_⟩
    intro i j a b ha hb
    obtain ⟨_, _, ha⟩ := mem_tellAll.mp ha
    obtain ⟨_, _, hb⟩ := mem_tellAll.mp hb
    exact h.apart ha hb

theorem Scattered.meetsAll (h : Scattered C community may must clear peers)
    (hrun : MeetsAll C community peers encounters final) :
    ∃ clear', Scattered C community (tellAll may (encounters.flatMap Encounter.contacts))
      (tellAll must (Encounter.allLessons clear encounters)) clear' final := by
  induction hrun generalizing may must clear with
  | nil => exact ⟨clear, h⟩
  | cons hmeets _ ih =>
    obtain ⟨clear', hfinal⟩ := ih (h.meets hmeets)
    rw [List.flatMap_cons, Encounter.allLessons, tellAll_append, tellAll_append]
    exact ⟨clear', hfinal⟩

variable {nodes : ι → CoreNode}

omit [DecidableEq ι] in
theorem Scattered.open (hlives : ∀ i, CoreNode.Lives C (nodes i))
    (hopened : ∀ i, SyncPeer.Opened C community (nodes i).store (peers i))
    (hapart : ∀ {i j a b}, (nodes i).Has a → (nodes j).Has b → a.eventId = b.eventId → a = b) :
    Scattered C community (fun i => {event | (nodes i).Has event})
      (fun i => {event | (nodes i).Has event}) (fun _ => true) peers where
  member i := by
    obtain ⟨hnode, hcommunity, hsteady, hidle⟩ := (hlives i).whole.opened (hopened i)
    have hwhole := (hlives i).whole
    have hpending : ∀ {id : EventId} {event : SignedEvent}, (peers i).pending[id]? ≠ some event :=
      fun hevent => hidle _ (mem_of_getElem? hevent)
    have hrows : ∀ {id : EventId} {event : SignedEvent},
        (nodes i).store.rows[id]? = some event → (nodes i).Has event := by
      intro id event hrow
      obtain rfl := hwhole.rowId hrow
      exact ⟨hwhole.rowKnown (mem_of_getElem? hrow), hrow⟩
    refine ⟨⟨hnode ▸ hwhole.toSound, hsteady.community, fun hrow => hrows (hnode ▸ hrow), ?_, ?_,
        ?_, ?_⟩, hsteady, hnode ▸ hwhole, hcommunity, fun event hevent => hnode ▸ hevent,
      fun _ => hidle⟩
    all_goals exact fun hevent => absurd hevent hpending
  apart := hapart

/-- Whatever sessions the members hold, cut off or not, each stores only events of those whose
word can have come to it, and all events of those from whom it has learnt; members who have
learnt from all store the same. -/
theorem meetings_spread (hlives : ∀ i, CoreNode.Lives C (nodes i))
    (hopened : ∀ i, SyncPeer.Opened C community (nodes i).store (peers i))
    (hapart : ∀ {i j a b}, (nodes i).Has a → (nodes j).Has b → a.eventId = b.eventId → a = b)
    (hrun : MeetsAll C community peers encounters final) :
    (∀ j event, (final j).node.Has event →
      ∃ i, Heard (encounters.flatMap Encounter.contacts) i j ∧ (nodes i).Has event) ∧
    (∀ i j event, Heard (Encounter.allLessons (fun _ => true) encounters) i j →
      (nodes i).Has event → (final j).node.Has event) ∧
    ∀ j k, (∀ i, (nodes i).community ≠ none →
        Heard (Encounter.allLessons (fun _ => true) encounters) i j ∧
        Heard (Encounter.allLessons (fun _ => true) encounters) i k) →
      (final j).node = (final k).node := by
  obtain ⟨clear, hfinal⟩ := (Scattered.open hlives hopened hapart).meetsAll hrun
  have hfrom : ∀ j event, (final j).node.Has event →
      ∃ i, Heard (encounters.flatMap Encounter.contacts) i j ∧ (nodes i).Has event := by
    intro j event hevent
    exact mem_tellAll.mp ((hfinal.member j).honest.rows hevent.2)
  have hlearnt : ∀ i j event, Heard (Encounter.allLessons (fun _ => true) encounters) i j →
      (nodes i).Has event → (final j).node.Has event := by
    intro i j event hheard hevent
    exact (hfinal.member j).learnt event (mem_tellAll.mpr ⟨i, hheard, hevent⟩)
  refine ⟨hfrom, hlearnt, ?_⟩
  intro j k hheard
  have hsub : ∀ {j k}, (∀ i, (nodes i).community ≠ none →
      Heard (Encounter.allLessons (fun _ => true) encounters) i k) →
        ∀ event, (final j).node.Has event → (final k).node.Has event := by
    intro j k hall event hevent
    obtain ⟨i, _, hi⟩ := hfrom j event hevent
    apply hlearnt i k event (hall i _) hi
    intro hnone
    exact (hlives i).whole.known_empty_of_community hnone _ hi.1
  have hhas : ∀ event, (final j).node.Has event ↔ (final k).node.Has event := fun event =>
    ⟨hsub (fun i hi => (hheard i hi).2) event, hsub (fun i hi => (hheard i hi).1) event⟩
  apply (hfinal.member j).whole.ext_has (hfinal.member k).whole ?_ hhas
  apply CoreNode.Whole.named_eq (hfinal.member j).whole (hfinal.member k).whole hhas
  intro c c' hc hc'
  have hj := (hfinal.member j).steady.community c hc
  have hk := (hfinal.member k).steady.community c' hc'
  rw [hj, hk, (hfinal.member j).same, (hfinal.member k).same]

end Community

section Example

open Sample

def guests : Bool → SyncPeer := fun i => { node := household i, community := club }

def visits (n : ℕ) : SyncSession :=
  (SyncSession.next crypto)^[n] (SyncSession.start fun d => guests (seat true false d))

theorem visits_checked : (visits 8).flight = [] ∧ (visits 8).errors = [] := by decide +kernel

theorem visits_steps (n : ℕ) :
    (SyncSession.start fun d => guests (seat true false d)).Steps crypto (visits n) := by
  induction n with
  | zero => exact .refl
  | succ n ih =>
    rw [visits, Function.iterate_succ_apply']
    exact ih.trans (SyncSession.next_steps _)

theorem guests_opened (i : Bool) :
    SyncPeer.Opened crypto club (household i).store (guests i) := by
  cases i with
  | false => exact ⟨blank, guests false, rfl, rfl, Or.inl rfl⟩
  | true =>
    refine ⟨begun, guests true, ?_, ?_, Or.inl rfl⟩
    · have hfull : ¬ begun.store.isEmpty = true := by
        rw [whole_isEmpty begun_lives.whole, begun_named.1]
        simp
      change CoreNode.open crypto begun.store (if begun.store.isEmpty then none else some club) = _
      rw [if_neg hfull]
      exact begun_lives.whole.open_eq begun_named.1
    · simp only [SyncPeer.new, begun_named.1, Option.any_some, ne_eq, not_true_eq_false,
        decide_false, Bool.false_eq_true, if_false]
      rfl

theorem guests_meet : MeetsAll crypto club guests [.restart false, .meeting true false true]
    (Function.update (Function.update guests true ((visits 8).peer .left)) false
      ((visits 8).peer .right)) := by
  have hrestart : Meets crypto club guests (.restart false)
      (Function.update guests false (guests false)) := .restart (guests_opened false)
  rw [Function.update_eq_self] at hrestart
  exact .cons hrestart (.cons (.meeting (by simp) (visits_steps 8) fun _ => visits_checked) .nil)

/-- After one session the newcomer has the history. -/
theorem meetings_spread_visit : ((visits 8).peer .left).node = ((visits 8).peer .right).node := by
  have hboth := (meetings_spread household_gathered.lives guests_opened household_gathered.apart
    guests_meet).2.2 true false
  rw [Function.update_of_ne (by simp), Function.update_self, Function.update_self] at hboth
  apply hboth
  intro i hi
  cases i with
  | false => exact absurd rfl hi
  | true => exact ⟨Or.inl (Or.inl rfl), Or.inr ⟨rfl, Or.inl rfl⟩⟩

end Example

end ChatCommons
