import ChatCommons.Chat.Governance
import ChatCommons.General.LastWord

/-!
The accepted events read back: who is a member, an administrator or the owner is what
the last event about it says, and the state of the resolver is that reading.
-/

namespace ChatCommons

open Collections LastWord

variable {C : Crypto} {J : PayloadReader} {k : Candidates} {events : List SignedEvent}
  {ids : List EventId} {id : EventId} {user : UserId}

namespace Candidates

section Words

variable (k : Candidates) (user : UserId) (id : EventId)

def membership : Option Bool :=
  match k.payloads[id]? with
  | some (.communityCreate _ _) => if k.authors[id]? = some user then some true else none
  | some (.memberAccept _ _) => if k.authors[id]? = some user then some true else none
  | some (.memberRemove member) => if member = user then some false else none
  | _ => none

def administration : Option Bool :=
  match k.payloads[id]? with
  | some (.communityCreate _ _) => if k.authors[id]? = some user then some true else none
  | some (.administratorGrant member) => if member = user then some true else none
  | some (.ownershipTransfer newOwner) => if newOwner = user then some true else none
  | some (.administratorRevoke member) => if member = user then some false else none
  | some (.memberRemove member) => if member = user then some false else none
  | _ => none

def founder : Option UserId :=
  match k.payloads[id]? with
  | some (.communityCreate _ _) => k.authors[id]?
  | _ => none

def recipient : Option UserId :=
  match k.payloads[id]? with
  | some (.ownershipTransfer newOwner) => some newOwner
  | _ => none

def declaration : Option (EventId × ByteString × List String × List EventId) :=
  match k.payloads[id]? with
  | some (.homeServerSet serverPublicKey endpoints) =>
    some (id, serverPublicKey, endpoints, k.parents id)
  | _ => none

end Words

section Reading

variable (k : Candidates) (ids : List EventId)

def IsMember (user : UserId) : Prop := lastWord (k.membership user) ids = some true

def IsAdministrator (user : UserId) : Prop := lastWord (k.administration user) ids = some true

def ownerOf : Option UserId := (lastWord k.recipient ids).or (lastWord k.founder ids)

def HasChannel (channelId : Bytes 32) : Prop :=
  ∃ id ∈ ids, ∃ name, k.payloads[id]? = some (.channelCreate channelId name)

def Invites (invitation : EventId) (key : ByteString) : Prop :=
  invitation ∈ ids ∧ k.payloads[invitation]? = some (.memberInvite key)

def Redeemed (invitation : EventId) : Prop :=
  ∃ id ∈ ids, ∃ signature, k.payloads[id]? = some (.memberAccept invitation signature)

/-- The role that the kind of a payload requires of its author after `ids`. -/
def Entitled (author : UserId) : ChatPayload → Prop
  | .communityCreate _ _ => ids = []
  | .channelCreate _ _ => k.IsAdministrator ids author
  | .memberInvite _ => k.IsAdministrator ids author
  | .memberAccept invitation _ => (∃ key, k.Invites ids invitation key) ∧ ¬ k.Redeemed ids invitation
  | .memberRemove _ => k.IsAdministrator ids author
  | .messageCreate channelId _ => k.IsMember ids author ∧ k.HasChannel ids channelId
  | .administratorGrant _ => k.ownerOf ids = some author
  | .administratorRevoke _ => k.ownerOf ids = some author
  | .ownershipTransfer _ => k.ownerOf ids = some author
  | .homeServerSet _ _ => k.ownerOf ids = some author

end Reading

/-- Candidates as the events fill them. -/
structure Collected (C : Crypto) (k : Candidates) : Prop extends k.Complete where
  keyed : ∀ {id : EventId} {event : SignedEvent}, k.byId[id]? = some event → event.eventId = id
  valid : ∀ {id : EventId} {event : SignedEvent}, k.byId[id]? = some event → event.Valid C

end Candidates

theorem collect_keyed {k' : Candidates} {event : SignedEvent}
    (h : collect C J k event = .ok k')
    (hk : ∀ (id : EventId) (e : SignedEvent), k.byId[id]? = some e → e.eventId = id ∧ e.Valid C) :
    ∀ (id : EventId) (e : SignedEvent), k'.byId[id]? = some e → e.eventId = id ∧ e.Valid C := by
  have hmap : k'.byId = k.byId.insertIfNew event.eventId event ∧ event.Valid C := by
    unfold collect at h
    split at h
    · cases h
    · rename_i u hvalid
      split at h
      · cases h
      · split at h
        · obtain rfl := Except.ok.inj h
          exact ⟨rfl, validateEvent_iff.mp hvalid⟩
        · obtain rfl := Except.ok.inj h
          exact ⟨rfl, validateEvent_iff.mp hvalid⟩
  intro id e he
  rw [hmap.1, getElem?_insertIfNew] at he
  split_ifs at he with hid
  · obtain rfl := Option.some.inj he
    exact ⟨hid.1, hmap.2⟩
  · exact hk id e he

theorem collected_of_collect (h : events.foldlM (collect C J) {} = .ok k) : k.Collected C := by
  have hk := Fallible.foldlM_preserves
    (fun k : Candidates => ∀ (id : EventId) (e : SignedEvent), k.byId[id]? = some e →
      e.eventId = id ∧ e.Valid C)
    (fun _ _ _ h hk => collect_keyed h hk) h (by simp)
  exact ⟨complete_of_collect h, fun he => (hk _ _ he).1, fun he => (hk _ _ he).2⟩

section Entries

def Candidates.Entry (k : Candidates) (id : EventId) (event : SignedEvent) (payload : ChatPayload)
    (author : UserId) : Prop :=
  k.byId[id]? = some event ∧ k.payloads[id]? = some payload ∧ k.authors[id]? = some author

theorem Trace.entry {state : State} (h : Trace C k ids state) (hid : id ∈ ids) :
    ∃ event payload author, k.Entry id event payload author := by
  induction h with
  | nil => cases hid
  | snoc _ _ hadmits ih =>
    rcases List.mem_append.mp hid with hid | hid
    · exact ih hid
    · obtain rfl := List.mem_singleton.mp hid
      obtain ⟨event, payload, author, hevent, hpayload, hauthor, _⟩ := hadmits
      exact ⟨event, payload, author, hevent, hpayload, hauthor⟩

theorem Trace.split {pre post : List EventId} {state : State}
    (h : Trace C k (pre ++ id :: post) state) : ∃ before, Trace C k pre before ∧
      (∀ parent ∈ k.parents id, parent ∈ pre) ∧ ∃ event payload author,
        k.Entry id event payload author ∧
        validateContext C before event payload author (setOf pre) = .ok () := by
  obtain ⟨_, hdone⟩ := h.shorten (show pre ++ [id] <+: pre ++ id :: post from ⟨post, by simp⟩)
  obtain ⟨before, hpre, hparents, hadmits⟩ := hdone.snoc_inv
  obtain ⟨event, payload, author, hevent, hpayload, hauthor, hvalid, _⟩ := hadmits
  exact ⟨before, hpre, hparents, event, payload, author, ⟨hevent, hpayload, hauthor⟩, hvalid⟩

end Entries

section Steps

variable {state : State} {event : SignedEvent} {payload : ChatPayload} {author : UserId}
  (h : k.Entry id event payload author)
include h

theorem mem_apply_members : user ∈ (apply C state event payload author).members ↔
    k.membership user id = some true ∨ k.membership user id = none ∧ user ∈ state.members := by
  obtain ⟨_, hpayload, hauthor⟩ := h
  rw [Candidates.membership, hpayload, hauthor]
  cases payload with
  | communityCreate _ _ =>
    simp only [apply, mem_insert, Option.some.injEq]
    rcases eq_or_ne author user with rfl | hne
    · simp
    · simp [hne, hne.symm]
  | memberAccept _ _ =>
    simp only [apply, mem_insert, Option.some.injEq]
    rcases eq_or_ne author user with rfl | hne
    · simp
    · simp [hne, hne.symm]
  | memberRemove member =>
    simp only [apply, mem_erase]
    rcases eq_or_ne member user with rfl | hne
    · simp
    · simp [hne, hne.symm]
  | homeServerSet _ _ =>
    simp only [apply]
    split <;> simp
  | _ => simp [apply]

theorem mem_apply_administrators : user ∈ (apply C state event payload author).administrators ↔
    k.administration user id = some true ∨
      k.administration user id = none ∧ user ∈ state.administrators := by
  obtain ⟨_, hpayload, hauthor⟩ := h
  rw [Candidates.administration, hpayload, hauthor]
  cases payload with
  | communityCreate _ _ =>
    simp only [apply, mem_insert, Option.some.injEq]
    rcases eq_or_ne author user with rfl | hne
    · simp
    · simp [hne, hne.symm]
  | administratorGrant member =>
    simp only [apply, mem_insert]
    rcases eq_or_ne member user with rfl | hne
    · simp
    · simp [hne, hne.symm]
  | ownershipTransfer newOwner =>
    simp only [apply, mem_insert]
    rcases eq_or_ne newOwner user with rfl | hne
    · simp
    · simp [hne, hne.symm]
  | administratorRevoke member =>
    simp only [apply, mem_erase]
    rcases eq_or_ne member user with rfl | hne
    · simp
    · simp [hne, hne.symm]
  | memberRemove member =>
    simp only [apply, mem_erase]
    rcases eq_or_ne member user with rfl | hne
    · simp
    · simp [hne, hne.symm]
  | homeServerSet _ _ =>
    simp only [apply]
    split <;> simp
  | _ => simp [apply]

theorem mem_apply_channels {channelId : Bytes 32} :
    channelId ∈ (apply C state event payload author).channels ↔
      (∃ name, k.payloads[id]? = some (.channelCreate channelId name)) ∨
        channelId ∈ state.channels := by
  obtain ⟨_, hpayload, _⟩ := h
  rw [hpayload]
  cases payload with
  | channelCreate other name =>
    simp only [apply, mem_insert, Option.some.injEq, ChatPayload.channelCreate.injEq]
    refine or_congr_left ⟨fun h => ⟨name, h.symm, rfl⟩, ?_⟩
    rintro ⟨_, h, _⟩
    exact h.symm
  | homeServerSet _ _ =>
    simp only [apply]
    split <;> simp
  | _ => simp [apply]

theorem mem_apply_acceptedInvitations {invitation : EventId} :
    invitation ∈ (apply C state event payload author).acceptedInvitations ↔
      (∃ signature, k.payloads[id]? = some (.memberAccept invitation signature)) ∨
        invitation ∈ state.acceptedInvitations := by
  obtain ⟨_, hpayload, _⟩ := h
  rw [hpayload]
  cases payload with
  | memberAccept other signature =>
    simp only [apply, mem_insert, Option.some.injEq, ChatPayload.memberAccept.injEq]
    refine or_congr_left ⟨fun h => ⟨signature, h.symm, rfl⟩, ?_⟩
    rintro ⟨_, h, _⟩
    exact h.symm
  | homeServerSet _ _ =>
    simp only [apply]
    split <;> simp
  | _ => simp [apply]

theorem apply_invitations (hk : k.Collected C) (invitation : EventId) :
    (apply C state event payload author).invitations[invitation]? =
      if id = invitation then
        match k.payloads[invitation]? with
        | some (.memberInvite key) => some key
        | _ => state.invitations[invitation]?
      else state.invitations[invitation]? := by
  obtain ⟨hevent, hpayload, _⟩ := h
  have hid := hk.keyed hevent
  split_ifs with heq
  · subst heq
    rw [hpayload]
    cases payload with
    | memberInvite key => simp [apply, hid]
    | homeServerSet _ _ =>
      simp only [apply]
      split <;> rfl
    | _ => rfl
  · cases payload with
    | memberInvite key => simp [apply, hid, heq]
    | homeServerSet _ _ =>
      simp only [apply]
      split <;> rfl
    | _ => rfl

theorem apply_owner : (apply C state event payload author).owner =
    (k.recipient id).or ((k.founder id).or state.owner) := by
  obtain ⟨_, hpayload, hauthor⟩ := h
  rw [Candidates.recipient, Candidates.founder, hpayload, hauthor]
  cases payload with
  | homeServerSet _ _ =>
    simp only [apply]
    split <;> rfl
  | _ => rfl

end Steps

theorem publicKey_of_validateHomeServer {serverPublicKey : ByteString} {endpoints : List String}
    (h : validateHomeServer serverPublicKey endpoints = .ok ()) :
    ∃ publicKey : Bytes 32, Bytes.ofList? 32 serverPublicKey = some publicKey := by
  unfold validateHomeServer at h
  split_ifs at h with hkey
  rw [← Option.isSome_iff_exists, Bytes.ofList?_isSome]
  exact not_not.mp fun hlength => hkey (Or.inl hlength)

section Readings

variable {state : State} (h : Trace C k ids state)
include h

theorem Trace.mem_members : user ∈ state.members ↔ k.IsMember ids user := by
  rw [← h.stateAfter_eq]
  apply holds_foldl_iff (P := fun s : State => user ∈ s.members) not_mem_empty
  intro i hi s
  obtain ⟨event, payload, author, hentry⟩ := h.entry hi
  simp only [hentry.1, hentry.2.1, hentry.2.2]
  exact mem_apply_members hentry

theorem Trace.mem_administrators :
    user ∈ state.administrators ↔ k.IsAdministrator ids user := by
  rw [← h.stateAfter_eq]
  apply holds_foldl_iff (P := fun s : State => user ∈ s.administrators) not_mem_empty
  intro i hi s
  obtain ⟨event, payload, author, hentry⟩ := h.entry hi
  simp only [hentry.1, hentry.2.1, hentry.2.2]
  exact mem_apply_administrators hentry

theorem Trace.mem_channels {channelId : Bytes 32} :
    channelId ∈ state.channels ↔ k.HasChannel ids channelId := by
  rw [← h.stateAfter_eq]
  apply holds_foldl_iff_exists (P := fun s : State => channelId ∈ s.channels) not_mem_empty
  intro i hi s
  obtain ⟨event, payload, author, hentry⟩ := h.entry hi
  simp only [hentry.1, hentry.2.1, hentry.2.2]
  simpa only [hentry.2.1] using mem_apply_channels hentry

theorem Trace.mem_acceptedInvitations {invitation : EventId} :
    invitation ∈ state.acceptedInvitations ↔ k.Redeemed ids invitation := by
  rw [← h.stateAfter_eq]
  apply holds_foldl_iff_exists (P := fun s : State => invitation ∈ s.acceptedInvitations)
    not_mem_empty
  intro i hi s
  obtain ⟨event, payload, author, hentry⟩ := h.entry hi
  simp only [hentry.1, hentry.2.1, hentry.2.2]
  simpa only [hentry.2.1] using mem_apply_acceptedInvitations hentry

omit h in
theorem Trace.ids_nil (h : Trace C k ids state) (hnone : state.community = none) : ids = [] := by
  cases h with
  | nil => rfl
  | @snoc _ before _ _ htrace _ hadmits =>
    obtain ⟨event, payload, author, _, _, _, hvalid, rfl⟩ := hadmits
    by_cases hbefore : before.community = none
    · obtain ⟨profile, name, rfl⟩ :=
        ungoverned_only_genesis htrace.ordered hbefore (permitted_of_valid hvalid)
      cases hnone
    · exact absurd hnone (apply_community hbefore)

omit h in
theorem Trace.owner_eq (h : Trace C k ids state) : state.owner = k.ownerOf ids := by
  induction h with
  | nil => rfl
  | snoc htrace _ hadmits ih =>
    obtain ⟨event, payload, author, hevent, hpayload, hauthor, hvalid, rfl⟩ := hadmits
    rw [apply_owner ⟨hevent, hpayload, hauthor⟩, Candidates.ownerOf, lastWord_snoc, lastWord_snoc,
      ih, Candidates.ownerOf]
    cases hfounder : k.founder _ with
    | none => rw [Option.none_or, Option.none_or, Option.or_assoc]
    | some founder =>
      have hcreate : payload.isCommunityCreate = true := by
        rw [Candidates.founder, hpayload] at hfounder
        cases payload with
        | communityCreate _ _ => rfl
        | _ => cases hfounder
      rw [htrace.ids_nil (validateContext_genesis hvalid hcreate)]
      simp

theorem Trace.invitations_iff (hk : k.Collected C) {invitation : EventId} {key : ByteString} :
    state.invitations[invitation]? = some key ↔ k.Invites ids invitation key := by
  induction h with
  | nil => simp [Candidates.Invites]
  | @snoc ids before id after htrace _ hadmits ih =>
    obtain ⟨event, payload, author, hevent, hpayload, hauthor, hvalid, rfl⟩ := hadmits
    rw [apply_invitations ⟨hevent, hpayload, hauthor⟩ hk]
    simp only [Candidates.Invites, List.mem_append, List.mem_singleton] at ih ⊢
    split_ifs with heq
    · subst heq
      split
      · rename_i other hother
        rw [hother]
        simp
      · rename_i hother
        rw [ih]
        exact ⟨fun h => absurd h.2 (hother key), fun h => absurd h.2 (hother key)⟩
    · rw [ih, or_iff_left (fun h => heq h.symm)]

def HomeServerBinding.declared (binding : HomeServerBinding) :
    EventId × ByteString × List String × List EventId :=
  (binding.declaration, binding.serverPublicKey.toList, binding.endpoints, binding.historyHeads)

theorem Trace.homeServer_eq (hk : k.Collected C) :
    state.homeServer.map HomeServerBinding.declared = lastWord k.declaration ids := by
  induction h with
  | nil => rfl
  | @snoc ids before id after htrace _ hadmits ih =>
    obtain ⟨event, payload, author, hevent, hpayload, hauthor, hvalid, rfl⟩ := hadmits
    rw [lastWord_snoc, Candidates.declaration, hpayload, ← ih]
    cases payload with
    | homeServerSet serverPublicKey endpoints =>
      obtain ⟨_, _, _, hserver⟩ := (validateContext_iff rfl).mp hvalid
      obtain ⟨publicKey, hkey⟩ := publicKey_of_validateHomeServer hserver
      simp only [apply, hkey, Option.map_some, HomeServerBinding.declared, hk.keyed hevent,
        ← Bytes.ofList?_eq_some.mp hkey, Candidates.parents, hevent, Option.some_or]
    | _ => rfl

theorem Trace.invite_key {invitation : EventId} {key : ByteString}
    (hinvites : k.Invites ids invitation key) : ∃ bytes : Bytes 32, key = bytes.toList := by
  obtain ⟨pre, post, rfl⟩ := List.append_of_mem hinvites.1
  obtain ⟨_, _, _, event, payload, author, hentry, hvalid⟩ := h.split
  obtain rfl := Option.some.inj (hentry.2.1.symm.trans hinvites.2)
  obtain ⟨_, _, _, hlength⟩ := (validateContext_iff rfl).mp hvalid
  exact ⟨⟨key, hlength⟩, rfl⟩

theorem Trace.entitled (hk : k.Collected C) {pre post : List EventId}
    (hsplit : ids = pre ++ id :: post) :
    ∃ event payload author, k.Entry id event payload author ∧ k.Entitled pre author payload := by
  rw [hsplit] at h
  obtain ⟨before, hpre, _, event, payload, author, hentry, hvalid⟩ := h.split
  refine ⟨event, payload, author, hentry, ?_⟩
  have hpermitted := permitted_of_valid hvalid
  cases payload with
  | communityCreate _ _ => exact hpre.ids_nil hpermitted
  | channelCreate _ _ => exact hpre.mem_administrators.mp hpermitted
  | memberInvite _ => exact hpre.mem_administrators.mp hpermitted
  | memberAccept invitation _ =>
    obtain ⟨_, _, key, _, hinvite, hopen, _⟩ := (validateContext_iff rfl).mp hvalid
    exact ⟨⟨key, (hpre.invitations_iff hk).mp hinvite⟩, fun h =>
      hopen (hpre.mem_acceptedInvitations.mpr h)⟩
  | memberRemove _ => exact hpre.mem_administrators.mp hpermitted.1
  | messageCreate _ _ =>
    exact ⟨hpre.mem_members.mp hpermitted.1, hpre.mem_channels.mp hpermitted.2⟩
  | administratorGrant _ => exact hpre.owner_eq.symm.trans hpermitted.1
  | administratorRevoke _ => exact hpre.owner_eq.symm.trans hpermitted.1
  | ownershipTransfer _ => exact hpre.owner_eq.symm.trans hpermitted.1
  | homeServerSet _ _ => exact hpre.owner_eq.symm.trans hpermitted

end Readings

section Snapshot

/-- The snapshot that the accepted ids give when they are read back. -/
structure Candidates.Reads (k : Candidates) (ids : List EventId) (snapshot : ChatSnapshot) :
    Prop where
  members : ∀ user, user ∈ snapshot.members ↔ k.IsMember ids user
  administrators : ∀ user, user ∈ snapshot.administrators ↔ k.IsAdministrator ids user
  owner : snapshot.owner = k.ownerOf ids
  channels : ∀ channelId, channelId ∈ snapshot.channels ↔ k.HasChannel ids channelId
  activeInvitations : ∀ invitation (key : Bytes 32),
    snapshot.activeInvitations[invitation]? = some key ↔
      k.Invites ids invitation key.toList ∧ ¬ k.Redeemed ids invitation
  invitationKeys : ∀ invitation key, k.Invites ids invitation key →
    ∃ bytes : Bytes 32, key = bytes.toList
  homeServer : snapshot.homeServer.map HomeServerBinding.declared = lastWord k.declaration ids
  eventIds : ∀ id, id ∈ snapshot.eventIds ↔ id ∈ ids

theorem getElem?_activeInvitations {r : Resolver} {invitation : EventId} {key : Bytes 32} :
    r.snapshot.activeInvitations[invitation]? = some key ↔
      r.state.invitations[invitation]? = some key.toList ∧
        invitation ∉ r.state.acceptedInvitations := by
  rw [Resolver.snapshot]
  dsimp only
  rw [Std.ExtTreeMap.getElem?_filterMap', Option.bind_eq_some_iff]
  simp only [getElem?_filter_key, Bytes.ofList?_eq_some, decide_eq_true_eq]
  constructor
  · rintro ⟨bytes, ⟨hinvite, hopen⟩, rfl⟩
    exact ⟨hinvite, hopen⟩
  · rintro ⟨hinvite, hopen⟩
    exact ⟨_, ⟨hinvite, hopen⟩, rfl⟩

theorem Evaluated.reads {done : List EventId} {r : Resolver} (hk : k.Collected C)
    (h : Evaluated C k done r) : k.Reads r.acceptedInOrder r.snapshot where
  members _ := h.trace.mem_members
  administrators _ := h.trace.mem_administrators
  owner := h.trace.owner_eq
  channels _ := h.trace.mem_channels
  activeInvitations invitation key := by
    rw [getElem?_activeInvitations, h.trace.invitations_iff hk, h.trace.mem_acceptedInvitations]
  invitationKeys _ _ hinvites := h.trace.invite_key hinvites
  homeServer := h.trace.homeServer_eq hk
  eventIds := h.accepted

/-- The snapshot is the accepted history read back, and each accepted event's author had, by the
same reading of what was accepted before it, the role that its kind requires. -/
theorem resolve_reads {events : List SignedEvent} (hvalid : ∀ event ∈ events, event.Valid C) :
    ∃ k resolution, events.foldlM (collect C J) {} = .ok k ∧
      resolve C J events = .ok resolution ∧
      k.Reads resolution.acceptedInOrder resolution.snapshot ∧
      ∀ pre id post, resolution.acceptedInOrder = pre ++ id :: post →
        ∃ event payload author, k.Entry id event payload author ∧
          k.Entitled pre author payload := by
  obtain ⟨k, hk⟩ := collect_ok (J := J) hvalid
  have hcollected := collected_of_collect hk
  have hfinal := evaluated_final (C := C) hcollected.toComplete
  refine ⟨k, k.resolve C, hk, resolve_eq hk, ?_⟩
  rw [resolve_eq_final]
  exact ⟨hfinal.reads hcollected, fun pre id post hsplit => hfinal.trace.entitled hcollected hsplit⟩

open Sample in
theorem resolve_reads_club :
    ∃ k resolution, clubEvents.foldlM (collect crypto clubReader) {} = .ok k ∧
      resolve crypto clubReader clubEvents = .ok resolution ∧
      k.Reads resolution.acceptedInOrder resolution.snapshot ∧
      ∀ pre id post, resolution.acceptedInOrder = pre ++ id :: post →
        ∃ event payload author, k.Entry id event payload author ∧
          k.Entitled pre author payload :=
  resolve_reads club_valid

end Snapshot

end ChatCommons
