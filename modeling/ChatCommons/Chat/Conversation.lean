import ChatCommons.Chat.Appending
import ChatCommons.General.Simulation

/-!
What the writing commands are for: a conversation that its members carry on, each allowed
what the others see that it is allowed. Nothing of it is ever taken back by these commands.
-/

namespace ChatCommons

open Collections Candidates Dag

structure Conversation where
  community : CommunityId
  owner : UserId
  members : Set UserId
  administrators : Set UserId
  channels : Set (Bytes 32)
  invitations : Set EventId
  server : Option (Bytes 32 × List String)
  messages : List MessageView
  history : List EventId

/-- A text of 1 to 512 visible ASCII characters. -/
def VisibleAscii (endpoint : String) : Prop :=
  endpoint ≠ "" ∧ endpoint.utf8ByteSize ≤ MAX_HOME_SERVER_ENDPOINT_BYTES ∧
    ∀ byte ∈ utf8 endpoint, 33 ≤ byte ∧ byte ≤ 126

structure Presentable (endpoints : List String) : Prop where
  some : endpoints ≠ []
  few : endpoints.length ≤ MAX_HOME_SERVER_ENDPOINTS
  distinct : endpoints.Nodup
  visible : ∀ endpoint ∈ endpoints, VisibleAscii endpoint

namespace Conversation

variable (C : Crypto) (P : PeerNames) (F : TextForms) (chat : Conversation) (call : Invocation)
  (id : EventId)

/-- Where an invitation leads: to the device at the given address, or to the home server. -/
def leadsTo (device : DeviceIdentity) : Option Multiaddr → Option (PeerId × Multiaddr)
  | some address => some (device.peerId, address)
  | none => do
    let (serverPublicKey, endpoints) ← chat.server
    let peer ← P serverPublicKey
    let address ← endpoints.findSome? F.readAddress
    return (peer, address)

/-- What the caller may do, when the event of the call gets this id. -/
def Permits : Prop :=
  call.community = chat.community ∧
    match call.command with
    | .createChannel _ name =>
      name ≠ "" ∧ name.utf8ByteSize ≤ MAX_CHANNEL_NAME_BYTES ∧
        call.user.userId C ∈ chat.administrators
    | .sendMessage channelId text =>
      text ≠ "" ∧ text.utf8ByteSize ≤ MAX_MESSAGE_BYTES ∧
        call.user.userId C ∈ chat.members ∧ channelId ∈ chat.channels
    | .setHomeServer serverPublicKey endpoints =>
      (P serverPublicKey).isSome ∧ call.user.userId C = chat.owner ∧ Presentable endpoints
    | .createInvite address capability =>
      call.user.userId C ∈ chat.administrators ∧
        ∃ peer reached code, chat.leadsTo P F call.device address = some (peer, reached) ∧
          createCode F (capability.package chat.community id).toJson peer reached = .ok code

/-- The conversation after the call has been carried out. -/
def after : Conversation :=
  let chat := { chat with history := chat.history ++ [id] }
  match call.command with
  | .createChannel channelId _ => { chat with channels := insert channelId chat.channels }
  | .sendMessage channelId text => { chat with
      messages := chat.messages ++
        [{ eventId := id
           channelId
           authorId := call.user.userId C
           timestampMs := call.timestampMs
           text }] }
  | .setHomeServer serverPublicKey endpoints =>
    { chat with server := some (serverPublicKey, endpoints) }
  | .createInvite _ _ => { chat with invitations := insert id chat.invitations }

/-- A call is carried out exactly when it is permitted, and otherwise changes nothing. -/
inductive Step : Conversation → Invocation → Option EventId → Conversation → Prop
  | done {chat : Conversation} {call : Invocation} {id : EventId}
      (h : chat.Permits C P F call id) : Step chat call (some id) (chat.after C call id)
  | refused {chat : Conversation} {call : Invocation} {id : EventId}
      (h : ¬ chat.Permits C P F call id) : Step chat call none chat

end Conversation

/-- The state of the resolver says of the community what the conversation does. -/
structure State.Mirrors (state : State) (chat : Conversation) : Prop where
  community : state.community = some chat.community
  owner : state.owner = some chat.owner
  members : ∀ user, user ∈ state.members ↔ user ∈ chat.members
  administrators : ∀ user, user ∈ state.administrators ↔ user ∈ chat.administrators
  channels : ∀ channelId, channelId ∈ state.channels ↔ channelId ∈ chat.channels
  invitations : ∀ id, (∃ key : Bytes 32, state.invitations[id]? = some key.toList) ∧
    id ∉ state.acceptedInvitations ↔ id ∈ chat.invitations
  server : state.homeServer.map (fun binding => (binding.serverPublicKey, binding.endpoints)) =
    chat.server

structure Mirrors (C : Crypto) (k : Candidates) (chat : Conversation) : Prop where
  state : (k.final C).state.Mirrors chat
  messages : (k.final C).acceptedInOrder.filterMap k.message = chat.messages
  history : (k.final C).acceptedInOrder = chat.history

/-- The database holds the conversation and nothing else. -/
def Shows (C : Crypto) (J : PayloadReader) (store : EventStore) (chat : Conversation) : Prop :=
  ∃ core stored k, core.store = store ∧ Unbroken C J core stored k ∧
    core.community = some chat.community ∧ core.tips.ncard ≤ MAX_PARENTS ∧ Mirrors C k chat

section Endpoints

variable {endpoints : List String}

theorem visible_byte {byte : UInt8} :
    (byte < 128 ∧ isAsciiWhitespace byte = false ∧ isAsciiControl byte = false) ↔
      33 ≤ byte ∧ byte ≤ 126 := by
  revert byte
  decide +kernel

theorem visibleAscii_iff {endpoint : String} : VisibleAscii endpoint ↔
    (endpoint.isEmpty || endpoint.utf8ByteSize > MAX_HOME_SERVER_ENDPOINT_BYTES
      || !(utf8 endpoint).all (· < 128)
      || (utf8 endpoint).any fun byte => isAsciiWhitespace byte || isAsciiControl byte) = false := by
  have hbytes : ((utf8 endpoint).all (· < 128) = true ∧
      (utf8 endpoint).any (fun byte => isAsciiWhitespace byte || isAsciiControl byte) = false) ↔
        ∀ byte ∈ utf8 endpoint, 33 ≤ byte ∧ byte ≤ 126 := by
    simp only [List.all_eq_true, decide_eq_true_eq, List.any_eq_false, Bool.not_eq_true,
      Bool.or_eq_false_iff, ← forall_and, ← visible_byte]
  rw [VisibleAscii, ← hbytes]
  simp only [Bool.or_eq_false_iff, String.isEmpty_eq_false_iff, decide_eq_false_iff_not, not_lt,
    Bool.not_eq_false', and_assoc, gt_iff_lt]

theorem validateEndpoints_iff {unique : BTreeSet String} :
    validateEndpoints unique endpoints = .ok () ↔
      endpoints.Nodup ∧ ∀ endpoint ∈ endpoints, endpoint ∉ unique ∧ VisibleAscii endpoint := by
  induction endpoints generalizing unique with
  | nil => simp [validateEndpoints]
  | cons endpoint endpoints ih =>
    rw [validateEndpoints]
    split_ifs with hbad
    · constructor
      · intro h
        cases h
      · rintro ⟨_, hall⟩
        obtain ⟨hnew, hvisible⟩ := hall endpoint List.mem_cons_self
        rw [Bool.or_eq_true] at hbad
        rcases hbad with hbad | hbad
        · rw [visibleAscii_iff.mp hvisible] at hbad
          cases hbad
        · exact absurd (Std.ExtTreeSet.contains_iff_mem.mp hbad) hnew
    · rw [Bool.not_eq_true, Bool.or_eq_false_iff, ← visibleAscii_iff] at hbad
      have hnew : endpoint ∉ unique := fun hmem => by
        rw [Std.ExtTreeSet.contains_iff_mem.mpr hmem] at hbad
        cases hbad.2
      rw [ih, List.nodup_cons]
      simp only [mem_insert, not_or, List.forall_mem_cons, hnew, hbad.1, not_false_eq_true,
        true_and]
      constructor
      · rintro ⟨hnodup, hall⟩
        refine ⟨⟨fun hmem => (hall endpoint hmem).1.1 rfl, hnodup⟩, fun e he => ?_⟩
        exact ⟨(hall e he).1.2, (hall e he).2⟩
      · rintro ⟨⟨hnot, hnodup⟩, hall⟩
        refine ⟨hnodup, fun e he => ⟨⟨?_, (hall e he).1⟩, (hall e he).2⟩⟩
        rintro rfl
        exact hnot he

theorem validateHomeServer_iff {serverPublicKey : Bytes 32} :
    validateHomeServer serverPublicKey.toList endpoints = .ok () ↔ Presentable endpoints := by
  have hkey : serverPublicKey.toList.length = PUBLIC_KEY_LEN := serverPublicKey.length_eq
  rw [validateHomeServer, hkey]
  split_ifs with hbad
  · constructor
    · intro h
      cases h
    · intro h
      rcases hbad with hbad | hbad | hbad
      · exact absurd rfl hbad
      · exact absurd (List.isEmpty_iff.mp hbad) h.some
      · exact absurd h.few (not_le.mpr hbad)
  · simp only [ne_eq, not_true_eq_false, List.isEmpty_iff, false_or, not_or, not_lt, gt_iff_lt]
      at hbad
    rw [validateEndpoints_iff]
    constructor
    · rintro ⟨hnodup, hall⟩
      exact ⟨hbad.1, hbad.2, hnodup, fun e he => (hall e he).2⟩
    · intro h
      exact ⟨h.distinct, fun e he => ⟨not_mem_empty, h.visible e he⟩⟩

end Endpoints

end ChatCommons
