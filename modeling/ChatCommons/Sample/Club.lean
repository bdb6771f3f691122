import ChatCommons.Model.Resolver
import ChatCommons.Sample.LengthHash

/-!
A small community: its owner is identity 1, and identity 2 joins by invitation.
-/

namespace ChatCommons.Sample

/-- A reader for the payloads of a table. -/
def reader (table : List ChatPayload) : PayloadReader := fun bytes =>
  table.find? fun payload => payload.toVec = bytes

def genesis : SignedEvent := createChatGenesis crypto (identity 1) "club" 0

def club : CommunityId := genesis.eventId.toCommunity

def tell (author : ℕ) (parents : List SignedEvent) (payload : ChatPayload) : SignedEvent :=
  createChatEvent crypto (identity author) club (parents.map SignedEvent.eventId) 0 payload

def user (n : ℕ) : UserId := (identity n).userId crypto

def invitation : SignedEvent :=
  tell 1 [genesis] (.memberInvite ((identity 3).publicKey crypto).toList)

def acceptance : SignedEvent :=
  tell 2 [invitation] (.memberAccept invitation.eventId (List.replicate 64 0))

def promotion : SignedEvent := tell 1 [acceptance] (.administratorGrant (user 2))

def hall : SignedEvent := tell 1 [promotion] (.channelCreate (bigEndianBytes 32 7) "hall")

def demotion : SignedEvent := tell 1 [hall] (.administratorRevoke (user 2))

/-- Made by the administrator of `promotion`, beside `hall` and `demotion`. -/
def annex : SignedEvent := tell 2 [promotion] (.channelCreate (bigEndianBytes 32 8) "annexe")

def clubPayloads : List ChatPayload :=
  [.communityCreate PROFILE_ID "club",
    .memberInvite ((identity 3).publicKey crypto).toList,
    .memberAccept invitation.eventId (List.replicate 64 0),
    .administratorGrant (user 2),
    .channelCreate (bigEndianBytes 32 7) "hall",
    .administratorRevoke (user 2),
    .channelCreate (bigEndianBytes 32 8) "annexe"]

def clubReader : PayloadReader := reader clubPayloads

def clubEvents : List SignedEvent :=
  [genesis, invitation, acceptance, promotion, hall, demotion, annex]

theorem club_checked : clubEvents.forM (validateEvent crypto) = .ok () ∧
    (clubEvents.map SignedEvent.eventId).Nodup := by decide +kernel

theorem club_valid : ∀ event ∈ clubEvents, event.Valid crypto :=
  forM_validateEvent.mp club_checked.1

theorem club_ids_nodup : (clubEvents.map SignedEvent.eventId).Nodup := club_checked.2

/-- What a decidable property of the collected candidates says when they are collected. -/
def collected (events : List SignedEvent) (P : Candidates → Bool) : Bool :=
  match events.foldlM (collect crypto clubReader) {} with
  | .ok k => P k
  | .error _ => false

theorem exists_of_collected {events : List SignedEvent} {P : Candidates → Bool}
    (h : collected events P = true) :
    ∃ k, events.foldlM (collect crypto clubReader) {} = .ok k ∧ P k = true := by
  unfold collected at h
  split at h
  · exact ⟨_, by assumption, h⟩
  · cases h

end ChatCommons.Sample
