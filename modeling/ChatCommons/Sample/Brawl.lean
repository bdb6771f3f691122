import ChatCommons.Core.Listed
import ChatCommons.Sample.Club

/-!
The community of `Club` with a channel, and an event on top of it whose payload no
reader understands.
-/

namespace ChatCommons.Sample

open Collections

def lobby : SignedEvent := tell 1 [genesis] (.channelCreate (bigEndianBytes 32 7) "hall")

/-- Core-valid, from anybody: its payload is not a JSON text. -/
def garbled : SignedEvent :=
  createSigned crypto
    { protocolVersion := PROTOCOL_VERSION
      communityId := some club
      parents := [lobby.eventId]
      timestampMs := 0
      eventType := "chat.message.create"
      payload := [255] } (identity 9)

def hello : ChatPayload := .messageCreate (bigEndianBytes 32 7) "hello"

def greeting : SignedEvent := tell 1 [garbled] hello

def brawlReader : PayloadReader :=
  reader [.communityCreate PROFILE_ID "club", .channelCreate (bigEndianBytes 32 7) "hall", hello]

def brawl : List SignedEvent := [genesis, lobby, garbled]

def brawlNode : CoreNode := CoreNode.ofEvents club brawl

def brawlStored : List SignedEvent :=
  brawlNode.known.toList.filterMap fun id => brawlNode.store.rows[id]?

/-- What a decidable property of a resolution says when there is one. -/
def resolved (J : PayloadReader) (events : List SignedEvent) (P : ChatResolution → Bool) : Bool :=
  match resolve crypto J events with
  | .ok resolution => P resolution
  | .error _ => false

theorem exists_of_resolved {J : PayloadReader} {events : List SignedEvent}
    {P : ChatResolution → Bool} (h : resolved J events P = true) :
    ∃ resolution, resolve crypto J events = .ok resolution ∧ P resolution = true := by
  unfold resolved at h
  split at h
  · exact ⟨_, by assumption, h⟩
  · cases h

theorem brawl_checked : isListed crypto club [] brawl = true ∧
    greeting.eventId ∉ brawlNode.known ∧
    ((brawlStored ++ [greeting]).map SignedEvent.eventId).Nodup ∧
    brawlNode.heads crypto = .ok [garbled.eventId] ∧
    (brawlStored ++ [greeting]).forM (validateEvent crypto) = .ok () := by decide +kernel

theorem brawlNode_sound : brawlNode.Sound crypto := (listed_of_isListed brawl_checked.1).sound

theorem brawlNode_community : brawlNode.community = some club := by
  simp [brawlNode, CoreNode.ofEvents, brawl]

theorem brawl_listed : brawlNode.allEvents crypto = .ok brawlStored := brawlNode_sound.allEvents_eq

theorem greeting_fresh : greeting.eventId ∉ brawlNode.known := brawl_checked.2.1

theorem brawl_ids_nodup : ((brawlStored ++ [greeting]).map SignedEvent.eventId).Nodup :=
  brawl_checked.2.2.1

theorem brawl_heads : brawlNode.heads crypto = .ok [garbled.eventId] := brawl_checked.2.2.2.1

theorem brawl_valid : ∀ event ∈ brawlStored ++ [greeting], event.Valid crypto :=
  forM_validateEvent.mp brawl_checked.2.2.2.2

theorem brawl_resolved : ∃ resolution, resolve crypto brawlReader brawlStored = .ok resolution ∧
    user 1 ∈ resolution.snapshot.members ∧
    bigEndianBytes 32 7 ∈ resolution.snapshot.channels ∧
    garbled.eventId ∈ resolution.rejected := by
  have h : resolved brawlReader brawlStored (fun resolution => decide (
      user 1 ∈ resolution.snapshot.members ∧
      bigEndianBytes 32 7 ∈ resolution.snapshot.channels ∧
      garbled.eventId ∈ resolution.rejected)) = true := by decide +kernel
  obtain ⟨resolution, hresolve, hfacts⟩ := exists_of_resolved h
  exact ⟨resolution, hresolve, of_decide_eq_true hfacts⟩

theorem greeting_resolved : ∃ resolution,
    resolve crypto brawlReader (brawlStored ++ [greeting]) = .ok resolution ∧
      garbled.eventId ∈ resolution.rejected ∧
      greeting.eventId ∉ resolution.snapshot.eventIds := by
  have h : resolved brawlReader (brawlStored ++ [greeting]) (fun resolution => decide (
      garbled.eventId ∈ resolution.rejected ∧
      greeting.eventId ∉ resolution.snapshot.eventIds)) = true := by decide +kernel
  obtain ⟨resolution, hresolve, hfacts⟩ := exists_of_resolved h
  exact ⟨resolution, hresolve, of_decide_eq_true hfacts⟩

theorem hello_read : brawlReader hello.toVec = some hello := by decide

end ChatCommons.Sample
