import ChatCommons.General.Collections
import ChatCommons.Model.Protocol

namespace ChatCommons

open Collections

inductive InsertOutcome
  | inserted | alreadyPresent
deriving DecidableEq

inductive StorageError
  | sqlite | corrupt | protocol (error : ProtocolError) | invalidStoredSize
deriving DecidableEq

/-- The `events` table: the body of a row is the JSON text of its event. -/
structure EventStore where
  rows : BTreeMap EventId SignedEvent := ∅

/-- `id == community` for the genesis, `community_id == Some(community)` otherwise. -/
def SignedEvent.belongsTo (event : SignedEvent) (community : CommunityId) : Bool :=
  match event.content.communityId with
  | none => event.eventId.toCommunity = community
  | some id => id = community

variable (C : Crypto)

def decodeStored (event : SignedEvent) : Except StorageError SignedEvent :=
  match validateEvent C event with
  | .error error => .error (.protocol error)
  | .ok _ => .ok event

namespace EventStore

def insert (store : EventStore) (event : SignedEvent) :
    Except StorageError (EventStore × InsertOutcome) :=
  match validateEvent C event with
  | .error error => .error (.protocol error)
  | .ok _ =>
    if event.eventId ∈ store.rows then .ok (store, .alreadyPresent)
    else .ok (⟨store.rows.insert event.eventId event⟩, .inserted)

def isEmpty (store : EventStore) : Bool := store.rows.isEmpty

def storedEventBytes (store : EventStore) : Except StorageError ℕ :=
  let bytes := (store.rows.toList.map fun row => row.2.toJson.length).sum
  if bytes < 2 ^ 63 then .ok bytes else .error .sqlite

def get (store : EventStore) (id : EventId) : Except StorageError (Option SignedEvent) :=
  match store.rows[id]? with
  | none => .ok none
  | some event => (decodeStored C event).map some

def events (store : EventStore) (community : CommunityId) : Except StorageError (List SignedEvent) :=
  ((store.rows.toList.map Prod.snd).filter fun event => event.belongsTo community).mapM
    (decodeStored C)

end EventStore

end ChatCommons
