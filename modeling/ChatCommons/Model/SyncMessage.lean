import ChatCommons.Model.NodeCore

namespace ChatCommons

def SYNC_VERSION : UInt16 := 1
def MAX_SYNC_JSON_BYTES : ℕ := 512 * 1024
def MAX_VERSIONS : ℕ := 8
def MAX_IDS_PER_MESSAGE : ℕ := 64
def MAX_EVENTS_PER_MESSAGE : ℕ := 64
def MAX_PENDING_SYNC_EVENTS : ℕ := 1024

inductive SyncMessage
  | hello (syncVersion : UInt16) (protocolVersions : List UInt16) (community : CommunityId)
  | heads (community : CommunityId) (eventIds : List EventId)
  | want (community : CommunityId) (eventIds : List EventId)
  | events (community : CommunityId) (events : List SignedEvent)
deriving DecidableEq

inductive SyncError
  | tooLarge | unsupportedVersion | itemLimitExceeded | invalidEventIds | wrongCommunity
  | protocol (error : ProtocolError)
  | node (error : NodeError)
  | invalidStorageQuota
  | storageQuotaExceeded (limit : ℕ)
deriving DecidableEq

namespace SyncMessage

def community : SyncMessage → CommunityId
  | .hello _ _ community => community
  | .heads community _ => community
  | .want community _ => community
  | .events community _ => community

open JsonText in
def toJson : SyncMessage → ByteString
  | .hello syncVersion protocolVersions community =>
    object [("Hello", object [
      ("sync_version", decimal syncVersion.toNat),
      ("protocol_versions", array (protocolVersions.map fun v => decimal v.toNat)),
      ("community_id", byteArray community.asBytes)])]
  | .heads community eventIds =>
    object [("Heads", object [
      ("community_id", byteArray community.asBytes),
      ("event_ids", array (eventIds.map fun id => byteArray id.asBytes))])]
  | .want community eventIds =>
    object [("Want", object [
      ("community_id", byteArray community.asBytes),
      ("event_ids", array (eventIds.map fun id => byteArray id.asBytes))])]
  | .events community batch =>
    object [("Events", object [
      ("community_id", byteArray community.asBytes),
      ("events", array (batch.map SignedEvent.toJson))])]

end SyncMessage

def validateIds (ids : List EventId) : Except SyncError Unit :=
  if ids.length > MAX_IDS_PER_MESSAGE then .error .itemLimitExceeded
  else if !strictlySorted ids then .error .invalidEventIds
  else .ok ()

variable (C : Crypto)

def validateEvents (events : List SignedEvent) : Except SyncError Unit :=
  if events.isEmpty || events.length > MAX_EVENTS_PER_MESSAGE then .error .itemLimitExceeded
  else if !strictlySorted (events.map SignedEvent.eventId) then .error .invalidEventIds
  else
    match events.forM (validateEvent C) with
    | .error error => .error (.protocol error)
    | .ok _ => .ok ()

def validateBody : SyncMessage → Except SyncError Unit
  | .hello syncVersion protocolVersions _ =>
    if syncVersion ≠ SYNC_VERSION ∨ protocolVersions.isEmpty
        ∨ protocolVersions.length > MAX_VERSIONS ∨ PROTOCOL_VERSION ∉ protocolVersions then
      .error .unsupportedVersion
    else .ok ()
  | .heads _ eventIds => validateIds eventIds
  | .want _ eventIds => validateIds eventIds
  | .events _ events => validateEvents C events

def validateMessage (message : SyncMessage) : Except SyncError Unit := do
  validateBody C message
  if message.toJson.length > MAX_SYNC_JSON_BYTES then .error .tooLarge else .ok ()

/-- `ids.chunks(size)`. -/
def chunks {α : Type} (size : ℕ) (ids : List α) : List (List α) :=
  if _h : size = 0 ∨ ids = [] then [] else ids.take size :: chunks size (ids.drop size)
termination_by ids.length
decreasing_by
  rw [List.length_drop]
  have : 0 < ids.length := List.length_pos_iff.mpr (by tauto)
  omega

def wantMessages (community : CommunityId) (ids : List EventId) : List SyncMessage :=
  (chunks MAX_IDS_PER_MESSAGE ids).map (SyncMessage.want community)

/-- The variables of the loop in `pack_events`. -/
structure Packing where
  messages : List SyncMessage := []
  batch : List SignedEvent := []

def packEvent (community : CommunityId) (p : Packing) (event : SignedEvent) :
    Except SyncError Packing :=
  let candidate := p.batch ++ [event]
  let candidateResult := validateMessage C (.events community candidate)
  if p.batch.length = MAX_EVENTS_PER_MESSAGE ∨ candidateResult = .error .tooLarge then do
    if p.batch.isEmpty then candidateResult else .ok ()
    validateMessage C (.events community [event])
    return { messages := p.messages ++ [.events community p.batch], batch := [event] }
  else do
    candidateResult
    return { p with batch := candidate }

def packEvents (community : CommunityId) (events : List SignedEvent) :
    Except SyncError (List SyncMessage) := do
  let p ← events.foldlM (packEvent C community) {}
  return if p.batch.isEmpty then p.messages else p.messages ++ [.events community p.batch]

end ChatCommons
