import ChatCommons.Model.SyncMessage

namespace ChatCommons

open Collections

structure SyncPeer where
  node : CoreNode
  community : CommunityId
  pending : BTreeMap EventId SignedEvent := ∅
  maxStoredEventBytes : Option ℕ := none

/-- `encoded_event_bytes`, whose total is a `u64`. -/
def encodedEventBytes (events : List SignedEvent) : Except SyncError ℕ :=
  let total := (events.map fun event => event.toJson.length).sum
  if total < 2 ^ 64 then .ok total else .error .tooLarge

namespace SyncPeer

variable (C : Crypto)

def new (node : CoreNode) (community : CommunityId) : Except SyncError SyncPeer :=
  if node.community.any (· ≠ community) then .error .wrongCommunity
  else .ok { node, community }

def withStorageQuota (peer : SyncPeer) (maxBytes : ℕ) : Except SyncError SyncPeer :=
  if maxBytes = 0 then .error .invalidStorageQuota
  else
    match peer.node.storedEventBytes with
    | .error error => .error (.node error)
    | .ok stored =>
      if stored > maxBytes then .error (.storageQuotaExceeded maxBytes)
      else .ok { peer with maxStoredEventBytes := some maxBytes }

def hello (peer : SyncPeer) : SyncMessage :=
  .hello SYNC_VERSION [PROTOCOL_VERSION] peer.community

/-- Neither stored nor waiting for its parents. -/
def isUnknown (peer : SyncPeer) (id : EventId) : Bool := id ∉ peer.node.known ∧ id ∉ peer.pending

def headMessages (peer : SyncPeer) : Except SyncError (List SyncMessage) :=
  match peer.node.heads C with
  | .error error => .error (.node error)
  | .ok heads =>
    if heads.isEmpty then .ok [.heads peer.community []]
    else .ok ((chunks MAX_IDS_PER_MESSAGE heads).map (SyncMessage.heads peer.community))

def wantUnknown (peer : SyncPeer) (ids : List EventId) : List SyncMessage :=
  wantMessages peer.community (ids.filter peer.isUnknown)

def serve (peer : SyncPeer) (ids : List EventId) : Except SyncError (List SyncMessage) :=
  match peer.node.events C ids with
  | .error error => .error (.node error)
  | .ok events => if events.isEmpty then .ok [] else packEvents C peer.community events

/-- The storage quota test of `accept`. -/
def checkQuota (peer : SyncPeer) (incoming : List SignedEvent) : Except SyncError Unit :=
  match peer.maxStoredEventBytes with
  | none => .ok ()
  | some limit => do
    let stored ← match peer.node.storedEventBytes with
      | .error error => .error (.node error)
      | .ok stored => .ok stored
    let pending ← encodedEventBytes (peer.pending.toList.map Prod.snd)
    let incoming ← encodedEventBytes incoming
    let projected := stored + pending + incoming
    if projected ≥ 2 ^ 64 ∨ projected > limit then .error (.storageQuotaExceeded limit) else .ok ()

def newIds (peer : SyncPeer) (events : List SignedEvent) : BTreeSet EventId :=
  setOf ((events.map SignedEvent.eventId).filter peer.isUnknown)

def admitPending (peer : SyncPeer) (newIds : BTreeSet EventId) (events : List SignedEvent) :
    SyncPeer :=
  { peer with
    pending := events.foldl
      (fun pending event =>
        if event.eventId ∈ newIds then pending.insertIfNew event.eventId event else pending)
      peer.pending }

def canIngest (peer : SyncPeer) : Bool :=
  peer.node.community.isSome
    || peer.pending.toList.any fun row =>
      row.2.content.communityId.isNone && decide (row.2.eventId.toCommunity = peer.community)

def ingestPending (peer : SyncPeer) : SyncPeer × Except SyncError Unit :=
  let candidates := peer.pending.toList.map Prod.snd
  if peer.canIngest && !candidates.isEmpty then
    match peer.node.ingest C candidates with
    | (node, .error error) => ({ peer with node }, .error (.node error))
    | (node, .ok _) =>
      ({ peer with node, pending := peer.pending.filter fun id _ => id ∉ node.known }, .ok ())
  else (peer, .ok ())

def missingParents (peer : SyncPeer) : BTreeSet EventId :=
  setOf ((peer.pending.toList.flatMap fun row => row.2.content.parents).filter peer.isUnknown)

def accept (peer : SyncPeer) (events : List SignedEvent) :
    SyncPeer × Except SyncError (List SyncMessage) :=
  if events.any fun event => !event.belongsTo peer.community then (peer, .error .wrongCommunity)
  else
    let newIds := peer.newIds events
    if peer.pending.size + newIds.size > MAX_PENDING_SYNC_EVENTS then
      (peer, .error .itemLimitExceeded)
    else
      match peer.checkQuota (events.filter fun event => event.eventId ∈ newIds) with
      | .error error => (peer, .error error)
      | .ok _ =>
        match (peer.admitPending newIds events).ingestPending C with
        | (peer, .error error) => (peer, .error error)
        | (peer, .ok _) => (peer, .ok (wantMessages peer.community peer.missingParents.toList))

def receive (peer : SyncPeer) (message : SyncMessage) :
    SyncPeer × Except SyncError (List SyncMessage) :=
  match validateMessage C message with
  | .error error => (peer, .error error)
  | .ok _ =>
    if message.community ≠ peer.community then (peer, .error .wrongCommunity)
    else
      match message with
      | .hello .. => (peer, peer.headMessages C)
      | .heads _ eventIds => (peer, .ok (peer.wantUnknown eventIds))
      | .want _ eventIds => (peer, peer.serve C eventIds)
      | .events _ events => peer.accept C events

end SyncPeer

end ChatCommons
