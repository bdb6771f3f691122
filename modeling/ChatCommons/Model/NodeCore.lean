import ChatCommons.Model.Storage

namespace ChatCommons

open Collections

def MAX_PENDING_EVENTS : ℕ := 1024

inductive NodeError
  | protocol (error : ProtocolError)
  | storage (error : StorageError)
  | unknownCommunity | wrongCommunity | missingParent | pendingLimitExceeded | unknownEvent
  | ancestryLimitExceeded
deriving DecidableEq

structure IngestReport where
  inserted : ℕ
  alreadyPresent : ℕ
  unresolved : List EventId
deriving DecidableEq

structure CoreNode where
  store : EventStore
  community : Option CommunityId
  known : BTreeSet EventId

/-- The local variables of the loop in `ingest`. -/
structure Ingestion where
  node : CoreNode
  pending : BTreeMap EventId SignedEvent
  inserted : ℕ := 0
  alreadyPresent : ℕ := 0

variable (C : Crypto)

namespace CoreNode

def «open» (store : EventStore) (community : Option CommunityId) : Except NodeError CoreNode :=
  match community with
  | none => .ok { store, community, known := ∅ }
  | some id =>
    match store.events C id with
    | .error error => .error (.storage error)
    | .ok events =>
      if events.isEmpty then .error .unknownCommunity
      else .ok { store, community, known := setOf (events.map SignedEvent.eventId) }

def ingestCommunity (node : CoreNode) (events : List SignedEvent) : Except NodeError CommunityId :=
  match node.community with
  | some id => .ok id
  | none =>
    match events.find? fun event => event.content.communityId.isNone with
    | none => .error .unknownCommunity
    | some event =>
      match communityId C event with
      | .error error => .error (.protocol error)
      | .ok id => .ok id

end CoreNode

namespace Ingestion

def ready (s : Ingestion) : List EventId :=
  (s.pending.toList.filter fun row =>
    row.2.content.parents.all fun parent => parent ∈ s.node.known).map Prod.fst

/-- The body of `for id in ready`; an error leaves the node as the writes so far have made it. -/
def storeReady (community : CommunityId) (s : Ingestion) (id : EventId) :
    Except (CoreNode × NodeError) Ingestion :=
  match s.pending[id]? with
  | none => .error (s.node, .missingParent)
  | some event =>
    match s.node.store.insert C event with
    | .error error => .error (s.node, .storage error)
    | .ok (store, outcome) => .ok
      { node :=
          { store
            community :=
              if event.content.communityId.isNone then some community else s.node.community
            known := s.node.known.insert id }
        pending := s.pending.erase id
        inserted := if outcome = .inserted then s.inserted + 1 else s.inserted
        alreadyPresent :=
          if outcome = .alreadyPresent then s.alreadyPresent + 1 else s.alreadyPresent }

/-- `loop { .. }`: a round shrinks `pending`, whose size is the fuel. -/
def run (community : CommunityId) : ℕ → Ingestion → Except (CoreNode × NodeError) Ingestion
  | 0, s => .ok s
  | fuel + 1, s =>
    match s.ready with
    | [] => .ok s
    | ids =>
      match ids.foldlM (storeReady C community) s with
      | .error error => .error error
      | .ok s => run community fuel s

end Ingestion

namespace CoreNode

def ingest (node : CoreNode) (events : List SignedEvent) :
    CoreNode × Except NodeError IngestReport :=
  if events.length > MAX_PENDING_EVENTS then (node, .error .pendingLimitExceeded)
  else
    match events.forM (validateEvent C) with
    | .error error => (node, .error (.protocol error))
    | .ok _ =>
      match node.ingestCommunity C events with
      | .error error => (node, .error error)
      | .ok community =>
        if events.any fun event => !event.belongsTo community then (node, .error .wrongCommunity)
        else
          let pending := events.foldl (fun m event => m.insert event.eventId event) ∅
          match Ingestion.run C community pending.size { node, pending } with
          | .error (node, error) => (node, .error error)
          | .ok s => (s.node, .ok
              { inserted := s.inserted
                alreadyPresent := s.alreadyPresent
                unresolved := s.pending.keys })

def event (node : CoreNode) (id : EventId) : Except NodeError (Option SignedEvent) :=
  match node.store.get C id with
  | .error error => .error (.storage error)
  | .ok event => .ok event

def events (node : CoreNode) : List EventId → Except NodeError (List SignedEvent)
  | [] => .ok []
  | id :: ids => do
    let event ← node.event C id
    let rest ← node.events ids
    return event.toList ++ rest

def allEvents (node : CoreNode) : Except NodeError (List SignedEvent) :=
  node.events C node.known.toList

def storedEventBytes (node : CoreNode) : Except NodeError ℕ :=
  match node.store.storedEventBytes with
  | .error error => .error (.storage error)
  | .ok bytes => .ok bytes

def heads (node : CoreNode) : Except NodeError (List EventId) := do
  let events ← node.events C node.known.toList
  let referenced := events.foldl
    (fun referenced event => event.content.parents.foldl (fun s id => s.insert id) referenced)
    (∅ : BTreeSet EventId)
  return (node.known \ referenced).toList

/-- `while let Some(id) = pending.pop()`: the head of the list is the top of the stack. -/
def ancestryLoop (node : CoreNode) (limit : ℕ) (pending : List EventId)
    (discovered : BTreeSet EventId) (events : BTreeMap EventId SignedEvent) :
    Except NodeError (List SignedEvent) :=
  match pending with
  | [] => .ok (events.toList.map Prod.snd)
  | id :: pending =>
    if id ∈ discovered then ancestryLoop node limit pending discovered events
    else if discovered.size + 1 > limit then .error .ancestryLimitExceeded
    else
      match node.event C id with
      | .error error => .error error
      | .ok none => .error .unknownEvent
      | .ok (some event) =>
        ancestryLoop node limit (event.content.parents.reverse ++ pending) (discovered.insert id)
          (events.insert id event)
termination_by (limit - discovered.size, pending.length)
decreasing_by
  · exact Prod.Lex.right _ (by simp)
  · apply Prod.Lex.left
    have := size_insert_of_not_mem (s := discovered) (a := id) (by assumption)
    omega

def ancestry (node : CoreNode) (id : EventId) (limit : ℕ) : Except NodeError (List SignedEvent) :=
  if limit = 0 then .error .ancestryLimitExceeded else node.ancestryLoop C limit [id] ∅ ∅

end CoreNode

end ChatCommons
