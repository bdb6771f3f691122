import ChatCommons.Model.NodeCore

/-!
The same node over a database that may refuse a write; a refused write changes nothing.
-/

namespace ChatCommons

open Collections

variable (C : Crypto) (fault : EventId → Bool)

def EventStore.insertUnless (store : EventStore) (event : SignedEvent) :
    Except StorageError (EventStore × InsertOutcome) :=
  match validateEvent C event with
  | .error error => .error (.protocol error)
  | .ok _ => if fault event.eventId then .error .sqlite else store.insert C event

namespace Ingestion

def storeReadyUnless (community : CommunityId) (s : Ingestion) (id : EventId) :
    Except (CoreNode × NodeError) Ingestion :=
  match s.pending[id]? with
  | none => .error (s.node, .missingParent)
  | some event =>
    match s.node.store.insertUnless C fault event with
    | .error error => .error (s.node, .storage error)
    | .ok (store, outcome) => .ok
      { node :=
          { store
            community :=
              if event.content.communityId.isNone then some community else s.node.community
            known := s.node.known.insert id }
        pending := s.pending.erase id
        inserted := if outcome = .inserted then s.inserted + 1 else s.inserted
        alreadyPresent :=
          if outcome = .alreadyPresent then s.alreadyPresent + 1 else s.alreadyPresent }

def runUnless (community : CommunityId) : ℕ → Ingestion → Except (CoreNode × NodeError) Ingestion
  | 0, s => .ok s
  | fuel + 1, s =>
    match s.ready with
    | [] => .ok s
    | ids =>
      match ids.foldlM (storeReadyUnless C fault community) s with
      | .error error => .error error
      | .ok s => runUnless community fuel s

end Ingestion

def CoreNode.ingestUnless (node : CoreNode) (events : List SignedEvent) :
    CoreNode × Except NodeError IngestReport :=
  if events.length > MAX_PENDING_EVENTS then (node, .error .pendingLimitExceeded)
  else
    match events.forM (validateEvent C) with
    | .error error => (node, .error (.protocol error))
    | .ok _ =>
      match node.ingestCommunity C events with
      | .error error => (node, .error error)
      | .ok community =>
        if events.any fun event => !event.belongsTo community then (node, .error .wrongCommunity)
        else
          let pending := events.foldl (fun m event => m.insert event.eventId event) ∅
          match Ingestion.runUnless C fault community pending.size { node, pending } with
          | .error (node, error) => (node, .error error)
          | .ok s => (s.node, .ok
              { inserted := s.inserted
                alreadyPresent := s.alreadyPresent
                unresolved := s.pending.keys })

section Faultless

variable {C}

theorem insertUnless_never (store : EventStore) (event : SignedEvent) :
    store.insertUnless C (fun _ => false) event = store.insert C event := by
  unfold EventStore.insertUnless EventStore.insert
  cases validateEvent C event with
  | error e => rfl
  | ok u => rfl

theorem runUnless_never (community : CommunityId) (fuel : ℕ) (s : Ingestion) :
    s.runUnless C (fun _ => false) community fuel = s.run C community fuel := by
  have hstore : Ingestion.storeReadyUnless C (fun _ => false) community =
      Ingestion.storeReady C community := by
    funext s id
    unfold Ingestion.storeReadyUnless Ingestion.storeReady
    cases s.pending[id]? with
    | none => rfl
    | some event =>
      have hsame := insertUnless_never (C := C) s.node.store event
      cases hinsert : s.node.store.insert C event with
      | error e => simp only [hsame, hinsert]
      | ok written => simp only [hsame, hinsert]
  induction fuel generalizing s with
  | zero => rfl
  | succ fuel ih =>
    rw [Ingestion.runUnless, Ingestion.run, hstore]
    cases s.ready with
    | nil => rfl
    | cons id ids =>
      dsimp only
      cases (id :: ids).foldlM (Ingestion.storeReady C community) s with
      | error e => rfl
      | ok s => exact ih s

theorem ingestUnless_never (node : CoreNode) (events : List SignedEvent) :
    node.ingestUnless C (fun _ => false) events = node.ingest C events := by
  unfold CoreNode.ingestUnless CoreNode.ingest
  by_cases hlength : events.length > MAX_PENDING_EVENTS
  · rw [if_pos hlength, if_pos hlength]
  · rw [if_neg hlength, if_neg hlength]
    cases events.forM (validateEvent C) with
    | error e => rfl
    | ok u =>
      cases node.ingestCommunity C events with
      | error e => rfl
      | ok community =>
        dsimp only
        by_cases hwrong : (events.any fun event => !event.belongsTo community) = true
        · rw [if_pos hwrong, if_pos hwrong]
        · rw [if_neg hwrong, if_neg hwrong]
          cases hrun : Ingestion.run C community (events.foldl
              (fun m event => m.insert event.eventId event) (∅ : BTreeMap EventId SignedEvent)).size
            { node, pending := events.foldl (fun m event => m.insert event.eventId event) ∅ } with
          | error e => simp only [runUnless_never, hrun]
          | ok s => simp only [runUnless_never, hrun]

end Faultless

end ChatCommons
