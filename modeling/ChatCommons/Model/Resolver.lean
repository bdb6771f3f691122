import ChatCommons.Model.Profile

namespace ChatCommons

open Collections

structure ChatSnapshot where
  community : Option CommunityId
  owner : Option UserId
  members : BTreeSet UserId
  administrators : BTreeSet UserId
  channels : BTreeSet (Bytes 32)
  activeInvitations : BTreeMap EventId (Bytes 32)
  homeServer : Option HomeServerBinding
  eventIds : BTreeSet EventId
deriving DecidableEq

structure ChatResolution where
  acceptedInOrder : List EventId
  rejected : BTreeMap EventId RejectionReason
  snapshot : ChatSnapshot
deriving DecidableEq

/-- The maps that the first loop of `resolve` fills. -/
structure Candidates where
  byId : BTreeMap EventId SignedEvent := ∅
  payloads : BTreeMap EventId ChatPayload := ∅
  authors : BTreeMap EventId UserId := ∅
  rejected : BTreeMap EventId RejectionReason := ∅

variable (C : Crypto) (J : PayloadReader)

def collect (k : Candidates) (event : SignedEvent) : Except ChatError Candidates :=
  match validateEvent C event with
  | .error error => .error (.protocol error)
  | .ok _ =>
    match authorId C event with
    | .error error => .error (.protocol error)
    | .ok author =>
      let k := { k with
        authors := k.authors.insert event.eventId author
        byId := k.byId.insertIfNew event.eventId event }
      match decode J event with
      | .ok payload => .ok { k with payloads := k.payloads.insert event.eventId payload }
      | .error _ => .ok { k with rejected := k.rejected.insert event.eventId .invalidPayload }

def Candidates.parents (k : Candidates) (id : EventId) : List EventId :=
  match k.byId[id]? with
  | some event => event.content.parents
  | none => []

def Candidates.priority (k : Candidates) (id : EventId) : ℕ :=
  match k.payloads[id]? with
  | some payload => ChatCommons.priority payload
  | none => 0

def Candidates.sortKey (k : Candidates) (id : EventId) : ℕ ×ₗ EventId := toLex (k.priority id, id)

/-- The variables of the main loop of `resolve`. -/
structure Resolver where
  rejected : BTreeMap EventId RejectionReason
  pending : BTreeSet EventId
  state : State := {}
  accepted : BTreeSet EventId := ∅
  acceptedInOrder : List EventId := []

def Candidates.start (k : Candidates) : Resolver :=
  { rejected := k.rejected, pending := keySet k.payloads }

def ready (k : Candidates) (pending : BTreeSet EventId) : List EventId :=
  (pending.toList.filter fun id =>
    (k.parents id).all fun parent => parent ∉ pending).insertionSort
      fun a b => k.sortKey a ≤ k.sortKey b

def Resolver.reject (r : Resolver) (id : EventId) (reason : RejectionReason) : Resolver :=
  { r with rejected := r.rejected.insert id reason }

/-- One iteration of the inner `for id in ready`; every pending id has all three entries. -/
def evaluate (k : Candidates) (r : Resolver) (id : EventId) : Resolver :=
  let r := { r with pending := r.pending.erase id }
  match k.byId[id]?, k.payloads[id]?, k.authors[id]? with
  | some event, some payload, some author =>
    if event.content.parents.any (fun parent => parent ∉ k.byId) then r.reject id .missingParent
    else if event.content.parents.any (fun parent => parent ∈ r.rejected) then
      r.reject id .parentRejected
    else
      match validateContext C r.state event payload author r.accepted with
      | .ok _ =>
        { r with
          state := apply C r.state event payload author
          accepted := r.accepted.insert id
          acceptedInOrder := r.acceptedInOrder ++ [id] }
      | .error reason => r.reject id reason
  | _, _, _ => r

/-- `loop { .. }`: a round empties `ready` from `pending`, so the fuel is the size of `pending`. -/
def resolveLoop (k : Candidates) : ℕ → Resolver → Resolver
  | 0, r => r
  | fuel + 1, r =>
    match ready k r.pending with
    | [] => r
    | ids => resolveLoop k fuel (ids.foldl (evaluate C k) r)

def rejectPending (r : Resolver) : BTreeMap EventId RejectionReason :=
  r.pending.toList.foldl (fun rejected id => rejected.insert id .missingParent) r.rejected

def Resolver.snapshot (r : Resolver) : ChatSnapshot where
  community := r.state.community
  owner := r.state.owner
  members := r.state.members
  administrators := r.state.administrators
  channels := r.state.channels
  activeInvitations :=
    (r.state.invitations.filter fun id _ => id ∉ r.state.acceptedInvitations).filterMap
      fun _ key => Bytes.ofList? 32 key
  homeServer := r.state.homeServer
  eventIds := r.accepted

def Candidates.resolve (k : Candidates) : ChatResolution :=
  let r := resolveLoop C k (keySet k.payloads).size k.start
  { acceptedInOrder := r.acceptedInOrder, rejected := rejectPending r, snapshot := r.snapshot }

def resolve (events : List SignedEvent) : Except ChatError ChatResolution := do
  let k ← events.foldlM (collect C J) {}
  return k.resolve C

end ChatCommons
