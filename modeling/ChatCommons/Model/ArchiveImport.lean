import ChatCommons.Model.Commands

namespace ChatCommons

open Collections

/-- The maps `remaining_parents` and `children`. -/
structure ParentCounts where
  remainingParents : BTreeMap EventId ℕ := ∅
  children : BTreeMap EventId (List EventId) := ∅

/-- The variables of the sorting loop, beside `children`. -/
structure Sorting where
  remainingParents : BTreeMap EventId ℕ
  ready : BTreeSet EventId

variable (C : Crypto)

section Plan

variable (core : CoreNode) (pending : BTreeMap EventId SignedEvent)

def countParent (id : EventId) (s : ℕ × BTreeMap EventId (List EventId)) (parent : EventId) :
    Except CliError (ℕ × BTreeMap EventId (List EventId)) :=
  if parent ∈ pending then
    .ok (s.1 + 1, s.2.insert parent (s.2[parent]?.getD [] ++ [id]))
  else if parent ∈ core.known then .ok s
  else .error .incompleteArchive

def countParents (s : ParentCounts) (row : EventId × SignedEvent) : Except CliError ParentCounts :=
  match row.2.content.parents.foldlM (countParent core pending row.1) (0, s.children) with
  | .error error => .error error
  | .ok (remaining, children) =>
    .ok { remainingParents := s.remainingParents.insert row.1 remaining, children }

def releaseChild (s : Sorting) (child : EventId) : Except CliError Sorting :=
  match s.remainingParents[child]? with
  | none => .error .incompleteArchive
  | some 0 => .error .incompleteArchive
  | some (count + 1) => .ok
    { remainingParents := s.remainingParents.insert child count
      ready := if count = 0 then s.ready.insert child else s.ready }

/-- `while let Some(id) = ready.pop_first()`. -/
def topologicalLoop (s : Sorting) (children : BTreeMap EventId (List EventId))
    (topological : List EventId) : Except CliError (List EventId) :=
  match _hready : s.ready.min? with
  | none => .ok topological
  | some id =>
    let s := { s with ready := s.ready.erase id }
    let topological := topological ++ [id]
    match _hchildren : children[id]? with
    | none => topologicalLoop s children topological
    | some released =>
      match released.foldlM releaseChild s with
      | .error error => .error error
      | .ok s => topologicalLoop s (children.erase id) topological
termination_by (children.size, s.ready.size)
decreasing_by
  · apply Prod.Lex.right
    apply size_lt_of_subset (a := id)
    · exact fun x hx => (mem_erase.mp hx).2
    · exact Std.ExtTreeSet.min?_mem _hready
    · exact fun hid => (mem_erase.mp hid).1 rfl
  · apply Prod.Lex.left
    have := map_size_erase (mem_of_getElem? _hchildren)
    omega

def zeroCounts (remainingParents : BTreeMap EventId ℕ) : BTreeSet EventId :=
  setOf ((remainingParents.toList.filter fun row => row.2 = 0).map Prod.fst)

def topologicalOrder : Except CliError (List EventId) := do
  let counts ← pending.toList.foldlM (countParents core pending) {}
  let sorting : Sorting :=
    { remainingParents := counts.remainingParents, ready := zeroCounts counts.remainingParents }
  let topological ← topologicalLoop sorting counts.children []
  if topological.length ≠ pending.size then .error .incompleteArchive else .ok topological

end Plan

/-- The inner loop over the ids of a chunk. -/
def takeBatch (pending : BTreeMap EventId SignedEvent) (ids : List EventId) :
    BTreeMap EventId SignedEvent × List SignedEvent :=
  ids.foldl (fun s id =>
    match s.1[id]? with
    | none => s
    | some event => (s.1.erase id, s.2 ++ [event])) (pending, [])

/-- The batches of the chunks; which events are in one does not depend on the node. -/
def takeBatches (pending : BTreeMap EventId SignedEvent) :
    List (List EventId) → List (List SignedEvent)
  | [] => []
  | ids :: rest =>
    let (pending, batch) := takeBatch pending ids
    batch :: takeBatches pending rest

/-- `core.ingest(batch)?` for each batch, and the sum of what was inserted. -/
def ingestBatches (core : CoreNode) (inserted : ℕ) :
    List (List SignedEvent) → CoreNode × Except CliError ℕ
  | [] => (core, .ok inserted)
  | batch :: rest =>
    match core.ingest C batch with
    | (core, .error error) => (core, .error (.node error))
    | (core, .ok report) =>
      if !report.unresolved.isEmpty then (core, .error .incompleteArchive)
      else ingestBatches core (inserted + report.inserted) rest

namespace CoreNode

variable (core : CoreNode) (events : List SignedEvent)

/-- The events of the archive that the node does not know. -/
def archivePending : BTreeMap EventId SignedEvent :=
  (events.filter fun event => event.eventId ∉ core.known).foldl
    (fun m event => m.insert event.eventId event) ∅

def archiveBatches : Except CliError (List (List SignedEvent)) := do
  let pending := core.archivePending events
  let topological ← topologicalOrder core pending
  return takeBatches pending (chunks MAX_PENDING_EVENTS topological)

/-- The pair is `(inserted, already_present)`. -/
def ingestArchive : CoreNode × Except CliError (ℕ × ℕ) :=
  let alreadyPresent := events.countP fun event => event.eventId ∈ core.known
  match core.archiveBatches events with
  | .error error => (core, .error error)
  | .ok batches =>
    match ingestBatches C core 0 batches with
    | (core, .error error) => (core, .error error)
    | (core, .ok inserted) => (core, .ok (inserted, alreadyPresent))

end CoreNode

end ChatCommons
