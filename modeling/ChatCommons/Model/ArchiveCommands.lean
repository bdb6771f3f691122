import ChatCommons.Model.ArchiveImport
import ChatCommons.Model.LocalCommands

namespace ChatCommons

open Collections

/-- What stands at the paths that archives are written to and read from. -/
abbrev Files := BTreeMap String ByteString

/-- What `export-community` prints. -/
structure ExportReport where
  community : CommunityId
  events : ℕ
  bytes : ℕ
deriving DecidableEq

/-- What `import-community` prints. -/
structure ImportReport where
  community : CommunityId
  inserted : ℕ
  alreadyPresent : ℕ
deriving DecidableEq

def liftArchive {α : Type} : Except ArchiveError α → Except CommandError α
  | .error error => .error (.cli (.archive error))
  | .ok value => .ok value

/-- `take(MAX_ARCHIVE_BYTES + 1)` before `read_to_end`. -/
def readArchiveFile (files : Files) (path : String) : Except CommandError ByteString :=
  match files[path]? with
  | none => .error (.file .notFound)
  | some contents =>
    let bytes := contents.take (MAX_ARCHIVE_BYTES + 1)
    if bytes.length > MAX_ARCHIVE_BYTES then liftArchive (.error .tooLarge) else .ok bytes

/-- `create_new`. -/
def createPrivateOutput (files : Files) (path : String) : Except CommandError Unit :=
  if path ∈ files then .error (.file .alreadyExists) else .ok ()

variable (C : Crypto) (J : PayloadReader) (R : ArchiveReader)

def commandExportCommunity (store : EventStore) (community : CommunityId) (files : Files)
    (output : String) : Files × Except CommandError ExportReport :=
  let plan : Except CommandError (CoreNode × ByteString) := do
    let core ← openCommunity C store community
    let events ← liftCli (core.allEventsCli C)
    let bytes ← liftArchive (encodeArchive C community events)
    let _ ← createPrivateOutput files output
    return (core, bytes)
  match plan with
  | .error error => (files, .error error)
  | .ok (core, bytes) =>
    (files.insert output bytes,
      .ok { community, events := core.known.size, bytes := bytes.length })

/-- `open_community`, except that an empty database takes any community. -/
def openForImport (store : EventStore) (community : CommunityId) : Except CommandError CoreNode :=
  if store.isEmpty then liftOpened (CoreNode.open C store none)
  else openCommunity C store community

/-- `snapshot.community != Some(community)`. -/
def requireCommunity (events : List SignedEvent) (community : CommunityId) :
    Except CommandError Unit := do
  let projected ← liftCli (resolveCli C J events)
  if projected.snapshot.community ≠ some community then .error (.cli .profileRejected) else .ok ()

/-- What `import-community` checks before it writes. -/
def readForImport (store : EventStore) (files : Files) (input : String) :
    Except CommandError (ValidatedArchive × CoreNode) := do
  let bytes ← readArchiveFile files input
  let parsed ← liftArchive (parseArchive R bytes)
  let validated ← liftArchive (parsed.validate C)
  let _ ← requireCommunity C J validated.events validated.community
  let core ← openForImport C store validated.community
  return (validated, core)

def commandImportCommunity (store : EventStore) (files : Files) (input : String) :
    EventStore × Except CommandError ImportReport :=
  match readForImport C J R store files input with
  | .error error => (store, .error error)
  | .ok (validated, core) =>
    match core.ingestArchive C validated.events with
    | (core, .error error) => (core.store, .error (.cli error))
    | (core, .ok (inserted, alreadyPresent)) =>
      let checked : Except CommandError Unit := do
        let events ← liftCli (core.allEventsCli C)
        requireCommunity C J events validated.community
      match checked with
      | .error error => (core.store, .error error)
      | .ok _ => (core.store, .ok { community := validated.community, inserted, alreadyPresent })

end ChatCommons
