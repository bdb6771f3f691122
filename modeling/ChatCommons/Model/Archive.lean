import ChatCommons.Model.Storage

namespace ChatCommons

open Collections

def ARCHIVE_VERSION : UInt16 := 1
def MAX_ARCHIVE_BYTES : ℕ := 64 * 1024 * 1024
def MAX_ARCHIVE_EVENTS : ℕ := 65536

structure ArchiveWire where
  version : UInt16
  communityId : CommunityId
  events : List SignedEvent
deriving DecidableEq

structure ParsedArchive where
  wire : ArchiveWire

structure ValidatedArchive where
  community : CommunityId
  events : List SignedEvent
deriving DecidableEq

inductive ArchiveError
  | tooLarge | json | unsupportedVersion | eventLimit | invalidOrder | invalidGenesis
  | wrongCommunity | missingParent
  | protocol (error : ProtocolError)
deriving DecidableEq

open JsonText in
def ArchiveWire.toJson (wire : ArchiveWire) : ByteString :=
  object [
    ("version", decimal wire.version.toNat),
    ("community_id", byteArray wire.communityId.asBytes),
    ("events", array (wire.events.map SignedEvent.toJson))]

/-- `serde_json::from_slice::<ArchiveWire>`. -/
abbrev ArchiveReader := ByteString → Option ArchiveWire

variable (C : Crypto)

/-- `matches!(genesis.as_slice(), [event] if event.event_id.into() == community)`. -/
def isOnlyGenesis (community : CommunityId) : List SignedEvent → Bool
  | [event] => event.eventId.toCommunity = community
  | _ => false

def validateWire (wire : ArchiveWire) : Except ArchiveError ValidatedArchive :=
  if wire.version ≠ ARCHIVE_VERSION then .error .unsupportedVersion
  else if wire.events.isEmpty || wire.events.length > MAX_ARCHIVE_EVENTS then .error .eventLimit
  else if !strictlySorted (wire.events.map SignedEvent.eventId) then .error .invalidOrder
  else
    match wire.events.forM (validateEvent C) with
    | .error error => .error (.protocol error)
    | .ok _ =>
      let genesis := wire.events.filter fun event => event.content.communityId.isNone
      if !isOnlyGenesis wire.communityId genesis then .error .invalidGenesis
      else if wire.events.any fun event =>
          event.content.communityId.any fun community => community ≠ wire.communityId then
        .error .wrongCommunity
      else
        let eventIds := setOf (wire.events.map SignedEvent.eventId)
        if wire.events.any fun event =>
            event.content.parents.any fun parent => parent ∉ eventIds then
          .error .missingParent
        else .ok { community := wire.communityId, events := wire.events }

def parseArchive (R : ArchiveReader) (bytes : ByteString) : Except ArchiveError ParsedArchive :=
  if bytes.length > MAX_ARCHIVE_BYTES then .error .tooLarge
  else
    match R bytes with
    | none => .error .json
    | some wire => .ok ⟨wire⟩

def ParsedArchive.validate (parsed : ParsedArchive) : Except ArchiveError ValidatedArchive :=
  validateWire C parsed.wire

def encodeArchive (community : CommunityId) (events : List SignedEvent) :
    Except ArchiveError ByteString :=
  let events := events.mergeSort fun a b => a.eventId ≤ b.eventId
  match validateWire C { version := ARCHIVE_VERSION, communityId := community, events } with
  | .error error => .error error
  | .ok validated =>
    let wire : ArchiveWire :=
      { version := ARCHIVE_VERSION, communityId := validated.community, events := validated.events }
    if wire.toJson.length > MAX_ARCHIVE_BYTES then .error .tooLarge else .ok wire.toJson

end ChatCommons
