import ChatCommons.Model.Commands

namespace ChatCommons

open Collections

inductive FileError
  | notFound | alreadyExists
deriving DecidableEq

/-- `CliError`, with what opening a database or a file adds. -/
inductive CommandError
  | wrongDatabaseCommunity
  | file (error : FileError)
  | storage (error : StorageError)
  | protocol (error : ProtocolError)
  | cli (error : CliError)
deriving DecidableEq

def liftCli {α : Type} : Except CliError α → Except CommandError α
  | .error error => .error (.cli error)
  | .ok value => .ok value

def liftOpened {α : Type} : Except NodeError α → Except CommandError α
  | .error error => .error (.cli (.node error))
  | .ok value => .ok value

/-- `hex::encode` of the fields is left to the printer. -/
structure ChannelView where
  channelId : Bytes 32
  name : String
deriving DecidableEq

structure MessageView where
  eventId : EventId
  channelId : Bytes 32
  authorId : UserId
  timestampMs : Int64
  text : String
deriving DecidableEq

variable (C : Crypto) (J : PayloadReader)

def openCommunity (store : EventStore) (community : CommunityId) :
    Except CommandError CoreNode :=
  match store.events C community with
  | .error error => .error (.storage error)
  | .ok events =>
    if events.isEmpty then .error .wrongDatabaseCommunity
    else liftOpened (CoreNode.open C store (some community))

def commandCreateCommunity (store : EventStore) (user : Identity) (name : String)
    (timestampMs : Int64) : EventStore × Except CommandError CommunityId :=
  if !store.isEmpty then (store, .error (.cli .databaseNotEmpty))
  else
    let genesis := createChatGenesis C user name timestampMs
    match communityId C genesis with
    | .error error => (store, .error (.protocol error))
    | .ok community =>
      match CoreNode.open C store none with
      | .error error => (store, .error (.cli (.node error)))
      | .ok node =>
        match node.ingest C [genesis] with
        | (node, .error error) => (node.store, .error (.cli (.node error)))
        | (node, .ok _) => (node.store, .ok community)

section Views

variable (core : CoreNode)

/-- The closure of `filter_map` in `command_list_channels`. -/
def channelView (event : SignedEvent) : Option ChannelView :=
  match decode J event with
  | .ok (.channelCreate channelId name) => some { channelId, name }
  | _ => none

def commandListChannels : Except CliError (List ChannelView) := do
  let events ← core.allEventsCli C
  let resolution ← resolveCli C J events
  let accepted := resolution.snapshot.eventIds
  return (events.filter fun event => event.eventId ∈ accepted).filterMap (channelView J)

/-- The body of the loop over `accepted_in_order`: `none` is `continue`. -/
def messageView (byId : BTreeMap EventId SignedEvent) (selectedChannel : Option (Bytes 32))
    (eventId : EventId) : Except CommandError (Option MessageView) :=
  match byId[eventId]? with
  | none => .error (.cli .profileRejected)
  | some event =>
    match decode J event with
    | .error error => .error (.cli (.chat error))
    | .ok (.messageCreate channelId text) =>
      if selectedChannel.any fun selected => selected ≠ channelId then .ok none
      else
        match authorId C event with
        | .error error => .error (.protocol error)
        | .ok author => .ok (some
            { eventId := event.eventId
              channelId
              authorId := author
              timestampMs := event.content.timestampMs
              text })
    | .ok _ => .ok none

def messageViews (byId : BTreeMap EventId SignedEvent) (selectedChannel : Option (Bytes 32)) :
    List EventId → Except CommandError (List MessageView)
  | [] => .ok []
  | eventId :: rest => do
    let message ← messageView C J byId selectedChannel eventId
    let messages ← messageViews byId selectedChannel rest
    return message.toList ++ messages

def commandListMessages (selectedChannel : Option (Bytes 32)) :
    Except CommandError (List MessageView) := do
  let events ← liftCli (core.allEventsCli C)
  let resolution ← liftCli (resolveCli C J events)
  let byId := events.foldl (fun m event => m.insert event.eventId event) ∅
  messageViews C J byId selectedChannel resolution.acceptedInOrder

end Views

/-- `serverPublicKey` has passed `try_from_bytes`; the result is what the command prints. -/
def commandSetHomeServer (core : CoreNode) (user : Identity) (community : CommunityId)
    (timestampMs : Int64) (serverPublicKey : Bytes 32) (endpoints : List String) :
    CoreNode × Except CliError (EventId × HomeServerId) :=
  let plan : Except CliError SignedEvent := do
    let declaration ← core.createAtHeads C user community timestampMs
      (.homeServerSet serverPublicKey.toList endpoints)
    let candidates ← core.allEventsCli C
    let resolution ← resolveCli C J (candidates ++ [declaration])
    let accepted := resolution.snapshot.homeServer.any fun binding =>
      binding.declaration = declaration.eventId && binding.serverPublicKey = serverPublicKey
    if accepted then return declaration else .error .profileRejected
  match plan with
  | .error error => (core, .error error)
  | .ok declaration =>
    match core.ingest C [declaration] with
    | (core, .error error) => (core, .error (.node error))
    | (core, .ok _) =>
      (core, .ok (declaration.eventId, HomeServerId.fromPublicKey C serverPublicKey))

/-- The commands that write to a database that has its community. -/
inductive LocalCommand
  | createChannel (channelId : Bytes 32) (name : String)
  | sendMessage (channelId : Bytes 32) (text : String)
  | setHomeServer (serverPublicKey : Bytes 32) (endpoints : List String)
  | createInvite (address : Option Multiaddr) (capability : InviteCapability)

/-- One call of the program: the state directory, the clock and the options. -/
structure Invocation where
  user : Identity
  device : DeviceIdentity
  community : CommunityId
  timestampMs : Int64
  command : LocalCommand

section Invocations

variable (P : PeerNames) (F : TextForms)

/-- What is checked before the database is opened. -/
def LocalCommand.checkOptions : LocalCommand → Except CliError Unit
  | createChannel _ name =>
    if name.isEmpty || name.utf8ByteSize > MAX_CHANNEL_NAME_BYTES then
      .error (.arguments "channel name must contain 1 to 80 UTF-8 bytes")
    else .ok ()
  | sendMessage _ text =>
    if text.isEmpty || text.utf8ByteSize > MAX_MESSAGE_BYTES then
      .error (.arguments "message must contain 1 to 4000 UTF-8 bytes")
    else .ok ()
  | setHomeServer serverPublicKey _ =>
    if (P serverPublicKey).isNone then .error .invalidHomeServerPublicKey else .ok ()
  | createInvite _ _ => .ok ()

/-- `create-invite` does not go through `open_community`. -/
def LocalCommand.openDatabase (store : EventStore) (community : CommunityId) :
    LocalCommand → Except CommandError CoreNode
  | createInvite _ _ => liftOpened (CoreNode.open C store (some community))
  | _ => openCommunity C store community

/-- The id is the one that the command prints for its event. -/
def Invocation.runOn (call : Invocation) (core : CoreNode) : CoreNode × Except CliError EventId :=
  match call.command with
  | .createChannel channelId name =>
    (commandCreateChannel C J core call.user call.community call.timestampMs channelId name).map
      id fun result => result.map SignedEvent.eventId
  | .sendMessage channelId text =>
    (commandSendMessage C J core call.user call.community call.timestampMs channelId text).map
      id fun result => result.map SignedEvent.eventId
  | .setHomeServer serverPublicKey endpoints =>
    (commandSetHomeServer C J core call.user call.community call.timestampMs serverPublicKey
      endpoints).map id fun result => result.map Prod.fst
  | .createInvite address capability =>
    (commandCreateInvite C J P F core call.user call.device call.community address
      call.timestampMs capability).map id fun result => result.map Prod.fst

/-- A call reopens the database and leaves what it wrote. -/
def Invocation.run (store : EventStore) (call : Invocation) :
    EventStore × Except CommandError EventId :=
  match call.command.checkOptions P with
  | .error error => (store, .error (.cli error))
  | .ok _ =>
    match call.command.openDatabase C store call.community with
    | .error error => (store, .error error)
    | .ok core =>
      let (core, result) := call.runOn C J P F core
      (core.store, liftCli result)

end Invocations

end ChatCommons
