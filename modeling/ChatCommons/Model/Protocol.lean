import ChatCommons.General.JsonText
import ChatCommons.Model.Crypto

namespace ChatCommons

def PROTOCOL_VERSION : UInt16 := 2
def MAX_EVENT_JSON_BYTES : ℕ := 256 * 1024
def MAX_PARENTS : ℕ := 32
def MAX_EVENT_TYPE_BYTES : ℕ := 64
def MAX_PAYLOAD_BYTES : ℕ := 64 * 1024

structure EventContent where
  protocolVersion : UInt16
  communityId : Option CommunityId
  parents : List EventId
  timestampMs : Int64
  eventType : String
  payload : ByteString
deriving DecidableEq

structure SignedEvent where
  content : EventContent
  publicKey : ByteString
  signature : ByteString
  eventId : EventId
deriving DecidableEq

inductive ProtocolError
  | unsupportedVersion | invalidEventType | payloadTooLarge | tooManyParents | invalidParents
  | invalidGenesis | invalidCommunityReference | invalidPublicKeyLength | invalidSignatureLength
  | invalidSignature | eventIdMismatch
deriving DecidableEq

/-- The text that `Display` gives. -/
def ProtocolError.text : ProtocolError → String
  | .unsupportedVersion => "unsupported protocol version"
  | .invalidEventType => "event type is empty or exceeds its protocol limit"
  | .payloadTooLarge => "payload exceeds its protocol limit"
  | .tooManyParents => "event has too many parents"
  | .invalidParents => "parents must be sorted and unique"
  | .invalidGenesis => "genesis must have no parents"
  | .invalidCommunityReference =>
    "non-genesis event must have a community and at least one parent"
  | .invalidPublicKeyLength => "public key length is invalid"
  | .invalidSignatureLength => "signature length is invalid"
  | .invalidSignature => "signature verification failed"
  | .eventIdMismatch => "event id does not match canonical event bytes"

def putBytes (value : ByteString) : ByteString := bigEndian 4 value.length ++ value

def canonicalContent (content : EventContent) : ByteString :=
  utf8 "chatcommons:content:v2" ++ [0]
    ++ bigEndian 2 content.protocolVersion.toNat
    ++ (match content.communityId with
      | some id => 1 :: id.asBytes
      | none => [0])
    ++ bigEndian 4 content.parents.length
    ++ content.parents.flatMap Id.asBytes
    ++ bigEndian 8 content.timestampMs.toBitVec.toNat
    ++ putBytes (utf8 content.eventType)
    ++ putBytes content.payload

variable (C : Crypto)

def calculateEventId (canonical : ByteString) (publicKey : Bytes 32) (signature : Bytes 64) :
    EventId :=
  ⟨C.blake3 (utf8 "chatcommons:event:v2" ++ [0] ++ canonical ++ publicKey.toList
    ++ signature.toList)⟩

/-- `content.parents.sort(); content.parents.dedup()`. -/
def sortedParents (parents : List EventId) : List EventId :=
  (parents.insertionSort (· ≤ ·)).destutter (· ≠ ·)

def createSigned (content : EventContent) (identity : Identity) : SignedEvent :=
  let content := { content with parents := sortedParents content.parents }
  let canonical := canonicalContent content
  let publicKey := identity.publicKey C
  let signature := identity.sign C canonical
  { content
    publicKey := publicKey.toList
    signature := signature.toList
    eventId := calculateEventId C canonical publicKey signature }

def createGenesis (identity : Identity) (eventType : String) (payload : ByteString)
    (timestampMs : Int64) : SignedEvent :=
  createSigned C
    { protocolVersion := PROTOCOL_VERSION
      communityId := none
      parents := []
      timestampMs
      eventType
      payload } identity

def authorId (event : SignedEvent) : Except ProtocolError UserId :=
  match Bytes.ofList? 32 event.publicKey with
  | none => .error .invalidPublicKeyLength
  | some publicKey => .ok (UserId.fromPublicKey C publicKey)

/-- `values.windows(2).all(|pair| pair[0] < pair[1])`. -/
def strictlySorted : List EventId → Bool
  | [] => true
  | [_] => true
  | a :: b :: rest => decide (a < b) && strictlySorted (b :: rest)

def validateEvent (event : SignedEvent) : Except ProtocolError Unit :=
  let content := event.content
  if content.protocolVersion ≠ PROTOCOL_VERSION then .error .unsupportedVersion
  else if content.eventType.isEmpty || content.eventType.utf8ByteSize > MAX_EVENT_TYPE_BYTES then
    .error .invalidEventType
  else if content.payload.length > MAX_PAYLOAD_BYTES then .error .payloadTooLarge
  else if content.parents.length > MAX_PARENTS then .error .tooManyParents
  else if !strictlySorted content.parents then .error .invalidParents
  else if content.communityId = none ∧ content.parents ≠ [] then .error .invalidGenesis
  else if content.communityId ≠ none ∧ content.parents = [] then
    .error .invalidCommunityReference
  else
    match Bytes.ofList? 32 event.publicKey with
    | none => .error .invalidPublicKeyLength
    | some publicKey =>
      match Bytes.ofList? 64 event.signature with
      | none => .error .invalidSignatureLength
      | some signature =>
        let canonical := canonicalContent content
        match verify C publicKey.toList canonical signature.toList with
        | .error _ => .error .invalidSignature
        | .ok _ =>
          if calculateEventId C canonical publicKey signature ≠ event.eventId then
            .error .eventIdMismatch
          else .ok ()

def communityId (genesis : SignedEvent) : Except ProtocolError CommunityId :=
  match validateEvent C genesis with
  | .error error => .error error
  | .ok _ =>
    if genesis.content.communityId.isSome then .error .invalidGenesis
    else .ok genesis.eventId.toCommunity

open JsonText in
def EventContent.toJson (content : EventContent) : ByteString :=
  object [
    ("protocol_version", decimal content.protocolVersion.toNat),
    ("community_id", content.communityId.elim null fun id => byteArray id.asBytes),
    ("parents", array (content.parents.map fun id => byteArray id.asBytes)),
    ("timestamp_ms", integer content.timestampMs.toInt),
    ("event_type", string content.eventType),
    ("payload", byteArray content.payload)]

open JsonText in
def SignedEvent.toJson (event : SignedEvent) : ByteString :=
  object [
    ("content", event.content.toJson),
    ("public_key", byteArray event.publicKey),
    ("signature", byteArray event.signature),
    ("event_id", byteArray event.eventId.asBytes)]

/-- `serde_json::from_slice::<SignedEvent>`. -/
abbrev EventReader := ByteString → Option SignedEvent

structure ParsedEvent where
  event : SignedEvent

inductive ParseError
  | tooLarge | json
deriving DecidableEq

def parseJson (R : EventReader) (bytes : ByteString) : Except ParseError ParsedEvent :=
  if bytes.length > MAX_EVENT_JSON_BYTES then .error .tooLarge
  else
    match R bytes with
    | none => .error .json
    | some event => .ok ⟨event⟩

def ParsedEvent.validate (parsed : ParsedEvent) : Except ProtocolError SignedEvent :=
  match validateEvent C parsed.event with
  | .error error => .error error
  | .ok _ => .ok parsed.event

end ChatCommons
