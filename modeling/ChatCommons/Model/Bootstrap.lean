import ChatCommons.Model.Invite
import ChatCommons.Model.Network

namespace ChatCommons

def BOOTSTRAP_VERSION : UInt16 := 1
def MAX_BOOTSTRAP_ENVELOPE_BYTES : ℕ := 8 * 1024
def MAX_BOOTSTRAP_CODE_CHARS : ℕ := 12 * 1024

/-- A code is its UTF-8 bytes. -/
def CODE_PREFIX : ByteString := utf8 "cc1_"

structure BootstrapEnvelope where
  version : UInt16
  invitePackage : ByteString
  peerId : String
  address : String
deriving DecidableEq

structure ValidatedBootstrapEnvelope where
  invitePackage : ByteString
  peerId : PeerId
  address : Multiaddr

inductive BootstrapError
  | codeTooLarge | invalidPrefix | invalidBase64 | envelopeTooLarge | json | unsupportedVersion
  | invalidInvitePackage | invalidPeerId | invalidAddress
deriving DecidableEq

open JsonText in
def BootstrapEnvelope.toJson (envelope : BootstrapEnvelope) : ByteString :=
  object [
    ("version", decimal envelope.version.toNat),
    ("invite_package", byteArray envelope.invitePackage),
    ("peer_id", string envelope.peerId),
    ("address", string envelope.address)]

/-- The functions of the `base64`, `serde_json` and `libp2p` packages that the codes go through. -/
structure TextForms where
  encode64 : ByteString → ByteString
  decode64 : ByteString → Option ByteString
  peerText : PeerId → String
  readPeer : String → Option PeerId
  addressText : Multiaddr → String
  readAddress : String → Option Multiaddr
  readEnvelope : ByteString → Option BootstrapEnvelope

/-- The positions of the components that pass the test. -/
def positions (protocols : List Protocol) (test : Protocol → Bool) : List ℕ :=
  (protocols.zipIdx.filter fun entry => test entry.1).map Prod.snd

namespace Protocol

def isP2p : Protocol → Bool
  | .p2p _ => true
  | _ => false

def isTcp : Protocol → Bool
  | .tcp _ => true
  | _ => false

def isUdp : Protocol → Bool
  | .udp _ => true
  | _ => false

end Protocol

def directQuic (protocols : List Protocol) : Bool :=
  (positions protocols Protocol.isP2p).isEmpty
    && (positions protocols (· = .p2pCircuit)).isEmpty
    && protocols.getLast? = some .quicV1
    && protocols.any Protocol.isUdp

def relayRoute (protocols : List Protocol) : Bool :=
  match positions protocols Protocol.isP2p, positions protocols (· = .p2pCircuit) with
  | [peer], [circuit] =>
    let route := protocols.take peer
    circuit + 1 = protocols.length
      && peer + 1 = circuit
      && (route.any Protocol.isTcp || (route.any Protocol.isUdp && route.any (· = .quicV1)))
  | _, _ => false

def validateAddress (address : Multiaddr) : Except BootstrapError Unit :=
  if address.isEmpty then .error .invalidAddress
  else if directQuic address || relayRoute address then .ok ()
  else .error .invalidAddress

variable (T : TextForms)

def createCode (invitePackage : ByteString) (peerId : PeerId) (address : Multiaddr) :
    Except BootstrapError ByteString :=
  if invitePackage.isEmpty || invitePackage.length > MAX_INVITE_PACKAGE_BYTES then
    .error .invalidInvitePackage
  else
    match validateAddress address with
    | .error error => .error error
    | .ok _ =>
      let envelope : BootstrapEnvelope :=
        { version := BOOTSTRAP_VERSION
          invitePackage
          peerId := T.peerText peerId
          address := T.addressText address }
      let encoded := envelope.toJson
      if encoded.length > MAX_BOOTSTRAP_ENVELOPE_BYTES then .error .envelopeTooLarge
      else
        let code := CODE_PREFIX ++ T.encode64 encoded
        if code.length > MAX_BOOTSTRAP_CODE_CHARS then .error .codeTooLarge else .ok code

def parseCode (code : ByteString) : Except BootstrapError BootstrapEnvelope :=
  if code.length > MAX_BOOTSTRAP_CODE_CHARS then .error .codeTooLarge
  else if !CODE_PREFIX.isPrefixOf code then .error .invalidPrefix
  else
    match T.decode64 (code.drop CODE_PREFIX.length) with
    | none => .error .invalidBase64
    | some bytes =>
      if bytes.length > MAX_BOOTSTRAP_ENVELOPE_BYTES then .error .envelopeTooLarge
      else
        match T.readEnvelope bytes with
        | none => .error .json
        | some envelope => .ok envelope

def BootstrapEnvelope.validate (envelope : BootstrapEnvelope) :
    Except BootstrapError ValidatedBootstrapEnvelope :=
  if envelope.version ≠ BOOTSTRAP_VERSION then .error .unsupportedVersion
  else if envelope.invitePackage.isEmpty
      || envelope.invitePackage.length > MAX_INVITE_PACKAGE_BYTES then
    .error .invalidInvitePackage
  else
    match T.readPeer envelope.peerId with
    | none => .error .invalidPeerId
    | some peerId =>
      match T.readAddress envelope.address with
      | none => .error .invalidAddress
      | some address =>
        match validateAddress address with
        | .error error => .error error
        | .ok _ => .ok { invitePackage := envelope.invitePackage, peerId, address }

end ChatCommons
