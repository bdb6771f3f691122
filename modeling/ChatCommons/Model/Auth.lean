import ChatCommons.General.Collections
import ChatCommons.Model.Crypto
import ChatCommons.General.JsonText

namespace ChatCommons

open Collections

def DEVICE_AUTH_VERSION : UInt16 := 1

/-- A `PeerId` of libp2p, as `to_bytes` gives it. -/
structure PeerId where
  toBytes : ByteString
deriving DecidableEq

namespace PeerId

theorem key_injective : Function.Injective fun p : PeerId => p.toBytes.map UInt8.toNat := by
  rintro ⟨a⟩ ⟨b⟩ h
  exact congrArg PeerId.mk (List.map_injective_iff.mpr (fun _ _ => UInt8.toNat_inj.mp) h)

instance : LinearOrder PeerId := LinearOrder.lift' _ key_injective

end PeerId

/-- `PublicKey::try_from_bytes` and `to_peer_id` of libp2p. -/
abbrev PeerNames := Bytes 32 → Option PeerId

def DeviceId.fromPublicKey (C : Crypto) (publicKey : Bytes 32) : DeviceId :=
  ⟨C.blake3 (utf8 "chatcommons:device-id:v1" ++ [0] ++ publicKey.toList)⟩

structure DeviceIdentity where
  publicKey : Bytes 32
  peerId : PeerId

structure DeviceCertificate where
  version : UInt16
  userPublicKey : ByteString
  devicePublicKey : ByteString
  issuedAtMs : Int64
  signature : ByteString
deriving DecidableEq

structure DeviceRevocation where
  version : UInt16
  userPublicKey : ByteString
  deviceId : DeviceId
  issuedAtMs : Int64
  signature : ByteString
deriving DecidableEq

structure AuthenticatedDevice where
  userId : UserId
  deviceId : DeviceId
deriving DecidableEq

inductive AuthError
  | unsupportedVersion | invalidDeviceKey | invalidPublicKeyLength | invalidSignatureLength
  | invalidSignature | revoked
deriving DecidableEq

variable (C : Crypto) (P : PeerNames)

def DeviceIdentity.fromSeed (seed : Bytes 32) : Except AuthError DeviceIdentity :=
  let publicKey := C.verifyingKey seed
  match P publicKey with
  | none => .error .invalidDeviceKey
  | some peerId => .ok { publicKey, peerId }

def certificateBytes (certificate : DeviceCertificate) : ByteString :=
  utf8 "chatcommons:device-certificate:v1" ++ [0]
    ++ bigEndian 2 certificate.version.toNat
    ++ certificate.userPublicKey
    ++ certificate.devicePublicKey
    ++ bigEndian 8 certificate.issuedAtMs.toBitVec.toNat

def createDeviceCertificate (user : Identity) (device : DeviceIdentity) (issuedAtMs : Int64) :
    DeviceCertificate :=
  let certificate : DeviceCertificate :=
    { version := DEVICE_AUTH_VERSION
      userPublicKey := (user.publicKey C).toList
      devicePublicKey := device.publicKey.toList
      issuedAtMs
      signature := [] }
  { certificate with signature := (user.sign C (certificateBytes certificate)).toList }

def validateVersionAndLengths (version : UInt16) (userPublicKey : ByteString)
    (devicePublicKey : Option ByteString) (signature : ByteString) : Except AuthError Unit :=
  if version ≠ DEVICE_AUTH_VERSION then .error .unsupportedVersion
  else if userPublicKey.length ≠ PUBLIC_KEY_LEN
      || devicePublicKey.any (fun key => key.length ≠ PUBLIC_KEY_LEN) then
    .error .invalidPublicKeyLength
  else if signature.length ≠ SIGNATURE_LEN then .error .invalidSignatureLength
  else .ok ()

def validateDeviceCertificate (certificate : DeviceCertificate) :
    Except AuthError AuthenticatedDevice := do
  validateVersionAndLengths certificate.version certificate.userPublicKey
    (some certificate.devicePublicKey) certificate.signature
  match verify C certificate.userPublicKey (certificateBytes certificate) certificate.signature with
  | .error _ => .error .invalidSignature
  | .ok _ =>
    match Bytes.ofList? 32 certificate.userPublicKey with
    | none => .error .invalidPublicKeyLength
    | some userPublicKey =>
      match Bytes.ofList? 32 certificate.devicePublicKey with
      | none => .error .invalidPublicKeyLength
      | some devicePublicKey =>
        .ok ⟨UserId.fromPublicKey C userPublicKey, DeviceId.fromPublicKey C devicePublicKey⟩

def peerIdFromCertificate (certificate : DeviceCertificate) : Except AuthError PeerId := do
  let _ ← validateDeviceCertificate C certificate
  match (Bytes.ofList? 32 certificate.devicePublicKey).bind P with
  | none => .error .invalidDeviceKey
  | some peerId => .ok peerId

def revocationBytes (revocation : DeviceRevocation) : ByteString :=
  utf8 "chatcommons:device-revocation:v1" ++ [0]
    ++ bigEndian 2 revocation.version.toNat
    ++ revocation.userPublicKey
    ++ revocation.deviceId.asBytes
    ++ bigEndian 8 revocation.issuedAtMs.toBitVec.toNat

def createDeviceRevocation (user : Identity) (deviceId : DeviceId) (issuedAtMs : Int64) :
    DeviceRevocation :=
  let revocation : DeviceRevocation :=
    { version := DEVICE_AUTH_VERSION
      userPublicKey := (user.publicKey C).toList
      deviceId
      issuedAtMs
      signature := [] }
  { revocation with signature := (user.sign C (revocationBytes revocation)).toList }

def validateDeviceRevocation (revocation : DeviceRevocation) : Except AuthError UserId := do
  validateVersionAndLengths revocation.version revocation.userPublicKey none revocation.signature
  match verify C revocation.userPublicKey (revocationBytes revocation) revocation.signature with
  | .error _ => .error .invalidSignature
  | .ok _ =>
    match Bytes.ofList? 32 revocation.userPublicKey with
    | none => .error .invalidPublicKeyLength
    | some userPublicKey => .ok (UserId.fromPublicKey C userPublicKey)

/-- The pairs that `apply` has entered. -/
structure RevocationSet where
  entries : BTreeSet (UserId ×ₗ DeviceId) := ∅

def RevocationSet.apply (revocations : RevocationSet) (revocation : DeviceRevocation) :
    Except AuthError RevocationSet := do
  let userId ← validateDeviceRevocation C revocation
  return ⟨revocations.entries.insert (toLex (userId, revocation.deviceId))⟩

def RevocationSet.contains (revocations : RevocationSet) (userId : UserId) (deviceId : DeviceId) :
    Bool :=
  toLex (userId, deviceId) ∈ revocations.entries

open JsonText in
def DeviceCertificate.toJson (certificate : DeviceCertificate) : ByteString :=
  object [
    ("version", decimal certificate.version.toNat),
    ("user_public_key", byteArray certificate.userPublicKey),
    ("device_public_key", byteArray certificate.devicePublicKey),
    ("issued_at_ms", integer certificate.issuedAtMs.toInt),
    ("signature", byteArray certificate.signature)]

end ChatCommons
