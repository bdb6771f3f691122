import ChatCommons.General.Bytes

namespace ChatCommons

inductive IdKind
  | event | community | user | device | homeServer

/-- The 32-byte identifiers: `EventId`, `CommunityId`, `UserId`, `DeviceId`, `HomeServerId`. -/
structure Id (kind : IdKind) where
  bytes : Bytes 32

namespace Id

variable {kind : IdKind}

theorem bytes_injective : Function.Injective fun id : Id kind => id.bytes := by
  rintro ⟨a⟩ ⟨b⟩ h
  simp_all

instance : LinearOrder (Id kind) := LinearOrder.lift' Id.bytes bytes_injective

instance compare_transCmp : Std.TransCmp (compare : Id kind → Id kind → Ordering) := inferInstance

instance compare_lawfulEqCmp : Std.LawfulEqCmp (compare : Id kind → Id kind → Ordering) :=
  inferInstance

instance lawfulBEq : LawfulBEq (Id kind) := inferInstance

def asBytes (id : Id kind) : ByteString := id.bytes.toList

@[simp] theorem asBytes_length (id : Id kind) : id.asBytes.length = 32 := id.bytes.length_eq

end Id

abbrev EventId := Id .event
abbrev CommunityId := Id .community
abbrev UserId := Id .user
abbrev DeviceId := Id .device
abbrev HomeServerId := Id .homeServer

/-- `impl From<EventId> for CommunityId`. -/
def EventId.toCommunity (id : EventId) : CommunityId := ⟨id.bytes⟩

theorem EventId.toCommunity_injective : Function.Injective EventId.toCommunity := by
  rintro ⟨a⟩ ⟨b⟩ h
  simpa [EventId.toCommunity] using h

def PUBLIC_KEY_LEN : ℕ := 32
def SIGNATURE_LEN : ℕ := 64

/-- The functions of the `blake3` and `ed25519-dalek` packages that the crates call. -/
structure Crypto where
  blake3 : ByteString → Bytes 32
  verifyingKey : (seed : Bytes 32) → Bytes 32
  sign : (seed : Bytes 32) → ByteString → Bytes 64
  isVerifyingKey : Bytes 32 → Bool
  checkSignature : Bytes 32 → ByteString → Bytes 64 → Bool

/-- Signatures made with a seed verify under the key of that seed. -/
structure Crypto.SignsCorrectly (C : Crypto) : Prop where
  isVerifyingKey (seed : Bytes 32) : C.isVerifyingKey (C.verifyingKey seed) = true
  checkSignature (seed : Bytes 32) (bytes : ByteString) :
    C.checkSignature (C.verifyingKey seed) bytes (C.sign seed bytes) = true

inductive CryptoError
  | invalidPublicKeyLength | invalidSignatureLength | invalidPublicKey | invalidSignature
deriving DecidableEq

variable (C : Crypto)

def UserId.fromPublicKey (publicKey : Bytes 32) : UserId := ⟨C.blake3 publicKey.toList⟩

structure Identity where
  seed : Bytes 32

namespace Identity

def publicKey (identity : Identity) : Bytes 32 := C.verifyingKey identity.seed

def userId (identity : Identity) : UserId := UserId.fromPublicKey C (identity.publicKey C)

def sign (identity : Identity) (bytes : ByteString) : Bytes 64 := C.sign identity.seed bytes

end Identity

def verify (publicKey bytes signature : ByteString) : Except CryptoError Unit :=
  match Bytes.ofList? 32 publicKey with
  | none => .error .invalidPublicKeyLength
  | some publicKey =>
    match Bytes.ofList? 64 signature with
    | none => .error .invalidSignatureLength
    | some signature =>
      if !C.isVerifyingKey publicKey then .error .invalidPublicKey
      else if C.checkSignature publicKey bytes signature then .ok ()
      else .error .invalidSignature

variable {C}

theorem verify_sign (h : C.SignsCorrectly) (identity : Identity) (bytes : ByteString) :
    verify C (identity.publicKey C).toList bytes (identity.sign C bytes).toList = .ok () := by
  simp [verify, Identity.publicKey, Identity.sign, h.isVerifyingKey, h.checkSignature]

end ChatCommons
