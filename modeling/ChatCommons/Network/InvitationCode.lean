import ChatCommons.Model.Bootstrap
import ChatCommons.Sample.Club

/-!
Invitation codes: whatever the bytes of the capability and the text of the address, the code
stays within its limits and gives back what was put into it.
-/

namespace ChatCommons

open JsonText

def BASE58_ALPHABET : String := "123456789ABCDEFGHJKLMNPQRSTUVWXYZabcdefghijkmnopqrstuvwxyz"

section Sizes

theorem byteArrayWidth_le (bytes : ByteString) :
    byteArrayWidth bytes ≤ 4 * bytes.length + 2 := by
  rw [← byteArray_length]
  exact byteArray_length_le bytes

theorem stringWidth_le (s : String) : stringWidth s ≤ 6 * s.utf8ByteSize + 2 := by
  rw [← string_length]
  exact string_length_le s

theorem stringWidth_base58 {s : String} (h : ∀ b ∈ utf8 s, b ∈ utf8 BASE58_ALPHABET) :
    stringWidth s = s.utf8ByteSize + 2 := by
  have hplain : ∀ b ∈ utf8 BASE58_ALPHABET, escapeWidth b = 1 := by decide +kernel
  have hsum : ∀ l : ByteString, (∀ b ∈ l, b ∈ utf8 BASE58_ALPHABET) →
      (l.map escapeWidth).sum = l.length := by
    intro l hl
    induction l with
    | nil => rfl
    | cons b l ih =>
      have hb := hplain b (hl b List.mem_cons_self)
      have hrest := ih fun x hx => hl x (List.mem_cons_of_mem _ hx)
      rw [List.map_cons, List.sum_cons, List.length_cons, hb, hrest, Nat.add_comm]
  rw [stringWidth, hsum _ h, utf8_length]

theorem InvitePackage.toJson_length (package : InvitePackage) : package.toJson.length =
    60 + integerWidth package.version.toNat + byteArrayWidth package.community.asBytes
      + byteArrayWidth package.invitation.asBytes + byteArrayWidth package.capabilitySecret := by
  have hversion : (decimal package.version.toNat).length = integerWidth package.version.toNat := by
    rw [decimal, List.length_map, integerWidth, if_neg (by omega), Int.natAbs_natCast, Nat.add_zero]
  have e1 : (string "version").length = 9 := by decide
  have e2 : (string "community").length = 11 := by decide
  have e3 : (string "invitation").length = 12 := by decide
  have e4 : (string "capability_secret").length = 19 := by decide
  simp only [toJson, object, List.map_cons, List.map_nil, commas, field, List.length_append,
    List.length_cons, List.length_nil, e1, e2, e3, e4, hversion, byteArray_length]
  omega

theorem BootstrapEnvelope.toJson_length (envelope : BootstrapEnvelope) : envelope.toJson.length =
    52 + integerWidth envelope.version.toNat + byteArrayWidth envelope.invitePackage
      + stringWidth envelope.peerId + stringWidth envelope.address := by
  have hversion : (decimal envelope.version.toNat).length = integerWidth envelope.version.toNat := by
    rw [decimal, List.length_map, integerWidth, if_neg (by omega), Int.natAbs_natCast, Nat.add_zero]
  have e1 : (string "version").length = 9 := by decide
  have e2 : (string "invite_package").length = 16 := by decide
  have e3 : (string "peer_id").length = 9 := by decide
  have e4 : (string "address").length = 9 := by decide
  simp only [toJson, object, List.map_cons, List.map_nil, commas, field, List.length_append,
    List.length_cons, List.length_nil, e1, e2, e3, e4, hversion, byteArray_length, string_length]
  omega

end Sizes

variable {T : TextForms} {capability : InviteCapability} {community : CommunityId}
  {invitation : EventId} {peer : PeerId} {address : Multiaddr}

theorem package_length (capability : InviteCapability) (community : CommunityId)
    (invitation : EventId) :
    1 ≤ (capability.package community invitation).toJson.length ∧
      (capability.package community invitation).toJson.length ≤ 451 := by
  have hversion : integerWidth (UInt16.ofNat INVITE_PACKAGE_VERSION).toNat = 1 := by
    decide +kernel
  have hcommunity := byteArrayWidth_le community.asBytes
  have hinvitation := byteArrayWidth_le invitation.asBytes
  have hsecret := byteArrayWidth_le capability.seed.toList
  rw [Id.asBytes_length] at hcommunity hinvitation
  rw [Bytes.length_eq] at hsecret
  rw [InvitePackage.toJson_length]
  simp only [InviteCapability.package, hversion]
  omega

theorem package_accepted {package : ByteString} (hnonempty : 1 ≤ package.length)
    (hpackage : package.length ≤ 451) :
    (package.isEmpty || decide (package.length > MAX_INVITE_PACKAGE_BYTES)) = false := by
  rw [Bool.or_eq_false_iff, List.isEmpty_eq_false_iff, ← List.length_pos_iff, decide_eq_false_iff_not,
    not_lt, MAX_INVITE_PACKAGE_BYTES]
  exact ⟨hnonempty, by omega⟩

def TextForms.envelope (T : TextForms) (package : ByteString) (peer : PeerId) (address : Multiaddr) :
    BootstrapEnvelope where
  version := BOOTSTRAP_VERSION
  invitePackage := package
  peerId := T.peerText peer
  address := T.addressText address

/-- What the packages promise about the texts of one code: each is read back, the text of a peer is
base58 of a multihash of at most 66 bytes, and base64 without padding has four letters for three
bytes. -/
structure TextForms.Faithful (T : TextForms) (package : ByteString) (peer : PeerId)
    (address : Multiaddr) : Prop where
  readPeer : T.readPeer (T.peerText peer) = some peer
  peerPlain : ∀ b ∈ utf8 (T.peerText peer), b ∈ utf8 BASE58_ALPHABET
  peerBytes : (T.peerText peer).utf8ByteSize ≤ 91
  readAddress : T.readAddress (T.addressText address) = some address
  readEnvelope : T.readEnvelope (T.envelope package peer address).toJson =
    some (T.envelope package peer address)
  decode64 : T.decode64 (T.encode64 (T.envelope package peer address).toJson) =
    some (T.envelope package peer address).toJson
  encode64_length : (T.encode64 (T.envelope package peer address).toJson).length =
    (4 * (T.envelope package peer address).toJson.length + 2) / 3

section Code

variable {package : ByteString} (h : T.Faithful package peer address)
  (hpackage : package.length ≤ 451) (hshort : (T.addressText address).utf8ByteSize ≤ 1024)
include h hpackage hshort

theorem envelope_length :
    (T.envelope package peer address).toJson.length ≤ MAX_BOOTSTRAP_ENVELOPE_BYTES := by
  have hversion : integerWidth BOOTSTRAP_VERSION.toNat = 1 := by decide +kernel
  have hbytes := byteArrayWidth_le package
  have hpeer := stringWidth_base58 h.peerPlain
  have hpeerBytes := h.peerBytes
  have haddress := stringWidth_le (T.addressText address)
  rw [BootstrapEnvelope.toJson_length, MAX_BOOTSTRAP_ENVELOPE_BYTES]
  simp only [TextForms.envelope, hversion]
  omega

theorem code_length : (CODE_PREFIX ++
    T.encode64 (T.envelope package peer address).toJson).length ≤ MAX_BOOTSTRAP_CODE_CHARS := by
  have hjson := envelope_length h hpackage hshort
  have hbefore : CODE_PREFIX.length = 4 := by decide
  rw [MAX_BOOTSTRAP_ENVELOPE_BYTES] at hjson
  rw [List.length_append, hbefore, h.encode64_length, MAX_BOOTSTRAP_CODE_CHARS]
  omega

theorem parseCode_eq :
    parseCode T (CODE_PREFIX ++ T.encode64 (T.envelope package peer address).toJson) =
      .ok (T.envelope package peer address) := by
  have hjson := envelope_length h hpackage hshort
  have hcode := code_length h hpackage hshort
  have hbegins : CODE_PREFIX.isPrefixOf
      (CODE_PREFIX ++ T.encode64 (T.envelope package peer address).toJson) = true :=
    List.isPrefixOf_iff_prefix.mpr (List.prefix_append _ _)
  rw [parseCode, if_neg (not_lt.mpr hcode), hbegins, List.drop_left, h.decode64]
  simp only [Bool.not_true, Bool.false_eq_true, if_false, if_neg (not_lt.mpr hjson),
    h.readEnvelope]

variable (hvalid : validateAddress address = .ok ()) (hnonempty : 1 ≤ package.length)
include hvalid hnonempty

theorem createCode_eq : createCode T package peer address =
    .ok (CODE_PREFIX ++ T.encode64 (T.envelope package peer address).toJson) := by
  have hjson := envelope_length h hpackage hshort
  have hcode := code_length h hpackage hshort
  have hsize := package_accepted hnonempty hpackage
  rw [TextForms.envelope] at hjson hcode ⊢
  simp only [createCode, hsize, Bool.false_eq_true, if_false, hvalid,
    if_neg (not_lt.mpr hjson), if_neg (not_lt.mpr hcode)]

omit hshort in
theorem envelope_validate : (T.envelope package peer address).validate T =
    .ok { invitePackage := package, peerId := peer, address } := by
  have hsize : ((T.envelope package peer address).invitePackage.isEmpty || decide
      ((T.envelope package peer address).invitePackage.length > MAX_INVITE_PACKAGE_BYTES)) =
        false := package_accepted hnonempty hpackage
  have hversion : (T.envelope package peer address).version = BOOTSTRAP_VERSION := rfl
  have hpeer : T.readPeer (T.envelope package peer address).peerId = some peer := h.readPeer
  have haddress : T.readAddress (T.envelope package peer address).address = some address :=
    h.readAddress
  rw [BootstrapEnvelope.validate, if_neg (not_ne_iff.mpr hversion), hsize,
    if_neg Bool.false_ne_true, hpeer]
  simp only [haddress, hvalid]
  rfl

end Code

/-- An invitation goes through its code unchanged: what is encoded fits every limit, and parsing
and checking it gives back the package, the peer, the address and the capability. -/
theorem invitation_code_round_trip (R : PackageReader) (capability : InviteCapability)
    (community : CommunityId) (invitation : EventId) (peer : PeerId) (address : Multiaddr)
    (hvalid : validateAddress address = .ok ())
    (hshort : (T.addressText address).utf8ByteSize ≤ 1024)
    (hforms : T.Faithful (capability.package community invitation).toJson peer address)
    (hread : R (capability.package community invitation).toJson =
      some (capability.package community invitation)) :
    ∃ package code, capability.encodePackage community invitation = .ok package ∧
      package.length ≤ MAX_INVITE_PACKAGE_BYTES ∧
      createCode T package peer address = .ok code ∧ code.length ≤ MAX_BOOTSTRAP_CODE_CHARS ∧
      (∃ parsed envelope, parseCode T code = .ok parsed ∧ parsed.validate T = .ok envelope ∧
        envelope.invitePackage = package ∧ envelope.peerId = peer ∧ envelope.address = address) ∧
      ∃ parsed, parseInvitePackage R package = .ok parsed ∧
        parsed.prepare = .ok { community, invitation, capability } := by
  obtain ⟨hnonempty, hlength⟩ := package_length capability community invitation
  have hsmall : (capability.package community invitation).toJson.length ≤
      MAX_INVITE_PACKAGE_BYTES := by
    rw [MAX_INVITE_PACKAGE_BYTES]
    omega
  have hversion : (UInt16.ofNat INVITE_PACKAGE_VERSION).toNat = INVITE_PACKAGE_VERSION := by decide
  refine ⟨_, _, rfl, hsmall, createCode_eq hforms hlength hshort hvalid hnonempty,
    code_length hforms hlength hshort, ⟨_, _, parseCode_eq hforms hlength hshort,
      envelope_validate hforms hlength hvalid hnonempty, rfl, rfl, rfl⟩,
    capability.package community invitation, ?_, ?_⟩
  · rw [parseInvitePackage, if_neg (not_lt.mpr hsmall), hread]
  · simp only [InvitePackage.prepare, InviteCapability.package, hversion, ne_eq, not_true_eq_false,
      if_false, Bytes.ofList?_toList]

section Example

open Sample

/-- base64 in the alphabet for URLs and without padding. -/
def base64Url : ByteString → ByteString
  | a :: b :: c :: rest =>
    let n := a.toNat * 65536 + b.toNat * 256 + c.toNat
    [letter (n / 262144), letter (n / 4096), letter (n / 64), letter n] ++ base64Url rest
  | [a, b] =>
    let n := a.toNat * 1024 + b.toNat * 4
    [letter (n / 4096), letter (n / 64), letter n]
  | [a] => [letter (a.toNat / 4), letter (a.toNat * 16)]
  | [] => []
where
  letter (n : ℕ) : UInt8 :=
    (utf8 "ABCDEFGHIJKLMNOPQRSTUVWXYZabcdefghijklmnopqrstuvwxyz0123456789-_").getD (n % 64) 0

theorem base64Url_length (bytes : ByteString) :
    (base64Url bytes).length = (4 * bytes.length + 2) / 3 := by
  induction bytes using base64Url.induct with
  | case1 a b c rest ih =>
    rw [base64Url, List.length_append, ih]
    simp only [List.length_cons, List.length_nil]
    omega
  | case2 a b => simp [base64Url]
  | case3 a => simp [base64Url]
  | case4 => simp [base64Url]

def base58 (bytes : ByteString) : String :=
  String.ofList ('1' :: ((Nat.digits 58 (bytes.foldl (fun n b => n * 256 + b.toNat) 0)).reverse.map
    fun d => (BASE58_ALPHABET.toList.getD d '1')))

/-- The name of an Ed25519 key is the key itself behind a header of six bytes. -/
def endpointPeer : PeerId :=
  ⟨[0, 36, 8, 1, 18, 32] ++ ((identity 5).publicKey crypto).toList⟩

def endpointDevice : DeviceIdentity := ⟨(identity 5).publicKey crypto, endpointPeer⟩

def joinerDevice : DeviceIdentity :=
  ⟨(identity 12).publicKey crypto,
    ⟨[0, 36, 8, 1, 18, 32] ++ ((identity 12).publicKey crypto).toList⟩⟩

def endpointAddress : Multiaddr := [.other [127, 0, 0, 1], .udp 4001, .quicV1]

def ticket : InviteCapability := ⟨(identity 3).seed⟩

def ticketPackage : InvitePackage := ticket.package club Sample.invitation.eventId

def only {α β : Type} [DecidableEq α] (text : α) (value : β) : α → Option β := fun other =>
  if other = text then some value else none

theorem only_self {α β : Type} [DecidableEq α] (text : α) (value : β) :
    only text value text = some value := if_pos rfl

def ticketReader : PackageReader := only ticketPackage.toJson ticketPackage

def ticketEnvelope : BootstrapEnvelope where
  version := BOOTSTRAP_VERSION
  invitePackage := ticketPackage.toJson
  peerId := base58 endpointPeer.toBytes
  address := "/ip4/127.0.0.1/udp/4001/quic-v1"

def ticketForms : TextForms where
  encode64 := base64Url
  decode64 := only (base64Url ticketEnvelope.toJson) ticketEnvelope.toJson
  peerText peer := base58 peer.toBytes
  readPeer := only (base58 endpointPeer.toBytes) endpointPeer
  addressText _ := "/ip4/127.0.0.1/udp/4001/quic-v1"
  readAddress := only "/ip4/127.0.0.1/udp/4001/quic-v1" endpointAddress
  readEnvelope := only ticketEnvelope.toJson ticketEnvelope

theorem ticket_peer : (∀ b ∈ utf8 (base58 endpointPeer.toBytes), b ∈ utf8 BASE58_ALPHABET) ∧
    (base58 endpointPeer.toBytes).utf8ByteSize ≤ 91 := by decide +kernel

theorem ticket_envelope : ticketForms.envelope ticketPackage.toJson endpointPeer endpointAddress =
    ticketEnvelope := rfl

theorem ticketForms_faithful :
    ticketForms.Faithful ticketPackage.toJson endpointPeer endpointAddress where
  readPeer := only_self (base58 endpointPeer.toBytes) endpointPeer
  peerPlain := ticket_peer.1
  peerBytes := ticket_peer.2
  readAddress := only_self "/ip4/127.0.0.1/udp/4001/quic-v1" endpointAddress
  readEnvelope := by
    rw [ticket_envelope]
    simp only [ticketForms, only_self]
  decode64 := by
    rw [ticket_envelope]
    simp only [ticketForms, only_self]
  encode64_length := by
    rw [ticket_envelope]
    simp only [ticketForms, base64Url_length]

theorem invitation_code_round_trip_ticket : ∃ package code,
    ticket.encodePackage club Sample.invitation.eventId = .ok package ∧
      package.length ≤ MAX_INVITE_PACKAGE_BYTES ∧
      createCode ticketForms package endpointPeer endpointAddress = .ok code ∧
      code.length ≤ MAX_BOOTSTRAP_CODE_CHARS ∧
      (∃ parsed envelope, parseCode ticketForms code = .ok parsed ∧
        parsed.validate ticketForms = .ok envelope ∧ envelope.invitePackage = package ∧
        envelope.peerId = endpointPeer ∧ envelope.address = endpointAddress) ∧
      ∃ parsed, parseInvitePackage ticketReader package = .ok parsed ∧
        parsed.prepare =
          .ok { community := club, invitation := Sample.invitation.eventId, capability := ticket } :=
  invitation_code_round_trip ticketReader ticket club Sample.invitation.eventId endpointPeer
    endpointAddress rfl (by decide) ticketForms_faithful (only_self _ _)

end Example

end ChatCommons
