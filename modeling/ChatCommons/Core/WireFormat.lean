import ChatCommons.Sample.LengthHash

/-!
The encoded size of an event, and the events that the parser takes back.
-/

namespace ChatCommons

open JsonText

variable {C : Crypto} {event : SignedEvent}

namespace EventContent

/-- The bytes of the encoded content: the names and the punctuation take 89. -/
def wireBytes (content : EventContent) : ℕ :=
  89 + integerWidth content.protocolVersion.toNat
    + content.communityId.elim 4 (fun id => byteArrayWidth id.asBytes)
    + ((content.parents.map fun id => byteArrayWidth id.asBytes).sum
      + (content.parents.length - 1) + 2)
    + integerWidth content.timestampMs.toInt
    + stringWidth content.eventType
    + byteArrayWidth content.payload

theorem toJson_length (content : EventContent) : content.toJson.length = content.wireBytes := by
  have hversion : (decimal content.protocolVersion.toNat).length =
      integerWidth content.protocolVersion.toNat := by
    rw [decimal, List.length_map, integerWidth, if_neg (by omega), Int.natAbs_natCast, Nat.add_zero]
  have hcommunity : (content.communityId.elim null fun id => byteArray id.asBytes).length =
      content.communityId.elim 4 fun id => byteArrayWidth id.asBytes := by
    cases content.communityId with
    | none => decide
    | some id => exact byteArray_length id.asBytes
  have hparents : (array (content.parents.map fun id => byteArray id.asBytes)).length =
      (content.parents.map fun id => byteArrayWidth id.asBytes).sum
        + (content.parents.length - 1) + 2 := by
    rw [array_length, List.map_map, List.length_map]
    simp only [Function.comp_def, byteArray_length]
  have e1 : (string "protocol_version").length = 18 := by decide
  have e2 : (string "community_id").length = 14 := by decide
  have e3 : (string "parents").length = 9 := by decide
  have e4 : (string "timestamp_ms").length = 14 := by decide
  have e5 : (string "event_type").length = 12 := by decide
  have e6 : (string "payload").length = 9 := by decide
  have htype := string_length content.eventType
  have htime := integer_length content.timestampMs.toInt
  have hpayload := byteArray_length content.payload
  simp only [toJson, object, List.map_cons, List.map_nil, commas, field, List.length_append,
    List.length_cons, List.length_nil, e1, e2, e3, e4, e5, e6, hversion, hcommunity, hparents,
    htype, htime, hpayload, wireBytes]
  omega

end EventContent

namespace SignedEvent

def wireBytes (event : SignedEvent) : ℕ :=
  51 + event.content.wireBytes
    + byteArrayWidth event.publicKey
    + byteArrayWidth event.signature
    + byteArrayWidth event.eventId.asBytes

theorem toJson_length (event : SignedEvent) : event.toJson.length = event.wireBytes := by
  have e1 : (string "content").length = 9 := by decide
  have e2 : (string "public_key").length = 12 := by decide
  have e3 : (string "signature").length = 11 := by decide
  have e4 : (string "event_id").length = 10 := by decide
  simp only [toJson, object, List.map_cons, List.map_nil, commas, field, List.length_append,
    List.length_cons, List.length_nil, e1, e2, e3, e4, byteArray_length,
    EventContent.toJson_length, wireBytes]
  omega

theorem payload_le_wireBytes (event : SignedEvent) :
    byteArrayWidth event.content.payload ≤ event.wireBytes := by
  rw [wireBytes, EventContent.wireBytes]
  omega

/-- Encoded, parsed and validated, the event is itself again. -/
def Survives (C : Crypto) (R : EventReader) (event : SignedEvent) : Prop :=
  ∃ parsed, parseJson R event.toJson = .ok parsed ∧ parsed.validate C = .ok event

/-- A valid event survives its encoding exactly when that is within the cap of the parser. -/
theorem survives_iff {R : EventReader} (hvalid : validateEvent C event = .ok ())
    (hread : R event.toJson = some event) :
    event.Survives C R ↔ event.wireBytes ≤ MAX_EVENT_JSON_BYTES := by
  rw [← toJson_length]
  constructor
  · rintro ⟨parsed, hparsed, _⟩
    unfold parseJson at hparsed
    split_ifs at hparsed with hlarge
    exact not_lt.mp hlarge
  · intro hsmall
    refine ⟨⟨event⟩, ?_, ?_⟩
    · rw [parseJson, if_neg (not_lt.mpr hsmall), hread]
    · rw [ParsedEvent.validate, hvalid]

end SignedEvent

section Example

open Sample

def laden (payload : ByteString) : SignedEvent :=
  createGenesis crypto (identity 1) "test.large" payload 0

theorem laden_payload (payload : ByteString) : (laden payload).content.payload = payload := rfl

theorem laden_valid {payload : ByteString} (h : payload.length ≤ MAX_PAYLOAD_BYTES) :
    validateEvent crypto (laden payload) = .ok () := by
  apply validateEvent_iff.mpr
  apply (createSigned_valid_iff crypto_signsCorrectly _ _).mpr
  have hparents : sortedParents [] = [] := sortedParents_eq List.Pairwise.nil
  have htype : "test.large".isEmpty = false := by decide
  have hbytes : "test.large".utf8ByteSize ≤ MAX_EVENT_TYPE_BYTES := by decide
  exact {
    version := rfl
    eventType := htype
    eventTypeBytes := hbytes
    payloadBytes := h
    parentsLength := by simp [hparents]
    parentsSorted := by simp [hparents]
    genesis := by simp [hparents] }

def tiny : SignedEvent := laden [0, 10, 100]

def tinyReader : EventReader := fun bytes => if bytes = tiny.toJson then some tiny else none

theorem survives_iff_tiny : tiny.Survives crypto tinyReader := by
  have hread : tinyReader tiny.toJson = some tiny := if_pos rfl
  exact (SignedEvent.survives_iff (laden_valid (by decide)) hread).mpr (by decide +kernel)

def brimful : SignedEvent := laden (List.replicate MAX_PAYLOAD_BYTES 255)

theorem brimful_valid : validateEvent crypto brimful = .ok () :=
  laden_valid (List.length_replicate ..).le

/-- A payload of the greatest size fills the cap by itself when its bytes have three digits. -/
theorem brimful_lost : validateEvent crypto brimful = .ok () ∧
    ∀ R, R brimful.toJson = some brimful → ¬ brimful.Survives crypto R := by
  refine ⟨brimful_valid, fun R hread hsurvives => ?_⟩
  have hsmall := (SignedEvent.survives_iff brimful_valid hread).mp hsurvives
  have hpayload : byteArrayWidth brimful.content.payload = 262145 := by
    rw [brimful, laden_payload, byteArrayWidth_replicate]
    decide
  have hlarge := brimful.payload_le_wireBytes
  rw [hpayload] at hlarge
  exact absurd (hlarge.trans hsmall) (by decide)

end Example

end ChatCommons
