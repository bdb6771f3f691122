import ChatCommons.General.JsonCode
import ChatCommons.Model.Archive
import ChatCommons.Model.Bootstrap
import ChatCommons.Model.NetworkMessage

/-!
No two values of a format that the program writes have the same text.
-/

namespace ChatCommons

open JsonText

theorem asBytes_injective {kind : IdKind} : Function.Injective fun id : Id kind => id.asBytes := by
  rintro ⟨a⟩ ⟨b⟩ h
  exact congrArg Id.mk (Bytes.toList_injective h)

theorem legible_id {kind : IdKind} : Legible fun id : Id kind => byteArray id.asBytes :=
  legible_byteArray.comp asBytes_injective

theorem legible_uint16 : Legible fun n : UInt16 => decimal n.toNat :=
  legible_decimal.comp fun _ _ => UInt16.toNat_inj.mp

theorem legible_int64 : Legible fun n : Int64 => integer n.toInt :=
  legible_integer.comp fun _ _ => Int64.toInt_inj.mp

theorem legible_optional {kind : IdKind} :
    Legible fun id : Option (Id kind) => id.elim null fun id => byteArray id.asBytes := by
  have hnull : null = 110 :: [117, 108, 108] := rfl
  have hplain : ∀ b ∈ null, ¬ IsEnd b := by
    rw [hnull]
    simp [IsEnd]
  refine ⟨fun a b h => ?_, fun a b => ?_, fun a => ?_⟩
  · cases a with
    | none =>
      cases b with
      | none => rfl
      | some b => cases (List.cons.inj h).1
    | some a =>
      cases b with
      | none => cases (List.cons.inj h).1
      | some b => exact congrArg some (legible_id.injective h)
  · cases a with
    | none =>
      cases b with
      | none => exact apart_of_plain hplain hplain
      | some b => exact apart_of_heads (by decide)
    | some a =>
      cases b with
      | none => exact apart_of_heads (by decide)
      | some b => exact legible_id.apart a b
  · cases a with
    | none => exact ⟨110, _, hnull, by simp [IsEnd]⟩
    | some a => exact legible_id.starts a

section Events

theorem EventContent.legible : Legible EventContent.toJson := by
  apply legible_object
  · intro a b
    exact ⟨fun _ => legible_uint16.apart _ _, fun _ => legible_optional.apart _ _,
      fun _ => legible_id.array.apart _ _, fun _ => legible_int64.apart _ _,
      fun _ => legible_string.apart _ _, fun _ => legible_byteArray.apart _ _, trivial⟩
  · rintro ⟨v, c, p, t, e, d⟩ ⟨v', c', p', t', e', d'⟩ h
    simp only [List.cons.injEq, Prod.mk.injEq, true_and, and_true] at h
    obtain ⟨hv, hc, hp, ht, he, hd⟩ := h
    rw [legible_uint16.injective hv, legible_optional.injective hc, legible_id.array.injective hp,
      legible_int64.injective ht, legible_string.injective he, legible_byteArray.injective hd]

theorem SignedEvent.legible : Legible SignedEvent.toJson := by
  apply legible_object
  · intro a b
    exact ⟨fun _ => EventContent.legible.apart _ _, fun _ => legible_byteArray.apart _ _,
      fun _ => legible_byteArray.apart _ _, fun _ => legible_id.apart _ _, trivial⟩
  · rintro ⟨c, p, s, e⟩ ⟨c', p', s', e'⟩ h
    simp only [List.cons.injEq, Prod.mk.injEq, true_and, and_true] at h
    obtain ⟨hc, hp, hs, he⟩ := h
    rw [EventContent.legible.injective hc, legible_byteArray.injective hp,
      legible_byteArray.injective hs, legible_id.injective he]

theorem ArchiveWire.legible : Legible ArchiveWire.toJson := by
  apply legible_object
  · intro a b
    exact ⟨fun _ => legible_uint16.apart _ _, fun _ => legible_id.apart _ _,
      fun _ => SignedEvent.legible.array.apart _ _, trivial⟩
  · rintro ⟨v, c, e⟩ ⟨v', c', e'⟩ h
    simp only [List.cons.injEq, Prod.mk.injEq, true_and, and_true] at h
    obtain ⟨hv, hc, he⟩ := h
    rw [legible_uint16.injective hv, legible_id.injective hc, SignedEvent.legible.array.injective he]

end Events

section Codes

theorem DeviceCertificate.legible : Legible DeviceCertificate.toJson := by
  apply legible_object
  · intro a b
    exact ⟨fun _ => legible_uint16.apart _ _, fun _ => legible_byteArray.apart _ _,
      fun _ => legible_byteArray.apart _ _, fun _ => legible_int64.apart _ _,
      fun _ => legible_byteArray.apart _ _, trivial⟩
  · rintro ⟨v, u, d, t, s⟩ ⟨v', u', d', t', s'⟩ h
    simp only [List.cons.injEq, Prod.mk.injEq, true_and, and_true] at h
    obtain ⟨hv, hu, hd, ht, hs⟩ := h
    rw [legible_uint16.injective hv, legible_byteArray.injective hu, legible_byteArray.injective hd,
      legible_int64.injective ht, legible_byteArray.injective hs]

theorem InvitePackage.legible : Legible InvitePackage.toJson := by
  apply legible_object
  · intro a b
    exact ⟨fun _ => legible_uint16.apart _ _, fun _ => legible_id.apart _ _,
      fun _ => legible_id.apart _ _, fun _ => legible_byteArray.apart _ _, trivial⟩
  · rintro ⟨v, c, i, s⟩ ⟨v', c', i', s'⟩ h
    simp only [List.cons.injEq, Prod.mk.injEq, true_and, and_true] at h
    obtain ⟨hv, hc, hi, hs⟩ := h
    rw [legible_uint16.injective hv, legible_id.injective hc, legible_id.injective hi,
      legible_byteArray.injective hs]

theorem BootstrapEnvelope.legible : Legible BootstrapEnvelope.toJson := by
  apply legible_object
  · intro a b
    exact ⟨fun _ => legible_uint16.apart _ _, fun _ => legible_byteArray.apart _ _,
      fun _ => legible_string.apart _ _, fun _ => legible_string.apart _ _, trivial⟩
  · rintro ⟨v, i, p, a⟩ ⟨v', i', p', a'⟩ h
    simp only [List.cons.injEq, Prod.mk.injEq, true_and, and_true] at h
    obtain ⟨hv, hi, hp, ha⟩ := h
    rw [legible_uint16.injective hv, legible_byteArray.injective hi, legible_string.injective hp,
      legible_string.injective ha]

end Codes

section Messages

def SyncMessage.tag : SyncMessage → String
  | hello _ _ _ => "Hello"
  | heads _ _ => "Heads"
  | want _ _ => "Want"
  | events _ _ => "Events"

def SyncMessage.inner : SyncMessage → List (String × ByteString)
  | hello syncVersion protocolVersions community => [
    ("sync_version", decimal syncVersion.toNat),
    ("protocol_versions", array (protocolVersions.map fun v => decimal v.toNat)),
    ("community_id", byteArray community.asBytes)]
  | heads community eventIds => [
    ("community_id", byteArray community.asBytes),
    ("event_ids", array (eventIds.map fun id => byteArray id.asBytes))]
  | want community eventIds => [
    ("community_id", byteArray community.asBytes),
    ("event_ids", array (eventIds.map fun id => byteArray id.asBytes))]
  | events community batch => [
    ("community_id", byteArray community.asBytes),
    ("events", array (batch.map SignedEvent.toJson))]

theorem ids_shape {a b : CommunityId} {ids others : List EventId} :
    SameShape
      [("community_id", byteArray a.asBytes),
        ("event_ids", array (ids.map fun id => byteArray id.asBytes))]
      [("community_id", byteArray b.asBytes),
        ("event_ids", array (others.map fun id => byteArray id.asBytes))] :=
  ⟨fun _ => legible_id.apart _ _, fun _ => legible_id.array.apart _ _, trivial⟩

theorem SyncMessage.legible : Legible SyncMessage.toJson := by
  have hvariant : SyncMessage.toJson = fun m => variant m.tag (some m.inner) := by
    funext m
    cases m <;> rfl
  rw [hvariant]
  apply legible_variant
  · rintro a b htag _ _ ⟨⟩ ⟨⟩
    cases a <;> cases b <;> simp only [SyncMessage.tag, reduceCtorEq, String.reduceEq] at htag
    · exact ⟨fun _ => legible_uint16.apart _ _, fun _ => legible_uint16.array.apart _ _,
        fun _ => legible_id.apart _ _, trivial⟩
    · exact ids_shape
    · exact ids_shape
    · exact ⟨fun _ => legible_id.apart _ _, fun _ => SignedEvent.legible.array.apart _ _, trivial⟩
  · intro a b htag hinner
    cases a <;> cases b <;> simp only [SyncMessage.tag, reduceCtorEq, String.reduceEq] at htag <;>
      simp only [SyncMessage.inner, Option.some.injEq, List.cons.injEq, Prod.mk.injEq, true_and,
        and_true] at hinner
    · rw [legible_uint16.injective hinner.1, legible_uint16.array.injective hinner.2.1,
        legible_id.injective hinner.2.2]
    · rw [legible_id.injective hinner.1, legible_id.array.injective hinner.2]
    · rw [legible_id.injective hinner.1, legible_id.array.injective hinner.2]
    · rw [legible_id.injective hinner.1, SignedEvent.legible.array.injective hinner.2]

def NetworkRequest.tag : NetworkRequest → String
  | authenticate _ => "Authenticate"
  | sync _ => "Sync"
  | bootstrapBegin _ _ => "BootstrapBegin"
  | bootstrapProve _ _ => "BootstrapProve"
  | bootstrapAccept _ _ => "BootstrapAccept"

def NetworkRequest.inner : NetworkRequest → List (String × ByteString)
  | authenticate certificate => [("certificate", certificate.toJson)]
  | sync message => [("message", message.toJson)]
  | bootstrapBegin certificate invitation => [
    ("certificate", certificate.toJson),
    ("invitation", byteArray invitation.asBytes)]
  | bootstrapProve invitation signature => [
    ("invitation", byteArray invitation.asBytes),
    ("signature", byteArray signature)]
  | bootstrapAccept invitation acceptance => [
    ("invitation", byteArray invitation.asBytes),
    ("acceptance", acceptance.toJson)]

theorem NetworkRequest.legible : Legible NetworkRequest.toJson := by
  have hvariant : NetworkRequest.toJson = fun m => variant m.tag (some m.inner) := by
    funext m
    cases m <;> rfl
  rw [hvariant]
  apply legible_variant
  · rintro a b htag _ _ ⟨⟩ ⟨⟩
    cases a <;> cases b <;> simp only [NetworkRequest.tag, reduceCtorEq, String.reduceEq] at htag
    · exact ⟨fun _ => DeviceCertificate.legible.apart _ _, trivial⟩
    · exact ⟨fun _ => SyncMessage.legible.apart _ _, trivial⟩
    · exact ⟨fun _ => DeviceCertificate.legible.apart _ _, fun _ => legible_id.apart _ _, trivial⟩
    · exact ⟨fun _ => legible_id.apart _ _, fun _ => legible_byteArray.apart _ _, trivial⟩
    · exact ⟨fun _ => legible_id.apart _ _, fun _ => SignedEvent.legible.apart _ _, trivial⟩
  · intro a b htag hinner
    cases a <;> cases b <;>
      simp only [NetworkRequest.tag, reduceCtorEq, String.reduceEq] at htag <;>
      simp only [NetworkRequest.inner, Option.some.injEq, List.cons.injEq, Prod.mk.injEq, true_and,
        and_true] at hinner
    · rw [DeviceCertificate.legible.injective hinner]
    · rw [SyncMessage.legible.injective hinner]
    · rw [DeviceCertificate.legible.injective hinner.1, legible_id.injective hinner.2]
    · rw [legible_id.injective hinner.1, legible_byteArray.injective hinner.2]
    · rw [legible_id.injective hinner.1, SignedEvent.legible.injective hinner.2]

def NetworkResponse.tag : NetworkResponse → String
  | authenticated => "Authenticated"
  | sync _ => "Sync"
  | bootstrapChallenge _ _ => "BootstrapChallenge"
  | bootstrapAncestry _ _ => "BootstrapAncestry"
  | bootstrapAccepted => "BootstrapAccepted"
  | rejected _ => "Rejected"

def NetworkResponse.inner : NetworkResponse → Option (List (String × ByteString))
  | authenticated => none
  | sync messages => some [("messages", array (messages.map SyncMessage.toJson))]
  | bootstrapChallenge invitation nonce => some [
    ("invitation", byteArray invitation.asBytes),
    ("nonce", byteArray nonce.toList)]
  | bootstrapAncestry invitation events => some [
    ("invitation", byteArray invitation.asBytes),
    ("events", array (events.map SignedEvent.toJson))]
  | bootstrapAccepted => none
  | rejected reason => some [("reason", string reason.name)]

theorem RejectionCode.name_injective : Function.Injective RejectionCode.name := by
  intro a b h
  cases a <;> cases b <;> first | rfl | simp [RejectionCode.name] at h

theorem NetworkResponse.legible : Legible NetworkResponse.toJson := by
  have hvariant : NetworkResponse.toJson = fun m => variant m.tag m.inner := by
    funext m
    cases m <;> rfl
  rw [hvariant]
  have hnonce := legible_byteArray.comp (Bytes.toList_injective (n := BOOTSTRAP_NONCE_BYTES))
  apply legible_variant
  · intro a b htag fields others ha hb
    cases a <;> cases b <;>
      simp only [NetworkResponse.tag, reduceCtorEq, String.reduceEq] at htag <;>
      simp only [NetworkResponse.inner, reduceCtorEq, Option.some.injEq] at ha hb
    · subst ha hb
      exact ⟨fun _ => SyncMessage.legible.array.apart _ _, trivial⟩
    · subst ha hb
      exact ⟨fun _ => legible_id.apart _ _, fun _ => hnonce.apart _ _, trivial⟩
    · subst ha hb
      exact ⟨fun _ => legible_id.apart _ _, fun _ => SignedEvent.legible.array.apart _ _, trivial⟩
    · subst ha hb
      exact ⟨fun _ => legible_string.apart _ _, trivial⟩
  · intro a b htag hinner
    cases a <;> cases b <;>
      simp only [NetworkResponse.tag, reduceCtorEq, String.reduceEq] at htag <;>
      simp only [NetworkResponse.inner, Option.some.injEq, List.cons.injEq, Prod.mk.injEq, true_and,
        and_true] at hinner
    · rfl
    · rw [SyncMessage.legible.array.injective hinner]
    · rw [legible_id.injective hinner.1, hnonce.injective hinner.2]
    · rw [legible_id.injective hinner.1, SignedEvent.legible.array.injective hinner.2]
    · rfl
    · rw [RejectionCode.name_injective (legible_string.injective hinner)]

end Messages

/-- In each format, a text that is written for one value is written for no other, and no text
that goes on after it with a comma or a closing bracket begins another. -/
theorem formats_unambiguous :
    Legible SignedEvent.toJson ∧ Legible ArchiveWire.toJson ∧ Legible DeviceCertificate.toJson ∧
      Legible InvitePackage.toJson ∧ Legible BootstrapEnvelope.toJson ∧
      Legible SyncMessage.toJson ∧ Legible NetworkRequest.toJson ∧ Legible NetworkResponse.toJson :=
  ⟨SignedEvent.legible, ArchiveWire.legible, DeviceCertificate.legible, InvitePackage.legible,
    BootstrapEnvelope.legible, SyncMessage.legible, NetworkRequest.legible, NetworkResponse.legible⟩

end ChatCommons
