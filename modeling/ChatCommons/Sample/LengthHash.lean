import ChatCommons.Core.EventValidity

namespace ChatCommons.Sample

/-- A stand-in for the packages: a digest of 32 bytes is the input itself, any other
input is digested to its length, and every signature passes. -/
def crypto : Crypto where
  blake3 bytes := (Bytes.ofList? 32 bytes).getD (bigEndianBytes 32 bytes.length)
  verifyingKey seed := seed
  sign _ _ := bigEndianBytes 64 0
  isVerifyingKey _ := true
  checkSignature _ _ _ := true

theorem crypto_signsCorrectly : crypto.SignsCorrectly where
  isVerifyingKey _ := rfl
  checkSignature _ _ := rfl

def idOf (n : ℕ) : EventId := ⟨bigEndianBytes 32 n⟩

theorem blake3_eq {bytes : ByteString} (h : bytes.length ≠ 32) :
    crypto.blake3 bytes = bigEndianBytes 32 bytes.length := by
  simp [crypto, Bytes.ofList?, h]

theorem idOf_injective {m n : ℕ} (hm : m < 2 ^ 256) (hn : n < 2 ^ 256) (h : idOf m = idOf n) :
    m = n := by
  refine bigEndianBytes_injective ?_ ?_ (congrArg Id.bytes h)
  · exact hm.trans_eq (by norm_num)
  · exact hn.trans_eq (by norm_num)

def identity (n : ℕ) : Identity := ⟨bigEndianBytes 32 n⟩

theorem canonicalContent_length (content : EventContent) :
    (canonicalContent content).length = 45 + (if content.communityId.isSome then 33 else 1)
      + 32 * content.parents.length + content.eventType.utf8ByteSize + content.payload.length := by
  have hparents : (content.parents.flatMap Id.asBytes).length = 32 * content.parents.length := by
    induction content.parents with
    | nil => rfl
    | cons id ids ih =>
      rw [List.flatMap_cons, List.length_append, ih, Id.asBytes_length, List.length_cons]
      ring
  have htag : (utf8 "chatcommons:content:v2").length = 22 := by decide
  cases hc : content.communityId <;>
    simp only [canonicalContent, putBytes, hc, List.length_append, hparents, htag,
      bigEndian_length, List.length_cons, List.length_nil, Id.asBytes_length, utf8_length,
      Option.isSome_none, Option.isSome_some, if_true, Bool.false_eq_true, if_false] <;> omega

theorem createSigned_eventId {content : EventContent} (hsorted : content.parents.Pairwise (· < ·))
    (author : Identity) : (createSigned crypto content author).eventId =
      idOf (162 + (if content.communityId.isSome then 33 else 1)
        + 32 * content.parents.length + content.eventType.utf8ByteSize + content.payload.length) := by
  have htag : (utf8 "chatcommons:event:v2").length = 20 := by decide
  have hcontent : { content with parents := sortedParents content.parents } = content := by
    rw [sortedParents_eq hsorted]
  have hlength := canonicalContent_length content
  have htotal : (utf8 "chatcommons:event:v2" ++ [0] ++ canonicalContent content
      ++ (author.publicKey crypto).toList
      ++ (author.sign crypto (canonicalContent content)).toList).length
        = 162 + (if content.communityId.isSome then 33 else 1)
          + 32 * content.parents.length + content.eventType.utf8ByteSize
          + content.payload.length := by
    simp only [List.length_append, htag, hlength, Bytes.length_eq, List.length_cons,
      List.length_nil]
    omega
  rw [createSigned, hcontent]
  dsimp only
  rw [calculateEventId, blake3_eq (by rw [htotal]; omega), htotal, idOf]

end ChatCommons.Sample
