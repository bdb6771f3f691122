import ChatCommons.Core.Listed
import ChatCommons.General.Rounds
import ChatCommons.Sample.Club

/-!
A long conversation of one member: a genesis, a channel, 254 messages, each a letter
longer than the one before, and an invitation at the end.
-/

namespace ChatCommons.Sample

open Collections JsonText

def letters : ℕ → String
  | 0 => ""
  | n + 1 => (letters n).push 'a'

def saying (n : ℕ) : ChatPayload :=
  if n = 0 then .channelCreate (bigEndianBytes 32 7) "hall"
  else if n = 255 then .memberInvite ((identity 3).publicKey crypto).toList
  else .messageCreate (bigEndianBytes 32 7) (letters (n + 10))

def talk : ℕ → SignedEvent
  | 0 => genesis
  | n + 1 => tell 1 [talk n] (saying n)

def talkPayloads : List ChatPayload :=
  .communityCreate PROFILE_ID "club" :: (List.range 256).map saying

def talkReader : PayloadReader := reader talkPayloads

def talkEvents (n : ℕ) : List SignedEvent := (List.range n).map talk

theorem utf8_letters (n : ℕ) : utf8 (letters n) = List.replicate n 97 := by
  induction n with
  | zero => rfl
  | succ n ih =>
    have ha : utf8 (String.singleton 'a') = [97] := by decide
    rw [letters, utf8_push, ih, ha, List.replicate_succ']

theorem string_letters_length (n : ℕ) : (string (letters n)).length = n + 2 := by
  have hescape : escape 97 = [97] := by decide
  rw [string, utf8_letters, List.flatMap_replicate, hescape]
  simp

theorem saying_length (n : ℕ) : (saying n).toVec.length =
    if n = 0 then 112 else if n = 255 then 108 else 118 + n := by
  unfold saying
  split_ifs with hzero hlast
  · decide
  · decide
  · have hchannel : (byteArray (bigEndianBytes 32 7).toList).length = 65 := by decide
    have e1 : (string "MessageCreate").length = 15 := by decide
    have e2 : (string "channel_id").length = 12 := by decide
    have e3 : (string "text").length = 6 := by decide
    simp only [ChatPayload.toVec, object, List.map_cons, List.map_nil, commas, field,
      List.length_append, List.length_cons, List.length_nil, e1, e2, e3, hchannel,
      string_letters_length]
    omega

theorem saying_type_length (n : ℕ) :
    (saying n).eventType.utf8ByteSize = if n = 255 then 18 else 19 := by
  have e1 : "chat.channel.create".utf8ByteSize = 19 := by decide
  have e2 : "chat.member.invite".utf8ByteSize = 18 := by decide
  have e3 : "chat.message.create".utf8ByteSize = 19 := by decide
  unfold saying
  by_cases hzero : n = 0
  · subst hzero
    exact e1
  · rw [if_neg hzero]
    split_ifs
    · exact e2
    · exact e3

theorem saying_not_create (n : ℕ) : (saying n).isCommunityCreate = false := by
  unfold saying
  split_ifs <;> rfl

theorem saying_injective {m n : ℕ} (hm : m < 256) (hn : n < 256)
    (h : (saying m).toVec.length = (saying n).toVec.length) : m = n := by
  rw [saying_length, saying_length] at h
  split_ifs at h <;> omega

theorem reader_readsBack {table : List ChatPayload} {payload : ChatPayload} (hmem : payload ∈ table)
    (h : ∀ other ∈ table, other.toVec.length = payload.toVec.length → other = payload) :
    reader table payload.toVec = some payload := by
  cases hfind : table.find? fun other => other.toVec = payload.toVec with
  | none =>
    have := List.find?_eq_none.mp hfind payload hmem
    simp at this
  | some other =>
    have heq : other.toVec = payload.toVec := by simpa using List.find?_some hfind
    rw [reader, hfind, h other (List.mem_of_find?_eq_some hfind) (congrArg List.length heq)]

theorem saying_read {n : ℕ} (hn : n < 256) : talkReader (saying n).toVec = some (saying n) := by
  have hgenesis : (ChatPayload.communityCreate PROFILE_ID "club").toVec.length = 67 := by
    decide
  have hmem : saying n ∈ talkPayloads := by
    simp only [talkPayloads, List.mem_cons, List.mem_map, List.mem_range]
    exact Or.inr ⟨n, hn, rfl⟩
  refine reader_readsBack hmem fun other hother hlength => ?_
  rcases List.mem_cons.mp hother with rfl | hother
  · rw [hgenesis, saying_length] at hlength
    split_ifs at hlength <;> omega
  · obtain ⟨m, hm, rfl⟩ := List.mem_map.mp hother
    rw [saying_injective (List.mem_range.mp hm) hn hlength]

theorem genesis_read : talkReader (ChatPayload.communityCreate PROFILE_ID "club").toVec =
    some (.communityCreate PROFILE_ID "club") := by
  simp [talkReader, reader, talkPayloads]

def talkNumber (n : ℕ) : ℕ :=
  if n = 0 then 251 else if n = 1 then 358 else if n = 256 then 353 else 363 + n

theorem talkNumber_injective {m n : ℕ} (hm : m ≤ 256) (hn : n ≤ 256)
    (h : talkNumber m = talkNumber n) : m = n := by
  unfold talkNumber at h
  split_ifs at h <;> omega

theorem talk_content (n : ℕ) : (talk (n + 1)).content =
    { protocolVersion := PROTOCOL_VERSION
      communityId := some club
      parents := [(talk n).eventId]
      timestampMs := 0
      eventType := (saying n).eventType
      payload := (saying n).toVec } := by
  rw [talk, tell, createChatEvent, createSigned, List.map_singleton,
    sortedParents_eq (List.pairwise_singleton _ _)]

theorem talk_eventId (n : ℕ) : (talk n).eventId = idOf (talkNumber n) := by
  cases n with
  | zero =>
    have h : genesis.eventId = idOf 251 := createSigned_eventId (by simp) (identity 1)
    exact h
  | succ n =>
    rw [talk, tell, createChatEvent, createSigned_eventId (by simp)]
    simp only [Option.isSome_some, if_true, List.map_singleton, List.length_singleton,
      saying_length, saying_type_length, talkNumber]
    refine congrArg idOf ?_
    by_cases hzero : n = 0
    · subst hzero
      rfl
    · by_cases hlast : n = 255
      · subst hlast
        rfl
      · simp only [hzero, hlast, if_false, Nat.add_one_ne_zero]
        rw [if_neg (by omega), if_neg (by omega)]
        omega

theorem talk_injective {m n : ℕ} (hm : m ≤ 256) (hn : n ≤ 256)
    (h : (talk m).eventId = (talk n).eventId) : m = n := by
  rw [talk_eventId, talk_eventId] at h
  have hsmall : ∀ k ≤ 256, talkNumber k < 2 ^ 256 := by
    intro k hk
    have : talkNumber k < 1000 := by
      unfold talkNumber
      split_ifs <;> omega
    exact this.trans (by norm_num)
  exact talkNumber_injective hm hn (idOf_injective (hsmall m hm) (hsmall n hn) h)

theorem talk_valid {n : ℕ} (hn : n ≤ 256) : (talk n).Valid crypto := by
  cases n with
  | zero => exact club_valid genesis (by simp [clubEvents])
  | succ n =>
    have hpayload : (saying n).toVec.length ≤ MAX_PAYLOAD_BYTES := by
      rw [saying_length, MAX_PAYLOAD_BYTES]
      split_ifs <;> omega
    have htype : (saying n).eventType.isEmpty = false := by
      have hmessage : "chat.message.create".isEmpty = false := by decide
      unfold saying
      split_ifs
      · decide
      · decide
      · exact hmessage
    have hwidth : (saying n).eventType.utf8ByteSize ≤ MAX_EVENT_TYPE_BYTES := by
      rw [saying_type_length, MAX_EVENT_TYPE_BYTES]
      split_ifs <;> omega
    have hcontent : (talk (n + 1)).content.WellFormed := by
      rw [talk_content]
      exact ⟨rfl, htype, hwidth, hpayload, by simp [MAX_PARENTS], by simp, by simp⟩
    exact (createSigned_valid_iff crypto_signsCorrectly _ _).mpr hcontent

theorem talk_belongs (n : ℕ) : (talk n).belongsTo club := by
  cases n with
  | zero =>
    have hnone : genesis.content.communityId = none := rfl
    have h : genesis.belongsTo club := by
      simp only [SignedEvent.belongsTo, hnone, club, decide_true]
    exact h
  | succ n =>
    rw [SignedEvent.belongsTo, talk_content]
    simp

theorem mem_talkEvents {n : ℕ} {event : SignedEvent} :
    event ∈ talkEvents n ↔ ∃ k < n, talk k = event := by
  simp [talkEvents]

theorem talk_listed {n : ℕ} (hn : n ≤ 257) : Listed crypto club (talkEvents n) := by
  induction n with
  | zero => exact .nil
  | succ n ih =>
    rw [talkEvents, List.range_succ, List.map_append, List.map_singleton]
    refine .snoc (ih (by omega)) ⟨talk_valid (by omega), talk_belongs n, fun parent hp => ?_,
      fun earlier he => ?_⟩
    · cases n with
      | zero =>
        have h : genesis.content.parents = [] := rfl
        rw [talk, h] at hp
        cases hp
      | succ n =>
        rw [talk_content, List.mem_singleton] at hp
        exact ⟨talk n, mem_talkEvents.mpr ⟨n, by omega, rfl⟩, hp.symm⟩
    · obtain ⟨k, hk, rfl⟩ := mem_talkEvents.mp he
      intro heq
      have := talk_injective (by omega) (by omega) heq
      omega

end ChatCommons.Sample
