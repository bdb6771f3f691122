import ChatCommons.Core.EventValidity
import ChatCommons.Model.Resolver
import ChatCommons.Sample.Club

namespace ChatCommons

open Collections

variable {C : Crypto} {J : PayloadReader} {events others : List SignedEvent}

/-- The maps hold what the events say, whatever their order and number. -/
structure Describes (C : Crypto) (J : PayloadReader) (events : List SignedEvent) (k : Candidates) :
    Prop where
  byId : ∀ {id : EventId} {event : SignedEvent}, k.byId[id]? = some event ↔
    event ∈ events ∧ event.eventId = id
  authors : ∀ {id : EventId} {author : UserId}, k.authors[id]? = some author ↔
    ∃ event ∈ events, event.eventId = id ∧ authorId C event = .ok author
  payloads : ∀ {id : EventId} {payload : ChatPayload}, k.payloads[id]? = some payload ↔
    ∃ event ∈ events, event.eventId = id ∧ decode J event = .ok payload
  rejected : ∀ {id : EventId} {reason : RejectionReason}, k.rejected[id]? = some reason ↔
    reason = .invalidPayload ∧ ∃ event ∈ events, event.eventId = id ∧
      ∃ error, decode J event = .error error

def Unambiguous (events : List SignedEvent) : Prop :=
  Set.InjOn SignedEvent.eventId {event | event ∈ events}

theorem Describes.nil : Describes C J [] {} := by
  constructor <;> simp

theorem getElem?_insert_iff {β : Type} {m : BTreeMap EventId β} {done : List SignedEvent}
    {event : SignedEvent} {value : β} {P : SignedEvent → β → Prop}
    (hinj : Unambiguous (done ++ [event])) (hP : ∀ v, P event v ↔ v = value)
    (hm : ∀ id v, m[id]? = some v ↔ ∃ e ∈ done, e.eventId = id ∧ P e v) (id : EventId) (v : β) :
    (m.insert event.eventId value)[id]? = some v ↔
      ∃ e ∈ done ++ [event], e.eventId = id ∧ P e v := by
  rw [getElem?_insert]
  split_ifs with hid
  · constructor
    · rintro h
      exact ⟨event, by simp, hid, (hP v).mpr (Option.some.inj h).symm⟩
    · rintro ⟨e, he, heid, hv⟩
      have : e = event := hinj he (by simp) (heid.trans hid.symm)
      rw [(hP v).mp (this ▸ hv)]
  · rw [hm]
    constructor
    · rintro ⟨e, he, h⟩
      exact ⟨e, List.mem_append_left _ he, h⟩
    · rintro ⟨e, he, heid, hv⟩
      rcases List.mem_append.mp he with he | he
      · exact ⟨e, he, heid, hv⟩
      · rw [List.mem_singleton.mp he] at heid
        exact absurd heid hid

theorem getElem?_skip_iff {β : Type} {m : BTreeMap EventId β} {done : List SignedEvent}
    (event : SignedEvent) {P : SignedEvent → β → Prop} (hP : ∀ v, ¬ P event v)
    (hm : ∀ id v, m[id]? = some v ↔ ∃ e ∈ done, e.eventId = id ∧ P e v) (id : EventId) (v : β) :
    m[id]? = some v ↔ ∃ e ∈ done ++ [event], e.eventId = id ∧ P e v := by
  rw [hm]
  constructor
  · rintro ⟨e, he, h⟩
    exact ⟨e, List.mem_append_left _ he, h⟩
  · rintro ⟨e, he, heid, hv⟩
    rcases List.mem_append.mp he with he | he
    · exact ⟨e, he, heid, hv⟩
    · rw [List.mem_singleton.mp he] at hv
      exact absurd hv (hP v)

theorem collect_spec {done : List SignedEvent} {event : SignedEvent} {k : Candidates}
    (hvalid : event.Valid C) (hinj : Unambiguous (done ++ [event])) (hk : Describes C J done k) :
    ∃ k', collect C J k event = .ok k' ∧ Describes C J (done ++ [event]) k' := by
  obtain ⟨author, hauthor⟩ := hvalid.authorId_eq
  have hauthors := getElem?_insert_iff (P := fun e v => authorId C e = .ok v) hinj
    (fun v => by rw [hauthor]; exact ⟨fun h => (Except.ok.inj h).symm, fun h => h ▸ rfl⟩)
    fun _ _ => hk.authors
  have hbyId : ∀ (id : EventId) (e : SignedEvent),
      (k.byId.insertIfNew event.eventId event)[id]? = some e ↔
        e ∈ done ++ [event] ∧ e.eventId = id := by
    intro id e
    rw [getElem?_insertIfNew]
    split_ifs with h
    · constructor
      · rintro he
        rw [← Option.some.inj he]
        exact ⟨by simp, h.1⟩
      · rintro ⟨he, heid⟩
        rw [hinj he (by simp : event ∈ done ++ [event]) (heid.trans h.1.symm)]
    · rw [hk.byId, List.mem_append, List.mem_singleton]
      refine ⟨fun ⟨he, heid⟩ => ⟨Or.inl he, heid⟩, ?_⟩
      rintro ⟨he | rfl, heid⟩
      · exact ⟨he, heid⟩
      · have hmem : e.eventId ∈ k.byId := by
          by_contra hnot
          exact h ⟨heid, hnot⟩
        obtain ⟨other, hother⟩ := mem_iff.mp hmem
        obtain ⟨hod, hoid⟩ := hk.byId.mp hother
        have : other = e := hinj (by simp [hod]) (by simp) hoid
        exact ⟨this ▸ hod, heid⟩
  have hnew : ∀ {error : ChatError}, decode J event = .error error → ∀ v : RejectionReason,
      (v = .invalidPayload ∧ ∃ error, decode J event = .error error) ↔ v = .invalidPayload :=
    fun herr v => ⟨And.left, fun h => ⟨h, _, herr⟩⟩
  have hrejected : ∀ (id : EventId) (v : RejectionReason), k.rejected[id]? = some v ↔
      ∃ e ∈ done, e.eventId = id ∧ (v = .invalidPayload ∧ ∃ error, decode J e = .error error) := by
    intro id v
    rw [hk.rejected]
    tauto
  have hreject : ∀ {l : List SignedEvent} {id : EventId} {v : RejectionReason},
      (∃ e ∈ l, e.eventId = id ∧ (v = .invalidPayload ∧ ∃ error, decode J e = .error error)) ↔
        v = .invalidPayload ∧ ∃ e ∈ l, e.eventId = id ∧ ∃ error, decode J e = .error error := by
    intro l id v
    tauto
  cases hdecode : decode J event with
  | ok payload =>
    have hstep : collect C J k event = .ok
        { byId := k.byId.insertIfNew event.eventId event
          payloads := k.payloads.insert event.eventId payload
          authors := k.authors.insert event.eventId author
          rejected := k.rejected } := by
      simp only [collect, validateEvent_iff.mpr hvalid, hauthor, hdecode]
    refine ⟨_, hstep, fun {id e} => hbyId id e, fun {id v} => hauthors id v, fun {id v} => ?_,
      fun {id v} => ?_⟩
    · exact getElem?_insert_iff (P := fun e v => decode J e = .ok v) hinj
        (fun v => by rw [hdecode]; exact ⟨fun h => (Except.ok.inj h).symm, fun h => h ▸ rfl⟩)
        (fun _ _ => hk.payloads) id v
    · exact (getElem?_skip_iff event
        (fun v hv => by rw [hdecode] at hv; simp at hv) hrejected id v).trans hreject
  | error error =>
    have hstep : collect C J k event = .ok
        { byId := k.byId.insertIfNew event.eventId event
          payloads := k.payloads
          authors := k.authors.insert event.eventId author
          rejected := k.rejected.insert event.eventId .invalidPayload } := by
      simp only [collect, validateEvent_iff.mpr hvalid, hauthor, hdecode]
    refine ⟨_, hstep, fun {id e} => hbyId id e, fun {id v} => hauthors id v, fun {id v} => ?_,
      fun {id v} => ?_⟩
    · exact getElem?_skip_iff event (P := fun e v => decode J e = .ok v)
        (fun v hv => by rw [hdecode] at hv; cases hv) (fun _ _ => hk.payloads) id v
    · exact (getElem?_insert_iff hinj (hnew hdecode) hrejected id v).trans hreject

theorem candidates_spec (hvalid : ∀ event ∈ events, event.Valid C) (hinj : Unambiguous events) :
    ∃ k, events.foldlM (collect C J) {} = .ok k ∧ Describes C J events k :=
  Fallible.foldlM_ok (Describes C J) .nil fun done event rest k hsplit hk =>
    collect_spec (hvalid event (by rw [hsplit]; simp))
      (hinj.mono fun e he => by
        rw [hsplit]
        simp only [Set.mem_ofPred_eq, List.mem_append, List.mem_cons] at he ⊢
        tauto) hk

/-- Each id has an author, and a payload unless it is rejected from the start. -/
structure Candidates.Complete (k : Candidates) : Prop where
  authors : ∀ id ∈ k.byId, id ∈ k.authors
  payloads : ∀ id ∈ k.byId, id ∈ k.payloads ∨ id ∈ k.rejected

theorem collect_ok (hvalid : ∀ event ∈ events, event.Valid C) :
    ∃ k, events.foldlM (collect C J) {} = .ok k := by
  have hstep : ∀ done event rest (k : Candidates), events = done ++ event :: rest → True →
      ∃ k', collect C J k event = .ok k' ∧ True := by
    intro done event rest k hsplit _
    have he := hvalid event (by rw [hsplit]; simp)
    obtain ⟨author, hauthor⟩ := he.authorId_eq
    simp only [collect, validateEvent_iff.mpr he, hauthor]
    split
    · exact ⟨_, rfl, trivial⟩
    · exact ⟨_, rfl, trivial⟩
  obtain ⟨k, hk, _⟩ := Fallible.foldlM_ok (fun _ _ => True) trivial hstep
  exact ⟨k, hk⟩

theorem Candidates.Complete.collect {k k' : Candidates} {event : SignedEvent}
    (h : ChatCommons.collect C J k event = .ok k') (hk : k.Complete) : k'.Complete := by
  have hmem : ∀ id, id ∈ k.byId.insertIfNew event.eventId event → id = event.eventId ∨ id ∈ k.byId :=
    fun id hid => by
      by_contra hnot
      push Not at hnot
      rw [mem_iff, getElem?_insertIfNew, if_neg fun hc => hnot.1 hc.1.symm] at hid
      exact hnot.2 (mem_iff.mpr hid)
  unfold ChatCommons.collect at h
  split at h
  · cases h
  · split at h
    · cases h
    · split at h <;> obtain rfl := Except.ok.inj h
      · refine ⟨fun id hid => ?_, fun id hid => ?_⟩
        · exact mem_map_insert.mpr ((hmem id hid).imp_right (hk.authors id))
        · rcases hmem id hid with rfl | hid
          · exact Or.inl (mem_map_insert.mpr (Or.inl rfl))
          · exact (hk.payloads id hid).imp_left fun h => mem_map_insert.mpr (Or.inr h)
      · refine ⟨fun id hid => ?_, fun id hid => ?_⟩
        · exact mem_map_insert.mpr ((hmem id hid).imp_right (hk.authors id))
        · rcases hmem id hid with rfl | hid
          · exact Or.inr (mem_map_insert.mpr (Or.inl rfl))
          · exact (hk.payloads id hid).imp_right fun h => mem_map_insert.mpr (Or.inr h)

theorem complete_of_collect {k : Candidates} (h : events.foldlM (collect C J) {} = .ok k) :
    k.Complete :=
  Fallible.foldlM_preserves Candidates.Complete (fun _ _ _ h hk => hk.collect h) h
    ⟨fun _ hid => absurd hid (by simp), fun _ hid => absurd hid (by simp)⟩

theorem Describes.unique {k k' : Candidates} (hk : Describes C J events k)
    (hk' : Describes C J others k') (hsame : ∀ event, event ∈ events ↔ event ∈ others) : k = k' := by
  obtain ⟨byId, payloads, authors, rejected⟩ := k
  obtain ⟨byId', payloads', authors', rejected'⟩ := k'
  have h1 : byId = byId' := map_ext fun id => Option.ext fun v => by
    rw [hk.byId, hk'.byId, hsame]
  have h2 : payloads = payloads' := map_ext fun id => Option.ext fun v => by
    simp only [hk.payloads, hk'.payloads, hsame]
  have h3 : authors = authors' := map_ext fun id => Option.ext fun v => by
    simp only [hk.authors, hk'.authors, hsame]
  have h4 : rejected = rejected' := map_ext fun id => Option.ext fun v => by
    simp only [hk.rejected, hk'.rejected, hsame]
  rw [h1, h2, h3, h4]

theorem resolve_eq {k : Candidates} (h : events.foldlM (collect C J) {} = .ok k) :
    resolve C J events = .ok (k.resolve C) := by
  rw [resolve, h]
  rfl

/-- The resolution depends on the set of the events only. -/
theorem resolve_convergent (hvalid : ∀ event ∈ events, event.Valid C)
    (hsame : ∀ event, event ∈ events ↔ event ∈ others) (hinj : Unambiguous events) :
    ∃ resolution, resolve C J events = .ok resolution ∧ resolve C J others = .ok resolution := by
  obtain ⟨k, hk, hdescribes⟩ := candidates_spec (J := J) hvalid hinj
  obtain ⟨k', hk', hdescribes'⟩ := candidates_spec (J := J)
    (fun event he => hvalid event ((hsame event).mpr he))
    (hinj.mono fun event he => (hsame event).mpr he)
  refine ⟨k.resolve C, resolve_eq hk, ?_⟩
  rw [resolve_eq hk', hdescribes.unique hdescribes' hsame]

open Sample in
theorem resolve_convergent_club : ∃ resolution,
    resolve crypto clubReader clubEvents = .ok resolution ∧
      resolve crypto clubReader (hall :: clubEvents.reverse) = .ok resolution := by
  have hhall : hall ∈ clubEvents := 
    .tail _ (.tail _ (.tail _ (.tail _ (.head _))))
  refine resolve_convergent club_valid (fun event => ?_) (List.inj_on_of_nodup_map club_ids_nodup)
  rw [List.mem_cons, List.mem_reverse]
  exact ⟨Or.inr, fun h => h.elim (fun heq => heq ▸ hhall) id⟩

end ChatCommons
