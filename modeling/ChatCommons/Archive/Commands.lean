import ChatCommons.Archive.Absorbing
import ChatCommons.Archive.RoundTrip
import ChatCommons.Chat.Communal

/-!
The archive commands on databases that can come about.
-/

namespace ChatCommons

open Collections

variable {C : Crypto} {J : PayloadReader} {R : ArchiveReader} {community : CommunityId}
  {node core core' : CoreNode} {events : List SignedEvent} {event genesis : SignedEvent}
  {files : Files} {input : String} {validated : ValidatedArchive}

section Communal

theorem Archived.communal (h : Archived C community events) : Communal C community events where
  valid := h.valid
  unambiguous _ ha _ hb hab := h.inj ha hb hab
  belongs := h.belongs

theorem CoreNode.Whole.communal (h : node.Whole C) (hcommunity : node.community = some community)
    (hevents : ∀ event, event ∈ events ↔ node.Has event) : Communal C community events where
  valid event hevent := h.rowValid ((hevents event).mp hevent).2
  unambiguous a ha b hb hab := by
    have hrow := ((hevents a).mp ha).2
    rw [hab, ((hevents b).mp hb).2] at hrow
    exact (Option.some.inj hrow).symm
  belongs event hevent := h.belongs hcommunity ((hevents event).mp hevent)

theorem requireCommunity_ok (h : Communal C community events) (hgenesis : genesis ∈ events)
    (hnone : genesis.content.communityId = none) :
    requireCommunity C J events community = .ok () ↔ Founds J genesis := by
  obtain ⟨resolution, hresolve, hiff⟩ := resolve_community_iff h hgenesis hnone J
  rw [← hiff, requireCommunity, resolveCli, hresolve]
  by_cases hcommunity : resolution.snapshot.community = some community <;>
    simp [liftCli, bind, Except.bind, hcommunity]

end Communal

section Opening

theorem whole_isEmpty (h : node.Whole C) : node.store.isEmpty = true ↔ node.community = none := by
  rw [EventStore.isEmpty, map_isEmpty_iff]
  constructor
  · intro hempty
    cases hc : node.community with
    | none => rfl
    | some c =>
      obtain ⟨id, hid, _⟩ := h.begun hc
      exact absurd (h.known_iff.mp hid) (hempty id)
  · intro hnone id hid
    exact h.known_empty_of_community hnone id (h.rowKnown hid)

theorem openForImport_ok (h : node.Whole C) : openForImport C node.store community = .ok core ↔
    core = node ∧ (node.community = none ∨ node.community = some community) := by
  rw [openForImport]
  by_cases hnone : node.community = none
  · have hknown : node.known = ∅ := by
      apply set_ext
      intro id
      exact iff_of_false (h.known_empty_of_community hnone id) not_mem_empty
    rw [if_pos ((whole_isEmpty h).mpr hnone), liftOpened_eq_ok, CoreNode.open, Except.ok.injEq]
    constructor
    · rintro rfl
      refine ⟨?_, Or.inl hnone⟩
      rw [← hnone, ← hknown]
    · rintro ⟨rfl, _⟩
      rw [← hnone, ← hknown]
  · rw [if_neg fun hempty => hnone ((whole_isEmpty h).mp hempty)]
    constructor
    · intro hopen
      have hcore := h.opens (open_of_openCommunity hopen)
      refine ⟨hcore, Or.inr ?_⟩
      have hnamed := opened_community (open_of_openCommunity hopen)
      rwa [hcore] at hnamed
    · rintro ⟨rfl, hcommunity⟩
      exact openCommunity_of_whole h (hcommunity.resolve_left hnone)

end Opening

section Importing

theorem readArchiveFile_ok {bytes : ByteString} : readArchiveFile files input = .ok bytes ↔
    files[input]? = some bytes ∧ bytes.length ≤ MAX_ARCHIVE_BYTES := by
  rw [readArchiveFile]
  cases files[input]? with
  | none => simp
  | some contents =>
    dsimp only
    by_cases hlarge : contents.length ≤ MAX_ARCHIVE_BYTES
    · have htake : contents.take (MAX_ARCHIVE_BYTES + 1) = contents := by
        apply List.take_of_length_le
        omega
      rw [htake, if_neg (by omega), Except.ok.injEq, Option.some.injEq]
      constructor
      · rintro rfl
        exact ⟨rfl, hlarge⟩
      · rintro ⟨h, _⟩
        exact h
    · have hlength : (contents.take (MAX_ARCHIVE_BYTES + 1)).length = MAX_ARCHIVE_BYTES + 1 := by
        rw [List.length_take]
        omega
      rw [if_pos (by omega)]
      refine iff_of_false (by simp [liftArchive]) ?_
      rintro ⟨hcontents, hlength⟩
      rw [Option.some.inj hcontents] at hlarge
      exact hlarge hlength

/-- The file holds a checked archive of a community that the database can take. -/
structure Importable (C : Crypto) (J : PayloadReader) (R : ArchiveReader) (node : CoreNode)
    (files : Files) (input : String) (wire : ArchiveWire) : Prop where
  read : ∃ bytes, files[input]? = some bytes ∧ bytes.length ≤ MAX_ARCHIVE_BYTES ∧
    R bytes = some wire
  version : wire.version = ARCHIVE_VERSION
  archived : Archived C wire.communityId wire.events
  founds : ∃ genesis ∈ wire.events, genesis.content.communityId = none ∧ Founds J genesis
  named : node.community = none ∨ node.community = some wire.communityId

theorem readForImport_ok (h : node.Whole C) :
    readForImport C J R node.store files input = .ok (validated, core) ↔
      ∃ wire, Importable C J R node files input wire ∧
        validated = ⟨wire.communityId, wire.events⟩ ∧ core = node := by
  constructor
  · intro hread
    simp only [readForImport, bind, Except.bind] at hread
    cases hbytes : readArchiveFile files input with
    | error error =>
      rw [hbytes] at hread
      cases hread
    | ok bytes =>
      obtain ⟨hfile, hlength⟩ := readArchiveFile_ok.mp hbytes
      rw [hbytes] at hread
      simp only [parseArchive, if_neg (not_lt.mpr hlength)] at hread
      cases hwire : R bytes with
      | none =>
        rw [hwire] at hread
        cases hread
      | some wire =>
        rw [hwire] at hread
        simp only [liftArchive, ParsedArchive.validate] at hread
        cases hvalid : validateWire C wire with
        | error error =>
          rw [hvalid] at hread
          cases hread
        | ok archive =>
          obtain ⟨hversion, harchive, rfl⟩ := validateWire_iff.mp hvalid
          obtain ⟨genesis, hgenesis, hnone, _⟩ := harchive.genesis
          rw [hvalid] at hread
          dsimp only at hread
          cases hrequire : requireCommunity C J wire.events wire.communityId with
          | error error =>
            rw [hrequire] at hread
            cases hread
          | ok u =>
            rw [hrequire] at hread
            dsimp only at hread
            cases hopen : openForImport C node.store wire.communityId with
            | error error =>
              rw [hopen] at hread
              cases hread
            | ok opened =>
              rw [hopen] at hread
              obtain ⟨rfl, rfl⟩ := Prod.mk.inj (Except.ok.inj hread)
              obtain ⟨hsame, hnamed⟩ := (openForImport_ok h).mp hopen
              refine ⟨wire, ⟨⟨bytes, hfile, hlength, hwire⟩, hversion, harchive,
                ⟨genesis, hgenesis, hnone, ?_⟩, hnamed⟩, rfl, hsame⟩
              exact (requireCommunity_ok harchive.communal hgenesis hnone).mp hrequire
  · rintro ⟨wire, himportable, rfl, rfl⟩
    obtain ⟨bytes, hfile, hlength, hwire⟩ := himportable.read
    obtain ⟨genesis, hgenesis, hnone, hfounds⟩ := himportable.founds
    have hvalid := validateWire_iff.mpr ⟨himportable.version, himportable.archived, rfl⟩
    have hrequire :=
      (requireCommunity_ok himportable.archived.communal hgenesis hnone).mpr hfounds
    have hopen := (openForImport_ok h).mpr ⟨rfl, himportable.named⟩
    simp only [readForImport, bind, Except.bind, readArchiveFile_ok.mpr ⟨hfile, hlength⟩,
      parseArchive, if_neg (not_lt.mpr hlength), hwire, liftArchive, ParsedArchive.validate, hvalid,
      hrequire, hopen, pure, Except.pure]

end Importing

section Outcome

theorem CoreNode.Whole.store_ext (h : core.Whole C) (h' : core'.Whole C)
    (hhas : ∀ event, core.Has event ↔ core'.Has event) : core.store = core'.store := by
  have hrows : ∀ {a b : CoreNode}, a.Whole C → (∀ event, a.Has event → b.Has event) →
      ∀ (id : EventId) (event : SignedEvent), a.store.rows[id]? = some event →
        b.store.rows[id]? = some event := by
    intro a b ha hab id event hrow
    obtain rfl := ha.rowId hrow
    exact (hab event ⟨ha.rowKnown (mem_of_getElem? hrow), hrow⟩).2
  have hsame : core.store.rows = core'.store.rows := by
    apply map_ext
    intro id
    apply Option.ext
    intro event
    exact ⟨hrows h (fun e => (hhas e).mp) id event, hrows h' (fun e => (hhas e).mpr) id event⟩
  exact congrArg EventStore.mk hsame

theorem CoreNode.Whole.ext_has (h : core.Whole C) (h' : core'.Whole C)
    (hcommunity : core.community = core'.community)
    (hhas : ∀ event, core.Has event ↔ core'.Has event) : core = core' := by
  have hstore := h.store_ext h' hhas
  have hknown : core.known = core'.known := by
    apply set_ext
    intro id
    rw [h.known_iff, h'.known_iff, hstore]
  obtain ⟨store, named, known⟩ := core
  obtain ⟨store', named', known'⟩ := core'
  cases hcommunity
  cases hstore
  cases hknown
  rfl

theorem Lives.ingestAll (h : CoreNode.Lives C node) (batches : List (List SignedEvent)) :
    CoreNode.Lives C (node.ingestAll C batches) := by
  induction batches generalizing node with
  | nil => exact h
  | cons batch batches ih =>
    have hnext := CoreNode.Lives.ingest h (fun _ => false) batch
    rw [ingestUnless_never] at hnext
    exact ih hnext

theorem CoreNode.Absorbed.known_size (hwhole : core.Whole C) (harchive : Archived C community events)
    (h : core.Absorbed C community events core') :
    core'.known.size = core.known.size + events.countP fun event => event.eventId ∉ core.known := by
  have hnew : ((events.filter fun event => event.eventId ∉ core.known).map
      SignedEvent.eventId).Nodup := harchive.nodup.sublist (List.filter_sublist.map _)
  have hapart : ∀ a ∈ core.known.toList, ∀ b ∈ (events.filter fun event =>
      event.eventId ∉ core.known).map SignedEvent.eventId, a ≠ b := by
    rintro a ha b hb rfl
    obtain ⟨event, hevent, rfl⟩ := List.mem_map.mp hb
    exact of_decide_eq_true (List.mem_filter.mp hevent).2 (Std.ExtTreeSet.mem_toList.mp ha)
  have hperm : core'.known.toList.Perm (core.known.toList ++ (events.filter fun event =>
      event.eventId ∉ core.known).map SignedEvent.eventId) := by
    apply (List.perm_ext_iff_of_nodup (toList_nodup _)
      (List.nodup_append.mpr ⟨toList_nodup _, hnew, hapart⟩)).mpr
    intro id
    simp only [List.mem_append, Std.ExtTreeSet.mem_toList, List.mem_map, List.mem_filter,
      decide_eq_true_eq]
    constructor
    · intro hid
      obtain ⟨event, rfl, hevent⟩ := h.whole.has_of_known hid
      by_cases hold : event.eventId ∈ core.known
      · exact Or.inl hold
      · have hmem := ((h.has event).mp hevent).resolve_left fun hhas => hold hhas.1
        exact Or.inr ⟨event, ⟨hmem, hold⟩, rfl⟩
    · rintro (hold | ⟨event, ⟨hmem, _⟩, rfl⟩)
      · obtain ⟨event, rfl, hevent⟩ := hwhole.has_of_known hold
        exact ((h.has event).mpr (Or.inl hevent)).1
      · exact ((h.has event).mpr (Or.inr hmem)).1
  rw [← Std.ExtTreeSet.length_toList, hperm.length_eq, List.length_append,
    Std.ExtTreeSet.length_toList, List.length_map, List.countP_eq_length_filter]

/-- What the file holds has no id in common with a row that is not the same. -/
def ApartFrom (R : ArchiveReader) (store : EventStore) (files : Files) (input : String) : Prop :=
  ∀ bytes wire, files[input]? = some bytes → R bytes = some wire →
    ∀ event ∈ wire.events, NoCollision store event

variable {wire : ArchiveWire}

theorem Importable.apart (himportable : Importable C J R node files input wire)
    (hapart : ApartFrom R node.store files input) :
    ∀ event ∈ wire.events, NoCollision node.store event := by
  obtain ⟨bytes, hfile, _, hwire⟩ := himportable.read
  exact hapart bytes wire hfile hwire

theorem import_absorbed (hwhole : node.Whole C) (himportable : Importable C J R node files input wire)
    (habsorbed : node.Absorbed C wire.communityId wire.events core') {counts : ℕ × ℕ}
    (hingest : node.ingestArchive C wire.events = (core', .ok counts)) :
    commandImportCommunity C J R node.store files input =
      (core'.store, .ok ⟨wire.communityId, counts.1, counts.2⟩) := by
  have hread := (readForImport_ok hwhole).mpr ⟨wire, himportable, rfl, rfl⟩
  obtain ⟨genesis, hgenesis, hnone, hfounds⟩ := himportable.founds
  obtain ⟨stored, hstored, _, hmem⟩ := habsorbed.whole.allEvents_spec
  have hrequire : requireCommunity C J stored wire.communityId = .ok () := by
    apply (requireCommunity_ok (habsorbed.whole.communal habsorbed.named hmem) _ hnone).mpr hfounds
    exact (hmem genesis).mpr ((habsorbed.has genesis).mpr (Or.inr hgenesis))
  simp only [commandImportCommunity, hread, hingest, CoreNode.allEventsCli, hstored, liftCli, bind,
    Except.bind, hrequire]

theorem import_cases (hwhole : node.Whole C) (hapart : ApartFrom R node.store files input) :
    (∃ error, commandImportCommunity C J R node.store files input = (node.store, .error error)) ∨
    ∃ wire batches, Importable C J R node files input wire ∧
      commandImportCommunity C J R node.store files input =
        ((node.ingestAll C batches).store, .ok ⟨wire.communityId,
          wire.events.countP fun event => event.eventId ∉ node.known,
          wire.events.countP fun event => event.eventId ∈ node.known⟩) ∧
      node.Absorbed C wire.communityId wire.events (node.ingestAll C batches) := by
  cases hread : readForImport C J R node.store files input with
  | error error => exact Or.inl ⟨error, by rw [commandImportCommunity, hread]⟩
  | ok opened =>
    obtain ⟨validated, core⟩ := opened
    obtain ⟨wire, himportable, rfl, rfl⟩ := (readForImport_ok hwhole).mp hread
    rcases ingestArchive_cases himportable.archived hwhole himportable.named
      (himportable.apart hapart) with hfailed | ⟨batches, hingest, habsorbed⟩
    · left
      exact ⟨_, by simp only [commandImportCommunity, hread, hfailed]; rfl⟩
    · right
      exact ⟨wire, batches, himportable, import_absorbed hwhole himportable habsorbed hingest,
        habsorbed⟩

/-- What has been taken in is not taken in again. -/
theorem import_again (himportable : Importable C J R node files input wire)
    (habsorbed : node.Absorbed C wire.communityId wire.events core') :
    commandImportCommunity C J R core'.store files input =
      (core'.store, .ok ⟨wire.communityId, 0, wire.events.length⟩) := by
  have harchive := himportable.archived
  have hhas : ∀ event ∈ wire.events, core'.Has event := fun event hevent =>
    (habsorbed.has event).mpr (Or.inr hevent)
  have himportable' : Importable C J R core' files input wire :=
    { himportable with named := Or.inr habsorbed.named }
  have hcollision : ∀ event ∈ wire.events, NoCollision core'.store event := by
    intro event hevent other hrow
    exact Option.some.inj (hrow.symm.trans (hhas event hevent).2)
  have hground : ∀ x, Dag.Grounded (pendingParents (core'.archivePending wire.events)) x := by
    intro x
    apply Dag.grounded_of_parents
    intro p hp
    cases hrow : (core'.archivePending wire.events)[x]? with
    | none => simp [pendingParents, hrow] at hp
    | some event =>
      obtain ⟨hmem, rfl, hnew⟩ := (archivePending_iff harchive).mp hrow
      exact absurd (hhas event hmem).1 hnew
  obtain ⟨batches, hingest, hagain⟩ := ingestArchive_grounded harchive habsorbed.whole
    (Or.inr habsorbed.named) hcollision hground
  have hnothing : wire.events.countP (fun event => event.eventId ∉ core'.known) = 0 := by
    apply List.countP_eq_zero.mpr
    intro event hevent hnew
    exact of_decide_eq_true hnew (hhas event hevent).1
  have hall : wire.events.countP (fun event => event.eventId ∈ core'.known) = wire.events.length := by
    apply List.countP_eq_length.mpr
    exact fun event hevent => decide_eq_true (hhas event hevent).1
  rw [hnothing, hall] at hingest
  have hsame : core'.ingestAll C batches = core' := by
    apply hagain.whole.ext_has habsorbed.whole (hagain.named.trans habsorbed.named.symm)
    intro event
    rw [hagain.has, or_iff_left_of_imp (hhas event)]
  rw [import_absorbed habsorbed.whole himportable' hagain hingest, hsame]

/-- Whatever the file holds, an import either fails and writes nothing, or takes in all of the
archive and nothing else; then the database opens again, and a second import finds everything
present. It does not fail on a checked archive without cycles that the database can take. -/
theorem import_all_or_nothing (h : CoreNode.Lives C node)
    (hapart : ApartFrom R node.store files input) :
    ((∃ error, commandImportCommunity C J R node.store files input = (node.store, .error error)) ∨
      ∃ wire report core', Importable C J R node files input wire ∧
        commandImportCommunity C J R node.store files input = (core'.store, .ok report) ∧
        report.community = wire.communityId ∧ CoreNode.Lives C core' ∧
        openCommunity C core'.store report.community = .ok core' ∧
        (∀ event, core'.Has event ↔ node.Has event ∨ event ∈ wire.events) ∧
        report.inserted + report.alreadyPresent = wire.events.length ∧
        core'.known.size = node.known.size + report.inserted ∧
        commandImportCommunity C J R core'.store files input =
          (core'.store, .ok ⟨report.community, 0, wire.events.length⟩)) ∧
    ∀ wire, Importable C J R node files input wire →
      (∀ id, ¬ Relation.TransGen (ParentAmong wire.events) id id) →
      ∃ store' report, commandImportCommunity C J R node.store files input =
        (store', .ok report) := by
  have hwhole := h.whole
  constructor
  · rcases import_cases (J := J) hwhole hapart with herror | ⟨wire, batches, himportable, himport,
      habsorbed⟩
    · exact Or.inl herror
    · refine Or.inr ⟨wire, _, node.ingestAll C batches, himportable, himport, rfl,
        Lives.ingestAll h batches, openCommunity_of_whole habsorbed.whole habsorbed.named,
        habsorbed.has, ?_, habsorbed.known_size hwhole himportable.archived,
        import_again himportable habsorbed⟩
      rw [Nat.add_comm, List.length_eq_countP_add_countP fun event : SignedEvent =>
        decide (event.eventId ∈ node.known)]
      simp only [decide_not, Bool.decide_eq_true]
  · intro wire himportable hacyclic
    have hmissing : Missing C node wire.communityId (node.archivePending wire.events) :=
      missing himportable.archived hacyclic
    obtain ⟨batches, hingest, habsorbed⟩ := ingestArchive_grounded himportable.archived hwhole
      himportable.named (himportable.apart hapart) hmissing.grounded
    exact ⟨_, _, import_absorbed hwhole himportable habsorbed hingest⟩

section Example

open Sample

def pairWire : ArchiveWire := archiveOf club [Sample.genesis, invitation]

def shelf : Files := (∅ : Files).insert "club" pairWire.toJson

theorem shelf_apart : ApartFrom begunReader blank.store shelf "club" := by
  intro _ _ _ _ event _ other hrow
  simp [blank] at hrow

theorem shelf_importable : Importable crypto clubReader begunReader blank shelf "club" pairWire := by
  obtain ⟨hversion, harchived, _⟩ := validateWire_iff.mp pairArchive_checked
  refine ⟨⟨pairWire.toJson, ?_, begun_small, if_pos rfl⟩, hversion, harchived, ?_, Or.inl rfl⟩
  · rw [shelf, getElem?_insert, if_pos rfl]
  · exact ⟨Sample.genesis, by simp [pairWire, archiveOf], rfl, _, _, rfl⟩

theorem import_all_or_nothing_shelf :
    ∃ report core', commandImportCommunity crypto clubReader begunReader {} shelf "club" =
        (core'.store, .ok report) ∧
      openCommunity crypto core'.store report.community = .ok core' := by
  have hblank : CoreNode.Lives crypto blank := .start rfl
  obtain ⟨houtcome, hsucceeds⟩ := import_all_or_nothing hblank shelf_apart (J := clubReader)
  obtain ⟨store', report, himport⟩ := hsucceeds pairWire shelf_importable pairArchive_acyclic
  rcases houtcome with ⟨error, herror⟩ | ⟨_, report', core', _, himport', _, _, hopen, _⟩
  · cases himport.symm.trans herror
  · exact ⟨report', core', himport', hopen⟩

end Example

end Outcome

end ChatCommons
