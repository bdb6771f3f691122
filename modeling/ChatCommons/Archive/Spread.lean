import ChatCommons.Archive.Commands
import ChatCommons.General.Gossip
import ChatCommons.General.Simulation
import ChatCommons.Network.Formats

/-!
Members who hand one another archives: what each of them holds after any run of exports and
imports.
-/

namespace ChatCommons

open Collections Gossip

variable {C : Crypto} {J : PayloadReader} {R : ArchiveReader} {community : CommunityId}
  {node : CoreNode} {given : List SignedEvent} {event : SignedEvent}

section Encoding

theorem encodeArchive_ok {bytes : ByteString} (h : encodeArchive C community given = .ok bytes) :
    ∃ events, events.Perm given ∧ Archived C community events ∧
      bytes = (archiveOf community events).toJson ∧ bytes.length ≤ MAX_ARCHIVE_BYTES := by
  unfold encodeArchive at h
  cases hwire : validateWire C ⟨ARCHIVE_VERSION, community,
      given.mergeSort fun a b => a.eventId ≤ b.eventId⟩ with
  | error error =>
    simp only [hwire] at h
    cases h
  | ok archive =>
    obtain ⟨_, harchive, rfl⟩ := validateWire_iff.mp hwire
    simp only [hwire] at h
    split_ifs at h with hlength
    refine ⟨_, List.mergeSort_perm _ _, harchive, (Except.ok.inj h).symm, ?_⟩
    rw [← Except.ok.inj h]
    exact not_lt.mp hlength

/-- The parents of stored events make no cycle. -/
theorem CoreNode.Whole.acyclic (h : node.Whole C) {events : List SignedEvent}
    (hevents : ∀ event ∈ events, node.Has event) (id : EventId) :
    ¬ Relation.TransGen (ParentAmong events) id id := by
  have hparent : ∀ {p x}, ParentAmong events p x → x ∈ node.known ∧ Dag.ParentOf node.parents p x := by
    rintro p x ⟨event, hmem, rfl, hp⟩
    obtain ⟨hid, hrow⟩ := hevents event hmem
    refine ⟨hid, ?_⟩
    rw [Dag.ParentOf, CoreNode.parents_eq hrow]
    exact hp
  intro hcycle
  obtain ⟨_, _, hlast⟩ := Relation.TransGen.tail'_iff.mp hcycle
  apply (h.grounded id (hparent hlast).1).not_cyclic
  exact Relation.TransGen.mono (fun _ _ hp => (hparent hp).2) _ _ hcycle

end Encoding

section Exporting

variable {files : Files} {output : String}

theorem export_cases (hwhole : node.Whole C) (community : CommunityId) (files : Files)
    (output : String) :
    (∃ error, commandExportCommunity C node.store community files output = (files, .error error)) ∨
    ∃ events bytes, node.community = some community ∧ output ∉ files ∧
      Archived C community events ∧ (∀ event, event ∈ events ↔ node.Has event) ∧
      bytes = (archiveOf community events).toJson ∧ bytes.length ≤ MAX_ARCHIVE_BYTES ∧
      commandExportCommunity C node.store community files output =
        (files.insert output bytes, .ok ⟨community, node.known.size, bytes.length⟩) := by
  obtain ⟨stored, hstored, _, hmem⟩ := hwhole.allEvents_spec
  cases hopen : openCommunity C node.store community with
  | error error =>
    left
    exact ⟨error, by simp only [commandExportCommunity, hopen, bind, Except.bind]⟩
  | ok core =>
    have hopened := open_of_openCommunity hopen
    obtain rfl := hwhole.opens hopened
    have hlisted : core.allEventsCli C = .ok stored := by rw [CoreNode.allEventsCli, hstored]
    cases hencode : encodeArchive C community stored with
    | error error =>
      refine Or.inl ⟨.cli (.archive error), ?_⟩
      simp only [commandExportCommunity, hopen, hlisted, hencode, liftCli, liftArchive, bind,
        Except.bind]
    | ok bytes =>
      by_cases hoccupied : output ∈ files
      · refine Or.inl ⟨.file .alreadyExists, ?_⟩
        simp only [commandExportCommunity, hopen, hlisted, hencode, createPrivateOutput,
          if_pos hoccupied, liftCli, liftArchive, bind, Except.bind]
      · right
        obtain ⟨events, hperm, harchive, hbytes, hlength⟩ := encodeArchive_ok hencode
        refine ⟨events, bytes, opened_community hopened, hoccupied, harchive,
          fun event => (hperm.mem_iff).trans (hmem event), hbytes, hlength, ?_⟩
        simp only [commandExportCommunity, hopen, hlisted, hencode, createPrivateOutput,
          if_neg hoccupied, liftCli, liftArchive, bind, Except.bind, pure, Except.pure]

/-- An export fails only for want of a community, for a file in the way, or for size. -/
theorem export_succeeds (hwhole : node.Whole C) (hcommunity : node.community = some community)
    (hfree : output ∉ files) (hsize : node.known.size ≤ MAX_ARCHIVE_EVENTS) :
    ∃ events, node.allEvents C = .ok events ∧
      ((archiveOf community events).toJson.length ≤ MAX_ARCHIVE_BYTES →
        ∃ files' report, commandExportCommunity C node.store community files output =
          (files', .ok report)) := by
  obtain ⟨events, hevents, hids, hmem⟩ := hwhole.allEvents_spec
  refine ⟨events, hevents, fun hbytes => ?_⟩
  have hlength : events.length = node.known.size := by
    rw [← Std.ExtTreeSet.length_toList, ← hids, List.length_map]
  have harchived := hwhole.archived hcommunity hids hmem (hlength ▸ hsize)
  have hencode := harchived.encode_eq (List.Perm.refl events) hbytes
  have hlisted : node.allEventsCli C = .ok events := by rw [CoreNode.allEventsCli, hevents]
  refine ⟨files.insert output (archiveOf community events).toJson,
    ⟨community, node.known.size, (archiveOf community events).toJson.length⟩, ?_⟩
  simp only [commandExportCommunity, openCommunity_of_whole hwhole hcommunity, hlisted, hencode,
    createPrivateOutput, if_neg hfree, liftCli, liftArchive, bind, Except.bind, pure, Except.pure]

end Exporting

/-- The databases of some members, and the files that they hand on. -/
structure Depot (ι : Type) where
  stores : ι → EventStore
  files : Files

inductive Errand (ι : Type)
  | «export» (member : ι) (output : String)
  | «import» (member : ι) (input : String)

namespace Errand

variable {ι : Type}

/-- An archive is told what its exporter holds, and tells it to whoever imports it. -/
def telling : Errand ι → Telling (ι ⊕ String)
  | «export» member output => ⟨.inl member, .inr output⟩
  | «import» member input => ⟨.inr input, .inl member⟩

def toldBy (row : Errand ι × Except CommandError Unit) : Option (Telling (ι ⊕ String)) :=
  match row.2 with
  | .ok _ => some row.1.telling
  | .error _ => none

/-- Who told whom in a run with these outcomes. -/
def tellings (errands : List (Errand ι)) (outcomes : List (Except CommandError Unit)) :
    List (Telling (ι ⊕ String)) := (errands.zip outcomes).filterMap toldBy

variable [DecidableEq ι] (C : Crypto) (J : PayloadReader) (R : ArchiveReader)
  (community : CommunityId)

def step (depot : Depot ι) : Errand ι → Depot ι × Except CommandError Unit
  | «export» member output =>
    let (files, result) := commandExportCommunity C (depot.stores member) community depot.files output
    ({ depot with files }, result.map fun _ => ())
  | «import» member input =>
    let (store, result) := commandImportCommunity C J R (depot.stores member) depot.files input
    ({ depot with stores := Function.update depot.stores member store }, result.map fun _ => ())

end Errand

variable {ι : Type} [DecidableEq ι] {depot : Depot ι} {knows : ι ⊕ String → Set SignedEvent}

/-- The members and the files hold the events that `knows` says they do, and every file is an
archive that any member can take. -/
structure Holds (C : Crypto) (J : PayloadReader) (community : CommunityId) (depot : Depot ι)
    (knows : ι ⊕ String → Set SignedEvent) : Prop where
  member : ∀ i, ∃ node, CoreNode.Lives C node ∧ depot.stores i = node.store ∧
    (∀ c, node.community = some c → c = community) ∧ ∀ event, node.Has event ↔ event ∈ knows (.inl i)
  file : ∀ (path : String) (bytes : ByteString), depot.files[path]? = some bytes →
    ∃ events, bytes = (archiveOf community events).toJson ∧ bytes.length ≤ MAX_ARCHIVE_BYTES ∧
      Archived C community events ∧ (∀ id, ¬ Relation.TransGen (ParentAmong events) id id) ∧
      ∀ event, event ∈ events ↔ event ∈ knows (.inr path)
  unwritten : ∀ path, path ∉ depot.files → knows (.inr path) = ∅
  apart : ∀ {p q a b}, a ∈ knows p → b ∈ knows q → a.eventId = b.eventId → a = b
  founds : ∀ {p genesis}, genesis ∈ knows p → genesis.content.communityId = none → Founds J genesis

namespace Holds

variable (h : Holds C J community depot knows) {i : ι} {path : String}
include h

theorem exports (hnode : CoreNode.Lives C node)
    (hhas : ∀ event, node.Has event ↔ event ∈ knows (.inl i))
    {events : List SignedEvent} {bytes : ByteString} (hfree : path ∉ depot.files)
    (harchive : Archived C community events) (hevents : ∀ event, event ∈ events ↔ node.Has event)
    (hbytes : bytes = (archiveOf community events).toJson)
    (hlength : bytes.length ≤ MAX_ARCHIVE_BYTES) :
    Holds C J community { depot with files := depot.files.insert path bytes }
      (tell knows ⟨.inl i, .inr path⟩) where
  member j := by
    obtain ⟨other, hother, hstore', hnamed, hhas'⟩ := h.member j
    refine ⟨other, hother, hstore', hnamed, fun event => ?_⟩
    rw [hhas', mem_tell]
    simp
  file path' bytes' hfile := by
    rw [getElem?_insert] at hfile
    by_cases hsame : path = path'
    · subst hsame
      rw [if_pos rfl] at hfile
      obtain rfl := Option.some.inj hfile
      refine ⟨events, hbytes, hlength, harchive,
        hnode.whole.acyclic fun event he => (hevents event).mp he, fun event => ?_⟩
      rw [hevents, hhas, mem_tell, h.unwritten path hfree]
      simp
    · rw [if_neg hsame] at hfile
      obtain ⟨events', hbytes', hlength', harchive', hacyclic', hmem'⟩ := h.file path' bytes' hfile
      refine ⟨events', hbytes', hlength', harchive', hacyclic', fun event => ?_⟩
      rw [hmem', mem_tell, or_iff_left]
      rintro ⟨heq, _⟩
      exact hsame (Sum.inr.inj heq).symm
  unwritten path' hfree' := by
    dsimp only at hfree'
    rw [mem_map_insert, not_or] at hfree'
    apply Set.eq_empty_of_forall_notMem
    intro event hevent
    rcases mem_tell.mp hevent with hold | ⟨heq, _⟩
    · rw [h.unwritten path' hfree'.2] at hold
      exact hold
    · exact hfree'.1 (Sum.inr.inj heq)
  apart ha hb := by
    obtain ⟨_, ha⟩ := tell_from ha
    obtain ⟨_, hb⟩ := tell_from hb
    exact h.apart ha hb
  founds hgenesis := by
    obtain ⟨_, hgenesis⟩ := tell_from hgenesis
    exact h.founds hgenesis

theorem imports {core' : CoreNode} (hnode : CoreNode.Lives C core')
    (hnamed : core'.community = some community)
    (hhas : ∀ event, core'.Has event ↔ event ∈ knows (.inl i) ∨ event ∈ knows (.inr path)) :
    Holds C J community { depot with stores := Function.update depot.stores i core'.store }
      (tell knows ⟨.inr path, .inl i⟩) where
  member j := by
    by_cases hsame : j = i
    · subst hsame
      refine ⟨core', hnode, Function.update_self .., fun c hc => ?_, fun event => ?_⟩
      · exact Option.some.inj (hc.symm.trans hnamed)
      · rw [hhas, mem_tell]
        simp
    · obtain ⟨other, hother, hstore, hnamed', hhas'⟩ := h.member j
      refine ⟨other, hother, (Function.update_of_ne hsame ..).trans hstore, hnamed', fun event => ?_⟩
      rw [hhas', mem_tell, or_iff_left]
      rintro ⟨heq, _⟩
      exact hsame (Sum.inl.inj heq)
  file path' bytes hfile := by
    obtain ⟨events, hbytes, hlength, harchive, hacyclic, hmem⟩ := h.file path' bytes hfile
    refine ⟨events, hbytes, hlength, harchive, hacyclic, fun event => ?_⟩
    rw [hmem, mem_tell]
    simp
  unwritten path' hfree := by
    apply Set.eq_empty_of_forall_notMem
    intro event hevent
    rcases mem_tell.mp hevent with hold | ⟨heq, _⟩
    · rw [h.unwritten path' hfree] at hold
      exact hold
    · cases heq
  apart ha hb := by
    obtain ⟨_, ha⟩ := tell_from ha
    obtain ⟨_, hb⟩ := tell_from hb
    exact h.apart ha hb
  founds hgenesis := by
    obtain ⟨_, hgenesis⟩ := tell_from hgenesis
    exact h.founds hgenesis

variable (hread : ∀ wire : ArchiveWire, R wire.toJson = some wire)
include hread

omit [DecidableEq ι] in
/-- A file can be taken by whoever holds the community or nothing. -/
theorem importable {bytes : ByteString} (hfile : depot.files[path]? = some bytes)
    (hnamed : ∀ c, node.community = some c → c = community) :
    ∃ events, Importable C J R node depot.files path (archiveOf community events) ∧
      (∀ id, ¬ Relation.TransGen (ParentAmong events) id id) ∧
      ∀ event, event ∈ events ↔ event ∈ knows (.inr path) := by
  obtain ⟨events, hbytes, hlength, harchive, hacyclic, hmem⟩ := h.file path bytes hfile
  obtain ⟨genesis, hgenesis, hnone, _⟩ := harchive.genesis
  refine ⟨events, ⟨⟨bytes, hfile, hlength, hbytes ▸ hread _⟩, rfl, harchive,
    ⟨genesis, hgenesis, hnone, h.founds ((hmem genesis).mp hgenesis) hnone⟩, ?_⟩, hacyclic, hmem⟩
  cases hc : node.community with
  | none => exact Or.inl rfl
  | some c => exact Or.inr (congrArg some (hnamed c hc))

omit [DecidableEq ι] in
theorem apartFrom (hnode : CoreNode.Lives C node)
    (hhas : ∀ event, node.Has event ↔ event ∈ knows (.inl i)) :
    ApartFrom R node.store depot.files path := by
  intro bytes wire hfile hwire event hevent other hrow
  obtain ⟨events, hbytes, _, _, _, hmem⟩ := h.file path bytes hfile
  rw [hbytes, hread] at hwire
  obtain rfl := Option.some.inj hwire
  have hid := hnode.whole.rowId hrow
  have hother : node.Has other := by
    refine ⟨?_, hid ▸ hrow⟩
    rw [hid]
    exact hnode.whole.rowKnown (mem_of_getElem? hrow)
  exact h.apart ((hhas other).mp hother) ((hmem event).mp hevent) hid

theorem step (errand : Errand ι) :
    Holds C J community (errand.step C J R community depot).1
      (tellAll knows (Errand.toldBy (errand, (errand.step C J R community depot).2)).toList) := by
  cases errand with
  | «export» member output =>
    obtain ⟨node, hnode, hstore, _, hhas⟩ := h.member member
    rcases export_cases hnode.whole community depot.files output with
      ⟨error, herror⟩ |
      ⟨events, bytes, _, hfree, harchive, hevents, hbytes, hlength, hexport⟩
    · simp only [Errand.step, hstore, herror]
      exact h
    · simp only [Errand.step, hstore, hexport]
      exact h.exports hnode hhas hfree harchive hevents hbytes hlength
  | «import» member input =>
    obtain ⟨node, hnode, hstore, hnamed, hhas⟩ := h.member member
    have hapart : ApartFrom R node.store depot.files input := h.apartFrom hread hnode hhas
    rcases import_cases (J := J) hnode.whole hapart with
      ⟨error, herror⟩ | ⟨wire, batches, himportable, himport, habsorbed⟩
    · simp only [Errand.step, hstore, herror]
      have hsame : Function.update depot.stores member node.store = depot.stores := by
        rw [← hstore, Function.update_eq_self]
      rw [hsame]
      exact h
    · simp only [Errand.step, hstore, himport]
      obtain ⟨bytes, hfile, _, hwire⟩ := himportable.read
      obtain ⟨events, hbytes, _, _, _, hmem⟩ := h.file input bytes hfile
      rw [hbytes, hread] at hwire
      obtain rfl := Option.some.inj hwire
      apply h.imports (Lives.ingestAll hnode batches) habsorbed.named
      intro event
      rw [habsorbed.has, hhas]
      exact or_congr_right (hmem event)

theorem run (errands : List (Errand ι)) :
    Holds C J community (Simulation.run (Errand.step C J R community) depot errands).1
      (tellAll knows (Errand.tellings errands
        (Simulation.run (Errand.step C J R community) depot errands).2)) := by
  induction errands generalizing depot knows with
  | nil => exact h
  | cons errand errands ih =>
    have hrest := ih (h.step hread errand)
    rw [Errand.tellings, Simulation.run, List.zip_cons_cons, List.filterMap_cons]
    cases htold : Errand.toldBy (errand, (errand.step C J R community depot).2) with
    | none =>
      rw [htold] at hrest
      exact hrest
    | some telling =>
      rw [htold] at hrest
      exact hrest

end Holds

/-- No two of the members' events share an id, and each genesis is one of a chat community. -/
structure Gathered (C : Crypto) (J : PayloadReader) (community : CommunityId)
    (nodes : ι → CoreNode) : Prop where
  lives : ∀ i, CoreNode.Lives C (nodes i)
  named : ∀ i c, (nodes i).community = some c → c = community
  apart : ∀ {i j a b}, (nodes i).Has a → (nodes j).Has b → a.eventId = b.eventId → a = b
  founds : ∀ {i genesis}, (nodes i).Has genesis → genesis.content.communityId = none →
    Founds J genesis

/-- At the start, each member knows what its database holds, and nothing has been written. -/
def heldBy (nodes : ι → CoreNode) : ι ⊕ String → Set SignedEvent
  | .inl i => {event | (nodes i).Has event}
  | .inr _ => ∅

def Depot.begin (nodes : ι → CoreNode) : Depot ι := { stores := fun i => (nodes i).store, files := ∅ }

omit [DecidableEq ι] in
theorem Gathered.holds {nodes : ι → CoreNode} (h : Gathered C J community nodes) :
    Holds C J community (Depot.begin nodes) (heldBy nodes) where
  member i := ⟨nodes i, h.lives i, rfl, h.named i, fun _ => Iff.rfl⟩
  file path bytes hfile := by simp [Depot.begin] at hfile
  unwritten _ _ := rfl
  apart {p q a b} ha hb hab := by
    cases p with
    | inr _ => cases ha
    | inl i =>
      cases q with
      | inr _ => cases hb
      | inl j => exact h.apart ha hb hab
  founds {p genesis} hgenesis hnone := by
    cases p with
    | inr _ => cases hgenesis
    | inl i => exact h.founds hgenesis hnone

omit [DecidableEq ι] in
theorem Holds.import_succeeds (h : Holds C J community depot knows)
    (hread : ∀ wire : ArchiveWire, R wire.toJson = some wire) (i : ι) {path : String}
    (hpath : path ∈ depot.files) : ∃ store report,
      commandImportCommunity C J R (depot.stores i) depot.files path = (store, .ok report) := by
  obtain ⟨node, hnode, hstore, hnamed, hhas⟩ := h.member i
  obtain ⟨bytes, hfile⟩ := mem_iff.mp hpath
  obtain ⟨events, himportable, hacyclic, _⟩ := h.importable hread hfile hnamed
  have hapart : ApartFrom R node.store depot.files path := h.apartFrom hread hnode hhas
  have hmissing : Missing C node community (node.archivePending events) :=
    missing himportable.archived hacyclic
  obtain ⟨batches, hingest, habsorbed⟩ := ingestArchive_grounded himportable.archived hnode.whole
    himportable.named (himportable.apart hapart) hmissing.grounded
  rw [hstore]
  exact ⟨_, _, import_absorbed hnode.whole himportable habsorbed hingest⟩

variable {nodes : ι → CoreNode}

omit [DecidableEq ι] in
theorem heldBy_has {i : ι} {errands : List (Errand ι)}
    {outcomes : List (Except CommandError Unit)} :
    (∃ p, Heard (Errand.tellings errands outcomes) p (.inl i) ∧ event ∈ heldBy nodes p) ↔
      ∃ j, Heard (Errand.tellings errands outcomes) (.inl j) (.inl i) ∧ (nodes j).Has event := by
  constructor
  · rintro ⟨p, hheard, hevent⟩
    cases p with
    | inl j => exact ⟨j, hheard, hevent⟩
    | inr path => cases hevent
  · rintro ⟨j, hheard, hevent⟩
    exact ⟨.inl j, hheard, hevent⟩

/-- After any run of exports and imports, each member holds exactly the events of those whose
word has come to it in archives, every archive can be imported by everyone, and members to whom
word has come from all hold the same. -/
theorem archives_spread (h : Gathered C J community nodes)
    (hread : ∀ wire : ArchiveWire, R wire.toJson = some wire) (errands : List (Errand ι)) :
    ∃ final outcomes,
      Simulation.run (Errand.step C J R community) (Depot.begin nodes) errands =
        (final, outcomes) ∧
      (∀ j, ∃ node, CoreNode.Lives C node ∧ final.stores j = node.store ∧
        ∀ event, node.Has event ↔ ∃ i, Heard (Errand.tellings errands outcomes) (.inl i) (.inl j) ∧
          (nodes i).Has event) ∧
      (∀ j, ∀ path ∈ final.files, ∃ store report,
        commandImportCommunity C J R (final.stores j) final.files path = (store, .ok report)) ∧
      ∀ j k, (∀ i, (nodes i).community ≠ none →
          Heard (Errand.tellings errands outcomes) (.inl i) (.inl j) ∧
          Heard (Errand.tellings errands outcomes) (.inl i) (.inl k)) →
        final.stores j = final.stores k := by
  obtain ⟨final, outcomes, hrun⟩ : ∃ final outcomes,
      Simulation.run (Errand.step C J R community) (Depot.begin nodes) errands =
        (final, outcomes) := ⟨_, _, rfl⟩
  have hholds := h.holds.run hread errands
  rw [hrun] at hholds
  have hmember : ∀ j, ∃ node, CoreNode.Lives C node ∧ final.stores j = node.store ∧
      ∀ event, node.Has event ↔ ∃ i, Heard (Errand.tellings errands outcomes) (.inl i) (.inl j) ∧
        (nodes i).Has event := by
    intro j
    obtain ⟨node, hnode, hstore, _, hhas⟩ := hholds.member j
    exact ⟨node, hnode, hstore, fun event => by rw [hhas, mem_tellAll, heldBy_has]⟩
  refine ⟨final, outcomes, hrun, hmember, fun j path => hholds.import_succeeds hread j, ?_⟩
  intro j k hheard
  have hfrom : ∀ {i event}, (nodes i).Has event → (nodes i).community ≠ none := by
    intro i event hevent hnone
    exact (h.lives i).whole.known_empty_of_community hnone _ hevent.1
  obtain ⟨node, hnode, hstore, hhas⟩ := hmember j
  obtain ⟨other, hother, hstore', hhas'⟩ := hmember k
  rw [hstore, hstore']
  apply hnode.whole.store_ext hother.whole
  intro event
  rw [hhas, hhas']
  constructor
  · rintro ⟨i, _, hevent⟩
    exact ⟨i, (hheard i (hfrom hevent)).2, hevent⟩
  · rintro ⟨i, _, hevent⟩
    exact ⟨i, (hheard i (hfrom hevent)).1, hevent⟩

section Example

open Sample

/-- One member has the history so far, the other nothing. -/
def household : Bool → CoreNode
  | true => begun
  | false => blank

theorem household_gathered : Gathered crypto clubReader club household where
  lives i := by
    cases i with
    | false => exact .start rfl
    | true => exact begun_lives
  named i c hc := by
    cases i with
    | false => cases hc
    | true =>
      rw [household, begun_named.1] at hc
      exact (Option.some.inj hc).symm
  apart {i j a b} ha hb hab := by
    have hnot : ∀ {e}, ¬ blank.Has e := fun he => not_mem_empty he.1
    cases i with
    | false => exact absurd ha hnot
    | true =>
      cases j with
      | false => exact absurd hb hnot
      | true =>
        have hrow := ha.2
        rw [hab, hb.2] at hrow
        exact (Option.some.inj hrow).symm
  founds {i genesis} hgenesis hnone := by
    cases i with
    | false => exact absurd hgenesis.1 not_mem_empty
    | true =>
      obtain ⟨events, hevents, _, hmem⟩ := begun_lives.whole.allEvents_spec
      obtain rfl := Except.ok.inj (hevents.symm.trans begun_named.2.2)
      have hlisted := (hmem genesis).mpr hgenesis
      simp only [List.mem_cons, List.not_mem_nil, or_false] at hlisted
      obtain rfl | rfl := hlisted
      · exact ⟨_, _, rfl⟩
      · cases hnone

theorem archives_spread_household : ∃ R : ArchiveReader, ∃ final outcomes,
    Simulation.run (Errand.step crypto clubReader R club) (Depot.begin household)
      [.«export» true "club", .«import» false "club"] = (final, outcomes) ∧
      ∀ path ∈ final.files, ∃ store report,
        commandImportCommunity crypto clubReader R (final.stores false) final.files path =
          (store, .ok report) := by
  obtain ⟨R, hread⟩ := ArchiveWire.legible.exists_reader
  obtain ⟨final, outcomes, hrun, _, himports, _⟩ := archives_spread household_gathered hread
    [.«export» true "club", .«import» false "club"]
  exact ⟨R, final, outcomes, hrun, himports false⟩

end Example

end ChatCommons
