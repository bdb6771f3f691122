import ChatCommons.Review.Exchanges

/-!
The audit log accounts for every review: replayed over what was first inserted it gives what is
stored, and each entry was written for a request that showed the right tokens.
-/

namespace ChatCommons.ReviewPrototype

open Collections

variable {Time : Type} [LinearOrder Time] {H : Digest} {minus : Time → ℕ → Time}
  {config : Config} {start s later : ReviewApplication Time} {exchanges : List (Exchange Time)}
  {x : Exchange Time} {act : Act Time} {db db' : Database} {log entries : List AuditEntry}
  {entry : AuditEntry} {id : ℕ} {row first : Review}

namespace AuditEntry

def apply (entry : AuditEntry) (row : Review) : Review :=
  match entry.detail with
  | .reviewerEdit edit =>
    { row with
      category := edit.category
      priority := edit.priority
      message := edit.message
      updatedAt := entry.createdAt }
  | .withdraw _ => { row with status := .withdrawn, updatedAt := entry.createdAt }
  | .update status reply => { row with status, adminReply := reply, updatedAt := entry.createdAt }

@[simp] theorem apply_publicId : (entry.apply row).publicId = row.publicId := by
  unfold apply
  cases entry.detail <;> rfl

@[simp] theorem apply_editTokenHash : (entry.apply row).editTokenHash = row.editTokenHash := by
  unfold apply
  cases entry.detail <;> rfl

end AuditEntry

/-- What the entries about a review make of it. -/
def replay (log : List AuditEntry) (id : ℕ) (row : Review) : Review :=
  (log.filter fun entry => entry.reviewId = id).foldl (fun row entry => entry.apply row) row

theorem replay_snoc : replay (log ++ [entry]) id row =
    if entry.reviewId = id then entry.apply (replay log id row) else replay log id row := by
  rw [replay, replay, List.filter_append, List.foldl_append]
  by_cases hid : entry.reviewId = id
  · simp [hid]
  · simp [hid]

theorem replay_unmentioned (h : ∀ entry ∈ log, entry.reviewId ≠ id) : replay log id row = row := by
  rw [replay, List.filter_eq_nil_iff.mpr fun entry hentry => by simpa using h entry hentry]
  rfl

structure Database.Logged (db : Database) (entry : AuditEntry) (later : Database) : Prop where
  log : later.auditLog = db.auditLog ++ [entry]
  known : entry.reviewId ∈ db.reviews
  rows : ∀ id, later.reviews[id]? =
    db.reviews[id]?.map fun row => if entry.reviewId = id then entry.apply row else row

section Changes

theorem updateRow_rows (reviewId : ℕ) (change : Review → Review) (id : ℕ) :
    (db.updateRow reviewId change)[id]? =
      db.reviews[id]?.map fun row => if reviewId = id then change row else row := by
  by_cases heq : reviewId = id
  · subst heq
    simp only [if_true]
    exact updateRow_self db reviewId change
  · rw [updateRow_other db heq]
    simp [heq]

def Write.logEntry : Write → AuditEntry
  | .edit id given now => ⟨id, .reviewerEdit given, now⟩
  | .withdraw id previousStatus now => ⟨id, .withdraw previousStatus, now⟩

theorem Write.logEntry_reviewId (write : Write) : write.logEntry.reviewId = write.reviewId := by
  cases write <;> rfl

theorem commit_logged {write : Write} (hknown : write.reviewId ∈ db.reviews) :
    db.Logged write.logEntry (db.commit write) := by
  cases write with
  | edit reviewId edit now => exact ⟨rfl, hknown, updateRow_rows _ _⟩
  | withdraw reviewId previousStatus now => exact ⟨rfl, hknown, updateRow_rows _ _⟩

theorem updateReview_logged {payload : Payload} {now : String}
    (h : db.updateReview id payload now = .ok (db', true)) : ∃ status reply,
      validateUpdate payload = .ok (status, reply) ∧
      db.Logged ⟨id, .update status reply, now⟩ db' := by
  unfold Database.updateReview at h
  cases hvalid : validateUpdate payload with
  | error e =>
    rw [hvalid] at h
    cases h
  | ok change =>
    obtain ⟨status, reply⟩ := change
    simp only [hvalid, bind, Except.bind, pure, Except.pure] at h
    by_cases hknown : id ∉ db.reviews
    · rw [if_pos hknown] at h
      cases h
    · rw [if_neg hknown] at h
      cases h
      exact ⟨status, reply, rfl, rfl, not_not.mp hknown, updateRow_rows _ _⟩

theorem le_foldr_max {l : List ℕ} (h : id ∈ l) : id ≤ l.foldr max 0 := by
  induction l with
  | nil => cases h
  | cons n l ih =>
    rcases List.mem_cons.mp h with rfl | h
    · exact le_max_left _ _
    · exact (ih h).trans (le_max_right _ _)

theorem nextId_fresh (db : Database) : db.nextId ∉ db.reviews := by
  intro hmem
  have hle := le_foldr_max (Std.ExtTreeMap.mem_keys.mpr hmem)
  rw [Database.nextId] at hle
  omega

/-- A new review stands beside the old ones, under an id of its own. -/
structure Database.Created (H : Digest) (db : Database) (publicId editToken : String)
    (id : ℕ) (row : Review) (later : Database) : Prop where
  log : later.auditLog = db.auditLog
  new : id ∉ db.reviews
  rows : ∀ other, later.reviews[other]? = if id = other then some row else db.reviews[other]?
  publicId : row.publicId = publicId
  token : row.editTokenHash = H editToken
  status : row.status = .pending

theorem createReview_created {given : Edit} {publicId editToken now : String}
    (h : db.createReview H given publicId editToken now = some db') :
    ∃ row, Database.Created H db publicId editToken db.nextId row db' := by
  unfold Database.createReview at h
  split_ifs at h
  cases h
  exact ⟨_, rfl, nextId_fresh db, fun other => getElem?_insert, rfl, rfl, rfl⟩

/-- Reviews stay, with their public id and the hash of their token. -/
def Database.Keeps (db later : Database) : Prop :=
  ∀ (id : ℕ) (row : Review), db.reviews[id]? = some row → ∃ row' : Review,
    later.reviews[id]? = some row' ∧ row'.publicId = row.publicId ∧
      row'.editTokenHash = row.editTokenHash

theorem Database.Logged.keeps (h : db.Logged entry db') : db.Keeps db' := by
  intro id row hrow
  refine ⟨_, by rw [h.rows, hrow]; rfl, ?_⟩
  dsimp only
  split_ifs
  · exact ⟨AuditEntry.apply_publicId, AuditEntry.apply_editTokenHash⟩
  · exact ⟨rfl, rfl⟩

theorem Database.Created.keeps {publicId editToken : String}
    (h : Database.Created H db publicId editToken id row db') : db.Keeps db' := by
  intro other old hold
  refine ⟨old, ?_, rfl, rfl⟩
  rw [h.rows, if_neg, hold]
  rintro rfl
  exact h.new (mem_of_getElem? hold)

theorem Database.Keeps.mem (h : db.Keeps db') (hmem : id ∈ db.reviews) : id ∈ db'.reviews := by
  obtain ⟨row, hrow⟩ := mem_iff.mp hmem
  obtain ⟨row', hrow', _⟩ := h id row hrow
  exact mem_of_getElem? hrow'

end Changes

section Authorship

/-- The request may write the entry: an update needs the owner's token, a change of the review
itself the reviewers' token and the review's own. -/
inductive Incoming.Authors (H : Digest) (config : Config) (db : Database) (r : Incoming Time) :
    ℕ → AuditDetail → Prop
  | update {digits : List Char} {id : ℕ} {payload : Payload} {status : Status} {reply : String}
      (hshown : r.Shown config true)
      (hpath : afterPrefix "/api/admin/reviews/" (rstrip r.path) = some digits)
      (hid : parseInt digits = .ok id) (hjson : r.readJson = .ok payload)
      (hvalid : validateUpdate payload = .ok (status, reply)) :
    Authors H config db r id (.update status reply)
  | reviewerEdit {publicId : List Char} {id : ℕ} {payload : Payload} {edit : Edit} {row : Review}
      (hshown : r.Shown config false)
      (hpath : afterPrefix "/api/reviews/" (rstrip r.path) = some publicId)
      (hrow : db.reviews[id]? = some row) (hpublic : row.publicId = String.ofList publicId)
      (htoken : validEditToken H (Incoming.header r.editHeader) row.editTokenHash = true)
      (hjson : r.readJson = .ok payload) (hvalid : validateEdit payload = .ok edit) :
    Authors H config db r id (.reviewerEdit edit)
  | withdraw {publicId : List Char} {id : ℕ} {previousStatus : Status} {row : Review}
      (hshown : r.Shown config false)
      (hpath : afterPrefix "/api/reviews/" (rstrip r.path) = some publicId)
      (hrow : db.reviews[id]? = some row) (hpublic : row.publicId = String.ofList publicId)
      (htoken : validEditToken H (Incoming.header r.editHeader) row.editTokenHash = true) :
    Authors H config db r id (.withdraw previousStatus)

variable {r : Incoming Time} {detail : AuditDetail}

omit [LinearOrder Time] in
theorem Incoming.Authors.mono (h : r.Authors H config db id detail) (hkeeps : db.Keeps db') :
    r.Authors H config db' id detail := by
  cases h with
  | update hshown hpath hid hjson hvalid => exact .update hshown hpath hid hjson hvalid
  | reviewerEdit hshown hpath hrow hpublic htoken hjson hvalid =>
    obtain ⟨row', hrow', hsame, hhash⟩ := hkeeps _ _ hrow
    exact .reviewerEdit hshown hpath hrow' (hsame.trans hpublic) (hhash ▸ htoken) hjson hvalid
  | withdraw hshown hpath hrow hpublic htoken =>
    obtain ⟨row', hrow', hsame, hhash⟩ := hkeeps _ _ hrow
    exact .withdraw hshown hpath hrow' (hsame.trans hpublic) (hhash ▸ htoken)

theorem select_publicId {publicId : String} (h : db.select publicId = some (id, row)) :
    row.publicId = publicId := by
  unfold Database.select at h
  have hfound := List.find?_some h
  exact of_decide_eq_true hfound

omit [LinearOrder Time] in
/-- A transaction is opened only for a request that may write its entry. -/
theorem read_authors {server : Server} {request : Request} {write : Write}
    (hshown : r.Shown config false) (hasks : r.Asks request)
    (hread : server.read H request r.now = .ok (.ok write)) :
    write.reviewId ∈ server.database.reviews ∧
      r.Authors H config server.database write.reviewId write.logEntry.detail := by
  cases hasks with
  | @edit publicId payload hpath hjson =>
    simp only [Server.read, Database.editReview] at hread
    cases hvalid : validateEdit payload with
    | error e =>
      rw [hvalid] at hread
      cases hread
    | ok edit =>
      rw [hvalid] at hread
      replace hread := Except.ok.inj hread
      cases hselect : server.database.select (String.ofList publicId) with
      | none =>
        rw [hselect] at hread
        cases hread
      | some found =>
        obtain ⟨id, row⟩ := found
        rw [hselect] at hread
        dsimp only at hread
        split_ifs at hread with htoken hstatus
        cases hread
        have hrow := select_row hselect
        exact ⟨mem_of_getElem? hrow, .reviewerEdit hshown hpath hrow (select_publicId hselect)
          (by simpa using htoken) hjson hvalid⟩
  | @withdraw publicId hpath =>
    simp only [Server.read, Database.withdrawReview] at hread
    replace hread := Except.ok.inj hread
    cases hselect : server.database.select (String.ofList publicId) with
    | none =>
      rw [hselect] at hread
      cases hread
    | some found =>
      obtain ⟨id, row⟩ := found
      rw [hselect] at hread
      dsimp only at hread
      split_ifs at hread with htoken hstatus
      cases hread
      have hrow := select_row hselect
      exact ⟨mem_of_getElem? hrow, .withdraw hshown hpath hrow (select_publicId hselect)
        (by simpa using htoken)⟩

end Authorship

section Runs

/-- The row under which a review was first stored. -/
inductive Born (H : Digest) (minus : Time → ℕ → Time) (config : Config)
    (start : ReviewApplication Time) (exchanges : List (Exchange Time)) (id : ℕ) : Review → Prop
  | initial {row : Review} (hrow : start.database.reviews[id]? = some row) :
    Born H minus config start exchanges id row
  | created {x : Exchange Time} {row : Review} {publicId editToken now : String}
      (hx : x ∈ exchanges)
      (hanswer : x.result H minus config = .respond (.created publicId editToken now))
      (hcreated : Database.Created H x.before.database publicId editToken id row
        (x.after H minus config).database) :
    Born H minus config start exchanges id row

def Exchange.Authors (H : Digest) (config : Config) (db : Database) (x : Exchange Time) (id : ℕ)
    (detail : AuditDetail) : Prop :=
  ∃ thread r, x.act = .request thread r ∧ r.Authors H config db id detail

structure Accounts (H : Digest) (minus : Time → ℕ → Time) (config : Config)
    (start : ReviewApplication Time) (exchanges : List (Exchange Time))
    (s : ReviewApplication Time) (entries : List AuditEntry) : Prop where
  log : s.database.auditLog = start.database.auditLog ++ entries
  answers : entries.length =
    exchanges.countP fun x => x.result H minus config = .respond .ok
  rows : ∀ id row, s.database.reviews[id]? = some row ↔
    ∃ first, Born H minus config start exchanges id first ∧ row = replay entries id first
  known : ∀ entry ∈ entries, entry.reviewId ∈ s.database.reviews
  authors : ∀ entry ∈ entries, ∃ x ∈ exchanges,
    x.Authors H config s.database entry.reviewId entry.detail
  waiting : ∀ (thread : ℕ) (write : Write), s.server.threads[thread]? = some write →
    write.reviewId ∈ s.database.reviews ∧ ∃ x ∈ exchanges,
      x.Authors H config s.database write.reviewId write.logEntry.detail

variable {server : Server} {result : Result} {publicId editToken now : String}

omit [LinearOrder Time] in
theorem Exchange.Authors.mono {detail : AuditDetail} (h : x.Authors H config db id detail)
    (hkeeps : db.Keeps db') : x.Authors H config db' id detail := by
  obtain ⟨thread, r, hact, hauthors⟩ := h
  exact ⟨thread, r, hact, hauthors.mono hkeeps⟩

theorem Born.earlier {last : Exchange Time} (h : Born H minus config start exchanges id first) :
    Born H minus config start (exchanges ++ [last]) id first := by
  cases h with
  | initial hrow => exact .initial hrow
  | created hx hanswer hcreated => exact .created (List.mem_append_left _ hx) hanswer hcreated

theorem born_snoc {last : Exchange Time}
    (hsame : ∀ id ∈ (last.after H minus config).database.reviews,
      id ∈ last.before.database.reviews) :
    Born H minus config start (exchanges ++ [last]) id first ↔
      Born H minus config start exchanges id first := by
  constructor
  · intro h
    cases h with
    | initial hrow => exact .initial hrow
    | @created x _ publicId editToken now hx hanswer hcreated =>
      rcases List.mem_append.mp hx with hold | hlast
      · exact .created hold hanswer hcreated
      · obtain rfl := List.mem_singleton.mp hlast
        have hrow := hcreated.rows id
        rw [if_pos rfl] at hrow
        exact absurd (hsame id (mem_of_getElem? hrow)) hcreated.new
  · exact Born.earlier

theorem countP_snoc_ok (hresult : (s.perform H minus config act).2 ≠ .respond .ok) :
    (exchanges ++ [Exchange.mk s act]).countP (fun x => x.result H minus config = .respond .ok) =
      exchanges.countP fun x => x.result H minus config = .respond .ok := by
  rw [List.countP_append, List.countP_singleton, if_neg, Nat.add_zero]
  exact fun hsame => hresult (of_decide_eq_true hsame)

/-- A step that leaves the database alone, and opens a transaction at most for its own request. -/
theorem Accounts.quiet (h : Accounts H minus config start exchanges s entries)
    (hsame : (s.perform H minus config act).1.database = s.database)
    (hresult : (s.perform H minus config act).2 ≠ .respond .ok)
    (hthreads : ∀ (thread : ℕ) (write : Write),
      (s.perform H minus config act).1.server.threads[thread]? = some write →
      s.server.threads[thread]? = some write ∨ write.reviewId ∈ s.database.reviews ∧
        (⟨s, act⟩ : Exchange Time).Authors H config s.database write.reviewId
          write.logEntry.detail) :
    Accounts H minus config start (exchanges ++ [⟨s, act⟩]) (s.perform H minus config act).1
      entries := by
  refine ⟨by rw [hsame, h.log], by rw [h.answers, countP_snoc_ok hresult], ?_, ?_, ?_, ?_⟩
  · intro id row
    rw [hsame, h.rows]
    have hborn : ∀ first, Born H minus config start (exchanges ++ [⟨s, act⟩]) id first ↔
        Born H minus config start exchanges id first := by
      intro first
      apply born_snoc
      intro id hid
      rw [Exchange.after, hsame] at hid
      exact hid
    simp only [hborn]
  · intro entry hentry
    rw [hsame]
    exact h.known entry hentry
  · intro entry hentry
    obtain ⟨x, hx, hauthors⟩ := h.authors entry hentry
    rw [hsame]
    exact ⟨x, List.mem_append_left _ hx, hauthors⟩
  · intro thread write hwrite
    rw [hsame]
    rcases hthreads thread write hwrite with hold | ⟨hknown, hauthors⟩
    · obtain ⟨hknown, x, hx, hauthors⟩ := h.waiting thread write hold
      exact ⟨hknown, x, List.mem_append_left _ hx, hauthors⟩
    · exact ⟨hknown, _, List.mem_append_right _ (List.mem_singleton_self _), hauthors⟩

theorem Accounts.logged (h : Accounts H minus config start exchanges s entries)
    (hlogged : s.database.Logged entry (s.perform H minus config act).1.database)
    (hresult : (s.perform H minus config act).2 = .respond .ok)
    (hauthor : ∃ x ∈ exchanges ++ [⟨s, act⟩],
      x.Authors H config s.database entry.reviewId entry.detail)
    (hthreads : ∀ (thread : ℕ) (write : Write),
      (s.perform H minus config act).1.server.threads[thread]? = some write →
      s.server.threads[thread]? = some write) :
    Accounts H minus config start (exchanges ++ [⟨s, act⟩]) (s.perform H minus config act).1
      (entries ++ [entry]) := by
  have hkeeps := hlogged.keeps
  refine ⟨by rw [hlogged.log, h.log, List.append_assoc], ?_, ?_, ?_, ?_, ?_⟩
  · rw [List.length_append, h.answers, List.countP_append, List.countP_singleton, if_pos]
    · rfl
    · exact decide_eq_true hresult
  · intro id row
    have hborn : ∀ first, Born H minus config start (exchanges ++ [⟨s, act⟩]) id first ↔
        Born H minus config start exchanges id first := by
      intro first
      apply born_snoc
      intro id hid
      obtain ⟨row, hrow⟩ := mem_iff.mp hid
      rw [Exchange.after, hlogged.rows] at hrow
      obtain ⟨old, hold, _⟩ := Option.map_eq_some_iff.mp hrow
      exact mem_of_getElem? hold
    simp only [hborn, replay_snoc]
    rw [hlogged.rows, Option.map_eq_some_iff]
    constructor
    · rintro ⟨old, hold, rfl⟩
      obtain ⟨first, hfirst, rfl⟩ := (h.rows id old).mp hold
      exact ⟨first, hfirst, rfl⟩
    · rintro ⟨first, hfirst, rfl⟩
      exact ⟨_, (h.rows id _).mpr ⟨first, hfirst, rfl⟩, rfl⟩
  · intro other hother
    rcases List.mem_append.mp hother with hold | hnew
    · exact hkeeps.mem (h.known other hold)
    · obtain rfl := List.mem_singleton.mp hnew
      exact hkeeps.mem hlogged.known
  · intro other hother
    rcases List.mem_append.mp hother with hold | hnew
    · obtain ⟨x, hx, hauthors⟩ := h.authors other hold
      exact ⟨x, List.mem_append_left _ hx, hauthors.mono hkeeps⟩
    · obtain rfl := List.mem_singleton.mp hnew
      obtain ⟨x, hx, hauthors⟩ := hauthor
      exact ⟨x, hx, hauthors.mono hkeeps⟩
  · intro thread write hwrite
    obtain ⟨hknown, x, hx, hauthors⟩ := h.waiting thread write (hthreads thread write hwrite)
    exact ⟨hkeeps.mem hknown, x, List.mem_append_left _ hx, hauthors.mono hkeeps⟩

theorem Accounts.created (h : Accounts H minus config start exchanges s entries)
    (hcreated : Database.Created H s.database publicId editToken id row
      (s.perform H minus config act).1.database)
    (hresult : (s.perform H minus config act).2 = .respond (.created publicId editToken now))
    (hthreads : (s.perform H minus config act).1.server.threads = s.server.threads) :
    Accounts H minus config start (exchanges ++ [⟨s, act⟩]) (s.perform H minus config act).1
      entries := by
  have hkeeps := hcreated.keeps
  refine ⟨hcreated.log.trans h.log, ?_, ?_, ?_, ?_, ?_⟩
  · rw [h.answers, countP_snoc_ok]
    rw [hresult]
    simp
  · intro other old
    have hborn : ∀ first, Born H minus config start (exchanges ++ [⟨s, act⟩]) other first ↔
        Born H minus config start exchanges other first ∨ id = other ∧ first = row := by
      intro first
      constructor
      · intro hborn
        cases hborn with
        | initial hrow => exact Or.inl (.initial hrow)
        | @created x _ publicId' editToken' now' hx hanswer hother =>
          rcases List.mem_append.mp hx with hold | hlast
          · exact Or.inl (.created hold hanswer hother)
          · obtain rfl := List.mem_singleton.mp hlast
            have hfirst := hother.rows other
            rw [if_pos rfl, Exchange.after, hcreated.rows] at hfirst
            by_cases heq : id = other
            · rw [if_pos heq] at hfirst
              exact Or.inr ⟨heq, (Option.some.inj hfirst).symm⟩
            · rw [if_neg heq] at hfirst
              exact absurd (mem_of_getElem? hfirst) hother.new
      · rintro (hold | ⟨rfl, rfl⟩)
        · exact hold.earlier
        · exact .created (List.mem_append_right _ (List.mem_singleton_self _)) hresult hcreated
    simp only [hborn]
    rw [hcreated.rows]
    by_cases heq : id = other
    · subst heq
      have hunmentioned : ∀ first, replay entries id first = first := by
        intro first
        apply replay_unmentioned
        rintro entry hentry rfl
        exact hcreated.new (h.known entry hentry)
      have hunborn : ∀ first, ¬ Born H minus config start exchanges id first := by
        intro first hfirst
        exact hcreated.new (mem_of_getElem? ((h.rows id _).mpr ⟨first, hfirst, rfl⟩))
      simp [hunborn, hunmentioned, eq_comm]
    · simp only [heq, if_false, false_and, or_false]
      exact h.rows other old
  · intro entry hentry
    exact hkeeps.mem (h.known entry hentry)
  · intro entry hentry
    obtain ⟨x, hx, hauthors⟩ := h.authors entry hentry
    exact ⟨x, List.mem_append_left _ hx, hauthors.mono hkeeps⟩
  · intro thread write hwrite
    rw [hthreads] at hwrite
    obtain ⟨hknown, x, hx, hauthors⟩ := h.waiting thread write hwrite
    exact ⟨hkeeps.mem hknown, x, List.mem_append_left _ hx, hauthors.mono hkeeps⟩

theorem erased {thread other : ℕ} {write : Write}
    (h : (server.threads.erase thread)[other]? = some write) :
    server.threads[other]? = some write := by
  rw [getElem?_erase] at h
  split_ifs at h
  exact h

theorem Accounts.snoc (h : Accounts H minus config start exchanges s entries)
    (henabled : s.Enabled act) : ∃ entries',
      Accounts H minus config start (exchanges ++ [⟨s, act⟩]) (s.perform H minus config act).1
        entries' := by
  have heffect : Effect H config s.server act (s.perform H minus config act).1.server
      (s.perform H minus config act).2 := perform_effect henabled
  generalize hstep : s.perform H minus config act = step at heffect
  obtain ⟨⟨server, limiter⟩, result⟩ := step
  dsimp only at heffect
  rw [← hstep]
  cases heffect with
  | refused hrefuses =>
    refine ⟨entries, h.quiet (by rw [hstep]) ?_ fun thread write hwrite => ?_⟩
    · rw [hstep]
      rintro rfl
      exact hrefuses
    · rw [hstep] at hwrite
      exact Or.inl hwrite
  | created hshown hcreate =>
    obtain ⟨row, hcreated⟩ := createReview_created hcreate
    exact ⟨entries, h.created (by rw [hstep]; exact hcreated) (by rw [hstep]) (by rw [hstep])⟩
  | @updated thread r digits id payload database hshown hpath hid hjson hupdate =>
    obtain ⟨status, reply, hvalid, hchange⟩ := updateReview_logged hupdate
    refine ⟨_, h.logged (by rw [hstep]; exact hchange) (by rw [hstep]) ?_ ?_⟩
    · exact ⟨_, List.mem_append_right _ (List.mem_singleton_self _), thread, r, rfl,
        .update hshown hpath hid hjson hvalid⟩
    · intro other found hfound
      rw [hstep] at hfound
      exact hfound
  | @opened thread r request write hshown hasks hread =>
    refine ⟨entries, h.quiet (by rw [hstep]) (by rw [hstep]; simp) fun other found hfound => ?_⟩
    rw [hstep] at hfound
    change (s.server.threads.insert thread write)[other]? = some found at hfound
    rw [getElem?_insert] at hfound
    split_ifs at hfound
    · obtain rfl := Option.some.inj hfound
      obtain ⟨hknown, hauthors⟩ := read_authors hshown hasks hread
      exact Or.inr ⟨hknown, thread, r, rfl, hauthors⟩
    · exact Or.inl hfound
  | @committed thread write hwrite =>
    obtain ⟨hknown, x, hx, hauthors⟩ := h.waiting thread write hwrite
    refine ⟨_, h.logged (by rw [hstep]; exact commit_logged hknown) (by rw [hstep]) ?_ ?_⟩
    · rw [write.logEntry_reviewId]
      exact ⟨x, List.mem_append_left _ hx, hauthors⟩
    · intro other found hfound
      rw [hstep] at hfound
      exact erased hfound
  | dropped =>
    refine ⟨entries, h.quiet (by rw [hstep]) (by rw [hstep]; simp) fun other found hfound => ?_⟩
    rw [hstep] at hfound
    exact Or.inl (erased hfound)

/-- In every run the audit log accounts for the reviews: replayed over the rows they were first
stored under it gives what is stored; it has as many new entries as changes were answered with
success; each was written for a request that showed the tokens it needs; and what is answered
otherwise changes nothing. -/
theorem audit_accounts (hidle : start.server.threads = ∅)
    (hserves : Serves H minus config start exchanges s) : ∃ entries,
      s.database.auditLog = start.database.auditLog ++ entries ∧
      entries.length = (exchanges.countP fun x => x.result H minus config = .respond .ok) ∧
      (∀ id row, s.database.reviews[id]? = some row ↔
        ∃ first, Born H minus config start exchanges id first ∧ row = replay entries id first) ∧
      (∀ entry ∈ entries, ∃ x ∈ exchanges,
        x.Authors H config s.database entry.reviewId entry.detail) ∧
      ∀ x ∈ exchanges, (x.result H minus config).Refuses ∨ x.result H minus config = .pending →
        (x.after H minus config).database = x.before.database := by
  have haccounts : ∃ entries, Accounts H minus config start exchanges s entries := by
    induction hserves with
    | nil =>
      refine ⟨[], by simp, rfl, ?_, by simp, by simp, ?_⟩
      · intro id row
        constructor
        · intro hrow
          exact ⟨row, .initial hrow, rfl⟩
        · rintro ⟨first, hborn, rfl⟩
          cases hborn with
          | initial hrow => exact hrow
          | created hx _ _ => cases hx
      · intro thread write hwrite
        rw [hidle] at hwrite
        simp at hwrite
    | snoc _ henabled ih =>
      obtain ⟨entries, hentries⟩ := ih
      exact hentries.snoc henabled
  obtain ⟨entries, h⟩ := haccounts
  refine ⟨entries, h.log, h.answers, h.rows, h.authors, ?_⟩
  clear h
  induction hserves with
  | nil => simp
  | @snoc exchanges s act _ henabled ih =>
    intro x hx hanswer
    rcases List.mem_append.mp hx with hold | hlast
    · exact ih x hold hanswer
    · obtain rfl := List.mem_singleton.mp hlast
      exact (perform_effect henabled).unchanged hanswer

end Runs

section Example

theorem editExchanges_answered : (editExchanges.countP fun x =>
    x.result sampleDigest ticksBefore pageConfig = .respond .ok) = 1 := by decide +kernel

theorem audit_accounts_edited : ∃ entry, editedDesk.database.auditLog = [entry] ∧
    ∃ x ∈ editExchanges,
      x.Authors sampleDigest pageConfig editedDesk.database entry.reviewId entry.detail := by
  obtain ⟨entries, hlog, hanswers, _, hauthors, _⟩ := audit_accounts rfl edit_serves
  rw [editExchanges_answered] at hanswers
  obtain ⟨entry, rfl⟩ := List.length_eq_one_iff.mp hanswers
  exact ⟨entry, hlog, hauthors entry (List.mem_singleton_self entry)⟩

end Example

end ChatCommons.ReviewPrototype
