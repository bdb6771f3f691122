import ChatCommons.Model.ReviewServer

/-!
A reviewer's call reads the status in one step and writes in a later one.
-/

namespace ChatCommons.ReviewPrototype

open Collections

variable {H : Digest} {start s : Server} {turns before after : List Turn} {turn : Turn}
  {thread id : ℕ} {write : Write}

def Write.reviewId : Write → ℕ
  | .edit id _ _ => id
  | .withdraw id _ _ => id

def Write.Admits : Write → Status → Prop
  | .edit .., status => status = .pending
  | .withdraw .., status => status ∉ [.completed, .rejected, .withdrawn]

def Write.status (id : ℕ) : Write → Option Status
  | .edit .. => none
  | .withdraw reviewId _ _ => if reviewId = id then some .withdrawn else none

namespace Turn

def opens (thread : ℕ) (turn : Turn) : Bool :=
  match turn.action with
  | .read reader _ _ => reader = thread && thread ∉ turn.server.threads
  | _ => false

def statusWritten (id : ℕ) (turn : Turn) : Option Status :=
  match turn.action with
  | .read .. => none
  | .write thread => turn.server.threads[thread]?.bind (Write.status id)
  | .update reviewId payload _ =>
    match validateUpdate payload with
    | .ok (status, _) => if reviewId = id then some status else none
    | .error _ => none

end Turn

/-- The status last written to the review since the thread's reading step, if any was. -/
def writtenSince (thread id : ℕ) (history : List Turn) : Option Status :=
  history.foldl (fun last turn =>
    if turn.opens thread then none else (turn.statusWritten id).or last) none

theorem writtenSince_snoc (thread id : ℕ) (history : List Turn) (turn : Turn) :
    writtenSince thread id (history ++ [turn]) = if turn.opens thread then none else
      (turn.statusWritten id).or (writtenSince thread id history) := by
  rw [writtenSince, List.foldl_append, List.foldl_cons, List.foldl_nil]
  rfl

section Steps

theorem updateRow_self (db : Database) (id : ℕ) (change : Review → Review) :
    (db.updateRow id change)[id]? = db.reviews[id]?.map change := by
  unfold Database.updateRow
  cases hrow : db.reviews[id]? with
  | none => rw [hrow]; rfl
  | some row => rw [getElem?_insert, if_pos rfl]; rfl

theorem updateRow_other (db : Database) {id other : ℕ} (hne : id ≠ other)
    (change : Review → Review) : (db.updateRow id change)[other]? = db.reviews[other]? := by
  unfold Database.updateRow
  cases db.reviews[id]? with
  | none => rfl
  | some row => rw [getElem?_insert, if_neg hne]

theorem updateRow_status (db : Database) (reviewId id : ℕ) (change : Review → Review)
    (written : Option Status)
    (hchange : ∀ row, (change row).status = written.getD row.status) :
    (db.updateRow reviewId change)[id]?.map Review.status =
      db.reviews[id]?.map fun row =>
        (if reviewId = id then written else none).getD row.status := by
  by_cases heq : reviewId = id
  · subst heq
    rw [updateRow_self, Option.map_map, if_pos rfl]
    cases db.reviews[reviewId]? with
    | none => rfl
    | some row => exact congrArg some (hchange row)
  · rw [updateRow_other db heq, if_neg heq]
    rfl

theorem commit_status (db : Database) (write : Write) (id : ℕ) :
    (db.commit write).reviews[id]?.map Review.status =
      db.reviews[id]?.map fun row => (write.status id).getD row.status := by
  cases write with
  | edit reviewId edit now =>
    have h := updateRow_status db reviewId id (fun row => { row with
      category := edit.category
      priority := edit.priority
      message := edit.message
      updatedAt := now }) none fun _ => rfl
    rw [ite_self] at h
    exact h
  | withdraw reviewId previousStatus now =>
    exact updateRow_status db reviewId id (fun row => { row with
      status := .withdrawn
      updatedAt := now }) (some .withdrawn) fun _ => rfl

/-- A turn leaves every review in place and changes its status only by what it writes. -/
theorem status_next (s : Server) (action : Action) (id : ℕ) :
    (s.perform H action).database.reviews[id]?.map Review.status =
      s.database.reviews[id]?.map fun row =>
        ((⟨s, action⟩ : Turn).statusWritten id).getD row.status := by
  cases action with
  | read thread request now =>
    have hsame : (s.perform H (.read thread request now)).database = s.database := by
      unfold Server.perform
      dsimp only
      split_ifs
      · rfl
      · split <;> rfl
    rw [hsame]
    rfl
  | write thread =>
    unfold Server.perform Turn.statusWritten
    dsimp only
    cases s.threads[thread]? with
    | none => rfl
    | some write => exact commit_status s.database write id
  | update reviewId payload now =>
    unfold Server.perform Turn.statusWritten Database.updateReview
    dsimp only
    cases validateUpdate payload with
    | error e => rfl
    | ok change =>
      obtain ⟨status, reply⟩ := change
      by_cases hmem : reviewId ∈ s.database.reviews
      · have h := updateRow_status s.database reviewId id (fun row => { row with
          status, adminReply := reply, updatedAt := now }) (some status) fun _ => rfl
        simpa [hmem, bind, Except.bind, pure, Except.pure] using h
      · by_cases heq : reviewId = id
        · subst heq
          simp [hmem, bind, Except.bind, pure, Except.pure]
        · simp [hmem, heq, bind, Except.bind, pure, Except.pure]

theorem select_row {db : Database} {publicId : String} {row : Review}
    (h : db.select publicId = some (id, row)) : db.reviews[id]? = some row :=
  mem_toList.mp (List.mem_of_find?_eq_some h)

theorem editReview_admits {db : Database} {publicId editToken now : String} {payload : Payload}
    (h : db.editReview H publicId payload editToken now = .ok (.ok write)) :
    ∃ row, db.reviews[write.reviewId]? = some row ∧ write.Admits row.status := by
  unfold Database.editReview at h
  cases hedit : validateEdit payload with
  | error e =>
    rw [hedit] at h
    cases h
  | ok edit =>
    rw [hedit] at h
    replace h := Except.ok.inj h
    cases hselect : db.select publicId with
    | none =>
      rw [hselect] at h
      cases h
    | some found =>
      obtain ⟨id, row⟩ := found
      rw [hselect] at h
      dsimp only at h
      split_ifs at h with htoken hstatus
      cases h
      exact ⟨row, select_row hselect, not_not.mp hstatus⟩

theorem withdrawReview_admits {db : Database} {publicId editToken now : String}
    (h : db.withdrawReview H publicId editToken now = .ok write) :
    ∃ row, db.reviews[write.reviewId]? = some row ∧ write.Admits row.status := by
  unfold Database.withdrawReview at h
  cases hselect : db.select publicId with
  | none =>
    rw [hselect] at h
    cases h
  | some found =>
    obtain ⟨id, row⟩ := found
    rw [hselect] at h
    dsimp only at h
    split_ifs at h with htoken hstatus
    cases h
    exact ⟨row, select_row hselect, hstatus⟩

theorem read_admits {request : Request} {now : String}
    (h : s.read H request now = .ok (.ok write)) :
    ∃ row, s.database.reviews[write.reviewId]? = some row ∧ write.Admits row.status := by
  cases request with
  | edit publicId payload editToken => exact editReview_admits h
  | withdraw publicId editToken => exact withdrawReview_admits (Except.ok.inj h)

theorem threads_next {action : Action}
    (h : (s.perform H action).threads[thread]? = some write) :
    s.threads[thread]? = some write ∨ (⟨s, action⟩ : Turn).opens thread = true ∧
      (s.perform H action).database = s.database ∧
      ∃ row, s.database.reviews[write.reviewId]? = some row ∧ write.Admits row.status := by
  cases action with
  | read reader request now =>
    unfold Server.perform at h ⊢
    dsimp only at h ⊢
    by_cases hbusy : reader ∈ s.threads
    · rw [if_pos hbusy] at h
      exact Or.inl h
    · rw [if_neg hbusy] at h ⊢
      cases hread : s.read H request now with
      | error e =>
        rw [hread] at h
        exact Or.inl h
      | ok answer =>
        rw [hread] at h
        cases answer with
        | error a => exact Or.inl h
        | ok found =>
          dsimp only at h ⊢
          rw [getElem?_insert] at h
          split_ifs at h with heq
          · cases h
            refine Or.inr ⟨?_, rfl, read_admits hread⟩
            simp [Turn.opens, heq, heq ▸ hbusy]
          · exact Or.inl h
  | write writer =>
    unfold Server.perform at h
    dsimp only at h
    cases hwrite : s.threads[writer]? with
    | none =>
      rw [hwrite] at h
      exact Or.inl h
    | some found =>
      rw [hwrite] at h
      dsimp only at h
      rw [getElem?_erase] at h
      split_ifs at h
      exact Or.inl h
  | update reviewId payload now =>
    unfold Server.perform at h
    dsimp only at h
    cases hupdate : s.database.updateReview reviewId payload now with
    | error e =>
      rw [hupdate] at h
      exact Or.inl h
    | ok result =>
      rw [hupdate] at h
      exact Or.inl h

end Steps

section Runs

/-- The review of each transaction to come has the status last written since the reading step,
and the one that step let pass if none was. -/
def Tracked (history : List Turn) (s : Server) : Prop :=
  ∀ (thread : ℕ) (write : Write), s.threads[thread]? = some write →
    ∃ row, s.database.reviews[write.reviewId]? = some row ∧
      match writtenSince thread write.reviewId history with
      | none => write.Admits row.status
      | some status => row.status = status

theorem Tracked.snoc (h : Tracked turns s) (action : Action) :
    Tracked (turns ++ [⟨s, action⟩]) (s.perform H action) := by
  intro thread write hwrite
  obtain hbefore | ⟨hopens, hsame, row, hrow, hadmits⟩ := threads_next hwrite
  · obtain ⟨row, hrow, hstatus⟩ := h thread write hbefore
    have hclosed : (⟨s, action⟩ : Turn).opens thread = false := by
      cases action with
      | read reader request now =>
        by_cases heq : reader = thread
        · simp [Turn.opens, heq, mem_of_getElem? hbefore]
        · simp [Turn.opens, heq]
      | write _ => rfl
      | update _ _ _ => rfl
    have hnext := status_next (H := H) s action write.reviewId
    rw [hrow, Option.map_some] at hnext
    obtain ⟨row', hrow', hstatus'⟩ := Option.map_eq_some_iff.mp hnext
    refine ⟨row', hrow', ?_⟩
    rw [writtenSince_snoc, hclosed, if_neg (by simp), hstatus']
    cases (⟨s, action⟩ : Turn).statusWritten write.reviewId with
    | none => exact hstatus
    | some status => rfl
  · refine ⟨row, by rw [hsame]; exact hrow, ?_⟩
    rw [writtenSince_snoc, if_pos hopens]
    exact hadmits

theorem Run.tracked (hrun : Run H start turns s) (hstart : start.threads = ∅) :
    Tracked turns s := by
  induction hrun with
  | nil =>
    intro thread write hwrite
    rw [hstart] at hwrite
    simp at hwrite
  | snoc _ action ih => exact ih.snoc action

theorem Run.split (hrun : Run H start turns s) (h : turns = before ++ turn :: after) :
    Run H start before turn.server := by
  induction hrun generalizing after with
  | nil => simp at h
  | @snoc turns s hrun action ih =>
    cases after using List.reverseRecOn with
    | nil =>
      obtain ⟨rfl, hlast⟩ := List.append_inj' h rfl
      obtain rfl := (List.cons.inj hlast).1
      exact hrun
    | append_singleton after last =>
      rw [← List.cons_append, ← List.append_assoc] at h
      exact ih (List.append_inj' h rfl).1

def Review.edited (row : Review) : Edit := ⟨row.category, row.priority, row.message⟩

/-- The turn, if it is the transaction of an edit, changes the review only while it is pending,
and if of a withdrawal, replaces no status that ends the review. -/
def Turn.Respects (H : Digest) (turn : Turn) : Prop :=
  ∀ (thread : ℕ) (write : Write) (row row' : Review), turn.action = .write thread →
    turn.server.threads[thread]? = some write →
    turn.server.database.reviews[write.reviewId]? = some row →
    (turn.next H).database.reviews[write.reviewId]? = some row' →
    match write with
    | .edit .. => row'.edited ≠ row.edited → row.status = .pending
    | .withdraw .. => row.status ≠ .completed ∧ row.status ≠ .rejected

/-- Since the reading step of the transaction, the status last written to its review, if any
was, is one that the call may still change, or the edit repeats what the review says. -/
def Turn.Undisturbed (history : List Turn) (turn : Turn) : Prop :=
  ∀ (thread : ℕ) (write : Write) (row : Review), turn.action = .write thread →
    turn.server.threads[thread]? = some write →
    turn.server.database.reviews[write.reviewId]? = some row →
    ∀ status, writtenSince thread write.reviewId history = some status →
    match write with
    | .edit _ edit _ => edit ≠ row.edited → status = .pending
    | .withdraw .. => status ≠ .completed ∧ status ≠ .rejected

theorem next_edited (H : Digest) (turn : Turn) {edit : Edit} {now : String} {row : Review}
    (haction : turn.action = .write thread)
    (hwrite : turn.server.threads[thread]? = some (.edit id edit now))
    (hrow : turn.server.database.reviews[id]? = some row) :
    ∃ row', (turn.next H).database.reviews[id]? = some row' ∧ row'.edited = edit := by
  refine ⟨{ row with
    category := edit.category
    priority := edit.priority
    message := edit.message
    updatedAt := now }, ?_, rfl⟩
  rw [Turn.next, haction, Server.perform, hwrite]
  exact (updateRow_self _ _ _).trans (congrArg (Option.map _) hrow)

theorem respects_iff (h : Tracked before turn.server) :
    turn.Respects H ↔ turn.Undisturbed before := by
  constructor
  · intro hrespects thread write row haction hwrite hrow status hlast
    obtain ⟨row₀, hrow₀, hstatus⟩ := h thread write hwrite
    obtain rfl := Option.some.inj (hrow₀.symm.trans hrow)
    rw [hlast] at hstatus
    cases write with
    | edit id edit now =>
      intro hne
      obtain ⟨row', hrow', hedited⟩ := next_edited H turn haction hwrite hrow
      rw [← hstatus]
      exact hrespects thread _ _ row' haction hwrite hrow hrow' (hedited.symm ▸ hne)
    | withdraw id previousStatus now =>
      have hnext := status_next (H := H) turn.server turn.action id
      have hfound : turn.server.database.reviews[id]? = some row₀ := hrow
      rw [hfound, Option.map_some] at hnext
      obtain ⟨row', hrow', _⟩ := Option.map_eq_some_iff.mp hnext
      rw [← hstatus]
      exact hrespects thread _ _ row' haction hwrite hrow hrow'
  · intro hundisturbed thread write row row' haction hwrite hrow hrow'
    obtain ⟨row₀, hrow₀, hstatus⟩ := h thread write hwrite
    obtain rfl := Option.some.inj (hrow₀.symm.trans hrow)
    have hlast := hundisturbed thread write _ haction hwrite hrow
    cases hwritten : writtenSince thread write.reviewId before with
    | none =>
      rw [hwritten] at hstatus
      cases write with
      | edit id edit now => exact fun _ => hstatus
      | withdraw id previousStatus now =>
        simp only [Write.Admits, List.mem_cons, not_or] at hstatus
        exact ⟨hstatus.1, hstatus.2.1⟩
    | some status =>
      rw [hwritten] at hstatus
      have hstill := hlast status hwritten
      cases write with
      | edit id edit now =>
        intro hne
        obtain ⟨row₁, hrow₁, hedited⟩ := next_edited H turn haction hwrite hrow
        obtain rfl := Option.some.inj (hrow'.symm.trans hrow₁)
        rw [hstatus]
        exact hstill (hedited ▸ hne)
      | withdraw id previousStatus now =>
        rw [hstatus]
        exact hstill

/-- The calls of reviewers respect the status in a run exactly when none of them is overtaken. -/
theorem respects_run_iff (hrun : Run H start turns s) (hstart : start.threads = ∅) :
    (∀ turn ∈ turns, turn.Respects H) ↔
      ∀ before turn after, turns = before ++ turn :: after → turn.Undisturbed before := by
  constructor
  · intro h before turn after hsplit
    exact (respects_iff ((hrun.split hsplit).tracked hstart)).mp (h turn (by simp [hsplit]))
  · intro h turn hturn
    obtain ⟨before, after, hsplit⟩ := List.append_of_mem hturn
    exact (respects_iff ((hrun.split hsplit).tracked hstart)).mpr (h before turn after hsplit)

end Runs

section Overtaken

def editToken : String := "kYw3Zt0bN5cQv1Jr8LmXs2HdPgAeTfUoWi4Ry7B9zKa"

def tokenHash : String := "35869f833b422a3bbb821404e5ffe52974e14416a78077ff75cfcdeb16f45689"

def sampleDigest : Digest := fun _ => tokenHash

def pendingReview : Review where
  publicId := "RV-q3mZ0aWb9cLx"
  category := "copy"
  priority := "low"
  message := "Typo on the start page"
  status := .pending
  adminReply := ""
  updatedAt := "2026-03-01T10:00:00+00:00"
  editTokenHash := tokenHash

def pendingServer : Server where
  database := { reviews := (∅ : BTreeMap ℕ Review).insert 1 pendingReview }

def readEdit : Action :=
  .read 7 (.edit pendingReview.publicId (some ((((∅ : BTreeMap String Json).insert
    "category" (.text "feature")).insert "priority" (.text "high")).insert
    "message" (.text "Add a dark theme"))) editToken) "2026-03-01T10:05:00+00:00"

def readWithdrawal : Action :=
  .read 7 (.withdraw pendingReview.publicId editToken) "2026-03-01T10:05:00+00:00"

def completeReview : Action :=
  .update 1 (some (((∅ : BTreeMap String Json).insert "status" (.text "completed")).insert
    "adminReply" (.text "Fixed"))) "2026-03-01T10:05:01+00:00"

def overtakenServer (read : Action) : Server :=
  (pendingServer.perform sampleDigest read).perform sampleDigest completeReview

def overtakenTurns (read : Action) : List Turn :=
  [⟨pendingServer, read⟩, ⟨pendingServer.perform sampleDigest read, completeReview⟩,
    ⟨overtakenServer read, .write 7⟩]

theorem overtaken_run (read : Action) :
    Run sampleDigest pendingServer (overtakenTurns read)
      ((overtakenServer read).perform sampleDigest (.write 7)) :=
  ((Run.nil.snoc read).snoc completeReview).snoc (.write 7)

theorem overtaken_facts :
    (overtakenServer readEdit).threads[7]? =
        some (.edit 1 ⟨"feature", "high", "Add a dark theme"⟩ "2026-03-01T10:05:00+00:00") ∧
      ((overtakenServer readEdit).database.reviews[1]?.map fun row => (row.status, row.edited)) =
        some (.completed, pendingReview.edited) ∧
      (overtakenServer readWithdrawal).threads[7]? =
        some (.withdraw 1 .pending "2026-03-01T10:05:00+00:00") ∧
      (overtakenServer readWithdrawal).database.reviews[1]?.map Review.status =
        some .completed := by
  decide +kernel

/-- The owner completes the review between the two steps of an edit, and of a withdrawal. -/
theorem completed_overtaken :
    (∃ s, Run sampleDigest pendingServer (overtakenTurns readEdit) s ∧
      ∃ turn ∈ overtakenTurns readEdit, ¬turn.Respects sampleDigest) ∧
    ∃ s, Run sampleDigest pendingServer (overtakenTurns readWithdrawal) s ∧
      ∃ turn ∈ overtakenTurns readWithdrawal, ¬turn.Respects sampleDigest := by
  obtain ⟨hedit, hedited, hwithdrawal, hcompleted⟩ := overtaken_facts
  refine ⟨⟨_, overtaken_run readEdit, ⟨overtakenServer readEdit, .write 7⟩,
    by simp [overtakenTurns], fun h => ?_⟩, _, overtaken_run readWithdrawal,
    ⟨overtakenServer readWithdrawal, .write 7⟩, by simp [overtakenTurns], fun h => ?_⟩
  · obtain ⟨row, hrow, hfacts⟩ := Option.map_eq_some_iff.mp hedited
    obtain ⟨hstatus, hsame⟩ := Prod.mk.inj hfacts
    obtain ⟨row', hrow', hnew⟩ := next_edited sampleDigest
      ⟨overtakenServer readEdit, .write 7⟩ rfl hedit hrow
    have hpending := h 7 _ row row' rfl hedit hrow hrow'
    have hne : row'.edited ≠ row.edited := by
      rw [hnew, hsame]
      decide
    exact absurd (hstatus.symm.trans (hpending hne)) (by decide)
  · obtain ⟨row, hrow, hstatus⟩ := Option.map_eq_some_iff.mp hcompleted
    have hnext := status_next (H := sampleDigest) (overtakenServer readWithdrawal) (.write 7) 1
    rw [hrow, Option.map_some] at hnext
    obtain ⟨row', hrow', _⟩ := Option.map_eq_some_iff.mp hnext
    exact (h 7 _ row row' rfl hwithdrawal hrow hrow').1 hstatus

theorem respects_run_iff_overtaken :
    (∀ turn ∈ overtakenTurns readWithdrawal, turn.Respects sampleDigest) ↔
      ∀ before turn after, overtakenTurns readWithdrawal = before ++ turn :: after →
        turn.Undisturbed before :=
  respects_run_iff (overtaken_run readWithdrawal) rfl

end Overtaken

end ChatCommons.ReviewPrototype
