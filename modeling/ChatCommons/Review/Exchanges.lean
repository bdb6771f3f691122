import ChatCommons.Model.ReviewHandler
import ChatCommons.Review.Overtaking

/-!
All that the handling of a request, a transaction or its failure can do.
-/

namespace ChatCommons.ReviewPrototype

open Collections

variable {Time : Type} [LinearOrder Time] {H : Digest} {minus : Time → ℕ → Time}
  {config : Config} {s : ReviewApplication Time} {r : Incoming Time} {thread : ℕ}
  {digits publicId : List Char}

def Result.Refuses : Result → Prop
  | .respond (.error _ _) => True
  | .raised => True
  | _ => False

namespace Incoming

/-- The request shows the token and comes from the page. -/
def Shown (config : Config) (r : Incoming Time) (owner : Bool) : Prop :=
  header (if owner then r.ownerHeader else r.reviewHeader) =
      (if owner then config.ownerToken else config.reviewToken) ∧
    r.origin.getD "" = config.allowedOrigin

theorem authorized_token {owner : Bool} (h : r.authorized config owner = .ok true) :
    header (if owner then r.ownerHeader else r.reviewHeader) =
      if owner then config.ownerToken else config.reviewToken := by
  unfold authorized at h
  generalize header (if owner then r.ownerHeader else r.reviewHeader) = supplied at h ⊢
  generalize (if owner then config.ownerToken else config.reviewToken) = token at h ⊢
  dsimp only at h
  by_cases hshort : supplied.length < 40
  · rw [if_pos hshort] at h
    cases h
  rw [if_neg hshort] at h
  by_cases hascii : (!isAscii supplied) = true
  · rw [if_pos hascii] at h
    cases h
  · rw [if_neg hascii] at h
    exact eq_of_beq (Except.ok.inj h)

theorem gate_cases (config : Config) (r : Incoming Time) (owner : Bool) :
    r.Shown config owner ∧ r.gate config owner = .ok () ∨
      ∃ result : Result, result.Refuses ∧ r.gate config owner = .error result := by
  simp only [gate, requireAuthorized, requireOrigin]
  cases hauthorized : r.authorized config owner with
  | error e => exact Or.inr ⟨.raised, trivial, rfl⟩
  | ok shown =>
    cases shown with
    | false =>
      refine Or.inr ⟨_, ?_, rfl⟩
      trivial
    | true =>
      by_cases horigin : r.origin.getD "" = config.allowedOrigin
      · refine Or.inl ⟨⟨authorized_token hauthorized, horigin⟩, ?_⟩
        simp only [horigin, if_true]
        rfl
      · refine Or.inr ⟨_, ?_, by simp only [horigin, if_false]; rfl⟩
        trivial

inductive Asks (r : Incoming Time) : Request → Prop
  | edit {publicId : List Char} {payload : Payload}
      (hpath : afterPrefix "/api/reviews/" (rstrip r.path) = some publicId)
      (hjson : r.readJson = .ok payload) :
    Asks r (.edit (String.ofList publicId) payload (header r.editHeader))
  | withdraw {publicId : List Char}
      (hpath : afterPrefix "/api/reviews/" (rstrip r.path) = some publicId) :
    Asks r (.withdraw (String.ofList publicId) (header r.editHeader))

end Incoming

theorem response_refuses (message : String) (e : PythonError) : (e.response message).Refuses := by
  cases e <;> trivial

theorem mutationResponse_refuses (message : String) (answer : Answer) :
    (reviewerMutationResponse message answer).Refuses := by
  cases answer <;> trivial

/-- What becomes of the database and the waiting transactions, whatever the limiter does. -/
inductive Effect (H : Digest) (config : Config) (server : Server) :
    Act Time → Server → Result → Prop
  | refused {act : Act Time} {result : Result} (hrefuses : result.Refuses) :
    Effect H config server act server result
  | created {thread : ℕ} {r : Incoming Time} {given : Edit} {database : Database}
      (hshown : r.Shown config false ∨ rstrip r.path = "/api/app-feedback".toList)
      (hcreate : server.database.createReview H given ("RV-" ++ r.secret) r.newEditToken r.now =
        some database) :
    Effect H config server (.request thread r) { server with database }
      (.respond (.created ("RV-" ++ r.secret) r.newEditToken r.now))
  | updated {thread : ℕ} {r : Incoming Time} {digits : List Char} {id : ℕ} {payload : Payload}
      {database : Database} (hshown : r.Shown config true)
      (hpath : afterPrefix "/api/admin/reviews/" (rstrip r.path) = some digits)
      (hid : parseInt digits = .ok id) (hjson : r.readJson = .ok payload)
      (hupdate : server.database.updateReview id payload r.now = .ok (database, true)) :
    Effect H config server (.request thread r) { server with database } (.respond .ok)
  | opened {thread : ℕ} {r : Incoming Time} {request : Request} {write : Write}
      (hshown : r.Shown config false) (hasks : r.Asks request)
      (hread : server.read H request r.now = .ok (.ok write)) :
    Effect H config server (.request thread r)
      { server with threads := server.threads.insert thread write } .pending
  | committed {thread : ℕ} {write : Write} (hwrite : server.threads[thread]? = some write) :
    Effect H config server (.write thread)
      ⟨server.database.commit write, server.threads.erase thread⟩ (.respond .ok)
  | dropped {thread : ℕ} {write : Write} :
    Effect H config server (.fail thread)
      { server with threads := server.threads.erase thread }
      (.respond (.error 500 write.failure))

section Creating

theorem create_effect (key : String) (maximum : ℕ) (tooMany surface failure : String)
    (hshown : r.Shown config false ∨ rstrip r.path = "/api/app-feedback".toList) :
    Effect H config s.server (.request thread r)
      (s.create H minus r key maximum tooMany surface failure).1.server
      (s.create H minus r key maximum tooMany surface failure).2 := by
  unfold ReviewApplication.create
  cases s.limiter.limited minus key maximum 3600 r.reading with
  | mk limited limiter =>
    dsimp only
    by_cases hlimited : limited = true
    · rw [if_pos hlimited]
      exact .refused trivial
    rw [if_neg hlimited]
    cases hgiven : (do validateCreation (← r.readJson) r.placement surface) with
    | error e => exact .refused (response_refuses failure e)
    | ok given =>
      dsimp only
      cases hcreate : s.database.createReview H given ("RV-" ++ r.secret) r.newEditToken r.now with
      | none => exact .refused trivial
      | some database =>
        dsimp only
        split_ifs
        · exact .refused trivial
        · exact .created hshown hcreate

theorem doPost_effect :
    Effect H config s.server (.request thread r) (s.doPost H minus config r).1.server
      (s.doPost H minus config r).2 := by
  unfold ReviewApplication.doPost
  dsimp only
  by_cases hfeedback : rstrip r.path = "/api/app-feedback".toList
  · rw [if_pos hfeedback]
    exact create_effect _ _ _ _ _ (Or.inr hfeedback)
  rw [if_neg hfeedback]
  by_cases hother : rstrip r.path ≠ "/api/reviews".toList
  · rw [if_pos hother]
    exact .refused trivial
  rw [if_neg hother]
  obtain ⟨hshown, hgate⟩ | ⟨result, hrefuses, hgate⟩ := r.gate_cases config false
  · rw [hgate]
    exact create_effect _ _ _ _ _ (Or.inl hshown)
  · rw [hgate]
    exact .refused hrefuses

end Creating

section Changing

theorem reviewerMutation_effect {read : Except PythonError Request} (failure conflict : String)
    (hasks : ∀ request, read = .ok request → r.Asks request) :
    Effect H config s.server (.request thread r)
      (s.reviewerMutation H minus config r thread read failure conflict).1.server
      (s.reviewerMutation H minus config r thread read failure conflict).2 := by
  unfold ReviewApplication.reviewerMutation
  obtain ⟨hshown, hgate⟩ | ⟨result, hrefuses, hgate⟩ := r.gate_cases config false
  · rw [hgate]
    dsimp only
    cases s.limiter.limited minus ("mutate:" ++ r.address) 60 3600 r.reading with
    | mk limited limiter =>
      dsimp only
      by_cases hlimited : limited = true
      · rw [if_pos hlimited]
        exact .refused trivial
      rw [if_neg hlimited]
      cases hread : read with
      | error e => exact .refused (response_refuses failure e)
      | ok request =>
        cases houtcome : s.server.read H request r.now with
        | error e =>
          simp only [bind, Except.bind, houtcome]
          exact .refused (response_refuses failure e)
        | ok outcome =>
          simp only [bind, Except.bind, houtcome]
          by_cases hdown : (!r.available) = true
          · rw [if_pos hdown]
            exact .refused trivial
          rw [if_neg hdown]
          cases outcome with
          | error answer => exact .refused (mutationResponse_refuses conflict answer)
          | ok write => exact .opened hshown (hasks request hread) houtcome
  · rw [hgate]
    exact .refused hrefuses

theorem ownerUpdate_effect
    (hpath : afterPrefix "/api/admin/reviews/" (rstrip r.path) = some digits) :
    Effect H config s.server (.request thread r) (s.ownerUpdate config r digits).1.server
      (s.ownerUpdate config r digits).2 := by
  unfold ReviewApplication.ownerUpdate
  obtain ⟨hshown, hgate⟩ | ⟨result, hrefuses, hgate⟩ := r.gate_cases config true
  · rw [hgate]
    dsimp only
    cases hid : parseInt digits with
    | error e => exact .refused (response_refuses _ e)
    | ok id =>
      cases hjson : r.readJson with
      | error e => exact .refused (response_refuses _ e)
      | ok payload =>
        cases hupdate : s.database.updateReview id payload r.now with
        | error e =>
          simp only [bind, Except.bind, hupdate]
          exact .refused (response_refuses _ e)
        | ok updated =>
          obtain ⟨database, found⟩ := updated
          simp only [bind, Except.bind, hupdate, pure, Except.pure]
          split_ifs with hfails hmissing
          · exact .refused trivial
          · exact .refused trivial
          · cases found with
            | false => exact absurd rfl hmissing
            | true => exact .updated hshown hpath hid hjson hupdate
  · rw [hgate]
    exact .refused hrefuses

theorem doPatch_effect :
    Effect H config s.server (.request thread r) (s.doPatch H minus config r thread).1.server
      (s.doPatch H minus config r thread).2 := by
  unfold ReviewApplication.doPatch
  dsimp only
  cases hpath : afterPrefix "/api/reviews/" (rstrip r.path) with
  | some publicId =>
    dsimp only
    split_ifs
    · exact .refused trivial
    · apply reviewerMutation_effect
      intro request hrequest
      cases hjson : r.readJson with
      | error e =>
        rw [hjson] at hrequest
        cases hrequest
      | ok payload =>
        rw [hjson] at hrequest
        cases hrequest
        exact .edit hpath hjson
  | none =>
    dsimp only
    cases hdigits : afterPrefix "/api/admin/reviews/" (rstrip r.path) with
    | none => exact .refused trivial
    | some digits =>
      dsimp only
      split_ifs
      · exact .refused trivial
      · exact ownerUpdate_effect hdigits

theorem doDelete_effect :
    Effect H config s.server (.request thread r) (s.doDelete H minus config r thread).1.server
      (s.doDelete H minus config r thread).2 := by
  unfold ReviewApplication.doDelete
  cases hpath : afterPrefix "/api/reviews/" (rstrip r.path) with
  | none => exact .refused trivial
  | some publicId =>
    dsimp only
    split_ifs
    · exact .refused trivial
    · apply reviewerMutation_effect
      intro request hrequest
      cases hrequest
      exact .withdraw hpath

end Changing

theorem perform_effect {act : Act Time} (henabled : s.Enabled act) :
    Effect H config s.server act (s.perform H minus config act).1.server
      (s.perform H minus config act).2 := by
  cases act with
  | request thread r =>
    unfold ReviewApplication.perform
    dsimp only
    cases r.method with
    | post => exact doPost_effect
    | patch => exact doPatch_effect
    | delete => exact doDelete_effect
  | write thread =>
    obtain ⟨write, hwrite⟩ := mem_iff.mp henabled
    simp only [ReviewApplication.perform, hwrite]
    exact .committed hwrite
  | fail thread =>
    obtain ⟨write, hwrite⟩ := mem_iff.mp henabled
    simp only [ReviewApplication.perform, hwrite]
    exact .dropped

theorem Effect.unchanged {server later : Server} {act : Act Time} {result : Result}
    (h : Effect H config server act later result)
    (hanswer : result.Refuses ∨ result = .pending) : later.database = server.database := by
  cases h with
  | refused _ => rfl
  | opened _ _ _ => rfl
  | dropped => rfl
  | created _ _ =>
    rcases hanswer with hrefuses | hpending
    · exact hrefuses.elim
    · cases hpending
  | updated _ _ _ _ _ =>
    rcases hanswer with hrefuses | hpending
    · exact hrefuses.elim
    · cases hpending
  | committed _ =>
    rcases hanswer with hrefuses | hpending
    · exact hrefuses.elim
    · cases hpending

section Example

def pageConfig : Config where
  reviewToken := "mG2vQx7LrT0bYc5NsJ8dWkP4hZa9EfUo1RiVt6Xy3B"
  ownerToken := "Hq8sLw3ZcV6nXe1KtB5yRj0MfGa7UdPo2TiCz9Wv4E"
  allowedOrigin := "https://review.example"
  reviewTokenLong := by decide +kernel
  ownerTokenLong := by decide +kernel
  ascii := by decide +kernel
  independent := by decide +kernel

def ticksBefore : ℤ → ℕ → ℤ := fun now period => now - period

def editCall : Incoming ℤ where
  method := .patch
  path := "/api/reviews/RV-q3mZ0aWb9cLx".toList
  address := "192.0.2.7"
  reviewHeader := some pageConfig.reviewToken
  editHeader := some editToken
  origin := some pageConfig.allowedOrigin
  contentLength := some 72
  contentType := "application/json"
  body := .json (some ((((∅ : BTreeMap String Json).insert "category" (.text "feature")).insert
    "priority" (.text "high")).insert "message" (.text "Add a dark theme")))
  reading := 100
  now := "2026-03-01T10:05:00+00:00"

def desk : ReviewApplication ℤ := { server := pendingServer }

def openedDesk : ReviewApplication ℤ :=
  (desk.perform sampleDigest ticksBefore pageConfig (.request 7 editCall)).1

def editedDesk : ReviewApplication ℤ :=
  (openedDesk.perform sampleDigest ticksBefore pageConfig (.write 7)).1

def editExchanges : List (Exchange ℤ) := [⟨desk, .request 7 editCall⟩, ⟨openedDesk, .write 7⟩]

theorem openedDesk_waits : openedDesk.server.threads[7]? =
    some (.edit 1 ⟨"feature", "high", "Add a dark theme"⟩ "2026-03-01T10:05:00+00:00") := by
  decide +kernel

theorem edit_serves : Serves sampleDigest ticksBefore pageConfig desk editExchanges editedDesk := by
  have hidle : desk.Enabled (.request 7 editCall) := not_mem_map.mpr rfl
  have hwaits : openedDesk.Enabled (.write 7) := mem_of_getElem? openedDesk_waits
  exact .snoc (.snoc .nil hidle) hwaits

end Example

end ChatCommons.ReviewPrototype
