import ChatCommons.General.SlidingWindow
import ChatCommons.Review.Exchanges

/-!
The rate limiter over a run: each kind of call has keys of its own, one for each client.
-/

namespace ChatCommons.ReviewPrototype

open Collections

variable {Time : Type} [LinearOrder Time] {H : Digest} {minus : Time → ℕ → Time}
  {config : Config} {start s : ReviewApplication Time} {exchanges : List (Exchange Time)}
  {r : Incoming Time} {thread : ℕ} {address : String}

inductive Limit
  | appSubmit | submit | mutate
deriving DecidableEq

namespace Limit

def label : Limit → String
  | .appSubmit => "app-submit:"
  | .submit => "submit:"
  | .mutate => "mutate:"

def maximum : Limit → ℕ
  | .appSubmit => 60
  | .submit => 30
  | .mutate => 60

def key (limit : Limit) (address : String) : String := limit.label ++ address

theorem key_injective {limit other : Limit} {address client : String}
    (h : limit.key address = other.key client) : limit = other ∧ address = client := by
  have hlist := congrArg String.toList h
  simp only [key, String.toList_append] at hlist
  cases limit <;> cases other
  case appSubmit.appSubmit | submit.submit | mutate.mutate =>
    exact ⟨rfl, String.toList_inj.mp (List.append_cancel_left hlist)⟩
  all_goals
    have hfirst := (List.cons.inj hlist).1
    exact absurd hfirst (by decide)

end Limit

def Incoming.limit (config : Config) (r : Incoming Time) : Option Limit :=
  let path := rstrip r.path
  let mutation := (afterPrefix "/api/reviews/" path).bind fun publicId =>
    if isPublicId publicId && (r.gate config false).isOk then some .mutate else none
  match r.method with
  | .post =>
    if path = "/api/app-feedback".toList then some .appSubmit
    else if path ≠ "/api/reviews".toList then none
    else if (r.gate config false).isOk then some .submit
    else none
  | .patch => mutation
  | .delete => mutation

variable {limit : Limit}

def Result.tooMany : Result → Bool
  | .respond (.error status _) => status = 429
  | _ => false

section Limited

variable {limiter : RateLimiter Time} {key other : String} {maximum period : ℕ} {now : Time}

theorem limited_eq : (limiter.limited minus key maximum period now).1 = decide (maximum ≤
    (SlidingWindow.expire (minus · period) (limiter.events[key]?.getD []) now).length) := by
  unfold RateLimiter.limited SlidingWindow.expire
  dsimp only
  split_ifs with hfull
  · simp [hfull]
  · simp [hfull]

theorem limited_key : (limiter.limited minus key maximum period now).2.events[key]?.getD [] =
    SlidingWindow.next (minus · period) maximum (limiter.events[key]?.getD []) now := by
  unfold RateLimiter.limited SlidingWindow.next SlidingWindow.expire
  dsimp only
  split_ifs with hfull
  · simp
  · simp

theorem limited_other (hother : key ≠ other) :
    (limiter.limited minus key maximum period now).2.events[other]? = limiter.events[other]? := by
  unfold RateLimiter.limited
  dsimp only
  split_ifs
  · rw [getElem?_insert, if_neg hother]
  · rw [getElem?_insert, if_neg hother]

end Limited

section Steps

/-- What a request that comes to the limit does to the limiter, and when it is turned away. -/
inductive Respects (minus : Time → ℕ → Time) (s : ReviewApplication Time) (r : Incoming Time) :
    Option Limit → ReviewApplication Time × Result → Prop
  | free {next : ReviewApplication Time × Result} (h : next.1.limiter = s.limiter) :
    Respects minus s r none next
  | limited {limit : Limit} {next : ReviewApplication Time × Result}
      (h : next.1.limiter =
          (s.limiter.limited minus (limit.key r.address) limit.maximum 3600 r.reading).2 ∧
        next.2.tooMany =
          (s.limiter.limited minus (limit.key r.address) limit.maximum 3600 r.reading).1) :
    Respects minus s r (some limit) next

theorem response_tooMany (message : String) (e : PythonError) :
    (e.response message).tooMany = false := by
  cases e <;> rfl

theorem mutationResponse_tooMany (message : String) (answer : Answer) :
    (reviewerMutationResponse message answer).tooMany = false := by
  cases answer <;> rfl

theorem create_respects (limit : Limit) (tooMany surface failure : String) :
    Respects minus s r (some limit)
      (s.create H minus r (limit.key r.address) limit.maximum tooMany surface failure) := by
  apply Respects.limited
  unfold ReviewApplication.create
  dsimp only
  cases s.limiter.limited minus (limit.key r.address) limit.maximum 3600 r.reading with
  | mk limited limiter =>
    dsimp only
    cases limited with
    | true => exact ⟨rfl, rfl⟩
    | false =>
      rw [if_neg Bool.false_ne_true]
      cases (do validateCreation (← r.readJson) r.placement surface) with
      | error e => exact ⟨rfl, response_tooMany failure e⟩
      | ok given =>
        dsimp only
        cases s.database.createReview H given ("RV-" ++ r.secret) r.newEditToken r.now with
        | none => exact ⟨rfl, rfl⟩
        | some database =>
          dsimp only
          split_ifs
          · exact ⟨rfl, rfl⟩
          · exact ⟨rfl, rfl⟩

theorem reviewerMutation_respects {read : Except PythonError Request} (failure conflict : String)
    (hgate : r.gate config false = .ok ()) :
    Respects minus s r (some .mutate)
      (s.reviewerMutation H minus config r thread read failure conflict) := by
  have hkey : Limit.mutate.key r.address = "mutate:" ++ r.address := rfl
  have hmaximum : Limit.mutate.maximum = 60 := rfl
  apply Respects.limited
  unfold ReviewApplication.reviewerMutation
  rw [hgate]
  dsimp only
  rw [hkey, hmaximum]
  cases s.limiter.limited minus ("mutate:" ++ r.address) 60 3600 r.reading with
  | mk limited limiter =>
    dsimp only
    cases limited with
    | true => exact ⟨rfl, rfl⟩
    | false =>
      rw [if_neg Bool.false_ne_true]
      cases (do s.server.read H (← read) r.now) with
      | error e => exact ⟨rfl, response_tooMany failure e⟩
      | ok outcome =>
        dsimp only
        split_ifs
        · exact ⟨rfl, rfl⟩
        cases outcome with
        | error answer => exact ⟨rfl, mutationResponse_tooMany conflict answer⟩
        | ok write => exact ⟨rfl, rfl⟩

omit [LinearOrder Time] in
theorem ownerUpdate_limiter (digits : List Char) :
    (s.ownerUpdate config r digits).1.limiter = s.limiter := by
  unfold ReviewApplication.ownerUpdate
  split
  · rfl
  · split
    · rfl
    · split_ifs <;> rfl

theorem doPost_respects (hmethod : r.method = .post) :
    Respects minus s r (r.limit config) (s.doPost H minus config r) := by
  unfold Incoming.limit ReviewApplication.doPost
  rw [hmethod]
  dsimp only
  by_cases hfeedback : rstrip r.path = "/api/app-feedback".toList
  · rw [if_pos hfeedback, if_pos hfeedback]
    exact create_respects .appSubmit _ _ _
  rw [if_neg hfeedback, if_neg hfeedback]
  by_cases hother : rstrip r.path ≠ "/api/reviews".toList
  · rw [if_pos hother, if_pos hother]
    exact .free rfl
  rw [if_neg hother, if_neg hother]
  cases hgate : r.gate config false with
  | error result => exact .free rfl
  | ok _ => exact create_respects .submit _ _ _

theorem mutation_respects {read : Except PythonError Request} (failure conflict : String) :
    Respects minus s r (if (r.gate config false).isOk then some .mutate else none)
      (s.reviewerMutation H minus config r thread read failure conflict) := by
  cases hgate : r.gate config false with
  | error result =>
    unfold ReviewApplication.reviewerMutation
    rw [hgate]
    exact .free rfl
  | ok _ => exact reviewerMutation_respects failure conflict hgate

theorem doPatch_respects (hmethod : r.method = .patch) :
    Respects minus s r (r.limit config) (s.doPatch H minus config r thread) := by
  unfold Incoming.limit ReviewApplication.doPatch
  rw [hmethod]
  dsimp only
  cases afterPrefix "/api/reviews/" (rstrip r.path) with
  | none =>
    dsimp only
    cases afterPrefix "/api/admin/reviews/" (rstrip r.path) with
    | none => exact .free rfl
    | some digits =>
      dsimp only
      split_ifs
      · exact .free rfl
      · exact .free (ownerUpdate_limiter digits)
  | some publicId =>
    dsimp only
    rw [Option.bind_some]
    cases isPublicId publicId with
    | false => exact .free rfl
    | true =>
      simp only [Bool.true_and, Bool.not_true, Bool.false_eq_true, if_false]
      exact mutation_respects _ _

theorem doDelete_respects (hmethod : r.method = .delete) :
    Respects minus s r (r.limit config) (s.doDelete H minus config r thread) := by
  unfold Incoming.limit ReviewApplication.doDelete
  rw [hmethod]
  dsimp only
  cases afterPrefix "/api/reviews/" (rstrip r.path) with
  | none => exact .free rfl
  | some publicId =>
    dsimp only
    rw [Option.bind_some]
    cases isPublicId publicId with
    | false => exact .free rfl
    | true =>
      simp only [Bool.true_and, Bool.not_true, Bool.false_eq_true, if_false]
      exact mutation_respects _ _

theorem perform_respects :
    Respects minus s r (r.limit config) (s.perform H minus config (.request thread r)) := by
  unfold ReviewApplication.perform
  dsimp only
  cases hmethod : r.method with
  | post => exact doPost_respects hmethod
  | patch => exact doPatch_respects hmethod
  | delete => exact doDelete_respects hmethod

end Steps

section Runs

/-- The call of the limiter that an exchange makes under a key, and whether it was let through. -/
def Exchange.call (H : Digest) (minus : Time → ℕ → Time) (config : Config) (limit : Limit)
    (address : String) (x : Exchange Time) : Option (SlidingWindow.Call Time) :=
  match x.act with
  | .request _ r =>
    if r.limit config = some limit ∧ r.address = address then
      some ⟨r.reading, !(x.result H minus config).tooMany⟩
    else none
  | _ => none

/-- The exchange was let through under the key, at a reading after `since`. -/
def Exchange.passed (H : Digest) (minus : Time → ℕ → Time) (config : Config) (limit : Limit)
    (address : String) (since : Time) (x : Exchange Time) : Bool :=
  (x.call H minus config limit address).any fun call => call.admitted && since < call.reading

theorem countP_passed (since : Time) :
    exchanges.countP (Exchange.passed H minus config limit address since) =
      (exchanges.filterMap (Exchange.call H minus config limit address)).countP fun call =>
        call.admitted && since < call.reading := by
  rw [List.countP_filterMap]
  apply List.countP_congr
  intro x _
  unfold Exchange.passed
  cases x.call H minus config limit address with
  | none => rfl
  | some call => rfl

variable {x : Exchange Time} {before after : List (Exchange Time)} {call : SlidingWindow.Call Time}

theorem call_some (hcall : x.call H minus config limit address = some call) :
    call = ⟨call.reading, !decide (limit.maximum ≤ (SlidingWindow.expire (minus · 3600)
        (x.before.limiter.events[limit.key address]?.getD []) call.reading).length)⟩ ∧
      (x.after H minus config).limiter.events[limit.key address]?.getD [] =
        SlidingWindow.next (minus · 3600) limit.maximum
          (x.before.limiter.events[limit.key address]?.getD []) call.reading := by
  obtain ⟨s, act⟩ := x
  cases act with
  | write thread => cases hcall
  | fail thread => cases hcall
  | request thread r =>
    have hrespects : Respects minus s r (r.limit config)
        (s.perform H minus config (.request thread r)) := perform_respects
    simp only [Exchange.call] at hcall
    split_ifs at hcall with hkey
    obtain ⟨hlimit, rfl⟩ := hkey
    obtain rfl := Option.some.inj hcall
    rw [hlimit] at hrespects
    cases hrespects with
    | limited hboth =>
      constructor
      · rw [Exchange.result, hboth.2, limited_eq]
      · rw [Exchange.after, hboth.1, limited_key]

theorem call_none (hcall : x.call H minus config limit address = none) :
    (x.after H minus config).limiter.events[limit.key address]? =
      x.before.limiter.events[limit.key address]? := by
  obtain ⟨s, act⟩ := x
  cases act with
  | write thread =>
    unfold Exchange.after ReviewApplication.perform
    dsimp only
    split <;> rfl
  | fail thread =>
    unfold Exchange.after ReviewApplication.perform
    dsimp only
    split <;> rfl
  | request thread r =>
    have hrespects : Respects minus s r (r.limit config)
        (s.perform H minus config (.request thread r)) := perform_respects
    cases hlimit : r.limit config with
    | none =>
      rw [hlimit] at hrespects
      cases hrespects with
      | free hsame => rw [Exchange.after, hsame]
    | some other =>
      rw [hlimit] at hrespects
      cases hrespects with
      | limited hboth =>
        rw [Exchange.after, hboth.1, limited_other]
        intro heq
        obtain ⟨rfl, rfl⟩ := Limit.key_injective heq
        simp [Exchange.call, hlimit] at hcall

theorem Serves.split (hserves : Serves H minus config start exchanges s)
    (h : exchanges = before ++ x :: after) : Serves H minus config start before x.before := by
  induction hserves generalizing after with
  | nil => simp at h
  | @snoc exchanges s act hserves _ ih =>
    cases after using List.reverseRecOn with
    | nil =>
      obtain ⟨rfl, hlast⟩ := List.append_inj' h rfl
      obtain rfl := (List.cons.inj hlast).1
      exact hserves
    | append_singleton after last =>
      rw [← List.cons_append, ← List.append_assoc] at h
      exact ih (List.append_inj' h rfl).1

/-- Under its key the limiter keeps a sliding window of the calls made under the key. -/
theorem serves_runs (hempty : start.limiter.events = ∅)
    (hserves : Serves H minus config start exchanges s) (limit : Limit) (address : String) :
    SlidingWindow.Runs (minus · 3600) limit.maximum
      (exchanges.filterMap (Exchange.call H minus config limit address))
      (s.limiter.events[limit.key address]?.getD []) := by
  induction hserves with
  | nil =>
    rw [hempty]
    simpa using SlidingWindow.Runs.nil
  | @snoc exchanges s act _ _ ih =>
    rw [List.filterMap_append]
    cases hcall : Exchange.call H minus config limit address ⟨s, act⟩ with
    | none =>
      rw [List.filterMap_cons_none hcall, List.filterMap_nil, List.append_nil]
      have hkept := call_none hcall
      rw [Exchange.after] at hkept
      rw [hkept]
      exact ih
    | some call =>
      obtain ⟨hcalled, hkept⟩ := call_some hcall
      rw [Exchange.after] at hkept
      rw [List.filterMap_cons_some hcall, List.filterMap_nil, hkept, hcalled]
      exact ih.snoc call.reading

/-- For each kind of call and each client, whatever the order of the readings, no more calls than
the maximum were let through within the hour before the highest reading; where readings arrive in
order, a call is turned away exactly when the maximum was let through within the hour before it. -/
theorem limits_kept (hminus : Monotone fun now => minus now 3600)
    (hempty : start.limiter.events = ∅) (hserves : Serves H minus config start exchanges s)
    (limit : Limit) (address : String) :
    (∀ hi, (∀ x ∈ exchanges, ∀ call, x.call H minus config limit address = some call →
        call.reading ≤ hi) →
      exchanges.countP (Exchange.passed H minus config limit address (minus hi 3600)) ≤
        limit.maximum) ∧
    ((exchanges.filterMap (Exchange.call H minus config limit address)).Pairwise
        (fun a b => a.reading ≤ b.reading) →
      ∀ before x after, exchanges = before ++ x :: after →
        ∀ call, x.call H minus config limit address = some call →
          (call.admitted = false ↔ limit.maximum ≤ before.countP
            (Exchange.passed H minus config limit address (minus call.reading 3600)))) := by
  constructor
  · intro hi hreadings
    rw [countP_passed]
    apply (serves_runs hempty hserves limit address).bounded hminus
    intro call hcall
    obtain ⟨x, hx, hcall⟩ := List.mem_filterMap.mp hcall
    exact hreadings x hx call hcall
  · intro hsorted before x after hsplit call hcall
    rw [countP_passed]
    rw [hsplit, List.filterMap_append, List.filterMap_cons_some hcall,
      List.pairwise_append] at hsorted
    obtain ⟨hearlier, _, hnow⟩ := hsorted
    have hrefused := (serves_runs hempty (hserves.split hsplit) limit address).refused_iff hminus
      hearlier fun other hother => hnow other hother call List.mem_cons_self
    rw [← hrefused, (call_some hcall).1]
    simp

end Runs

section Example

theorem limits_kept_client : editExchanges.countP (Exchange.passed sampleDigest ticksBefore
    pageConfig .mutate "192.0.2.7" (ticksBefore 100 3600)) ≤ 60 := by
  have hminus : Monotone fun now => ticksBefore now 3600 := by
    intro a b hle
    exact sub_le_sub_right hle _
  apply (limits_kept hminus rfl edit_serves .mutate "192.0.2.7").1 100
  intro x hx call hcall
  rcases List.mem_cons.mp hx with rfl | hx
  · have hcalled : Exchange.call sampleDigest ticksBefore pageConfig .mutate "192.0.2.7"
        ⟨desk, .request 7 editCall⟩ = some ⟨100, true⟩ := by decide +kernel
    rw [hcalled] at hcall
    obtain rfl := Option.some.inj hcall
    exact le_refl _
  · obtain rfl := List.mem_singleton.mp hx
    cases hcall

end Example

end ChatCommons.ReviewPrototype
