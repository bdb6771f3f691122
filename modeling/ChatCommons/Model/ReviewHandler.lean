import ChatCommons.Model.ReviewServer

/-!
The handler of the review server: what a request has to show, the rate limiter, and the calls of
the database behind them.
-/

namespace ChatCommons.ReviewPrototype

open Collections

def MAX_BODY_BYTES : ℤ := 2 * 1024 * 1024

/-- `hmac.compare_digest` takes texts of ASCII characters only. -/
def isAscii (text : String) : Bool := text.toList.all fun c => c.toNat < 128

/-- A configuration that `Config.validate` lets pass. -/
structure Config where
  reviewToken : String
  ownerToken : String
  allowedOrigin : String
  reviewTokenLong : 40 ≤ reviewToken.length
  ownerTokenLong : 40 ≤ ownerToken.length
  ascii : isAscii reviewToken ∧ isAscii ownerToken
  independent : reviewToken ≠ ownerToken

def Config.validate (reviewToken ownerToken allowedOrigin : String) : Option Config :=
  if h : 40 ≤ reviewToken.length ∧ 40 ≤ ownerToken.length ∧
      (isAscii reviewToken ∧ isAscii ownerToken) ∧ reviewToken ≠ ownerToken then
    some ⟨reviewToken, ownerToken, allowedOrigin, h.1, h.2.1, h.2.2.1, h.2.2.2⟩
  else none

section Limiter

variable {Time : Type} [LinearOrder Time]

structure RateLimiter (Time : Type) where
  events : BTreeMap String (List Time) := ∅

/-- `minus now period` is the reading less the period. -/
def RateLimiter.limited (minus : Time → ℕ → Time) (limiter : RateLimiter Time) (key : String)
    (maximum period : ℕ) (now : Time) : Bool × RateLimiter Time :=
  let events := (limiter.events[key]?.getD []).dropWhile fun t => t ≤ minus now period
  if maximum ≤ events.length then (true, ⟨limiter.events.insert key events⟩)
  else (false, ⟨limiter.events.insert key (events ++ [now])⟩)

end Limiter

inductive Method
  | post | patch | delete
deriving DecidableEq

/-- What `json.loads` makes of the body that was read. -/
inductive Body
  | json (payload : Payload)
  | malformed
  | raises (error : PythonError)

/-- What comes of the numbers of a new review and of its screenshot: whether the position is
within bounds, unless a conversion fails, and whether the screenshot was saved. -/
structure Placement where
  position : Except PythonError Bool
  screenshot : Except PythonError Unit

/-- A request with the time of its reading: `path` is that of `urlsplit`, `address` that of
`client_ip`, `contentLength` what `int` makes of the header. -/
structure Incoming (Time : Type) where
  method : Method
  path : List Char
  address : String
  reviewHeader : Option String := none
  ownerHeader : Option String := none
  editHeader : Option String := none
  origin : Option String := none
  contentLength : Option ℤ := some 0
  contentType : String := "text/plain"
  body : Body := .malformed
  placement : Placement := ⟨.ok true, .ok ()⟩
  /-- Whether the calls of the database succeed. -/
  available : Bool := true
  /-- What `secrets` gives for a new review. -/
  secret : String := ""
  newEditToken : String := ""
  reading : Time
  now : String

inductive Response
  | ok
  | created (publicId editToken createdAt : String)
  | error (status : ℕ) (message : String)
deriving DecidableEq

/-- An exception outside of `try` ends the connection without a response. -/
inductive Result
  | respond (response : Response)
  | raised
  | pending
deriving DecidableEq

def PythonError.response (message : String) : PythonError → Result
  | .value text => .respond (.error 400 text)
  | .type => .respond (.error 500 message)

section Paths

def rstrip (path : List Char) : List Char :=
  (path.reverse.dropWhile fun c => c = '/').reverse

/-- `path[len(prefix):]` where the path starts with the prefix. -/
def afterPrefix (start : String) (path : List Char) : Option (List Char) :=
  if start.toList.isPrefixOf path then some (path.drop start.length) else none

/-- `PUBLIC_ID_PATTERN.fullmatch`. -/
def isPublicId (text : List Char) : Bool :=
  match afterPrefix "RV-" text with
  | none => false
  | some rest => 12 ≤ rest.length && rest.length ≤ 32 &&
    rest.all fun c => c.isAlphanum || c = '_' || c = '-'

/-- `str.isdigit` on a path, whose characters are those of Latin-1. -/
def isDigits (text : List Char) : Bool :=
  !text.isEmpty && text.all fun c =>
    c.isDigit || c.toNat = 0xb2 || c.toNat = 0xb3 || c.toNat = 0xb9

def digitsValue (digits : List Char) : ℕ :=
  digits.foldl (fun n c => 10 * n + (c.toNat - '0'.toNat)) 0

/-- `int` on a text of such digits. -/
def parseInt (text : List Char) : Except PythonError ℕ :=
  let digits := text.takeWhile Char.isDigit
  if 4300 < digits.length then
    .error (.value ("Exceeds the limit (4300 digits) for integer string conversion: value has " ++
      toString digits.length ++ " digits; use sys.set_int_max_str_digits() to increase the limit"))
  else if digits.length < text.length then
    .error (.value ("invalid literal for int() with base 10: '" ++ String.ofList text ++ "'"))
  else .ok (digitsValue digits)

end Paths

namespace Incoming

variable {Time : Type} (config : Config) (r : Incoming Time)

def header (value : Option String) : String := String.ofList (strip (value.getD "").toList)

def authorized (owner : Bool) : Except PythonError Bool :=
  let supplied := header (if owner then r.ownerHeader else r.reviewHeader)
  let expected := if owner then config.ownerToken else config.reviewToken
  if supplied.length < 40 then .ok false
  else if !isAscii supplied then .error .type
  else .ok (supplied == expected)

def requireAuthorized (owner : Bool) : Except Result Unit :=
  match r.authorized config owner with
  | .error _ => .error .raised
  | .ok true => .ok ()
  | .ok false => .error (.respond (.error 401
      (if owner then "管理员链接无效或已停用" else "评审链接无效或已停用")))

def requireOrigin : Except Result Unit :=
  if r.origin.getD "" = config.allowedOrigin then .ok ()
  else .error (.respond (.error 403 "请求来源无效"))

/-- `if not self.require_authorized(owner) or not self.require_origin(): return`. -/
def gate (owner : Bool) : Except Result Unit := do
  r.requireAuthorized config owner
  r.requireOrigin config

def readJson : Except PythonError Payload :=
  match r.contentLength with
  | none => .error (.value "请求长度无效")
  | some length =>
    if length ≤ 0 ∨ MAX_BODY_BYTES < length then .error (.value "请求为空或超过 2MB")
    else if r.contentType ≠ "application/json" then .error (.value "请求必须使用 JSON")
    else
      match r.body with
      | .json payload => .ok payload
      | .malformed => .error (.value "JSON 内容无效")
      | .raises error => .error error

end Incoming

def CREATE_FIELDS : List String :=
  ["surface", "screen", "targetId", "targetText", "x", "y", "viewportWidth",
    "viewportHeight", "scrollX", "scrollY", "category", "priority", "message", "screenshot"]

def validateCreation (payload : Payload) (placement : Placement) (expectedSurface : String) :
    Except PythonError Edit := do
  match payload with
  | none => throw (.value "请求内容无效")
  | some fields =>
    if fields.keys.any (fun key => key ∉ CREATE_FIELDS) then
      throw (.value "请求包含未知字段")
    let surface := cleanText fields["surface"]? 30
    let screen := cleanText fields["screen"]? 180
    let message := cleanMultiline fields["message"]? 1000000
    let within ← placement.position
    if surface ≠ expectedSurface ∨ screen = "" ∨ message.length < 2 then
      throw (.value "请完整填写意见")
    if !(← isMember CATEGORIES fields["category"]?) then throw (.value "意见类型或优先级无效")
    else if !(← isMember PRIORITIES fields["priority"]?) then throw (.value "意见类型或优先级无效")
    else if !within then throw (.value "标注位置或窗口尺寸无效")
    else
      placement.screenshot
      match fields["category"]?, fields["priority"]? with
      | some (.text category), some (.text priority) => return { category, priority, message }
      | _, _ => throw (.value "意见类型或优先级无效")

variable (H : Digest)

namespace Database

/-- `AUTOINCREMENT`; no review is ever deleted. -/
def nextId (db : Database) : ℕ := db.reviews.keys.foldr max 0 + 1

/-- The insertion of `create_review`; two reviews cannot have one `public_id`. -/
def createReview (db : Database) (given : Edit) (publicId editToken now : String) :
    Option Database :=
  if db.reviews.toList.any fun row => row.2.publicId = publicId then none
  else
    let row : Review :=
      { publicId
        category := given.category
        priority := given.priority
        message := given.message
        status := .pending
        adminReply := ""
        updatedAt := now
        editTokenHash := H editToken }
    some { db with reviews := db.reviews.insert db.nextId row }

end Database

structure ReviewApplication (Time : Type) where
  server : Server
  limiter : RateLimiter Time := {}

/-- A thread takes a request; later it runs its transaction, or the database fails it. -/
inductive Act (Time : Type)
  | request (thread : ℕ) (r : Incoming Time)
  | write (thread : ℕ)
  | fail (thread : ℕ)

def Write.failure : Write → String
  | .edit .. => "意见修改失败"
  | .withdraw .. => "意见撤回失败"

def reviewerMutationResponse (conflictMessage : String) : Answer → Result
  | .conflict => .respond (.error 409 conflictMessage)
  | .forbidden => .respond (.error 403 "只能修改自己提交的意见")
  | .notFound => .respond (.error 404 "意见不存在")

namespace ReviewApplication

variable {Time : Type} [LinearOrder Time] (minus : Time → ℕ → Time) (config : Config)
  (s : ReviewApplication Time) (r : Incoming Time)

abbrev database (s : ReviewApplication Time) : Database := s.server.database

def withDatabase (s : ReviewApplication Time) (database : Database) : ReviewApplication Time :=
  { s with server := { s.server with database } }

/-- `create_review` behind the limiter. -/
def create (key : String) (maximum : ℕ) (tooMany surface failure : String) :
    ReviewApplication Time × Result :=
  let (limited, limiter) := s.limiter.limited minus key maximum 3600 r.reading
  let s := { s with limiter }
  if limited then (s, .respond (.error 429 tooMany))
  else
    match do validateCreation (← r.readJson) r.placement surface with
    | .error e => (s, e.response failure)
    | .ok given =>
      let publicId := "RV-" ++ r.secret
      match s.database.createReview H given publicId r.newEditToken r.now with
      | none => (s, .respond (.error 500 failure))
      | some database =>
        if !r.available then (s, .respond (.error 500 failure))
        else (s.withDatabase database, .respond (.created publicId r.newEditToken r.now))

def doPost : ReviewApplication Time × Result :=
  let path := rstrip r.path
  if path = "/api/app-feedback".toList then
    s.create H minus r ("app-submit:" ++ r.address) 60 "提交过于频繁，请稍后再试" "desktop"
      "反馈保存失败"
  else if path ≠ "/api/reviews".toList then (s, .respond (.error 404 "接口不存在"))
  else
    match r.gate config false with
    | .error result => (s, result)
    | .ok _ =>
      s.create H minus r ("submit:" ++ r.address) 30 "提交过于频繁，请稍后再试" "prototype"
        "意见保存失败"

def reviewerMutation (thread : ℕ) (read : Except PythonError Request)
    (failure conflict : String) : ReviewApplication Time × Result :=
  match r.gate config false with
  | .error result => (s, result)
  | .ok _ =>
    let (limited, limiter) := s.limiter.limited minus ("mutate:" ++ r.address) 60 3600 r.reading
    let s := { s with limiter }
    if limited then (s, .respond (.error 429 "操作过于频繁，请稍后再试"))
    else
      match do s.server.read H (← read) r.now with
      | .error e => (s, e.response failure)
      | .ok outcome =>
        if !r.available then (s, .respond (.error 500 failure))
        else
          match outcome with
          | .error answer => (s, reviewerMutationResponse conflict answer)
          | .ok write =>
            ({ s with server := { s.server with threads := s.server.threads.insert thread write } },
              .pending)

/-- `update_review` behind the gate: the owner's transaction has no reading step. -/
def ownerUpdate (digits : List Char) : ReviewApplication Time × Result :=
  match r.gate config true with
  | .error result => (s, result)
  | .ok _ =>
    match do
      let id ← parseInt digits
      let payload ← r.readJson
      let updated ← s.database.updateReview id payload r.now
      return (id, updated) with
    | .error e => (s, e.response "处理结果保存失败")
    | .ok (id, database, found) =>
      if 2 ^ 63 ≤ id ∨ !r.available then (s, .respond (.error 500 "处理结果保存失败"))
      else if !found then (s, .respond (.error 404 "意见不存在"))
      else (s.withDatabase database, .respond .ok)

def doPatch (thread : ℕ) : ReviewApplication Time × Result :=
  let path := rstrip r.path
  match afterPrefix "/api/reviews/" path with
  | some publicId =>
    if !isPublicId publicId then (s, .respond (.error 404 "意见不存在"))
    else
      s.reviewerMutation H minus config r thread
        (do return .edit (String.ofList publicId) (← r.readJson) (Incoming.header r.editHeader))
        "意见修改失败" "意见已进入处理流程，不能再编辑"
  | none =>
    match afterPrefix "/api/admin/reviews/" path with
    | some digits =>
      if !isDigits digits then (s, .respond (.error 404 "接口不存在"))
      else s.ownerUpdate config r digits
    | none => (s, .respond (.error 404 "接口不存在"))

def doDelete (thread : ℕ) : ReviewApplication Time × Result :=
  match afterPrefix "/api/reviews/" (rstrip r.path) with
  | some publicId =>
    if !isPublicId publicId then (s, .respond (.error 404 "接口不存在"))
    else
      s.reviewerMutation H minus config r thread
        (.ok (.withdraw (String.ofList publicId) (Incoming.header r.editHeader)))
        "意见撤回失败" "意见已经结束，不能撤回"
  | none => (s, .respond (.error 404 "接口不存在"))

def perform : Act Time → ReviewApplication Time × Result
  | .request thread r =>
    match r.method with
    | .post => s.doPost H minus config r
    | .patch => s.doPatch H minus config r thread
    | .delete => s.doDelete H minus config r thread
  | .write thread =>
    match s.server.threads[thread]? with
    | none => (s, .pending)
    | some write =>
      ({ s with server := ⟨s.database.commit write, s.server.threads.erase thread⟩ }, .respond .ok)
  | .fail thread =>
    match s.server.threads[thread]? with
    | none => (s, .pending)
    | some write =>
      ({ s with server := { s.server with threads := s.server.threads.erase thread } },
        .respond (.error 500 write.failure))

/-- A thread is busy until it has answered. -/
def Enabled (s : ReviewApplication Time) : Act Time → Prop
  | .request thread _ => thread ∉ s.server.threads
  | .write thread => thread ∈ s.server.threads
  | .fail thread => thread ∈ s.server.threads

end ReviewApplication

structure Exchange (Time : Type) where
  before : ReviewApplication Time
  act : Act Time

namespace Exchange

variable {Time : Type} [LinearOrder Time] (minus : Time → ℕ → Time) (config : Config)
  (x : Exchange Time)

def after : ReviewApplication Time := (x.before.perform H minus config x.act).1

def result : Result := (x.before.perform H minus config x.act).2

end Exchange

inductive Serves {Time : Type} [LinearOrder Time] (minus : Time → ℕ → Time) (config : Config)
    (start : ReviewApplication Time) : List (Exchange Time) → ReviewApplication Time → Prop
  | nil : Serves minus config start [] start
  | snoc {exchanges : List (Exchange Time)} {s : ReviewApplication Time} {act : Act Time}
      (h : Serves minus config start exchanges s) (henabled : s.Enabled act) :
    Serves minus config start (exchanges ++ [⟨s, act⟩]) (s.perform H minus config act).1

end ChatCommons.ReviewPrototype
