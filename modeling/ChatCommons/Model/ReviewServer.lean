import ChatCommons.General.Collections

/-!
The review server of the browser prototype: a thread handles one request at a time, and its
`SELECT` and its transaction are two steps of the database.
-/

namespace ChatCommons.ReviewPrototype

open Collections

def CATEGORIES : List String := ["layout", "copy", "feature", "product"]
def PRIORITIES : List String := ["low", "normal", "high"]

inductive Status
  | pending | inProgress | clientReview | completed | rejected | withdrawn
deriving DecidableEq

def Status.text : Status → String
  | .pending => "pending"
  | .inProgress => "in_progress"
  | .clientReview => "client_review"
  | .completed => "completed"
  | .rejected => "rejected"
  | .withdrawn => "withdrawn"

def STATUSES : List Status :=
  [.pending, .inProgress, .clientReview, .completed, .rejected, .withdrawn]

inductive PythonError
  | value (text : String)
  | type
deriving DecidableEq

section Text

/-- `str.isspace` on one character. -/
def isSpace (c : Char) : Bool :=
  let n := c.toNat
  (9 ≤ n && n ≤ 13) || (28 ≤ n && n ≤ 32) || n = 0x85 || n = 0xa0 || n = 0x1680
    || (0x2000 ≤ n && n ≤ 0x200a) || n = 0x2028 || n = 0x2029 || n = 0x202f || n = 0x205f
    || n = 0x3000

def strip (text : List Char) : List Char :=
  ((text.dropWhile isSpace).reverse.dropWhile isSpace).reverse

/-- `str.split` without a separator. -/
def split (text : List Char) : List (List Char) :=
  (text.splitOnP isSpace).filter fun word => !word.isEmpty

/-- A value of a JSON object: numbers, booleans and null are scalars. -/
inductive Json
  | text (s : String)
  | scalar
  | container
deriving DecidableEq

def cleanText (value : Option Json) (maximum : ℕ) : String :=
  match value with
  | some (.text s) => String.ofList ((([' '].intercalate (split (strip s.toList)))).take maximum)
  | _ => ""

def cleanMultiline (value : Option Json) (maximum : ℕ) : String :=
  match value with
  | some (.text s) =>
    String.ofList ((strip (s.toList.filter fun c => c ≠ Char.ofNat 0)).take maximum)
  | _ => ""

/-- `value in allowed`; an unhashable value is an error. -/
def isMember (allowed : List String) : Option Json → Except PythonError Bool
  | some (.text s) => .ok (s ∈ allowed)
  | some .container => .error .type
  | _ => .ok false

end Text

structure Review where
  publicId : String
  category : String
  priority : String
  message : String
  status : Status
  adminReply : String
  updatedAt : String
  editTokenHash : String
deriving DecidableEq

structure Edit where
  category : String
  priority : String
  message : String
deriving DecidableEq

inductive AuditDetail
  | reviewerEdit (edit : Edit)
  | withdraw (previousStatus : Status)
  | update (status : Status) (reply : String)
deriving DecidableEq

structure AuditEntry where
  reviewId : ℕ
  detail : AuditDetail
  createdAt : String
deriving DecidableEq

structure Database where
  reviews : BTreeMap ℕ Review
  auditLog : List AuditEntry := []

inductive Answer
  | notFound | forbidden | conflict
deriving DecidableEq

/-- A transaction that a thread is about to run. -/
inductive Write
  | edit (reviewId : ℕ) (edit : Edit) (now : String)
  | withdraw (reviewId : ℕ) (previousStatus : Status) (now : String)
deriving DecidableEq

/-- A request body: `none` where it is no object. -/
abbrev Payload := Option (BTreeMap String Json)

def validateEdit (payload : Payload) : Except PythonError Edit := do
  match payload with
  | none => throw (.value "请求内容无效")
  | some fields =>
    if fields.keys.any (fun key => key ∉ ["category", "priority", "message"]) then
      throw (.value "请求内容无效")
    let message := cleanMultiline fields["message"]? 1000000
    if !(← isMember CATEGORIES fields["category"]?) then throw (.value "请完整填写意见")
    else if !(← isMember PRIORITIES fields["priority"]?) then throw (.value "请完整填写意见")
    else if message.length < 2 then throw (.value "请完整填写意见")
    else
      match fields["category"]?, fields["priority"]? with
      | some (.text category), some (.text priority) => return { category, priority, message }
      | _, _ => throw (.value "请完整填写意见")

def validateUpdate (payload : Payload) : Except PythonError (Status × String) := do
  match payload with
  | none => throw (.value "请求内容无效")
  | some fields =>
    if fields.keys.any (fun key => key ∉ ["status", "adminReply"]) then
      throw (.value "请求内容无效")
    let reply := cleanText fields["adminReply"]? 1000
    if !(← isMember (STATUSES.map Status.text) fields["status"]?) then
      throw (.value "处理状态无效")
    else
      match STATUSES.find? fun status => fields["status"]? = some (.text status.text) with
      | none => throw (.value "处理状态无效")
      | some status =>
        if status ∈ [.clientReview, .completed, .rejected] ∧ reply = "" then
          throw (.value "待验收、已完成或暂不处理的意见必须给朋友留下回复")
        else return (status, reply)

/-- `hashlib.sha256(..).hexdigest()`. -/
abbrev Digest := String → String

variable (H : Digest)

def validEditToken (supplied expectedHash : String) : Bool :=
  if supplied.length < 40 ∨ 200 < supplied.length ∨ expectedHash.length ≠ 64 then false
  else H supplied = expectedHash

namespace Database

def select (db : Database) (publicId : String) : Option (ℕ × Review) :=
  db.reviews.toList.find? fun row => row.2.publicId = publicId

/-- `edit_review` up to its first write. -/
def editReview (db : Database) (publicId : String) (payload : Payload) (editToken now : String) :
    Except PythonError (Except Answer Write) := do
  let edit ← validateEdit payload
  return match db.select publicId with
    | none => .error .notFound
    | some (id, row) =>
      if !validEditToken H editToken row.editTokenHash then .error .forbidden
      else if row.status ≠ .pending then .error .conflict
      else .ok (.edit id edit now)

/-- `withdraw_review` up to its first write. -/
def withdrawReview (db : Database) (publicId editToken now : String) : Except Answer Write :=
  match db.select publicId with
  | none => .error .notFound
  | some (id, row) =>
    if !validEditToken H editToken row.editTokenHash then .error .forbidden
    else if row.status ∈ [.completed, .rejected, .withdrawn] then .error .conflict
    else .ok (.withdraw id row.status now)

/-- `UPDATE reviews SET .. WHERE id=?`. -/
def updateRow (db : Database) (id : ℕ) (change : Review → Review) : BTreeMap ℕ Review :=
  match db.reviews[id]? with
  | none => db.reviews
  | some row => db.reviews.insert id (change row)

/-- The transaction of `edit_review` or `withdraw_review`. -/
def commit (db : Database) : Write → Database
  | .edit id edit now =>
    { reviews := db.updateRow id fun row => { row with
        category := edit.category
        priority := edit.priority
        message := edit.message
        updatedAt := now }
      auditLog := db.auditLog ++ [⟨id, .reviewerEdit edit, now⟩] }
  | .withdraw id previousStatus now =>
    { reviews := db.updateRow id fun row => { row with status := .withdrawn, updatedAt := now }
      auditLog := db.auditLog ++ [⟨id, .withdraw previousStatus, now⟩] }

def updateReview (db : Database) (id : ℕ) (payload : Payload) (now : String) :
    Except PythonError (Database × Bool) := do
  let (status, reply) ← validateUpdate payload
  if id ∉ db.reviews then return (db, false)
  else return (
    { reviews := db.updateRow id fun row => { row with
        status, adminReply := reply, updatedAt := now }
      auditLog := db.auditLog ++ [⟨id, .update status reply, now⟩] }, true)

end Database

inductive Request
  | edit (publicId : String) (payload : Payload) (editToken : String)
  | withdraw (publicId editToken : String)

/-- The database and the threads between their `SELECT` and their transaction. -/
structure Server where
  database : Database
  threads : BTreeMap ℕ Write := ∅

inductive Action
  | read (thread : ℕ) (request : Request) (now : String)
  | write (thread : ℕ)
  | update (id : ℕ) (payload : Payload) (now : String)

namespace Server

def read (s : Server) (request : Request) (now : String) : Except PythonError (Except Answer Write) :=
  match request with
  | .edit publicId payload editToken => s.database.editReview H publicId payload editToken now
  | .withdraw publicId editToken => .ok (s.database.withdrawReview H publicId editToken now)

def perform (s : Server) : Action → Server
  | .read thread request now =>
    if thread ∈ s.threads then s
    else
      match s.read H request now with
      | .ok (.ok write) => { s with threads := s.threads.insert thread write }
      | _ => s
  | .write thread =>
    match s.threads[thread]? with
    | none => s
    | some write => { database := s.database.commit write, threads := s.threads.erase thread }
  | .update id payload now =>
    match s.database.updateReview id payload now with
    | .ok (database, _) => { s with database }
    | .error _ => s

end Server

structure Turn where
  server : Server
  action : Action

def Turn.next (turn : Turn) : Server := turn.server.perform H turn.action

inductive Run (start : Server) : List Turn → Server → Prop
  | nil : Run start [] start
  | snoc {turns : List Turn} {s : Server} (h : Run start turns s) (action : Action) :
    Run start (turns ++ [⟨s, action⟩]) (s.perform H action)

end ChatCommons.ReviewPrototype
