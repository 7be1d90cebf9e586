import BoothOperator.Lib.Keyset
import BoothOperator.Listings.Cursors
import BoothOperator.Schema

/-! The listings that go on from a cursor: questions and the messages of one in
`routes/questions.ts`, booth events in `routes/events.ts`, call sessions in
`routes/sessions.ts`, and the two of the audit trail in `routes/audit.ts`. A row has the
columns that a listing filters, orders or points by; an answer is none where the request
is refused. -/
namespace BoothOperator.Listings

open BoothOperator.Events (isGuid)
open BoothOperator.Schema (QuestionStatus BoothEventType)

abbrev Limit := { limit : Nat // 0 < limit }

abbrev Answer (ρ : Type) := Option (List ρ × Option String)

inductive AuditActorType where
  | operator | apiToken | anonymous | system
  deriving DecidableEq

structure Question where
  id : Uuid
  status : QuestionStatus
  createdAt : Instant
  installationId : Option Uuid

structure Message where
  id : Uuid
  questionId : Option Uuid
  createdAt : Instant

structure BoothEvent where
  id : TextId
  boothId : String
  type : BoothEventType
  occurredAt : Instant
  receivedAt : Instant
  sessionId : Option String
  installationId : Option Uuid

structure CallSession where
  id : TextId
  boothId : String
  startedAt : Instant
  installationId : Option Uuid

structure AuditLog where
  id : Uuid
  action : String
  targetType : Option String
  targetId : Option String
  actorType : AuditActorType
  actorUserId : Option String
  ip : Option String
  createdAt : Instant

/-- A table and its primary key. -/
structure Keyed {ρ ι : Type} (id : ρ → ι) where
  rows : List ρ
  distinct : (rows.map id).Nodup

/-! ## Scopes and ranges -/

/-- `InstallationScopeSchema`. -/
inductive InstallationScope where
  | guid (installationId : Uuid) | all

inductive InstallationScopeFilter where
  | one (installationId : Uuid) | all | none

def resolveInstallationScope (active : Option Uuid) :
    Option InstallationScope → InstallationScopeFilter
  | some .all => .all
  | some (.guid installationId) => .one installationId
  | none =>
    match active with
    | some active => .one active
    | none => .none

/-- `since` and `until`, of which either may be missing. -/
def within (since before : Option Instant) (time : Instant) : Bool :=
  since.all (· ≤ time) && before.all (time ≤ ·)

section Orders

-- The database's order of uuids, and its collation of texts.
variable [LinearOrder Uuid] [LinearOrder TextId]

def scopeWhere (scope : InstallationScopeFilter) (installationId : Option Uuid) : Bool :=
  match scope with
  | .all => true
  | .none => false
  | .one chosen => installationId = some chosen

/-! ## A page -/

variable {ρ ι : Type} [LinearOrder ι]

/-- A listing's order, and how its endpoint reads a cursor. -/
structure Listing (ρ ι : Type) where
  column : IdColumn ι
  time : ρ → Instant
  id : ρ → ι
  keysetFromCursor : String → Option (Instant × ι)

def Listing.key (listing : Listing ρ ι) (row : ρ) : Instant ×ₗ ι :=
  toLex (listing.time row, listing.id row)

/-- `OR: [{ time: { lt } }, { time, id: { lt } }]`. -/
def Listing.before (listing : Listing ρ ι) (keyset : Instant × ι) (row : ρ) : Bool :=
  listing.time row < keyset.1 || listing.time row = keyset.1 && listing.id row < keyset.2

/-- `findMany` with `orderBy: [{ time: "desc" }, { id: "desc" }]`. -/
def Listing.findMany (listing : Listing ρ ι) (filters : ρ → Bool) (take : Nat) (rows : List ρ) :
    List ρ :=
  (Keyset.orderDesc listing.key (rows.filter filters)).take take

/-- The rows found but for the one that shows that there are more, and the cursor of the
last of them where there are. -/
def Listing.serialize (listing : Listing ρ ι) (limit : Nat) (found : List ρ) :
    List ρ × Option String :=
  let items := found.take limit
  let nextCursor :=
    if found.length > limit then
      items.getLast?.map fun last =>
        encodeCursor (cursorOf listing.column (listing.time last) (listing.id last))
    else none
  (items, nextCursor)

def Listing.page (listing : Listing ρ ι) (filters : ρ → Bool) (limit : Limit) (rows : List ρ) :
    Option String → Answer ρ
  | none => some (listing.serialize limit (listing.findMany filters (limit + 1) rows))
  | some cursor =>
    (listing.keysetFromCursor cursor).map fun keyset =>
      listing.serialize limit
        (listing.findMany (fun row => filters row && listing.before keyset row) (limit + 1) rows)

/-- What a cursor says as column values, where the id column takes its id. -/
def keysetOf (otherFormats : String → Option Instant) (column : IdColumn ι) (decoded : Cursor) :
    Option (Instant × ι) := do
  let time ← newDate otherFormats decoded.timestamp
  let id ← column.cast decoded.id
  return (time, id)

variable (otherFormats : String → Option Instant)

/-! ## Questions and their messages -/

/-- Only a cursor as `encodeCursor` writes it is taken. -/
def createdAtKeysetFromCursor (cursor : String) : Option (Instant × Uuid) := do
  let decoded ← decodeCursor otherFormats cursor
  guard (encodeCursor decoded = cursor ∧ isGuid decoded.id)
  keysetOf otherFormats uuidColumn decoded

def questionListing : Listing Question Uuid where
  column := uuidColumn
  time := Question.createdAt
  id := Question.id
  keysetFromCursor := createdAtKeysetFromCursor otherFormats

/-- `status: "any"`, or a status. -/
inductive StatusFilter where
  | any | is (status : QuestionStatus)

structure QuestionsQuery where
  limit : Limit
  status : Option StatusFilter
  installationId : Option InstallationScope
  ids : Option (List Uuid)

def QuestionsQuery.filters (query : QuestionsQuery) (active : Option Uuid) (row : Question) :
    Bool :=
  match query.ids with
  | some ids => row.id ∈ ids
  | none =>
    scopeWhere (resolveInstallationScope active query.installationId) row.installationId &&
    match query.status with
    | some .any => true
    | some (.is status) => row.status = status
    | none => row.status ≠ .archived

/-- `GET /questions`. An id list takes no cursor and is answered whole. -/
def getQuestions (active : Option Uuid) (questions : List Question) (query : QuestionsQuery)
    (cursor : Option String) : Answer Question :=
  match query.ids with
  | some ids =>
    some ((questionListing otherFormats).findMany (query.filters active) ids.length questions, none)
  | none =>
    (questionListing otherFormats).page (query.filters active) query.limit questions cursor

def messageListing : Listing Message Uuid where
  column := uuidColumn
  time := Message.createdAt
  id := Message.id
  keysetFromCursor := createdAtKeysetFromCursor otherFormats

def ofQuestion (question : Uuid) (row : Message) : Bool := row.questionId = some question

/-- `GET /questions/:id/messages`. -/
def getMessages (questions : List Question) (messages : List Message) (question : Uuid)
    (limit : Limit) (cursor : Option String) : Answer Message :=
  if question ∈ questions.map Question.id then
    (messageListing otherFormats).page (ofQuestion question) limit messages cursor
  else none

/-! ## Booth events and call sessions -/

/-- The keyset of a text id, with no check beyond `decodeCursor`. -/
def keysetFromDecoded (cursor : String) : Option (Instant × TextId) := do
  let decoded ← decodeCursor otherFormats cursor
  keysetOf otherFormats textColumn decoded

def eventListing : Listing BoothEvent TextId where
  column := textColumn
  time := BoothEvent.receivedAt
  id := BoothEvent.id
  keysetFromCursor := keysetFromDecoded otherFormats

structure EventsQuery where
  boothId : Option String
  since : Option Instant
  until_ : Option Instant
  type : Option (List BoothEventType)
  sessionId : Option String
  limit : Limit
  installationId : Option InstallationScope

def EventsQuery.filters (query : EventsQuery) (active : Option Uuid) (row : BoothEvent) : Bool :=
  scopeWhere (resolveInstallationScope active query.installationId) row.installationId &&
  query.boothId.all (row.boothId = ·) &&
  query.sessionId.all (row.sessionId = some ·) &&
  query.type.all (fun types => types = [] || row.type ∈ types) &&
  within query.since query.until_ row.occurredAt

/-- `GET /events`. An empty cursor is none. -/
def getEvents (active : Option Uuid) (events : List BoothEvent) (query : EventsQuery)
    (cursor : Option String) : Answer BoothEvent :=
  (eventListing otherFormats).page (query.filters active) query.limit events
    (cursor.filter (· ≠ ""))

def sessionListing : Listing CallSession TextId where
  column := textColumn
  time := CallSession.startedAt
  id := CallSession.id
  keysetFromCursor := keysetFromDecoded otherFormats

structure SessionsQuery where
  boothId : Option String
  limit : Limit
  installationId : Option InstallationScope

def SessionsQuery.filters (query : SessionsQuery) (active : Option Uuid) (row : CallSession) :
    Bool :=
  scopeWhere (resolveInstallationScope active query.installationId) row.installationId &&
  query.boothId.all (row.boothId = ·)

/-- `GET /sessions`. -/
def getSessions (active : Option Uuid) (sessions : List CallSession) (query : SessionsQuery)
    (cursor : Option String) : Answer CallSession :=
  (sessionListing otherFormats).page (query.filters active) query.limit sessions
    (cursor.filter (· ≠ ""))

/-! ## The audit trail -/

def keysetFromCursor (cursor : String) : Option (Instant × Uuid) := do
  let decoded ← decodeCursor otherFormats cursor
  guard (isGuid decoded.id)
  keysetOf otherFormats uuidColumn decoded

def auditListing : Listing AuditLog Uuid where
  column := uuidColumn
  time := AuditLog.createdAt
  id := AuditLog.id
  keysetFromCursor := keysetFromCursor otherFormats

omit [LinearOrder Uuid] [LinearOrder TextId] in
/-- SQL's `LIKE`, with the backslash that Postgres escapes by. -/
def like : List Char → List Char → Bool
  | [], text => text = []
  | '%' :: pattern, text => text.tails.any (like pattern)
  | '_' :: pattern, text => text ≠ [] && like pattern text.tail
  | '\\' :: c :: pattern, text => text.head? = some c && like pattern text.tail
  | c :: pattern, text => text.head? = some c && like pattern text.tail

def escapeLikePrefix (value : List Char) : List Char :=
  value.flatMap fun c => if c = '\\' ∨ c = '%' ∨ c = '_' then ['\\', c] else [c]

structure AuditQuery where
  action : Option String
  actorType : Option AuditActorType
  actorUserId : Option String
  targetType : Option String
  targetId : Option String
  ip : Option String
  since : Option Instant
  until_ : Option Instant
  limit : Limit

def AuditQuery.filters (query : AuditQuery) (row : AuditLog) : Bool :=
  query.action.all (fun action =>
    like (escapeLikePrefix action.toList ++ ['%']) row.action.toList) &&
  query.actorType.all (row.actorType = ·) &&
  query.actorUserId.all (row.actorUserId = some ·) &&
  query.targetType.all (row.targetType = some ·) &&
  query.targetId.all (row.targetId = some ·) &&
  query.ip.all (row.ip = some ·) &&
  within query.since query.until_ row.createdAt

/-- `GET /audit`. -/
def getAudit (entries : List AuditLog) (query : AuditQuery) (cursor : Option String) :
    Answer AuditLog :=
  (auditListing otherFormats).page query.filters query.limit entries (cursor.filter (· ≠ ""))

def ofTarget (targetType targetId : String) (row : AuditLog) : Bool :=
  row.targetType = some targetType && row.targetId = some targetId

/-- `GET /audit/targets/:targetType/:targetId`. -/
def getTargetAudit (entries : List AuditLog) (targetType targetId : String) (limit : Limit)
    (cursor : Option String) : Answer AuditLog :=
  (auditListing otherFormats).page (ofTarget targetType targetId) limit entries
    (cursor.filter (· ≠ ""))

end Orders

end BoothOperator.Listings
