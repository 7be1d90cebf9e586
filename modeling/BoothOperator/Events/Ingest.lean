import BoothOperator.Events.Batch

/-! The ingest transaction of `POST /v1/events`: the sessions of a batch are
patched or created, then its events are inserted, and one row that a table
refuses rolls all of it back. -/
namespace BoothOperator.Events

open BoothOperator.Schema

/-! ## What the tables take -/

/-- The values the column types take: Postgres has texts and documents it
refuses, those with U+0000 among them, and times it cannot hold. -/
structure ColumnTypes where
  text : String → Bool
  json : JsonValue → Bool
  timestamp : Time → Bool

/-- The client truncates a number for an `INTEGER` column, which takes 32 bits. -/
def int32 (value : Number) : Option Int :=
  let whole := value.num.tdiv value.den
  if -2147483648 ≤ whole ∧ whole ≤ 2147483647 then some whole else none

inductive IngestRejection where
  | installationInactive
  | batchTooLarge
  | column
  | foreignKey
  deriving DecidableEq, Repr

/-- The values of an entry, sent in a patch or a create. -/
def sessionFits (columns : ColumnTypes) (init : SessionInit) : Bool :=
  columns.text init.id ∧ columns.text init.boothId ∧ columns.text init.bootId ∧
    init.startedAt.all columns.timestamp ∧ init.endedAt.all columns.timestamp ∧
    (init.durationMs.join.all fun value => (int32 value).isSome) ∧
    init.digitsDialed.join.all columns.text ∧ init.recordingId.join.all columns.text ∧
    init.version.join.all columns.text

/-- `event.payload ?? {}`. -/
def storedPayload (event : EventInput) : JsonValue :=
  match event.payload with
  | .null => .obj []
  | payload => payload

/-- The values of an event row. -/
def eventFits (columns : ColumnTypes) (event : EventInput) : Bool :=
  columns.text event.eventId ∧ columns.text event.boothId ∧ columns.text event.bootId ∧
    columns.timestamp event.occurredAt ∧ event.sessionId.all columns.text ∧
    event.recordingId.all columns.text ∧ columns.json (storedPayload event) ∧
    event.version.all columns.text

/-! ## What a request knows before it writes -/

/-- `sessionEra` and `endedEras`. -/
structure Known where
  sessions : List CallSession
  endedEras : List Id

def Known.session (known : Known) (id : String) : Option CallSession :=
  Table.findUnique (·.id) id known.sessions

/-- `referencedSessionIds`. -/
def referenced (events : List EventInput) : List String := events.filterMap (·.sessionId)

def readKnown (events : List EventInput) (db : Db) : Known :=
  let sessions := db.callSessions.filter fun row => row.id ∈ referenced events
  { sessions
    endedEras := (db.installations.filter fun era =>
      era.endedAt ≠ none ∧ sessions.any fun row => row.installationId = some era.id).map (·.id) }

/-- Sessions created while the request waited for the era, read again under its lock. -/
def Known.late (known : Known) (events : List EventInput) (db : Db) : Known :=
  { known with
    sessions := known.sessions ++ db.callSessions.filter fun row =>
      row.id ∈ referenced events ∧ known.session row.id = none }

def Known.frozen (known : Known) (id : String) : Bool :=
  match (known.session id).bind (·.installationId) with
  | none => false
  | some era => era ∈ known.endedEras

/-- The era a row is filed under: that of its session, else the open one. -/
def Known.eraFor (known : Known) (era : Id) (sessionId : Option String) : Id :=
  ((sessionId.bind known.session).bind (·.installationId)).getD era

/-! ## Sessions -/

def eraOpen (db : Db) (installationId : Option Id) : Bool :=
  installationId.all db.lockInstallationForWrite

/-- `WHERE` of a session's `updateMany`. -/
def patchable (db : Db) (id : String) (row : CallSession) : Bool :=
  row.id = id ∧ row.outcome ≠ some .installationEnded ∧ eraOpen db row.installationId

/-- A string that a truth test lets through. -/
def truthy (text : Option String) : Option String := text.filter fun value => value ≠ ""

/-- `data: patch`: what the entry has a value for. -/
def patch (init : SessionInit) (row : CallSession) : CallSession :=
  { row with
    endedAt := init.endedAt <|> row.endedAt
    digitsDialed := init.digitsDialed.join <|> row.digitsDialed
    outcome := init.outcome.join <|> row.outcome
    recordingId := truthy init.recordingId.join <|> row.recordingId
    durationMs := init.durationMs.join.bind int32 <|> row.durationMs
    version := truthy init.version.join <|> row.version }

/-- `create` of the upsert. -/
def createdSession (now : Time) (era : Id) (init : SessionInit) : CallSession where
  id := init.id
  boothId := init.boothId
  bootId := init.bootId
  startedAt := init.startedAt.getD now
  endedAt := init.endedAt
  digitsDialed := init.digitsDialed.join
  outcome := init.outcome.join
  recordingId := init.recordingId.join
  durationMs := init.durationMs.join.bind int32
  version := init.version.join
  installationId := some era

/-- The `updateMany` of an entry, and the upsert when it finds nothing. -/
def writeSession (columns : ColumnTypes) (now : Time) (era : Id) (init : SessionInit) (db : Db) :
    Except IngestRejection Db :=
  if sessionFits columns init = false then .error .column
  else if db.callSessions.any (patchable db init.id) then
    .ok { db with
      callSessions := Table.updateMany (patchable db init.id) (patch init) db.callSessions }
  else if (db.callSession init.id).isSome then .ok db
  else if (db.installation era).isNone then .error .foreignKey
  else .ok { db with callSessions := db.callSessions ++ [createdSession now era init] }

/-- One turn of the loop over the entries. -/
def writeInit (columns : ColumnTypes) (now : Time) (known : Known) (era : Id) (db : Db)
    (init : SessionInit) : Except IngestRejection Db :=
  if known.frozen init.id then .ok db
  else writeSession columns now (known.eraFor era (some init.id)) init db

/-! ## Events -/

/-- `@@unique([boothId, eventId])`. -/
def stored (db : Db) (event : EventInput) : Bool :=
  db.boothEvents.any fun row => row.boothId = event.boothId ∧ row.eventId = event.eventId

/-- One row of `buildRows`. -/
def buildRow (now : Time) (known : Known) (era : Id) (event : EventInput) (id : Id) : BoothEvent where
  id
  eventId := event.eventId
  boothId := event.boothId
  bootId := event.bootId
  type := event.type
  occurredAt := event.occurredAt
  receivedAt := now
  sessionId := event.sessionId
  recordingId := event.recordingId
  payload := storedPayload event
  version := event.version
  installationId := some (known.eraFor era event.sessionId)

/-- The foreign keys of a row the insert keeps. -/
def refersToStored (db : Db) (row : BoothEvent) : Bool :=
  (row.sessionId.all fun id => (db.callSession id).isSome) ∧
    (row.installationId.all fun id => (db.installation id).isSome)

/-- One row of `createMany({ skipDuplicates: true })`. -/
def insertEvent (columns : ColumnTypes) (now : Time) (known : Known) (era : Id) (db : Db)
    (event : EventInput) : Except IngestRejection Db :=
  if eventFits columns event = false then .error .column
  else if stored db event then .ok db
  else
    let row := buildRow now known era event db.nextId
    if refersToStored db row = false then .error .foreignKey
    else .ok { db with boothEvents := db.boothEvents ++ [row], nextId := db.nextId + 1 }

/-! ## The transaction -/

/-- The statements of the transaction once it holds the era. -/
def ingestInto (columns : ColumnTypes) (now : Time) (events : List EventInput) (known : Known)
    (era : Id) (db : Db) : Except IngestRejection Db := do
  let known := known.late events db
  let db ← (sessionInits events).foldlM (writeInit columns now known era) db
  events.foldlM (insertEvent columns now known era) db

/-- `POST /v1/events` with no other writer: the database and the count accepted. -/
def ingest (columns : ColumnTypes) (now : Time) (events : List EventInput) (db : Db) :
    Except IngestRejection (Db × Nat) :=
  if events = [] then .ok (db, 0)
  else if boothEventBatchMax < events.length then .error .batchTooLarge
  else match db.findActiveInstallation with
    | none => .error .installationInactive
    | some active =>
      match ingestInto columns now events (readKnown events db) active.id db with
      | .error reason => .error reason
      | .ok after => .ok (after, after.boothEvents.length - db.boothEvents.length)

end BoothOperator.Events
