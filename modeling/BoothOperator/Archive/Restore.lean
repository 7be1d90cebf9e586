import BoothOperator.Archive.Audit
import BoothOperator.Archive.CloseOut

/-! `restoreImportArchive`: the blobs first, then every row of the archive
upserted by id inside one transaction, with the constraints of the schema and
the trigger that tags a row without an installation. What Prisma and the
JavaScript runtime decide is a parameter. A document with a member that is no
column of its table is refused; writes nested in a relation are left out. -/
namespace BoothOperator.Archive

open BoothOperator.Schema
open BoothOperator.Loading (Tables)

/-- A member of an input object: a JSON value, `Prisma.DbNull`, or a value
already of the column's type. -/
inductive Input where
  | json (value : JsonValue)
  | dbNull
  | typed (cell : Cell)

abbrev InputRow := List (Name × Input)

def Document.inputs (document : Document) : InputRow :=
  document.map fun entry => (entry.1, .json entry.2)

structure Client where
  /-- The value Prisma stores for a member of an input object, unless it refuses it. -/
  input : Field → JsonValue → Option Cell
  /-- `upsert` is one `INSERT .. ON CONFLICT`, whose triggers fire for either arm. -/
  nativeUpsert : Bool
  numberText : Number → List Char
  /-- The hex digest of some bytes. -/
  sha256 : Bytes → String
  /-- `new Date(generatedAt)`, when it is a date. -/
  parseDate : JsonValue → Option Time
  /-- `restoredInstallationId`: a digest of the version and the time. -/
  restoredInstallationId : Number → JsonValue → String

/-! ## Constraints -/

/-- The value of a column in a unique key. -/
def Cell.key : Cell → Option (String ⊕ Int)
  | .text value => some (.inl value)
  | .int value => some (.inr value)
  | _ => none

/-- The values of a unique constraint; a null leaves the row out of it. -/
def Row.uniqueKey (row : Row) (columns : List Column) : Option (List (String ⊕ Int)) :=
  columns.mapM fun column => (row.get column).key

def clash (columns : List Column) (row other : Row) : Bool :=
  match row.uniqueKey columns with
  | none => false
  | some values => other.uniqueKey columns = some values

def isOpenEra (row : Row) : Bool :=
  match row.get .endedAt with
  | .null => true
  | _ => false

/-- Whether a row may stand beside the others of its table. -/
def compatible (name : Model) (row other : Row) : Bool :=
  (uniques name).all (fun columns => !clash columns row other) &&
    !(name = .installation && isOpenEra row && isOpenEra other)

/-- The constraints on a row that goes beside the given others of its table. -/
def admitsBeside (db : Tables Model Row) (name : Model) (others : List Row) (row : Row) : Bool :=
  others.all (compatible name row) && Loading.resolved rowId references db name row

def admits (db : Tables Model Row) (name : Model) (row : Row) : Bool :=
  admitsBeside db name (db name) row

/-! ## Upserts -/

section Upserts

variable (client : Client) (now : Time) (freshId : String)

def Input.cell (field : Field) : Input → Option Cell
  | .json value => client.input field value
  | .dbNull => if field.kind = .json ∧ field.nullable then some .null else none
  | .typed cell => some cell

def isColumnOf (name : Model) : Name → Bool
  | .column column => column ∈ (fields name).map (·.column)
  | .other _ => false

/-- The value of a column in a created row. -/
def createCell (name : Model) (data : InputRow) (field : Field) : Option Cell :=
  match data.lookup (.column field.column) with
  | some value => value.cell client field
  | none =>
    match initial name field.column with
    | some (.value cell) => some cell
    | some .now => some (.date now)
    | none => if field.nullable then some .null else none

def createRow (name : Model) (data : InputRow) : Option Row :=
  if data.all fun entry => isColumnOf name entry.1 then
    (fields name).mapM fun field =>
      (createCell client now name data field).map fun cell => (field.column, cell)
  else none

/-- The value of a column after an update. -/
def updateCell (name : Model) (data : InputRow) (row : Row) (field : Field) : Option Cell :=
  match data.lookup (.column field.column) with
  | some value => value.cell client field
  | none =>
    if touched name field.column then some (.date now) else some (row.get field.column)

def updateRow (name : Model) (data : InputRow) (row : Row) : Option Row :=
  (fields name).mapM fun field =>
    (updateCell client now name data row field).map fun cell => (field.column, cell)

/-- The models with the trigger `installation_default_scope`. -/
def isTagged : Model → Bool
  | .question | .message | .callSession | .boothEvent | .boothStatusSnapshot => true
  | _ => false

/-- The open era, the latest started when the index did not forbid two. -/
def openEra (db : Tables Model Row) : Option Row :=
  Table.latest (fun row => (row.date? .startedAt).getD 0) isOpenEra (db .installation)

/-- The era that the trigger opens when none is. -/
def automaticEra (db : Tables Model Row) : Row :=
  Row.of .installation
    [(.id, .text freshId),
      (.name, .text ("Installation " ++ toString ((db .installation).length + 1))),
      (.notes, .text
        "Opened automatically for a write that arrived with no installation active."),
      (.startedAt, .date now), (.createdAt, .date now), (.questionSelectionCycle, .int 0),
      (.recentQuestionDraws, .json (.arr []))]

/-- `installation_default_scope`, for a row about to be inserted. -/
def defaultScope (name : Model) (row : Row) (db : Tables Model Row) : Row × Tables Model Row :=
  if isTagged name ∧ row.text? .installationId = none then
    match openEra db with
    | some era => (row.set .installationId (era.get .id), db)
    | none => (row.set .installationId (.text freshId),
        Loading.insert db .installation (automaticEra now freshId db))
  else (row, db)

/-- The row with an id, by the key of its id column. -/
def hasId (name : Model) (id : Cell) (row : Row) : Bool :=
  match id.key with
  | none => false
  | some id => (row.get (idColumn name)).key = some id

def upsert (name : Model) (create update : InputRow) (db : Tables Model Row) :
    Option (Tables Model Row) := do
  let created ← createRow client now name create
  let id := created.get (idColumn name)
  match (db name).find? (hasId name id) with
  | none =>
    let (row, db) := defaultScope now freshId name created db
    if admits db name row then some (Loading.insert db name row) else none
  | some row =>
    let db := if client.nativeUpsert then (defaultScope now freshId name created db).2 else db
    let changed ← updateRow client now name update row
    if admitsBeside db name ((db name).filter fun other => !hasId name id other) changed then
      some (Function.update db name
        ((db name).map fun other => if hasId name id other then changed else other))
    else none

/-! ## One row of the archive -/

/-- The audit row that is created; a row without metadata leaves the column out. -/
def auditInput (row : Document) : InputRow :=
  let bounded := boundAuditFields client.numberText row
  match bounded.read .metadata with
  | .null => (bounded.without .metadata).inputs
  | _ => bounded.inputs

/-- The telemetry source that is written, a null snapshot given as `DbNull`. -/
def telemetryInput (row : Document) : InputRow :=
  row.map fun entry =>
    match entry with
    | (.column .latestSnapshot, .null) => (.column .latestSnapshot, .dbNull)
    | (name, value) => (name, .json value)

/-- Whether a row is the parent era of another installation's prompt. -/
def isPartial (partialInstallations : List String) (name : Model) (row : Document) : Bool :=
  name = .installation &&
    match row.read .id with
    | .str id => id ∈ partialInstallations
    | _ => false

def restoreRow (partialInstallations : List String) (name : Model) (row : Document)
    (db : Tables Model Row) : Option (Tables Model Row) :=
  match name with
  | .telemetrySource =>
    upsert client now freshId name (telemetryInput row) (telemetryInput row) db
  | .auditLog => upsert client now freshId name (auditInput client row) [] db
  | _ =>
    upsert client now freshId name row.inputs
      (if isPartial partialInstallations name row then [] else row.inputs) db

def restoreRows (partialInstallations : List String) :
    List (Model × Document) → Tables Model Row → Option (Tables Model Row)
  | [], db => some db
  | (name, row) :: rest, db =>
    (restoreRow client now freshId partialInstallations name row db).bind
      (restoreRows partialInstallations rest)

/-! ## `reconcileActiveInstallation` and `adoptLegacyRows` -/

def isNullish : Option JsonValue → Bool
  | none | some .null => true
  | _ => false

def isText (value : JsonValue) (text : String) : Bool :=
  match value with
  | .str other => other = text
  | _ => false

def reconcileActiveInstallation (dump : DataDump) (db : Tables Model Row) : Tables Model Row :=
  match (dump .installation).find? fun row => isNullish (row.get .endedAt) with
  | none => db
  | some incoming =>
    match (db .installation).find? isOpenEra with
    | none => db
    | some existing =>
      let id := (existing.text? .id).getD ""
      if isText (incoming.read .id) id then db
      else
        let (closed, summary) := closeOutInstallation id now db
        updateMany .installation (fun row => row.text? .id = some id)
          [(.endedAt, .date now), (.summary, .json summary),
            (.notes, .text (joinNotes (existing.text? .notes)
              "Closed automatically to restore an archive."))] closed

def dateFromManifest (manifest : ExportManifest) : Time :=
  (client.parseDate manifest.generatedAt).getD 0

/-- The ids an adoption looks for. -/
def idsOf (dump : DataDump) (name : Model) : List Cell :=
  (dump name).filterMap fun row => (row.get .id).bind fun value =>
    match value with
    | .str id => if id = "" then none else some (.text id)
    | .num id => if id.den = 1 then some (.int id.num) else none
    | _ => none

/-- Tag the archived rows of a model. -/
def adopt (dump : DataDump) (installationId : String) (db : Tables Model Row) (name : Model) :
    Tables Model Row :=
  updateMany name (fun row => (idsOf dump name).any fun id => hasId name id row)
    [(.installationId, .text installationId)] db

def adoptedModels : List Model :=
  [.question, .message, .callSession, .boothEvent, .boothStatusSnapshot]

def allCompatible (name : Model) (rows : List Row) : Bool :=
  match rows with
  | [] => true
  | row :: rest => rest.all (compatible name row) && allCompatible name rest

/-- The era that legacy rows are adopted into. -/
def restoredInstallation (manifest : ExportManifest) : InputRow :=
  let generatedAt := dateFromManifest client manifest
  [(.column .id,
      .typed (.text (client.restoredInstallationId manifest.version manifest.generatedAt))),
    (.column .name, .typed (.text ("Restored " ++ IsoTime.format generatedAt))),
    (.column .notes, .typed (.text ("Created during import of legacy archive version " ++
      String.ofList (client.numberText manifest.version) ++ "."))),
    (.column .startedAt, .typed (.date generatedAt)), (.column .endedAt, .typed (.date generatedAt))]

def adoptLegacyRows (manifest : ExportManifest) (dump : DataDump) (db : Tables Model Row) :
    Option (Tables Model Row) :=
  if 4 ≤ manifest.version then some db
  else do
    let installationId := client.restoredInstallationId manifest.version manifest.generatedAt
    let db ← upsert client now freshId .installation (restoredInstallation client manifest) [] db
    let adopted := adoptedModels.foldl (adopt dump installationId) db
    if adoptedModels.all fun name => allCompatible name (adopted name) then
      let (closed, summary) :=
        closeOutInstallation installationId (dateFromManifest client manifest) adopted
      some (updateMany .installation (fun row => row.text? .id = some installationId)
        [(.summary, .json summary)] closed)
    else none

end Upserts

/-! ## `restoreImportArchive` -/

inductive RestoreError where
  | format (error : ImportFormatError)
  | rejected
  deriving DecidableEq

/-- The rows of a dump in `IMPORT_ORDER`. -/
def listed (dump : DataDump) : List (Model × Document) := Loading.listing importOrder dump

/-- The transaction. -/
def restoreTables (client : Client) (now : Time) (freshId : String) (archive : Parsed)
    (db : Tables Model Row) : Option (Tables Model Row) :=
  let reconciled := reconcileActiveInstallation now archive.dump db
  (restoreRows client now freshId archive.manifest.partialInstallationIds
    (listed archive.dump) reconciled).bind
    (adoptLegacyRows client now freshId archive.manifest archive.dump)

/-- The loop over the archived files: each key once, a blob verified before it
is uploaded, one that the target already holds left alone. -/
def restoreBlobs (client : Client) (archive : Parsed) :
    List Document → List String → Storage → Except ImportFormatError Storage
  | [], _, storage => .ok storage
  | file :: rest, handledKeys, storage =>
    match file.read .blobKey, file.read .sha256 with
    | .str blobKey, .str sha256 =>
      if blobKey ∈ handledKeys then restoreBlobs client archive rest handledKeys storage
      else match archive.blob sha256 with
        | none => restoreBlobs client archive rest (blobKey :: handledKeys) storage
        | some data =>
          if client.sha256 data ≠ sha256 then .error (.blobMismatch sha256)
          else if (storage blobKey).any fun blob => blob.sha256 = some sha256 then
            restoreBlobs client archive rest (blobKey :: handledKeys) storage
          else
            restoreBlobs client archive rest (blobKey :: handledKeys)
              (Function.update storage blobKey (some { data, sha256 := some sha256 }))
    | _, _ => restoreBlobs client archive rest handledKeys storage

/-- `restoreImportArchive`, without the counts it answers with. -/
def restoreImportArchive (client : Client) (now : Time) (freshId : String) (file : ArchiveFile)
    (storage : Storage) (db : Tables Model Row) :
    Except RestoreError (Storage × Tables Model Row) := do
  let archive ← (parseArchive file).mapError .format
  let storage ← (restoreBlobs client archive (archive.dump .file) [] storage).mapError .format
  match restoreTables client now freshId archive db with
  | none => .error .rejected
  | some restored => .ok (storage, restored)

end BoothOperator.Archive
