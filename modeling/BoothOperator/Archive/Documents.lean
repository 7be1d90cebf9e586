import BoothOperator.Archive.Scope
import BoothOperator.Events.Batch
import BoothOperator.Lib.IsoTime

/-! An archive: what `buildExportArchive` writes and `parseArchive` takes. The
tar and JSON texts are left to their readers; an archived row is an object
whose member names are columns of the schema or other texts. -/
namespace BoothOperator.Archive

open BoothOperator.Schema
open BoothOperator.Events (isGuid)
open BoothOperator.Json (Value)
open BoothOperator.Loading (Tables)

/-! ## Rows as objects -/

inductive Name where
  | column (column : Column)
  | other (text : String)
  deriving DecidableEq

abbrev Document := List (Name × JsonValue)

namespace Document

/-- `row.column`; none when the object has no such member. -/
def get (document : Document) (column : Column) : Option JsonValue :=
  document.lookup (.column column)

/-- `row.column` with an absent member read as null. -/
def read (document : Document) (column : Column) : JsonValue := (document.get column).getD .null

/-- `{ ...row, column: value }`. -/
def put (column : Column) (value : JsonValue) : Document → Document
  | [] => [(.column column, value)]
  | (name, old) :: rest =>
    if name = .column column then (name, value) :: rest else (name, old) :: put column value rest

/-- The object without a member. -/
def without (document : Document) (column : Column) : Document :=
  document.filter fun entry => entry.1 ≠ .column column

end Document

/-- What a stored value becomes in `data.json`. -/
def Cell.toJson : Cell → JsonValue
  | .null => .null
  | .text value => .str value
  | .int value => .num value
  | .float value => .num value
  | .bool value => .bool value
  | .date value => .str (IsoTime.format value)
  | .json value => value

def Row.document (row : Row) : Document :=
  row.map fun entry => (.column entry.1, entry.2.toJson)

/-! ## The archive -/

abbrev Bytes := List UInt8

/-- A blob of the storage, with the hash its metadata records. -/
structure Blob where
  data : Bytes
  sha256 : Option String

abbrev Storage := String → Option Blob

/-- An entry of `data.json`: absent or null, an array of rows, some of which
are no objects, or something else. -/
inductive Entry where
  | absent
  | rows (rows : List (Option Document))
  | malformed

/-- The entries of a tar file, their texts read; none is an entry that is
missing, and `data` is none where the text is no object. -/
structure ArchiveFile where
  manifest : Option JsonValue
  data : Option (Model → Entry)
  blobs : List (String × Bytes)

inductive ImportFormatError where
  | missingEntry
  | manifestNotObject
  | unexpectedFormat
  | missingVersion
  | newerVersion
  | partialInstallationIds
  | dataNotObject
  | notArray (name : Model)
  | notObject (name : Model) (index : Nat)
  | ticketState (name : Model)
  | duplicateDraws
  | blobMismatch (sha256 : String)
  deriving DecidableEq

def exportFormat : String := "telephone-booth-export"

def exportVersion : Number := 6

def questionTicketStateVersion : Number := 6

structure ExportManifest where
  version : Number
  generatedAt : JsonValue
  partialInstallationIds : List String

/-- The members of the manifest that a restore reads. -/
def ExportManifest.toJson (manifest : ExportManifest) : JsonValue :=
  .obj
    [("format", .str exportFormat), ("version", .num manifest.version),
      ("generatedAt", manifest.generatedAt),
      ("partialInstallationIds", .arr (manifest.partialInstallationIds.map .str))]

/-- `blobs/<sha256>`. -/
def blobName (sha256 : String) : String := "blobs/" ++ sha256

/-- The name check of `headerFor`; the rest of the tar format gives back the
entries it was given. -/
def createTar (file : ArchiveFile) : Option ArchiveFile :=
  if file.blobs.all fun blob => (blobName blob.1).utf8ByteSize ≤ 100 then some file else none

/-- The blobs of the dumped files, each hash once, as far as they exist. -/
def collectBlobs (storage : Storage) : List Row → List String → List (String × Bytes)
  | [], _ => []
  | file :: rest, seenSha =>
    match file.text? .sha256, file.text? .blobKey with
    | some sha256, some blobKey =>
      if sha256 ∈ seenSha then collectBlobs storage rest seenSha
      else match storage blobKey with
        | none => collectBlobs storage rest (sha256 :: seenSha)
        | some blob => (sha256, blob.data) :: collectBlobs storage rest (sha256 :: seenSha)
    | _, _ => collectBlobs storage rest seenSha

/-- `buildExportArchive`, without the counts of the manifest that nothing reads back. -/
def buildExportArchive (storage : Storage) (db : Tables Model Row) (now : Time)
    (installationId : Option String) : Option ArchiveFile :=
  let dump := collectDump installationId db
  let partials := match installationId with
    | none => []
    | some installationId =>
      (dump .installation).filterMap fun row =>
        (row.text? .id).filter fun id => id ≠ installationId
  createTar
    { manifest := some (ExportManifest.toJson
        { version := exportVersion
          generatedAt := .str (IsoTime.format now)
          partialInstallationIds := partials })
      data := some fun name => .rows ((dump name).map fun row => some row.document)
      blobs := collectBlobs storage (dump .file) [] }

/-! ## `parseArchive` -/

/-- `z.number().int().min(0).max(QUESTION_TICKET_COUNTER_MAX)`. -/
def nonnegativeIntegerSchema : JsonValue → Bool
  | .num value => value.den = 1 ∧ 0 ≤ value ∧ value ≤ 2147483647
  | _ => false

/-- `QuestionWeightSchema`. -/
def questionWeightSchema : JsonValue → Bool
  | .num value => value.den = 1 ∧ 1 ≤ value ∧ value ≤ 100
  | _ => false

def orNull (schema : JsonValue → Bool) : JsonValue → Bool
  | .null => true
  | value => schema value

def withStatusWindow (row : Document) : Document :=
  match row.read .firstSeenAt with
  | .null =>
    let window := match row.get .updatedAt with
      | some updatedAt => row.put .firstSeenAt updatedAt
      | none => row.without .firstSeenAt
    match row.read .repeatCount with
    | .null => window.put .repeatCount (.num 1)
    | count => window.put .repeatCount count
  | _ => row

/-- A schema's verdict on a member; an absent one fits nothing. -/
def parsed (schema : JsonValue → Bool) : Option JsonValue → Option JsonValue
  | none => none
  | some value => if schema value then some value else none

def withQuestionTicketState (row : Document) (archiveVersion : Number) :
    Except ImportFormatError Document :=
  if archiveVersion < questionTicketStateVersion then
    .ok (((row.put .weight (.num 1)).put .lastSelectedCycle .null).put .selectionsInCycle (.num 0))
  else
    match parsed questionWeightSchema (row.get .weight),
        parsed (orNull nonnegativeIntegerSchema) (row.get .lastSelectedCycle),
        parsed nonnegativeIntegerSchema (row.get .selectionsInCycle) with
    | some weight, some lastSelectedCycle, some selectionsInCycle =>
      .ok (((row.put .weight weight).put .lastSelectedCycle lastSelectedCycle).put
        .selectionsInCycle selectionsInCycle)
    | _, _, _ => .error (.ticketState .question)

/-- An entry of `questionDrawHistorySchema`, its ids in lower case. -/
def drawEntry : JsonValue → Option (String × String)
  | .obj members =>
    match Value.lookup "drawId" members, Value.lookup "questionId" members with
    | some (.str drawId), some (.str questionId) =>
      if isGuid drawId ∧ isGuid questionId then some (lower drawId, lower questionId) else none
    | _, _ => none
  | _ => none

/-- `questionDrawHistorySchema`. -/
def drawHistory : JsonValue → Option (List (String × String))
  | .arr items => if items.length ≤ 100 then items.mapM drawEntry else none
  | _ => none

def drawJson (entry : String × String) : JsonValue :=
  .obj [("drawId", .str entry.1), ("questionId", .str entry.2)]

/-- `nullableUuidSchema`, in lower case. -/
def nullableUuid : JsonValue → Option JsonValue
  | .null => some .null
  | .str text => if isGuid text then some (.str (lower text)) else none
  | _ => none

def withInstallationTicketState (row : Document) (archiveVersion : Number) :
    Except ImportFormatError Document :=
  if archiveVersion < questionTicketStateVersion then
    .ok (((row.put .questionSelectionCycle (.num 0)).put .lastSelectedQuestionId .null).put
      .recentQuestionDraws (.arr []))
  else
    match parsed nonnegativeIntegerSchema (row.get .questionSelectionCycle),
        (row.get .lastSelectedQuestionId).bind nullableUuid,
        (row.get .recentQuestionDraws).bind drawHistory with
    | some questionSelectionCycle, some lastSelectedQuestionId, some draws =>
      if (draws.map (·.1)).Nodup then
        .ok (((row.put .questionSelectionCycle questionSelectionCycle).put
          .lastSelectedQuestionId lastSelectedQuestionId).put
          .recentQuestionDraws (.arr (draws.map drawJson)))
      else .error .duplicateDraws
    | _, _, _ => .error (.ticketState .installation)

def normalizeArchiveRow (name : Model) (row : Document) (archiveVersion : Number) :
    Except ImportFormatError Document :=
  match name with
  | .boothStatusSnapshot => .ok (withStatusWindow row)
  | .question => withQuestionTicketState row archiveVersion
  | .installation => withInstallationTicketState row archiveVersion
  | _ => .ok row

/-- The rows of one entry, from the given index on. -/
def normalizeRows (name : Model) (archiveVersion : Number) :
    Nat → List (Option Document) → Except ImportFormatError (List Document)
  | _, [] => .ok []
  | index, none :: _ => .error (.notObject name index)
  | index, some row :: rest => do
    let first ← normalizeArchiveRow name row archiveVersion
    let others ← normalizeRows name archiveVersion (index + 1) rest
    return first :: others

abbrev DataDump := Model → List Document

def normalizeEntry (name : Model) (archiveVersion : Number) :
    Entry → Except ImportFormatError (List Document)
  | .absent => .ok []
  | .rows rows => normalizeRows name archiveVersion 0 rows
  | .malformed => .error (.notArray name)

/-- The loop over `IMPORT_ORDER`. -/
def normalizeDump (archiveVersion : Number) (data : Model → Entry) :
    List Model → Except ImportFormatError DataDump
  | [] => .ok fun _ => []
  | name :: rest => do
    let rows ← normalizeEntry name archiveVersion (data name)
    let others ← normalizeDump archiveVersion data rest
    return Function.update others name rows

/-- The strings of an array, when all its items are strings. -/
def strings : List JsonValue → Option (List String)
  | [] => some []
  | .str text :: rest => (strings rest).map (text :: ·)
  | _ :: _ => none

/-- The optional list of partial eras. -/
def parsePartial : Option JsonValue → Except ImportFormatError (List String)
  | none => .ok []
  | some (.arr items) =>
    match strings items with
    | some ids => .ok ids
    | none => .error .partialInstallationIds
  | some _ => .error .partialInstallationIds

def parseManifest (manifest : JsonValue) : Except ImportFormatError ExportManifest :=
  match manifest with
  | .obj members =>
    match Value.lookup "format" members, Value.lookup "version" members with
    | some (.str format), some (.num version) =>
      if format ≠ exportFormat then .error .unexpectedFormat
      else if exportVersion < version then .error .newerVersion
      else do
        let ids ← parsePartial (Value.lookup "partialInstallationIds" members)
        return ⟨version, (Value.lookup "generatedAt" members).getD .null, ids⟩
    | some (.str format), _ =>
      if format ≠ exportFormat then .error .unexpectedFormat else .error .missingVersion
    | _, _ => .error .unexpectedFormat
  | .arr _ => .error .unexpectedFormat
  | _ => .error .manifestNotObject

structure Parsed where
  manifest : ExportManifest
  dump : DataDump
  blobs : List (String × Bytes)

/-- `blobs.get`: of entries with one name the last is kept. -/
def Parsed.blob (archive : Parsed) (sha256 : String) : Option Bytes :=
  archive.blobs.reverse.lookup sha256

def parseArchive (file : ArchiveFile) : Except ImportFormatError Parsed :=
  match file.manifest with
  | none => .error .missingEntry
  | some manifest => do
    let manifest ← parseManifest manifest
    match file.data with
    | none => .error .dataNotObject
    | some data =>
      let dump ← normalizeDump manifest.version data importOrder
      return { manifest, dump, blobs := file.blobs }

end BoothOperator.Archive
