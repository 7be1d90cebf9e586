import BoothOperator.Archive.Documents
import BoothOperator.Installations.Summary

/-! `closeOutInstallation` on the rows of the archive code. -/
namespace BoothOperator.Archive

open BoothOperator.Schema
open BoothOperator.Installations
open BoothOperator.Loading (Tables)

namespace Row

def date? (row : Row) (column : Column) : Option Time :=
  match row.get column with
  | .date value => some value
  | _ => none

def int? (row : Row) (column : Column) : Option Int :=
  match row.get column with
  | .int value => some value
  | _ => none

def json? (row : Row) (column : Column) : JsonValue :=
  match row.get column with
  | .json value => value
  | _ => .null

/-- Several columns at once. -/
def update (row : Row) (data : Row) : Row :=
  row.map fun entry => (entry.1, (data.lookup entry.1).getD entry.2)

end Row

/-- `updateMany`. -/
def updateMany (name : Model) (found : Row → Bool) (data : Row) (db : Tables Model Row) :
    Tables Model Row :=
  Function.update db name (Table.updateMany found (·.update data) (db name))

/-! ## The summary -/

def interactionSession (row : Row) : InteractionSession where
  startedAt := (row.date? .startedAt).getD 0
  endedAt := row.date? .endedAt
  outcome := row.text? .outcome
  durationMs := row.int? .durationMs
  digitsDialed := row.text? .digitsDialed

/-- A message with the duration of its audio. -/
def recording (db : Tables Model Row) (row : Row) : Recording where
  status := (row.text? .status).getD ""
  durationMs := ((db .file).find? fun file => parentOf .audioId row file).bind (·.int? .durationMs)

def activity (row : Row) : Activity where
  type := (row.text? .type).getD ""
  payload := row.json? .payload
  occurredAt := (row.date? .occurredAt).getD 0

/-- What the queries of `computeInstallationSummary` return. -/
def eraRows (installationId : String) (db : Tables Model Row) : EraRows :=
  let own (name : Model) := (db name).filter (inInstallation installationId)
  { sessions := (own .callSession).map interactionSession
    recordings := (own .message).map (recording db)
    questions := (own .question).length
    events := (own .boothEvent).map activity }

def timeJson : Option Time → JsonValue
  | none => .null
  | some time => .str (IsoTime.format time)

/-- The summary as the object that is stored. -/
def summaryJson (summary : InstallationSummary) : JsonValue :=
  let breakdown := summary.interactionBreakdown
  let count (value : Nat) : JsonValue := .num value
  .obj
    [("calls", count summary.calls), ("interactions", count summary.interactions),
      ("interactionBreakdown", .obj
        [("noSelection", count breakdown.noSelection),
          ("wrongNumberAttempts", count breakdown.wrongNumberAttempts),
          ("messagesLeft", count breakdown.messagesLeft),
          ("messagePlaybackStarts", count breakdown.messagePlaybackStarts),
          ("instructionPlaybackStarts", count breakdown.instructionPlaybackStarts)]),
      ("messages", count summary.messages), ("allRecordings", count summary.allRecordings),
      ("byStatus", .obj (summary.byStatus.map fun entry => (entry.1, count entry.2))),
      ("messagesApproved", count summary.messagesApproved),
      ("messagesRejected", count summary.messagesRejected),
      ("questions", count summary.questions), ("events", count summary.events),
      ("recordedMs", .num summary.recordedMs),
      ("firstActivityAt", timeJson summary.firstActivityAt),
      ("lastActivityAt", timeJson summary.lastActivityAt)]

/-! ## The close-out -/

def rolloverOutcome : String := "installation_ended"

def rolloverMessageNote : String := "Closed out when the installation ended."

def isOpenSession (installationId : String) (row : Row) : Bool :=
  inInstallation installationId row && (row.date? .endedAt).isNone

def isQueuedMessage (installationId : String) (row : Row) : Bool :=
  inInstallation installationId row &&
    (row.text? .status = some "received" || row.text? .status = some "pending")

def isLiveQuestion (installationId : String) (row : Row) : Bool :=
  inInstallation installationId row && row.text? .status = some "active"

/-- The three updates of `closeOutInstallation`; its lock waits for nobody here. -/
def closeOutRows (installationId : String) (endedAt : Time) (db : Tables Model Row) :
    Tables Model Row :=
  let sessions := updateMany .callSession (isOpenSession installationId)
    [(.endedAt, .date endedAt), (.outcome, .text rolloverOutcome)] db
  let messages := updateMany .message (isQueuedMessage installationId)
    [(.status, .text "rejected"), (.notes, .text rolloverMessageNote),
      (.decidedAt, .date endedAt)] sessions
  updateMany .question (isLiveQuestion installationId)
    [(.status, .text "archived"), (.retiredAt, .date endedAt)] messages

/-- `closeOutInstallation`: the rows it leaves, and the summary it returns. -/
def closeOutInstallation (installationId : String) (endedAt : Time) (db : Tables Model Row) :
    Tables Model Row × JsonValue :=
  let closed := closeOutRows installationId endedAt db
  (closed, summaryJson (computeInstallationSummary (eraRows installationId closed)))

end BoothOperator.Archive
