import Mathlib.Data.Int.Order.Basic
import BoothOperator.Lib.Json
import BoothOperator.Lib.Table

/-! The rows of `prisma/schema.prisma` that the modelled code reads or writes,
with the columns it reads or writes, and the database as one list of rows for
each table. Ids stand for the uuids of the default generator, and a created
row takes the next one; times are milliseconds. -/
namespace BoothOperator.Schema

open BoothOperator.Json (Value)

abbrev Id := Nat
abbrev Time := Int
abbrev Number := Rat
abbrev JsonValue := Value Number

inductive MessageStatus where
  | uploading | received | pending | approved | rejected
  deriving DecidableEq, Repr

inductive QuestionStatus where
  | draft | active | archived
  deriving DecidableEq, Repr

inductive TranscriptionStatus where
  | pending | succeeded | failed
  deriving DecidableEq, Repr

inductive ModerationRecommendation where
  | approve | review | reject
  deriving DecidableEq, Repr

inductive MessageReviewClassification where
  | likelyHangup | unclear
  deriving DecidableEq, Repr

inductive MessageReviewRecommendation where
  | delete | review
  deriving DecidableEq, Repr

inductive BoothEventType where
  | callStarted | callEnded | digitDialed | stateTransition | recordingStarted | recordingStopped
  | uploadStarted | uploadCompleted | uploadFailed | gpioEdge | audioDeviceChange
  | operatorRequest | operatorResponse | error | log | systemSample
  deriving DecidableEq, Repr

/-- `CallOutcomeSchema`: what a booth reports, and what a close-out writes. -/
inductive CallOutcome where
  | hungUpBeforeDial | hungUpDuringPrompt | hungUpDuringRecording | hungUpDuringUpload
  | recordingCompleted | recordingFailed | uploadFailed | operatorError | aborted
  | installationEnded
  deriving DecidableEq, Repr

inductive BoothState where
  | idle | dialTone | dialing | playingQuestion | beep | recording | uploading | playingMessage
  | playingInstructions | callUnavailable | error
  deriving DecidableEq, Repr

inductive RuntimeMode where
  | real | mock | simulator
  deriving DecidableEq, Repr

/-- An entry of `Installation.recentQuestionDraws`. -/
structure QuestionDraw where
  drawId : String
  questionId : Id
  deriving DecidableEq

structure Installation where
  id : Id
  name : String := ""
  notes : Option String := none
  location : Option String := none
  defaultTranscriptionLanguage : Option String := none
  startedAt : Time := 0
  endedAt : Option Time := none
  endedById : Option String := none
  createdAt : Time := 0
  questionSelectionCycle : Nat := 0
  lastSelectedQuestionId : Option Id := none
  recentQuestionDraws : List QuestionDraw := []

structure Question where
  id : Id
  prompt : String
  status : QuestionStatus := .draft
  audioId : Id
  createdAt : Time := 0
  retiredAt : Option Time := none
  weight : Nat := 1
  lastSelectedCycle : Option Nat := none
  selectionsInCycle : Nat := 0
  installationId : Option Id := none

structure File where
  id : Id
  blobKey : String := ""
  sha256 : String := ""
  sizeBytes : Int := 0
  durationMs : Option Int := none

structure Message where
  id : Id
  status : MessageStatus := .pending
  notes : Option String := none
  questionId : Option Id := none
  audioId : Id
  createdAt : Time := 0
  receivedAt : Option Time := none
  decidedAt : Option Time := none
  decidedById : Option String := none
  reviewClassification : Option MessageReviewClassification := none
  reviewRecommendation : Option MessageReviewRecommendation := none
  reviewClassifiedAt : Option Time := none
  reviewClassifiedById : Option String := none
  processingLeaseTokenHash : Option String := none
  processingLeaseExpiresAt : Option Time := none
  processingLeasedAt : Option Time := none
  processingLeasedById : Option String := none
  processingSnapshotHash : Option String := none
  processingAttemptCount : Nat := 0
  processingError : Option String := none
  processingFailedAt : Option Time := none
  processingCompletedAt : Option Time := none
  installationId : Option Id := none

structure Transcription where
  id : Id
  messageId : Id
  provider : String
  model : Option String := none
  status : TranscriptionStatus := .pending
  text : Option String := none
  language : Option String := none
  durationMs : Option Int := none
  latencyMs : Option Int := none
  error : Option String := none
  requestedById : Option String := none
  createdAt : Time := 0
  completedAt : Option Time := none
  translationStatus : Option TranscriptionStatus := none
  translatedText : Option String := none
  translatedLanguage : Option String := none
  translationProvider : Option String := none
  translationModel : Option String := none
  translationError : Option String := none
  translationLatencyMs : Option Int := none
  translationCompletedAt : Option Time := none

structure Moderation where
  id : Id
  messageId : Id
  transcriptionId : Option Id := none
  provider : String
  model : Option String := none
  status : TranscriptionStatus := .pending
  flagged : Option Bool := none
  recommendation : Option ModerationRecommendation := none
  maxScore : Option Number := none
  categories : Option JsonValue := none
  reasonSummary : Option String := none
  latencyMs : Option Int := none
  error : Option String := none
  requestedById : Option String := none
  createdAt : Time := 0
  completedAt : Option Time := none

structure CallSession where
  id : String
  boothId : String
  bootId : String
  startedAt : Time
  endedAt : Option Time := none
  digitsDialed : Option String := none
  outcome : Option CallOutcome := none
  recordingId : Option String := none
  durationMs : Option Int := none
  version : Option String := none
  installationId : Option Id := none
  deriving DecidableEq

structure BoothEvent where
  id : Id
  eventId : String
  boothId : String
  bootId : String
  type : BoothEventType
  occurredAt : Time
  receivedAt : Time
  sessionId : Option String := none
  recordingId : Option String := none
  payload : JsonValue := .obj []
  version : Option String := none
  installationId : Option Id := none

structure BoothStatusSnapshot where
  id : Id
  state : BoothState
  currentQuestionId : Option String := none
  currentMessageId : Option String := none
  lastError : Option String := none
  runtimeMode : Option RuntimeMode := none
  firstSeenAt : Time
  repeatCount : Nat := 1
  updatedAt : Time
  installationId : Option Id := none
  deriving DecidableEq

structure Db where
  installations : List Installation := []
  files : List File := []
  messages : List Message := []
  transcriptions : List Transcription := []
  moderations : List Moderation := []
  callSessions : List CallSession := []
  boothEvents : List BoothEvent := []
  boothStatusSnapshots : List BoothStatusSnapshot := []
  questions : List Question := []
  nextId : Id := 0

namespace Db

def message (db : Db) (id : Id) : Option Message := Table.findUnique (·.id) id db.messages

def installation (db : Db) (id : Id) : Option Installation :=
  Table.findUnique (·.id) id db.installations

/-- `lockInstallationForWrite`: the era exists and is open. -/
def lockInstallationForWrite (db : Db) (installationId : Id) : Bool :=
  match db.installation installationId with
  | none => false
  | some era => era.endedAt = none

/-- `findActiveInstallation`. -/
def findActiveInstallation (db : Db) : Option Installation :=
  Table.latest (·.startedAt) (fun era => era.endedAt = none) db.installations

def callSession (db : Db) (id : String) : Option CallSession :=
  Table.findUnique (·.id) id db.callSessions

def question (db : Db) (id : Id) : Option Question := Table.findUnique (·.id) id db.questions

def file (db : Db) (id : Id) : Option File := Table.findUnique (·.id) id db.files

def transcription (db : Db) (id : Id) : Option Transcription :=
  Table.findUnique (·.id) id db.transcriptions

def moderation (db : Db) (id : Id) : Option Moderation :=
  Table.findUnique (·.id) id db.moderations

/-- `findFirst({ where: { messageId, status: "succeeded" }, orderBy: { createdAt: "desc" } })`. -/
def latestSucceeded (db : Db) (messageId : Id) : Option Transcription :=
  Table.latest (·.createdAt) (fun row => row.messageId = messageId ∧ row.status = .succeeded)
    db.transcriptions

def updateMessages (db : Db) (found : Message → Bool) (change : Message → Message) : Db :=
  { db with messages := Table.updateMany found change db.messages }

def updateTranscriptions (db : Db) (found : Transcription → Bool)
    (change : Transcription → Transcription) : Db :=
  { db with transcriptions := Table.updateMany found change db.transcriptions }

def updateModerations (db : Db) (found : Moderation → Bool) (change : Moderation → Moderation) :
    Db :=
  { db with moderations := Table.updateMany found change db.moderations }

/-- Insert the row built from a fresh id. -/
def createTranscription (db : Db) (row : Id → Transcription) : Db :=
  { db with transcriptions := db.transcriptions ++ [row db.nextId], nextId := db.nextId + 1 }

def createModeration (db : Db) (row : Id → Moderation) : Db :=
  { db with moderations := db.moderations ++ [row db.nextId], nextId := db.nextId + 1 }

theorem ids_updateMessages {found : Message → Bool} {change : Message → Message}
    (kept : ∀ row, (change row).id = row.id) (db : Db) :
    (db.updateMessages found change).messages.map (·.id) = db.messages.map (·.id) :=
  Table.map_updateMany _ kept db.messages

theorem message_updateMessages {found : Message → Bool} {change : Message → Message}
    (kept : ∀ row, (change row).id = row.id) (db : Db) (id : Id) :
    (db.updateMessages found change).message id =
      (db.message id).map fun row => if found row then change row else row :=
  Table.findUnique_updateMany kept id db.messages

end Db

end BoothOperator.Schema
