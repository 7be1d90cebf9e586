import Mathlib.Algebra.Ring.Int.Defs
import Mathlib.Algebra.Ring.Nat
import BoothOperator.Schema

/-! The counters frozen onto an installation when it ends:
`computeInstallationSummary` and the part of `interaction-analytics.ts` it
calls, over the rows that its queries return. -/
namespace BoothOperator.Installations

open BoothOperator.Schema
open BoothOperator.Json (Value)

/-! ## `interaction-analytics.ts` -/

structure InteractionSession where
  startedAt : Time
  endedAt : Option Time
  outcome : Option String
  durationMs : Option Int
  digitsDialed : Option String

structure InteractionEvent where
  type : String
  payload : JsonValue

abbrev Record := List (String × Nat)

/-- `incRecord`. -/
def incRecord (record : Record) (key : String) : Record :=
  match record with
  | [] => [(key, 1)]
  | (name, count) :: rest =>
    if name = key then (name, count + 1) :: rest else (name, count) :: incRecord rest key

structure InteractionSessionSummary where
  total : Nat
  noSelection : Nat
  messagesLeft : Nat
  averageDurationMs : Option Number
  longestDurationMs : Option Int
  outcomes : Record

structure InteractionActionsSummary where
  digitsDialed : Record
  leaveMessageSelections : Nat := 0
  listenMessageSelections : Nat := 0
  instructionSelections : Nat := 0
  wrongNumberAttempts : Nat := 0
  messagePlaybackStarts : Nat := 0
  instructionPlaybackStarts : Nat := 0

structure InteractionBreakdown where
  noSelection : Nat
  wrongNumberAttempts : Nat
  messagesLeft : Nat
  messagePlaybackStarts : Nat
  instructionPlaybackStarts : Nat
  deriving DecidableEq

def noSelectionOutcome : String := "hung_up_before_dial"

def messageLeftOutcome : String := "recording_completed"

def messagePlaybackState : String := "playing_message"

def instructionPlaybackState : String := "playing_instructions"

def emptyDigitsDialed : Record :=
  (List.range 10).map fun digit => (toString digit, 0)

/-- `payload.name` of an object. -/
def member (payload : JsonValue) (name : String) : Option JsonValue :=
  match payload with
  | .obj members => Value.lookup name members
  | _ => none

def parseDigit (payload : JsonValue) : Option Nat :=
  match member payload "digit" with
  | some (.num digit) =>
    if digit.den = 1 ∧ 0 ≤ digit ∧ digit ≤ 9 then some digit.num.toNat else none
  | _ => none

/-- `digitSelectionKey`, with the counter it names raised. -/
def selectDigit (digit : Nat) (summary : InteractionActionsSummary) : InteractionActionsSummary :=
  if digit = 1 then
    { summary with leaveMessageSelections := summary.leaveMessageSelections + 1 }
  else if digit = 2 then
    { summary with listenMessageSelections := summary.listenMessageSelections + 1 }
  else if digit = 0 then
    { summary with instructionSelections := summary.instructionSelections + 1 }
  else if 3 ≤ digit ∧ digit ≤ 9 then
    { summary with wrongNumberAttempts := summary.wrongNumberAttempts + 1 }
  else summary

/-- `playbackSelectionKey`, with the counter it names raised. -/
def selectPlayback (payload : JsonValue) (summary : InteractionActionsSummary) :
    InteractionActionsSummary :=
  match member payload "to" with
  | some (.str state) =>
    if state = messagePlaybackState then
      { summary with messagePlaybackStarts := summary.messagePlaybackStarts + 1 }
    else if state = instructionPlaybackState then
      { summary with instructionPlaybackStarts := summary.instructionPlaybackStarts + 1 }
    else summary
  | _ => summary

def summarizeInteractionSessions (sessions : List InteractionSession) :
    InteractionSessionSummary :=
  let durations : List Int := sessions.filterMap (·.durationMs)
  let counted := sessions.filter fun session => session.endedAt.isSome || session.outcome.isSome
  { total := sessions.length
    noSelection := sessions.countP fun session => session.outcome = some noSelectionOutcome
    messagesLeft := sessions.countP fun session => session.outcome = some messageLeftOutcome
    averageDurationMs :=
      if durations = [] then none else some ((durations.sum : Int) / (durations.length : Nat))
    longestDurationMs := durations.max?
    outcomes := counted.foldl
      (fun record session => incRecord record (session.outcome.getD "unknown")) [] }

/-- One event of `summarizeInteractionActions`. -/
def countAction (summary : InteractionActionsSummary) (event : InteractionEvent) :
    InteractionActionsSummary :=
  if event.type = "digit_dialed" then
    match parseDigit event.payload with
    | none => summary
    | some digit =>
      selectDigit digit
        { summary with digitsDialed := incRecord summary.digitsDialed (toString digit) }
  else if event.type = "state_transition" then selectPlayback event.payload summary
  else summary

def summarizeInteractionActions (events : List InteractionEvent) : InteractionActionsSummary :=
  events.foldl countAction { digitsDialed := emptyDigitsDialed }

def summarizeInteractionBreakdown (sessions : List InteractionSession)
    (events : List InteractionEvent) : InteractionBreakdown :=
  let sessionSummary := summarizeInteractionSessions sessions
  let actionSummary := summarizeInteractionActions events
  { noSelection := sessionSummary.noSelection
    wrongNumberAttempts := actionSummary.wrongNumberAttempts
    messagesLeft := sessionSummary.messagesLeft
    messagePlaybackStarts := actionSummary.messagePlaybackStarts
    instructionPlaybackStarts := actionSummary.instructionPlaybackStarts }

/-! ## `computeInstallationSummary` -/

structure InstallationSummary where
  calls : Nat
  interactions : Nat
  interactionBreakdown : InteractionBreakdown
  messages : Nat
  allRecordings : Nat
  byStatus : Record
  messagesApproved : Nat
  messagesRejected : Nat
  questions : Nat
  events : Nat
  recordedMs : Int
  firstActivityAt : Option Time
  lastActivityAt : Option Time
  deriving DecidableEq

/-- A message with the length of its audio, when the file has one. -/
structure Recording where
  status : String
  durationMs : Option Int

/-- An event as the queries of the summary see it. -/
structure Activity where
  type : String
  payload : JsonValue
  occurredAt : Time

/-- The rows of one installation. -/
structure EraRows where
  sessions : List InteractionSession
  recordings : List Recording
  questions : Nat
  events : List Activity

def EraRows.landed (rows : EraRows) : List Recording :=
  rows.recordings.filter fun recording => recording.status ≠ "uploading"

def EraRows.actionEvents (rows : EraRows) : List InteractionEvent :=
  (rows.events.filter fun event =>
    event.type = "digit_dialed" ∨ event.type = "state_transition").map fun event =>
      { type := event.type, payload := event.payload }

def computeInstallationSummary (rows : EraRows) : InstallationSummary :=
  let approved := rows.recordings.countP fun recording => recording.status = "approved"
  { calls := rows.sessions.length
    interactions := rows.sessions.length
    interactionBreakdown := summarizeInteractionBreakdown rows.sessions rows.actionEvents
    messages := approved
    allRecordings := rows.landed.length
    byStatus := rows.landed.foldl (fun record recording => incRecord record recording.status) []
    messagesApproved := approved
    messagesRejected := rows.recordings.countP fun recording => recording.status = "rejected"
    questions := rows.questions
    events := rows.events.length
    recordedMs := (rows.landed.map fun recording => recording.durationMs.getD 0).sum
    firstActivityAt := (rows.events.map (·.occurredAt)).min?
    lastActivityAt := (rows.events.map (·.occurredAt)).max? }

end BoothOperator.Installations
