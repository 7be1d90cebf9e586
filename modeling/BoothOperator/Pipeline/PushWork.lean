import Mathlib.Data.Prod.Lex
import BoothOperator.Lib.Keyset
import BoothOperator.Lib.OrderedMap
import BoothOperator.Pipeline.Jobs

/-! The work that push workers have outstanding, as it is found page by page and
replayed to a worker that connects: `findOutstandingPushWorkPage` and the loop of
`replayOutstandingWork`. -/
namespace BoothOperator.Pipeline

open BoothOperator.Schema
open BoothOperator.Keyset

inductive WorkNeed where
  | translation | moderation
  deriving DecidableEq

structure OutstandingPushWork where
  messageId : Id
  needs : List WorkNeed
  deriving DecidableEq

abbrev PushWorkCursor := Time ×ₗ Id

structure OutstandingPushWorkCursor where
  translation : Option PushWorkCursor := none
  moderation : Option PushWorkCursor := none

structure OutstandingPushWorkPage where
  work : List OutstandingPushWork
  cursor : OutstandingPushWorkCursor
  hasMore : Bool

/-- The members of `resolveAiConfig()` that name the providers. -/
structure PushConfig where
  translationProvider : ProviderName
  moderationProvider : ProviderName

def transcriptionKey (row : Transcription) : PushWorkCursor := toLex (row.createdAt, row.id)

def moderationKey (row : Moderation) : PushWorkCursor := toLex (row.createdAt, row.id)

abbrev WorkByMessage := OrderedMap Id (List WorkNeed)

def addNeed (workByMessage : WorkByMessage) (messageId : Id) (need : WorkNeed) : WorkByMessage :=
  let needs := (workByMessage.get messageId).getD []
  workByMessage.set messageId (if need ∈ needs then needs else needs ++ [need])

/-- The first row of each message, of the rows in descending order. -/
def firstOfEach (rows : List Transcription) : OrderedMap Id Id :=
  rows.foldl (fun latest row =>
    if latest.has row.messageId then latest else latest.set row.messageId row.id) .empty

def latestTranscriptionIdsForMessages (messageIds : List Id) (db : Db) : OrderedMap Id Id :=
  firstOfEach
    (orderDesc transcriptionKey (db.transcriptions.filter fun row => row.messageId ∈ messageIds))

/-- A transcript whose translation is left to a push worker. -/
def pushTranslation (row : Transcription) : Bool :=
  row.status = .succeeded ∧ row.translationStatus = some .pending ∧
    row.translationProvider = some "push"

/-- A verdict that is left to a push worker. -/
def pushModeration (row : Moderation) : Bool := row.status = .pending ∧ row.provider = "push"

/-- The rows that the two queries choose from, without their cursors. -/
def translationRows (staleBefore : Option Time) (db : Db) : List Transcription :=
  db.transcriptions.filter fun row =>
    pushTranslation row && staleBefore.all fun bound => row.createdAt < bound

def moderationRows (staleBefore : Option Time) (db : Db) : List Moderation :=
  db.moderations.filter fun row =>
    pushModeration row && staleBefore.all fun bound => row.createdAt < bound

/-- `if (latestIds.get(row.messageId) === row.id) addNeed(.., "translation")`. -/
def addTranslation (latestIds : OrderedMap Id Id) (work : WorkByMessage) (row : Transcription) :
    WorkByMessage :=
  if latestIds.get row.messageId = some row.id then addNeed work row.messageId .translation
  else work

def addModeration (latestIds : OrderedMap Id Id) (work : WorkByMessage) (row : Moderation) :
    WorkByMessage :=
  match row.transcriptionId with
  | none => work
  | some id =>
    if latestIds.get row.messageId = some id then addNeed work row.messageId .moderation else work

/-- The needs of the rows of a page. -/
def workOf (translations : List Transcription) (moderations : List Moderation) (db : Db) :
    WorkByMessage :=
  let latestIds := latestTranscriptionIdsForMessages
    (translations.map (·.messageId) ++ moderations.map (·.messageId)) db
  moderations.foldl (addModeration latestIds)
    (translations.foldl (addTranslation latestIds) .empty)

def findOutstandingPushWorkPage (config : PushConfig) (staleBefore : Option Time) (take : Nat)
    (cursor : OutstandingPushWorkCursor) (db : Db) : OutstandingPushWorkPage :=
  let translations := if config.translationProvider = .push then
      findMany transcriptionKey take cursor.translation (translationRows staleBefore db)
    else []
  let moderations := if config.moderationProvider = .push then
      findMany moderationKey take cursor.moderation (moderationRows staleBefore db)
    else []
  { work := (workOf translations moderations db).entries.map fun entry => ⟨entry.1, entry.2⟩
    cursor :=
      { translation := Keyset.advance transcriptionKey cursor.translation translations
        moderation := Keyset.advance moderationKey cursor.moderation moderations }
    hasMore :=
      (config.translationProvider = .push && translations.length = take) ||
      (config.moderationProvider = .push && moderations.length = take) }

/-- The work that the loop of `replayOutstandingWork` sends, and none when it has
not come to an end within the turns. -/
def replayOutstandingWork (config : PushConfig) (take : Nat) (db : Db) :
    Nat → OutstandingPushWorkCursor → Option (List OutstandingPushWork)
  | 0, _ => none
  | turns + 1, cursor =>
    let page := findOutstandingPushWorkPage config none take cursor db
    if page.hasMore then
      (replayOutstandingWork config take db turns page.cursor).map (page.work ++ ·)
    else some page.work

/-- The messages with what is needed of each. -/
def pairs (work : List OutstandingPushWork) : List (Id × WorkNeed) :=
  work.flatMap fun item => item.needs.map fun need => (item.messageId, need)

/-! ## What is wanted -/

/-- A transcript, if there is one, whose translation is left to a push worker. -/
def AwaitsTranslation (transcript : Option Transcription) : Prop :=
  ∃ row, transcript = some row ∧ pushTranslation row = true

/-- A transcript of the message, if there is one, whose verdict is left to a push worker. -/
def AwaitsModeration (db : Db) (messageId : Id) (transcript : Option Transcription) : Prop :=
  ∃ row, transcript = some row ∧ ∃ verdict ∈ db.moderations,
    verdict.messageId = messageId ∧ verdict.transcriptionId = some row.id ∧
      pushModeration verdict = true

/-- The work on the message's latest succeeded transcript, as its writers know it. -/
def Outstanding (config : PushConfig) (db : Db) (messageId : Id) : WorkNeed → Prop
  | .translation => config.translationProvider = .push ∧
    AwaitsTranslation (db.latestSucceeded messageId)
  | .moderation => config.moderationProvider = .push ∧
    AwaitsModeration db messageId (db.latestSucceeded messageId)

/-- The loop comes to an end, and sends what is outstanding, each pair once. -/
def ReplayComplete (config : PushConfig) (take : Nat) (db : Db) : Prop :=
  ∃ turns work, replayOutstandingWork config take db turns {} = some work ∧
    (pairs work).Nodup ∧
    ∀ messageId need, (messageId, need) ∈ pairs work ↔ Outstanding config db messageId need

/-- The transcription that the pages go by: the newest one, whatever became of it. -/
def latestAttempt (db : Db) (messageId : Id) : Option Transcription :=
  (orderDesc transcriptionKey (db.transcriptions.filter (·.messageId = messageId))).head?

/-- The newest transcription of each message calls for the work that the latest
transcript does, and no two pages hold pending verdicts on it. -/
structure Replayable (config : PushConfig) (take : Nat) (db : Db) : Prop where
  paged : config.translationProvider = .push ∨ config.moderationProvider = .push → 0 < take
  translation : config.translationProvider = .push → ∀ messageId,
    AwaitsTranslation (latestAttempt db messageId) ↔
      AwaitsTranslation (db.latestSucceeded messageId)
  moderation : config.moderationProvider = .push → ∀ messageId,
    AwaitsModeration db messageId (latestAttempt db messageId) ↔
      AwaitsModeration db messageId (db.latestSucceeded messageId)
  together : config.moderationProvider = .push → ∀ (first second : Nat) (one other : Moderation),
    (orderDesc moderationKey (moderationRows none db))[first]? = some one →
    (orderDesc moderationKey (moderationRows none db))[second]? = some other →
    one.messageId = other.messageId → one.transcriptionId = other.transcriptionId →
    one.transcriptionId ≠ none →
    (latestAttempt db one.messageId).map (·.id) = one.transcriptionId →
    first / take = second / take

/-- The primary keys of the two tables. -/
structure Keyed (db : Db) : Prop where
  transcriptions : (db.transcriptions.map (·.id)).Nodup
  moderations : (db.moderations.map (·.id)).Nodup

end BoothOperator.Pipeline
