import Mathlib.Data.List.Dedup
import BoothOperator.Pipeline.ReviewText

/-! The transactions that store an AI result produced outside the in-process
pipeline: `recordTranscriptionResultInTransaction`,
`recordTranslationResultInTransaction`, `recordModerationResultInTransaction`,
the worker's translation callback and the hash-checked branch of the operator's
moderation route. Each holds the `Message` row `FOR UPDATE` from its first
statement to its end, so it is one step from database to database. `now` is
the clock the transaction reads, `sha256` the hex digest of a UTF-8 text. -/
namespace BoothOperator.Pipeline

open BoothOperator.Schema
open BoothOperator.TranslationText
open BoothOperator.Json (Value)

variable (sha256 : String → String) (now : Time)

/-! ## Superseding verdicts -/

/-- `status: { in: ["pending", "succeeded"] }`. -/
def Live (row : Moderation) : Prop := row.status = .pending ∨ row.status = .succeeded

instance (row : Moderation) : Decidable (Live row) := inferInstanceAs (Decidable (_ ∨ _))

/-- Fail the live verdicts the selection covers. -/
def supersede (selected : Moderation → Bool) (error : String) (db : Db) : Db :=
  db.updateModerations (fun row => selected row ∧ Live row) fun row =>
    { row with status := .failed, error := some error, completedAt := some now }

/-- `where: { messageId, status: { in: ["pending", "succeeded"] } }`. -/
def supersedeByTranscription (messageId : Id) (db : Db) : Db :=
  supersede now (fun row => row.messageId = messageId) "superseded_by_transcription" db

/-- `where: { messageId, OR: [{ transcriptionId }, { transcriptionId: null }], status: .. }`. -/
def supersedeByTranslation (messageId transcriptionId : Id) (db : Db) : Db :=
  supersede now
    (fun row => row.messageId = messageId ∧
      (row.transcriptionId = some transcriptionId ∨ row.transcriptionId = none))
    "superseded_by_translation" db

/-- `advanceMessageAfterModeration`: `where: { id, status: "received" }`. -/
def advanceMessageAfterModeration (messageId : Id) (db : Db) : Db :=
  db.updateMessages (fun row => row.id = messageId ∧ row.status = .received) fun row =>
    { row with status := .pending }

/-! ## Transcription results -/

/-- The provider a client may name for its result. -/
inductive ResultProvider where
  | push | onDevice
  deriving DecidableEq, Repr

def ResultProvider.column : ResultProvider → String
  | .push => "push"
  | .onDevice => "on_device"

/-- The `expected..` members are absent (`none`), null or a value. -/
structure RecordTranscriptionResultOptions where
  messageId : Id
  transcriptionId : Option Id := none
  expectedLatestTranscriptionId : Option (Option Id) := none
  expectedLatestTranscriptionSha256 : Option (Option String) := none
  text : String
  language : Option String := none
  model : Option String := none
  provider : Option ResultProvider := none
  processDownstream : Bool := true
  requestedByUserId : Option String := none

inductive RecordTranscriptionResultOutcome where
  | notFound
  | staleTranscription
  | unchanged (transcriptionId : Id)
  | recorded (transcriptionId : Id)
  deriving DecidableEq, Repr

def TranscriptionStatus.column : TranscriptionStatus → String
  | .pending => "pending"
  | .succeeded => "succeeded"
  | .failed => "failed"

def latestTranscription (db : Db) (messageId : Id) : Option Transcription :=
  Table.latest (·.createdAt) (fun row => row.messageId = messageId) db.transcriptions

/-- Either expectation of the caller is not met by the latest row. -/
def expectationStale (opts : RecordTranscriptionResultOptions) (db : Db) : Bool :=
  let latest := latestTranscription db opts.messageId
  let latestSha256 := latest.map fun row =>
    sha256 (TranscriptionStatus.column row.status ++ "\n" ++ trim (row.text.getD ""))
  (match opts.expectedLatestTranscriptionId with
    | none => false
    | some expected => decide (latest.map (·.id) ≠ expected)) ||
  (match opts.expectedLatestTranscriptionSha256 with
    | none => false
    | some expected => decide (latestSha256 ≠ expected.map String.toLower))

/-- `findFirst` of a pending row, the one asked for when one is named. -/
def pendingTranscription (db : Db) (messageId : Id) (transcriptionId : Option Id) :
    Option Transcription :=
  Table.latest (·.createdAt)
    (fun row => row.messageId = messageId ∧ row.status = .pending ∧
      (transcriptionId = none ∨ transcriptionId = some row.id))
    db.transcriptions

/-- The result lands on the pending row. -/
def finalizeTranscription (opts : RecordTranscriptionResultOptions) (pending : Transcription)
    (db : Db) : RecordTranscriptionResultOutcome × Db :=
  let found (row : Transcription) : Bool := row.id = pending.id ∧ row.status = .pending
  if db.transcriptions.countP found = 0 then (.unchanged pending.id, db)
  else
    let updated := db.updateTranscriptions found fun row =>
      { row with
        provider := (opts.provider.getD .push).column
        model := opts.model
        status := .succeeded
        text := some opts.text
        language := opts.language
        latencyMs := some (now - pending.createdAt)
        completedAt := some now
        requestedById := opts.requestedByUserId <|> row.requestedById }
    (.recorded pending.id, supersedeByTranscription now opts.messageId updated)

/-- The latest transcript is this very result, delivered again. -/
def redelivered (opts : RecordTranscriptionResultOptions) (latest : Transcription) : Bool :=
  latest.status = .succeeded ∧
    trim (latest.text.getD "") = trim opts.text ∧
    latest.language = opts.language ∧
    latest.model = opts.model ∧
    latest.provider = (opts.provider.getD .push).column ∧
    latest.requestedById = opts.requestedByUserId

/-- No row is pending: the result becomes a row of its own. -/
def createTranscript (opts : RecordTranscriptionResultOptions) (message : Message) (db : Db) :
    RecordTranscriptionResultOutcome × Db :=
  let created := db.createTranscription fun id =>
    { id
      messageId := opts.messageId
      provider := (opts.provider.getD .push).column
      model := opts.model
      status := .succeeded
      text := some opts.text
      language := opts.language
      durationMs := (db.file message.audioId).bind (·.durationMs)
      completedAt := some now
      requestedById := opts.requestedByUserId
      createdAt := now }
  (.recorded db.nextId, supersedeByTranscription now opts.messageId created)

def recordTranscriptionResultInTransaction (opts : RecordTranscriptionResultOptions) (db : Db) :
    RecordTranscriptionResultOutcome × Db :=
  match db.message opts.messageId with
  | none => (.notFound, db)
  | some message =>
    if expectationStale sha256 opts db then (.staleTranscription, db)
    else match pendingTranscription db opts.messageId opts.transcriptionId with
      | some pending =>
        if opts.transcriptionId = none ∧ opts.provider ≠ some .onDevice then
          (.staleTranscription, db)
        else finalizeTranscription now opts pending db
      | none =>
        if opts.transcriptionId ≠ none then (.staleTranscription, db)
        else match latestTranscription db opts.messageId with
          | none => createTranscript now opts message db
          | some latest =>
            if opts.provider ≠ some .onDevice ∧ latest.status = .succeeded ∧
                latest.provider = ResultProvider.onDevice.column then (.staleTranscription, db)
            else if redelivered opts latest then (.unchanged latest.id, db)
            else createTranscript now opts message db

/-! ## Translation results -/

/-- `expectedTranslationSha256` is undefined (`none`), null or a value. -/
structure RecordTranslationResultOptions where
  messageId : Id
  transcriptionId : Option Id := none
  expectedTranscriptionId : Option Id := none
  expectedTranslationSha256 : Option (Option String) := none
  translatedText : String
  translatedLanguage : Option String := none
  model : Option String := none
  onDevice : Bool := false

inductive RecordTranslationResultOutcome where
  | notFound
  | noTranscription
  | staleTranscription
  | staleTranslation
  | recorded (transcriptionId : Id)
  deriving DecidableEq, Repr

/-- Write a translation over a row, superseding the verdicts on the text it
replaces when the texts differ. -/
def storeTranslation (messageId : Id) (row : Transcription) (translatedText : String)
    (found : Transcription → Bool) (change : Transcription → Transcription) (db : Db) : Db :=
  let updated := db.updateTranscriptions found fun old =>
    withTranslation (change old) translatedText
  if previousReviewText row ≠ some translatedText then
    supersedeByTranslation now messageId row.id updated
  else updated

def recordTranslationResultInTransaction (opts : RecordTranslationResultOptions) (db : Db) :
    RecordTranslationResultOutcome × Db :=
  let translatedText := normalizeTranslationText opts.translatedText
  match db.message opts.messageId with
  | none => (.notFound, db)
  | some _ =>
    match db.latestSucceeded opts.messageId with
    | none => (.noTranscription, db)
    | some latest =>
      match opts.transcriptionId <|> opts.expectedTranscriptionId with
      | some target =>
        if latest.id ≠ target then (.staleTranscription, db) else store latest translatedText
      | none => store latest translatedText
where
  store (latest : Transcription) (translatedText : String) :
      RecordTranslationResultOutcome × Db :=
    let currentTranslationSha256 :=
      (succeededTranslation latest).map fun text => sha256 (normalizeTranslationText text)
    if opts.expectedTranslationSha256 ≠ none ∧
        opts.expectedTranslationSha256 ≠ some currentTranslationSha256 then (.staleTranslation, db)
    else
      (.recorded latest.id,
        storeTranslation now opts.messageId latest translatedText (fun row => row.id = latest.id)
          (fun row =>
            { row with
              translatedLanguage := opts.translatedLanguage
              translationProvider := if opts.onDevice then some "on_device" else none
              translationModel := if opts.onDevice then opts.model else none
              translationError := none
              translationCompletedAt := some now })
          db)

/-- The transcript a result is stored over, when it passes the checks before the write. -/
def RecordTranslationResultOptions.target (opts : RecordTranslationResultOptions) (db : Db) :
    Option Transcription :=
  (db.message opts.messageId).bind fun _ =>
    (db.latestSucceeded opts.messageId).filter fun latest =>
      (opts.transcriptionId <|> opts.expectedTranscriptionId).all (latest.id = ·) ∧
        (opts.expectedTranslationSha256 = none ∨
          opts.expectedTranslationSha256 = some
            ((succeededTranslation latest).map fun text => sha256 (normalizeTranslationText text)))

theorem RecordTranslationResultOptions.target_latest {opts : RecordTranslationResultOptions}
    {db : Db} {row : Transcription} (target : opts.target sha256 db = some row) :
    db.latestSucceeded opts.messageId = some row := by
  obtain ⟨_, -, found⟩ := Option.bind_eq_some_iff.mp target
  exact (Option.filter_eq_some_iff.mp found).1

/-- The body of `POST /v1/worker/messages/:id/translation`. -/
structure TranslationBody where
  messageId : Id
  transcriptionId : Id
  inputSha256 : String
  translatedText : String
  targetLanguage : Option String := none
  model : Option String := none

inductive WorkerTranslationOutcome where
  | notFound
  | staleTranscription
  | staleInput
  | recorded (count : Nat)
  deriving DecidableEq, Repr

/-- The transaction of `POST /v1/worker/messages/:id/translation`. -/
def workerTranslation (data : TranslationBody) (db : Db) : WorkerTranslationOutcome × Db :=
  let translatedText := normalizeTranslationText data.translatedText
  match db.message data.messageId with
  | none => (.notFound, db)
  | some _ =>
    match db.transcription data.transcriptionId, db.latestSucceeded data.messageId with
    | some current, some latest =>
      if latest.id ≠ current.id then (.staleTranscription, db)
      else if sha256 (transcript current) ≠ data.inputSha256 then (.staleInput, db)
      else
        let found (row : Transcription) : Bool :=
          row.id = current.id ∧ row.translationStatus = some .pending
        let count := db.transcriptions.countP found
        if count = 0 then (.recorded 0, db)
        else
          (.recorded count,
            storeTranslation now data.messageId current translatedText found
              (fun row =>
                { row with
                  translatedLanguage := some (data.targetLanguage.getD "en")
                  translationModel := data.model <|> current.translationModel
                  translationLatencyMs := some (now - current.createdAt)
                  translationCompletedAt := some now
                  translationError := none })
              db)
    | _, _ => (.staleTranscription, db)

/-- The transcript the worker's translation is stored over, when it passes the checks. -/
def TranslationBody.target (data : TranslationBody) (db : Db) : Option Transcription :=
  (db.message data.messageId).bind fun _ =>
    (db.transcription data.transcriptionId).filter fun current =>
      (db.latestSucceeded data.messageId).map (·.id) = some current.id ∧
        sha256 (transcript current) = data.inputSha256 ∧
        db.transcriptions.countP
          (fun row => row.id = current.id ∧ row.translationStatus = some .pending) ≠ 0

/-! ## Moderation results -/

/-- The columns return a uuid in lower case. The code compares the texts, so it matters to some
checks whether a request spells its ids that way too (`..AsStored`). -/
structure RecordModerationResultOptions where
  messageId : Id
  messageIdAsStored : Bool := true
  transcriptionId : Option Id := none
  transcriptionIdAsStored : Bool := true
  flagged : Bool
  recommendation : ModerationRecommendation
  maxScore : Number
  categories : Option (List (String × Number)) := none
  reasonSummary : Option String := none
  model : Option String := none
  inputSha256 : Option String := none
  provider : Option String := none
  requestedByUserId : Option String := none
  createWhenMissing : Bool

/-- The ids are spelled as a column returned them. -/
def RecordModerationResultOptions.AsStored (opts : RecordModerationResultOptions) : Prop :=
  opts.messageIdAsStored = true ∧ opts.transcriptionIdAsStored = true

inductive RecordModerationResultOutcome where
  | notFound
  | transcriptionNotFound
  | staleTranscription
  | staleInput
  | unchanged (moderationId : Option Id)
  | recorded (moderationId : Id)
  deriving DecidableEq, Repr

/-- A score map as the JSON column stores it. -/
def categoriesColumn (categories : Option (List (String × Number))) : JsonValue :=
  .obj ((categories.getD []).map fun entry => (entry.1, .num entry.2))

/-- `categoriesMatch`, and `scoreMapsEqual` of the operator's route. -/
def categoriesMatch (stored : Option JsonValue) (submitted : Option (List (String × Number))) :
    Bool :=
  let next := (submitted.getD []).map fun entry => (entry.1, (Value.num entry.2 : JsonValue))
  let previous := match stored with
    | some (.obj members) => members
    | _ => []
  (Value.keys next).length = (Value.keys previous).length &&
    (Value.keys next).all fun key =>
      match Value.lookup key previous, Value.lookup key next with
      | some (.num stored), some (.num sent) => stored = sent
      | _, _ => false

theorem lookup_num {entries : List (String × Number)} {key : String}
    (member : key ∈ Value.keys (entries.map fun entry => (entry.1, (Value.num entry.2 : JsonValue)))) :
    ∃ score, Value.lookup key
      (entries.map fun entry => (entry.1, (Value.num entry.2 : JsonValue))) = some (.num score) := by
  simp only [Value.keys, List.mem_dedup, List.mem_map] at member
  obtain ⟨named, ⟨entry, there, rfl⟩, rfl⟩ := member
  unfold Value.lookup
  cases found : (entries.map fun entry => (entry.1, (Value.num entry.2 : JsonValue))).reverse.find?
      (fun other => other.1 == entry.1) with
  | none =>
    have listed : (entry.1, (Value.num entry.2 : JsonValue)) ∈
        (entries.map fun entry => (entry.1, (Value.num entry.2 : JsonValue))).reverse :=
      List.mem_reverse.mpr (List.mem_map.mpr ⟨entry, there, rfl⟩)
    simpa using List.find?_eq_none.mp found _ listed
  | some other =>
    have listed := List.mem_reverse.mp (List.mem_of_find?_eq_some found)
    obtain ⟨source, -, rfl⟩ := List.mem_map.mp listed
    exact ⟨source.2, rfl⟩

/-- The scores as they are stored are the scores that were sent. -/
theorem categoriesMatch_column (categories : Option (List (String × Number))) :
    categoriesMatch (some (categoriesColumn categories)) categories = true := by
  simp only [categoriesMatch, categoriesColumn, decide_true, Bool.true_and, List.all_eq_true]
  intro key member
  obtain ⟨score, found⟩ := lookup_num member
  rw [found]
  simp

def latestModeration (db : Db) (messageId : Id) : Option Moderation :=
  Table.latest (·.createdAt) (fun row => row.messageId = messageId) db.moderations

def pendingModeration (db : Db) (messageId : Id) (transcriptionId : Option Id) :
    Option Moderation :=
  Table.latest (·.createdAt)
    (fun row => row.messageId = messageId ∧
      (transcriptionId = none ∨ transcriptionId = row.transcriptionId) ∧ row.status = .pending)
    db.moderations

/-- The latest verdict is this very result, delivered again. -/
def verdictRedelivered (opts : RecordModerationResultOptions) (latest : Moderation) : Bool :=
  latest.status = .succeeded ∧
    latest.transcriptionId = opts.transcriptionId ∧
    latest.provider = opts.provider.getD "push" ∧
    latest.flagged = some opts.flagged ∧
    latest.recommendation = some opts.recommendation ∧
    latest.maxScore = some opts.maxScore ∧
    categoriesMatch latest.categories opts.categories ∧
    latest.reasonSummary = opts.reasonSummary ∧
    latest.model = opts.model ∧
    latest.requestedById = opts.requestedByUserId

def verdictRow (opts : RecordModerationResultOptions) (id : Id) : Moderation where
  id
  messageId := opts.messageId
  transcriptionId := opts.transcriptionId
  provider := opts.provider.getD "push"
  model := opts.model
  status := .succeeded
  flagged := some opts.flagged
  recommendation := some opts.recommendation
  maxScore := some opts.maxScore
  categories := some (categoriesColumn opts.categories)
  reasonSummary := opts.reasonSummary
  completedAt := some now
  requestedById := opts.requestedByUserId
  createdAt := now

/-- The verdict as a row of its own, for a message with nothing pending. -/
def createVerdict (opts : RecordModerationResultOptions) (db : Db) :
    RecordModerationResultOutcome × Db :=
  if opts.createWhenMissing then
    match (latestModeration db opts.messageId).filter (verdictRedelivered opts) with
    | some latest => (.unchanged (some latest.id), db)
    | none => (.recorded db.nextId, db.createModeration (verdictRow now opts))
  else (.unchanged none, db)

/-- The verdict lands on the pending row. -/
def finalizeVerdict (opts : RecordModerationResultOptions) (pending : Moderation) (db : Db) :
    RecordModerationResultOutcome × Db :=
  let found (row : Moderation) : Bool := row.id = pending.id ∧ row.status = .pending
  if db.moderations.countP found = 0 then
    if opts.createWhenMissing then createVerdict now opts db
    else (.unchanged (some pending.id), db)
  else
    (.recorded pending.id, db.updateModerations found fun row =>
      { row with
        status := .succeeded
        flagged := some opts.flagged
        recommendation := some opts.recommendation
        maxScore := some opts.maxScore
        categories := some (categoriesColumn opts.categories)
        reasonSummary := opts.reasonSummary
        model := opts.model <|> (if opts.provider = none then pending.model else none)
        provider := opts.provider.getD row.provider
        latencyMs := some (now - pending.createdAt)
        completedAt := some now
        requestedById := opts.requestedByUserId <|> row.requestedById })

/-- The checks on the transcription the verdict names. -/
def verdictTargetError (opts : RecordModerationResultOptions) (db : Db) :
    Option RecordModerationResultOutcome :=
  match opts.transcriptionId with
  | none => none
  | some transcriptionId =>
    match db.transcription transcriptionId with
    | none => some .transcriptionNotFound
    | some transcription =>
      if transcription.messageId ≠ opts.messageId ∨ ¬ opts.messageIdAsStored then
        some .transcriptionNotFound
      else if (db.latestSucceeded opts.messageId).map (·.id) ≠ some transcriptionId ∨
          ¬ opts.transcriptionIdAsStored then
        some .staleTranscription
      else match opts.inputSha256 with
        | none => none
        | some inputSha256 =>
          if inputSha256 = "" ∨ sha256 (recordedInput transcription) = inputSha256 then none
          else some .staleInput

/-- A result is taken as the verdict on the transcription it names: it passes the checks, and
there is a pending row for it, or it may have one of its own. -/
def RecordModerationResultOptions.Accepted (opts : RecordModerationResultOptions) (db : Db) : Prop :=
  (db.message opts.messageId).isSome ∧ opts.transcriptionId ≠ none ∧
    verdictTargetError sha256 opts db = none ∧
    (opts.createWhenMissing = true ∨
      (pendingModeration db opts.messageId opts.transcriptionId).isSome)

instance (opts : RecordModerationResultOptions) (db : Db) : Decidable (opts.Accepted sha256 db) :=
  inferInstanceAs (Decidable (_ ∧ _ ∧ _ ∧ _))

def recordModerationResultInTransaction (opts : RecordModerationResultOptions) (db : Db) :
    RecordModerationResultOutcome × Db :=
  match db.message opts.messageId with
  | none => (.notFound, db)
  | some _ =>
    match verdictTargetError sha256 opts db with
    | some error => (error, db)
    | none =>
      match pendingModeration db opts.messageId opts.transcriptionId with
      | none => createVerdict now opts db
      | some pending =>
        if opts.transcriptionId = none ∧ pending.transcriptionId ≠ none then
          (.staleTranscription, db)
        else finalizeVerdict now opts pending db

/-- The body of `POST /v1/messages/:id/moderation` when it names its input. -/
structure ModerationSubmit where
  messageId : Id
  messageIdAsStored : Bool := true
  transcriptionId : Id
  transcriptionIdAsStored : Bool := true
  inputSha256 : String
  flagged : Bool
  recommendation : ModerationRecommendation
  maxScore : Number
  categories : Option (List (String × Number)) := none
  reasonSummary : Option String := none
  model : Option String := none
  userId : Option String := none

/-- The operator's verdict in the shape of a recorded one: the operator's
route compares a redelivery field by field as the shared function does. -/
def ModerationSubmit.result (data : ModerationSubmit) : RecordModerationResultOptions where
  messageId := data.messageId
  messageIdAsStored := data.messageIdAsStored
  transcriptionId := some data.transcriptionId
  transcriptionIdAsStored := data.transcriptionIdAsStored
  flagged := data.flagged
  recommendation := data.recommendation
  maxScore := data.maxScore
  categories := data.categories
  reasonSummary := data.reasonSummary
  model := data.model
  provider := some "on_device"
  requestedByUserId := data.userId
  createWhenMissing := true

/-- The transaction of the hash-checked branch of `POST /v1/messages/:id/moderation`. -/
def submitModeration (data : ModerationSubmit) (db : Db) : RecordModerationResultOutcome × Db :=
  match db.message data.messageId with
  | none => (.notFound, db)
  | some _ =>
    match db.transcription data.transcriptionId with
    | none => (.transcriptionNotFound, db)
    | some transcription =>
      if transcription.messageId ≠ data.messageId ∨ transcription.status ≠ .succeeded then
        (.transcriptionNotFound, db)
      else if (db.latestSucceeded data.messageId).map (·.id) ≠ some transcription.id then
        (.staleTranscription, db)
      else if sha256 (submittedInput transcription) ≠ data.inputSha256 then (.staleInput, db)
      else match pendingModeration db data.messageId (some transcription.id) with
        | some pending =>
          (.recorded pending.id, db.updateModerations (fun row => row.id = pending.id) fun row =>
            { row with
              provider := "on_device"
              model := data.model
              status := .succeeded
              flagged := some data.flagged
              recommendation := some data.recommendation
              maxScore := some data.maxScore
              categories := some (categoriesColumn data.categories)
              reasonSummary := data.reasonSummary
              latencyMs := some (now - pending.createdAt)
              completedAt := some now
              requestedById := data.userId })
        | none =>
          match createVerdict now data.result db with
          | (.unchanged (some id), after) => (.recorded id, after)
          | outcome => outcome

/-- The operator's verdict passes the checks of its branch. -/
def ModerationSubmit.Accepted (data : ModerationSubmit) (db : Db) : Prop :=
  (db.message data.messageId).isSome ∧ ∃ row ∈ db.transcription data.transcriptionId,
    row.messageId = data.messageId ∧ row.status = .succeeded ∧
      (db.latestSucceeded data.messageId).map (·.id) = some row.id ∧
      sha256 (submittedInput row) = data.inputSha256

instance (data : ModerationSubmit) (db : Db) : Decidable (data.Accepted sha256 db) :=
  inferInstanceAs (Decidable (_ ∧ ∃ _ ∈ _, _))

/-! ## The writers of translations store them over their target -/

/-- The rows are as they were, or the translation is on its target, the latest transcript. -/
def StoresOver (messageId : Id) (text : String) (target : Option Transcription) (db after : Db) :
    Prop :=
  after = db ∨ ∃ row found change,
    after = storeTranslation now messageId row text found change db ∧
    target = some row ∧ row ∈ db.transcriptions ∧
    (db.latestSucceeded messageId).map (·.id) = some row.id ∧
    (∀ other, found other = true → other.id = row.id) ∧
    ∀ other, (change other).id = other.id ∧ (change other).messageId = other.messageId ∧
      (change other).status = other.status ∧ (change other).text = other.text

section Targets

variable {db : Db}

theorem storesOver_recordTranslation (opts : RecordTranslationResultOptions) :
    StoresOver now opts.messageId (normalizeTranslationText opts.translatedText)
      (opts.target sha256 db) db (recordTranslationResultInTransaction sha256 now opts db).2 := by
  have store (message : Message) (there : db.message opts.messageId = some message)
      (latest : Transcription) (found : db.latestSucceeded opts.messageId = some latest)
      (meant : (opts.transcriptionId <|> opts.expectedTranscriptionId).all (latest.id = ·) = true) :
      StoresOver now opts.messageId (normalizeTranslationText opts.translatedText)
        (opts.target sha256 db) db (recordTranslationResultInTransaction.store sha256 now opts db
          latest (normalizeTranslationText opts.translatedText)).2 := by
    simp only [recordTranslationResultInTransaction.store]
    split
    · exact .inl rfl
    · rename_i seen
      rw [not_and_or, not_not, not_not] at seen
      have target : opts.target sha256 db = some latest := by
        simp only [RecordTranslationResultOptions.target, there, found, Option.bind_some,
          Option.filter_some, meant, seen, and_self, decide_true, if_true]
      exact .inr ⟨latest, _, _, rfl, target, (Table.latest_mem found).1,
        by rw [found, Option.map_some], fun _ => of_decide_eq_true, fun _ => ⟨rfl, rfl, rfl, rfl⟩⟩
  unfold recordTranslationResultInTransaction
  simp only
  split
  · exact .inl rfl
  rename_i message there
  split
  · exact .inl rfl
  rename_i latest found
  split
  · rename_i target named
    split
    · exact .inl rfl
    · rename_i same
      exact store message there latest found (by simpa [named] using same)
  · rename_i unnamed
    exact store message there latest found (by simp [unnamed])

theorem storesOver_workerTranslation (data : TranslationBody) :
    StoresOver now data.messageId (normalizeTranslationText data.translatedText)
      (data.target sha256 db) db (workerTranslation sha256 now data db).2 := by
  simp only [workerTranslation]
  split
  · exact .inl rfl
  rename_i there
  split
  · rename_i current latest currentFound latestFound
    split
    · exact .inl rfl
    rename_i same
    split
    · exact .inl rfl
    rename_i read
    split
    · exact .inl rfl
    · rename_i claimed
      rw [not_not] at same read
      have target : data.target sha256 db = some current := by
        simp only [TranslationBody.target, there, currentFound, latestFound, same, read, claimed,
          Option.bind_some, Option.filter_some, Option.map_some, Ne, not_false_eq_true, and_self,
          decide_true, if_true]
      refine .inr ⟨current, _, _, rfl, target, (Table.findUnique_mem currentFound).1,
        by rw [latestFound, Option.map_some, same], fun other matched => ?_,
        fun _ => ⟨rfl, rfl, rfl, rfl⟩⟩
      exact (of_decide_eq_true matched).1
  · exact .inl rfl

end Targets

/-! ## The transactions that store results leave the messages alone -/

section Stored

variable (sha256 : String → String) (now : Time)

@[simp]
theorem storeTranslation_messages (messageId : Id) (row : Transcription) (text : String)
    (found : Transcription → Bool) (change : Transcription → Transcription) (db : Db) :
    (storeTranslation now messageId row text found change db).messages = db.messages := by
  unfold storeTranslation
  simp only
  split <;> rfl

theorem finalizeTranscription_messages (opts : RecordTranscriptionResultOptions)
    (pending : Transcription) (db : Db) :
    (finalizeTranscription now opts pending db).2.messages = db.messages := by
  simp only [finalizeTranscription]
  split <;> rfl

theorem recordTranscription_messages (opts : RecordTranscriptionResultOptions) (db : Db) :
    (recordTranscriptionResultInTransaction sha256 now opts db).2.messages = db.messages := by
  unfold recordTranscriptionResultInTransaction
  repeat' split
  all_goals first
    | rfl
    | exact finalizeTranscription_messages now opts _ db

theorem recordTranslation_messages (opts : RecordTranslationResultOptions) (db : Db) :
    (recordTranslationResultInTransaction sha256 now opts db).2.messages = db.messages := by
  have store (latest : Transcription) (text : String) :
      (recordTranslationResultInTransaction.store sha256 now opts db latest text).2.messages =
        db.messages := by
    simp only [recordTranslationResultInTransaction.store]
    split
    · rfl
    · exact storeTranslation_messages now _ _ _ _ _ db
  unfold recordTranslationResultInTransaction
  simp only
  repeat' split
  all_goals first
    | rfl
    | exact store _ _

theorem workerTranslation_messages (data : TranslationBody) (db : Db) :
    (workerTranslation sha256 now data db).2.messages = db.messages := by
  simp only [workerTranslation]
  repeat' split
  all_goals first
    | rfl
    | exact storeTranslation_messages now _ _ _ _ _ db

theorem createVerdict_messages (opts : RecordModerationResultOptions) (db : Db) :
    (createVerdict now opts db).2.messages = db.messages := by
  simp only [createVerdict]
  repeat' split
  all_goals rfl

theorem createVerdict_transcriptions (opts : RecordModerationResultOptions) (db : Db) :
    (createVerdict now opts db).2.transcriptions = db.transcriptions := by
  simp only [createVerdict]
  repeat' split
  all_goals rfl

theorem finalizeVerdict_messages (opts : RecordModerationResultOptions) (pending : Moderation)
    (db : Db) : (finalizeVerdict now opts pending db).2.messages = db.messages := by
  simp only [finalizeVerdict]
  split
  · split
    · exact createVerdict_messages now opts db
    · rfl
  · rfl

theorem recordModeration_messages (opts : RecordModerationResultOptions) (db : Db) :
    (recordModerationResultInTransaction sha256 now opts db).2.messages = db.messages := by
  unfold recordModerationResultInTransaction
  repeat' split
  all_goals first
    | rfl
    | exact createVerdict_messages now opts db
    | exact finalizeVerdict_messages now opts _ db

theorem submitModeration_messages (data : ModerationSubmit) (db : Db) :
    (submitModeration sha256 now data db).2.messages = db.messages := by
  unfold submitModeration
  repeat' split
  all_goals first
    | rfl
    | exact createVerdict_messages now data.result db
    | (rename_i same; rw [← createVerdict_messages now data.result db, same])

end Stored

end BoothOperator.Pipeline
