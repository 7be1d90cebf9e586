import BoothOperator.Pipeline.Results
import BoothOperator.Processing.Work

/-! `POST /v1/message-processing/:id/complete`: one transaction that checks the
lease and the snapshot under the message's row lock, stores every submitted
part, and gives the lease up. A rejection is an exception, which rolls the
whole transaction back. -/
namespace BoothOperator.Processing

open BoothOperator.Schema
open BoothOperator.Pipeline
open BoothOperator.TranslationText

variable (sha256 : String → String) (now : Time) (userId : String) (id : Id)

def completionLeaseSeconds : Int := 900

structure TranscriptionPart where
  expectedLatestTranscriptionId : Option (Option Id) := none
  expectedLatestTranscriptionSha256 : Option (Option String) := none
  text : String
  language : Option String := none
  model : Option String := none

structure TranslationPart where
  transcriptionId : Option Id := none
  expectedTranslationSha256 : Option (Option String) := none
  translatedText : String
  translatedLanguage : Option String := none
  model : Option String := none

structure ModerationPart where
  inputSha256 : Option String := none
  flagged : Bool
  recommendation : ModerationRecommendation
  maxScore : Number
  categories : Option (List (String × Number)) := none
  reasonSummary : Option String := none
  model : Option String := none

structure ReviewPart where
  classification : MessageReviewClassification
  recommendation : MessageReviewRecommendation

/-- `MessageProcessingCompleteSchema`. -/
structure Completion where
  leaseToken : String
  transcription : Option TranscriptionPart := none
  translation : Option TranslationPart := none
  moderation : Option ModerationPart := none
  review : Option ReviewPart := none

/-- The outcomes a `CompletionRejectedError` carries. -/
inductive CompletionRejection where
  | notFound
  | installationEnded
  | leaseLost
  | staleSnapshot
  | noTranscription
  | staleTranscription
  | staleTranslation
  | transcriptionNotFound
  | staleInput
  | reviewRequiresNoSpeech
  deriving DecidableEq, Repr

def leaseHash (token : String) : String := sha256 token

/-- The lease the request holds: `WHERE` of the completing `SELECT .. FOR UPDATE`. -/
def HoldsLease (token : String) (row : Message) : Prop :=
  row.processingLeaseTokenHash = some (leaseHash sha256 token) ∧
    (∃ expiresAt, row.processingLeaseExpiresAt = some expiresAt ∧ now < expiresAt) ∧
    row.processingLeasedById = some userId

instance (token : String) (row : Message) : Decidable (HoldsLease sha256 now userId token row) :=
  have expiry : Decidable
      (∃ expiresAt, row.processingLeaseExpiresAt = some expiresAt ∧ now < expiresAt) :=
    match held : row.processingLeaseExpiresAt with
    | none => isFalse (by simp)
    | some expiresAt =>
      if later : now < expiresAt then isTrue ⟨expiresAt, rfl, later⟩
      else isFalse (by simpa using later)
  inferInstanceAs (Decidable (_ ∧ _ ∧ _))

/-- The statements up to the snapshot check. -/
def checkLease (token : String) (db : Db) : Except CompletionRejection Unit :=
  match db.message id with
  | none => .error .notFound
  | some row =>
    match row.installationId with
    | none => .error .installationEnded
    | some era =>
      if ¬ db.lockInstallationForWrite era then .error .installationEnded
      else if ¬ HoldsLease sha256 now userId token row then .error .leaseLost
      else match findMessageWithWork db id with
        | none => .error .notFound
        | some current =>
          if row.processingSnapshotHash = some (processingSnapshotHash sha256 current) then .ok ()
          else .error .staleSnapshot

/-- Keep the lease alive while the results are stored. -/
def extendLease (db : Db) : Db :=
  db.updateMessages (fun row => row.id = id) fun row =>
    { row with processingLeaseExpiresAt := some (now + completionLeaseSeconds * 1000) }

def clearReview (db : Db) : Db :=
  db.updateMessages (fun row => row.id = id) fun row =>
    { row with
      reviewClassification := none
      reviewRecommendation := none
      reviewClassifiedAt := none
      reviewClassifiedById := none }

/-- The options of the transcript a completion submits. -/
def TranscriptionPart.result (part : TranscriptionPart) : RecordTranscriptionResultOptions where
  messageId := id
  expectedLatestTranscriptionId := part.expectedLatestTranscriptionId
  expectedLatestTranscriptionSha256 := part.expectedLatestTranscriptionSha256
  text := part.text
  language := part.language
  model := part.model
  provider := some .onDevice
  processDownstream := false
  requestedByUserId := some userId

/-- A transcript clears the review, a silent one surfaces the message. -/
def surfaceTranscript (text : String) (db : Db) : Db :=
  if trim text ≠ "" then clearReview id db else advanceMessageAfterModeration id db

def completeTranscription (part : TranscriptionPart) (db : Db) :
    Except CompletionRejection (Option Id × Db) :=
  match recordTranscriptionResultInTransaction sha256 now (part.result userId id) db with
  | (.notFound, _) => .error .notFound
  | (.staleTranscription, _) => .error .staleTranscription
  | (.unchanged transcriptionId, after) =>
    .ok (some transcriptionId, surfaceTranscript id part.text after)
  | (.recorded transcriptionId, after) =>
    .ok (some transcriptionId, surfaceTranscript id part.text after)

def completeTranslation (part : TranslationPart) (transcriptionId : Option Id) (db : Db) :
    Except CompletionRejection (Option Id × Db) :=
  match recordTranslationResultInTransaction sha256 now
      { messageId := id
        transcriptionId := part.transcriptionId <|> transcriptionId
        expectedTranslationSha256 := part.expectedTranslationSha256
        translatedText := part.translatedText
        translatedLanguage := part.translatedLanguage
        model := part.model
        onDevice := true } db with
  | (.recorded target, after) => .ok (some target, after)
  | (.notFound, _) => .error .notFound
  | (.noTranscription, _) => .error .noTranscription
  | (.staleTranscription, _) => .error .staleTranscription
  | (.staleTranslation, _) => .error .staleTranslation

/-- The verdict's options, once its transcription is known. -/
def ModerationPart.result (part : ModerationPart) (target : Id) :
    RecordModerationResultOptions where
  messageId := id
  transcriptionId := some target
  inputSha256 := part.inputSha256
  flagged := part.flagged
  recommendation := part.recommendation
  maxScore := part.maxScore
  categories := part.categories
  reasonSummary := part.reasonSummary
  model := part.model
  provider := some "on_device"
  requestedByUserId := some userId
  createWhenMissing := true

def completeModeration (part : ModerationPart) (transcriptionId : Option Id) (db : Db) :
    Except CompletionRejection (Option Id × Db) :=
  match transcriptionId <|> (db.latestSucceeded id).map (·.id) with
  | none => .error .noTranscription
  | some target =>
    match recordModerationResultInTransaction sha256 now (part.result userId id target) db with
    | (.recorded verdict, after) => .ok (some verdict, advanceMessageAfterModeration id after)
    | (.unchanged verdict, after) => .ok (verdict, advanceMessageAfterModeration id after)
    | (.notFound, _) => .error .notFound
    | (.transcriptionNotFound, _) => .error .transcriptionNotFound
    | (.staleTranscription, _) => .error .staleTranscription
    | (.staleInput, _) => .error .staleInput

def completeReview (part : ReviewPart) (db : Db) : Except CompletionRejection Db :=
  match db.latestSucceeded id with
  | none => .error .reviewRequiresNoSpeech
  | some latest =>
    if transcript latest ≠ "" then .error .reviewRequiresNoSpeech
    else .ok (db.updateMessages (fun row => row.id = id) fun row =>
      { row with
        reviewClassification := some part.classification
        reviewRecommendation := some part.recommendation
        reviewClassifiedAt := some now
        reviewClassifiedById := some userId })

/-- What a completion leaves behind: the database and the verdict it stored. -/
structure Stored where
  db : Db
  verdict : Option Id := none

/-- A part of the request that may be absent. -/
def optionally {α β : Type} (part : Option α) (skip : β) (store : α → Except CompletionRejection β) :
    Except CompletionRejection β :=
  match part with
  | none => .ok skip
  | some value => store value

/-- Whether something holds of what a stage returns is found by running it. -/
instance {β : Type} {p : β → Prop} [DecidablePred p] (outcome : Except CompletionRejection β) :
    Decidable (∀ value, outcome = .ok value → p value) :=
  match outcome with
  | .error _ => isTrue nofun
  | .ok value => decidable_of_iff (p value) (by simp)

/-- The submitted parts, in the order they are stored. -/
def storeParts (result : Completion) (db : Db) : Except CompletionRejection Stored := do
  let (transcriptionId, db) ← optionally result.transcription (none, db) fun part =>
    completeTranscription sha256 now userId id part db
  let (transcriptionId, db) ← optionally result.translation (transcriptionId, db) fun part =>
    completeTranslation sha256 now id part transcriptionId db
  let (verdict, db) ← optionally result.moderation (none, db) fun part =>
    completeModeration sha256 now userId id part transcriptionId db
  let db ← optionally result.review db fun part => completeReview now userId id part db
  .ok { db, verdict }

/-- The columns a finished or given-up lease leaves null. -/
def clearLease (row : Message) : Message :=
  { row with
    processingLeaseTokenHash := none
    processingLeaseExpiresAt := none
    processingLeasedAt := none
    processingLeasedById := none
    processingSnapshotHash := none }

/-- The last statements: the needs that remain, and the lease given up. -/
def finishCompletion (token : String) (db : Db) :
    Except CompletionRejection (Db × List MessageProcessingStep) :=
  match findMessageWithWork db id with
  | none => .error .notFound
  | some after =>
    let needs := processingNeeds after
    let found (row : Message) : Bool :=
      row.id = id ∧ row.processingLeaseTokenHash = some (leaseHash sha256 token) ∧
        row.processingLeasedById = some userId
    if db.messages.countP found = 0 then .error .leaseLost
    else .ok (db.updateMessages found fun row =>
      { clearLease row with
        processingError := none
        processingCompletedAt := if needs = [] then some now else row.processingCompletedAt },
      needs)

/-- The transaction of `POST /v1/message-processing/:id/complete`. -/
def complete (result : Completion) (db : Db) :
    Except CompletionRejection (Stored × List MessageProcessingStep) := do
  checkLease sha256 now userId id result.leaseToken db
  let stored ← storeParts sha256 now userId id result (extendLease now id db)
  let (db, needs) ← finishCompletion sha256 now userId id result.leaseToken stored.db
  .ok ({ stored with db }, needs)

/-! ## What an accepted completion did -/

section Accepted

variable {sha256 : String → String} {now : Time} {userId : String} {id : Id}

private theorem bind_ok {α β ε : Type} {first : Except ε α} {rest : α → Except ε β} {value : β} :
    first >>= rest = .ok value ↔ ∃ middle, first = .ok middle ∧ rest middle = .ok value := by
  cases first with
  | error reason => simp [bind, Except.bind]
  | ok middle => simp [bind, Except.bind]

theorem optionally_ok {α β : Type} {part : Option α} {skip value : β}
    {store : α → Except CompletionRejection β} :
    optionally part skip store = .ok value ↔
      (part = none ∧ value = skip) ∨ ∃ given, part = some given ∧ store given = .ok value := by
  cases part with
  | none => simp [optionally, eq_comm]
  | some given => simp [optionally]

/-- The row and the surfacing an accepted transcript leaves behind. -/
theorem completeTranscription_ok {part : TranscriptionPart} {db : Db}
    {stored : Option Id × Db}
    (done : completeTranscription sha256 now userId id part db = .ok stored) :
    stored.2 = surfaceTranscript id part.text
      (recordTranscriptionResultInTransaction sha256 now (part.result userId id) db).2 := by
  unfold completeTranscription at done
  split at done
  · cases done
  · cases done
  all_goals
    rename_i recorded
    cases done
    rw [recorded]

/-- The stages of an accepted completion, one after the other. -/
theorem storeParts_ok {result : Completion} {db : Db} {stored : Stored} :
    storeParts sha256 now userId id result db = .ok stored ↔
      ∃ transcribed translated moderated,
        optionally result.transcription (none, db)
          (fun part => completeTranscription sha256 now userId id part db) = .ok transcribed ∧
        optionally result.translation transcribed
          (fun part => completeTranslation sha256 now id part transcribed.1 transcribed.2) =
            .ok translated ∧
        optionally result.moderation (none, translated.2)
          (fun part => completeModeration sha256 now userId id part translated.1 translated.2) =
            .ok moderated ∧
        optionally result.review moderated.2
          (fun part => completeReview now userId id part moderated.2) = .ok stored.db ∧
        stored.verdict = moderated.1 := by
  cases stored
  simp only [storeParts, bind_ok, Except.ok.injEq, Stored.mk.injEq]
  constructor
  · rintro ⟨transcribed, one, translated, two, moderated, three, reviewed, four, rfl, rfl⟩
    exact ⟨transcribed, translated, moderated, one, two, three, four, rfl⟩
  · rintro ⟨transcribed, translated, moderated, one, two, three, four, rfl⟩
    exact ⟨transcribed, one, translated, two, moderated, three, _, four, rfl, rfl⟩

theorem complete_ok {result : Completion} {db : Db} {done : Stored × List MessageProcessingStep} :
    complete sha256 now userId id result db = .ok done ↔
      checkLease sha256 now userId id result.leaseToken db = .ok () ∧
      ∃ stored, storeParts sha256 now userId id result (extendLease now id db) = .ok stored ∧
        finishCompletion sha256 now userId id result.leaseToken stored.db =
          .ok (done.1.db, done.2) ∧
        done.1.verdict = stored.verdict := by
  obtain ⟨⟨after, verdict⟩, needs⟩ := done
  simp only [complete, bind_ok, Except.ok.injEq, Prod.mk.injEq, Stored.mk.injEq]
  constructor
  · rintro ⟨_, checked, stored, parts, finished, last, ⟨rfl, rfl⟩, rfl⟩
    exact ⟨checked, stored, parts, last, rfl⟩
  · rintro ⟨checked, stored, parts, last, rfl⟩
    exact ⟨(), checked, stored, parts, (after, needs), last, ⟨rfl, rfl⟩, rfl⟩

/-- The last update of an accepted completion finds the lease's row. -/
theorem finishCompletion_ok {token : String} {db : Db} {done : Db × List MessageProcessingStep}
    (finished : finishCompletion sha256 now userId id token db = .ok done) :
    let found (row : Message) : Bool :=
      row.id = id ∧ row.processingLeaseTokenHash = some (leaseHash sha256 token) ∧
        row.processingLeasedById = some userId
    db.messages.countP found ≠ 0 ∧
      done.1 = db.updateMessages found fun row =>
        { clearLease row with
          processingError := none
          processingCompletedAt :=
            if done.2 = [] then some now else row.processingCompletedAt } := by
  unfold finishCompletion at finished
  split at finished
  · cases finished
  · simp only at finished
    split at finished
    · cases finished
    · rename_i counted
      cases finished
      exact ⟨counted, rfl⟩

end Accepted

end BoothOperator.Processing
