import Mathlib.Data.List.Dedup
import BoothOperator.Processing.Leases

/-! A completion is stored whole or not at all. A rejection is an exception,
which discards what the transaction has written; and every helper that did not
store its part is one, so an answered completion has stored all of them. -/
namespace BoothOperator.Processing

open BoothOperator.Schema
open BoothOperator.Pipeline
open BoothOperator.TranslationText
open BoothOperator.Json (Value)

inductive CompleteAnswer where
  | completed (needs : List MessageProcessingStep)
  | rejected (reason : CompletionRejection)
  deriving DecidableEq

/-- `POST /v1/message-processing/:id/complete`. -/
def completeRoute (sha256 : String → String) (now : Time) (userId : String) (id : Id)
    (result : Completion) (db : Db) : Db × CompleteAnswer :=
  match complete sha256 now userId id result db with
  | .ok (stored, needs) => (stored.db, .completed needs)
  | .error reason => (db, .rejected reason)

/-! ## What a stored part is -/

/-- A row that holds the submitted transcript. -/
structure Transcribed (userId : String) (id : Id) (part : TranscriptionPart) (row : Transcription) :
    Prop where
  messageId : row.messageId = id
  status : row.status = .succeeded
  text : transcript row = trim part.text
  language : row.language = part.language
  model : row.model = part.model
  provider : row.provider = "on_device"
  requestedById : row.requestedById = some userId

/-- A row that holds the submitted translation. -/
structure Translated (part : TranslationPart) (row : Transcription) : Prop where
  named : ∀ target, part.transcriptionId = some target → row.id = target
  translationStatus : row.translationStatus = some .succeeded
  translatedText : row.translatedText = some (normalizeTranslationText part.translatedText)
  translatedLanguage : row.translatedLanguage = part.translatedLanguage
  translationProvider : row.translationProvider = some "on_device"
  translationModel : row.translationModel = part.model

/-- A row that holds the submitted verdict on a transcript. -/
structure Judged (userId : String) (id target : Id) (part : ModerationPart) (row : Moderation) :
    Prop where
  messageId : row.messageId = id
  transcriptionId : row.transcriptionId = some target
  status : row.status = .succeeded
  provider : row.provider = "on_device"
  model : row.model = part.model
  flagged : row.flagged = some part.flagged
  recommendation : row.recommendation = some part.recommendation
  maxScore : row.maxScore = some part.maxScore
  categories : categoriesMatch row.categories part.categories = true
  reasonSummary : row.reasonSummary = part.reasonSummary
  requestedById : row.requestedById = some userId

/-- The message holds the submitted review. -/
structure Reviewed (now : Time) (userId : String) (part : ReviewPart) (row : Message) : Prop where
  classification : row.reviewClassification = some part.classification
  recommendation : row.reviewRecommendation = some part.recommendation
  classifiedAt : row.reviewClassifiedAt = some now
  classifiedById : row.reviewClassifiedById = some userId

/-- Every part of a completion is in the database. -/
structure PartsStored (now : Time) (userId : String) (id : Id) (result : Completion) (db : Db) :
    Prop where
  transcription : ∀ part, result.transcription = some part →
    ∃ row ∈ db.transcriptions, Transcribed userId id part row
  translation : ∀ part, result.translation = some part →
    ∃ row, db.latestSucceeded id = some row ∧ Translated part row
  moderation : ∀ part, result.moderation = some part →
    ∃ latest, db.latestSucceeded id = some latest ∧
      ∃ row ∈ db.moderations, Judged userId id latest.id part row
  review : ∀ part, result.review = some part →
    ∃ row, db.message id = some row ∧ Reviewed now userId part row

/-- The message is nobody's. -/
structure GivenUp (row : Message) : Prop where
  tokenHash : row.processingLeaseTokenHash = none
  expiresAt : row.processingLeaseExpiresAt = none
  leasedAt : row.processingLeasedAt = none
  leasedById : row.processingLeasedById = none
  snapshotHash : row.processingSnapshotHash = none

section Helpers

variable {sha256 : String → String} {now : Time} {userId : String} {id : Id} {db : Db}

/-! ## Transcripts -/

theorem transcribed_finalize {part : TranscriptionPart} {pending : Transcription}
    (member : pending ∈ db.transcriptions) (open_ : pending.status = .pending)
    (own : pending.messageId = id) :
    ∃ tid after, finalizeTranscription now (part.result userId id) pending db =
        (.recorded tid, after) ∧
      ∃ row ∈ after.transcriptions, Transcribed userId id part row := by
  have counted : db.transcriptions.countP (fun row => decide (row.id = pending.id ∧
      row.status = .pending)) ≠ 0 := by
    refine Nat.ne_of_gt (List.countP_pos_iff.mpr ⟨pending, member, ?_⟩)
    simp [open_]
  unfold finalizeTranscription
  simp only
  rw [if_neg counted]
  refine ⟨_, _, rfl, _, Table.mem_updateMany.mpr ⟨pending, member, rfl⟩, ?_⟩
  rw [if_pos (by simp [open_])]
  exact ⟨own, rfl, rfl, rfl, rfl, rfl, rfl⟩

theorem transcribed_create {part : TranscriptionPart} {message : Message} :
    ∃ tid after, createTranscript now (part.result userId id) message db =
        (.recorded tid, after) ∧
      ∃ row ∈ after.transcriptions, Transcribed userId id part row := by
  refine ⟨_, _, rfl, _, List.mem_append_right _ (List.mem_singleton.mpr rfl), ?_⟩
  exact ⟨rfl, rfl, rfl, rfl, rfl, rfl, rfl⟩

/-- A transcript that is accepted is in the table: on the row that waited for
it, on a row of its own, or on the row of its first delivery. -/
theorem transcribed_record {part : TranscriptionPart} {after : Db}
    {outcome : RecordTranscriptionResultOutcome}
    (recorded : recordTranscriptionResultInTransaction sha256 now (part.result userId id) db =
      (outcome, after)) (found : outcome ≠ .notFound) (fresh : outcome ≠ .staleTranscription) :
    ∃ row ∈ after.transcriptions, Transcribed userId id part row := by
  have stored {given : RecordTranscriptionResultOutcome × Db}
      (same : given = (outcome, after))
      (rows : ∃ tid given', given = (.recorded tid, given') ∧
        ∃ row ∈ given'.transcriptions, Transcribed userId id part row) :
      ∃ row ∈ after.transcriptions, Transcribed userId id part row := by
    obtain ⟨tid, given', rfl, rows⟩ := rows
    cases same
    exact rows
  unfold recordTranscriptionResultInTransaction at recorded
  split at recorded
  · cases recorded
    exact absurd rfl found
  rename_i message _
  split at recorded
  · cases recorded
    exact absurd rfl fresh
  split at recorded
  · rename_i pending waiting
    split at recorded
    · cases recorded
      exact absurd rfl fresh
    · obtain ⟨member, met⟩ := Table.latest_mem waiting
      simp only [decide_eq_true_eq] at met
      exact stored recorded (transcribed_finalize member met.2.1 met.1)
  · split at recorded
    · cases recorded
      exact absurd rfl fresh
    split at recorded
    · exact stored recorded transcribed_create
    · rename_i latest there
      split at recorded
      · cases recorded
        exact absurd rfl fresh
      split at recorded
      · rename_i again
        cases recorded
        obtain ⟨member, own⟩ := Table.latest_mem there
        simp only [redelivered, decide_eq_true_eq] at again own
        obtain ⟨status, text, language, model, provider, requested⟩ := again
        exact ⟨latest, member, own, status, text, language, model, provider, requested⟩
      · exact stored recorded transcribed_create

theorem transcribed_complete {part : TranscriptionPart} {done : Option Id × Db}
    (ok : completeTranscription sha256 now userId id part db = .ok done) :
    ∃ row ∈ done.2.transcriptions, Transcribed userId id part row := by
  have surfaced (after : Db) :
      (surfaceTranscript id part.text after).transcriptions = after.transcriptions := by
    unfold surfaceTranscript
    split
    · rfl
    · rfl
  unfold completeTranscription at ok
  split at ok
  · cases ok
  · cases ok
  · rename_i recorded
    cases ok
    simp only [surfaced]
    exact transcribed_record recorded (fun same => nomatch same) fun same => nomatch same
  · rename_i recorded
    cases ok
    simp only [surfaced]
    exact transcribed_record recorded (fun same => nomatch same) fun same => nomatch same

/-! ## Translations -/

/-- What a translation writes on its row. -/
def translate (now : Time) (part : TranslationPart) (row : Transcription) : Transcription :=
  withTranslation
    { row with
      translatedLanguage := part.translatedLanguage
      translationProvider := some "on_device"
      translationModel := part.model
      translationError := none
      translationCompletedAt := some now }
    (normalizeTranslationText part.translatedText)

theorem transcribed_translate {part : TranscriptionPart} {other : TranslationPart}
    {row : Transcription} (transcribed : Transcribed userId id part row) :
    Transcribed userId id part (translate now other row) :=
  ⟨transcribed.messageId, transcribed.status, transcribed.text, transcribed.language,
    transcribed.model, transcribed.provider, transcribed.requestedById⟩

/-- A translation that is accepted is on the latest transcript, which stays the latest. -/
theorem complete_translates {part : TranslationPart} {transcriptionId : Option Id}
    {done : Option Id × Db}
    (ok : completeTranslation sha256 now id part transcriptionId db = .ok done) :
    ∃ latest, db.latestSucceeded id = some latest ∧
      (∀ target, part.transcriptionId = some target → latest.id = target) ∧
      done.2.transcriptions =
        Table.updateMany (fun row => row.id = latest.id) (translate now part) db.transcriptions ∧
      done.2.messages = db.messages := by
  unfold completeTranslation at ok
  split at ok
  · rename_i target after recorded
    cases ok
    have messages := congrArg (·.2.messages) recorded
    rw [recordTranslation_messages] at messages
    unfold recordTranslationResultInTransaction at recorded
    simp only at recorded
    have stored {latest : Transcription} (own : ∀ named, part.transcriptionId = some named →
        latest.id = named) (found : db.latestSucceeded id = some latest)
        (done : recordTranslationResultInTransaction.store sha256 now
          { messageId := id
            transcriptionId := part.transcriptionId <|> transcriptionId
            expectedTranslationSha256 := part.expectedTranslationSha256
            translatedText := part.translatedText
            translatedLanguage := part.translatedLanguage
            model := part.model
            onDevice := true } db latest (normalizeTranslationText part.translatedText) =
          (.recorded target, after)) :
        ∃ latest, db.latestSucceeded id = some latest ∧
          (∀ target, part.transcriptionId = some target → latest.id = target) ∧
          after.transcriptions = Table.updateMany (fun row => row.id = latest.id)
            (translate now part) db.transcriptions ∧ after.messages = db.messages := by
      refine ⟨latest, found, own, ?_, messages.symm⟩
      unfold recordTranslationResultInTransaction.store at done
      simp only [storeTranslation] at done
      split at done
      · cases done
      · split at done
        · cases done
          rfl
        · cases done
          rfl
    split at recorded
    · cases recorded
    split at recorded
    · cases recorded
    rename_i latest found
    split at recorded
    · rename_i named chosen
      split at recorded
      · cases recorded
      · rename_i same
        rw [not_not] at same
        refine stored (fun given is => ?_) found recorded
        rw [is] at chosen
        cases chosen
        exact same
    · rename_i unnamed
      refine stored (fun given is => ?_) found recorded
      rw [is] at unnamed
      cases unnamed
  all_goals cases ok

/-- The latest transcript under a translation of it. -/
theorem latestSucceeded_translate {part : TranslationPart} {latest : Transcription} {after : Db}
    (found : db.latestSucceeded id = some latest)
    (rows : after.transcriptions =
      Table.updateMany (fun row => row.id = latest.id) (translate now part) db.transcriptions) :
    after.latestSucceeded id = some (translate now part latest) := by
  have kept : ∀ row, (translate now part row).createdAt = row.createdAt := fun _ => rfl
  have still : ∀ row, decide ((translate now part row).messageId = id ∧
      (translate now part row).status = .succeeded) =
        decide (row.messageId = id ∧ row.status = .succeeded) := fun _ => rfl
  unfold Db.latestSucceeded at found ⊢
  rw [rows, Table.latest_updateMany kept still, found]
  simp

/-! ## Verdicts -/

theorem judged_create {part : ModerationPart} {target : Id} {after : Db}
    {outcome : RecordModerationResultOutcome}
    (created : createVerdict now (part.result userId id target) db = (outcome, after)) :
    ∃ row ∈ after.moderations, Judged userId id target part row := by
  unfold createVerdict at created
  simp only [ModerationPart.result, if_true] at created
  split at created
  · rename_i latest there
    cases created
    obtain ⟨found, again⟩ := Option.filter_eq_some_iff.mp there
    obtain ⟨member, own⟩ := Table.latest_mem found
    simp only [verdictRedelivered, decide_eq_true_eq] at again own
    obtain ⟨status, transcription, provider, flagged, recommendation, score, categories, reason,
      model, requested⟩ := again
    exact ⟨latest, member, own, transcription, status, provider, model, flagged, recommendation,
      score, categories, reason, requested⟩
  · cases created
    refine ⟨_, List.mem_append_right _ (List.mem_singleton.mpr rfl), ?_⟩
    exact ⟨rfl, rfl, rfl, rfl, rfl, rfl, rfl, rfl, categoriesMatch_column _, rfl, rfl⟩

/-- The target of a verdict is refused, or it is the latest transcript. -/
theorem verdictTargetError_cases {opts : RecordModerationResultOptions} {target : Id}
    (named : opts.transcriptionId = some target) :
    verdictTargetError sha256 opts db = some .transcriptionNotFound ∨
      verdictTargetError sha256 opts db = some .staleTranscription ∨
      verdictTargetError sha256 opts db = some .staleInput ∨
      (verdictTargetError sha256 opts db = none ∧
        (db.latestSucceeded opts.messageId).map (·.id) = some target) := by
  unfold verdictTargetError
  rw [named]
  simp only
  cases db.transcription target with
  | none => exact .inl rfl
  | some transcription =>
    simp only
    by_cases foreign : transcription.messageId ≠ opts.messageId ∨ ¬ opts.messageIdAsStored
    · exact .inl (if_pos foreign)
    rw [if_neg foreign]
    by_cases stale : (db.latestSucceeded opts.messageId).map (·.id) ≠ some target ∨
        ¬ opts.transcriptionIdAsStored
    · exact .inr (.inl (if_pos stale))
    rw [if_neg stale]
    have latest := not_not.mp (not_or.mp stale).1
    cases opts.inputSha256 with
    | none => exact .inr (.inr (.inr ⟨rfl, latest⟩))
    | some inputSha256 =>
      by_cases same : inputSha256 = "" ∨ sha256 (recordedInput transcription) = inputSha256
      · exact .inr (.inr (.inr ⟨if_pos same, latest⟩))
      · exact .inr (.inr (.inl (if_neg same)))

/-- A verdict that is accepted is in the table, and it is on the latest transcript. -/
theorem judged_record {part : ModerationPart} {target : Id} {after : Db}
    {outcome : RecordModerationResultOutcome}
    (recorded : recordModerationResultInTransaction sha256 now (part.result userId id target) db =
      (outcome, after))
    (settled : (∃ verdict, outcome = .recorded verdict) ∨ ∃ verdict, outcome = .unchanged verdict) :
    (db.latestSucceeded id).map (·.id) = some target ∧
      after.transcriptions = db.transcriptions ∧
        ∃ row ∈ after.moderations, Judged userId id target part row := by
  unfold recordModerationResultInTransaction at recorded
  split at recorded
  · cases recorded
    rcases settled with ⟨_, same⟩ | ⟨_, same⟩
    · cases same
    · cases same
  rcases @verdictTargetError_cases sha256 db (part.result userId id target) target rfl with
    refused | refused | refused | ⟨passed, latest⟩
  · rw [refused] at recorded
    cases recorded
    rcases settled with ⟨_, same⟩ | ⟨_, same⟩
    · cases same
    · cases same
  · rw [refused] at recorded
    cases recorded
    rcases settled with ⟨_, same⟩ | ⟨_, same⟩
    · cases same
    · cases same
  · rw [refused] at recorded
    cases recorded
    rcases settled with ⟨_, same⟩ | ⟨_, same⟩
    · cases same
    · cases same
  · rw [passed] at recorded
    simp only at recorded
    refine ⟨latest, ?_⟩
    split at recorded
    · have rows := congrArg (·.2.transcriptions) recorded
      rw [createVerdict_transcriptions] at rows
      exact ⟨rows.symm, judged_create recorded⟩
    · rename_i pending waiting
      obtain ⟨member, met⟩ := Table.latest_mem waiting
      simp only [ModerationPart.result, reduceCtorEq, false_or, decide_eq_true_eq] at met
      obtain ⟨own, on, open_⟩ := met
      have counted : db.moderations.countP (fun row => decide (row.id = pending.id ∧
          row.status = .pending)) ≠ 0 := by
        refine Nat.ne_of_gt (List.countP_pos_iff.mpr ⟨pending, member, ?_⟩)
        simp [open_]
      rw [if_neg (by simp [ModerationPart.result])] at recorded
      unfold finalizeVerdict at recorded
      simp only at recorded
      rw [if_neg counted] at recorded
      cases recorded
      refine ⟨rfl, _, Table.mem_updateMany.mpr ⟨pending, member, rfl⟩, ?_⟩
      rw [if_pos (by simp [open_])]
      refine ⟨own, on.symm, rfl, rfl, ?_, rfl, rfl, rfl, categoriesMatch_column _, rfl, rfl⟩
      simp [ModerationPart.result]

theorem judged_complete {part : ModerationPart} {transcriptionId : Option Id}
    {done : Option Id × Db}
    (ok : completeModeration sha256 now userId id part transcriptionId db = .ok done) :
    done.2.transcriptions = db.transcriptions ∧
      ∃ latest, db.latestSucceeded id = some latest ∧
        ∃ row ∈ done.2.moderations, Judged userId id latest.id part row := by
  have shown {target : Id} {after : Db}
      (given : (db.latestSucceeded id).map (·.id) = some target ∧
        after.transcriptions = db.transcriptions ∧
          ∃ row ∈ after.moderations, Judged userId id target part row) :
      (advanceMessageAfterModeration id after).transcriptions = db.transcriptions ∧
        ∃ latest, db.latestSucceeded id = some latest ∧
          ∃ row ∈ (advanceMessageAfterModeration id after).moderations,
            Judged userId id latest.id part row := by
    obtain ⟨named, rows, judged⟩ := given
    obtain ⟨latest, found, rfl⟩ := Option.map_eq_some_iff.mp named
    exact ⟨rows, latest, found, judged⟩
  unfold completeModeration at ok
  split at ok
  · cases ok
  split at ok
  · rename_i recorded
    cases ok
    exact shown (judged_record recorded (.inl ⟨_, rfl⟩))
  · rename_i recorded
    cases ok
    exact shown (judged_record recorded (.inr ⟨_, rfl⟩))
  all_goals cases ok

/-! ## The review -/

theorem reviewed_complete {part : ReviewPart} {done : Db} {row : Message}
    (found : db.message id = some row) (ok : completeReview now userId id part db = .ok done) :
    done.transcriptions = db.transcriptions ∧ done.moderations = db.moderations ∧
      ∃ row, done.message id = some row ∧ Reviewed now userId part row := by
  unfold completeReview at ok
  split at ok
  · cases ok
  split at ok
  · cases ok
  · cases ok
    refine ⟨rfl, rfl, ?_⟩
    have own := (Table.findUnique_mem found).2
    rw [Db.message_updateMessages (by intro row; rfl), found, Option.map_some,
      if_pos (decide_eq_true own)]
    exact ⟨_, rfl, rfl, rfl, rfl, rfl⟩

end Helpers

/-! ## The whole -/

section Whole

variable {sha256 : String → String} {now : Time} {userId : String} {id : Id}

/-- A message that stays, with the same lease, while its parts are stored. -/
theorem message_of_leaseStates {before after : Db} {row : Message}
    (same : leaseStates after = leaseStates before) (found : before.message id = some row) :
    ∃ row', after.message id = some row' ∧ leaseColumns row' = leaseColumns row := by
  have rows (db : Db) : (db.message id).map (fun row => (row.id, leaseColumns row)) =
      (leaseStates db).find? (fun entry => entry.1 = id) := by
    unfold Db.message Table.findUnique leaseStates
    rw [List.find?_map]
    rfl
  have there := rows after
  rw [same, ← rows before, found, Option.map_some, Option.map_eq_some_iff] at there
  obtain ⟨row', found', columns⟩ := there
  exact ⟨row', found', congrArg Prod.snd columns⟩

theorem partsStored {result : Completion} {db : Db} {stored : Stored} {row : Message}
    (found : db.message id = some row)
    (ok : storeParts sha256 now userId id result db = .ok stored) :
    PartsStored now userId id result stored.db := by
  obtain ⟨transcribed, translated, moderated, one, two, three, four, -⟩ := storeParts_ok.mp ok
  -- a transcript stays through the translation, which is the only later write to its table
  have first : ∀ part, result.transcription = some part →
      ∃ row ∈ transcribed.2.transcriptions, Transcribed userId id part row := by
    intro part given
    rcases optionally_ok.mp one with ⟨absent, -⟩ | ⟨other, same, stored⟩
    · cases absent.symm.trans given
    · cases same.symm.trans given
      exact transcribed_complete stored
  have kept : ∀ part, result.transcription = some part →
      ∃ row ∈ translated.2.transcriptions, Transcribed userId id part row := by
    intro part given
    obtain ⟨row, member, transcribed'⟩ := first part given
    rcases optionally_ok.mp two with ⟨-, rfl⟩ | ⟨other, -, stored⟩
    · exact ⟨row, member, transcribed'⟩
    · obtain ⟨latest, -, -, rows, -⟩ := complete_translates stored
      rw [rows]
      refine ⟨_, Table.mem_updateMany.mpr ⟨row, member, rfl⟩, ?_⟩
      split
      · exact transcribed_translate transcribed'
      · exact transcribed'
  have second : ∀ part, result.translation = some part →
      ∃ row, translated.2.latestSucceeded id = some row ∧ Translated part row := by
    intro part given
    rcases optionally_ok.mp two with ⟨absent, -⟩ | ⟨other, same, stored⟩
    · cases absent.symm.trans given
    · cases same.symm.trans given
      obtain ⟨latest, found, named, rows, -⟩ := complete_translates stored
      exact ⟨_, latestSucceeded_translate found rows, named, rfl, rfl, rfl, rfl, rfl⟩
  have third : moderated.2.transcriptions = translated.2.transcriptions := by
    rcases optionally_ok.mp three with ⟨-, rfl⟩ | ⟨part, -, stored⟩
    · rfl
    · exact (judged_complete stored).1
  have there : ∃ row, moderated.2.message id = some row := by
    have transcription : leaseStates transcribed.2 = leaseStates db := by
      rcases optionally_ok.mp one with ⟨-, rfl⟩ | ⟨part, -, stored⟩
      · rfl
      · exact completeTranscription_leaseStates stored
    have translation : leaseStates translated.2 = leaseStates transcribed.2 := by
      rcases optionally_ok.mp two with ⟨-, rfl⟩ | ⟨part, -, stored⟩
      · rfl
      · exact completeTranslation_leaseStates stored
    have moderation : leaseStates moderated.2 = leaseStates translated.2 := by
      rcases optionally_ok.mp three with ⟨-, rfl⟩ | ⟨part, -, stored⟩
      · rfl
      · exact completeModeration_leaseStates stored
    obtain ⟨row', found', -⟩ := message_of_leaseStates
      (moderation.trans (translation.trans transcription)) found
    exact ⟨row', found'⟩
  obtain ⟨current, present⟩ := there
  have last : stored.db.transcriptions = moderated.2.transcriptions ∧
      stored.db.moderations = moderated.2.moderations ∧
        ∀ part, result.review = some part →
          ∃ row, stored.db.message id = some row ∧ Reviewed now userId part row := by
    rcases optionally_ok.mp four with ⟨absent, same⟩ | ⟨part, given, stored'⟩
    · rw [same]
      refine ⟨rfl, rfl, fun part given => ?_⟩
      cases absent.symm.trans given
    · obtain ⟨rows, verdicts, reviewed⟩ := reviewed_complete present stored'
      refine ⟨rows, verdicts, fun other same => ?_⟩
      cases given.symm.trans same
      exact reviewed
  obtain ⟨rows, verdicts, review⟩ := last
  have latest : stored.db.latestSucceeded id = translated.2.latestSucceeded id := by
    unfold Db.latestSucceeded
    rw [rows, third]
  refine ⟨?_, ?_, ?_, review⟩
  · rw [rows, third]
    exact kept
  · rw [latest]
    exact second
  · rw [latest, verdicts]
    intro part given
    rcases optionally_ok.mp three with ⟨absent, -⟩ | ⟨other, same, stored'⟩
    · cases absent.symm.trans given
    · cases same.symm.trans given
      exact (judged_complete stored').2

/-- The last update writes the message alone, and nothing its needs are read from. -/
theorem finished {token : String} {db : Db} {done : Db × List MessageProcessingStep} {row : Message}
    (found : db.message id = some row)
    (holds : row.processingLeaseTokenHash = some (leaseHash sha256 token) ∧
      row.processingLeasedById = some userId)
    (ok : finishCompletion sha256 now userId id token db = .ok done) :
    done.1.transcriptions = db.transcriptions ∧ done.1.moderations = db.moderations ∧
      (findMessageWithWork done.1 id).map processingNeeds = some done.2 ∧
      done.1.message id = some { clearLease row with
        processingError := none
        processingCompletedAt := if done.2 = [] then some now else row.processingCompletedAt } := by
  unfold finishCompletion at ok
  simp only [findMessageWithWork, found, Option.map_some] at ok
  split at ok
  · cases ok
  · cases ok
    have own := (Table.findUnique_mem found).2
    refine ⟨rfl, rfl, ?_, ?_⟩
    · rw [findMessageWithWork, Db.message_updateMessages (by intro row; rfl), found]
      simp only [Option.map_some, own, holds.1, holds.2, and_self, decide_true, if_true]
      rfl
    · rw [Db.message_updateMessages (by intro row; rfl), found, Option.map_some]
      simp only [own, holds.1, holds.2, and_self, decide_true, if_true]

/-- A lease that was checked is on the row the transaction works on. -/
theorem checkLease_row {token : String} {db : Db}
    (checked : checkLease sha256 now userId id token db = .ok ()) :
    ∃ row, db.message id = some row ∧ HoldsLease sha256 now userId token row := by
  unfold checkLease at checked
  split at checked
  · cases checked
  rename_i row found
  split at checked
  · cases checked
  split at checked
  · cases checked
  split at checked
  · cases checked
  · rename_i holds
    exact ⟨row, found, not_not.mp holds⟩

/-- **Completing a lease is all or nothing**: what is rejected leaves the
database as it was, and what is answered has stored every part, given the lease
up and told the needs that the stored state has. -/
theorem complete_all_or_nothing (sha256 : String → String) (now : Time) (userId : String) (id : Id)
    (result : Completion) (db : Db) :
    match completeRoute sha256 now userId id result db with
    | (after, .rejected _) => after = db
    | (after, .completed needs) =>
      PartsStored now userId id result after ∧
        (findMessageWithWork after id).map processingNeeds = some needs ∧
        ∃ row, after.message id = some row ∧ GivenUp row ∧ row.processingError = none ∧
          (needs = [] → row.processingCompletedAt = some now) := by
  unfold completeRoute
  cases ran : complete sha256 now userId id result db with
  | error reason => rfl
  | ok done =>
    obtain ⟨stored, needs⟩ := done
    obtain ⟨checked, parts, storing, finishing, -⟩ := complete_ok.mp ran
    obtain ⟨row, found, tokenHash, -, leasedBy⟩ := checkLease_row checked
    obtain ⟨extended, found', tokenHash', leasedBy'⟩ :
        ∃ row', (extendLease now id db).message id = some row' ∧
          row'.processingLeaseTokenHash = row.processingLeaseTokenHash ∧
            row'.processingLeasedById = row.processingLeasedById := by
      unfold extendLease
      rw [Db.message_updateMessages (by intro row; rfl), found, Option.map_some]
      refine ⟨_, rfl, ?_, ?_⟩
      · split
        · rfl
        · rfl
      · split
        · rfl
        · rfl
    have kept := partsStored found' storing
    obtain ⟨last, present, columns⟩ := message_of_leaseStates (storeParts_leaseStates storing) found'
    simp only [leaseColumns, LeaseColumns.mk.injEq] at columns
    obtain ⟨sameToken, -, sameUser, -⟩ := columns
    obtain ⟨rows, verdicts, told, written⟩ := finished present
      ⟨sameToken.trans (tokenHash'.trans tokenHash), sameUser.trans (leasedBy'.trans leasedBy)⟩
      finishing
    have latest : stored.db.latestSucceeded id = parts.db.latestSucceeded id := by
      unfold Db.latestSucceeded
      rw [rows]
    refine ⟨⟨?_, ?_, ?_, ?_⟩, told, _, written, ⟨rfl, rfl, rfl, rfl, rfl⟩, rfl, ?_⟩
    · rw [rows]
      exact kept.transcription
    · rw [latest]
      exact kept.translation
    · rw [latest, verdicts]
      exact kept.moderation
    · intro part given
      obtain ⟨reviewed, there, review⟩ := kept.review part given
      cases present.symm.trans there
      exact ⟨_, written, review.classification, review.recommendation, review.classifiedAt,
        review.classifiedById⟩
    · intro none
      exact if_pos none

end Whole

/-- A message leased by a device, with the snapshot of an untouched one. -/
def untouchedLease : Db where
  installations := [{ id := 0 }]
  files := [{ id := 1 }]
  messages :=
    [{ id := 2, status := .received, audioId := 1, installationId := some 0
       processingLeaseTokenHash := some "token"
       processingLeaseExpiresAt := some 100
       processingLeasedById := some "device"
       processingSnapshotHash := some (snapshotText ⟨none, [], []⟩) }]
  nextId := 3

/-- A transcript, its translation and the verdict on both, in one request. -/
def threeParts : Completion where
  leaseToken := "token"
  transcription := some { text := " Hallo ", language := some "de" }
  translation := some { translatedText := "Hello", translatedLanguage := some "en" }
  moderation := some { flagged := false, recommendation := .approve, maxScore := 0 }

theorem complete_all_or_nothing_threeParts : ∃ after,
    completeRoute id 20 "device" 2 threeParts untouchedLease = (after, .completed []) ∧
      PartsStored 20 "device" 2 threeParts after ∧
      (after.transcriptions.length, after.moderations.length) = (1, 1) := by
  have answered : (completeRoute id 20 "device" 2 threeParts untouchedLease).2 =
      .completed [] := by decide +kernel
  have stored : (fun after : Db => (after.transcriptions.length, after.moderations.length))
      (completeRoute id 20 "device" 2 threeParts untouchedLease).1 = (1, 1) := by decide +kernel
  have whole := complete_all_or_nothing id 20 "device" 2 threeParts untouchedLease
  generalize completeRoute id 20 "device" 2 threeParts untouchedLease = ran at *
  obtain ⟨after, answer⟩ := ran
  cases answered
  exact ⟨after, rfl, whole.1, stored⟩

end BoothOperator.Processing
