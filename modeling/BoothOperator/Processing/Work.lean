import Std.Data.String.ToNat
import Mathlib.Data.List.Sort
import BoothOperator.Pipeline.ReviewText

/-! What `routes/message-processing.ts` reads of a message before it hands it to
a device: its transcriptions and moderations, newest first, the steps it still
needs, and the snapshot whose hash the lease remembers. -/
namespace BoothOperator.Processing

open BoothOperator.Schema
open BoothOperator.Pipeline (isEnglishLanguage)
open BoothOperator.Json (Value stringify)

/-! ## The message with its work -/

/-- `orderBy: [{ createdAt: "desc" }, { id: "desc" }]`. -/
def newestFirst {ρ : Type} (createdAt : ρ → Time) (id : ρ → Id) (rows : List ρ) : List ρ :=
  rows.insertionSort fun a b =>
    createdAt b < createdAt a ∨ (createdAt a = createdAt b ∧ id b ≤ id a)

/-- `messageWithWork`. -/
structure WorkMessage where
  message : Message
  transcriptions : List Transcription
  moderations : List Moderation

def findMessageWithWork (db : Db) (id : Id) : Option WorkMessage :=
  (db.message id).map fun message =>
    { message
      transcriptions := newestFirst (·.createdAt) (·.id)
        (db.transcriptions.filter fun row => row.messageId = id)
      moderations := newestFirst (·.createdAt) (·.id)
        (db.moderations.filter fun row => row.messageId = id) }

inductive MessageProcessingStep where
  | transcription | translation | moderation | review
  deriving DecidableEq, Repr

def latestSucceededTranscription (work : WorkMessage) : Option Transcription :=
  work.transcriptions.find? fun row => row.status = .succeeded

def processingNeeds (work : WorkMessage) : List MessageProcessingStep :=
  match latestSucceededTranscription work with
  | none => [.transcription]
  | some transcription =>
    if Pipeline.transcript transcription = "" then
      if work.message.reviewClassification = none then [.review] else []
    else
      let translation :=
        if transcription.translationStatus ≠ some .succeeded ∧
            ¬ isEnglishLanguage transcription.language then [.translation] else []
      let hasCurrentModeration := work.moderations.any fun row =>
        row.transcriptionId = some transcription.id ∧ row.status = .succeeded
      translation ++ if hasCurrentModeration then [] else [.moderation]

/-! ## The snapshot a lease is tied to -/

structure TranscriptionSnapshot where
  id : Id
  status : TranscriptionStatus
  text : Option String
  language : Option String
  translationStatus : Option TranscriptionStatus
  translatedText : Option String
  translatedLanguage : Option String
  deriving DecidableEq

structure ModerationSnapshot where
  id : Id
  transcriptionId : Option Id
  status : TranscriptionStatus
  deriving DecidableEq

/-- The processing-relevant state of a message. -/
structure ProcessingSnapshot where
  reviewClassification : Option MessageReviewClassification
  transcriptions : List TranscriptionSnapshot
  moderations : List ModerationSnapshot
  deriving DecidableEq

def processingSnapshot (work : WorkMessage) : ProcessingSnapshot where
  reviewClassification := work.message.reviewClassification
  transcriptions := work.transcriptions.map fun row =>
    ⟨row.id, row.status, row.text, row.language, row.translationStatus, row.translatedText,
      row.translatedLanguage⟩
  moderations := work.moderations.map fun row => ⟨row.id, row.transcriptionId, row.status⟩

/-- A document without numbers, as the snapshot is. -/
abbrev SnapshotJson := Value Empty

namespace Encode

def text : Option String → SnapshotJson
  | none => .null
  | some value => .str value

/-- An id in its text form. -/
def id (value : Id) : String := value.repr

def status : TranscriptionStatus → String
  | .pending => "pending"
  | .succeeded => "succeeded"
  | .failed => "failed"

def classification : MessageReviewClassification → String
  | .likelyHangup => "likely_hangup"
  | .unclear => "unclear"

def transcription (row : TranscriptionSnapshot) : SnapshotJson :=
  .obj [("id", .str (id row.id)), ("status", .str (status row.status)), ("text", text row.text),
    ("language", text row.language),
    ("translationStatus", text (row.translationStatus.map status)),
    ("translatedText", text row.translatedText),
    ("translatedLanguage", text row.translatedLanguage)]

def moderation (row : ModerationSnapshot) : SnapshotJson :=
  .obj [("id", .str (id row.id)), ("transcriptionId", text (row.transcriptionId.map id)),
    ("status", .str (status row.status))]

def snapshot (value : ProcessingSnapshot) : SnapshotJson :=
  .obj [("reviewClassification", text (value.reviewClassification.map classification)),
    ("transcriptions", .arr (value.transcriptions.map transcription)),
    ("moderations", .arr (value.moderations.map moderation))]

theorem text_injective : Function.Injective text := by
  intro a b same
  cases a <;> cases b <;> simp_all [text]

theorem id_injective : Function.Injective id := fun _ _ same => Nat.repr_injective same

theorem status_injective : Function.Injective status := by
  intro a b same
  cases a <;> cases b <;> simp_all [status]

theorem classification_injective : Function.Injective classification := by
  intro a b same
  cases a <;> cases b <;> simp_all [classification]

theorem transcription_injective : Function.Injective transcription := by
  intro a b same
  simp only [transcription, Value.obj.injEq, List.cons.injEq, Prod.mk.injEq, Value.str.injEq,
    true_and, and_true] at same
  obtain ⟨ids, statuses, texts, languages, translations, translatedTexts, translatedLanguages⟩ :=
    same
  cases a
  cases b
  simp only [TranscriptionSnapshot.mk.injEq]
  exact ⟨id_injective ids, status_injective statuses, text_injective texts,
    text_injective languages, Option.map_injective status_injective (text_injective translations),
    text_injective translatedTexts, text_injective translatedLanguages⟩

theorem moderation_injective : Function.Injective moderation := by
  intro a b same
  simp only [moderation, Value.obj.injEq, List.cons.injEq, Prod.mk.injEq, Value.str.injEq,
    true_and, and_true] at same
  obtain ⟨ids, targets, statuses⟩ := same
  cases a
  cases b
  simp only [ModerationSnapshot.mk.injEq]
  exact ⟨id_injective ids, Option.map_injective id_injective (text_injective targets),
    status_injective statuses⟩

theorem snapshot_injective : Function.Injective snapshot := by
  intro a b same
  simp only [snapshot, Value.obj.injEq, List.cons.injEq, Prod.mk.injEq, Value.arr.injEq,
    true_and, and_true] at same
  obtain ⟨classes, transcriptions, moderations⟩ := same
  cases a
  cases b
  simp only [ProcessingSnapshot.mk.injEq]
  exact ⟨Option.map_injective classification_injective (text_injective classes),
    List.map_injective_iff.mpr transcription_injective transcriptions,
    List.map_injective_iff.mpr moderation_injective moderations⟩

end Encode

/-- `JSON.stringify` of the snapshot. -/
def snapshotText (value : ProcessingSnapshot) : String :=
  stringify Empty.elim (Encode.snapshot value)

/-- Two snapshots with one text are one snapshot. -/
theorem snapshotText_injective : Function.Injective snapshotText :=
  (Json.stringify_injective Json.literals_empty).comp Encode.snapshot_injective

/-- `processingSnapshotHash`. -/
def processingSnapshotHash (sha256 : String → String) (work : WorkMessage) : String :=
  sha256 (snapshotText (processingSnapshot work))

end BoothOperator.Processing
