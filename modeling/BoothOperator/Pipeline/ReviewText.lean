import BoothOperator.Schema
import BoothOperator.TranslationText

/-! The text a moderation verdict is about. Every reader prefers a succeeded
translation to the transcript, but they do not share one function for it: the
source chooses, trims and normalizes in each place, and so do these
definitions. -/
namespace BoothOperator.Pipeline

open BoothOperator.Schema
open BoothOperator.TranslationText

/-- `ENGLISH_LANGUAGE_TAGS`. -/
def englishLanguageTags : List String :=
  ["en", "en-us", "en-gb", "en-au", "en-ca", "en-ie", "en-in", "en-nz", "en-za", "english"]

/-- `isEnglishLanguage`. No character outside ASCII lowers to a letter of a
tag, so lowering the ASCII letters decides membership. -/
def isEnglishLanguage (language : Option String) : Bool :=
  match language with
  | none => true
  | some tag => tag = "" ∨ (trim tag).toLower ∈ englishLanguageTags

/-- `translationStatus === "succeeded" && typeof translatedText === "string" &&
translatedText.trim().length > 0`, with the text it finds. -/
def succeededTranslation (row : Transcription) : Option String :=
  match row.translationStatus, row.translatedText with
  | some .succeeded, some text => if trim text = "" then none else some text
  | _, _ => none

/-- `(text ?? "").trim()`. -/
def transcript (row : Transcription) : String := trim (row.text.getD "")

/-- `previousReviewText` of the three translation writers; `none` is `undefined`. -/
def previousReviewText (row : Transcription) : Option String :=
  match succeededTranslation row with
  | some text => some (normalizeTranslationText text)
  | none => row.text.map trim

/-- The text `runModeration` sends to its provider, when it is not empty. -/
def moderationText (row : Transcription) : String :=
  match (succeededTranslation row).map normalizeTranslationText with
  | some text => if text ≠ "" then text else transcript row
  | none => transcript row

/-- The text whose hash `recordModerationResultInTransaction` expects. -/
def recordedInput (row : Transcription) : String :=
  trim (match succeededTranslation row with
    | some text => normalizeTranslationText text
    | none => transcript row)

/-- The text whose hash `POST /v1/messages/:id/moderation` expects. -/
def submittedInput (row : Transcription) : String :=
  trim (match succeededTranslation row with
    | some text => normalizeTranslationText text
    | none => row.text.getD "")

/-- `moderationText` of `GET /v1/worker/messages/:id/work`, for the row it picked. -/
def workModerationText (row : Transcription) : String :=
  trim (match row.translationStatus, row.translatedText.map normalizeTranslationText with
    | some .succeeded, some text => if text ≠ "" then text else row.text.getD ""
    | _, _ => row.text.getD "")

/-- The two hash checks expect the same text. -/
theorem submittedInput_eq_recordedInput (row : Transcription) :
    submittedInput row = recordedInput row := by
  unfold submittedInput recordedInput
  cases succeededTranslation row <;> simp [transcript]

/-- They expect what the provider is sent, unless a nonblank translation
normalizes to blank. -/
theorem recordedInput_eq_moderationText {row : Transcription}
    (readable : ∀ text, succeededTranslation row = some text →
      normalizeTranslationText text ≠ "" ∨ transcript row = "") :
    recordedInput row = moderationText row := by
  unfold recordedInput moderationText
  cases translated : succeededTranslation row with
  | none => simp [transcript]
  | some text =>
    simp only [Option.map_some, trim_normalizeTranslationText]
    split
    · rfl
    · rename_i blank
      rw [not_not] at blank
      rcases readable text translated with nonblank | silent
      · exact absurd blank nonblank
      · rw [blank, silent]

/-- A translation written over a row, as its readers will see it. -/
def withTranslation (row : Transcription) (text : String) : Transcription :=
  { row with translationStatus := some .succeeded, translatedText := some text }

end BoothOperator.Pipeline
