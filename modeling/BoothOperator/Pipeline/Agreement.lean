import BoothOperator.Lib.Digest
import BoothOperator.Pipeline.Jobs

/-! The four places that choose the text to moderate, side by side:
`GET /v1/worker/messages/:id/work` hands it to a worker, `runModeration` sends
it to a provider, and two transactions check the hash of it. They agree exactly
when the newest transcription has succeeded and its translation and transcript
are blank together. -/
namespace BoothOperator.Pipeline

open BoothOperator.Schema
open BoothOperator.TranslationText

/-- The transcription `GET /v1/worker/messages/:id/work` answers with. -/
structure WorkTranscription where
  id : Id
  text : String
  language : Option String
  model : Option String
  translationStatus : Option TranscriptionStatus
  translatedText : Option String
  translationInputSha256 : String
  moderationText : String
  moderationInputSha256 : String

/-- `transcriptions: { orderBy: { createdAt: "desc" }, take: 1 }`. -/
def newestTranscription (db : Db) (messageId : Id) : Option Transcription :=
  Table.latest (·.createdAt) (fun row => row.messageId = messageId) db.transcriptions

variable (sha256 : String → String) (now : Time)

def workTranscription (row : Transcription) : WorkTranscription where
  id := row.id
  text := row.text.getD ""
  language := row.language
  model := row.model
  translationStatus := row.translationStatus
  translatedText := row.translatedText.map normalizeTranslationText
  translationInputSha256 := sha256 (transcript row)
  moderationText := workModerationText row
  moderationInputSha256 := sha256 (workModerationText row)

/-- The answer of `GET /v1/worker/messages/:id/work`; its audio is left out. -/
def work (db : Db) (messageId : Id) : Option (Option WorkTranscription) :=
  (db.message messageId).map fun _ =>
    (newestTranscription db messageId).map (workTranscription sha256)

/-- What `runModeration` sends when no row changes between its statements. -/
def providerText (call : ModerationCall) (db : Db) : Option String :=
  match startModeration call db with
  | .goto (.moderatePrepare call transcriptionId) =>
    match (prepareModeration now call transcriptionId db).next with
    | .goto (.moderateCalling run) => some run.text
    | _ => none
  | _ => none

/-- A verdict was taken, as a new one or as the one already there. -/
def Accepted : RecordModerationResultOutcome → Prop
  | .recorded _ | .unchanged _ => True
  | _ => False

/-- A run for the transcription a worker was given, with a provider of its own. -/
structure ModerationCall.For (call : ModerationCall) (messageId : Id)
    (given : Option WorkTranscription) : Prop where
  messageId : call.messageId = messageId
  target : ∀ id, call.transcriptionId = some id → ∃ work, given = some work ∧ work.id = id
  provider : call.deps.moderation.isSome

/-- The four places agree on a message's text, and on there being none. A result names the ids
as `work` gave them. -/
structure ReviewTextsAgree (db : Db) (messageId : Id) (given : Option WorkTranscription) : Prop where
  recorded : ∀ work, given = some work → ∀ opts : RecordModerationResultOptions,
    opts.messageId = messageId → opts.transcriptionId = some work.id → opts.AsStored →
      opts.inputSha256 = some work.moderationInputSha256 →
        Accepted (recordModerationResultInTransaction sha256 now opts db).1
  submitted : ∀ work, given = some work → ∀ data : ModerationSubmit,
    data.messageId = messageId → data.transcriptionId = work.id →
      data.inputSha256 = work.moderationInputSha256 → Accepted (submitModeration sha256 now data db).1
  sent : ∀ work, given = some work → ∀ call : ModerationCall, call.For messageId given →
    ∀ text, providerText now call db = some text → work.moderationInputSha256 = sha256 text
  silent : ∀ call : ModerationCall, call.For messageId given →
    (providerText now call db = none ↔ (given.map (·.moderationText)).getD "" = "")
  silentChecks : ∀ work, given = some work → ∀ row, db.transcription work.id = some row →
    (recordedInput row = "" ↔ work.moderationText = "") ∧
      (submittedInput row = "" ↔ work.moderationText = "")

/-- The translation is blank for its readers exactly when the transcript is. -/
def BlankTogether (row : Transcription) : Prop :=
  ∀ text, succeededTranslation row = some text →
    (normalizeTranslationText text = "" ↔ transcript row = "")

section Lemmas

variable {sha256 now} {db : Db} {messageId : Id} {row : Transcription}

/-- Workers read what the provider is sent: a blank translation normalizes to blank. -/
theorem workModerationText_eq (row : Transcription) :
    workModerationText row = moderationText row := by
  unfold workModerationText moderationText succeededTranslation
  cases row.translationStatus with
  | none => simp [transcript]
  | some status =>
    cases row.translatedText with
    | none => cases status <;> simp [transcript]
    | some text =>
      cases status with
      | pending | failed => simp [transcript]
      | succeeded =>
        simp only [Option.map_some]
        by_cases blank : trim text = ""
        · simp [blank, normalizeTranslationText_of_blank blank, transcript]
        · simp only [if_neg blank, Option.map_some]
          split
          · exact trim_normalizeTranslationText text
          · rfl

theorem newestTranscription_mem (newest : newestTranscription db messageId = some row) :
    row ∈ db.transcriptions ∧ row.messageId = messageId := by
  obtain ⟨member, matched⟩ := Table.latest_mem newest
  exact ⟨member, of_decide_eq_true matched⟩

/-- The newest transcription, once succeeded, is the latest succeeded one. -/
theorem latestSucceeded_of_newest (newest : newestTranscription db messageId = some row)
    (succeeded : row.status = .succeeded) : db.latestSucceeded messageId = some row := by
  obtain ⟨_, message⟩ := newestTranscription_mem newest
  refine Table.latest_narrow newest (by simp [message, succeeded]) ?_
  intro other matched
  simp only [decide_eq_true_eq] at matched ⊢
  exact matched.1

theorem latestSucceeded_none (newest : newestTranscription db messageId = none) :
    db.latestSucceeded messageId = none := by
  rw [newestTranscription, Table.latest_eq_none] at newest
  refine Table.latest_eq_none.mpr fun row member matched => newest row member ?_
  simp only [decide_eq_true_eq] at matched ⊢
  exact matched.1

theorem createVerdict_accepted (opts : RecordModerationResultOptions) (db : Db) :
    Accepted (createVerdict now opts db).1 := by
  unfold createVerdict
  repeat' split
  all_goals trivial

theorem finalizeVerdict_accepted (opts : RecordModerationResultOptions) (pending : Moderation)
    (db : Db) : Accepted (finalizeVerdict now opts pending db).1 := by
  simp only [finalizeVerdict]
  repeat' split
  · exact createVerdict_accepted opts db
  all_goals trivial

/-- A verdict that passes the checks on its transcription is taken. -/
theorem recordModeration_accepted {opts : RecordModerationResultOptions} {message : Message}
    (present : db.message opts.messageId = some message) (named : opts.transcriptionId ≠ none)
    (checked : verdictTargetError sha256 opts db = none) :
    Accepted (recordModerationResultInTransaction sha256 now opts db).1 := by
  unfold recordModerationResultInTransaction
  simp only [present, checked, named, false_and, if_false]
  split
  · exact createVerdict_accepted opts db
  · exact finalizeVerdict_accepted opts _ db

theorem transcription_of_mem (distinct : (db.transcriptions.map (·.id)).Nodup)
    (member : row ∈ db.transcriptions) : db.transcription row.id = some row :=
  Table.findUnique_of_mem distinct member

/-- The run sends the latest transcript's text, when it and the transcript are not blank. -/
theorem providerText_latest (distinct : (db.transcriptions.map (·.id)).Nodup) {message : Message}
    (present : db.message messageId = some message)
    (latest : db.latestSucceeded messageId = some row) {call : ModerationCall}
    (same : call.messageId = messageId) {provider : Provider}
    (inProcess : call.deps.moderation = some provider)
    (target : ∀ id, call.transcriptionId = some id → row.id = id) :
    providerText now call db =
      if transcript row = "" ∨ moderationText row = "" then none else some (moderationText row) := by
  obtain ⟨member, matched⟩ := Table.latest_mem latest
  simp only [decide_eq_true_eq] at matched
  have current : currentTranscript call.messageId row.id db = some row := by
    simp [currentTranscript, same, present, latest]
  have started : startModeration call db =
      if transcript row = "" then call.finish none else .goto (.moderatePrepare call row.id) := by
    unfold startModeration
    cases named : call.transcriptionId with
    | none => simp [same, latest, matched.2]
    | some id => simp [← target id named, transcription_of_mem distinct member, matched.2]
  unfold providerText
  rw [started]
  by_cases silent : transcript row = ""
  · simp [silent, ModerationCall.finish]
  · simp only [silent, if_false, false_or]
    unfold prepareModeration
    simp only [current, inProcess]
    by_cases blank : moderationText row = ""
    · simp [blank, ModerationCall.finish]
    · simp [blank]

/-- Without a succeeded transcript there is nothing to send. -/
theorem providerText_none (latest : db.latestSucceeded messageId = none) {call : ModerationCall}
    (same : call.messageId = messageId) (untargeted : call.transcriptionId = none) :
    providerText now call db = none := by
  simp [providerText, startModeration, untargeted, same, latest, ModerationCall.finish]

/-- The two checks and the provider read one text when the row is blank in both or neither. -/
theorem recordedInput_of_blankTogether (together : BlankTogether row) :
    recordedInput row = moderationText row := by
  refine recordedInput_eq_moderationText fun text translated => ?_
  by_cases blank : normalizeTranslationText text = ""
  · exact .inr ((together text translated).mp blank)
  · exact .inl blank

/-- A text for the readers is one for `runModeration`, which asks the transcript first. -/
theorem moderationText_blank_iff (together : BlankTogether row) :
    moderationText row = "" ↔ transcript row = "" := by
  unfold moderationText
  cases translated : succeededTranslation row with
  | none => simp
  | some text =>
    simp only [Option.map_some]
    split
    · rename_i nonblank
      simp [nonblank, ← together text translated]
    · rfl

end Lemmas

/-- What holds of the newest transcription when the four places agree. -/
def Agreeable (db : Db) (messageId : Id) : Prop :=
  ∀ row, newestTranscription db messageId = some row → row.status = .succeeded ∧ BlankTogether row

section Agreement

variable {sha256 now} {db : Db} {messageId : Id} {message : Message} {row : Transcription}

/-- With the newest transcription succeeded and blank together, the hash a
worker was given passes both checks. -/
private theorem recorded_agrees (distinct : (db.transcriptions.map (·.id)).Nodup)
    (present : db.message messageId = some message)
    (newest : newestTranscription db messageId = some row) (succeeded : row.status = .succeeded)
    (together : BlankTogether row) {opts : RecordModerationResultOptions}
    (own : opts.messageId = messageId) (named : opts.transcriptionId = some row.id)
    (spelled : opts.AsStored)
    (hash : opts.inputSha256 = some (sha256 (workModerationText row))) :
    Accepted (recordModerationResultInTransaction sha256 now opts db).1 := by
  obtain ⟨member, ofMessage⟩ := newestTranscription_mem newest
  have latest := latestSucceeded_of_newest newest succeeded
  refine recordModeration_accepted (own ▸ present) (by simp [named]) ?_
  have read : recordedInput row = workModerationText row := by
    rw [workModerationText_eq, recordedInput_of_blankTogether together]
  simp [verdictTargetError, named, transcription_of_mem distinct member, ofMessage, own, latest,
    spelled.1, spelled.2, hash, read]

private theorem submitted_agrees (distinct : (db.transcriptions.map (·.id)).Nodup)
    (present : db.message messageId = some message)
    (newest : newestTranscription db messageId = some row) (succeeded : row.status = .succeeded)
    (together : BlankTogether row) {data : ModerationSubmit} (own : data.messageId = messageId)
    (named : data.transcriptionId = row.id)
    (hash : data.inputSha256 = sha256 (workModerationText row)) :
    Accepted (submitModeration sha256 now data db).1 := by
  obtain ⟨member, ofMessage⟩ := newestTranscription_mem newest
  have latest := latestSucceeded_of_newest newest succeeded
  have read : submittedInput row = workModerationText row := by
    rw [submittedInput_eq_recordedInput, workModerationText_eq,
      recordedInput_of_blankTogether together]
  unfold submitModeration
  simp only [own, present, named, transcription_of_mem distinct member, ofMessage, succeeded,
    latest, hash, read, Option.map_some, ne_eq, not_true_eq_false, or_self, if_false]
  split
  · trivial
  · have created : Accepted (createVerdict now data.result db).1 :=
      createVerdict_accepted data.result db
    split
    · trivial
    · exact created

theorem reviewTexts_agree (distinct : (db.transcriptions.map (·.id)).Nodup)
    (present : db.message messageId = some message) (agreeable : Agreeable db messageId) :
    ReviewTextsAgree sha256 now db messageId
      ((newestTranscription db messageId).map (workTranscription sha256)) := by
  cases newest : newestTranscription db messageId with
  | none =>
    have latest := latestSucceeded_none newest
    refine ⟨by simp, by simp, by simp, fun call run => ?_, by simp⟩
    have untargeted : call.transcriptionId = none := by
      by_contra named
      obtain ⟨id, named⟩ := Option.ne_none_iff_exists'.mp named
      obtain ⟨_, absent, _⟩ := run.target id named
      cases absent
    simp [providerText_none latest run.messageId untargeted]
  | some row =>
    obtain ⟨succeeded, together⟩ := agreeable row newest
    obtain ⟨member, _⟩ := newestTranscription_mem newest
    have latest := latestSucceeded_of_newest newest succeeded
    have blank := moderationText_blank_iff together
    have sent {call : ModerationCall}
        (run : call.For messageId ((some row).map (workTranscription sha256))) :
        providerText now call db =
          if moderationText row = "" then none else some (moderationText row) := by
      obtain ⟨provider, inProcess⟩ := Option.isSome_iff_exists.mp run.provider
      have target (id : Id) (named : call.transcriptionId = some id) : row.id = id := by
        obtain ⟨_, given, rfl⟩ := run.target id named
        cases given
        rfl
      rw [providerText_latest distinct present latest run.messageId inProcess target]
      simp only [← blank, or_self]
    refine ⟨?_, ?_, ?_, fun call run => ?_, ?_⟩
    · rintro _ ⟨⟩ opts own named spelled hash
      exact recorded_agrees distinct present newest succeeded together own named spelled hash
    · rintro _ ⟨⟩ data own named hash
      exact submitted_agrees distinct present newest succeeded together own named hash
    · rintro _ ⟨⟩ call run text found
      rw [sent run] at found
      split at found
      · cases found
      · cases found
        exact congrArg sha256 (workModerationText_eq row)
    · rw [sent run]
      simp [workTranscription, workModerationText_eq]
    · rintro _ ⟨⟩ other found
      cases (transcription_of_mem distinct member).symm.trans found
      rw [submittedInput_eq_recordedInput, recordedInput_of_blankTogether together]
      simp [workTranscription, workModerationText_eq]

/-- Only a verdict on the latest succeeded transcript is taken. -/
theorem latest_of_accepted {opts : RecordModerationResultOptions}
    (accepted : Accepted (recordModerationResultInTransaction sha256 now opts db).1) {id : Id}
    (named : opts.transcriptionId = some id) :
    (db.latestSucceeded opts.messageId).map (·.id) = some id := by
  by_contra stale
  have error : verdictTargetError sha256 opts db = some .transcriptionNotFound ∨
      verdictTargetError sha256 opts db = some .staleTranscription := by
    unfold verdictTargetError
    simp only [named]
    repeat' split
    all_goals simp_all
  unfold recordModerationResultInTransaction at accepted
  split at accepted
  · exact accepted
  · rcases error with error | error
    all_goals
      rw [error] at accepted
      exact accepted

/-- The translation decides what the checks expect, even when it normalizes to blank. -/
theorem recordedInput_of_translated {text : String}
    (translated : succeededTranslation row = some text) :
    recordedInput row = normalizeTranslationText text := by
  simp [recordedInput, translated]

theorem moderationText_of_translated {text : String}
    (translated : succeededTranslation row = some text) :
    moderationText row =
      if normalizeTranslationText text ≠ "" then normalizeTranslationText text
      else transcript row := by
  simp [moderationText, translated]

theorem agreeable_of_reviewTexts (distinct : (db.transcriptions.map (·.id)).Nodup)
    (present : db.message messageId = some message)
    (agree : ReviewTextsAgree sha256 now db messageId
      ((newestTranscription db messageId).map (workTranscription sha256))) :
    Agreeable db messageId := by
  intro row newest
  obtain ⟨member, ofMessage⟩ := newestTranscription_mem newest
  have found := transcription_of_mem distinct member
  rw [newest] at agree
  have latest : db.latestSucceeded messageId = some row := by
    have accepted := agree.recorded _ rfl
      { messageId, transcriptionId := some row.id
        inputSha256 := some (sha256 (workModerationText row))
        flagged := false, recommendation := .approve, maxScore := 0, createWhenMissing := false }
      rfl rfl ⟨rfl, rfl⟩ rfl
    obtain ⟨other, latest, same⟩ := Option.map_eq_some_iff.mp (latest_of_accepted accepted rfl)
    rw [← Table.eq_of_key_eq distinct (Table.latest_mem latest).1 member same]
    exact latest
  have succeeded : row.status = .succeeded := (of_decide_eq_true (Table.latest_mem latest).2).2
  refine ⟨succeeded, fun text translated => ⟨fun blank => ?_, fun silent => ?_⟩⟩
  · -- The hash checks expect the blank translation, the worker reads the transcript.
    have checked := (agree.silentChecks _ rfl row found).1
    rw [recordedInput_of_translated translated] at checked
    have read : moderationText row = "" := by
      rw [← workModerationText_eq]
      exact checked.mp blank
    simpa [moderationText_of_translated translated, blank] using read
  · -- The run asks for a transcript, the worker reads the translation.
    let call : ModerationCall :=
      { messageId, deps := { moderation := some ⟨"", ""⟩ }, caller := .route }
    have run : call.For messageId ((some row).map (workTranscription sha256)) := ⟨rfl, nofun, rfl⟩
    have unsent : providerText now call db = none := by
      rw [providerText_latest distinct present latest rfl rfl fun _ named => by cases named]
      simp [silent]
    have read : moderationText row = "" := by
      rw [← workModerationText_eq]
      exact (agree.silent call run).mp unsent
    rw [moderationText_of_translated translated] at read
    by_contra nonblank
    simp [nonblank] at read

end Agreement

/-- **The four places agree on a message exactly when its newest transcription
has succeeded and is blank in its translation when it is in its transcript.** -/
theorem reviewTexts_agree_iff {db : Db} {messageId : Id} {given : Option WorkTranscription}
    (distinct : (db.transcriptions.map (·.id)).Nodup) (answered : work sha256 db messageId = some given) :
    ReviewTextsAgree sha256 now db messageId given ↔ Agreeable db messageId := by
  obtain ⟨message, present, rfl⟩ := Option.map_eq_some_iff.mp answered
  exact ⟨agreeable_of_reviewTexts distinct present, reviewTexts_agree distinct present⟩

/-- A message with one transcript and its translation. -/
def translatedMessage (translatedText : String) : Db where
  messages := [{ id := 1, audioId := 0 }]
  transcriptions :=
    [{ id := 2, messageId := 1, provider := "openai", status := .succeeded, text := some "hola"
       translationStatus := some .succeeded, translatedText := some translatedText }]

/-- The digests of its transcript, of its translation and of no text. -/
def reviewSha256 : String → String :=
  Digest.digest
    [("hola", "b221d9dbb083a7f33428d7c2a3c3198ae925614d70210e28716ccaa7cd4ddb79"),
      ("hello", "2cf24dba5fb0a30e26e83b2ac5b9e29e1b161e5c1fa7425e73043362938b9824"),
      ("", "e3b0c44298fc1c149afbf4c8996fb92427ae41e4649b934ca495991b7852b855")]

theorem reviewTexts_agree_translated : ∃ given,
    work reviewSha256 (translatedMessage "hello") 1 = some given ∧
      ReviewTextsAgree reviewSha256 0 (translatedMessage "hello") 1 given := by
  have agreeable : Agreeable (translatedMessage "hello") 1 := by
    rintro row ⟨⟩
    refine ⟨rfl, ?_⟩
    rintro _ ⟨⟩
    decide +kernel
  exact ⟨_, rfl, (reviewTexts_agree_iff reviewSha256 0 (by decide) rfl).mpr agreeable⟩

/-- An empty code fence is a translation for the hash checks, and none for the
worker and the run, who read the transcript. -/
theorem reviewTexts_disagree : ¬ ∀ sha256 now db messageId given,
    (db.transcriptions.map (·.id)).Nodup → work sha256 db messageId = some given →
      ReviewTextsAgree sha256 now db messageId given := by
  intro agree
  have agreeable : Agreeable (translatedMessage "``````") 1 :=
    agreeable_of_reviewTexts (by decide) rfl (agree reviewSha256 0 _ 1 _ (by decide) rfl)
  have together := (agreeable _ rfl).2 "``````" rfl
  exact absurd (together.mp (by decide +kernel)) (by decide +kernel)

end BoothOperator.Pipeline
