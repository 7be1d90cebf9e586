import BoothOperator.Pipeline.TranscriptRuns
import BoothOperator.Processing.Exclusion

/-! The no-speech classification of a message beside its transcripts. A lease
completion that submits words clears it; a worker callback, an operator's
transcript and a run with a provider of its own record their words and leave it.
In the runs where none of these meets a classified message, a classification
stays on silence. -/
namespace BoothOperator.Pipeline

open BoothOperator.Schema
open BoothOperator.Processing
open BoothOperator.TranslationText

/-- The latest succeeded transcript of a message is there and blank. -/
def Silent (db : Db) (messageId : Id) : Prop :=
  ∃ latest, db.latestSucceeded messageId = some latest ∧ transcript latest = ""

/-- A classified message is a silent one. -/
def NoSpeech (db : Db) : Prop :=
  ∀ row ∈ db.messages, row.reviewClassification ≠ none → Silent db row.id

/-- The classification of every message. -/
def reviews (db : Db) : List (Id × Option MessageReviewClassification) :=
  db.messages.map fun row => (row.id, row.reviewClassification)

/-- The ids of the transcripts are their own. -/
structure Numbered (db : Db) : Prop where
  ids : (db.transcriptions.map (·.id)).Nodup
  bound : ∀ row ∈ db.transcriptions, row.id < db.nextId

/-- A transaction that says words of the messages it speaks of, and of no other. -/
structure Hears (spoken : Id → Prop) (before after : Db) : Prop where
  numbered : Numbered before → Numbered after
  silent : Numbered before → ∀ messageId, ¬ spoken messageId → Silent before messageId →
    Silent after messageId
  reviews : reviews after = reviews before

/-- A transaction that leaves transcripts and classifications as they are. -/
structure Mute (before after : Db) : Prop where
  attempts : attempts after = attempts before
  nextId : before.nextId ≤ after.nextId
  reviews : reviews after = reviews before

section Transactions

variable {before middle after : Db} {spoken spoken' : Id → Prop}

theorem Mute.refl (db : Db) : Mute db db := ⟨rfl, le_rfl, rfl⟩

theorem Mute.trans (first : Mute before middle) (second : Mute middle after) : Mute before after :=
  ⟨second.attempts.trans first.attempts, first.nextId.trans second.nextId,
    second.reviews.trans first.reviews⟩

theorem latest_attempts (same : attempts after = attempts before) (messageId : Id) :
    (after.latestSucceeded messageId).map attempt =
      (before.latestSucceeded messageId).map attempt := by
  have newest_map (rows : List Transcription) : (Table.newest (·.createdAt) rows).map attempt =
      Table.newest (·.begun) (rows.map attempt) := by
    induction rows with
    | nil => rfl
    | cons head rest ih =>
      simp only [Table.newest, List.map_cons, ← ih]
      cases Table.newest (·.createdAt) rest with
      | none => rfl
      | some other =>
        by_cases order : head.createdAt < other.createdAt
        · simp [attempt, order]
        · simp [attempt, order]
  have asked (db : Db) : (db.latestSucceeded messageId).map attempt =
      Table.latest (·.begun) (fun one : Transcript => one.subject = messageId ∧ one.phase = .succeeded)
        (attempts db) := by
    rw [Db.latestSucceeded, Table.latest, newest_map, Table.latest, attempts, List.filter_map]
    have rows : db.transcriptions.filter (fun row => row.messageId = messageId ∧
        row.status = .succeeded) = db.transcriptions.filter ((fun one : Transcript =>
          decide (one.subject = messageId ∧ one.phase = .succeeded)) ∘ attempt) :=
      List.filter_congr fun row _ => decide_eq_decide.mpr (by simp [attempt])
    rw [rows]
  rw [asked, asked, same]

theorem Silent.of_attempts (same : attempts after = attempts before) {messageId : Id}
    (silent : Silent before messageId) : Silent after messageId := by
  obtain ⟨latest, found, blank⟩ := silent
  have kept := latest_attempts same messageId
  rw [found, Option.map_some, Option.map_eq_some_iff] at kept
  obtain ⟨latest', found', equal⟩ := kept
  have text : latest'.text = latest.text := congrArg Attempts.Attempt.result equal
  exact ⟨latest', found', by rw [transcript, text]; exact blank⟩

theorem Mute.hears (mute : Mute before after) : Hears spoken before after where
  numbered numbered := by
    have ids (db : Db) : db.transcriptions.map (·.id) = (Pipeline.attempts db).map (·.id) := by
      rw [Pipeline.attempts, List.map_map]
      rfl
    refine ⟨?_, fun row member => ?_⟩
    · rw [ids, mute.attempts, ← ids]
      exact numbered.ids
    · have there : row.id ∈ before.transcriptions.map (·.id) := by
        rw [ids, ← mute.attempts, ← ids]
        exact List.mem_map_of_mem member
      obtain ⟨old, was, same⟩ := List.mem_map.mp there
      exact same ▸ (numbered.bound old was).trans_le mute.nextId
  silent _ _ _ := Silent.of_attempts mute.attempts
  reviews := mute.reviews

theorem Hears.trans (first : Hears spoken before middle) (second : Hears spoken middle after) :
    Hears spoken before after where
  numbered numbered := second.numbered (first.numbered numbered)
  silent numbered messageId unspoken silent :=
    second.silent (first.numbered numbered) messageId unspoken
      (first.silent numbered messageId unspoken silent)
  reviews := second.reviews.trans first.reviews

theorem Hears.mono (hears : Hears spoken before after) (more : ∀ id, spoken id → spoken' id) :
    Hears spoken' before after :=
  ⟨hears.numbered,
    fun numbered id unspoken => hears.silent numbered id fun said => unspoken (more id said),
    hears.reviews⟩

/-- Rows that have not succeeded are settled: the messages that get words are spoken of. -/
theorem hears_settle {db : Db} {found : Transcription → Bool}
    {change : Transcription → Transcription}
    (kept : ∀ row, (change row).id = row.id ∧ (change row).createdAt = row.createdAt ∧
      (change row).messageId = row.messageId)
    (open_ : Numbered db → ∀ row ∈ db.transcriptions, found row = true → row.status ≠ .succeeded)
    (said : Numbered db → ∀ row ∈ db.transcriptions, found row = true →
      (change row).status = .succeeded → transcript (change row) ≠ "" → spoken row.messageId) :
    Hears spoken db (db.updateTranscriptions found change) where
  numbered numbered := by
    refine ⟨?_, fun row member => ?_⟩
    · rw [Db.updateTranscriptions, Table.map_updateMany (·.id) fun row => (kept row).1]
      exact numbered.ids
    obtain ⟨old, was, rfl⟩ := Table.mem_updateMany.mp member
    split
    · rw [(kept old).1]
      exact numbered.bound old was
    · exact numbered.bound old was
  silent := by
    rintro numbered messageId unspoken ⟨latest, found', blank⟩
    have spared : ∀ row ∈ db.transcriptions,
        decide (row.messageId = messageId ∧ row.status = .succeeded) = true → found row = false := by
      intro row member met
      by_contra matched
      rw [Bool.not_eq_false] at matched
      exact open_ numbered row member matched (of_decide_eq_true met).2
    cases now : (db.updateTranscriptions found change).latestSucceeded messageId with
    | none =>
      obtain ⟨member, met⟩ := Table.latest_mem found'
      have still : latest ∈ Table.updateMany found change db.transcriptions :=
        Table.mem_updateMany.mpr ⟨latest, member, by simp [spared latest member met]⟩
      exact absurd met (Table.latest_eq_none.mp now latest still)
    | some latest' =>
      refine ⟨latest', now, ?_⟩
      obtain ⟨-, met⟩ := Table.latest_mem now
      rcases Table.latest_widened (fun row => (kept row).2.1) spared now with
        ⟨old, member, matched, rfl⟩ | before
      · by_contra words
        obtain ⟨own, succeeded⟩ := of_decide_eq_true met
        have subject : old.messageId = messageId := (kept old).2.2.symm.trans own
        exact unspoken (subject ▸ said numbered old member matched succeeded words)
      · rw [Option.some.inj (before.symm.trans found')]
        exact blank
  reviews := rfl

/-- A row is created: words in it are of the message spoken of. -/
theorem hears_create {db : Db} {create : Id → Transcription} (own : ∀ id, (create id).id = id)
    (said : (create db.nextId).status = .succeeded → transcript (create db.nextId) ≠ "" →
      spoken (create db.nextId).messageId) :
    Hears spoken db (db.createTranscription create) where
  numbered numbered := by
    refine ⟨?_, fun row member => ?_⟩
    · rw [Db.createTranscription, List.map_append, List.map_singleton, own]
      exact Table.nodup_append_fresh numbered.ids numbered.bound
    · rcases List.mem_append.mp member with old | new
      · exact (numbered.bound row old).trans (Nat.lt_succ_self _)
      · rw [List.mem_singleton.mp new, own]
        exact Nat.lt_succ_self _
  silent := by
    rintro numbered messageId unspoken ⟨latest, found, blank⟩
    cases now : (db.createTranscription create).latestSucceeded messageId with
    | none =>
      obtain ⟨member, met⟩ := Table.latest_mem found
      exact absurd met (Table.latest_eq_none.mp now latest (List.mem_append_left _ member))
    | some latest' =>
      refine ⟨latest', now, ?_⟩
      obtain ⟨-, met⟩ := Table.latest_mem now
      rcases Table.latest_append now with rfl | before
      · by_contra words
        obtain ⟨subject, succeeded⟩ := of_decide_eq_true met
        exact unspoken (subject ▸ said succeeded words)
      · rw [Option.some.inj (before.symm.trans found)]
        exact blank
  reviews := rfl

end Transactions

/-! ## Transactions without a transcript -/

section Mute

variable {sha256 : String → String} {now : Time} {db : Db}

theorem mute_updateTranscriptions {found : Transcription → Bool}
    {change : Transcription → Transcription} (kept : ∀ row, attempt (change row) = attempt row) :
    Mute db (db.updateTranscriptions found change) :=
  ⟨Table.map_updateMany attempt kept db.transcriptions, le_rfl, rfl⟩

theorem mute_updateModerations {found : Moderation → Bool} {change : Moderation → Moderation} :
    Mute db (db.updateModerations found change) := ⟨rfl, le_rfl, rfl⟩

theorem mute_supersede {selected : Moderation → Bool} {error : String} :
    Mute db (supersede now selected error db) := mute_updateModerations

theorem mute_createModeration {create : Id → Moderation} : Mute db (db.createModeration create) :=
  ⟨rfl, Nat.le_succ _, rfl⟩

theorem mute_updateMessages {found : Message → Bool} {change : Message → Message}
    (kept : ∀ row, (change row).id = row.id ∧
      (change row).reviewClassification = row.reviewClassification) :
    Mute db (db.updateMessages found change) := by
  refine ⟨rfl, le_rfl, Table.map_updateMany _ (fun row => ?_) db.messages⟩
  rw [(kept row).1, (kept row).2]

theorem mute_storeTranslation {messageId : Id} {row : Transcription} {text : String}
    {found : Transcription → Bool} {change : Transcription → Transcription}
    (kept : ∀ old, attempt (change old) = attempt old) :
    Mute db (storeTranslation now messageId row text found change db) := by
  have updated : Mute db (db.updateTranscriptions found fun old =>
      withTranslation (change old) text) := mute_updateTranscriptions kept
  simp only [storeTranslation]
  split
  · exact updated.trans mute_updateModerations
  · exact updated

theorem mute_claimTranslation (call : TranslationCall) (row : Transcription) (provider : String)
    (model : Option String) : Mute db (claimTranslation call row provider model db).1 := by
  simp only [claimTranslation]
  split
  · exact Mute.refl db
  · split
    · exact Mute.refl db
    · exact mute_updateTranscriptions fun _ => rfl

theorem mute_finalizeTranslation (run : TranslationRun) (text language : String) :
    Mute db (finalizeTranslation now run text language db).db := by
  simp only [finalizeTranslation]
  repeat' split
  all_goals first
    | exact Mute.refl db
    | exact mute_storeTranslation fun _ => rfl

theorem mute_recordTranslation (opts : RecordTranslationResultOptions) :
    Mute db (recordTranslationResultInTransaction sha256 now opts db).2 := by
  have store (latest : Transcription) (text : String) :
      Mute db (recordTranslationResultInTransaction.store sha256 now opts db latest text).2 := by
    simp only [recordTranslationResultInTransaction.store]
    split
    · exact Mute.refl db
    · exact mute_storeTranslation fun _ => rfl
  unfold recordTranslationResultInTransaction
  simp only
  repeat' split
  all_goals first
    | exact Mute.refl db
    | exact store _ _

theorem mute_callbackStep (data : TranslationBody) (deps : PipelineDeps) :
    Mute db (callbackStep sha256 now data deps db).db := by
  have stored : Mute db (workerTranslation sha256 now data db).2 := by
    simp only [workerTranslation]
    repeat' split
    all_goals first
      | exact Mute.refl db
      | exact mute_storeTranslation fun _ => rfl
  unfold callbackStep
  split
  · rename_i recorded
    rw [recorded] at stored
    split
    · exact stored
    · exact stored
  · rename_i recorded
    rw [recorded] at stored
    exact stored

theorem mute_createVerdict (opts : RecordModerationResultOptions) :
    Mute db (createVerdict now opts db).2 := by
  unfold createVerdict
  split
  · split
    · exact Mute.refl db
    · exact mute_createModeration
  · exact Mute.refl db

theorem mute_recordModeration (opts : RecordModerationResultOptions) :
    Mute db (recordModerationResultInTransaction sha256 now opts db).2 := by
  have finalized (pending : Moderation) : Mute db (finalizeVerdict now opts pending db).2 := by
    simp only [finalizeVerdict]
    split
    · split
      · exact mute_createVerdict opts
      · exact Mute.refl db
    · exact mute_updateModerations
  unfold recordModerationResultInTransaction
  repeat' split
  all_goals first
    | exact Mute.refl db
    | exact mute_createVerdict opts
    | exact finalized _

theorem mute_submitModeration (data : ModerationSubmit) :
    Mute db (submitModeration sha256 now data db).2 := by
  have created : Mute db (createVerdict now data.result db).2 := mute_createVerdict _
  unfold submitModeration
  repeat' split
  all_goals first
    | exact Mute.refl db
    | exact mute_updateModerations
    | exact created
    | (rename_i recorded; rw [recorded] at created; exact created)

theorem mute_prepareModeration (call : ModerationCall) (transcriptionId : Id) :
    Mute db (prepareModeration now call transcriptionId db).db := by
  unfold prepareModeration preparePushModeration disableModeration
  simp only
  repeat' split
  all_goals first
    | exact Mute.refl db
    | exact mute_createModeration
    | exact mute_createModeration.trans (mute_updateMessages fun _ => ⟨rfl, rfl⟩)

theorem mute_finalizeModeration (run : ModerationRun) (verdict : ModerationVerdict) :
    Mute db (finalizeModeration now run verdict db).db := by
  simp only [finalizeModeration]
  repeat' split
  all_goals first
    | exact Mute.refl db
    | exact mute_updateModerations

end Mute

/-! ## Transactions with a transcript -/

section Heard

variable {sha256 : String → String} {now : Time} {db : Db}

/-- Whether a submitted transcript is recorded: none of the checks before the
write turns it away, and it is not the latest one again. -/
def records (sha256 : String → String) (opts : RecordTranscriptionResultOptions) (db : Db) : Bool :=
  (db.message opts.messageId).isSome && !expectationStale sha256 opts db &&
    match pendingTranscription db opts.messageId opts.transcriptionId with
    | some _ => decide (opts.transcriptionId ≠ none ∨ opts.provider = some .onDevice)
    | none => decide (opts.transcriptionId = none) &&
        match latestTranscription db opts.messageId with
        | none => true
        | some latest => decide (opts.provider = some .onDevice ∨ latest.status ≠ .succeeded ∨
            latest.provider ≠ ResultProvider.onDevice.column) && !redelivered opts latest

/-- The messages that a statement gives words. -/
def Activity.speaks (sha256 : String → String) (db : Db) (activity : Activity) (messageId : Id) :
    Prop :=
  match activity with
  | .transcribeFinalize run text _ => trim text ≠ "" ∧
      ∃ row ∈ db.transcriptions, ownPending run row = true ∧ row.messageId = messageId
  | .recordTranscription opts _ => trim opts.text ≠ "" ∧ records sha256 opts db = true ∧
      opts.messageId = messageId
  | _ => False

theorem hears_finalizeTranscription {opts : RecordTranscriptionResultOptions}
    {pending : Transcription} (member : pending ∈ db.transcriptions)
    (own : pending.messageId = opts.messageId) :
    Hears (fun messageId => trim opts.text ≠ "" ∧ opts.messageId = messageId) db
      (finalizeTranscription now opts pending db).2 := by
  unfold finalizeTranscription
  simp only
  split
  · exact (Mute.refl db).hears
  · refine Hears.trans ?_ mute_supersede.hears
    refine hears_settle (fun row => ⟨rfl, rfl, rfl⟩) ?_ ?_
    · intro _ row _ matched succeeded
      simp only [decide_eq_true_eq] at matched
      rw [matched.2] at succeeded
      cases succeeded
    · intro numbered row there matched _ words
      simp only [decide_eq_true_eq] at matched
      rw [Table.eq_of_key_eq numbered.ids there member matched.1]
      exact ⟨words, own.symm⟩

theorem hears_createTranscript {opts : RecordTranscriptionResultOptions} {message : Message} :
    Hears (fun messageId => trim opts.text ≠ "" ∧ opts.messageId = messageId) db
      (createTranscript now opts message db).2 := by
  unfold createTranscript
  refine Hears.trans ?_ mute_supersede.hears
  refine hears_create ?_ ?_
  · exact fun _ => rfl
  · exact fun _ words => ⟨words, rfl⟩

instance (db : Db) (activity : Activity) (messageId : Id) :
    Decidable (activity.speaks sha256 db messageId) :=
  match activity with
  | .transcribeFinalize .. => inferInstanceAs (Decidable (_ ∧ ∃ row ∈ db.transcriptions, _))
  | .recordTranscription .. => inferInstanceAs (Decidable (_ ∧ _ ∧ _))
  | .transcribe .. | .transcribeLoaded .. | .transcribePrepare .. | .transcribeCalling ..
  | .transcribeSilent .. | .transcribeCatch .. | .translate .. | .translateDisabled ..
  | .translateDefer .. | .translateClaim .. | .translateCalling .. | .translateFinalize ..
  | .translateCatch .. | .moderate .. | .moderatePrepare .. | .moderateCalling ..
  | .moderateFinalize .. | .moderateAdvance .. | .moderateCatch .. | .moderateCatchRead ..
  | .moderateCatchWrite .. | .recordSilence .. | .recordTranslation .. | .callbackTranslation ..
  | .callbackTranslationWrite .. | .recordModeration .. | .submitVerdict .. | .submitReadBack ..
  | .surface .. => isFalse id

/-- A submitted transcript is recorded as the checks tell. -/
theorem hears_recordTranscription (opts : RecordTranscriptionResultOptions) :
    Hears (fun messageId => trim opts.text ≠ "" ∧ records sha256 opts db = true ∧
      opts.messageId = messageId) db (recordTranscriptionResultInTransaction sha256 now opts db).2 := by
  have same : Hears (fun messageId => trim opts.text ≠ "" ∧ records sha256 opts db = true ∧
      opts.messageId = messageId) db db := (Mute.refl db).hears
  unfold recordTranscriptionResultInTransaction
  cases found : db.message opts.messageId with
  | none => exact same
  | some message =>
    by_cases stale : expectationStale sha256 opts db = true
    · simp only [if_pos stale]
      exact same
    simp only [if_neg stale]
    rw [Bool.not_eq_true] at stale
    cases waiting : pendingTranscription db opts.messageId opts.transcriptionId with
    | some pending =>
      simp only
      split
      · exact same
      · rename_i taken
        obtain ⟨member, met⟩ := Table.latest_mem waiting
        simp only [decide_eq_true_eq] at met
        refine (hears_finalizeTranscription member met.1).mono fun messageId said => ?_
        refine ⟨said.1, ?_, said.2⟩
        simp only [records, found, stale, waiting]
        simpa [or_iff_not_imp_left] using taken
    | none =>
      simp only
      split
      · exact same
      · rename_i unnamed
        rw [not_not] at unnamed
        cases there : latestTranscription db opts.messageId with
        | none =>
          refine hears_createTranscript.mono fun messageId said => ⟨said.1, ?_, said.2⟩
          rw [unnamed] at waiting
          simp [records, found, stale, waiting, there, unnamed]
        | some latest =>
          simp only
          split
          · exact same
          split
          · exact same
          · rename_i onDevice again
            refine hears_createTranscript.mono fun messageId said => ⟨said.1, ?_, said.2⟩
            rw [unnamed] at waiting
            have allowed : opts.provider = some .onDevice ∨ latest.status ≠ .succeeded ∨
                latest.provider ≠ ResultProvider.onDevice.column := by
              by_contra other
              simp only [not_or, not_not] at other
              exact onDevice other
            simp [records, found, stale, waiting, there, unnamed, again, allowed]

theorem hears_finalizeRun (run : TranscriptionRun) (text : String) (language : Option String) :
    Hears (fun messageId => trim text ≠ "" ∧
        ∃ row ∈ db.transcriptions, ownPending run row = true ∧ row.messageId = messageId)
      db (finalizeRun now run text language db).db := by
  have pending (row : Transcription) (own : ownPending run row = true) : row.status = .pending := by
    simp only [ownPending, decide_eq_true_eq] at own
    exact own.2.1
  unfold finalizeRun
  simp only
  split
  · exact (Mute.refl db).hears
  have stored : Hears (fun messageId => trim text ≠ "" ∧
        ∃ row ∈ db.transcriptions, ownPending run row = true ∧ row.messageId = messageId) db
      (supersedeByTranscription now run.messageId (db.updateTranscriptions (ownPending run) fun row =>
        { row with
          status := .succeeded
          text := some text
          language
          latencyMs := some (now - run.startedAt)
          completedAt := some now })) := by
    refine Hears.trans ?_ mute_supersede.hears
    refine hears_settle (fun row => ⟨rfl, rfl, rfl⟩) ?_ ?_
    · intro _ row _ own succeeded
      rw [pending row own] at succeeded
      cases succeeded
    · exact fun _ row there own _ words => ⟨words, row, there, own, rfl⟩
  split
  · exact stored
  split
  · exact stored
  · exact stored

theorem hears_failRun (run : TranscriptionRun) (reason : String) :
    Hears (fun _ => False) db (failRun now run reason db).db := by
  refine hears_settle (fun row => ⟨rfl, rfl, rfl⟩) ?_ ?_
  · intro _ row _ own succeeded
    simp only [ownPending, decide_eq_true_eq] at own
    rw [own.2.1] at succeeded
    cases succeeded
  · intro _ row _ _ succeeded
    cases succeeded

/-- A run that begins gives up a stale attempt and creates a row without words. -/
theorem hears_prepareTranscription (opts : RunTranscriptionOptions) (audio : File)
    (latest : Option Id) :
    Hears (fun _ => False) db (prepareTranscription now opts audio latest db).db := by
  have created {given : Db} {create : Id → Transcription} (own : ∀ id, (create id).id = id)
      (unsucceeded : (create given.nextId).status ≠ .succeeded) :
      Hears (fun _ => False) given (given.createTranscription create) :=
    hears_create own fun succeeded => absurd succeeded unsucceeded
  have stale : Hears (fun _ => False) db
      (supersedeStale now (pendingTranscription db opts.messageId none) db) := by
    unfold supersedeStale
    cases waiting : pendingTranscription db opts.messageId none with
    | none => exact (Mute.refl db).hears
    | some pending =>
      obtain ⟨member, met⟩ := Table.latest_mem waiting
      simp only [decide_eq_true_eq] at met
      refine hears_settle (fun row => ⟨rfl, rfl, rfl⟩) ?_ ?_
      · intro numbered row there same succeeded
        have equal := Table.eq_of_key_eq numbered.ids there member (of_decide_eq_true same)
        rw [equal, met.2.1] at succeeded
        cases succeeded
      · intro _ row _ _ succeeded
        cases succeeded
  have provided (provider : Provider) :
      Hears (fun _ => False) db (prepareProvider now opts provider audio db).db := by
    unfold prepareProvider
    simp only
    split
    · exact (Mute.refl db).hears
    split
    · refine stale.trans ?_
      dsimp only
      refine created ?_ ?_
      · exact fun _ => rfl
      · exact fun same => nomatch same
    · refine stale.trans ?_
      dsimp only
      refine created ?_ ?_
      · exact fun _ => rfl
      · exact fun same => nomatch same
  have pushed : Hears (fun _ => False) db (preparePush now opts audio db).1 := by
    unfold preparePush
    split
    · exact (Mute.refl db).hears
    · dsimp only
      refine created ?_ ?_
      · exact fun _ => rfl
      · exact fun same => nomatch same
  unfold prepareTranscription
  split
  · exact (Mute.refl db).hears
  split
  · exact provided _
  split
  · exact pushed
  · dsimp only
    refine created ?_ ?_
    · exact fun _ => rfl
    · exact fun same => nomatch same

theorem hears_advance {reply : Reply} {activity : Activity} {out : Advanced}
    (taken : advance sha256 now reply db activity = some out) :
    Hears (activity.speaks sha256 db) db out.db := by
  have mute {after : Db} (mute : Mute db after) : Hears (activity.speaks sha256 db) db after :=
    mute.hears
  have same : Hears (activity.speaks sha256 db) db db := mute (Mute.refl db)
  have messages {found : Message → Bool} {change : Message → Message}
      (kept : ∀ row, (change row).id = row.id ∧
        (change row).reviewClassification = row.reviewClassification) :
      Hears (activity.speaks sha256 db) db (db.updateMessages found change) :=
    mute (mute_updateMessages kept)
  cases activity with
  | transcribe opts =>
    simp only [advance] at taken
    repeat' split at taken
    all_goals cases taken
    all_goals exact same
  | transcribeCalling run | translateCalling run | moderateCalling run =>
    cases reply <;> cases taken
    exact same
  | transcribePrepare opts audio latest =>
    cases taken
    exact (hears_prepareTranscription opts audio latest).mono fun _ said => said.elim
  | transcribeFinalize run text language =>
    cases taken
    exact hears_finalizeRun run text language
  | transcribeCatch run reason =>
    cases taken
    exact (hears_failRun run reason).mono fun _ said => said.elim
  | translateDisabled call row =>
    cases taken
    exact mute (mute_updateTranscriptions fun _ => rfl)
  | translateDefer call row =>
    cases taken
    exact mute (mute_claimTranslation call row _ _)
  | translateClaim call row provider =>
    cases taken
    exact mute (mute_claimTranslation call row _ _)
  | translateFinalize run text language =>
    cases taken
    exact mute (mute_finalizeTranslation run text language)
  | translateCatch run reason =>
    cases taken
    exact mute (mute_updateTranscriptions fun _ => rfl)
  | moderatePrepare call transcriptionId =>
    cases taken
    exact mute (mute_prepareModeration call transcriptionId)
  | moderateFinalize run verdict =>
    cases taken
    exact mute (mute_finalizeModeration run verdict)
  | moderateCatch run reason =>
    cases taken
    exact mute mute_updateModerations
  | moderateCatchWrite run =>
    simp only [advance] at taken
    split at taken
    · cases taken
    · cases taken
      exact messages fun _ => ⟨rfl, rfl⟩
  | transcribeSilent | moderateAdvance | recordSilence | surface =>
    cases taken
    exact messages fun _ => ⟨rfl, rfl⟩
  | recordTranscription opts deps =>
    cases taken
    have stored : Hears _ db (recordTranscriptionResultInTransaction sha256 now opts db).2 :=
      hears_recordTranscription opts
    unfold recordTranscriptionStep
    split
    · rename_i recorded
      rw [recorded] at stored
      repeat' split
      all_goals exact stored
    · rename_i recorded
      rw [recorded] at stored
      exact stored
  | recordTranslation opts =>
    cases taken
    exact mute (mute_recordTranslation opts)
  | callbackTranslationWrite data deps =>
    cases taken
    exact mute (mute_callbackStep data deps)
  | recordModeration opts =>
    cases taken
    exact mute (mute_recordModeration opts)
  | submitVerdict data =>
    cases taken
    exact mute (mute_submitModeration data)
  | transcribeLoaded | translate | moderate | moderateCatchRead | callbackTranslation
  | submitReadBack =>
    cases taken
    exact same

end Heard

/-! ## Classifications -/

/-- The state that the runs below keep. -/
structure Hushed (db : Db) : Prop where
  numbered : Numbered db
  noSpeech : NoSpeech db

section Classified

variable {sha256 : String → String} {now : Time} {userId : String} {id : Id} {db after : Db}

/-- A transaction that speaks of no classified message keeps classifications on silence. -/
theorem Hushed.hears (hushed : Hushed db) {spoken : Id → Prop} (hears : Hears spoken db after)
    (unspoken : ∀ row ∈ db.messages, row.reviewClassification ≠ none → ¬ spoken row.id) :
    Hushed after := by
  refine ⟨hears.numbered hushed.numbered, fun row member classified => ?_⟩
  have there : (row.id, row.reviewClassification) ∈ reviews db := by
    rw [← hears.reviews]
    exact List.mem_map_of_mem member
  obtain ⟨old, was, same⟩ := List.mem_map.mp there
  simp only [Prod.mk.injEq] at same
  obtain ⟨id, review⟩ := same
  rw [← review] at classified
  rw [← id]
  exact hears.silent hushed.numbered old.id (unspoken old was classified)
    (hushed.noSpeech old was classified)

theorem Hushed.mute (hushed : Hushed db) (mute : Mute db after) : Hushed after := by
  have hears : Hears (fun _ => False) db after := mute.hears
  exact hushed.hears hears fun _ _ _ said => said

/-- Words are recorded and the classification is cleared with them. -/
theorem Hushed.cleared (hushed : Hushed db) {spoken : Id → Prop} (hears : Hears spoken db after)
    (own : ∀ messageId, spoken messageId → id = messageId) : Hushed (clearReview id after) := by
  have numbered := hears.numbered hushed.numbered
  refine ⟨⟨numbered.ids, numbered.bound⟩, fun row member classified => ?_⟩
  obtain ⟨middle, was, same⟩ := Table.mem_updateMany.mp member
  by_cases addressed : middle.id = id
  · rw [if_pos (decide_eq_true addressed)] at same
    rw [same] at classified
    exact absurd rfl classified
  rw [if_neg (by simpa using addressed)] at same
  subst same
  have there : (row.id, row.reviewClassification) ∈ reviews db := by
    rw [← hears.reviews]
    exact List.mem_map_of_mem was
  obtain ⟨old, stored, equal⟩ := List.mem_map.mp there
  simp only [Prod.mk.injEq] at equal
  obtain ⟨named, review⟩ := equal
  rw [← review] at classified
  rw [← named] at addressed ⊢
  exact hears.silent hushed.numbered old.id (fun said => addressed (own old.id said).symm)
    (hushed.noSpeech old stored classified)

theorem Hushed.completeTranscription (hushed : Hushed db) {part : TranscriptionPart}
    {stored : Option Id × Db}
    (done : completeTranscription sha256 now userId id part db = .ok stored) : Hushed stored.2 := by
  rw [completeTranscription_ok done]
  have hears : Hears _ db
      (recordTranscriptionResultInTransaction sha256 now (part.result userId id) db).2 :=
    hears_recordTranscription (part.result userId id)
  unfold surfaceTranscript
  split
  · exact hushed.cleared hears fun messageId said => said.2.2
  · rename_i blank
    have quiet := hushed.hears hears fun _ _ _ said => blank said.1
    exact quiet.mute (mute_updateMessages fun _ => ⟨rfl, rfl⟩)

theorem Hushed.completeTranslation (hushed : Hushed db) {part : TranslationPart}
    {transcriptionId : Option Id} {stored : Option Id × Db}
    (done : completeTranslation sha256 now id part transcriptionId db = .ok stored) :
    Hushed stored.2 := by
  unfold Processing.completeTranslation at done
  split at done
  · rename_i recorded
    have kept := congrArg (·.2) recorded
    cases done
    exact hushed.mute (kept ▸ mute_recordTranslation _)
  all_goals cases done

theorem Hushed.completeModeration (hushed : Hushed db) {part : ModerationPart}
    {transcriptionId : Option Id} {stored : Option Id × Db}
    (done : completeModeration sha256 now userId id part transcriptionId db = .ok stored) :
    Hushed stored.2 := by
  have surfaced {given : Db} (mute : Mute db given) :
      Hushed (advanceMessageAfterModeration id given) :=
    (hushed.mute mute).mute (mute_updateMessages fun _ => ⟨rfl, rfl⟩)
  unfold Processing.completeModeration at done
  split at done
  · cases done
  rename_i target _
  have stored : Mute db (recordModerationResultInTransaction sha256 now
      (part.result userId id target) db).2 := mute_recordModeration _
  split at done
  · rename_i recorded
    rw [recorded] at stored
    cases done
    exact surfaced stored
  · rename_i recorded
    rw [recorded] at stored
    cases done
    exact surfaced stored
  all_goals cases done

/-- A review is taken on silence only. -/
theorem Hushed.completeReview (hushed : Hushed db) {part : ReviewPart}
    (done : completeReview now userId id part db = .ok after) : Hushed after := by
  unfold Processing.completeReview at done
  split at done
  · cases done
  rename_i latest found
  split at done
  · cases done
  · rename_i blank
    rw [not_not] at blank
    cases done
    refine ⟨⟨hushed.numbered.ids, hushed.numbered.bound⟩, fun row member classified => ?_⟩
    obtain ⟨old, was, same⟩ := Table.mem_updateMany.mp member
    by_cases addressed : old.id = id
    · rw [if_pos (decide_eq_true addressed)] at same
      have named : row.id = id := by rw [same]; exact addressed
      rw [named]
      exact ⟨latest, found, blank⟩
    · rw [if_neg (by simpa using addressed)] at same
      subst same
      exact hushed.noSpeech row was classified

/-- A lease completion keeps classifications on silence, whatever it submits. -/
theorem Hushed.complete (hushed : Hushed db) {result : Completion}
    {done : Stored × List MessageProcessingStep}
    (ok : complete sha256 now userId id result db = .ok done) : Hushed done.1.db := by
  obtain ⟨-, parts, storing, finishing, -⟩ := complete_ok.mp ok
  obtain ⟨transcribed, translated, moderated, one, two, three, four, -⟩ := storeParts_ok.mp storing
  have extended : Hushed (extendLease now id db) :=
    hushed.mute (mute_updateMessages fun _ => ⟨rfl, rfl⟩)
  have first : Hushed transcribed.2 := by
    rcases optionally_ok.mp one with ⟨-, rfl⟩ | ⟨part, -, stored⟩
    · exact extended
    · exact extended.completeTranscription stored
  have second : Hushed translated.2 := by
    rcases optionally_ok.mp two with ⟨-, rfl⟩ | ⟨part, -, stored⟩
    · exact first
    · exact first.completeTranslation stored
  have third : Hushed moderated.2 := by
    rcases optionally_ok.mp three with ⟨-, rfl⟩ | ⟨part, -, stored⟩
    · exact second
    · exact second.completeModeration stored
  have last : Hushed parts.db := by
    rcases optionally_ok.mp four with ⟨-, same⟩ | ⟨part, -, stored⟩
    · rw [same]
      exact third
    · exact third.completeReview stored
  have written : done.1.db = _ := (finishCompletion_ok finishing).2
  rw [written]
  exact last.mute (mute_updateMessages fun _ => ⟨rfl, rfl⟩)

end Classified

/-! ## Runs -/

/-- No statement but a lease completion gives words to a classified message. -/
def Unheard (sha256 : String → String) (world : World) : Action → Prop
  | .advance job _ _ => ∀ activity ∈ world.jobs[job]?, ∀ row ∈ world.db.messages,
      row.reviewClassification ≠ none → ¬ activity.speaks sha256 world.db row.id
  | _ => True

instance (sha256 : String → String) (world : World) :
    (action : Action) → Decidable (Unheard sha256 world action)
  | .advance job _ _ =>
    inferInstanceAs (Decidable (∀ activity ∈ world.jobs[job]?, ∀ row ∈ world.db.messages,
      row.reviewClassification ≠ none → ¬ activity.speaks sha256 world.db row.id))
  | .start .. | .throw .. | .escape .. | .crash .. | .decide .. | .closeOut .. | .complete .. =>
    isTrue trivial

/-- Transcripts have ids of their own and classifications are on silence. -/
def Begins (world : World) : Prop := Hushed world.db

theorem hushed_step {sha256 : String → String} {world after : World} {action : Action}
    (hushed : Hushed world.db) (unheard : Unheard sha256 world action)
    (taken : step sha256 world action = some after) : Hushed after.db := by
  cases action with
  | start activity =>
    simp only [step] at taken
    split at taken
    · cases taken
      exact hushed
    · cases taken
  | advance job now reply =>
    simp only [step] at taken
    split at taken
    · cases taken
    rename_i activity here
    obtain ⟨out, ran, rfl⟩ := Option.map_eq_some_iff.mp taken
    rw [advanced_db]
    exact hushed.hears (hears_advance ran) (unheard activity here)
  | throw job reason =>
    simp only [step] at taken
    split at taken
    · cases taken
    · cases taken
      rw [land_db]
      exact hushed
  | escape job reason =>
    simp only [step] at taken
    split at taken
    · cases taken
    · cases taken
      rw [land_db]
      exact hushed
  | crash job =>
    cases taken
    rw [land_db]
    exact hushed
  | decide messageId decision notes userId now =>
    obtain ⟨db, decided, rfl⟩ := Option.map_eq_some_iff.mp taken
    unfold Messages.decide at decided
    split at decided
    · cases decided
    · split at decided
      · cases decided
      · cases decided
        exact hushed.mute (mute_updateMessages fun _ => ⟨rfl, rfl⟩)
  | closeOut installationId endedAt =>
    cases taken
    exact hushed.mute (mute_updateMessages fun _ => ⟨rfl, rfl⟩)
  | complete userId messageId result now =>
    simp only [step] at taken
    split at taken
    · cases taken
    · rename_i done
      cases taken
      exact hushed.complete done

/-- **A no-speech classification survives no speech as long as words reach a
classified message through a lease completion only.** -/
theorem noSpeech_survives (sha256 : String → String) {world : World}
    (reached : Run.ReachableUnder (step sha256) Begins (Unheard sha256) world) :
    NoSpeech world.db :=
  (reached.invariant (fun _ (hushed : Hushed _) => hushed)
    fun _ _ _ hushed unheard taken => hushed_step hushed unheard taken).noSpeech

/-- A received message whose lease a device holds. -/
def leasedMessage : World where
  db :=
    { installations := [{ id := 0 }]
      files := [{ id := 1 }]
      messages := [
        { id := 2
          status := .received
          audioId := 1
          installationId := some 0
          processingLeaseTokenHash := some (leaseHash sampleSha256 sampleToken)
          processingLeaseExpiresAt := some 900000
          processingLeasedById := some "device"
          processingSnapshotHash := some (sampleSha256 (snapshotText ⟨none, [], []⟩))
          processingAttemptCount := 1 }]
      nextId := 3 }

/-- The device hears nobody. -/
def hangup : Completion where
  leaseToken := sampleToken
  transcription := some { text := "" }
  review := some ⟨.likelyHangup, .delete⟩

/-- The classified message is transcribed again, with or without words. -/
def transcribedAgain (text : String) : List Action :=
  [.complete "device" 2 hangup 1,
    .start (.recordTranscription
      { messageId := 2, text, provider := some .onDevice, processDownstream := false } {}),
    .advance 0 2 .nothing]

theorem begins_leasedMessage : Begins leasedMessage := by
  refine ⟨⟨List.nodup_nil, fun row member => ?_⟩, fun row member classified => ?_⟩
  · cases member
  · obtain rfl := List.mem_singleton.mp member
    exact absurd rfl classified

theorem noSpeech_survives_silence : ∃ world,
    Run.exec (step sampleSha256) leasedMessage (transcribedAgain " ") = some world ∧
      world.db.messages.map (·.reviewClassification) = [some .likelyHangup] ∧ NoSpeech world.db := by
  have settled : (Run.exec (step sampleSha256) leasedMessage (transcribedAgain " ")).map (fun world =>
      world.db.messages.map (·.reviewClassification)) = some [some .likelyHangup] := by
    decide +kernel
  have allowed : Run.Along (step sampleSha256) (fun world action _ => Unheard sampleSha256 world action)
      leasedMessage (transcribedAgain " ") := by decide +kernel
  obtain ⟨world, ran, review⟩ := Option.map_eq_some_iff.mp settled
  exact ⟨world, ran, review, noSpeech_survives sampleSha256
    ((Run.ReachableUnder.initial begins_leasedMessage).exec allowed ran)⟩

/-- An operator transcribes a recording that was taken for a hang-up. -/
theorem hangup_speaks : ¬ ∀ sha256 world, Run.Reachable (step sha256) Begins world →
    NoSpeech world.db := by
  intro survives
  have settled : (Run.exec (step sampleSha256) leasedMessage (transcribedAgain "hello")).map
      (fun world => (world.db.messages.map (fun row => (row.id, row.reviewClassification)),
        (world.db.latestSucceeded 2).map transcript)) =
      some ([(2, some .likelyHangup)], some "hello") := by decide +kernel
  obtain ⟨world, ran, same⟩ := Option.map_eq_some_iff.mp settled
  obtain ⟨rows, words⟩ := Prod.mk.inj same
  have quiet := survives sampleSha256 world (Run.reachable_of_exec begins_leasedMessage ran)
  have there : (2, some MessageReviewClassification.likelyHangup) ∈
      world.db.messages.map fun row => (row.id, row.reviewClassification) := by
    rw [rows]
    exact List.mem_singleton.mpr rfl
  obtain ⟨row, member, equal⟩ := List.mem_map.mp there
  obtain ⟨named, review⟩ := Prod.mk.inj equal
  obtain ⟨latest, found, blank⟩ := quiet row member (by rw [review]; exact fun none => nomatch none)
  rw [named] at found
  rw [found, Option.map_some, blank] at words
  exact absurd words (by decide)

end BoothOperator.Pipeline
