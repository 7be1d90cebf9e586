import BoothOperator.Pipeline.World

/-! A decision is final for the pipeline, except for one statement. Every other
statement of the pipeline either leaves the messages alone or advances those
still in `received`; the last statement of `runModeration`'s `catch` block
writes `pending` over whatever the row holds by then. -/
namespace BoothOperator.Pipeline

open BoothOperator.Schema
open BoothOperator.Messages
open BoothOperator.Processing
open BoothOperator.TranslationText (trim)

/-- Decided messages keep their status. -/
def KeepsDecisions (before after : Db) : Prop :=
  ∀ id row, before.message id = some row → Decided row.status →
    ∃ kept, after.message id = some kept ∧ kept.status = row.status

theorem KeepsDecisions.refl (db : Db) : KeepsDecisions db db :=
  fun _ row found _ => ⟨row, found, rfl⟩

theorem KeepsDecisions.trans {first second third : Db} (one : KeepsDecisions first second)
    (two : KeepsDecisions second third) : KeepsDecisions first third := by
  intro id row found decided
  obtain ⟨kept, there, same⟩ := one id row found decided
  obtain ⟨last, here, again⟩ := two id kept there (same ▸ decided)
  exact ⟨last, here, again.trans same⟩

theorem KeepsDecisions.of_messages {before after : Db} (same : after.messages = before.messages) :
    KeepsDecisions before after := by
  intro id row found _
  exact ⟨row, by rw [Db.message, same]; exact found, rfl⟩

/-- An update that leaves ids alone, and the status of decided rows, keeps decisions. -/
theorem keeps_updateMessages {found : Message → Bool} {change : Message → Message} (db : Db)
    (ids : ∀ row, (change row).id = row.id)
    (statuses : ∀ row, found row = true → Decided row.status → (change row).status = row.status) :
    KeepsDecisions db (db.updateMessages found change) := by
  intro id row present decided
  refine ⟨if found row then change row else row, ?_, ?_⟩
  · rw [Db.message_updateMessages ids, present]
    rfl
  · split
    · rename_i matched
      exact statuses row matched decided
    · rfl

theorem keeps_advanceMessage (messageId : Id) (db : Db) :
    KeepsDecisions db (advanceMessageAfterModeration messageId db) := by
  refine keeps_updateMessages db (fun _ => rfl) fun row matched decided => ?_
  simp only [decide_eq_true_eq] at matched
  rcases decided with approved | rejected
  · exact absurd (matched.2.symm.trans approved) (by decide)
  · exact absurd (matched.2.symm.trans rejected) (by decide)

/-! ## The jobs' own transactions -/

section Jobs

variable (sha256 : String → String) (now : Time)

theorem supersedeStale_messages (existing : Option Transcription) (db : Db) :
    (supersedeStale now existing db).messages = db.messages := by
  cases existing <;> rfl

theorem prepareProvider_messages (opts : RunTranscriptionOptions) (provider : Provider)
    (audio : File) (db : Db) :
    (prepareProvider now opts provider audio db).db.messages = db.messages := by
  simp only [prepareProvider]
  repeat' split
  · rfl
  · exact supersedeStale_messages now _ db
  · exact supersedeStale_messages now _ db

theorem prepareTranscription_messages (opts : RunTranscriptionOptions) (audio : File)
    (latest : Option Id) (db : Db) :
    (prepareTranscription now opts audio latest db).db.messages = db.messages := by
  simp only [prepareTranscription, preparePush]
  repeat' split
  all_goals first
    | rfl
    | exact prepareProvider_messages now opts _ audio db

theorem finalizeRun_messages (run : TranscriptionRun) (text : String) (language : Option String)
    (db : Db) : (finalizeRun now run text language db).db.messages = db.messages := by
  simp only [finalizeRun]
  repeat' split
  all_goals rfl

theorem claimTranslation_messages (call : TranslationCall) (row : Transcription)
    (provider : String) (model : Option String) (db : Db) :
    (claimTranslation call row provider model db).1.messages = db.messages := by
  simp only [claimTranslation]
  repeat' split
  all_goals rfl

theorem finalizeTranslation_messages (run : TranslationRun) (text language : String) (db : Db) :
    (finalizeTranslation now run text language db).db.messages = db.messages := by
  simp only [finalizeTranslation]
  repeat' split
  all_goals first
    | rfl
    | exact storeTranslation_messages now _ _ _ _ _ db

/-- The disabled branch advances the message it moderates; the others leave it. -/
theorem keeps_prepareModeration (call : ModerationCall) (transcriptionId : Id) (db : Db) :
    KeepsDecisions db (prepareModeration now call transcriptionId db).db := by
  simp only [prepareModeration, preparePushModeration, disableModeration]
  repeat' split
  all_goals first
    | exact .of_messages rfl
    | exact .trans (.of_messages rfl) (keeps_advanceMessage _ _)

theorem finalizeModeration_messages (run : ModerationRun) (verdict : ModerationVerdict) (db : Db) :
    (finalizeModeration now run verdict db).db.messages = db.messages := by
  simp only [finalizeModeration]
  repeat' split
  all_goals rfl

theorem recordTranscriptionStep_messages (opts : RecordTranscriptionResultOptions)
    (deps : PipelineDeps) (db : Db) :
    (recordTranscriptionStep sha256 now opts deps db).db.messages = db.messages := by
  have stored := recordTranscription_messages sha256 now opts db
  unfold recordTranscriptionStep
  split
  · rename_i recorded
    rw [recorded] at stored
    repeat' split
    all_goals exact stored
  · rename_i outcome after recorded
    rw [recorded] at stored
    exact stored

theorem callbackStep_messages (data : TranslationBody) (deps : PipelineDeps) (db : Db) :
    (callbackStep sha256 now data deps db).db.messages = db.messages := by
  have stored := workerTranslation_messages sha256 now data db
  unfold callbackStep
  split
  · rename_i recorded
    rw [recorded] at stored
    split <;> exact stored
  · rename_i recorded
    rw [recorded] at stored
    exact stored

/-- Every statement but the last of the moderation `catch` block keeps decisions. -/
theorem keeps_advance {reply : Reply} {db : Db} {activity : Activity} {out : Advanced}
    (taken : advance sha256 now reply db activity = some out)
    (other : ∀ run, activity ≠ .moderateCatchWrite run) : KeepsDecisions db out.db := by
  cases activity with
  | moderateCatchWrite run => exact absurd rfl (other run)
  | transcribe opts =>
    simp only [advance] at taken
    repeat' split at taken
    all_goals cases taken
    all_goals exact .refl db
  | transcribeCalling run | translateCalling run | moderateCalling run =>
    cases reply <;> cases taken
    exact .refl db
  | transcribePrepare opts audio latest =>
    cases taken
    exact .of_messages (prepareTranscription_messages now opts audio latest db)
  | transcribeFinalize run text language =>
    cases taken
    exact .of_messages (finalizeRun_messages now run text language db)
  | transcribeSilent run | moderateAdvance run | recordSilence messageId _ | surface messageId _ =>
    cases taken
    exact keeps_advanceMessage _ db
  | translateDefer call row =>
    cases taken
    exact .of_messages (claimTranslation_messages call row _ _ db)
  | translateClaim call row provider =>
    cases taken
    exact .of_messages (claimTranslation_messages call row _ _ db)
  | translateFinalize run text language =>
    cases taken
    exact .of_messages (finalizeTranslation_messages now run text language db)
  | moderatePrepare call transcriptionId =>
    cases taken
    exact keeps_prepareModeration now call transcriptionId db
  | moderateFinalize run verdict =>
    cases taken
    exact .of_messages (finalizeModeration_messages now run verdict db)
  | recordTranscription opts deps =>
    cases taken
    exact .of_messages (recordTranscriptionStep_messages sha256 now opts deps db)
  | recordTranslation opts =>
    cases taken
    exact .of_messages (recordTranslation_messages sha256 now opts db)
  | callbackTranslationWrite data deps =>
    cases taken
    exact .of_messages (callbackStep_messages sha256 now data deps db)
  | recordModeration opts =>
    cases taken
    exact .of_messages (recordModeration_messages sha256 now opts db)
  | submitVerdict data =>
    cases taken
    exact .of_messages (submitModeration_messages sha256 now data db)
  | transcribeLoaded | transcribeCatch | translate | translateDisabled | translateCatch
  | moderate | moderateCatch | moderateCatchRead | callbackTranslation | submitReadBack =>
    cases taken
    exact .of_messages rfl

end Jobs

/-! ## Completing a lease -/

section Completing

variable {sha256 : String → String} {now : Time} {userId : String} {id : Id}

private theorem keeps_update_status {found : Message → Bool} {change : Message → Message} (db : Db)
    (ids : ∀ row, (change row).id = row.id) (statuses : ∀ row, (change row).status = row.status) :
    KeepsDecisions db (db.updateMessages found change) :=
  keeps_updateMessages db ids fun row _ _ => statuses row

theorem keeps_completeTranscription {part : TranscriptionPart} {db : Db} {stored : Option Id × Db}
    (done : completeTranscription sha256 now userId id part db = .ok stored) :
    KeepsDecisions db stored.2 := by
  rw [completeTranscription_ok done]
  have recorded := KeepsDecisions.of_messages
    (recordTranscription_messages sha256 now (part.result userId id) db)
  refine recorded.trans ?_
  unfold surfaceTranscript
  split
  · exact keeps_update_status _ (fun _ => rfl) fun _ => rfl
  · exact keeps_advanceMessage id _

theorem keeps_completeTranslation {part : TranslationPart} {transcriptionId : Option Id} {db : Db}
    {stored : Option Id × Db}
    (done : completeTranslation sha256 now id part transcriptionId db = .ok stored) :
    KeepsDecisions db stored.2 := by
  unfold completeTranslation at done
  split at done
  · rename_i recorded
    have same := congrArg (·.2.messages) recorded
    cases done
    exact .of_messages (same.symm.trans (recordTranslation_messages sha256 now _ db))
  all_goals cases done

theorem keeps_completeModeration {part : ModerationPart} {transcriptionId : Option Id} {db : Db}
    {stored : Option Id × Db}
    (done : completeModeration sha256 now userId id part transcriptionId db = .ok stored) :
    KeepsDecisions db stored.2 := by
  unfold completeModeration at done
  split at done
  · cases done
  · split at done
    · rename_i recorded
      have same := congrArg (·.2.messages) recorded
      cases done
      exact .trans (.of_messages (same.symm.trans (recordModeration_messages sha256 now _ db)))
        (keeps_advanceMessage id _)
    · rename_i recorded
      have same := congrArg (·.2.messages) recorded
      cases done
      exact .trans (.of_messages (same.symm.trans (recordModeration_messages sha256 now _ db)))
        (keeps_advanceMessage id _)
    all_goals cases done

theorem keeps_completeReview {part : ReviewPart} {db after : Db}
    (done : completeReview now userId id part db = .ok after) : KeepsDecisions db after := by
  unfold completeReview at done
  split at done
  · cases done
  · split at done
    · cases done
    · cases done
      exact keeps_update_status db (fun _ => rfl) fun _ => rfl

private theorem keeps_optionally {α β : Type} {part : Option α} {skip value : β} {db : Db}
    {store : α → Except CompletionRejection β} (dbOf : β → Db)
    (done : optionally part skip store = .ok value) (unchanged : dbOf skip = db)
    (each : ∀ given, store given = .ok value → KeepsDecisions db (dbOf value)) :
    KeepsDecisions db (dbOf value) := by
  rcases optionally_ok.mp done with ⟨_, rfl⟩ | ⟨given, _, stored⟩
  · exact unchanged ▸ .refl _
  · exact each given stored

theorem keeps_storeParts {result : Completion} {db : Db} {stored : Stored}
    (done : storeParts sha256 now userId id result db = .ok stored) :
    KeepsDecisions db stored.db := by
  obtain ⟨transcribed, translated, moderated, one, two, three, four, _⟩ := storeParts_ok.mp done
  have transcription : KeepsDecisions db transcribed.2 :=
    keeps_optionally (·.2) one rfl fun _ => keeps_completeTranscription
  have translation : KeepsDecisions transcribed.2 translated.2 :=
    keeps_optionally (·.2) two rfl fun _ => keeps_completeTranslation
  have moderation : KeepsDecisions translated.2 moderated.2 :=
    keeps_optionally (·.2) three rfl fun _ => keeps_completeModeration
  have review : KeepsDecisions moderated.2 stored.db :=
    keeps_optionally (fun db => db) four rfl fun _ => keeps_completeReview
  exact transcription.trans (translation.trans (moderation.trans review))

theorem keeps_complete {result : Completion} {db : Db}
    {stored : Stored × List MessageProcessingStep}
    (done : complete sha256 now userId id result db = .ok stored) :
    KeepsDecisions db stored.1.db := by
  obtain ⟨_, parts, partsDone, finished, _⟩ := complete_ok.mp done
  have extended : KeepsDecisions db (extendLease now id db) :=
    keeps_update_status db (fun _ => rfl) fun _ => rfl
  have released : KeepsDecisions parts.db stored.1.db := by
    have written : stored.1.db = _ := (finishCompletion_ok finished).2
    rw [written]
    exact keeps_update_status parts.db (fun _ => rfl) fun _ => rfl
  exact extended.trans ((keeps_storeParts partsDone).trans released)

end Completing

/-! ## Runs -/

variable (sha256 : String → String)

/-- No pipeline statement changes the status of a decided message. -/
def DecisionsFinal (before : World) (action : Action) (after : World) : Prop :=
  action.ofPipeline = true → KeepsDecisions before.db after.db

/-- The failed moderation run's status write finds its message undecided. -/
def CatchWriteUndecided (before : World) (action : Action) (_ : World) : Prop :=
  ∀ job now reply run, action = .advance job now reply →
    before.jobs[job]? = some (.moderateCatchWrite run) →
      ∀ row, before.db.message run.call.messageId = some row → ¬ Decided row.status

/-- The unguarded write, as a later reader sees it. -/
theorem writeStatusAfterFailure_message (run : ModerationRun) (db : Db) (id : Id) :
    (writeStatusAfterFailure run db).message id =
      (db.message id).map fun row =>
        if row.id = run.call.messageId then { row with status := .pending } else row := by
  have seen := @Db.message_updateMessages (fun row => row.id = run.call.messageId)
    (fun row => { row with status := .pending }) (fun _ => rfl) db id
  rw [writeStatusAfterFailure]
  simpa only [decide_eq_true_eq] using seen

private theorem catchWrite_iff {now : Time} {reply : Reply} {db : Db} {run : ModerationRun}
    {out : Advanced} (taken : advance sha256 now reply db (.moderateCatchWrite run) = some out) :
    KeepsDecisions db out.db ↔
      ∀ row, db.message run.call.messageId = some row → ¬ Decided row.status := by
  simp only [advance] at taken
  split at taken
  · cases taken
  cases taken
  constructor
  · intro keeps row found decided
    obtain ⟨kept, there, same⟩ := keeps _ row found decided
    have own : row.id = run.call.messageId := (Table.findUnique_mem found).2
    rw [writeStatusAfterFailure_message, found, Option.map_some, if_pos own,
      Option.some.injEq] at there
    have pending : row.status = .pending := by rw [← same, ← there]
    rcases decided with approved | rejected
    · exact absurd (approved.symm.trans pending) (by decide)
    · exact absurd (rejected.symm.trans pending) (by decide)
  · intro undecided id row found decided
    have other : id ≠ run.call.messageId := fun same => undecided row (same ▸ found) decided
    have own : row.id = id := (Table.findUnique_mem found).2
    refine ⟨row, ?_, rfl⟩
    rw [writeStatusAfterFailure_message, found, Option.map_some, if_neg (own ▸ other)]

/-- A step keeps decisions exactly when it is not that write over a decided message. -/
theorem step_final_iff {before after : World} {action : Action}
    (taken : step sha256 before action = some after) :
    DecisionsFinal before action after ↔ CatchWriteUndecided before action after := by
  cases action with
  | decide | closeOut => exact ⟨fun _ _ _ _ _ => nofun, fun _ => nofun⟩
  | start activity =>
    refine ⟨fun _ _ _ _ _ => nofun, fun _ _ => ?_⟩
    simp only [step] at taken
    split at taken <;> cases taken
    exact .refl _
  | throw job reason =>
    refine ⟨fun _ _ _ _ _ => nofun, fun _ _ => ?_⟩
    simp only [step] at taken
    split at taken <;> cases taken
    exact .of_messages (by rw [land_db])
  | escape job reason =>
    refine ⟨fun _ _ _ _ _ => nofun, fun _ _ => ?_⟩
    simp only [step] at taken
    split at taken <;> cases taken
    exact .of_messages (by rw [land_db])
  | crash job =>
    refine ⟨fun _ _ _ _ _ => nofun, fun _ _ => ?_⟩
    cases taken
    exact .of_messages rfl
  | complete userId messageId result now =>
    refine ⟨fun _ _ _ _ _ => nofun, fun _ _ => ?_⟩
    simp only [step] at taken
    split at taken <;> cases taken
    exact keeps_complete ‹_›
  | advance job now reply =>
    simp only [step] at taken
    split at taken
    · cases taken
    rename_i activity here
    simp only [Option.map_eq_some_iff] at taken
    obtain ⟨out, ran, rfl⟩ := taken
    simp only [DecisionsFinal, CatchWriteUndecided, Action.ofPipeline, advanced_db,
      forall_const]
    by_cases writes : ∃ run, activity = .moderateCatchWrite run
    · obtain ⟨run, rfl⟩ := writes
      rw [catchWrite_iff sha256 ran]
      constructor
      · rintro undecided _ _ _ run' ⟨⟩ there
        cases here.symm.trans there
        exact undecided
      · exact fun guarded => guarded job now reply run rfl here
    · have keeps := keeps_advance sha256 now ran fun run same => writes ⟨run, same⟩
      refine ⟨fun _ => ?_, fun _ => keeps⟩
      rintro _ _ _ run ⟨⟩ there
      cases here.symm.trans there
      exact absurd ⟨run, rfl⟩ writes

/-- **Decisions are final along a run exactly when its failed moderation runs
write over undecided messages only.** -/
theorem decisions_final_iff (start : World) (actions : List Action) :
    Run.Along (step sha256) DecisionsFinal start actions ↔
      Run.Along (step sha256) CatchWriteUndecided start actions := by
  refine Run.along_congr ?_ start actions
  exact fun _ _ _ taken => step_final_iff sha256 taken

/-- A legacy message still in `received`, with its transcript. -/
def receivedMessage : World where
  db :=
    { files := [{ id := 0 }]
      messages := [{ id := 1, status := .received, audioId := 0 }]
      transcriptions :=
        [{ id := 2, messageId := 1, provider := "openai", status := .succeeded, text := some "hi" }]
      nextId := 3 }

/-- The moderation provider fails; the operator approves after the `catch`
block has read `received`. -/
def approvalDuringFailure : List Action :=
  [.start (.moderate
    { messageId := 1, deps := { moderation := some ⟨"openai", "omni"⟩ }, caller := .route }),
    .advance 0 1 .nothing, .advance 0 2 .nothing, .throw 0 "openai/timeout",
    .advance 0 3 .nothing, .advance 0 4 .nothing, .decide 1 .approve none none 5]

private def statusOf (world : World) : Option MessageStatus := (world.db.message 1).map (·.status)

/-- The failed run then puts the approved message back into the queue. -/
theorem decision_overwritten : ¬ ∀ sha256 start actions,
    Run.Along (step sha256) DecisionsFinal start actions := by
  intro final
  have approved : (Run.exec (step id) receivedMessage approvalDuringFailure).map statusOf =
      some (some .approved) := by decide +kernel
  have reopened : (Run.exec (step id) receivedMessage
      (approvalDuringFailure ++ [.advance 0 6 .nothing])).map statusOf =
        some (some .pending) := by decide +kernel
  obtain ⟨before, ran, wasApproved⟩ := Option.map_eq_some_iff.mp approved
  rw [Run.exec_append, ran, Option.bind_some] at reopened
  obtain ⟨after, taken, isPending⟩ := Option.map_eq_some_iff.mp reopened
  simp only [Run.exec, Option.bind_eq_some_iff, Option.some.injEq, exists_eq_right] at taken
  have keeps := (final id receivedMessage _).last ran taken rfl
  obtain ⟨row, found, status⟩ := Option.map_eq_some_iff.mp wasApproved
  obtain ⟨kept, there, same⟩ := keeps 1 row found (.inl status)
  rw [statusOf, there, Option.map_some, same, status] at isPending
  exact absurd isPending (by decide)

end BoothOperator.Pipeline
