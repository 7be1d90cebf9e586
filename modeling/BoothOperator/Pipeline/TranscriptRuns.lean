import BoothOperator.Pipeline.Lifecycle
import BoothOperator.Pipeline.VerdictRuns

/-! The life of transcripts over whole runs: every statement of every job and
every lease completion is one transaction on the attempts, so that a message has
one pending transcript at most, what is settled stays, a recorded transcript is
the latest at its commit, and live verdicts are on the latest. -/
namespace BoothOperator.Pipeline

open BoothOperator.Schema
open BoothOperator.Attempts
open BoothOperator.Processing
open BoothOperator.TranslationText

/-! ## What brings no transcript about -/

section Quiet

variable {sha256 : String → String} {now : Time} {db : Db}

theorem quiet_updateTranscriptions {found : Transcription → Bool}
    {change : Transcription → Transcription} (kept : ∀ row, attempt (change row) = attempt row) :
    Quiet db (db.updateTranscriptions found change) where
  same := Table.map_updateMany attempt kept db.transcriptions
  nextId := le_rfl
  distinct distinct := distinct.of_ids rfl le_rfl
  targets verdict member _ targets := .inl ⟨verdict, member, targets, rfl⟩

theorem quiet_supersede {selected : Moderation → Bool} {error : String} :
    Quiet db (supersede now selected error db) where
  same := rfl
  nextId := le_rfl
  distinct := distinct_supersede
  targets verdict member _ targets :=
    .inl ⟨verdict, (targets_supersede member targets).1, targets, rfl⟩

/-- Verdicts keep what they are about, and only live ones stay live. -/
theorem quiet_updateModerations {found : Moderation → Bool} {change : Moderation → Moderation}
    (kept : ∀ row, (change row).id = row.id ∧ (change row).messageId = row.messageId ∧
      (change row).transcriptionId = row.transcriptionId)
    (live : ∀ row ∈ db.moderations, found row = true → Live (change row) → Live row) :
    Quiet db (db.updateModerations found change) where
  same := rfl
  nextId := le_rfl
  distinct := distinct_updateModerations fun row => (kept row).1
  targets := by
    intro verdict member id targets
    obtain ⟨old, there, rfl⟩ := Table.mem_updateMany.mp member
    by_cases matched : found old = true
    · rw [if_pos matched] at targets ⊢
      obtain ⟨_, message, aims⟩ := kept old
      exact .inl ⟨old, there, ⟨live old there matched targets.1, aims.symm.trans targets.2⟩,
        message.symm⟩
    · rw [if_neg matched] at targets ⊢
      exact .inl ⟨old, there, targets, rfl⟩

/-- A verdict is created dead, or on the transcript that counts. -/
theorem quiet_createModeration {create : Id → Moderation} (own : ∀ id, (create id).id = id)
    (aims : ∀ id, Targets (create db.nextId) id →
      ∃ one, Counts (attempts db) one ∧ one.id = id ∧ one.subject = (create db.nextId).messageId) :
    Quiet db (db.createModeration create) where
  same := rfl
  nextId := Nat.le_succ _
  distinct distinct := by
    refine ⟨?_, fun verdict member => ?_⟩
    · rw [Db.createModeration, List.map_append, List.map_singleton, own]
      exact Table.nodup_append_fresh distinct.ids distinct.bound
    · rcases List.mem_append.mp member with old | new
      · exact (distinct.bound verdict old).trans (Nat.lt_succ_self _)
      · rw [List.mem_singleton.mp new, own]
        exact Nat.lt_succ_self _
  targets := by
    intro verdict member id targets
    rcases List.mem_append.mp member with old | new
    · exact .inl ⟨verdict, old, targets, rfl⟩
    · rw [List.mem_singleton.mp new] at targets ⊢
      exact .inr (aims id targets)

/-- The latest transcript of a message counts. -/
theorem Timely.counts (timely : Timely db) {messageId : Id} {row : Transcription}
    (latest : db.latestSucceeded messageId = some row) :
    Counts (attempts db) (attempt row) ∧ row.messageId = messageId := by
  obtain ⟨member, message, succeeded⟩ := latestSucceeded_mem latest
  refine ⟨⟨List.mem_map_of_mem member, phaseOf_eq_succeeded.mpr succeeded, ?_⟩, message⟩
  intro other here subject done differs
  obtain ⟨row', there, rfl⟩ := mem_attempts.mp here
  have le : row'.createdAt ≤ row.createdAt := by
    refine Table.latest_max latest row' there ?_
    have about : row'.messageId = messageId := subject.trans message
    simpa [about] using phaseOf_eq_succeeded.mp done
  refine lt_of_le_of_ne le fun same => differs ?_
  exact timely.orderly.times _ here _ (List.mem_map_of_mem member) same

theorem Timely.counts_id (timely : Timely db) {messageId transcriptionId : Id}
    (latest : (db.latestSucceeded messageId).map (·.id) = some transcriptionId) :
    ∃ one, Counts (attempts db) one ∧ one.id = transcriptionId ∧ one.subject = messageId := by
  obtain ⟨row, found, same⟩ := Option.map_eq_some_iff.mp latest
  obtain ⟨counts, message⟩ := timely.counts found
  exact ⟨attempt row, counts, same, message⟩

/-! ### Translations -/

theorem quiet_storeTranslation {messageId : Id} {row : Transcription} {text : String}
    {found : Transcription → Bool} {change : Transcription → Transcription}
    (kept : ∀ old, attempt (change old) = attempt old) :
    Quiet db (storeTranslation now messageId row text found change db) := by
  have updated : Quiet db (db.updateTranscriptions found fun old =>
      withTranslation (change old) text) := quiet_updateTranscriptions kept
  simp only [storeTranslation]
  split
  · exact updated.trans quiet_supersede
  · exact updated

theorem quiet_claimTranslation (call : TranslationCall) (row : Transcription) (provider : String)
    (model : Option String) : Quiet db (claimTranslation call row provider model db).1 := by
  simp only [claimTranslation]
  split
  · exact Quiet.refl db
  · split
    · exact Quiet.refl db
    · exact quiet_updateTranscriptions fun _ => rfl

theorem quiet_finalizeTranslation (run : TranslationRun) (text language : String) :
    Quiet db (finalizeTranslation now run text language db).db := by
  simp only [finalizeTranslation]
  repeat' split
  all_goals first
    | exact Quiet.refl db
    | exact quiet_storeTranslation fun _ => rfl

theorem quiet_recordTranslation (opts : RecordTranslationResultOptions) :
    Quiet db (recordTranslationResultInTransaction sha256 now opts db).2 := by
  have store (latest : Transcription) (text : String) :
      Quiet db (recordTranslationResultInTransaction.store sha256 now opts db latest text).2 := by
    simp only [recordTranslationResultInTransaction.store]
    split
    · exact Quiet.refl db
    · exact quiet_storeTranslation fun _ => rfl
  unfold recordTranslationResultInTransaction
  simp only
  repeat' split
  all_goals first
    | exact Quiet.refl db
    | exact store _ _

theorem quiet_workerTranslation (data : TranslationBody) :
    Quiet db (workerTranslation sha256 now data db).2 := by
  simp only [workerTranslation]
  repeat' split
  all_goals first
    | exact Quiet.refl db
    | exact quiet_storeTranslation fun _ => rfl

/-! ### Verdicts -/

theorem quiet_createVerdict (timely : Timely db) (now : Time) {opts : RecordModerationResultOptions}
    (target : ∀ id, opts.transcriptionId = some id →
      (db.latestSucceeded opts.messageId).map (·.id) = some id) :
    Quiet db (createVerdict now opts db).2 := by
  unfold createVerdict
  split
  · split
    · exact Quiet.refl db
    · exact quiet_createModeration (fun _ => rfl) fun id targets =>
        timely.counts_id (target id targets.2)
  · exact Quiet.refl db

theorem quiet_finalizeVerdict (timely : Timely db) {opts : RecordModerationResultOptions}
    (target : ∀ id, opts.transcriptionId = some id →
      (db.latestSucceeded opts.messageId).map (·.id) = some id) (pending : Moderation) :
    Quiet db (finalizeVerdict now opts pending db).2 := by
  simp only [finalizeVerdict]
  split
  · split
    · exact quiet_createVerdict timely now target
    · exact Quiet.refl db
  · refine quiet_updateModerations (fun _ => ⟨rfl, rfl, rfl⟩) fun row _ matched _ => ?_
    exact .inl (of_decide_eq_true matched).2

theorem quiet_recordModeration (timely : Timely db) (opts : RecordModerationResultOptions) :
    Quiet db (recordModerationResultInTransaction sha256 now opts db).2 := by
  unfold recordModerationResultInTransaction
  split
  · exact Quiet.refl db
  split
  · exact Quiet.refl db
  rename_i accepted
  have target : ∀ id, opts.transcriptionId = some id →
      (db.latestSucceeded opts.messageId).map (·.id) = some id := by
    intro id named
    simp only [verdictTargetError, named] at accepted
    split at accepted
    · cases accepted
    split at accepted
    · cases accepted
    split at accepted
    · cases accepted
    · rename_i latest
      exact not_not.mp (not_or.mp latest).1
  split
  · exact quiet_createVerdict timely now target
  · split
    · exact Quiet.refl db
    · exact quiet_finalizeVerdict timely target _

theorem quiet_submitModeration (timely : Timely db) (data : ModerationSubmit) :
    Quiet db (submitModeration sha256 now data db).2 := by
  unfold submitModeration
  split
  · exact Quiet.refl db
  split
  · exact Quiet.refl db
  rename_i transcription found
  split
  · exact Quiet.refl db
  split
  · exact Quiet.refl db
  rename_i latest
  split
  · exact Quiet.refl db
  split
  · rename_i pending there
    obtain ⟨member, pending, _⟩ := pendingModeration_mem there
    refine quiet_updateModerations (fun _ => ⟨rfl, rfl, rfl⟩) fun row here matched _ => ?_
    rw [Table.eq_of_key_eq timely.distinct.ids here member (of_decide_eq_true matched)]
    exact .inl pending
  · have target : ∀ id, data.result.transcriptionId = some id →
        (db.latestSucceeded data.result.messageId).map (·.id) = some id := by
      intro id named
      have same : transcription.id = data.transcriptionId := (Table.findUnique_mem found).2
      cases named
      exact same ▸ not_not.mp latest
    have created := quiet_createVerdict timely now target
    split
    · rename_i recorded
      rw [recorded] at created
      exact created
    · exact created

theorem Timely.counts_current (timely : Timely db) {messageId transcriptionId : Id}
    {row : Transcription} (current : currentTranscript messageId transcriptionId db = some row) :
    Counts (attempts db) (attempt row) ∧ row.messageId = messageId := by
  unfold currentTranscript at current
  split at current
  · cases current
  · exact timely.counts (Option.filter_eq_some_iff.mp current).1

theorem quiet_prepareModeration (timely : Timely db) (call : ModerationCall) (transcriptionId : Id) :
    Quiet db (prepareModeration now call transcriptionId db).db := by
  have aimed (create : Id → Moderation) (current : Transcription)
      (found : currentTranscript call.messageId transcriptionId db = some current)
      (own : ∀ id, (create id).id = id ∧ (create id).messageId = call.messageId ∧
        (create id).transcriptionId = some current.id) : Quiet db (db.createModeration create) := by
    obtain ⟨counts, message⟩ := timely.counts_current found
    refine quiet_createModeration (fun id => (own id).1) fun id targets => ?_
    obtain ⟨_, about, aims⟩ := own db.nextId
    have target : current.id = id := Option.some.inj (aims.symm.trans targets.2)
    exact ⟨attempt current, counts, target, message.trans about.symm⟩
  unfold prepareModeration
  split
  · exact Quiet.refl db
  rename_i current found
  split
  · split
    · simp only [preparePushModeration]
      split
      · exact Quiet.refl db
      · exact aimed _ current found fun _ => ⟨rfl, rfl, rfl⟩
    · have created := aimed (fun id =>
        { moderationRow now call current.id call.deps.moderationName.column none id with
          status := .failed
          error := some "moderation provider disabled"
          completedAt := some now }) current found fun _ => ⟨rfl, rfl, rfl⟩
      exact created.trans (.of_tables rfl rfl rfl)
  · split
    · exact Quiet.refl db
    · exact aimed _ current found fun _ => ⟨rfl, rfl, rfl⟩

theorem ownVerdict_pending {run : ModerationRun} {row : Moderation}
    (own : ownVerdict run row = true) : row.status = .pending := by
  simp only [ownVerdict, decide_eq_true_eq] at own
  exact own.2.1

theorem quiet_finalizeModeration (run : ModerationRun) (verdict : ModerationVerdict) :
    Quiet db (finalizeModeration now run verdict db).db := by
  simp only [finalizeModeration]
  split
  · exact Quiet.refl db
  split
  · exact Quiet.refl db
  · exact quiet_updateModerations (fun _ => ⟨rfl, rfl, rfl⟩) fun _ _ own _ =>
      .inl (ownVerdict_pending own)

theorem quiet_failModeration (run : ModerationRun) (reason : String) :
    Quiet db (failModeration now run reason db).db :=
  quiet_updateModerations (fun _ => ⟨rfl, rfl, rfl⟩) fun _ _ own _ =>
    .inl (ownVerdict_pending own)

end Quiet

/-! ## One statement -/

section Statements

variable {sha256 : String → String} {now : Time} {db : Db}

theorem transacts_recordTranscriptionStep (timely : Timely db)
    (opts : RecordTranscriptionResultOptions) (deps : PipelineDeps) :
    Transacts db (recordTranscriptionStep sha256 now opts deps db).db := by
  have stored : Transacts db (recordTranscriptionResultInTransaction sha256 now opts db).2 :=
    transacts_recordTranscription timely opts
  unfold recordTranscriptionStep
  split
  · rename_i recorded
    rw [recorded] at stored
    repeat' split
    all_goals exact stored
  · rename_i recorded
    rw [recorded] at stored
    exact stored

theorem quiet_callbackStep (data : TranslationBody) (deps : PipelineDeps) :
    Quiet db (callbackStep sha256 now data deps db).db := by
  have stored : Quiet db (workerTranslation sha256 now data db).2 := quiet_workerTranslation data
  unfold callbackStep
  split
  · rename_i recorded
    rw [recorded] at stored
    split
    · exact stored
    · exact stored
  · rename_i recorded
    rw [recorded] at stored
    exact stored

/-- The run an activity will settle the row of. -/
def Activity.Owned (db : Db) (activity : Activity) : Prop :=
  ∀ run, activity.awaited = some (.inl run) → run.pendingId < db.nextId ∧ Owns db run

theorem transacts_advance (timely : Timely db) {reply : Reply} {activity : Activity}
    (owned : activity.Owned db) {out : Advanced}
    (taken : advance sha256 now reply db activity = some out) : Transacts db out.db := by
  have same : Transacts db db := (Quiet.refl db).transacts
  have messages {found : Message → Bool} {change : Message → Message} :
      Transacts db (db.updateMessages found change) :=
    Quiet.transacts (Quiet.of_tables rfl rfl rfl)
  cases activity with
  | transcribe opts =>
    simp only [advance] at taken
    repeat' split at taken
    all_goals cases taken
    all_goals exact same
  | transcribeCalling run | translateCalling run | moderateCalling run =>
    cases reply <;> cases taken
    exact same
  | transcribePrepare opts audio latest =>
    cases taken
    exact transacts_prepareTranscription timely opts audio latest
  | transcribeFinalize run text language =>
    cases taken
    exact transacts_finalizeRun (owned run rfl).2 text language
  | transcribeCatch run reason =>
    cases taken
    exact transacts_failRun run reason
  | translateDisabled call row =>
    cases taken
    exact Quiet.transacts (quiet_updateTranscriptions fun _ => rfl)
  | translateDefer call row =>
    cases taken
    exact (quiet_claimTranslation call row _ _).transacts
  | translateClaim call row provider =>
    cases taken
    exact (quiet_claimTranslation call row _ _).transacts
  | translateFinalize run text language =>
    cases taken
    exact (quiet_finalizeTranslation run text language).transacts
  | translateCatch run reason =>
    cases taken
    exact Quiet.transacts (quiet_updateTranscriptions fun _ => rfl)
  | moderatePrepare call transcriptionId =>
    cases taken
    exact (quiet_prepareModeration timely call transcriptionId).transacts
  | moderateFinalize run verdict =>
    cases taken
    exact (quiet_finalizeModeration run verdict).transacts
  | moderateCatch run reason =>
    cases taken
    exact (quiet_failModeration run reason).transacts
  | moderateCatchWrite run =>
    simp only [advance] at taken
    split at taken
    · cases taken
    · cases taken
      exact messages
  | transcribeSilent | moderateAdvance | recordSilence | surface =>
    cases taken
    exact messages
  | recordTranscription opts deps =>
    cases taken
    exact transacts_recordTranscriptionStep timely opts deps
  | recordTranslation opts =>
    cases taken
    exact (quiet_recordTranslation opts).transacts
  | callbackTranslationWrite data deps =>
    cases taken
    exact (quiet_callbackStep data deps).transacts
  | recordModeration opts =>
    cases taken
    exact (quiet_recordModeration timely opts).transacts
  | submitVerdict data =>
    cases taken
    exact (quiet_submitModeration timely data).transacts
  | transcribeLoaded | translate | moderate | moderateCatchRead | callbackTranslation
  | submitReadBack =>
    cases taken
    exact same

end Statements

/-! ## Lease completions -/

section Completing

variable {sha256 : String → String} {now : Time} {userId : String} {id : Id} {db : Db}

theorem quiet_surfaceTranscript (text : String) : Quiet db (surfaceTranscript id text db) := by
  unfold surfaceTranscript
  split
  · exact .of_tables rfl rfl rfl
  · exact .of_tables rfl rfl rfl

theorem quiet_completeTranslation {part : TranslationPart} {transcriptionId : Option Id}
    {stored : Option Id × Db}
    (done : completeTranslation sha256 now id part transcriptionId db = .ok stored) :
    Quiet db stored.2 := by
  unfold completeTranslation at done
  split at done
  · rename_i recorded
    have kept := congrArg (·.2) recorded
    cases done
    exact kept ▸ quiet_recordTranslation _
  all_goals cases done

theorem finalizeVerdict_transcriptions (opts : RecordModerationResultOptions) (pending : Moderation) :
    (finalizeVerdict now opts pending db).2.transcriptions = db.transcriptions := by
  simp only [finalizeVerdict]
  split
  · split
    · exact createVerdict_transcriptions now opts db
    · rfl
  · rfl

theorem recordModeration_transcriptions (opts : RecordModerationResultOptions) :
    (recordModerationResultInTransaction sha256 now opts db).2.transcriptions =
      db.transcriptions := by
  unfold recordModerationResultInTransaction
  repeat' split
  all_goals first
    | rfl
    | exact createVerdict_transcriptions now opts db
    | exact finalizeVerdict_transcriptions opts _

theorem completeModeration_transcriptions {part : ModerationPart} {transcriptionId : Option Id}
    {stored : Option Id × Db}
    (done : completeModeration sha256 now userId id part transcriptionId db = .ok stored) :
    stored.2.transcriptions = db.transcriptions := by
  unfold completeModeration at done
  split at done
  · cases done
  rename_i target _
  have recorded : (recordModerationResultInTransaction sha256 now
      (part.result userId id target) db).2.transcriptions = db.transcriptions :=
    recordModeration_transcriptions _
  split at done
  · rename_i outcome
    rw [outcome] at recorded
    cases done
    exact recorded
  · rename_i outcome
    rw [outcome] at recorded
    cases done
    exact recorded
  all_goals cases done

theorem quiet_completeModeration (timely : Timely db) {part : ModerationPart}
    {transcriptionId : Option Id} {stored : Option Id × Db}
    (done : completeModeration sha256 now userId id part transcriptionId db = .ok stored) :
    Quiet db stored.2 := by
  unfold completeModeration at done
  split at done
  · cases done
  rename_i target _
  have recorded : Quiet db (recordModerationResultInTransaction sha256 now
      (part.result userId id target) db).2 := quiet_recordModeration timely _
  split at done
  · rename_i outcome
    rw [outcome] at recorded
    cases done
    exact recorded.trans (.of_tables rfl rfl rfl)
  · rename_i outcome
    rw [outcome] at recorded
    cases done
    exact recorded.trans (.of_tables rfl rfl rfl)
  all_goals cases done

theorem quiet_completeReview {part : ReviewPart} {after : Db}
    (done : completeReview now userId id part db = .ok after) : Quiet db after := by
  unfold completeReview at done
  split at done
  · cases done
  split at done
  · cases done
  · cases done
    exact .of_tables rfl rfl rfl

/-- A transcript is stored first; what is stored with it brings no other about. -/
theorem transacts_storeParts (timely : Timely db) {result : Completion} {stored : Stored}
    (order : InOrder (attempts db) (attempts stored.db))
    (done : storeParts sha256 now userId id result db = .ok stored) : Transacts db stored.db := by
  obtain ⟨transcribed, translated, moderated, one, two, three, four, _⟩ := storeParts_ok.mp done
  have transcription : Transacts db transcribed.2 := by
    rcases optionally_ok.mp one with ⟨_, rfl⟩ | ⟨part, _, ok⟩
    · exact (Quiet.refl db).transacts
    · rw [completeTranscription_ok ok]
      exact (transacts_recordTranscription timely _).quiet (quiet_surfaceTranscript _)
  have translation : Quiet transcribed.2 translated.2 := by
    rcases optionally_ok.mp two with ⟨_, rfl⟩ | ⟨part, _, ok⟩
    · exact Quiet.refl _
    · exact quiet_completeTranslation ok
  have review : Quiet moderated.2 stored.db := by
    rcases optionally_ok.mp four with ⟨_, same⟩ | ⟨part, _, ok⟩
    · exact same ▸ Quiet.refl _
    · exact quiet_completeReview ok
  have kept : attempts moderated.2 = attempts translated.2 := by
    rcases optionally_ok.mp three with ⟨_, rfl⟩ | ⟨part, _, ok⟩
    · rfl
    · exact congrArg (List.map attempt) (completeModeration_transcriptions ok)
  have moderation : Quiet translated.2 moderated.2 := by
    rcases optionally_ok.mp three with ⟨_, rfl⟩ | ⟨part, _, ok⟩
    · exact Quiet.refl _
    · rw [review.same, kept] at order
      have ready := (timely.transacts (transcription.quiet translation) order).1
      exact quiet_completeModeration ready ok
  exact transcription.quiet ((translation.trans moderation).trans review)

theorem transacts_complete (timely : Timely db) {result : Completion}
    {stored : Stored × List MessageProcessingStep}
    (order : InOrder (attempts db) (attempts stored.1.db))
    (done : complete sha256 now userId id result db = .ok stored) :
    Transacts db stored.1.db := by
  obtain ⟨_, parts, partsDone, finished, _⟩ := complete_ok.mp done
  have written : stored.1.db = _ := (finishCompletion_ok finished).2
  rw [written] at order ⊢
  have extended : Timely (extendLease now id db) := timely.quiet (.of_tables rfl rfl rfl)
  have parts_transact : Transacts (extendLease now id db) parts.db :=
    transacts_storeParts extended order partsDone
  have begun : Transacts db parts.db := by
    refine Transacts.of_tables ?_ ?_ ?_ parts_transact
    all_goals rfl
  exact begun.quiet (.of_tables rfl rfl rfl)

end Completing

/-! ## Runs -/

section Runs

variable (sha256 : String → String)

/-- Rows of transcripts are created in the order of their times. -/
def CreatedInOrder (before after : Db) : Prop :=
  ∀ new ∈ after.transcriptions, (∀ row ∈ before.transcriptions, row.id ≠ new.id) →
    ∀ row ∈ before.transcriptions, row.createdAt < new.createdAt

instance (before after : Db) : Decidable (CreatedInOrder before after) :=
  inferInstanceAs (Decidable (∀ new ∈ _, (∀ row ∈ _, _) → ∀ row ∈ _, _))

def CreatesInOrder (world : World) (action : Action) : Prop :=
  ∀ after, step sha256 world action = some after → CreatedInOrder world.db after.db

instance (world : World) (action : Action) : Decidable (CreatesInOrder sha256 world action) :=
  inferInstanceAs (Decidable (∀ after ∈ step sha256 world action, _))

structure World.Timely (world : World) : Prop where
  db : Pipeline.Timely world.db
  owned : ∀ activity ∈ world.jobs, activity.Owned world.db

variable {sha256 : String → String}

theorem CreatedInOrder.attempts {before after : Db} (order : CreatedInOrder before after) :
    InOrder (attempts before) (attempts after) := by
  intro new member fresh old was
  obtain ⟨row, there, rfl⟩ := mem_attempts.mp member
  obtain ⟨other, here, rfl⟩ := mem_attempts.mp was
  exact order row there (fun one stored => fresh (attempt one) (List.mem_map_of_mem stored)) other here

theorem Activity.Owned.of_idle {db : Db} {activity : Activity} (idle : activity.awaited = none) :
    activity.Owned db := fun _ awaits => nomatch idle.symm.trans awaits

theorem Activity.Owned.transacts {before after : Db} {activity : Activity}
    (owned : activity.Owned before) (timely : Pipeline.Timely before)
    (transacts : Transacts before after)
    (order : InOrder (Pipeline.attempts before) (Pipeline.attempts after)) : activity.Owned after := by
  intro run awaits
  obtain ⟨spent, owns⟩ := owned run awaits
  exact ⟨spent.trans_le transacts.nextId, timely.message transacts order spent owns⟩

theorem owned_create {db given : Db} (timely : Pipeline.Timely db)
    (gaveUp : List.Forall₂ GivesUp (Pipeline.attempts db) (Pipeline.attempts given))
    (nextId : given.nextId = db.nextId) {create : Id → Transcription} {run : TranscriptionRun}
    (message : (create given.nextId).messageId = run.messageId)
    (pendingId : run.pendingId = given.nextId) :
    run.pendingId < (given.createTranscription create).nextId ∧
      Owns (given.createTranscription create) run := by
  refine ⟨pendingId ▸ Nat.lt_succ_self _, fun row member same => ?_⟩
  rcases List.mem_append.mp member with old | new
  · obtain ⟨one, was, evolved⟩ := mem_right gaveUp (List.mem_map_of_mem old)
    obtain ⟨row', there, rfl⟩ := mem_attempts.mp was
    have id : row.id = row'.id := evolved.evolves.frame.1
    have bound := timely.bound row' there
    rw [← id, same, pendingId, nextId] at bound
    exact absurd bound (Nat.lt_irrefl _)
  · rw [List.mem_singleton.mp new]
    exact message

/-- A run begins to wait with the row it has created. -/
theorem owned_prepareTranscription {db : Db} (timely : Pipeline.Timely db) {now : Time}
    {opts : RunTranscriptionOptions} {audio : File} {latest : Option Id} {activity : Activity}
    (next : (prepareTranscription now opts audio latest db).next = .goto activity) :
    activity.Owned (prepareTranscription now opts audio latest db).db := by
  have created (provider : Provider)
      (next : (prepareProvider now opts provider audio db).next = .goto activity) :
      activity.Owned (prepareProvider now opts provider audio db).db := by
    have gaveUp := givesUp_supersedeStale timely now opts.messageId
    have nextId : (supersedeStale now (pendingTranscription db opts.messageId none) db).nextId =
        db.nextId := supersedeStale_nextId _
    unfold prepareProvider at next ⊢
    simp only at next ⊢
    split at next
    · cases next
    · split at next
      · cases next
      · rename_i small
        cases next
        rw [if_neg small]
        rintro run ⟨⟩
        exact owned_create timely gaveUp nextId rfl rfl
  unfold prepareTranscription at next ⊢
  split at next
  · cases next
  · split at next
    · exact created _ next
    · split at next
      · cases next
      · cases next

theorem owned_advance {db : Db} (timely : Pipeline.Timely db) {now : Time} {reply : Reply}
    {activity landed : Activity} (owned : activity.Owned db) {out : Advanced}
    (taken : advance sha256 now reply db activity = some out)
    (order : InOrder (Pipeline.attempts db) (Pipeline.attempts out.db))
    (next : out.next = .goto landed) : landed.Owned out.db := by
  intro run awaits
  have awaited : out.next.awaited = some (.inl run) := next ▸ awaits
  rcases advance_awaited taken awaited with waits | ⟨call, transcriptionId, rfl⟩ |
    ⟨opts, audio, latest, rfl⟩
  · have transacts := transacts_advance timely owned taken
    exact owned.transacts timely transacts order run waits
  · cases taken
    have idle : (prepareModeration now call transcriptionId db).next.awaited ≠ some (.inl run) := by
      simp only [prepareModeration, preparePushModeration, disableModeration]
      repeat' split
      all_goals
        intro same
        cases same
    exact absurd awaited idle
  · cases taken
    exact owned_prepareTranscription timely next run awaits

/-- What a step does to the database is one transaction. -/
theorem transacts_step {world after : World} {action : Action} (timely : world.Timely)
    (order : InOrder (Pipeline.attempts world.db) (Pipeline.attempts after.db))
    (taken : step sha256 world action = some after) : Transacts world.db after.db := by
  have same : Transacts world.db world.db := (Quiet.refl world.db).transacts
  cases action with
  | start activity =>
    simp only [step] at taken
    split at taken
    · cases taken
      exact same
    · cases taken
  | advance job now reply =>
    simp only [step] at taken
    split at taken
    · cases taken
    rename_i activity here
    obtain ⟨out, ran, rfl⟩ := Option.map_eq_some_iff.mp taken
    rw [advanced_db]
    exact transacts_advance timely.db (timely.owned activity (List.mem_of_getElem? here)) ran
  | throw job reason =>
    simp only [step] at taken
    split at taken
    · cases taken
    · cases taken
      rw [land_db]
      exact same
  | escape job reason =>
    simp only [step] at taken
    split at taken
    · cases taken
    · cases taken
      rw [land_db]
      exact same
  | crash job =>
    cases taken
    rw [land_db]
    exact same
  | decide messageId decision notes userId now =>
    obtain ⟨db, decided, rfl⟩ := Option.map_eq_some_iff.mp taken
    unfold Messages.decide at decided
    split at decided
    · cases decided
    · split at decided
      · cases decided
      · cases decided
        exact Quiet.transacts (.of_tables rfl rfl rfl)
  | closeOut installationId endedAt =>
    cases taken
    exact Quiet.transacts (.of_tables rfl rfl rfl)
  | complete userId messageId result now =>
    simp only [step] at taken
    split at taken
    · cases taken
    · rename_i done
      cases taken
      exact transacts_complete timely.db order done

theorem timely_step {world after : World} {action : Action} (timely : world.Timely)
    (order : InOrder (Pipeline.attempts world.db) (Pipeline.attempts after.db))
    (taken : step sha256 world action = some after) : after.Timely := by
  have transacts := transacts_step timely order taken
  refine ⟨(timely.db.transacts transacts order).1, fun activity member => ?_⟩
  have kept : activity ∈ world.jobs → activity.Owned after.db := fun old =>
    (timely.owned activity old).transacts timely.db transacts order
  cases action with
  | start started =>
    simp only [step] at taken
    split at taken
    · rename_i call
      cases taken
      rcases List.mem_append.mp member with old | new
      · exact kept old
      · rw [List.mem_singleton.mp new]
        exact .of_idle (call_awaited call)
    · cases taken
  | advance job now reply =>
    simp only [step] at taken
    split at taken
    · cases taken
    rename_i running here
    obtain ⟨out, ran, rfl⟩ := Option.map_eq_some_iff.mp taken
    rcases mem_jobs_advanced member with old | next
    · exact kept old
    · rw [advanced_db] at order ⊢
      have owned := timely.owned running (List.mem_of_getElem? here)
      exact owned_advance timely.db owned ran order next
  | throw job reason =>
    simp only [step] at taken
    split at taken
    · cases taken
    · cases taken
      rcases mem_jobs_land member with old | landed
      · exact kept old
      · exact .of_idle (throw_awaited landed)
  | escape job reason =>
    simp only [step] at taken
    split at taken
    · cases taken
    · cases taken
      rcases mem_jobs_land member with old | landed
      · exact kept old
      · exact .of_idle (escape_awaited landed)
  | crash job =>
    cases taken
    rcases mem_jobs_land member with old | landed
    · exact kept old
    · cases landed
  | decide messageId decision notes userId now =>
    obtain ⟨db, _, rfl⟩ := Option.map_eq_some_iff.mp taken
    exact kept member
  | closeOut installationId endedAt =>
    cases taken
    exact kept member
  | complete userId messageId result now =>
    simp only [step] at taken
    split at taken
    · cases taken
    · cases taken
      exact kept member

/-- The latest transcript of its message, and the only one of its time. -/
def LatestTranscript (db : Db) (row : Transcription) : Prop :=
  db.latestSucceeded row.messageId = some row ∧
    ∀ other ∈ db.transcriptions, other.messageId = row.messageId → other.status = .succeeded →
      other.id ≠ row.id → other.createdAt < row.createdAt

/-- Every live verdict that names a transcript names the latest of its message. -/
def LiveVerdictsLatest (db : Db) : Prop :=
  ∀ verdict ∈ db.moderations, Live verdict → ∀ id, verdict.transcriptionId = some id →
    ∃ row, db.transcription id = some row ∧ row.messageId = verdict.messageId ∧
      LatestTranscript db row

/-- What one step may do to the transcripts. -/
structure Lifecycle (before : World) (_ : Action) (after : World) : Prop where
  pending : ∀ row ∈ after.db.transcriptions, ∀ other ∈ after.db.transcriptions,
    row.messageId = other.messageId → row.status = .pending → other.status = .pending → row = other
  settled : ∀ id row, before.db.transcription id = some row →
    ∃ new, after.db.transcription id = some new ∧ new.messageId = row.messageId ∧
      new.createdAt = row.createdAt ∧
        (row.status ≠ .pending → new.status = row.status ∧ new.text = row.text)
  recorded : ∀ id new, after.db.transcription id = some new → new.status = .succeeded →
    (∃ row, before.db.transcription id = some row ∧ row.status = .succeeded) ∨
      LatestTranscript after.db new

theorem Timely.transcription {db : Db} (timely : Pipeline.Timely db) {row : Transcription}
    (member : row ∈ db.transcriptions) : db.transcription row.id = some row :=
  Table.findUnique_of_mem timely.ids member

theorem Timely.latest {db : Db} (timely : Pipeline.Timely db) {row : Transcription}
    (counts : Counts (Pipeline.attempts db) (attempt row)) (member : row ∈ db.transcriptions) :
    LatestTranscript db row := by
  obtain ⟨_, succeeded, last⟩ := counts
  have done : row.status = .succeeded := phaseOf_eq_succeeded.mp succeeded
  have later : ∀ other ∈ db.transcriptions, other.messageId = row.messageId →
      other.status = .succeeded → other.id ≠ row.id → other.createdAt < row.createdAt := by
    intro other there message status differs
    refine last (attempt other) (List.mem_map_of_mem there) message
      (phaseOf_eq_succeeded.mpr status) fun same => differs (congrArg Attempt.id same)
  refine ⟨?_, later⟩
  cases found : db.latestSucceeded row.messageId with
  | none => exact absurd (by simp [done]) (Table.latest_eq_none.mp found row member)
  | some latest =>
    obtain ⟨there, message, status⟩ := latestSucceeded_mem found
    have newest : row.createdAt ≤ latest.createdAt :=
      Table.latest_max found row member (by simp [done])
    by_cases same : latest.id = row.id
    · rw [timely.unique there member same]
    · exact absurd newest (not_le.mpr (later latest there message status same))

theorem World.Timely.liveVerdicts {world : World} (timely : world.Timely) :
    LiveVerdictsLatest world.db := by
  intro verdict member live id aims
  obtain ⟨one, counts, same, subject⟩ := timely.db.current verdict member id ⟨live, aims⟩
  obtain ⟨row, there, rfl⟩ := mem_attempts.mp counts.1
  have found := timely.db.transcription there
  have named : row.id = id := same
  exact ⟨row, named ▸ found, subject, timely.db.latest counts there⟩

theorem lifecycle_step {before after : World} {action : Action} (timely : before.Timely)
    (later : after.Timely) (settles : Settles (Pipeline.attempts before.db) (Pipeline.attempts after.db)) :
    Lifecycle before action after where
  pending row here other there := later.db.pending here there
  settled := by
    intro id row found
    obtain ⟨member, rfl⟩ := Table.findUnique_mem found
    obtain ⟨one, was, same, subject, begun, kept⟩ :=
      settles.kept (attempt row) (List.mem_map_of_mem member)
    obtain ⟨new, there, rfl⟩ := mem_attempts.mp was
    have named : new.id = row.id := same
    refine ⟨new, named ▸ later.db.transcription there, subject, begun, fun settled => ?_⟩
    have equal := kept fun waits => settled (phaseOf_injective waits)
    exact ⟨phaseOf_injective (congrArg Attempt.phase equal), congrArg Attempt.result equal⟩
  recorded := by
    intro id new found succeeded
    obtain ⟨member, rfl⟩ := Table.findUnique_mem found
    rcases settles.succeeded (attempt new) (List.mem_map_of_mem member)
      (phaseOf_eq_succeeded.mpr succeeded) with old | counts
    · obtain ⟨row, there, same⟩ := mem_attempts.mp old
      have named : row.id = new.id := congrArg Attempt.id same
      have status : row.status = new.status := phaseOf_injective (congrArg Attempt.phase same)
      exact .inl ⟨row, named ▸ timely.db.transcription there, status.trans succeeded⟩
    · exact .inr (later.db.latest counts member)

theorem timely_untouched {world : World} (untouched : Untouched world) : world.Timely := by
  obtain ⟨transcriptions, moderations, jobs, _⟩ := untouched
  have none : Pipeline.attempts world.db = [] := congrArg (List.map attempt) transcriptions
  refine ⟨⟨none ▸ orderly_nil, ?_, ⟨?_, ?_⟩, ?_⟩, ?_⟩
  · rw [transcriptions]
    exact fun row member => absurd member List.not_mem_nil
  · rw [moderations]
    exact List.nodup_nil
  · rw [moderations]
    exact fun verdict member => absurd member List.not_mem_nil
  · rw [moderations]
    exact fun verdict member => absurd member List.not_mem_nil
  · rw [jobs]
    exact fun activity member => absurd member List.not_mem_nil

end Runs

/-- **No live verdict is on a superseded transcript.** -/
theorem live_verdicts_latest (sha256 : String → String) {world : World}
    (reached : Run.ReachableUnder (step sha256) Untouched (CreatesInOrder sha256) world) :
    LiveVerdictsLatest world.db := by
  have timely : world.Timely := by
    refine reached.invariant (fun _ => timely_untouched) fun before action after timely ordered taken => ?_
    exact timely_step timely (ordered after taken).attempts taken
  exact timely.liveVerdicts

/-- A verdict, a transcript from a device, under which the verdict is live no more, and a verdict on
that one. -/
def retranscribed : List Action :=
  moderatedTranscript "hola" ++
    [.start (.recordTranscription
        { messageId := 1, text := "adios", provider := some .onDevice, processDownstream := false } {}),
      .advance 1 6 .nothing,
      .start (.moderate
        { messageId := 1, deps := { moderation := some ⟨"openai", "omni"⟩ }, caller := .route }),
      .advance 1 7 .nothing, .advance 1 8 .nothing,
      .advance 1 9 (.verdict { flagged := true, recommendation := .review, maxScore := 1 }),
      .advance 1 10 .nothing]

theorem live_verdicts_latest_retranscribed : ∃ world,
    Run.exec (step id) untouchedMessage retranscribed = some world ∧
      world.db.moderations.map (fun verdict => (verdict.transcriptionId, verdict.status)) =
        [(some 2, .failed), (some 4, .succeeded)] ∧ LiveVerdictsLatest world.db := by
  have ordered : Run.Along (step id) (fun world action _ => CreatesInOrder id world action)
      untouchedMessage retranscribed := by decide +kernel
  have settled : (Run.exec (step id) untouchedMessage retranscribed).map (fun world =>
      world.db.moderations.map fun verdict => (verdict.transcriptionId, verdict.status)) =
        some [(some 2, .failed), (some 4, .succeeded)] := by decide +kernel
  obtain ⟨world, ran, verdicts⟩ := Option.map_eq_some_iff.mp settled
  have first : Untouched untouchedMessage := ⟨rfl, rfl, rfl, rfl⟩
  exact ⟨world, ran, verdicts,
    live_verdicts_latest id ((Run.ReachableUnder.initial first).exec ordered ran)⟩

/-- **Along every run a message has one pending transcript at most, what has left
`pending` stays, and a transcript that is recorded is the latest at its commit.** -/
theorem transcript_lifecycle (sha256 : String → String) {start : World} (untouched : Untouched start)
    (actions : List Action) (ordered : Run.Along (step sha256)
      (fun before _ after => CreatedInOrder before.db after.db) start actions) :
    Run.Along (step sha256) Lifecycle start actions := by
  refine Run.Along.of_invariant ?_ ?_ (timely_untouched untouched) ordered
  · exact fun before action after timely order taken => timely_step timely order.attempts taken
  · intro before action after timely later order taken
    have transacts := transacts_step timely order.attempts taken
    exact lifecycle_step timely later (timely.db.transacts transacts order.attempts).2

/-- Two attempts at a transcript: the second finds the first past its time and
gives it up, and the first hears from its provider when the second is done. -/
def lateAttempt : List Action :=
  let deps : PipelineDeps :=
    { transcription := some ⟨"openai", "whisper"⟩, sweeperStaleThresholdSeconds := 60 }
  [.start (.transcribe { messageId := 1, deps, skipDownstream := true }),
    .advance 0 1000 .nothing, .advance 0 1000 .nothing, .advance 0 1000 .nothing,
    .start (.transcribe { messageId := 1, deps, skipDownstream := true }),
    .advance 1 70000 .nothing, .advance 1 70000 .nothing, .advance 1 70000 .nothing,
    .advance 1 71000 (.transcript "second" none), .advance 1 72000 .nothing,
    .advance 0 73000 (.transcript "first" none), .advance 0 74000 .nothing]

theorem transcript_lifecycle_late :
    (Run.exec (step id) untouchedMessage lateAttempt).map (fun world =>
        world.db.transcriptions.map fun row => (row.id, row.status, row.text)) =
        some [(2, .failed, none), (3, .succeeded, some "second")] ∧
      Run.Along (step id) Lifecycle untouchedMessage lateAttempt :=
  ⟨by decide +kernel,
    transcript_lifecycle id ⟨rfl, rfl, rfl, rfl⟩ lateAttempt (by decide +kernel)⟩

end BoothOperator.Pipeline
