import BoothOperator.Pipeline.Soundness
import BoothOperator.Pipeline.World

/-! Verdict validity over whole runs: every statement of every job, and every
lease completion, keeps the verdicts sound as long as the translations it
stores are safe. -/
namespace BoothOperator.Pipeline

open BoothOperator.Schema
open BoothOperator.Processing
open BoothOperator.TranslationText

/-! ## The jobs' own transactions -/

section Jobs

variable {sha256 : String → String} {now : Time} {db : Db}
  {verdicts flights : List (Id × VerdictInput)}

/-- The pending verdict an activity will settle, with the text it holds for it. -/
def Activity.flight : Activity → Option (Id × VerdictInput)
  | .moderateCalling run | .moderateFinalize run _ => some (run.pendingId, .text run.text)
  | _ => none

def Next.flight : Next → Option (Id × VerdictInput)
  | .goto activity => activity.flight
  | .done _ => none

/-- The run whose provider an activity awaits, or has just heard from. -/
def Activity.awaited : Activity → Option (TranscriptionRun ⊕ ModerationRun)
  | .transcribeCalling run | .transcribeFinalize run _ _ => some (.inl run)
  | .moderateCalling run | .moderateFinalize run _ => some (.inr run)
  | _ => none

def Next.awaited : Next → Option (TranscriptionRun ⊕ ModerationRun)
  | .goto activity => activity.awaited
  | .done _ => none

/-- An update of transcripts that are not succeeded and stay untranslated. -/
theorem Sound.updatePending (sound : Sound sha256 db verdicts flights)
    {found : Transcription → Bool} {change : Transcription → Transcription}
    (pending : ∀ row ∈ db.transcriptions, found row = true → row.status = .pending)
    (kept : ∀ row, (change row).id = row.id ∧ (change row).messageId = row.messageId ∧
      (change row).translationStatus = row.translationStatus) :
    Sound sha256 (db.updateTranscriptions found change) verdicts flights := by
  refine sound.updateTranscriptions (fun row => (kept row).1) (fun row => (kept row).2.1) ?_ ?_
  · intro row member matched translated
    rw [(kept row).2.2] at translated
    have succeeded := sound.translated row member translated
    rw [pending row member matched] at succeeded
    cases succeeded
  · intro row member matched succeeded
    rw [pending row member matched] at succeeded
    cases succeeded

/-- An update of a translation that neither was nor becomes succeeded. -/
theorem Sound.updateUntranslated (sound : Sound sha256 db verdicts flights)
    {found : Transcription → Bool} {change : Transcription → Transcription}
    (before : ∀ row, found row = true → row.translationStatus ≠ some .succeeded)
    (after : ∀ row, (change row).translationStatus ≠ some .succeeded)
    (kept : ∀ row, (change row).id = row.id ∧ (change row).messageId = row.messageId ∧
      (change row).status = row.status ∧ (change row).text = row.text) :
    Sound sha256 (db.updateTranscriptions found change) verdicts flights := by
  refine sound.updateTranscriptions (fun row => (kept row).1) (fun row => (kept row).2.1) ?_ ?_
  · exact fun row _ _ translated => absurd translated (after row)
  · intro row _ matched succeeded
    refine .inr ⟨(kept row).2.2.1.trans succeeded, ?_⟩
    rw [moderationText_untranslated (after row), moderationText_untranslated (before row matched),
      transcript, (kept row).2.2.2, transcript]

theorem pendingTranscription_mem {messageId : Id} {transcriptionId : Option Id}
    {pending : Transcription}
    (found : pendingTranscription db messageId transcriptionId = some pending) :
    pending ∈ db.transcriptions ∧ pending.status = .pending := by
  obtain ⟨member, matched⟩ := Table.latest_mem found
  simp only [decide_eq_true_eq] at matched
  exact ⟨member, matched.2.1⟩

theorem Sound.supersedeStale (sound : Sound sha256 db verdicts flights) (now : Time)
    (messageId : Id) :
    Sound sha256 (supersedeStale now (pendingTranscription db messageId none) db) verdicts
      flights := by
  unfold Pipeline.supersedeStale
  split
  · exact sound
  · rename_i stale found
    obtain ⟨member, pending⟩ := pendingTranscription_mem found
    refine sound.updatePending (fun row there matched => ?_) fun _ => ⟨rfl, rfl, rfl⟩
    rw [Table.eq_of_key_eq sound.transcriptionIds there member (of_decide_eq_true matched)]
    exact pending

theorem Sound.prepareProvider (sound : Sound sha256 db verdicts flights)
    (opts : RunTranscriptionOptions) (provider : Provider) (audio : File) :
    Sound sha256 (prepareProvider now opts provider audio db).db verdicts flights := by
  have ready := sound.supersedeStale now opts.messageId
  simp only [Pipeline.prepareProvider]
  split
  · exact sound
  · split
    · dsimp only
      refine ready.createTranscription ?_ ?_ <;> exact fun _ => rfl
    · dsimp only
      refine ready.createTranscription ?_ ?_ <;> exact fun _ => rfl

theorem Sound.prepareTranscription (sound : Sound sha256 db verdicts flights)
    (opts : RunTranscriptionOptions) (audio : File) (latest : Option Id) :
    Sound sha256 (prepareTranscription now opts audio latest db).db verdicts flights := by
  simp only [Pipeline.prepareTranscription, preparePush]
  repeat' split
  all_goals first
    | exact sound
    | exact sound.prepareProvider opts _ audio
    | (dsimp only; refine sound.createTranscription ?_ ?_ <;> exact fun _ => rfl)

theorem ownPending_pending {run : TranscriptionRun} {row : Transcription}
    (own : ownPending run row = true) : row.status = .pending := by
  simp only [ownPending, decide_eq_true_eq] at own
  exact own.2.1

theorem Sound.finalizeRun (sound : Sound sha256 db verdicts flights) (run : TranscriptionRun)
    (text : String) (language : Option String) :
    Sound sha256 (finalizeRun now run text language db).db verdicts flights := by
  have updated : Sound sha256 (supersedeByTranscription now run.messageId
      (db.updateTranscriptions (ownPending run) fun row =>
        { row with
          status := .succeeded
          text := some text
          language
          latencyMs := some (now - run.startedAt)
          completedAt := some now })) verdicts flights := by
    refine (sound.updatePending ?_ ?_).supersede now _ _
    · exact fun _ _ own => ownPending_pending own
    · exact fun _ => ⟨rfl, rfl, rfl⟩
  simp only [Pipeline.finalizeRun]
  repeat' split
  all_goals first
    | exact sound
    | exact updated

theorem Sound.failRun (sound : Sound sha256 db verdicts flights) (run : TranscriptionRun)
    (reason : String) : Sound sha256 (failRun now run reason db).db verdicts flights := by
  refine sound.updatePending ?_ ?_
  · exact fun _ _ own => ownPending_pending own
  · exact fun _ => ⟨rfl, rfl, rfl⟩

theorem unclaimed_untranslated {id : Id} {row : Transcription} (free : unclaimed id row = true) :
    row.translationStatus ≠ some .succeeded := by
  simp only [unclaimed, decide_eq_true_eq] at free
  rcases free.2 with none | failed
  · simp [none]
  · simp [failed]

theorem ownTranslation_untranslated {run : TranslationRun} {row : Transcription}
    (own : ownTranslation run row = true) : row.translationStatus ≠ some .succeeded := by
  simp only [ownTranslation, decide_eq_true_eq] at own
  simp [own.2.1]

theorem Sound.disableTranslation (sound : Sound sha256 db verdicts flights)
    (call : TranslationCall) (row : Transcription) :
    Sound sha256 (disableTranslation now call row db).db verdicts flights := by
  refine sound.updateUntranslated (fun _ => unclaimed_untranslated) ?_ ?_
  · exact fun _ => by simp
  · exact fun _ => ⟨rfl, rfl, rfl, rfl⟩

theorem Sound.claimTranslation (sound : Sound sha256 db verdicts flights) (call : TranslationCall)
    (row : Transcription) (provider : String) (model : Option String) :
    Sound sha256 (claimTranslation call row provider model db).1 verdicts flights := by
  simp only [Pipeline.claimTranslation]
  repeat' split
  · exact sound
  · exact sound
  · refine sound.updateUntranslated (fun _ => unclaimed_untranslated) ?_ ?_
    · exact fun _ => by simp
    · exact fun _ => ⟨rfl, rfl, rfl, rfl⟩

theorem Sound.failTranslation (sound : Sound sha256 db verdicts flights) (run : TranslationRun)
    (reason : String) : Sound sha256 (failTranslation now run reason db).db verdicts flights := by
  refine sound.updateUntranslated (fun _ => ownTranslation_untranslated) ?_ ?_
  · exact fun _ => by simp
  · exact fun _ => ⟨rfl, rfl, rfl, rfl⟩

theorem currentTranscript_mem {messageId transcriptionId : Id} {row : Transcription}
    (current : currentTranscript messageId transcriptionId db = some row) :
    row ∈ db.transcriptions ∧ row.messageId = messageId ∧ row.status = .succeeded := by
  unfold currentTranscript at current
  split at current
  · cases current
  · exact latestSucceeded_mem (Option.filter_eq_some_iff.mp current).1

/-- A verdict row of a moderation run, aimed at the message's current transcript. -/
private theorem Sound.createRunVerdict (sound : Sound sha256 db verdicts flights)
    {current : Transcription} (member : current ∈ db.transcriptions)
    (succeeded : current.status = .succeeded) {create : Id → Moderation}
    (made : ∀ id, (create id).id = id ∧ (create id).messageId = current.messageId ∧
      (create id).transcriptionId = some current.id) :
    Sound sha256 (db.createModeration create) verdicts flights := by
  refine sound.createModeration (fun id => (made id).1) fun id named => ?_
  rw [(made _).2.2, Option.some.injEq] at named
  exact ⟨current, member, named, (made _).2.1.symm, succeeded⟩

theorem Sound.prepareModeration (sound : Sound sha256 db verdicts flights) (now : Time)
    (call : ModerationCall) (transcriptionId : Id) :
    Sound sha256 (prepareModeration now call transcriptionId db).db verdicts
      ((prepareModeration now call transcriptionId db).next.flight.toList ++ flights) := by
  simp only [Pipeline.prepareModeration]
  split
  · exact sound
  rename_i current found
  obtain ⟨member, message, succeeded⟩ := currentTranscript_mem found
  split
  · split
    · simp only [preparePushModeration]
      split
      · exact sound
      · refine sound.createRunVerdict member succeeded fun _ => ?_
        exact ⟨rfl, message.symm, rfl⟩
    · simp only [disableModeration]
      refine (Sound.createRunVerdict sound member succeeded fun _ => ?_).updateMessages _ _
      exact ⟨rfl, message.symm, rfl⟩
  · rename_i provider _
    split
    · exact sound
    · have created : Sound sha256
          (db.createModeration (moderationRow now call current.id provider.name (some provider.model)))
          verdicts flights :=
        sound.createRunVerdict member succeeded fun _ => ⟨rfl, message.symm, rfl⟩
      refine created.takeOff (Nat.lt_succ_self _) ?_
      intro verdict there same _ row present refers
      have new : moderationRow now call current.id provider.name (some provider.model) db.nextId ∈
          (db.createModeration
            (moderationRow now call current.id provider.name (some provider.model))).moderations :=
        List.mem_append_right _ (List.mem_singleton_self _)
      rw [targets_of_unique created.moderationIds new verdict there same] at refers
      have target : row = current :=
        Table.eq_of_key_eq sound.transcriptionIds present member (Option.some.inj refers).symm
      rw [target]
      rfl

theorem Sound.finalizeModeration (sound : Sound sha256 db verdicts flights) {run : ModerationRun}
    (flying : (run.pendingId, .text run.text) ∈ flights) (verdict : ModerationVerdict) :
    Sound sha256 (finalizeModeration now run verdict db).db
      ((finalizeModeration now run verdict db).verdicts ++ verdicts) flights := by
  simp only [Pipeline.finalizeModeration]
  split
  · exact sound
  split
  · exact sound
  rename_i some
  have own : ∃ pending ∈ db.moderations, ownVerdict run pending = true := by
    by_contra none
    exact some (List.countP_eq_zero.mpr fun row member own => none ⟨row, member, own⟩)
  obtain ⟨pending, member, own⟩ := own
  simp only [ownVerdict, decide_eq_true_eq] at own
  obtain ⟨sameId, was, provider⟩ := own
  have matched : ∀ row ∈ db.moderations, ownVerdict run row = true ↔ row.id = pending.id := by
    intro row there
    simp only [ownVerdict, decide_eq_true_eq]
    refine ⟨fun hit => hit.1.trans sameId.symm, fun same => ?_⟩
    rw [targets_of_unique sound.moderationIds member row there same]
    exact ⟨sameId, was, provider⟩
  obtain ⟨settled, ended⟩ := sound.settle member was (fun row =>
    { row with
      status := .succeeded
      flagged := Option.some verdict.flagged
      recommendation := Option.some verdict.recommendation
      maxScore := Option.some verdict.maxScore
      categories := Option.some (categoriesColumn (Option.some verdict.categories))
      reasonSummary := verdict.reasonSummary
      latencyMs := Option.some (now - run.startedAt)
      completedAt := Option.some now }) matched fun _ => ⟨rfl, rfl, rfl, rfl⟩
  refine settled.accept (sound.flightBound _ flying) ?_ ?_
  · intro row there same pendingStatus
    rw [(ended row there (same.trans sameId.symm)).1] at pendingStatus
    cases pendingStatus
  · intro row there same _ target present refers
    have aims := (ended row there (same.trans sameId.symm)).2
    exact sound.flying _ flying pending member sameId was target present (aims ▸ refers)

theorem Sound.failModeration (sound : Sound sha256 db verdicts flights) (run : ModerationRun)
    (reason : String) : Sound sha256 (failModeration now run reason db).db verdicts flights := by
  refine sound.updateModerations ?_ ?_ ?_ fun _ _ _ => .inl rfl
  all_goals exact fun _ => rfl

/-! ### One statement -/

/-- The transcript an activity is about to store a translation over, and what it was given for
one. Nothing is stored where a check before the write fails. -/
def Activity.translates (sha256 : String → String) (db : Db) :
    Activity → Option (Transcription × String)
  | .translateFinalize run text _ => (run.target db).map (·, text)
  | .recordTranslation opts => (opts.target sha256 db).map (·, opts.translatedText)
  | .callbackTranslationWrite data _ => (data.target sha256 db).map (·, data.translatedText)
  | _ => none

/-- The transcript of a verdict an activity is about to accept is legible. -/
def Activity.AcceptsLegibly (sha256 : String → String) (db : Db) : Activity → Prop
  | .recordModeration opts => LegibleInput sha256 db opts
  | .submitVerdict data => data.Accepted sha256 db → LegibleForLatest db data.messageId
  | _ => True

instance (db : Db) (activity : Activity) : Decidable (activity.AcceptsLegibly sha256 db) := by
  cases activity with
  | recordModeration => exact inferInstanceAs (Decidable (LegibleInput _ _ _))
  | submitVerdict => exact inferInstanceAs (Decidable (_ → _))
  | _ => exact isTrue trivial

/-- The translation an activity is about to store is safe over what it replaces,
and the transcript of a verdict it is about to accept is legible. -/
def Activity.StoresSafely (sha256 : String → String) (db : Db) (activity : Activity) : Prop :=
  (∀ write, activity.translates sha256 db = some write →
    SafeTranslation db write.1 (normalizeTranslationText write.2)) ∧
  activity.AcceptsLegibly sha256 db

instance (db : Db) (activity : Activity) : Decidable (activity.StoresSafely sha256 db) :=
  inferInstanceAs (Decidable ((∀ write ∈ activity.translates sha256 db, SafeTranslation _ _ _) ∧ _))

@[simp]
theorem translationFinish_awaited (call : TranslationCall) (outcome : TranslationOutcome) :
    (call.finish outcome).awaited = none := by
  unfold TranslationCall.finish
  repeat' split
  all_goals rfl

/-- A run begins to wait in two places only, and waits until it settles its row. -/
theorem advance_awaited {reply : Reply} {activity : Activity} {out : Advanced}
    (taken : advance sha256 now reply db activity = some out)
    {run : TranscriptionRun ⊕ ModerationRun} (awaits : out.next.awaited = some run) :
    activity.awaited = some run ∨
      (∃ call transcriptionId, activity = .moderatePrepare call transcriptionId) ∨
        ∃ opts audio latest, activity = .transcribePrepare opts audio latest := by
  have grounded {next : Next} (none : next.awaited = none) (there : next.awaited = some run) :
      activity.awaited = some run ∨
        (∃ call transcriptionId, activity = .moderatePrepare call transcriptionId) ∨
          ∃ opts audio latest, activity = .transcribePrepare opts audio latest := by
    rw [none] at there
    cases there
  cases activity with
  | moderatePrepare call transcriptionId => exact .inr (.inl ⟨call, transcriptionId, rfl⟩)
  | transcribePrepare opts audio latest => exact .inr (.inr ⟨opts, audio, latest, rfl⟩)
  | moderateCalling run | transcribeCalling run =>
    cases reply <;> cases taken
    exact .inl awaits
  | transcribe opts =>
    simp only [Pipeline.advance] at taken
    repeat' split at taken
    all_goals cases taken
    all_goals exact grounded rfl awaits
  | translateCalling run =>
    cases reply <;> cases taken
    exact grounded rfl awaits
  | transcribeFinalize run text language =>
    cases taken
    refine grounded ?_ awaits
    simp only [Pipeline.finalizeRun]
    repeat' split
    all_goals rfl
  | translate call =>
    cases taken
    refine grounded ?_ awaits
    simp only [startTranslation]
    repeat' split
    all_goals first
      | rfl
      | exact translationFinish_awaited _ _
  | translateClaim call row provider =>
    cases taken
    refine grounded ?_ awaits
    simp only [claimForRun]
    split
    · rfl
    · exact translationFinish_awaited _ _
  | translateFinalize run text language =>
    cases taken
    refine grounded ?_ awaits
    simp only [Pipeline.finalizeTranslation]
    repeat' split
    all_goals exact translationFinish_awaited _ _
  | translateDisabled | translateDefer | translateCatch =>
    cases taken
    exact grounded (translationFinish_awaited _ _) awaits
  | moderate call =>
    cases taken
    refine grounded ?_ awaits
    simp only [startModeration]
    repeat' split
    all_goals rfl
  | moderateFinalize run verdict =>
    cases taken
    refine grounded ?_ awaits
    simp only [Pipeline.finalizeModeration]
    repeat' split
    all_goals rfl
  | moderateCatch run reason =>
    cases taken
    refine grounded ?_ awaits
    simp only [Pipeline.failModeration]
    split <;> rfl
  | moderateCatchRead run =>
    cases taken
    refine grounded ?_ awaits
    simp only [readStatusAfterFailure]
    repeat' split
    all_goals rfl
  | moderateCatchWrite run =>
    simp only [Pipeline.advance] at taken
    split at taken <;> cases taken
    exact grounded rfl awaits
  | recordTranscription opts deps =>
    cases taken
    refine grounded ?_ awaits
    simp only [recordTranscriptionStep]
    repeat' split
    all_goals rfl
  | callbackTranslation data deps =>
    cases taken
    refine grounded ?_ awaits
    simp only [startCallback]
    repeat' split
    all_goals rfl
  | callbackTranslationWrite data deps =>
    cases taken
    refine grounded ?_ awaits
    simp only [callbackStep]
    repeat' split
    all_goals rfl
  | recordModeration opts =>
    cases taken
    refine grounded ?_ awaits
    simp only [recordModerationStep]
    split <;> rfl
  | submitVerdict data =>
    cases taken
    refine grounded ?_ awaits
    simp only [submitVerdictStep]
    split <;> rfl
  | submitReadBack messageId moderationId =>
    cases taken
    refine grounded ?_ awaits
    simp only
    split <;> rfl
  | transcribeLoaded | transcribeSilent | transcribeCatch | moderateAdvance
  | recordSilence | recordTranslation | surface =>
    cases taken
    exact grounded rfl awaits

theorem call_awaited {activity : Activity} (call : activity.isCall = true) :
    activity.awaited = none := by
  cases activity <;> first | rfl | cases call

theorem escape_awaited {activity landed : Activity} {reason : String}
    (escaped : activity.escape reason = some landed) : landed.awaited = none := by
  obtain ⟨run, _, rfl⟩ := Option.map_eq_some_iff.mp escaped
  rfl

/-- An exception lands in a `catch` block, where nothing is awaited. -/
theorem throw_awaited {activity landed : Activity} {reason : String}
    (thrown : activity.throw reason = some landed) : landed.awaited = none := by
  unfold Activity.throw at thrown
  split at thrown
  all_goals first
    | (cases thrown; rfl)
    | exact escape_awaited thrown

theorem flight_awaited {activity : Activity} {entry : Id × VerdictInput} :
    activity.flight = some entry ↔
      ∃ run, activity.awaited = some (.inr run) ∧ (run.pendingId, .text run.text) = entry := by
  cases activity <;> simp [Activity.flight, Activity.awaited]

/-- A run takes off in one place only, and lands when its verdict is settled. -/
theorem advance_flight {reply : Reply} {activity : Activity} {out : Advanced}
    (taken : advance sha256 now reply db activity = some out) {entry : Id × VerdictInput}
    (flight : out.next.flight = some entry) :
    activity.flight = some entry ∨ ∃ call transcriptionId,
      activity = .moderatePrepare call transcriptionId := by
  cases next : out.next with
  | done _ =>
    rw [next] at flight
    cases flight
  | goto landed =>
    rw [next] at flight
    obtain ⟨run, awaits, same⟩ := flight_awaited.mp flight
    have awaited : out.next.awaited = some (.inr run) := next ▸ awaits
    rcases advance_awaited taken awaited with waits | prepares | ⟨opts, audio, latest, rfl⟩
    · exact .inl (flight_awaited.mpr ⟨run, waits, same⟩)
    · exact .inr prepares
    · cases taken
      have silent : (Pipeline.prepareTranscription now opts audio latest db).next.flight = none := by
        simp only [Pipeline.prepareTranscription, Pipeline.prepareProvider]
        repeat' split
        all_goals rfl
      rw [next] at silent
      cases silent.symm.trans flight

/-- Transcripts and translations settle no verdict. -/
private theorem silent_advance {reply : Reply} {activity : Activity} {out : Advanced}
    (taken : Pipeline.advance sha256 now reply db activity = some out)
    (writesText : (∃ opts audio latest, activity = .transcribePrepare opts audio latest) ∨
      (∃ run text language, activity = .transcribeFinalize run text language) ∨
      (∃ run text language, activity = .translateFinalize run text language) ∨
      (∃ opts deps, activity = .recordTranscription opts deps) ∨
      (∃ data deps, activity = .callbackTranslationWrite data deps)) : out.verdicts = [] := by
  rcases writesText with ⟨opts, audio, latest, rfl⟩ | ⟨run, text, language, rfl⟩ |
    ⟨run, text, language, rfl⟩ | ⟨opts, deps, rfl⟩ | ⟨data, deps, rfl⟩
  · cases taken
    simp only [Pipeline.prepareTranscription, Pipeline.prepareProvider]
    repeat' split
    all_goals rfl
  · cases taken
    simp only [Pipeline.finalizeRun]
    repeat' split
    all_goals rfl
  · cases taken
    simp only [Pipeline.finalizeTranslation]
    repeat' split
    all_goals rfl
  · cases taken
    simp only [recordTranscriptionStep]
    repeat' split
    all_goals rfl
  · cases taken
    simp only [callbackStep]
    repeat' split
    all_goals rfl

theorem Sound.recordTranscriptionStep (sound : Sound sha256 db verdicts flights)
    (opts : RecordTranscriptionResultOptions) (deps : PipelineDeps) :
    Sound sha256 (recordTranscriptionStep sha256 now opts deps db).db verdicts flights := by
  have stored := sound.recordTranscription now opts
  unfold Pipeline.recordTranscriptionStep
  split
  · rename_i recorded
    rw [recorded] at stored
    repeat' split
    all_goals exact stored
  · rename_i recorded
    rw [recorded] at stored
    exact stored

theorem Sound.callbackStep (sound : Sound sha256 db verdicts flights) {data : TranslationBody}
    (safe : ∀ row, data.target sha256 db = some row →
      SafeTranslation db row (normalizeTranslationText data.translatedText))
    (deps : PipelineDeps) :
    Sound sha256 (callbackStep sha256 now data deps db).db verdicts flights := by
  have stored := sound.storesOver safe (storesOver_workerTranslation sha256 now data)
  unfold Pipeline.callbackStep
  split
  · rename_i recorded
    rw [recorded] at stored
    split <;> exact stored
  · rename_i recorded
    rw [recorded] at stored
    exact stored

theorem Sound.advance (sound : Sound sha256 db verdicts flights) {reply : Reply}
    {activity : Activity} (flying : ∀ entry, activity.flight = some entry → entry ∈ flights)
    (safe : activity.StoresSafely sha256 db) {out : Advanced}
    (taken : advance sha256 now reply db activity = some out) :
    Sound sha256 out.db (out.verdicts ++ verdicts) (out.next.flight.toList ++ flights) := by
  by_cases preparing : ∃ call transcriptionId, activity = .moderatePrepare call transcriptionId
  · obtain ⟨call, transcriptionId, rfl⟩ := preparing
    cases taken
    have prepared := sound.prepareModeration now call transcriptionId
    have silent : (Pipeline.prepareModeration now call transcriptionId db).verdicts = [] := by
      simp only [Pipeline.prepareModeration, preparePushModeration, disableModeration]
      repeat' split
      all_goals rfl
    rw [silent]
    exact prepared
  have within : ∀ entry ∈ out.next.flight.toList ++ flights, entry ∈ flights := by
    intro entry member
    rcases List.mem_append.mp member with new | old
    · rcases advance_flight taken (by simpa using new) with same | prepares
      · exact flying entry same
      · exact absurd prepares preparing
    · exact old
  refine Sound.fewer ?_ within
  cases activity with
  | moderatePrepare call transcriptionId => exact absurd ⟨call, transcriptionId, rfl⟩ preparing
  | transcribe opts =>
    simp only [Pipeline.advance] at taken
    repeat' split at taken
    all_goals cases taken
    all_goals exact sound
  | transcribeCalling run | translateCalling run | moderateCalling run =>
    cases reply <;> cases taken
    exact sound
  | transcribePrepare opts audio latest =>
    rw [silent_advance taken (.inl ⟨_, _, _, rfl⟩)]
    cases taken
    exact sound.prepareTranscription opts audio latest
  | transcribeFinalize run text language =>
    rw [silent_advance taken (.inr (.inl ⟨_, _, _, rfl⟩))]
    cases taken
    exact sound.finalizeRun run text language
  | transcribeCatch run reason =>
    cases taken
    exact sound.failRun run reason
  | translateDisabled call row =>
    cases taken
    exact sound.disableTranslation call row
  | translateDefer call row =>
    cases taken
    exact sound.claimTranslation call row _ _
  | translateClaim call row provider =>
    cases taken
    exact sound.claimTranslation call row _ _
  | translateFinalize run text language =>
    rw [silent_advance taken (.inr (.inr (.inl ⟨_, _, _, rfl⟩)))]
    cases taken
    exact sound.storesOver
      (fun row target => safe.1 (row, text) (by simp [Activity.translates, target]))
      (storesOver_finalizeTranslation now run text language)
  | translateCatch run reason =>
    cases taken
    exact sound.failTranslation run reason
  | moderateFinalize run verdict =>
    cases taken
    exact sound.finalizeModeration (flying _ rfl) verdict
  | moderateCatch run reason =>
    cases taken
    exact sound.failModeration run reason
  | moderateCatchWrite run =>
    simp only [Pipeline.advance] at taken
    split at taken <;> cases taken
    exact sound.updateMessages _ _
  | transcribeSilent | moderateAdvance | recordSilence | surface =>
    cases taken
    exact sound.updateMessages _ _
  | recordTranscription opts deps =>
    rw [silent_advance taken (.inr (.inr (.inr (.inl ⟨_, _, rfl⟩))))]
    cases taken
    exact sound.recordTranscriptionStep opts deps
  | recordTranslation opts =>
    cases taken
    exact sound.storesOver
      (fun row target => safe.1 (row, opts.translatedText) (by simp [Activity.translates, target]))
      (storesOver_recordTranslation sha256 now opts)
  | callbackTranslationWrite data deps =>
    rw [silent_advance taken (.inr (.inr (.inr (.inr ⟨_, _, rfl⟩))))]
    cases taken
    exact sound.callbackStep
      (fun row target => safe.1 (row, data.translatedText) (by simp [Activity.translates, target])) deps
  | recordModeration opts =>
    cases taken
    exact sound.recordModeration now safe.2
  | submitVerdict data =>
    cases taken
    exact sound.submitModeration safe.2
  | transcribeLoaded | translate | moderate | moderateCatchRead | callbackTranslation
  | submitReadBack =>
    cases taken
    exact sound

end Jobs

/-! ## Lease completions -/

section Completing

variable {sha256 : String → String} {now : Time} {userId : String} {id : Id} {db : Db}
  {verdicts flights : List (Id × VerdictInput)}

/-- The translation a completion stores is safe, and its verdict's transcript
legible, when their turn comes. -/
def CompletionSafe (sha256 : String → String) (now : Time) (userId : String) (db : Db) (id : Id)
    (result : Completion) : Prop :=
  ∀ transcribed, optionally result.transcription (none, db)
      (fun part => completeTranscription sha256 now userId id part db) = .ok transcribed →
    (∀ part, result.translation = some part → ∀ row, transcribed.2.latestSucceeded id = some row →
      SafeTranslation transcribed.2 row (normalizeTranslationText part.translatedText)) ∧
    ∀ translated, optionally result.translation transcribed
        (fun part => completeTranslation sha256 now id part transcribed.1 transcribed.2) =
          .ok translated →
      ∀ part, result.moderation = some part → ∀ hash, part.inputSha256 = some hash → hash ≠ "" →
        LegibleForLatest translated.2 id

instance (db : Db) (result : Completion) :
    Decidable (CompletionSafe sha256 now userId db id result) := by
  have translation (after : Db) : Decidable (∀ part, result.translation = some part →
      ∀ row, after.latestSucceeded id = some row →
        SafeTranslation after row (normalizeTranslationText part.translatedText)) :=
    inferInstanceAs (Decidable (∀ part ∈ result.translation, ∀ row ∈ after.latestSucceeded id,
      SafeTranslation _ _ _))
  have moderation (after : Db) : Decidable (∀ part, result.moderation = some part →
      ∀ hash, part.inputSha256 = some hash → hash ≠ "" → LegibleForLatest after id) :=
    inferInstanceAs (Decidable (∀ part ∈ result.moderation, ∀ hash ∈ part.inputSha256, _ → _))
  exact inferInstanceAs (Decidable (∀ _, _ → _ ∧ ∀ _, _ → _))

theorem Sound.surfaceTranscript (sound : Sound sha256 db verdicts flights) (text : String) :
    Sound sha256 (surfaceTranscript id text db) verdicts flights := by
  unfold Processing.surfaceTranscript
  split
  · exact sound.updateMessages _ _
  · exact sound.updateMessages _ _

theorem Sound.completeTranscription (sound : Sound sha256 db verdicts flights)
    {part : TranscriptionPart} {stored : Option Id × Db}
    (done : completeTranscription sha256 now userId id part db = .ok stored) :
    Sound sha256 stored.2 verdicts flights := by
  rw [completeTranscription_ok done]
  exact (sound.recordTranscription _ _).surfaceTranscript _

theorem Sound.completeTranslation (sound : Sound sha256 db verdicts flights)
    {part : TranslationPart} {transcriptionId : Option Id} {stored : Option Id × Db}
    (safe : ∀ row, db.latestSucceeded id = some row →
      SafeTranslation db row (normalizeTranslationText part.translatedText))
    (done : completeTranslation sha256 now id part transcriptionId db = .ok stored) :
    Sound sha256 stored.2 verdicts flights := by
  unfold Processing.completeTranslation at done
  split at done
  · rename_i recorded
    have kept := congrArg Prod.snd recorded
    cases done
    rw [← show _ = _ from kept]
    refine sound.storesOver ?_ (storesOver_recordTranslation sha256 now _)
    exact fun row target => safe row (RecordTranslationResultOptions.target_latest sha256 target)
  all_goals cases done

theorem acceptedWith_recorded (verdict : Id) (inputSha256 : Option String) :
    acceptedWith inputSha256 (.recorded verdict) = completionVerdict (some verdict) inputSha256 := by
  cases inputSha256 <;> rfl

theorem acceptedWith_unchanged (verdict : Option Id) (inputSha256 : Option String) :
    acceptedWith inputSha256 (.unchanged verdict) = completionVerdict verdict inputSha256 := by
  cases verdict <;> cases inputSha256 <;> rfl

theorem Sound.completeModeration (sound : Sound sha256 db verdicts flights)
    {part : ModerationPart} {transcriptionId : Option Id} {stored : Option Id × Db}
    (legible : ∀ hash, part.inputSha256 = some hash → hash ≠ "" → LegibleForLatest db id)
    (done : completeModeration sha256 now userId id part transcriptionId db = .ok stored) :
    Sound sha256 stored.2 (completionVerdict stored.1 part.inputSha256 ++ verdicts) flights := by
  unfold Processing.completeModeration at done
  split at done
  · cases done
  rename_i target _
  have input : LegibleInput sha256 db (part.result userId id target) :=
    fun _ ⟨hash, given, nonempty⟩ => legible hash given nonempty
  have recorded := sound.recordModeration now input
  split at done
  · rename_i outcome
    rw [outcome] at recorded
    cases done
    rw [acceptedWith_recorded] at recorded
    exact recorded.updateMessages _ _
  · rename_i outcome
    rw [outcome] at recorded
    cases done
    rw [acceptedWith_unchanged] at recorded
    exact recorded.updateMessages _ _
  all_goals cases done

theorem Sound.storeParts (sound : Sound sha256 db verdicts flights) {result : Completion}
    {stored : Stored} (safe : CompletionSafe sha256 now userId db id result)
    (done : storeParts sha256 now userId id result db = .ok stored) :
    Sound sha256 stored.db
      (completionVerdict stored.verdict (result.moderation.bind (·.inputSha256)) ++ verdicts)
      flights := by
  obtain ⟨transcribed, translated, moderated, one, two, three, four, verdict⟩ :=
    storeParts_ok.mp done
  obtain ⟨safeText, legible⟩ := safe transcribed one
  have transcription : Sound sha256 transcribed.2 verdicts flights := by
    rcases optionally_ok.mp one with ⟨_, rfl⟩ | ⟨part, _, ok⟩
    · exact sound
    · exact sound.completeTranscription ok
  have translation : Sound sha256 translated.2 verdicts flights := by
    rcases optionally_ok.mp two with ⟨_, rfl⟩ | ⟨part, given, ok⟩
    · exact transcription
    · exact transcription.completeTranslation (safeText part given) ok
  have moderation : Sound sha256 moderated.2
      (completionVerdict moderated.1 (result.moderation.bind (·.inputSha256)) ++ verdicts)
      flights := by
    rcases optionally_ok.mp three with ⟨_, rfl⟩ | ⟨part, given, ok⟩
    · exact translation
    · rw [given]
      exact translation.completeModeration (legible translated two part given) ok
  rw [verdict]
  rcases optionally_ok.mp four with ⟨_, same⟩ | ⟨part, _, ok⟩
  · rw [same]
    exact moderation
  · unfold completeReview at ok
    split at ok
    · cases ok
    split at ok
    · cases ok
    · rw [← Except.ok.inj ok]
      exact moderation.updateMessages _ _

theorem Sound.complete (sound : Sound sha256 db verdicts flights) {result : Completion}
    {stored : Stored × List MessageProcessingStep}
    (safe : CompletionSafe sha256 now userId (extendLease now id db) id result)
    (done : complete sha256 now userId id result db = .ok stored) :
    Sound sha256 stored.1.db
      (completionVerdict stored.1.verdict (result.moderation.bind (·.inputSha256)) ++ verdicts)
      flights := by
  obtain ⟨_, parts, partsDone, finished, verdict⟩ := complete_ok.mp done
  have written : stored.1.db = _ := (finishCompletion_ok finished).2
  rw [written, verdict]
  exact ((sound.updateMessages _ _).storeParts safe partsDone).updateMessages _ _

end Completing

end BoothOperator.Pipeline
