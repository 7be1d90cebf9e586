import BoothOperator.Pipeline.TranscriptRuns
import BoothOperator.TranslationLayers
import BoothOperator.Pipeline.World

/-! A succeeded translation has text, stored and as its readers normalize it
again, as long as what a writer stores is no empty fence, and holds none in its
layer. Of the four writers one alone looks at what it stores, and that one looks
before the text is read. -/
namespace BoothOperator.Pipeline

open BoothOperator.Schema
open BoothOperator.TranslationText
open BoothOperator.Processing

/-- A succeeded translation of the row is not blank when it is read. -/
def Readable (row : Transcription) : Prop :=
  row.translationStatus = some .succeeded →
    ∃ text, row.translatedText = some text ∧ normalizeTranslationText text ≠ ""

def AllReadable (db : Db) : Prop := ∀ row ∈ db.transcriptions, Readable row

/-- Each translation that a step stores lasts. -/
def Action.StoresLasting (sha256 : String → String) (world : World) : Action → Prop
  | .advance job _ _ =>
    ∀ activity ∈ world.jobs[job]?, ∀ write ∈ activity.translates sha256 world.db, Lasting write.2
  | .complete _ _ result _ => ∀ part ∈ result.translation, Lasting part.translatedText
  | _ => True

instance (sha256 : String → String) (world : World) (action : Action) :
    Decidable (action.StoresLasting sha256 world) := by
  cases action with
  | advance => exact inferInstanceAs (Decidable (∀ _ ∈ _, ∀ _ ∈ _, _))
  | complete => exact inferInstanceAs (Decidable (∀ _ ∈ _, _))
  | _ => exact isTrue trivial

/-- No job has begun, and the translations that are stored can be read. -/
def Idle (world : World) : Prop := world.jobs = [] ∧ AllReadable world.db

variable {sha256 : String → String} {now : Time} {db after : Db}

/-! ## Tables -/

theorem AllReadable.of_rows (readable : AllReadable db)
    (same : after.transcriptions = db.transcriptions) : AllReadable after := by
  intro row member
  rw [same] at member
  exact readable row member

theorem AllReadable.update (readable : AllReadable db) {found : Transcription → Bool}
    {change : Transcription → Transcription} (kept : ∀ row, Readable row → Readable (change row)) :
    AllReadable (db.updateTranscriptions found change) := by
  intro row member
  obtain ⟨old, there, rfl⟩ := Table.mem_updateMany.mp member
  split
  · exact kept old (readable old there)
  · exact readable old there

theorem AllReadable.create (readable : AllReadable db) {row : Id → Transcription}
    (own : (row db.nextId).translationStatus = none) : AllReadable (db.createTranscription row) := by
  intro other member
  rcases List.mem_append.mp member with old | new
  · exact readable other old
  · rw [List.mem_singleton] at new
    intro succeeded
    rw [new, own] at succeeded
    cases succeeded

theorem AllReadable.storeTranslation (readable : AllReadable db) {messageId : Id}
    {row : Transcription} {text : String} {found : Transcription → Bool}
    {change : Transcription → Transcription} (legible : normalizeTranslationText text ≠ "") :
    AllReadable (storeTranslation now messageId row text found change db) := by
  have updated : AllReadable (db.updateTranscriptions found fun old =>
      withTranslation (change old) text) := by
    apply readable.update
    intro old _ _
    exact ⟨text, rfl, legible⟩
  simp only [Pipeline.storeTranslation]
  split
  · exact updated.of_rows rfl
  · exact updated

/-! ## Writers -/

theorem AllReadable.recordTranscription (readable : AllReadable db)
    (opts : RecordTranscriptionResultOptions) :
    AllReadable (recordTranscriptionResultInTransaction sha256 now opts db).2 := by
  have finalized (pending : Transcription) :
      AllReadable (finalizeTranscription now opts pending db).2 := by
    simp only [finalizeTranscription]
    split
    · exact readable
    · refine AllReadable.of_rows (readable.update ?_) rfl
      exact fun _ kept => kept
  have created (message : Message) : AllReadable (createTranscript now opts message db).2 := by
    intro row member
    rcases List.mem_append.mp member with old | new
    · exact readable row old
    · rw [List.mem_singleton] at new
      subst new
      intro translated
      cases translated
  unfold recordTranscriptionResultInTransaction
  repeat' split
  all_goals first
    | exact readable
    | exact finalized _
    | exact created _

theorem AllReadable.storesOver (readable : AllReadable db) {messageId : Id} {text : String}
    {target : Option Transcription} (lasting : ∀ row, target = some row → Lasting text)
    (stores : StoresOver now messageId (normalizeTranslationText text) target db after) :
    AllReadable after := by
  rcases stores with rfl | ⟨row, found, change, rfl, aimed, -⟩
  · exact readable
  · exact readable.storeTranslation ((lasting_iff text).mp (lasting row aimed))

theorem AllReadable.claimTranslation (readable : AllReadable db) (call : TranslationCall)
    (row : Transcription) (provider : String) (model : Option String) :
    AllReadable (claimTranslation call row provider model db).1 := by
  simp only [Pipeline.claimTranslation]
  repeat' split
  · exact readable
  · exact readable
  · apply readable.update
    intro old _ succeeded
    cases succeeded

theorem submitModeration_transcriptions (data : ModerationSubmit) :
    (submitModeration sha256 now data db).2.transcriptions = db.transcriptions := by
  have created := createVerdict_transcriptions now data.result db
  unfold submitModeration
  repeat' split
  all_goals first
    | rfl
    | simp_all

/-- A run of a transcription writes no translation. -/
theorem AllReadable.prepareTranscription (readable : AllReadable db)
    (opts : RunTranscriptionOptions) (audio : File) (latest : Option Id) :
    AllReadable (prepareTranscription now opts audio latest db).db := by
  have superseded (existing : Option Transcription) :
      AllReadable (supersedeStale now existing db) := by
    unfold supersedeStale
    split
    · exact readable
    · exact readable.update fun _ kept => kept
  simp only [Pipeline.prepareTranscription, prepareProvider, preparePush]
  repeat' split
  all_goals first
    | exact readable
    | exact readable.create rfl
    | exact (superseded _).create rfl

theorem AllReadable.failTranslation (readable : AllReadable db) (run : TranslationRun)
    (reason : String) : AllReadable (failTranslation now run reason db).db := by
  apply readable.update
  intro old _ succeeded
  cases succeeded

/-! ## Steps -/

theorem AllReadable.advance (readable : AllReadable db) {reply : Reply} {activity : Activity}
    (lasting : ∀ write, activity.translates sha256 db = some write → Lasting write.2) {out : Advanced}
    (taken : advance sha256 now reply db activity = some out) : AllReadable out.db := by
  cases activity with
  | transcribe opts =>
    simp only [Pipeline.advance] at taken
    repeat' split at taken
    all_goals cases taken
    all_goals exact readable
  | transcribeCalling run | translateCalling run | moderateCalling run =>
    cases reply <;> cases taken
    exact readable
  | transcribePrepare opts audio latest =>
    cases taken
    exact readable.prepareTranscription opts audio latest
  | transcribeFinalize run text language =>
    cases taken
    have updated : AllReadable (db.updateTranscriptions (ownPending run) fun row =>
        { row with
          status := .succeeded
          text := some text
          language
          latencyMs := some (now - run.startedAt)
          completedAt := some now }) := readable.update fun _ kept => kept
    simp only [finalizeRun]
    repeat' split
    all_goals first
      | exact readable
      | exact updated.of_rows rfl
  | transcribeCatch run reason =>
    cases taken
    exact readable.update fun _ kept => kept
  | translateDisabled call row =>
    cases taken
    apply readable.update
    intro old _ succeeded
    cases succeeded
  | translateDefer call row =>
    cases taken
    exact readable.claimTranslation call row _ _
  | translateClaim call row provider =>
    cases taken
    exact readable.claimTranslation call row _ _
  | translateFinalize run text language =>
    cases taken
    exact readable.storesOver
      (fun row target => lasting (row, text) (by simp [Activity.translates, target]))
      (storesOver_finalizeTranslation now run text language)
  | translateCatch run reason =>
    cases taken
    exact readable.failTranslation run reason
  | moderatePrepare call transcriptionId =>
    cases taken
    apply readable.of_rows
    simp only [prepareModeration, preparePushModeration, disableModeration]
    repeat' split
    all_goals rfl
  | moderateFinalize run verdict =>
    cases taken
    apply readable.of_rows
    simp only [finalizeModeration]
    repeat' split
    all_goals rfl
  | moderateCatchWrite run =>
    simp only [Pipeline.advance] at taken
    split at taken
    · cases taken
    · cases taken
      exact readable.of_rows rfl
  | recordTranscription opts deps =>
    cases taken
    have stored : AllReadable (recordTranscriptionResultInTransaction sha256 now opts db).2 :=
      readable.recordTranscription opts
    apply stored.of_rows
    unfold recordTranscriptionStep
    repeat' split
    all_goals simp_all
  | recordTranslation opts =>
    cases taken
    exact readable.storesOver
      (fun row target => lasting (row, opts.translatedText) (by simp [Activity.translates, target]))
      (storesOver_recordTranslation sha256 now opts)
  | callbackTranslationWrite data deps =>
    cases taken
    have stored : AllReadable (Pipeline.workerTranslation sha256 now data db).2 :=
      readable.storesOver
        (fun row target => lasting (row, data.translatedText) (by simp [Activity.translates, target]))
        (storesOver_workerTranslation sha256 now data)
    apply stored.of_rows
    unfold callbackStep
    repeat' split
    all_goals simp_all
  | recordModeration opts =>
    cases taken
    exact readable.of_rows (recordModeration_transcriptions opts)
  | submitVerdict data =>
    cases taken
    exact readable.of_rows (submitModeration_transcriptions data)
  | transcribeSilent | moderateAdvance | recordSilence | surface | moderateCatch =>
    cases taken
    exact readable.of_rows rfl
  | transcribeLoaded | translate | moderate | moderateCatchRead | callbackTranslation
  | submitReadBack =>
    cases taken
    exact readable

theorem AllReadable.storeParts (readable : AllReadable db) {userId : String} {id : Id}
    {result : Completion} {stored : Stored}
    (lasting : ∀ part, result.translation = some part → Lasting part.translatedText)
    (done : storeParts sha256 now userId id result db = .ok stored) : AllReadable stored.db := by
  obtain ⟨transcribed, translated, moderated, one, two, three, four, _⟩ := storeParts_ok.mp done
  have transcription : AllReadable transcribed.2 := by
    rcases optionally_ok.mp one with ⟨_, rfl⟩ | ⟨part, _, ok⟩
    · exact readable
    · have recorded : AllReadable (recordTranscriptionResultInTransaction sha256 now
          (part.result userId id) db).2 := readable.recordTranscription _
      rw [completeTranscription_ok ok]
      apply recorded.of_rows
      unfold surfaceTranscript
      split <;> rfl
  have translation : AllReadable translated.2 := by
    rcases optionally_ok.mp two with ⟨_, rfl⟩ | ⟨part, given, ok⟩
    · exact transcription
    · unfold completeTranslation at ok
      split at ok
      · rename_i recorded
        have kept := congrArg Prod.snd recorded
        cases ok
        rw [← show _ = _ from kept]
        refine transcription.storesOver ?_ (storesOver_recordTranslation sha256 now _)
        exact fun _ _ => lasting part given
      all_goals cases ok
  have moderation : AllReadable moderated.2 := by
    rcases optionally_ok.mp three with ⟨_, rfl⟩ | ⟨part, _, ok⟩
    · exact translation
    · exact translation.of_rows (completeModeration_transcriptions ok)
  rcases optionally_ok.mp four with ⟨_, same⟩ | ⟨part, _, ok⟩
  · rw [same]
    exact moderation
  · apply moderation.of_rows
    unfold completeReview at ok
    split at ok
    · cases ok
    · split at ok
      · cases ok
      · rw [← Except.ok.inj ok]
        rfl

theorem AllReadable.step {world next : World} (readable : AllReadable world.db) {action : Action}
    (lasting : action.StoresLasting sha256 world) (taken : step sha256 world action = some next) :
    AllReadable next.db := by
  cases action with
  | start activity =>
    simp only [Pipeline.step] at taken
    split at taken
    · cases taken
      exact readable
    · cases taken
  | advance job now reply =>
    simp only [Pipeline.step] at taken
    split at taken
    · cases taken
    · rename_i activity there
      obtain ⟨out, advanced, rfl⟩ := Option.map_eq_some_iff.mp taken
      rw [advanced_db]
      exact readable.advance (lasting activity there) advanced
  | throw job reason | escape job reason =>
    simp only [Pipeline.step] at taken
    split at taken
    · cases taken
    · cases taken
      rw [land_db]
      exact readable
  | crash job =>
    cases taken
    rw [land_db]
    exact readable
  | decide messageId decision notes userId now =>
    obtain ⟨db, decided, rfl⟩ := Option.map_eq_some_iff.mp taken
    apply readable.of_rows
    unfold Messages.decide at decided
    split at decided
    · cases decided
    · split at decided
      · cases decided
      · rw [← Option.some.inj decided]
        rfl
  | closeOut installationId endedAt =>
    cases taken
    exact readable.of_rows rfl
  | complete userId messageId result now =>
    simp only [Pipeline.step] at taken
    split at taken
    · cases taken
    · rename_i stored needs completed
      cases taken
      obtain ⟨_, parts, partsDone, finished, _⟩ := complete_ok.mp completed
      have extended : AllReadable (extendLease now messageId world.db) := readable.of_rows rfl
      have written : AllReadable parts.db := extended.storeParts lasting partsDone
      have last : stored.db = _ := (finishCompletion_ok finished).2
      apply written.of_rows
      simp only [last]
      rfl

/-- In every run in which each text that is stored as a translation lasts, a succeeded
translation has a text that is not blank, stored and as its readers see it. -/
theorem succeeded_translation_has_text {world : World}
    (reached : Run.ReachableUnder (step sha256) Idle
      (fun world action => action.StoresLasting sha256 world) world) :
    ∀ row ∈ world.db.transcriptions, row.translationStatus = some .succeeded →
      ∃ text, row.translatedText = some text ∧ trim text ≠ "" ∧
        normalizeTranslationText text ≠ "" := by
  have readable : AllReadable world.db :=
    reached.invariant (fun _ idle => idle.2) fun _ _ _ kept lasting => kept.step lasting
  intro row member succeeded
  obtain ⟨text, stored, read⟩ := readable row member succeeded
  exact ⟨text, stored, fun blank => read (normalizeTranslationText_of_blank blank), read⟩

/-! ## Two submissions -/

/-- A message with a transcript, as it is when its translation is submitted. -/
def spoken : World :=
  { db := {
      messages := [{ id := 1, audioId := 2 }]
      transcriptions := [{ id := 3, messageId := 1, provider := "push", status := .succeeded
                           text := some "Guten Tag", translationStatus := some .pending }]
      nextId := 4 } }

/-- The operator's route normalizes what was submitted, and hands it on. -/
def submitted (translatedText : String) : List Action :=
  [.start (.recordTranslation { messageId := 1, transcriptionId := some 3
                                translatedText := normalizeTranslationText translatedText }),
    .advance 0 5 .nothing]

/-- The worker posts its translation, with the hash of its input. -/
def posted (translatedText : String) (deps : PipelineDeps) : List Action :=
  [.start (.callbackTranslation { messageId := 1, transcriptionId := 3, inputSha256 := "Guten Tag"
                                  translatedText } deps),
    .advance 0 5 .nothing, .advance 0 5 .nothing]

def translations (world : World) : List (Option TranscriptionStatus × Option String) :=
  world.db.transcriptions.map fun row => (row.translationStatus, row.translatedText)

theorem idle_spoken : Idle spoken := by
  refine ⟨rfl, ?_⟩
  intro row member
  rw [List.mem_singleton.mp member]
  exact nofun

/-- What a worker posts, with what is stored of it. -/
theorem succeeded_translation_has_text_posted : ∃ world,
    Run.exec (step id) spoken (posted "Good day" {}) = some world ∧
      translations world = [(some .succeeded, some "Good day")] ∧
      ∀ row ∈ world.db.transcriptions, row.translationStatus = some .succeeded →
        ∃ text, row.translatedText = some text ∧ trim text ≠ "" ∧
          normalizeTranslationText text ≠ "" := by
  have lasting : Run.Along (step id) (fun world action _ => action.StoresLasting id world)
      spoken (posted "Good day" {}) := by decide +kernel
  have stored : (Run.exec (step id) spoken (posted "Good day" {})).map translations =
      some [(some .succeeded, some "Good day")] := by decide +kernel
  obtain ⟨world, ran, translated⟩ := Option.map_eq_some_iff.mp stored
  have reached : Run.ReachableUnder (step id) Idle
      (fun world action => action.StoresLasting id world) spoken := .initial idle_spoken
  exact ⟨world, ran, translated, succeeded_translation_has_text (reached.exec lasting ran)⟩

/-- An operator submits an empty code fence, and a worker an object of which the
text is one: what is stored of the first is blank, and what is read of the second. -/
theorem succeeded_translation_vanishes :
    trim "```\n```" ≠ "" ∧
      (∃ world, Run.Reachable (step id) Idle world ∧
        translations world = [(some .succeeded, some "")]) ∧
      (∃ world, Run.Reachable (step id) Idle world ∧
        translations world = [(some .succeeded, some "``````")]) ∧
      normalizeTranslationText "``````" = "" := by
  have blank : (Run.exec (step id) spoken (submitted "```\n```")).map translations =
      some [(some .succeeded, some "")] := by decide +kernel
  have fenced : (Run.exec (step id) spoken
      (posted "\x7b\"text\":\"``````\"\x7d" {})).map translations =
        some [(some .succeeded, some "``````")] := by decide +kernel
  obtain ⟨first, ran, stored⟩ := Option.map_eq_some_iff.mp blank
  obtain ⟨second, ran', stored'⟩ := Option.map_eq_some_iff.mp fenced
  exact ⟨by decide +kernel, ⟨first, Run.reachable_of_exec idle_spoken ran, stored⟩,
    ⟨second, Run.reachable_of_exec idle_spoken ran', stored'⟩, by decide +kernel⟩

end BoothOperator.Pipeline
