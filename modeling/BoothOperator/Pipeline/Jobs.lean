import BoothOperator.Pipeline.Results

/-! `lib/ai/pipeline.ts` at the granularity of its database statements: a job
is one call on its way, an activity is where it stands and what its locals
hold, and `advance` runs the next statement or transaction. What an awaited
provider or clock answers is part of the step. Reads that only feed a
broadcast are left out; their failures are the throws of the step they precede. -/
namespace BoothOperator.Pipeline

open BoothOperator.Schema
open BoothOperator.TranslationText

/-! ## Configuration and calls -/

inductive ProviderName where
  | openai | macApp | push | disabled
  deriving DecidableEq, Repr

def ProviderName.column : ProviderName → String
  | .openai => "openai"
  | .macApp => "mac_app"
  | .push => "push"
  | .disabled => "disabled"

/-- An in-process provider. -/
structure Provider where
  name : String
  model : String
  deriving DecidableEq, Repr

/-- `PipelineDeps` with the members of `config` the pipeline reads. -/
structure PipelineDeps where
  transcriptionName : ProviderName := .push
  translationName : ProviderName := .push
  moderationName : ProviderName := .push
  transcription : Option Provider := none
  translation : Option Provider := none
  moderation : Option Provider := none
  sweeperStaleThresholdSeconds : Int := 0
  maxAudioBytes : Int := 26214400

structure RunTranscriptionOptions where
  messageId : Id
  deps : PipelineDeps
  requestedByUserId : Option String := none
  skipDownstream : Bool := false

/-- The locals of `runTranscription` once its pending row exists: what its
`catch` block needs. -/
structure TranscriptionRun where
  messageId : Id
  pendingId : Id
  provider : Provider
  startedAt : Time
  skipDownstream : Bool
  deps : PipelineDeps

/-- Who awaits a translation or moderation run. -/
inductive Caller where
  | route
  | runTranscription (run : TranscriptionRun)
  | recordTranscription (transcriptionId : Id)
  | workerTranslation

structure TranslationCall where
  messageId : Id
  transcriptionId : Id
  deps : PipelineDeps
  /-- Called through `runTranslationThenModeration`. -/
  thenModerate : Bool
  caller : Caller

structure TranslationRun where
  call : TranslationCall
  row : Transcription
  provider : Provider
  startedAt : Time

structure ModerationCall where
  messageId : Id
  transcriptionId : Option Id := none
  deps : PipelineDeps
  requestedByUserId : Option String := none
  caller : Caller

/-- The locals of `runModeration` once its pending row exists. -/
structure ModerationRun where
  call : ModerationCall
  transcriptionId : Id
  pendingId : Id
  text : String
  provider : Provider
  startedAt : Time

structure ModerationVerdict where
  flagged : Bool
  recommendation : ModerationRecommendation
  maxScore : Number
  categories : List (String × Number) := []
  reasonSummary : Option String := none

/-! ## Where a job stands -/

/-- The next statement of a job, with the locals it uses. -/
inductive Activity where
  | transcribe (opts : RunTranscriptionOptions)
  | transcribeLoaded (opts : RunTranscriptionOptions) (audio : File)
  | transcribePrepare (opts : RunTranscriptionOptions) (audio : File)
      (latestSucceededAtStart : Option Id)
  | transcribeCalling (run : TranscriptionRun)
  | transcribeFinalize (run : TranscriptionRun) (text : String) (language : Option String)
  | transcribeSilent (run : TranscriptionRun)
  | transcribeCatch (run : TranscriptionRun) (reason : String)
  | translate (call : TranslationCall)
  | translateDisabled (call : TranslationCall) (row : Transcription)
  | translateDefer (call : TranslationCall) (row : Transcription)
  | translateClaim (call : TranslationCall) (row : Transcription) (provider : Provider)
  | translateCalling (run : TranslationRun)
  | translateFinalize (run : TranslationRun) (text : String) (language : String)
  | translateCatch (run : TranslationRun) (reason : String)
  | moderate (call : ModerationCall)
  | moderatePrepare (call : ModerationCall) (transcriptionId : Id)
  | moderateCalling (run : ModerationRun)
  | moderateFinalize (run : ModerationRun) (verdict : ModerationVerdict)
  | moderateAdvance (run : ModerationRun)
  | moderateCatch (run : ModerationRun) (reason : String)
  | moderateCatchRead (run : ModerationRun)
  | moderateCatchWrite (run : ModerationRun)
  | recordTranscription (opts : RecordTranscriptionResultOptions) (deps : PipelineDeps)
  | recordSilence (messageId transcriptionId : Id)
  | recordTranslation (opts : RecordTranslationResultOptions)
  | callbackTranslation (data : TranslationBody) (deps : PipelineDeps)
  | callbackTranslationWrite (data : TranslationBody) (deps : PipelineDeps)
  | recordModeration (opts : RecordModerationResultOptions)
  | submitVerdict (data : ModerationSubmit)
  | submitReadBack (messageId moderationId : Id)
  | surface (messageId moderationId : Id)

inductive TranscriptionResult where
  | created (transcriptionId : Id)
  | skipped (existingId : Option Id)
  | notFound
  deriving DecidableEq, Repr

inductive TranslationOutcome where
  | skippedEnglish
  | skippedEmptyText
  | skippedNotFound
  | succeeded
  | failed (reason : String)
  | deferred
  deriving DecidableEq, Repr

/-- What a finished job returned. -/
inductive JobResult where
  | transcription (result : TranscriptionResult)
  | translation (outcome : TranslationOutcome)
  | moderation (moderationId : Option Id)
  | recordedTranscription (outcome : RecordTranscriptionResultOutcome)
  | recordedTranslation (outcome : RecordTranslationResultOutcome)
  | callback (outcome : WorkerTranslationOutcome)
  | emptyTranslation
  | recordedModeration (outcome : RecordModerationResultOutcome)
  | noRow
  deriving DecidableEq, Repr

/-- What a caller returns when the run it awaits returns `own`. -/
def Caller.result (own : JobResult) : Caller → JobResult
  | .route => own
  | .runTranscription run => .transcription (.created run.pendingId)
  | .recordTranscription transcriptionId => .recordedTranscription (.recorded transcriptionId)
  | .workerTranslation => .callback (.recorded 1)

/-- The enclosing `try`, when there is one. -/
def Caller.handler : Caller → Option TranscriptionRun
  | .runTranscription run => some run
  | _ => none

/-- What a verdict was computed on, or the hash it was accepted with. -/
inductive VerdictInput where
  | text (value : String)
  | hash (value : String)
  deriving DecidableEq

inductive Next where
  | goto (activity : Activity)
  | done (result : JobResult)

/-- One statement's effect: the database, where the job goes on, and the
verdicts it made succeed with what they were computed on. -/
structure Advanced where
  db : Db
  next : Next
  verdicts : List (Id × VerdictInput) := []

/-- What an awaited provider answers; other statements are answered by nothing. -/
inductive Reply where
  | nothing
  | transcript (text : String) (language : Option String)
  | translation (text : String) (language : String)
  | verdict (value : ModerationVerdict)

/-! ## runTranscription -/

section Transcription

variable (now : Time)

/-- The rows of a newer transcript, or of a missing message, end the run. -/
def transcriptionStale (messageId : Id) (latestSucceededAtStart : Option Id) (db : Db) :
    Option TranscriptionResult :=
  match db.message messageId with
  | none => some .notFound
  | some _ =>
    let latest := (db.latestSucceeded messageId).map (·.id)
    if latest ≠ latestSucceededAtStart then some (.skipped latest) else none

def transcriptionRow (opts : RunTranscriptionOptions) (provider : String) (model : Option String)
    (id : Id) : Transcription where
  id
  messageId := opts.messageId
  provider
  model
  requestedById := opts.requestedByUserId
  createdAt := now

/-- The transaction of push mode. -/
def preparePush (opts : RunTranscriptionOptions) (audio : File) (db : Db) : Db × Id :=
  match pendingTranscription db opts.messageId none with
  | some existing => (db, existing.id)
  | none =>
    (db.createTranscription fun id =>
      { transcriptionRow now opts "push" none id with durationMs := audio.durationMs }, db.nextId)

def failedRow (row : Transcription) (error : String) : Transcription :=
  { row with status := .failed, error := some error, completedAt := some now }

/-- A pending row past the threshold gives way to the new attempt. -/
def supersedeStale (existing : Option Transcription) (db : Db) : Db :=
  match existing with
  | none => db
  | some stale => db.updateTranscriptions (fun row => row.id = stale.id) fun row =>
      failedRow now row "stale — superseded by newer attempt"

/-- The transaction of a run with an in-process provider. -/
def prepareProvider (opts : RunTranscriptionOptions) (provider : Provider) (audio : File)
    (db : Db) : Advanced :=
  let threshold := opts.deps.sweeperStaleThresholdSeconds * 1000
  let existing := pendingTranscription db opts.messageId none
  match existing.filter fun row => now - row.createdAt < threshold with
  | some active => ⟨db, .done (.transcription (.skipped (some active.id))), []⟩
  | none =>
    let db := supersedeStale now existing db
    let create := transcriptionRow now opts provider.name (some provider.model)
    if 0 < audio.sizeBytes ∧ opts.deps.maxAudioBytes < audio.sizeBytes then
      ⟨db.createTranscription fun id =>
          failedRow now (create id) ("audio too large: " ++ toString audio.sizeBytes ++
            " bytes exceeds " ++ toString opts.deps.maxAudioBytes ++ " limit"),
        .done (.transcription (.created db.nextId)), []⟩
    else
      ⟨db.createTranscription fun id => { create id with durationMs := audio.durationMs },
        .goto (.transcribeCalling
          { messageId := opts.messageId, pendingId := db.nextId, provider, startedAt := now
            skipDownstream := opts.skipDownstream, deps := opts.deps }), []⟩

def prepareTranscription (opts : RunTranscriptionOptions) (audio : File)
    (latestSucceededAtStart : Option Id) (db : Db) : Advanced :=
  match transcriptionStale opts.messageId latestSucceededAtStart db with
  | some result => ⟨db, .done (.transcription result), []⟩
  | none =>
    match opts.deps.transcription with
    | some provider => prepareProvider now opts provider audio db
    | none =>
      if opts.deps.transcriptionName = .push then
        let (after, pendingId) := preparePush now opts audio db
        ⟨after, .done (.transcription (.created pendingId)), []⟩
      else
        ⟨db.createTranscription fun id =>
            failedRow now
              (transcriptionRow now opts opts.deps.transcriptionName.column none id)
              "transcription provider disabled",
          .done (.transcription (.created db.nextId)), []⟩

/-- `where: { id: pending.id, status: "pending", provider: provider.name }`. -/
def ownPending (run : TranscriptionRun) (row : Transcription) : Bool :=
  row.id = run.pendingId ∧ row.status = .pending ∧ row.provider = run.provider.name

def finalizeRun (run : TranscriptionRun) (text : String) (language : Option String) (db : Db) :
    Advanced :=
  let result := Next.done (.transcription (.created run.pendingId))
  if db.transcriptions.countP (ownPending run) = 0 then ⟨db, result, []⟩
  else
    let updated := db.updateTranscriptions (ownPending run) fun row =>
      { row with
        status := .succeeded
        text := some text
        language
        latencyMs := some (now - run.startedAt)
        completedAt := some now }
    let after := supersedeByTranscription now run.messageId updated
    if run.skipDownstream then ⟨after, result, []⟩
    else if trim text = "" then ⟨after, .goto (.transcribeSilent run), []⟩
    else ⟨after, .goto (.translate
      { messageId := run.messageId, transcriptionId := run.pendingId, deps := run.deps
        thenModerate := true, caller := .runTranscription run }), []⟩

def failRun (run : TranscriptionRun) (reason : String) (db : Db) : Advanced :=
  ⟨db.updateTranscriptions (ownPending run) fun row =>
      { row with
        status := .failed
        error := some reason
        latencyMs := some (now - run.startedAt)
        completedAt := some now },
    .done (.transcription (.created run.pendingId)), []⟩

end Transcription

/-! ## runTranslation -/

section Translation

variable (now : Time)

/-- Where `runTranslationThenModeration` goes on after an outcome. -/
def TranslationCall.finish (call : TranslationCall) (outcome : TranslationOutcome) : Next :=
  if call.thenModerate then
    match outcome with
    | .deferred => .done (call.caller.result (.translation outcome))
    | _ => .goto (.moderate
      { messageId := call.messageId, transcriptionId := some call.transcriptionId
        deps := call.deps, caller := call.caller })
  else .done (call.caller.result (.translation outcome))

/-- `OR: [{ translationStatus: null }, { translationStatus: "failed" }]` on one row. -/
def unclaimed (id : Id) (row : Transcription) : Bool :=
  row.id = id ∧ (row.translationStatus = none ∨ row.translationStatus = some .failed)

/-- The read at the start, and the branches that need no write. -/
def startTranslation (call : TranslationCall) (db : Db) : Next :=
  match db.transcription call.transcriptionId with
  | none => call.finish .skippedNotFound
  | some row =>
    if transcript row = "" then call.finish .skippedEmptyText
    else if isEnglishLanguage row.language then call.finish .skippedEnglish
    else if row.translationStatus = some .succeeded then call.finish .succeeded
    else if row.translationStatus = some .pending then call.finish .deferred
    else match call.deps.translation with
      | some provider => .goto (.translateClaim call row provider)
      | none =>
        if call.deps.translationName = .push then .goto (.translateDefer call row)
        else .goto (.translateDisabled call row)

def disableTranslation (call : TranslationCall) (row : Transcription) (db : Db) : Advanced :=
  ⟨db.updateTranscriptions (unclaimed row.id) fun old =>
      { old with
        translationStatus := some .failed
        translationProvider := some call.deps.translationName.column
        translationError := some "translation provider disabled"
        translationCompletedAt := some now },
    call.finish (.failed "translation provider disabled"), []⟩

/-- The claiming transaction writes only while the row is the latest transcript. -/
def claimTranslation (call : TranslationCall) (row : Transcription) (provider : String)
    (model : Option String) (db : Db) : Db × Bool :=
  match db.message call.messageId with
  | none => (db, false)
  | some _ =>
    if (db.latestSucceeded call.messageId).map (·.id) ≠ some row.id then (db, false)
    else
      (db.updateTranscriptions (unclaimed row.id) fun old =>
        { old with
          translationStatus := some .pending
          translationProvider := some provider
          translationModel := model <|> old.translationModel },
        decide (db.transcriptions.countP (unclaimed row.id) ≠ 0))

/-- Only the run whose claim hit the row goes on to translate. -/
def claimForRun (call : TranslationCall) (row : Transcription) (provider : Provider) (db : Db) :
    Advanced :=
  let claim := claimTranslation call row provider.name (some provider.model) db
  ⟨claim.1,
    if claim.2 then .goto (.translateCalling { call, row, provider, startedAt := now })
    else call.finish .deferred, []⟩

/-- `where: { id, translationStatus: "pending", translationProvider: provider.name }`. -/
def ownTranslation (run : TranslationRun) (row : Transcription) : Bool :=
  row.id = run.row.id ∧ row.translationStatus = some .pending ∧
    row.translationProvider = some run.provider.name

def finalizeTranslation (run : TranslationRun) (text language : String) (db : Db) : Advanced :=
  let translatedText := normalizeTranslationText text
  let deferred : Advanced := ⟨db, run.call.finish .deferred, []⟩
  match db.message run.call.messageId with
  | none => deferred
  | some _ =>
    match db.transcription run.row.id, db.latestSucceeded run.call.messageId with
    | some current, some latest =>
      if latest.id ≠ current.id then deferred
      else if db.transcriptions.countP (ownTranslation run) = 0 then deferred
      else
        ⟨storeTranslation now run.call.messageId current translatedText (ownTranslation run)
            (fun row =>
              { row with
                translatedLanguage := some language
                translationLatencyMs := some (now - run.startedAt)
                translationCompletedAt := some now
                translationError := none })
            db,
          run.call.finish .succeeded, []⟩
    | _, _ => deferred

/-- The transcript the run's answer is stored over, when it is the latest and still the run's. -/
def TranslationRun.target (run : TranslationRun) (db : Db) : Option Transcription :=
  (db.message run.call.messageId).bind fun _ =>
    (db.transcription run.row.id).filter fun current =>
      (db.latestSucceeded run.call.messageId).map (·.id) = some current.id ∧
        db.transcriptions.countP (ownTranslation run) ≠ 0

theorem storesOver_finalizeTranslation (run : TranslationRun) (text language : String) {db : Db} :
    StoresOver now run.call.messageId (normalizeTranslationText text) (run.target db) db
      (finalizeTranslation now run text language db).db := by
  simp only [finalizeTranslation]
  split
  · exact .inl rfl
  rename_i there
  split
  · rename_i current latest currentFound latestFound
    split
    · exact .inl rfl
    rename_i same
    split
    · exact .inl rfl
    · rename_i owned
      rw [not_not] at same
      have target : run.target db = some current := by
        simp only [TranslationRun.target, there, currentFound, latestFound, same, owned,
          Option.bind_some, Option.filter_some, Option.map_some, Ne, not_false_eq_true, and_self,
          decide_true, if_true]
      obtain ⟨member, named⟩ := Table.findUnique_mem currentFound
      refine .inr ⟨current, _, _, rfl, target, member, by rw [latestFound, Option.map_some, same],
        fun other matched => ?_, fun _ => ⟨rfl, rfl, rfl, rfl⟩⟩
      exact (of_decide_eq_true matched).1.trans named.symm
  · exact .inl rfl

def failTranslation (run : TranslationRun) (reason : String) (db : Db) : Advanced :=
  ⟨db.updateTranscriptions (ownTranslation run) fun row =>
      { row with
        translationStatus := some .failed
        translationError := some reason
        translationLatencyMs := some (now - run.startedAt)
        translationCompletedAt := some now },
    run.call.finish (.failed reason), []⟩

end Translation

/-! ## runModeration -/

section Moderation

variable (now : Time)

def ModerationCall.finish (call : ModerationCall) (moderationId : Option Id) : Next :=
  .done (call.caller.result (.moderation moderationId))

/-- The read at the start: a succeeded transcription with text, or nothing to do. -/
def startModeration (call : ModerationCall) (db : Db) : Next :=
  let transcription := match call.transcriptionId with
    | some id => db.transcription id
    | none => db.latestSucceeded call.messageId
  match transcription with
  | none => call.finish none
  | some row =>
    if row.status ≠ .succeeded ∨ transcript row = "" then call.finish none
    else .goto (.moderatePrepare call row.id)

/-- The message row and its latest transcript, when that is still the one the
run was started for. -/
def currentTranscript (messageId transcriptionId : Id) (db : Db) : Option Transcription :=
  match db.message messageId with
  | none => none
  | some _ => (db.latestSucceeded messageId).filter fun row => row.id = transcriptionId

def moderationRow (call : ModerationCall) (transcriptionId : Id) (provider : String)
    (model : Option String) (id : Id) : Moderation where
  id
  messageId := call.messageId
  transcriptionId := some transcriptionId
  provider
  model
  requestedById := call.requestedByUserId
  createdAt := now

/-- Push mode reuses a pending row of its own provider. -/
def preparePushModeration (call : ModerationCall) (current : Transcription) (db : Db) :
    Advanced :=
  let existing := Table.latest (·.createdAt)
    (fun row : Moderation => row.messageId = call.messageId ∧
      row.transcriptionId = some current.id ∧ row.status = .pending ∧ row.provider = "push")
    db.moderations
  match existing with
  | some row => ⟨db, call.finish (some row.id), []⟩
  | none =>
    ⟨db.createModeration (moderationRow now call current.id "push" none),
      call.finish (some db.nextId), []⟩

def disableModeration (call : ModerationCall) (current : Transcription) (db : Db) : Advanced :=
  let failed := db.createModeration fun id =>
    { moderationRow now call current.id call.deps.moderationName.column none id with
      status := .failed
      error := some "moderation provider disabled"
      completedAt := some now }
  ⟨advanceMessageAfterModeration call.messageId failed, call.finish (some db.nextId), []⟩

def prepareModeration (call : ModerationCall) (transcriptionId : Id) (db : Db) : Advanced :=
  match currentTranscript call.messageId transcriptionId db with
  | none => ⟨db, call.finish none, []⟩
  | some current =>
    match call.deps.moderation with
    | none =>
      if call.deps.moderationName = .push then preparePushModeration now call current db
      else disableModeration now call current db
    | some provider =>
      if moderationText current = "" then ⟨db, call.finish none, []⟩
      else
        ⟨db.createModeration
            (moderationRow now call current.id provider.name (some provider.model)),
          .goto (.moderateCalling
            { call, transcriptionId := current.id, pendingId := db.nextId
              text := moderationText current, provider, startedAt := now }), []⟩

/-- `where: { id: pending.id, status: "pending", provider: provider.name }`. -/
def ownVerdict (run : ModerationRun) (row : Moderation) : Bool :=
  row.id = run.pendingId ∧ row.status = .pending ∧ row.provider = run.provider.name

def finalizeModeration (run : ModerationRun) (verdict : ModerationVerdict) (db : Db) : Advanced :=
  let ended : Advanced := ⟨db, run.call.finish (some run.pendingId), []⟩
  match currentTranscript run.call.messageId run.transcriptionId db with
  | none => ended
  | some _ =>
    if db.moderations.countP (ownVerdict run) = 0 then ended
    else
      ⟨db.updateModerations (ownVerdict run) fun row =>
          { row with
            status := .succeeded
            flagged := some verdict.flagged
            recommendation := some verdict.recommendation
            maxScore := some verdict.maxScore
            categories := some (categoriesColumn (some verdict.categories))
            reasonSummary := verdict.reasonSummary
            latencyMs := some (now - run.startedAt)
            completedAt := some now },
        .goto (.moderateAdvance run), [(run.pendingId, .text run.text)]⟩

/-- The transaction of the `catch` block. -/
def failModeration (run : ModerationRun) (reason : String) (db : Db) : Advanced :=
  let after := db.updateModerations (ownVerdict run) fun row =>
    { row with
      status := .failed
      error := some reason
      latencyMs := some (now - run.startedAt)
      completedAt := some now }
  ⟨after,
    if db.moderations.countP (ownVerdict run) = 0 then run.call.finish (some run.pendingId)
    else .goto (.moderateCatchRead run), []⟩

/-- The `catch` block reads the status .. -/
def readStatusAfterFailure (run : ModerationRun) (db : Db) : Next :=
  match db.message run.call.messageId with
  | none => run.call.finish (some run.pendingId)
  | some row =>
    if row.status = .received then .goto (.moderateCatchWrite run)
    else run.call.finish (some run.pendingId)

/-- .. and writes it in a statement that does not look at it again. -/
def writeStatusAfterFailure (run : ModerationRun) (db : Db) : Db :=
  db.updateMessages (fun row => row.id = run.call.messageId) fun row =>
    { row with status := .pending }

end Moderation

/-! ## Results from outside -/

section Recorded

variable (sha256 : String → String) (now : Time)

def recordTranscriptionStep (opts : RecordTranscriptionResultOptions) (deps : PipelineDeps)
    (db : Db) : Advanced :=
  match recordTranscriptionResultInTransaction sha256 now opts db with
  | (.recorded transcriptionId, after) =>
    if trim opts.text = "" then ⟨after, .goto (.recordSilence opts.messageId transcriptionId), []⟩
    else if opts.processDownstream then
      ⟨after, .goto (.translate
        { messageId := opts.messageId, transcriptionId, deps, thenModerate := true
          caller := .recordTranscription transcriptionId }), []⟩
    else ⟨after, .done (.recordedTranscription (.recorded transcriptionId)), []⟩
  | (outcome, after) => ⟨after, .done (.recordedTranscription outcome), []⟩

/-- The route refuses an empty translation and one for another message. -/
def startCallback (data : TranslationBody) (deps : PipelineDeps) (db : Db) : Next :=
  if normalizeTranslationText data.translatedText = "" then .done .emptyTranslation
  else match db.transcription data.transcriptionId with
    | none => .done (.callback .notFound)
    | some existing =>
      if existing.messageId ≠ data.messageId then .done (.callback .notFound)
      else .goto (.callbackTranslationWrite data deps)

def callbackStep (data : TranslationBody) (deps : PipelineDeps) (db : Db) : Advanced :=
  match workerTranslation sha256 now data db with
  | (.recorded count, after) =>
    if count = 0 then ⟨after, .done (.callback (.recorded 0)), []⟩
    else ⟨after, .goto (.moderate
      { messageId := data.messageId, transcriptionId := some data.transcriptionId, deps
        caller := .workerTranslation }), []⟩
  | (outcome, after) => ⟨after, .done (.callback outcome), []⟩

/-- The hash a stored verdict was accepted with, if it named one. -/
def acceptedWith (inputSha256 : Option String) (outcome : RecordModerationResultOutcome) :
    List (Id × VerdictInput) :=
  match outcome, inputSha256 with
  | .recorded verdict, some hash | .unchanged (some verdict), some hash =>
    if hash = "" then [] else [(verdict, .hash hash)]
  | _, _ => []

def recordModerationStep (opts : RecordModerationResultOptions) (db : Db) : Advanced :=
  let (outcome, after) := recordModerationResultInTransaction sha256 now opts db
  ⟨after,
    match outcome with
    | .recorded moderationId => .goto (.surface opts.messageId moderationId)
    | _ => .done (.recordedModeration outcome),
    acceptedWith opts.inputSha256 outcome⟩

def submitVerdictStep (data : ModerationSubmit) (db : Db) : Advanced :=
  let (outcome, after) := submitModeration sha256 now data db
  ⟨after,
    match outcome with
    | .recorded moderationId => .goto (.submitReadBack data.messageId moderationId)
    | _ => .done (.recordedModeration outcome),
    acceptedWith (some data.inputSha256) outcome⟩

end Recorded

/-! ## One statement -/

/-- The next statement of an activity; `none` when the reply is not one it awaits. -/
def advance (sha256 : String → String) (now : Time) (reply : Reply) (db : Db) :
    Activity → Option Advanced
  | .transcribe opts =>
    match db.message opts.messageId with
    | none => some ⟨db, .done (.transcription .notFound), []⟩
    | some message =>
      match db.file message.audioId with
      | none => none
      | some audio => some ⟨db, .goto (.transcribeLoaded opts audio), []⟩
  | .transcribeLoaded opts audio =>
    some ⟨db, .goto (.transcribePrepare opts audio
      ((db.latestSucceeded opts.messageId).map (·.id))), []⟩
  | .transcribePrepare opts audio latest => some (prepareTranscription now opts audio latest db)
  | .transcribeCalling run =>
    match reply with
    | .transcript text language => some ⟨db, .goto (.transcribeFinalize run text language), []⟩
    | _ => none
  | .transcribeFinalize run text language => some (finalizeRun now run text language db)
  | .transcribeSilent run =>
    some ⟨advanceMessageAfterModeration run.messageId db,
      .done (.transcription (.created run.pendingId)), []⟩
  | .transcribeCatch run reason => some (failRun now run reason db)
  | .translate call => some ⟨db, startTranslation call db, []⟩
  | .translateDisabled call row => some (disableTranslation now call row db)
  | .translateDefer call row =>
    some ⟨(claimTranslation call row call.deps.translationName.column none db).1,
      call.finish .deferred, []⟩
  | .translateClaim call row provider => some (claimForRun now call row provider db)
  | .translateCalling run =>
    match reply with
    | .translation text language => some ⟨db, .goto (.translateFinalize run text language), []⟩
    | _ => none
  | .translateFinalize run text language => some (finalizeTranslation now run text language db)
  | .translateCatch run reason => some (failTranslation now run reason db)
  | .moderate call => some ⟨db, startModeration call db, []⟩
  | .moderatePrepare call transcriptionId => some (prepareModeration now call transcriptionId db)
  | .moderateCalling run =>
    match reply with
    | .verdict value => some ⟨db, .goto (.moderateFinalize run value), []⟩
    | _ => none
  | .moderateFinalize run verdict => some (finalizeModeration now run verdict db)
  | .moderateAdvance run =>
    some ⟨advanceMessageAfterModeration run.call.messageId db,
      run.call.finish (some run.pendingId), []⟩
  | .moderateCatch run reason => some (failModeration now run reason db)
  | .moderateCatchRead run => some ⟨db, readStatusAfterFailure run db, []⟩
  | .moderateCatchWrite run =>
    -- `message.update` throws on a row that is gone.
    match db.message run.call.messageId with
    | none => none
    | some _ => some ⟨writeStatusAfterFailure run db, run.call.finish (some run.pendingId), []⟩
  | .recordTranscription opts deps => some (recordTranscriptionStep sha256 now opts deps db)
  | .recordSilence messageId transcriptionId =>
    some ⟨advanceMessageAfterModeration messageId db,
      .done (.recordedTranscription (.recorded transcriptionId)), []⟩
  | .recordTranslation opts =>
    let recorded := recordTranslationResultInTransaction sha256 now opts db
    some ⟨recorded.2, .done (.recordedTranslation recorded.1), []⟩
  | .callbackTranslation data deps => some ⟨db, startCallback data deps db, []⟩
  | .callbackTranslationWrite data deps => some (callbackStep sha256 now data deps db)
  | .recordModeration opts => some (recordModerationStep sha256 now opts db)
  | .submitVerdict data => some (submitVerdictStep sha256 now data db)
  | .submitReadBack messageId moderationId =>
    some ⟨db,
      match db.moderation moderationId with
      | none => .done .noRow
      | some _ => .goto (.surface messageId moderationId), []⟩
  | .surface messageId moderationId =>
    some ⟨advanceMessageAfterModeration messageId db,
      .done (.recordedModeration (.recorded moderationId)), []⟩

/-- The call an activity is part of. -/
def Activity.caller : Activity → Caller
  | .translate call | .translateDisabled call _ | .translateDefer call _
  | .translateClaim call _ _ => call.caller
  | .translateCalling run | .translateFinalize run _ _ | .translateCatch run _ => run.call.caller
  | .moderate call | .moderatePrepare call _ => call.caller
  | .moderateCalling run | .moderateFinalize run _ | .moderateAdvance run
  | .moderateCatch run _ | .moderateCatchRead run | .moderateCatchWrite run => run.call.caller
  | _ => .route

/-- Where the exception lands when it leaves the function it was thrown in:
the `catch` block of the transcription run that awaits it, if there is one. -/
def Activity.escape (activity : Activity) (reason : String) : Option Activity :=
  activity.caller.handler.map fun run => .transcribeCatch run reason

/-- Where an exception thrown by the awaited operation lands. -/
def Activity.throw (activity : Activity) (reason : String) : Option Activity :=
  match activity with
  | .transcribeCalling run | .transcribeFinalize run _ _ | .transcribeSilent run =>
    some (.transcribeCatch run reason)
  | .translateCalling run | .translateFinalize run _ _ => some (.translateCatch run reason)
  | .moderateCalling run | .moderateFinalize run _ | .moderateAdvance run =>
    some (.moderateCatch run reason)
  | other => other.escape reason

/-- The activities a request or the sweeper can begin with. -/
def Activity.isCall : Activity → Bool
  | .transcribe _ | .recordTranscription _ _ | .recordTranslation _ | .callbackTranslation _ _
  | .recordModeration _ | .submitVerdict _ => true
  | .translate call => match call.caller with
    | .route => true
    | _ => false
  | .moderate call => match call.caller with
    | .route => true
    | _ => false
  | _ => false

end BoothOperator.Pipeline
