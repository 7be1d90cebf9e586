import BoothOperator.Pipeline.Agreement
import BoothOperator.Pipeline.RepeatedTranscripts
import BoothOperator.Pipeline.TranscriptRuns

/-! A verdict that is delivered again, and with it the transcripts: the deliveries
after the first leave the history alone exactly where the state that the first one
met settles them. -/
namespace BoothOperator.Pipeline

open BoothOperator.Schema

def deliverVerdict (sha256 : String → String) (opts : RecordModerationResultOptions) (db : Db)
    (now : Time) : Db := (recordModerationResultInTransaction sha256 now opts db).2

/-- However often and whenever the verdict is delivered again, the history stays as
the first delivery left it. -/
def VerdictRepeats (sha256 : String → String) (first : Time) (opts : RecordModerationResultOptions)
    (db : Db) : Prop :=
  let after := deliverVerdict sha256 opts db first
  ∀ later : List Time, SameHistory (later.foldl (deliverVerdict sha256 opts) after) after

/-- The delivery finds no pending verdict and nothing to add. -/
def VerdictRecognized (opts : RecordModerationResultOptions) (db : Db) : Prop :=
  match pendingModeration db opts.messageId opts.transcriptionId with
  | some pending => opts.transcriptionId = none ∧ pending.transcriptionId ≠ none
  | none => opts.createWhenMissing = false ∨
    ∃ latest, latestModeration db opts.messageId = some latest ∧ verdictRedelivered opts latest = true

/-- The pending verdict that is next when one has been filled. -/
def nextPendingModeration (db : Db) (messageId : Id) (transcriptionId : Option Id)
    (pending : Moderation) : Option Moderation :=
  Table.latest (·.createdAt)
    (fun row => decide (row.messageId = messageId ∧
        (transcriptionId = none ∨ transcriptionId = row.transcriptionId) ∧ row.status = .pending) &&
      !decide (row.id = pending.id ∧ row.status = .pending))
    db.moderations

/-- The pending row keeps nothing of its own that the verdict lacks. -/
def TakesAll (opts : RecordModerationResultOptions) (pending : Moderation) : Prop :=
  (opts.provider ≠ none ∨ pending.provider = "push") ∧
    (opts.provider ≠ none ∨ opts.model ≠ none ∨ pending.model = none) ∧
    (opts.requestedByUserId ≠ none ∨ pending.requestedById = none)

/-- What the state before the first delivery must be like for the second to find
nothing to do: no other pending verdict is next that it could fill, and where it may
add a verdict, the row that it filled or added is the newest and says the same. -/
def VerdictSettles (first : Time) (opts : RecordModerationResultOptions) (db : Db) : Prop :=
  match pendingModeration db opts.messageId opts.transcriptionId with
  | none => opts.createWhenMissing = false ∨
    ∀ latest, latestModeration db opts.messageId = some latest →
      verdictRedelivered opts latest = true ∨ latest.createdAt < first
  | some pending =>
    match nextPendingModeration db opts.messageId opts.transcriptionId pending with
    | some next => opts.transcriptionId = none ∧ next.transcriptionId ≠ none
    | none => opts.createWhenMissing = false ∨
      ∀ latest, latestModeration db opts.messageId = some latest →
        (latest = pending → TakesAll opts pending) ∧
        (latest ≠ pending → verdictRedelivered opts latest = true)

section Verdicts

variable {sha256 : String → String} {now first : Time} {opts : RecordModerationResultOptions}
  {db : Db} {pending latest : Moderation}

/-! ## One delivery -/

/-- A verdict as it fills a pending row. -/
def filledVerdict (now : Time) (opts : RecordModerationResultOptions) (pending row : Moderation) :
    Moderation :=
  { row with
    status := .succeeded
    flagged := some opts.flagged
    recommendation := some opts.recommendation
    maxScore := some opts.maxScore
    categories := some (categoriesColumn opts.categories)
    reasonSummary := opts.reasonSummary
    model := opts.model <|> (if opts.provider = none then pending.model else none)
    provider := opts.provider.getD row.provider
    latencyMs := some (now - pending.createdAt)
    completedAt := some now
    requestedById := opts.requestedByUserId <|> row.requestedById }

def filledVerdictDb (now : Time) (opts : RecordModerationResultOptions) (pending : Moderation)
    (db : Db) : Db :=
  db.updateModerations (fun row => row.id = pending.id ∧ row.status = .pending)
    (filledVerdict now opts pending)

theorem finalizeVerdict_filled (member : pending ∈ db.moderations) (was : pending.status = .pending) :
    finalizeVerdict now opts pending db = (.recorded pending.id, filledVerdictDb now opts pending db) := by
  have present : db.moderations.countP
      (fun row => row.id = pending.id ∧ row.status = .pending) ≠ 0 := by
    rw [Ne, List.countP_eq_zero]
    intro none
    exact none pending member (by simp [was])
  unfold finalizeVerdict
  rw [if_neg present]
  rfl

/-- Past the checks on its transcription, a verdict fills a pending row or is left to be added. -/
theorem recordModeration_checked {message : Message}
    (there : db.message opts.messageId = some message)
    (clear : verdictTargetError sha256 opts db = none) :
    recordModerationResultInTransaction sha256 now opts db =
      match pendingModeration db opts.messageId opts.transcriptionId with
      | none => createVerdict now opts db
      | some pending =>
        if opts.transcriptionId = none ∧ pending.transcriptionId ≠ none then
          (.staleTranscription, db)
        else finalizeVerdict now opts pending db := by
  cases found : pendingModeration db opts.messageId opts.transcriptionId with
  | none => simp [recordModerationResultInTransaction, there, clear, found]
  | some pending => simp [recordModerationResultInTransaction, there, clear, found]

/-- A verdict that is accepted has passed the checks on its transcription. -/
theorem checked_of_accepted
    (accepted : Accepted (recordModerationResultInTransaction sha256 now opts db).1) :
    (∃ message, db.message opts.messageId = some message) ∧
      verdictTargetError sha256 opts db = none := by
  unfold recordModerationResultInTransaction at accepted
  cases there : db.message opts.messageId with
  | none =>
    simp only [there] at accepted
    exact accepted.elim
  | some message =>
    refine ⟨⟨message, rfl⟩, ?_⟩
    simp only [there] at accepted
    cases error : verdictTargetError sha256 opts db with
    | none => rfl
    | some outcome =>
      simp only [error] at accepted
      have refused : ¬ Accepted outcome := by
        unfold verdictTargetError at error
        repeat' split at error
        all_goals
          cases error
          try exact id
      exact absurd accepted refused

/-! ## Deliveries that change nothing -/

theorem createVerdict_of_known (known : opts.createWhenMissing = false ∨
    ∃ latest, latestModeration db opts.messageId = some latest ∧
      verdictRedelivered opts latest = true) : (createVerdict now opts db).2 = db := by
  unfold createVerdict
  rcases known with missing | ⟨latest, newest, again⟩
  · simp [missing]
  · by_cases missing : opts.createWhenMissing
    · have kept : (latestModeration db opts.messageId).filter (verdictRedelivered opts) =
          some latest := by
        rw [newest, Option.filter_some, if_pos again]
      rw [if_pos missing, kept]
    · simp [missing]

/-- What is not known already is added. -/
theorem known_of_kept (kept : (createVerdict now opts db).2.moderations = db.moderations) :
    opts.createWhenMissing = false ∨ ∃ latest, latestModeration db opts.messageId = some latest ∧
      verdictRedelivered opts latest = true := by
  by_contra unknown
  rw [not_or, Bool.not_eq_false, not_exists] at unknown
  obtain ⟨missing, fresh⟩ := unknown
  have none : (latestModeration db opts.messageId).filter (verdictRedelivered opts) = none := by
    rw [Option.filter_eq_none_iff]
    intro latest newest again
    exact fresh latest ⟨newest, again⟩
  unfold createVerdict at kept
  rw [if_pos missing, none] at kept
  have longer := congrArg List.length kept
  simp [Db.createModeration] at longer

theorem deliverVerdict_of_recognized (recognized : VerdictRecognized opts db) :
    deliverVerdict sha256 opts db now = db := by
  unfold deliverVerdict
  cases there : db.message opts.messageId with
  | none => simp [recordModerationResultInTransaction, there]
  | some message =>
    cases error : verdictTargetError sha256 opts db with
    | some outcome => simp [recordModerationResultInTransaction, there, error]
    | none =>
      rw [recordModeration_checked there error]
      unfold VerdictRecognized at recognized
      cases found : pendingModeration db opts.messageId opts.transcriptionId with
      | some pending =>
        simp only [found] at recognized
        simp [recognized]
      | none =>
        simp only [found] at recognized
        exact createVerdict_of_known recognized

theorem verdictRecognized_of_kept {message : Message}
    (there : db.message opts.messageId = some message)
    (clear : verdictTargetError sha256 opts db = none)
    (kept : (deliverVerdict sha256 opts db now).moderations = db.moderations) :
    VerdictRecognized opts db := by
  unfold deliverVerdict at kept
  rw [recordModeration_checked there clear] at kept
  unfold VerdictRecognized
  cases found : pendingModeration db opts.messageId opts.transcriptionId with
  | none =>
    simp only [found] at kept
    exact known_of_kept kept
  | some pending =>
    simp only [found] at kept
    by_contra free
    rw [if_neg free] at kept
    obtain ⟨member, was, -⟩ := pendingModeration_mem found
    rw [finalizeVerdict_filled member was] at kept
    have still : pending ∈ Table.updateMany
        (fun row => row.id = pending.id ∧ row.status = .pending) (filledVerdict now opts pending)
          db.moderations := by
      rw [← kept] at member
      exact member
    obtain ⟨old, -, same⟩ := Table.mem_updateMany.mp still
    by_cases matched : old.id = pending.id ∧ old.status = .pending
    · rw [if_pos (decide_eq_true matched)] at same
      rw [same] at was
      cases was
    · rw [if_neg (by simp [matched])] at same
      subst same
      exact matched ⟨rfl, was⟩

theorem verdictRepeats_iff
    (accepted : Accepted (recordModerationResultInTransaction sha256 first opts db).1) :
    VerdictRepeats sha256 first opts db ↔
      VerdictRecognized opts (deliverVerdict sha256 opts db first) := by
  obtain ⟨⟨message, there⟩, clear⟩ := checked_of_accepted accepted
  constructor
  · intro later
    have present : (deliverVerdict sha256 opts db first).message opts.messageId = some message := by
      rw [← there]
      unfold Db.message deliverVerdict
      rw [recordModeration_messages]
    have same : (deliverVerdict sha256 opts db first).transcriptions = db.transcriptions :=
      recordModeration_transcriptions opts
    have unchecked : verdictTargetError sha256 opts (deliverVerdict sha256 opts db first) = none := by
      rw [← clear]
      unfold verdictTargetError Db.transcription Db.latestSucceeded
      rw [same]
    exact verdictRecognized_of_kept present unchecked (later [first]).2
  · intro recognized later
    rw [List.foldl_fixed' fun _ => deliverVerdict_of_recognized recognized]
    exact ⟨rfl, rfl⟩

/-! ## After the first delivery -/

theorem latestModeration_filledVerdictDb :
    latestModeration (filledVerdictDb now opts pending db) opts.messageId =
      (latestModeration db opts.messageId).map fun row =>
        if row.id = pending.id ∧ row.status = .pending then filledVerdict now opts pending row
        else row := by
  have updated := @Table.latest_updateMany Moderation Time _ (·.createdAt)
    (fun row => row.id = pending.id ∧ row.status = .pending)
    (fun row => row.messageId = opts.messageId) (filledVerdict now opts pending)
    (fun _ => rfl) (fun _ => rfl) db.moderations
  simpa [latestModeration, filledVerdictDb, Db.updateModerations] using updated

/-- The pending verdict that is left is the next one. -/
theorem pendingModeration_filledVerdictDb :
    pendingModeration (filledVerdictDb now opts pending db) opts.messageId opts.transcriptionId =
      nextPendingModeration db opts.messageId opts.transcriptionId pending := by
  have dropped := @Table.latest_updateMany_dropped Moderation Time _ (·.createdAt)
    (fun row => row.id = pending.id ∧ row.status = .pending)
    (fun row => row.messageId = opts.messageId ∧
      (opts.transcriptionId = none ∨ opts.transcriptionId = row.transcriptionId) ∧
        row.status = .pending)
    (filledVerdict now opts pending) (by simp [filledVerdict]) db.moderations
  exact dropped

theorem verdictRedelivered_filled (target : pending.transcriptionId = opts.transcriptionId) :
    verdictRedelivered opts (filledVerdict now opts pending pending) = true ↔
      TakesAll opts pending := by
  simp only [verdictRedelivered, filledVerdict, TakesAll, target, categoriesMatch_column, true_and,
    decide_eq_true_eq]
  cases opts.provider with
  | none =>
    cases opts.model with
    | none =>
      cases opts.requestedByUserId with
      | none => simp
      | some user => simp
    | some model =>
      cases opts.requestedByUserId with
      | none => simp
      | some user => simp
  | some provider =>
    cases opts.model with
    | none =>
      cases opts.requestedByUserId with
      | none => simp
      | some user => simp
    | some model =>
      cases opts.requestedByUserId with
      | none => simp
      | some user => simp

theorem recognized_filledVerdictDb (distinct : (db.moderations.map (·.id)).Nodup)
    (found : pendingModeration db opts.messageId opts.transcriptionId = some pending)
    (free : ¬ (opts.transcriptionId = none ∧ pending.transcriptionId ≠ none)) :
    VerdictRecognized opts (filledVerdictDb now opts pending db) ↔ VerdictSettles first opts db := by
  obtain ⟨member, was, target⟩ := pendingModeration_mem found
  have own : pending.messageId = opts.messageId := by
    have matched := (Table.latest_mem found).2
    exact (of_decide_eq_true matched).1
  have sameTarget : pending.transcriptionId = opts.transcriptionId := by
    rcases target with untargeted | same
    · by_contra other
      apply free
      refine ⟨untargeted, ?_⟩
      rw [← untargeted]
      exact other
    · exact same.symm
  obtain ⟨latest, newest⟩ : ∃ latest, latestModeration db opts.messageId = some latest := by
    rw [← Option.ne_none_iff_exists']
    intro none
    exact Table.latest_eq_none.mp none pending member (decide_eq_true own)
  unfold VerdictRecognized VerdictSettles
  rw [pendingModeration_filledVerdictDb, found]
  simp only
  cases nextPendingModeration db opts.messageId opts.transcriptionId pending with
  | some next => rfl
  | none =>
    simp only [latestModeration_filledVerdictDb, newest, Option.map_some, Option.some.injEq,
      exists_eq_left', forall_eq']
    apply or_congr_right
    by_cases same : latest = pending
    · subst same
      simp [was, verdictRedelivered_filled sameTarget]
    · have apart : ¬ (latest.id = pending.id ∧ latest.status = .pending) := fun matched =>
        same (Table.eq_of_key_eq distinct (Table.latest_mem newest).1 member matched.1)
      rw [if_neg apart]
      simp [same]

theorem verdictRedelivered_verdictRow (id : Id) :
    verdictRedelivered opts (verdictRow now opts id) = true := by
  simp [verdictRedelivered, verdictRow, categoriesMatch_column]

theorem recognized_createVerdict
    (found : pendingModeration db opts.messageId opts.transcriptionId = none) :
    VerdictRecognized opts (createVerdict first opts db).2 ↔ VerdictSettles first opts db := by
  unfold VerdictSettles
  rw [found]
  by_cases missing : opts.createWhenMissing
  · by_cases known : ∃ latest, latestModeration db opts.messageId = some latest ∧
        verdictRedelivered opts latest = true
    · rw [createVerdict_of_known (Or.inr known)]
      obtain ⟨latest, newest, again⟩ := known
      unfold VerdictRecognized
      rw [found]
      simp [newest, again]
    · have none : (latestModeration db opts.messageId).filter (verdictRedelivered opts) = none := by
        rw [Option.filter_eq_none_iff]
        intro latest newest again
        exact known ⟨latest, newest, again⟩
      have rows : (createVerdict first opts db).2.moderations =
          db.moderations ++ [verdictRow first opts db.nextId] := by
        unfold createVerdict
        rw [if_pos missing, none]
        rfl
      have pendings : pendingModeration (createVerdict first opts db).2 opts.messageId
          opts.transcriptionId = .none := by
        apply Table.latest_eq_none.mpr
        rw [rows]
        intro row member matched
        rcases List.mem_append.mp member with before | new
        · exact Table.latest_eq_none.mp found row before matched
        · rw [List.mem_singleton.mp new] at matched
          simp [verdictRow] at matched
      have newest : latestModeration (createVerdict first opts db).2 opts.messageId =
          match latestModeration db opts.messageId with
          | .none => some (verdictRow first opts db.nextId)
          | some row => if row.createdAt < first then some (verdictRow first opts db.nextId)
              else some row := by
        unfold latestModeration Table.latest
        rw [rows, List.filter_append, List.filter_cons_of_pos (by simp [verdictRow]),
          List.filter_nil, Table.newest_append_single]
        cases Table.newest (·.createdAt)
            (db.moderations.filter fun row => row.messageId = opts.messageId) with
        | none => rfl
        | some row => rfl
      unfold VerdictRecognized
      rw [pendings]
      simp only [missing, Bool.true_eq_false, false_or, newest]
      cases before : latestModeration db opts.messageId with
      | none => simp [verdictRedelivered_verdictRow]
      | some latest =>
        have again : verdictRedelivered opts latest = false := by
          rw [← Bool.not_eq_true]
          exact fun same => known ⟨latest, before, same⟩
        by_cases above : latest.createdAt < first
        · simp [above, verdictRedelivered_verdictRow]
        · simp [above, again]
  · have skipped : opts.createWhenMissing = false := by simpa using missing
    rw [createVerdict_of_known (Or.inl skipped)]
    unfold VerdictRecognized
    rw [found]
    simp [skipped]

/-- A verdict that was accepted can be delivered again exactly where it settles. -/
theorem verdictRepeats_iff_settles (distinct : (db.moderations.map (·.id)).Nodup)
    (accepted : Accepted (recordModerationResultInTransaction sha256 first opts db).1) :
    VerdictRepeats sha256 first opts db ↔ VerdictSettles first opts db := by
  obtain ⟨⟨message, there⟩, clear⟩ := checked_of_accepted accepted
  rw [verdictRepeats_iff accepted]
  rw [recordModeration_checked there clear] at accepted
  unfold deliverVerdict
  rw [recordModeration_checked there clear]
  cases found : pendingModeration db opts.messageId opts.transcriptionId with
  | none => exact recognized_createVerdict found
  | some pending =>
    simp only [found] at accepted
    by_cases stale : opts.transcriptionId = none ∧ pending.transcriptionId ≠ none
    · rw [if_pos stale] at accepted
      exact accepted.elim
    · obtain ⟨member, was, -⟩ := pendingModeration_mem found
      simp only [if_neg stale, finalizeVerdict_filled member was]
      exact recognized_filledVerdictDb distinct found stale

end Verdicts

/-- Results that are accepted can be delivered again, however often, exactly where
the state that the first delivery meets settles them. -/
theorem redelivery_settles (sha256 : String → String) (first : Time) {db : Db}
    (transcriptionIds : (db.transcriptions.map (·.id)).Nodup)
    (moderationIds : (db.moderations.map (·.id)).Nodup) :
    (∀ opts, (recordTranscriptionResultInTransaction sha256 first opts db).1.Accepted →
      (TranscriptRepeats sha256 first opts db ↔ TranscriptSettles sha256 first opts db)) ∧
    (∀ opts, Accepted (recordModerationResultInTransaction sha256 first opts db).1 →
      (VerdictRepeats sha256 first opts db ↔ VerdictSettles first opts db)) := by
  constructor
  · intro opts accepted
    exact transcriptRepeats_iff_settles transcriptionIds accepted
  · intro opts accepted
    exact verdictRepeats_iff_settles moderationIds accepted

/-- An attempt that is left to a push worker. -/
def leftAttempt : Transcription := { id := 2, messageId := 1, provider := "push", createdAt := 10 }

def leftDb : Db := { messages := [{ id := 1, audioId := 1 }], transcriptions := [leftAttempt] }

/-- A later attempt that has failed while the first is still left to the worker. -/
def failedAttempt : Transcription :=
  { id := 3, messageId := 1, provider := "local", status := .failed, createdAt := 20 }

def overtakenDb : Db :=
  { leftDb with transcriptions := [leftAttempt, failedAttempt], nextId := 4 }

/-- A transcript from an operator's device. -/
def deviceTranscript : RecordTranscriptionResultOptions :=
  { messageId := 1, text := "hallo", provider := some .onDevice, requestedByUserId := some "ada" }

/-- A transcript that is awaited, and then a verdict on it that is. -/
def judgedDb : Db :=
  { leftDb with
    transcriptions := [{ leftAttempt with status := .succeeded, text := some "hallo" }]
    moderations := [{ id := 5, messageId := 1, transcriptionId := some 2, provider := "push" }] }

def workerVerdict : RecordModerationResultOptions :=
  { messageId := 1, transcriptionId := some 2, flagged := false, recommendation := .approve,
    maxScore := 0, createWhenMissing := false }

theorem redelivery_settles_left :
    TranscriptRepeats id 30 deviceTranscript leftDb ∧ VerdictRepeats id 30 workerVerdict judgedDb := by
  constructor
  · have settles := @redelivery_settles id 30 leftDb (by decide) (by decide)
    apply (settles.1 deviceTranscript trivial).mpr
    right
    right
    constructor
    · intro row member _ _
      exact List.mem_singleton.mp member
    · intro latest newest
      cases newest
      exact ⟨fun _ => Or.inl (by decide), fun other => absurd rfl other⟩
  · have settles := @redelivery_settles id 30 judgedDb (by decide) (by decide)
    apply (settles.2 workerVerdict trivial).mpr
    exact Or.inl rfl

/-- The transcript fills the first attempt, and is not known again beside the second. -/
theorem redelivery_duplicates :
    (recordTranscriptionResultInTransaction id 30 deviceTranscript overtakenDb).1.Accepted ∧
      ¬ TranscriptRepeats id 30 deviceTranscript overtakenDb := by
  refine ⟨trivial, ?_⟩
  rintro ⟨later, -⟩
  have longer : 3 = 2 := congrArg List.length (later [40]).1
  cases longer

end BoothOperator.Pipeline
