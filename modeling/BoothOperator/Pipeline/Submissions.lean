import BoothOperator.Pipeline.Soundness

/-! The two transactions that take an operator's verdict on a transcription: the
hash-checked branch of `POST /v1/messages/:id/moderation`, and the one that the
workers' results go through. They differ in what they call a transcription that has
not succeeded, and in nothing else when the ids are spelled as they are stored. -/
namespace BoothOperator.Pipeline

open BoothOperator.Schema

/-- What became of a submission, whichever row it is about. -/
inductive OutcomeClass where
  | notFound | transcriptionNotFound | staleTranscription | staleInput | accepted
  deriving DecidableEq

def RecordModerationResultOutcome.outcomeClass : RecordModerationResultOutcome → OutcomeClass
  | .notFound => .notFound
  | .transcriptionNotFound => .transcriptionNotFound
  | .staleTranscription => .staleTranscription
  | .staleInput => .staleInput
  | .unchanged _ | .recorded _ => .accepted

/-- The submission as the shared transaction is given it. -/
def ModerationSubmit.shared (data : ModerationSubmit) : RecordModerationResultOptions :=
  { data.result with inputSha256 := some data.inputSha256 }

/-- The ids are spelled as a column returned them. -/
def ModerationSubmit.AsStored (data : ModerationSubmit) : Prop := data.shared.AsStored

/-- The transcription that is named is one of the message's that has not succeeded. -/
def NamesUnfinished (data : ModerationSubmit) (db : Db) : Prop :=
  (db.message data.messageId).isSome ∧ ∃ row, db.transcription data.transcriptionId = some row ∧
    row.messageId = data.messageId ∧ row.status ≠ .succeeded

/-- A transcription of the message is named, and its id or the message's is not spelled as a
column returned it. -/
def NamesOtherwise (data : ModerationSubmit) (db : Db) : Prop :=
  (∃ row, db.transcription data.transcriptionId = some row ∧ row.messageId = data.messageId) ∧
    ¬ data.AsStored

/-- The transactions answer in the same class and leave the same rows. -/
def SubmissionsAgree (sha256 : String → String) (now : Time) (data : ModerationSubmit) (db : Db) :
    Prop :=
  let submitted := submitModeration sha256 now data db
  let recorded := recordModerationResultInTransaction sha256 now data.shared db
  submitted.1.outcomeClass = recorded.1.outcomeClass ∧ submitted.2 = recorded.2

variable (sha256 : String → String) (now : Time) {data : ModerationSubmit} {db : Db}

/-- A pending row that is there is finalized, under its id alone as under its id and status. -/
theorem finalizeVerdict_shared (distinct : (db.moderations.map (·.id)).Nodup) {pending : Moderation}
    (member : pending ∈ db.moderations) (was : pending.status = .pending) {user : String}
    (signed : data.userId = some user) :
    finalizeVerdict now data.shared pending db =
      (.recorded pending.id, db.updateModerations (fun row => row.id = pending.id) fun row =>
        { row with
          provider := "on_device"
          model := data.model
          status := .succeeded
          flagged := some data.flagged
          recommendation := some data.recommendation
          maxScore := some data.maxScore
          categories := some (categoriesColumn data.categories)
          reasonSummary := data.reasonSummary
          latencyMs := some (now - pending.createdAt)
          completedAt := some now
          requestedById := data.userId }) := by
  have present : db.moderations.countP
      (fun row => row.id = pending.id ∧ row.status = .pending) ≠ 0 := by
    rw [Ne, List.countP_eq_zero]
    intro none
    exact none pending member (by simp [was])
  have guard (row : Moderation) (here : row ∈ db.moderations) :
      (row.id = pending.id ∧ row.status = .pending) ↔ row.id = pending.id := by
    constructor
    · exact And.left
    · intro same
      rw [Table.eq_of_key_eq distinct here member same]
      exact ⟨rfl, was⟩
  unfold finalizeVerdict
  rw [if_neg present]
  congr 1
  unfold Db.updateModerations Table.updateMany
  congr 1
  apply List.map_congr_left
  intro row here
  simp only [guard row here, ModerationSubmit.shared, ModerationSubmit.result, signed]
  cases data.model <;> rfl

/-- The named transcription is refused by both, by each in its own words. -/
theorem refused_of_namesUnfinished (distinct : (db.transcriptions.map (·.id)).Nodup)
    (spelled : data.AsStored) (unfinished : NamesUnfinished data db) :
    submitModeration sha256 now data db = (.transcriptionNotFound, db) ∧
      recordModerationResultInTransaction sha256 now data.shared db = (.staleTranscription, db) := by
  obtain ⟨present, row, found, own, running⟩ := unfinished
  obtain ⟨message, there⟩ := Option.isSome_iff_exists.mp present
  obtain ⟨member, named⟩ := Table.findUnique_mem found
  have stale : (db.latestSucceeded data.messageId).map (·.id) ≠ some data.transcriptionId := by
    intro latest
    obtain ⟨newest, isNewest, same⟩ := Option.map_eq_some_iff.mp latest
    obtain ⟨member', -, succeeded⟩ := latestSucceeded_mem isNewest
    have one : newest = row := Table.eq_of_key_eq distinct member' member (same.trans named.symm)
    exact running (one ▸ succeeded)
  constructor
  · simp [submitModeration, there, found, running]
  · have error : verdictTargetError sha256 data.shared db = some .staleTranscription := by
      have messageSpelled : data.messageIdAsStored = true := spelled.1
      simp [verdictTargetError, ModerationSubmit.shared, ModerationSubmit.result, found, own, stale,
        messageSpelled]
    unfold recordModerationResultInTransaction
    rw [show data.shared.messageId = data.messageId from rfl, there, error]

/-- Past the checks, the verdict lands on the same row with the same values. -/
theorem landed_alike (distinct : (db.moderations.map (·.id)).Nodup) {user : String}
    (signed : data.userId = some user) (spelled : data.AsStored) {message : Message}
    {row : Transcription} (there : db.message data.messageId = some message)
    (found : db.transcription data.transcriptionId = some row) (own : row.messageId = data.messageId)
    (succeeded : row.status = .succeeded)
    (latest : (db.latestSucceeded data.messageId).map (·.id) = some row.id)
    (hash : sha256 (submittedInput row) = data.inputSha256) :
    SubmissionsAgree sha256 now data db := by
  have named : row.id = data.transcriptionId := (Table.findUnique_mem found).2
  have clear : verdictTargetError sha256 data.shared db = none := by
    rw [submittedInput_eq_recordedInput] at hash
    have messageSpelled : data.messageIdAsStored = true := spelled.1
    have targetSpelled : data.transcriptionIdAsStored = true := spelled.2
    simp [verdictTargetError, ModerationSubmit.shared, ModerationSubmit.result, found, own, latest,
      named, hash, messageSpelled, targetSpelled]
  have recorded : recordModerationResultInTransaction sha256 now data.shared db =
      (pendingModeration db data.messageId (some data.transcriptionId)).elim
        (createVerdict now data.result db) fun pending =>
          finalizeVerdict now data.shared pending db := by
    unfold recordModerationResultInTransaction
    rw [show data.shared.messageId = data.messageId from rfl, there, clear,
      show data.shared.transcriptionId = some data.transcriptionId from rfl]
    cases pendingModeration db data.messageId (some data.transcriptionId) with
    | none => rfl
    | some pending => simp
  unfold SubmissionsAgree
  rw [recorded]
  simp only [submitModeration, there, found, own, succeeded, latest, hash, ne_eq,
    not_true_eq_false, or_self, if_false, named]
  cases pendingFound : pendingModeration db data.messageId (some data.transcriptionId) with
  | some pending =>
    obtain ⟨member, was, -⟩ := pendingModeration_mem pendingFound
    simp only [Option.elim_some, finalizeVerdict_shared now distinct member was signed, and_self]
  | none =>
    simp only [Option.elim_none]
    split
    · rename_i id after created
      rw [created]
      exact ⟨rfl, rfl⟩
    · exact ⟨rfl, rfl⟩

/-- The two transactions agree on every submission that is signed and names its
input, but for one that names a transcription which has not succeeded, and unless
it spells the ids of the message and its transcription otherwise. -/
theorem submissions_agree (transcriptionIds : (db.transcriptions.map (·.id)).Nodup)
    (moderationIds : (db.moderations.map (·.id)).Nodup) {user : String}
    (signed : data.userId = some user) (hashed : data.inputSha256 ≠ "") :
    (¬ NamesUnfinished data db → ¬ NamesOtherwise data db → SubmissionsAgree sha256 now data db) ∧
      (NamesUnfinished data db → data.AsStored →
        submitModeration sha256 now data db = (.transcriptionNotFound, db) ∧
        recordModerationResultInTransaction sha256 now data.shared db =
          (.staleTranscription, db)) := by
  refine ⟨?_, fun unfinished spelled =>
    refused_of_namesUnfinished sha256 now transcriptionIds spelled unfinished⟩
  intro finished alike
  cases there : db.message data.messageId with
  | none =>
    have absent : db.message data.shared.messageId = none := there
    simp [SubmissionsAgree, submitModeration, recordModerationResultInTransaction, there, absent]
  | some message =>
    have present : db.message data.shared.messageId = some message := there
    have refused {error : RecordModerationResultOutcome}
        (submitted : submitModeration sha256 now data db = (error, db))
        (recorded : verdictTargetError sha256 data.shared db = some error) :
        SubmissionsAgree sha256 now data db := by
      simp [SubmissionsAgree, submitted, recordModerationResultInTransaction, present, recorded]
    cases found : db.transcription data.transcriptionId with
    | none =>
      apply @refused .transcriptionNotFound
      · simp [submitModeration, there, found]
      · simp [verdictTargetError, ModerationSubmit.shared, ModerationSubmit.result, found]
    | some row =>
      have named : row.id = data.transcriptionId := (Table.findUnique_mem found).2
      by_cases own : row.messageId = data.messageId
      · have succeeded : row.status = .succeeded := by
          by_contra running
          exact finished ⟨by simp [there], row, found, own, running⟩
        have spelled : data.AsStored := by
          by_contra otherwise
          exact alike ⟨⟨row, found, own⟩, otherwise⟩
        have messageSpelled : data.messageIdAsStored = true := spelled.1
        have targetSpelled : data.transcriptionIdAsStored = true := spelled.2
        by_cases latest : (db.latestSucceeded data.messageId).map (·.id) = some row.id
        · by_cases hash : sha256 (submittedInput row) = data.inputSha256
          · exact landed_alike sha256 now moderationIds signed spelled there found own succeeded latest hash
          · apply @refused .staleInput
            · simp [submitModeration, there, found, own, succeeded, latest, hash]
            · rw [submittedInput_eq_recordedInput] at hash
              simp [verdictTargetError, ModerationSubmit.shared, ModerationSubmit.result, found,
                own, latest, named, hash, hashed, messageSpelled, targetSpelled]
        · apply @refused .staleTranscription
          · simp [submitModeration, there, found, own, succeeded, latest]
          · rw [named] at latest
            simp [verdictTargetError, ModerationSubmit.shared, ModerationSubmit.result, found, own,
              latest, messageSpelled]
      · apply @refused .transcriptionNotFound
        · simp [submitModeration, there, found, own]
        · simp [verdictTargetError, ModerationSubmit.shared, ModerationSubmit.result, found, own]

/-- A message with one transcription. -/
def attemptedDb (status : TranscriptionStatus) : Db :=
  { messages := [{ id := 1, audioId := 1 }]
    transcriptions := [{ id := 2, messageId := 1, provider := "local", status }] }

def volunteered : ModerationSubmit :=
  { messageId := 1, transcriptionId := 2, inputSha256 := "hash", flagged := false,
    recommendation := .approve, maxScore := 0, userId := some "ada" }

theorem submissions_agree_succeeded :
    SubmissionsAgree (fun _ => "hash") 0 volunteered (attemptedDb .succeeded) := by
  have agree := @submissions_agree (fun _ => "hash") 0 volunteered (attemptedDb .succeeded)
    (by decide) (by decide) "ada" rfl (by decide)
  apply agree.1
  · rintro ⟨-, row, found, -, running⟩
    cases found
    exact running rfl
  · rintro ⟨-, otherwise⟩
    exact otherwise ⟨rfl, rfl⟩

/-- The same verdict with the transcription's id in upper case: the route accepts it, the shared
transaction compares the texts of the ids. -/
example :
    let shouted : ModerationSubmit := { volunteered with transcriptionIdAsStored := false }
    (submitModeration (fun _ => "hash") 0 shouted (attemptedDb .succeeded)).1.outcomeClass =
        .accepted ∧
      (recordModerationResultInTransaction (fun _ => "hash") 0 shouted.shared
        (attemptedDb .succeeded)).1.outcomeClass = .staleTranscription := by
  decide

/-- A verdict on an attempt that failed is refused in two different classes. -/
theorem submissions_differ_failed :
    ¬ SubmissionsAgree (fun _ => "hash") 0 volunteered (attemptedDb .failed) := by
  rintro ⟨alike, -⟩
  cases alike

end BoothOperator.Pipeline
