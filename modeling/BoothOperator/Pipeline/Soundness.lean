import BoothOperator.Pipeline.Verdicts

/-! Every transaction that stores an AI result keeps the verdicts sound, one
lemma for each. The translation writers need their text to be safe over the
row they replace; the others need nothing. -/
namespace BoothOperator.Pipeline

open BoothOperator.Schema
open BoothOperator.TranslationText

variable {sha256 : String → String} {now : Time} {db : Db}
  {verdicts flights : List (Id × VerdictInput)}

theorem latestSucceeded_mem {messageId : Id} {row : Transcription}
    (latest : db.latestSucceeded messageId = some row) :
    row ∈ db.transcriptions ∧ row.messageId = messageId ∧ row.status = .succeeded := by
  obtain ⟨member, found⟩ := Table.latest_mem latest
  exact ⟨member, by simpa using found⟩

/-! ## Transcripts -/

theorem Sound.finalizeTranscription (sound : Sound sha256 db verdicts flights)
    (opts : RecordTranscriptionResultOptions) (pending : Transcription) :
    Sound sha256 (finalizeTranscription now opts pending db).2 verdicts flights := by
  simp only [Pipeline.finalizeTranscription]
  split
  · exact sound
  · refine (sound.updateTranscriptions ?_ ?_ ?_ ?_).supersede now _ _
    · exact fun _ => rfl
    · exact fun _ => rfl
    · exact fun _ _ _ _ => rfl
    · intro row _ matched succeeded
      simp only [decide_eq_true_eq] at matched
      exact absurd (succeeded.symm.trans matched.2) (by decide)

theorem Sound.createTranscript (sound : Sound sha256 db verdicts flights)
    (opts : RecordTranscriptionResultOptions) (message : Message) :
    Sound sha256 (createTranscript now opts message db).2 verdicts flights :=
  (sound.createTranscription (fun _ => rfl) fun _ => rfl).supersede now _ _

theorem Sound.recordTranscription (sound : Sound sha256 db verdicts flights) (now : Time)
    (opts : RecordTranscriptionResultOptions) :
    Sound sha256 (recordTranscriptionResultInTransaction sha256 now opts db).2 verdicts flights := by
  unfold recordTranscriptionResultInTransaction
  repeat' split
  all_goals first
    | exact sound
    | exact sound.finalizeTranscription opts _
    | exact sound.createTranscript opts _

/-! ## Translations -/

/-- No reader sees a live verdict's text replaced by one the writer takes for the same. -/
def SafeTranslation (db : Db) (row : Transcription) (text : String) : Prop :=
  SafeOver row text ∨ Untargeted db row

instance (db : Db) (row : Transcription) (text : String) :
    Decidable (SafeTranslation db row text) := inferInstanceAs (Decidable (_ ∨ _))

/-- A safe translation of a message's succeeded transcript: where the texts
differ no live verdict is left, and where they agree nothing changes. -/
theorem Sound.storeTranslation (sound : Sound sha256 db verdicts flights) {row : Transcription}
    (member : row ∈ db.transcriptions) (succeeded : row.status = .succeeded) {text : String}
    (safe : SafeTranslation db row text) (trimmed : trim text = text) {found : Transcription → Bool}
    {change : Transcription → Transcription} (own : ∀ other, found other = true → other.id = row.id)
    (kept : ∀ other, (change other).id = other.id ∧ (change other).messageId = other.messageId ∧
      (change other).status = other.status ∧ (change other).text = other.text) :
    Sound sha256 (storeTranslation now row.messageId row text found change db) verdicts flights := by
  have same (other : Transcription) (there : other ∈ db.transcriptions)
      (matched : found other = true) : other = row :=
    Table.eq_of_key_eq sound.transcriptionIds there member (own other matched)
  have stays (other : Transcription) (there : other ∈ db.transcriptions)
      (matched : found other = true) :
      (withTranslation (change other) text).status = .succeeded := by
    obtain rfl := same other there matched
    exact (kept other).2.2.1.trans succeeded
  simp only [Pipeline.storeTranslation]
  split
  · rename_i differs
    refine (sound.supersede now _ _).updateTranscriptions (fun other => (kept other).1)
      (fun other => (kept other).2.1) (fun other there matched _ => stays other there matched)
      fun other there matched _ => .inl ?_
    obtain rfl := same other there matched
    intro verdict present live refers
    obtain ⟨before, was, rfl⟩ := Table.mem_updateMany.mp present
    split at live
    · exact absurd live (by simp [Live])
    · rename_i unselected
      rw [if_neg unselected] at refers
      have message := (sound.target_row member was live refers).1
      exact unselected (by simp [message, refers, live])
  · rename_i agrees
    rw [not_not] at agrees
    refine sound.updateTranscriptions (fun other => (kept other).1)
      (fun other => (kept other).2.1) (fun other there matched _ => stays other there matched)
      fun other there matched _ => ?_
    obtain rfl := same other there matched
    rcases safe with alike | untargeted
    · refine .inr ⟨stays other there matched, ?_⟩
      rw [← moderationText_withTranslation alike trimmed agrees]
      exact moderationText_congr (kept other).2.2.2 rfl rfl
    · exact .inl untargeted

theorem Sound.storesOver (sound : Sound sha256 db verdicts flights) {messageId : Id} {text : String}
    {target : Option Transcription} {after : Db}
    (safe : ∀ row, target = some row → SafeTranslation db row (normalizeTranslationText text))
    (stores : StoresOver now messageId (normalizeTranslationText text) target db after) :
    Sound sha256 after verdicts flights := by
  rcases stores with rfl | ⟨row, found, change, rfl, aimed, member, newest, own, kept⟩
  · exact sound
  · obtain ⟨latest, isLatest, sameId⟩ := Option.map_eq_some_iff.mp newest
    obtain ⟨there, message, succeeded⟩ := latestSucceeded_mem isLatest
    obtain rfl : latest = row := Table.eq_of_key_eq sound.transcriptionIds there member sameId
    rw [← message]
    exact sound.storeTranslation member succeeded (safe latest aimed)
      (trim_normalizeTranslationText _) own kept

/-! ## Verdicts -/

/-- The latest transcript, which alone can be moderated, is legible. -/
def LegibleForLatest (db : Db) (messageId : Id) : Prop :=
  ∀ row, db.latestSucceeded messageId = some row → Legible row

instance (db : Db) (messageId : Id) : Decidable (LegibleForLatest db messageId) :=
  inferInstanceAs (Decidable (∀ row ∈ db.latestSucceeded messageId, Legible row))

/-- A result that is accepted with its input is for a legible transcript. -/
def LegibleInput (sha256 : String → String) (db : Db) (opts : RecordModerationResultOptions) : Prop :=
  opts.Accepted sha256 db → (∃ hash, opts.inputSha256 = some hash ∧ hash ≠ "") →
    LegibleForLatest db opts.messageId

instance (sha256 : String → String) (db : Db) (opts : RecordModerationResultOptions) :
    Decidable (LegibleInput sha256 db opts) :=
  decidable_of_iff (opts.Accepted sha256 db → opts.inputSha256.any (· ≠ "") = true →
    LegibleForLatest db opts.messageId) <| by
    simp [LegibleInput, Option.any_eq_true]

/-- The transcript a result names is the message's, succeeded, and reads as
the input the result was computed on. -/
def TargetChecked (sha256 : String → String) (db : Db) (messageId : Id)
    (transcriptionId : Option Id) (inputSha256 : Option String) : Prop :=
  ∀ id, transcriptionId = some id → ∃ row ∈ db.transcriptions,
    row.id = id ∧ row.messageId = messageId ∧ row.status = .succeeded ∧
      ∀ hash, inputSha256 = some hash → hash ≠ "" → sha256 (moderationText row) = hash

theorem targetChecked_of_no_error (sound : Sound sha256 db verdicts flights)
    {opts : RecordModerationResultOptions}
    (legible : opts.transcriptionId ≠ none → (∃ hash, opts.inputSha256 = some hash ∧ hash ≠ "") →
      LegibleForLatest db opts.messageId)
    (checked : verdictTargetError sha256 opts db = none) :
    TargetChecked sha256 db opts.messageId opts.transcriptionId opts.inputSha256 := by
  intro id named
  unfold verdictTargetError at checked
  rw [named] at checked
  simp only at checked
  split at checked
  · cases checked
  rename_i row found
  split at checked
  · cases checked
  split at checked
  · cases checked
  rename_i latest
  rw [not_or, not_not, Option.map_eq_some_iff] at latest
  obtain ⟨⟨newest, found', same⟩, -⟩ := latest
  obtain ⟨member, sameId⟩ := Table.findUnique_mem found
  obtain ⟨present, message, succeeded⟩ := latestSucceeded_mem found'
  obtain rfl : newest = row :=
    Table.eq_of_key_eq sound.transcriptionIds present member (same.trans sameId.symm)
  refine ⟨newest, member, sameId, message, succeeded, fun hash given nonempty => ?_⟩
  rw [← recordedInput_eq_moderationText (legible (by simp [named]) ⟨hash, given, nonempty⟩ _ found')]
  rw [given] at checked
  simp only at checked
  split at checked
  · rename_i accepted
    exact accepted.resolve_left nonempty
  · cases checked

/-- A verdict on a checked target is backed by the hash it was accepted with. -/
theorem backed_of_checked (sound : Sound sha256 db verdicts flights) {after : Db}
    {messageId : Id} {transcriptionId : Option Id} {hash : String} {verdictId : Id}
    {status : TranscriptionStatus}
    (checked : TargetChecked sha256 db messageId transcriptionId (some hash))
    (nonempty : hash ≠ "") (same : after.transcriptions = db.transcriptions)
    (targets : ∀ verdict ∈ after.moderations, verdict.id = verdictId →
      verdict.transcriptionId = transcriptionId) :
    Backed sha256 after status (verdictId, .hash hash) := by
  intro verdict member sameId _ row present refers
  rw [same] at present
  obtain ⟨target, there, id, _, _, accepted⟩ :=
    checked row.id ((targets verdict member sameId).symm.trans refers)
  obtain rfl := Table.eq_of_key_eq sound.transcriptionIds there present id
  exact accepted hash rfl nonempty

/-- The entry an outcome adds is sound once the outcome's verdict is. -/
theorem Sound.accepted {after : Db} (sound : Sound sha256 after verdicts flights)
    {inputSha256 : Option String} {outcome : RecordModerationResultOutcome}
    (entry : ∀ verdictId hash, inputSha256 = some hash → hash ≠ "" →
      (outcome = .recorded verdictId ∨ outcome = .unchanged (some verdictId)) →
        verdictId < after.nextId ∧
        (∀ verdict ∈ after.moderations, verdict.id = verdictId → verdict.status ≠ .pending) ∧
        Backed sha256 after .succeeded (verdictId, .hash hash)) :
    Sound sha256 after (acceptedWith inputSha256 outcome ++ verdicts) flights := by
  unfold acceptedWith
  split
  · rename_i verdictId hash
    split
    · exact sound
    · rename_i nonempty
      obtain ⟨bound, ended, backed⟩ := entry verdictId hash rfl nonempty (.inl rfl)
      exact sound.accept bound ended backed
  · rename_i verdictId hash
    split
    · exact sound
    · rename_i nonempty
      obtain ⟨bound, ended, backed⟩ := entry verdictId hash rfl nonempty (.inr rfl)
      exact sound.accept bound ended backed
  · exact sound

theorem targets_of_unique {rows : List Moderation} (distinct : (rows.map (·.id)).Nodup)
    {row : Moderation} (member : row ∈ rows) :
    ∀ verdict ∈ rows, verdict.id = row.id → verdict = row :=
  fun _ there same => Table.eq_of_key_eq distinct there member same

/-- A verdict row of its own, or the latest one delivered again. -/
theorem Sound.createVerdict (sound : Sound sha256 db verdicts flights) (now : Time)
    {opts : RecordModerationResultOptions} {inputSha256 : Option String}
    (checked : TargetChecked sha256 db opts.messageId opts.transcriptionId inputSha256) :
    Sound sha256 (createVerdict now opts db).2
      (acceptedWith inputSha256 (createVerdict now opts db).1 ++ verdicts) flights := by
  unfold Pipeline.createVerdict
  split
  · split
    · rename_i latest found
      obtain ⟨newest, redelivered⟩ := Option.filter_eq_some_iff.mp found
      have member : latest ∈ db.moderations := (Table.latest_mem newest).1
      simp only [verdictRedelivered, decide_eq_true_eq] at redelivered
      refine sound.accepted fun verdictId hash given nonempty outcome => ?_
      obtain rfl : latest.id = verdictId := by simpa using outcome
      refine ⟨sound.moderationBound latest member, fun verdict there same pending => ?_, ?_⟩
      · rw [targets_of_unique sound.moderationIds member verdict there same, redelivered.1]
          at pending
        cases pending
      · refine backed_of_checked sound (given ▸ checked) nonempty rfl fun verdict there same => ?_
        rw [targets_of_unique sound.moderationIds member verdict there same]
        exact redelivered.2.1
    · have created : Sound sha256 (db.createModeration (verdictRow now opts)) verdicts flights := by
        refine sound.createModeration ?_ ?_
        · exact fun _ => rfl
        · intro id named
          obtain ⟨row, member, same, message, succeeded, _⟩ := checked id named
          exact ⟨row, member, same, message, succeeded⟩
      have member : verdictRow now opts db.nextId ∈
          (db.createModeration (verdictRow now opts)).moderations :=
        List.mem_append_right _ (List.mem_singleton_self _)
      refine created.accepted fun verdictId hash given nonempty outcome => ?_
      obtain rfl : db.nextId = verdictId := by simpa using outcome
      refine ⟨Nat.lt_succ_self _, fun verdict there same pending => ?_, ?_⟩
      · rw [targets_of_unique created.moderationIds member verdict there same] at pending
        cases pending
      · refine backed_of_checked sound (given ▸ checked) nonempty rfl fun verdict there same => ?_
        rw [targets_of_unique created.moderationIds member verdict there same]
        rfl
  · refine sound.accepted fun verdictId hash given nonempty outcome => ?_
    simp at outcome

/-- A pending verdict succeeds: it keeps its id and its target. -/
theorem Sound.settle (sound : Sound sha256 db verdicts flights) {pending : Moderation}
    (member : pending ∈ db.moderations) (was : pending.status = .pending)
    {found : Moderation → Bool} (change : Moderation → Moderation)
    (matched : ∀ row ∈ db.moderations, found row = true ↔ row.id = pending.id)
    (kept : ∀ row, (change row).id = row.id ∧ (change row).messageId = row.messageId ∧
      (change row).transcriptionId = row.transcriptionId ∧ (change row).status = .succeeded) :
    Sound sha256 (db.updateModerations found change) verdicts flights ∧
      ∀ verdict ∈ (db.updateModerations found change).moderations, verdict.id = pending.id →
        verdict.status = .succeeded ∧ verdict.transcriptionId = pending.transcriptionId := by
  have unique := targets_of_unique sound.moderationIds member
  refine ⟨sound.updateModerations (fun row => (kept row).1) (fun row => (kept row).2.1)
    (fun row => (kept row).2.2.1) fun row there hit => .inr ⟨?_, (kept row).2.2.2⟩, ?_⟩
  · rw [unique row there ((matched row there).mp hit)]
    exact was
  · intro verdict there same
    obtain ⟨old, present, rfl⟩ := Table.mem_updateMany.mp there
    have own : old.id = pending.id := by
      split at same
      · rwa [(kept old).1] at same
      · exact same
    rw [if_pos ((matched old present).mpr own)]
    obtain rfl := unique old present own
    exact ⟨(kept old).2.2.2, (kept old).2.2.1⟩

/-- A result lands on the pending verdict of its target. -/
theorem Sound.settleChecked (sound : Sound sha256 db verdicts flights) {pending : Moderation}
    (member : pending ∈ db.moderations) (was : pending.status = .pending) {messageId : Id}
    {transcriptionId : Option Id} {inputSha256 : Option String}
    (checked : TargetChecked sha256 db messageId transcriptionId inputSha256)
    (target : pending.transcriptionId = transcriptionId)
    {found : Moderation → Bool} {change : Moderation → Moderation}
    (matched : ∀ row ∈ db.moderations, found row = true ↔ row.id = pending.id)
    (kept : ∀ row, (change row).id = row.id ∧ (change row).messageId = row.messageId ∧
      (change row).transcriptionId = row.transcriptionId ∧ (change row).status = .succeeded) :
    Sound sha256 (db.updateModerations found change)
      (acceptedWith inputSha256 (.recorded pending.id) ++ verdicts) flights := by
  obtain ⟨settled, ended⟩ := sound.settle member was change matched kept
  refine settled.accepted fun verdictId hash given nonempty outcome => ?_
  obtain rfl : pending.id = verdictId := by simpa using outcome
  refine ⟨sound.moderationBound pending member, fun verdict there same pendingStatus => ?_, ?_⟩
  · rw [(ended verdict there same).1] at pendingStatus
    cases pendingStatus
  · exact backed_of_checked sound (given ▸ checked) nonempty rfl
      fun verdict there same => (ended verdict there same).2.trans target

theorem pendingModeration_mem {messageId : Id} {transcriptionId : Option Id} {pending : Moderation}
    (found : pendingModeration db messageId transcriptionId = some pending) :
    pending ∈ db.moderations ∧ pending.status = .pending ∧
      (transcriptionId = none ∨ transcriptionId = pending.transcriptionId) := by
  obtain ⟨member, matched⟩ := Table.latest_mem found
  simp only [decide_eq_true_eq] at matched
  exact ⟨member, matched.2.2, matched.2.1⟩

theorem Sound.finalizeVerdict (sound : Sound sha256 db verdicts flights)
    {opts : RecordModerationResultOptions} {inputSha256 : Option String}
    (checked : TargetChecked sha256 db opts.messageId opts.transcriptionId inputSha256)
    {pending : Moderation} (member : pending ∈ db.moderations) (was : pending.status = .pending)
    (target : pending.transcriptionId = opts.transcriptionId) :
    Sound sha256 (finalizeVerdict now opts pending db).2
      (acceptedWith inputSha256 (finalizeVerdict now opts pending db).1 ++ verdicts) flights := by
  simp only [Pipeline.finalizeVerdict]
  split
  · rename_i none
    rw [List.countP_eq_zero] at none
    exact absurd (by simp [was]) (none pending member)
  · refine sound.settleChecked member was checked target ?_ ?_
    · intro row there
      simp only [decide_eq_true_eq]
      refine ⟨fun hit => hit.1, fun same => ⟨same, ?_⟩⟩
      rw [targets_of_unique sound.moderationIds member row there same]
      exact was
    · exact fun _ => ⟨rfl, rfl, rfl, rfl⟩

theorem Sound.recordModeration (sound : Sound sha256 db verdicts flights) (now : Time)
    {opts : RecordModerationResultOptions} (legible : LegibleInput sha256 db opts) :
    Sound sha256 (recordModerationResultInTransaction sha256 now opts db).2
      (acceptedWith opts.inputSha256 (recordModerationResultInTransaction sha256 now opts db).1 ++
        verdicts) flights := by
  have rejected (outcome : RecordModerationResultOutcome)
      (error : ∀ id, outcome ≠ .recorded id ∧ outcome ≠ .unchanged (some id)) :
      Sound sha256 db (acceptedWith opts.inputSha256 outcome ++ verdicts) flights :=
    sound.accepted fun id _ _ _ same =>
      (same.elim (fun same => (error id).1 same) fun same => (error id).2 same).elim
  unfold recordModerationResultInTransaction
  split
  · exact rejected _ (by simp)
  rename_i there
  split
  · rename_i error failed
    refine rejected error fun id => ?_
    unfold verdictTargetError at failed
    repeat' split at failed
    all_goals cases failed
    all_goals simp
  · rename_i checkedNone
    have checked (taken : opts.createWhenMissing = true ∨
        (pendingModeration db opts.messageId opts.transcriptionId).isSome) :=
      targetChecked_of_no_error sound
        (fun named => legible ⟨by simp [there], named, checkedNone, taken⟩) checkedNone
    split
    · by_cases creates : opts.createWhenMissing = true
      · exact sound.createVerdict now (checked (.inl creates))
      · rw [Pipeline.createVerdict, if_neg creates]
        exact rejected _ (by simp)
    · rename_i pending found
      obtain ⟨member, was, target⟩ := pendingModeration_mem found
      split
      · exact rejected _ (by simp)
      · rename_i free
        refine sound.finalizeVerdict (checked (.inr (by simp [found]))) member was ?_
        rcases target with none | same
        · by_contra differs
          exact free ⟨none, fun absent => differs (absent.trans none.symm)⟩
        · exact same.symm

theorem Sound.submitModeration (sound : Sound sha256 db verdicts flights) {data : ModerationSubmit}
    (legible : data.Accepted sha256 db → LegibleForLatest db data.messageId) :
    Sound sha256 (submitModeration sha256 now data db).2
      (acceptedWith (some data.inputSha256) (submitModeration sha256 now data db).1 ++ verdicts)
      flights := by
  have rejected (outcome : RecordModerationResultOutcome)
      (error : ∀ id, outcome ≠ .recorded id ∧ outcome ≠ .unchanged (some id)) :
      Sound sha256 db (acceptedWith (some data.inputSha256) outcome ++ verdicts) flights :=
    sound.accepted fun id _ _ _ same =>
      (same.elim (fun same => (error id).1 same) fun same => (error id).2 same).elim
  unfold Pipeline.submitModeration
  split
  · exact rejected _ (by simp)
  rename_i there
  split
  · exact rejected _ (by simp)
  rename_i row found
  split
  · exact rejected _ (by simp)
  rename_i owned
  rw [not_or, not_not, not_not] at owned
  split
  · exact rejected _ (by simp)
  rename_i latest
  rw [not_not] at latest
  obtain ⟨newest, found', same⟩ := Option.map_eq_some_iff.mp latest
  split
  · exact rejected _ (by simp)
  rename_i accepted
  rw [not_not] at accepted
  have readable := legible ⟨by simp [there], row, found, owned.1, owned.2, latest, accepted⟩
  obtain ⟨member, sameId⟩ := Table.findUnique_mem found
  obtain rfl : newest = row :=
    Table.eq_of_key_eq sound.transcriptionIds (latestSucceeded_mem found').1 member same
  have checked : TargetChecked sha256 db data.messageId (some newest.id) (some data.inputSha256) := by
    rintro id ⟨⟩
    refine ⟨newest, member, rfl, owned.1, owned.2, ?_⟩
    rintro hash ⟨⟩ _
    rw [← recordedInput_eq_moderationText (readable _ found'), ← submittedInput_eq_recordedInput]
    exact accepted
  split
  · rename_i pending pendingFound
    obtain ⟨there, was, target⟩ := pendingModeration_mem pendingFound
    refine sound.settleChecked there was checked ?_ ?_ ?_
    · rcases target with none | same
      · cases none
      · exact same.symm
    · simp
    · exact fun _ => ⟨rfl, rfl, rfl, rfl⟩
  · have named : data.result.transcriptionId = some newest.id := by simp [ModerationSubmit.result, sameId]
    have input : TargetChecked sha256 db data.result.messageId data.result.transcriptionId
        (some data.inputSha256) := named ▸ checked
    have created := sound.createVerdict now input
    split
    · rename_i id after same
      rw [same] at created
      exact created
    · exact created

end BoothOperator.Pipeline
