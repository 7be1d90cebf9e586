import BoothOperator.Pipeline.World

/-! Moderation verdicts stay about the current review text. `Sound` is the
invariant of the AI rows: a live verdict's transcript exists and is succeeded,
a succeeded verdict's recorded input is what its transcript reads as now, and a
run in flight holds the text of the pending verdict it will settle. Each kind of
write that the transactions are made of preserves it; the one that needs a
condition is the translation write. -/
namespace BoothOperator.Pipeline

open BoothOperator.Schema
open BoothOperator.TranslationText

/-! ## Review texts -/

/-- No translation that normalizes to blank hides the transcript from the hash checks. -/
def Legible (row : Transcription) : Prop :=
  ∀ text, succeededTranslation row = some text →
    normalizeTranslationText text ≠ "" ∨ transcript row = ""

instance (row : Transcription) : Decidable (Legible row) :=
  inferInstanceAs (Decidable (∀ text ∈ succeededTranslation row, _ ∨ _))

theorem moderationText_congr {row other : Transcription} (texts : row.text = other.text)
    (statuses : row.translationStatus = other.translationStatus)
    (translations : row.translatedText = other.translatedText) :
    moderationText row = moderationText other := by
  simp only [moderationText, succeededTranslation, transcript, texts, statuses, translations]

theorem moderationText_untranslated {row : Transcription}
    (untranslated : row.translationStatus ≠ some .succeeded) :
    moderationText row = transcript row := by
  unfold moderationText succeededTranslation
  split <;> simp_all

/-- A once-normalized translation that equals the review text it replaces
normalizes to itself, or to blank over that very transcript. -/
def SafeOver (row : Transcription) (text : String) : Prop :=
  previousReviewText row = some text →
    normalizeTranslationText text = text ∨
      (normalizeTranslationText text = "" ∧ transcript row = text)

instance (row : Transcription) (text : String) : Decidable (SafeOver row text) :=
  inferInstanceAs (Decidable (_ → _ ∨ _ ∧ _))

private theorem succeededTranslation_withTranslation (row : Transcription) (text : String) :
    succeededTranslation (withTranslation row text) =
      if trim text = "" then none else some text := rfl

/-- When the writer finds the texts equal, nothing changes for the readers. -/
theorem moderationText_withTranslation {row : Transcription} {text : String}
    (safe : SafeOver row text) (trimmed : trim text = text)
    (same : previousReviewText row = some text) :
    moderationText (withTranslation row text) = moderationText row := by
  have before : moderationText row = if text ≠ "" then text else transcript row := by
    unfold previousReviewText at same
    unfold moderationText
    cases translated : succeededTranslation row with
    | some stored =>
      rw [translated, Option.some.injEq] at same
      simp only [Option.map_some, same]
    | none =>
      rw [translated] at same
      simp only [Option.map_eq_some_iff] at same
      obtain ⟨original, there, rfl⟩ := same
      simp only [Option.map_none, transcript, there, Option.getD_some]
      split
      · rfl
      · rfl
  have after : moderationText (withTranslation row text) =
      if text ≠ "" then text else transcript row := by
    unfold moderationText
    rw [succeededTranslation_withTranslation, trimmed]
    by_cases blank : text = ""
    · simp [blank, transcript, withTranslation]
    · rcases safe same with fixed | ⟨hidden, shown⟩
      · simp [blank, fixed]
      · simpa [blank, hidden, transcript, withTranslation] using shown
  rw [before, after]

/-! ## The invariant -/

/-- The verdict's input is the text, or its hash. -/
def VerdictInput.Describes (sha256 : String → String) (text : String) : VerdictInput → Prop
  | .text value => text = value
  | .hash value => sha256 text = value

instance (sha256 : String → String) (text : String) :
    (input : VerdictInput) → Decidable (input.Describes sha256 text)
  | .text value => inferInstanceAs (Decidable (text = value))
  | .hash value => inferInstanceAs (Decidable (sha256 text = value))

/-- No live verdict refers to the transcript. -/
def Untargeted (db : Db) (row : Transcription) : Prop :=
  ∀ verdict ∈ db.moderations, Live verdict → verdict.transcriptionId ≠ some row.id

instance (db : Db) (row : Transcription) : Decidable (Untargeted db row) :=
  inferInstanceAs (Decidable (∀ _ ∈ _, _ → _))

/-- Every verdict with this id and status refers to a transcript that reads as the input. -/
def Backed (sha256 : String → String) (db : Db) (status : TranscriptionStatus)
    (entry : Id × VerdictInput) : Prop :=
  ∀ verdict ∈ db.moderations, verdict.id = entry.1 → verdict.status = status →
    ∀ row ∈ db.transcriptions, verdict.transcriptionId = some row.id →
      entry.2.Describes sha256 (moderationText row)

/-- The AI rows with the inputs of settled verdicts and of runs in flight. -/
structure Sound (sha256 : String → String) (db : Db) (verdicts flights : List (Id × VerdictInput)) :
    Prop where
  transcriptionIds : (db.transcriptions.map (·.id)).Nodup
  moderationIds : (db.moderations.map (·.id)).Nodup
  transcriptionBound : ∀ row ∈ db.transcriptions, row.id < db.nextId
  moderationBound : ∀ row ∈ db.moderations, row.id < db.nextId
  translated : ∀ row ∈ db.transcriptions, row.translationStatus = some .succeeded →
    row.status = .succeeded
  target : ∀ verdict ∈ db.moderations, Live verdict → ∀ id, verdict.transcriptionId = some id →
    ∃ row ∈ db.transcriptions, row.id = id ∧ row.messageId = verdict.messageId ∧
      row.status = .succeeded
  verdictBound : ∀ entry ∈ verdicts, entry.1 < db.nextId
  settled : ∀ entry ∈ verdicts, ∀ verdict ∈ db.moderations, verdict.id = entry.1 →
    verdict.status ≠ .pending
  valid : ∀ entry ∈ verdicts, Backed sha256 db .succeeded entry
  flightBound : ∀ entry ∈ flights, entry.1 < db.nextId
  flying : ∀ entry ∈ flights, Backed sha256 db .pending entry

section Writes

variable {sha256 : String → String} {db : Db} {verdicts flights : List (Id × VerdictInput)}

theorem Sound.of_tables {after : Db} (sound : Sound sha256 db verdicts flights)
    (transcriptions : after.transcriptions = db.transcriptions)
    (moderations : after.moderations = db.moderations) (nextId : after.nextId = db.nextId) :
    Sound sha256 after verdicts flights := by
  constructor <;> simp only [Backed, transcriptions, moderations, nextId]
  exacts [sound.transcriptionIds, sound.moderationIds, sound.transcriptionBound, sound.moderationBound,
    sound.translated, sound.target, sound.verdictBound, sound.settled, sound.valid,
    sound.flightBound, sound.flying]

theorem Sound.updateMessages (sound : Sound sha256 db verdicts flights)
    (found : Message → Bool) (change : Message → Message) :
    Sound sha256 (db.updateMessages found change) verdicts flights :=
  sound.of_tables rfl rfl rfl

theorem Sound.fewer {fewer : List (Id × VerdictInput)} (sound : Sound sha256 db verdicts flights)
    (within : ∀ entry ∈ fewer, entry ∈ flights) : Sound sha256 db verdicts fewer :=
  { sound with
    flightBound := fun entry member => sound.flightBound entry (within entry member)
    flying := fun entry member => sound.flying entry (within entry member) }

/-- A live verdict's transcript is a succeeded one of the same message. -/
theorem Sound.target_row (sound : Sound sha256 db verdicts flights) {row : Transcription}
    (member : row ∈ db.transcriptions) {verdict : Moderation} (there : verdict ∈ db.moderations)
    (live : Live verdict) (refers : verdict.transcriptionId = some row.id) :
    row.messageId = verdict.messageId ∧ row.status = .succeeded := by
  obtain ⟨found, present, same, succeeded⟩ := sound.target verdict there live row.id refers
  rw [← Table.eq_of_key_eq sound.transcriptionIds present member same]
  exact succeeded

/-- An update of transcripts: only succeeded ones are translated, and one that
live verdicts refer to keeps its text. -/
theorem Sound.updateTranscriptions (sound : Sound sha256 db verdicts flights)
    {found : Transcription → Bool} {change : Transcription → Transcription}
    (ids : ∀ row, (change row).id = row.id)
    (messages : ∀ row, (change row).messageId = row.messageId)
    (translated : ∀ row ∈ db.transcriptions, found row = true →
      (change row).translationStatus = some .succeeded → (change row).status = .succeeded)
    (texts : ∀ row ∈ db.transcriptions, found row = true → row.status = .succeeded →
      Untargeted db row ∨
        ((change row).status = .succeeded ∧ moderationText (change row) = moderationText row)) :
    Sound sha256 (db.updateTranscriptions found change) verdicts flights := by
  have read (row : Transcription) (member : row ∈ db.transcriptions) (verdict : Moderation)
      (there : verdict ∈ db.moderations) (live : Live verdict)
      (refers : verdict.transcriptionId = some row.id) :
      (if found row then change row else row).status = .succeeded ∧
        moderationText (if found row then change row else row) = moderationText row := by
    have succeeded := (sound.target_row member there live refers).2
    split
    · rename_i matched
      rcases texts row member matched succeeded with untargeted | kept
      · exact absurd refers (untargeted verdict there live)
      · exact kept
    · exact ⟨succeeded, rfl⟩
  have sameId (row : Transcription) : (if found row then change row else row).id = row.id := by
    split
    · exact ids row
    · rfl
  have backed {status : TranscriptionStatus} {entry : Id × VerdictInput}
      (live : status = .pending ∨ status = .succeeded) (before : Backed sha256 db status entry) :
      Backed sha256 (db.updateTranscriptions found change) status entry := by
    intro verdict there same here row member refers
    obtain ⟨old, present, rfl⟩ := Table.mem_updateMany.mp member
    rw [sameId] at refers
    have alive : Live verdict := by rw [Live, here]; exact live
    rw [(read old present verdict there alive refers).2]
    exact before verdict there same here old present refers
  refine ⟨?_, sound.moderationIds, ?_, sound.moderationBound, ?_, ?_, sound.verdictBound,
    sound.settled,
    fun entry member => backed (.inr rfl) (sound.valid entry member), sound.flightBound,
    fun entry member => backed (.inl rfl) (sound.flying entry member)⟩
  · simp only [Db.updateTranscriptions]
    rw [Table.map_updateMany _ ids]
    exact sound.transcriptionIds
  · intro row member
    obtain ⟨old, present, rfl⟩ := Table.mem_updateMany.mp member
    rw [sameId]
    exact sound.transcriptionBound old present
  · intro row member succeeded
    obtain ⟨old, present, rfl⟩ := Table.mem_updateMany.mp member
    split at succeeded
    · rename_i matched
      rw [if_pos matched]
      exact translated old present matched succeeded
    · rename_i unmatched
      rw [if_neg unmatched]
      exact sound.translated old present succeeded
  · intro verdict there live id refers
    obtain ⟨row, member, rfl, message, _⟩ := sound.target verdict there live id refers
    refine ⟨_, Table.mem_updateMany.mpr ⟨row, member, rfl⟩, sameId row, ?_,
      (read row member verdict there live refers).1⟩
    split
    · exact (messages row).trans message
    · exact message

theorem Sound.createTranscription (sound : Sound sha256 db verdicts flights)
    {create : Id → Transcription} (ids : ∀ id, (create id).id = id)
    (untranslated : ∀ id, (create id).translationStatus = none) :
    Sound sha256 (db.createTranscription create) verdicts flights := by
  have fresh (verdict : Moderation) (there : verdict ∈ db.moderations) (live : Live verdict) :
      verdict.transcriptionId ≠ some (create db.nextId).id := by
    intro refers
    obtain ⟨row, member, same, _⟩ := sound.target verdict there live _ refers
    have bound := sound.transcriptionBound row member
    rw [same, ids] at bound
    exact absurd bound (lt_irrefl _)
  have backed {status : TranscriptionStatus} {entry : Id × VerdictInput}
      (live : status = .pending ∨ status = .succeeded) (before : Backed sha256 db status entry) :
      Backed sha256 (db.createTranscription create) status entry := by
    intro verdict there same here row member refers
    have alive : Live verdict := by rw [Live, here]; exact live
    rcases List.mem_append.mp member with old | new
    · exact before verdict there same here row old refers
    · rw [List.mem_singleton] at new
      exact absurd (new ▸ refers) (fresh verdict there alive)
  refine ⟨?_, sound.moderationIds, ?_,
    fun row member => (sound.moderationBound row member).trans (Nat.lt_succ_self _), ?_, ?_, fun entry member => (sound.verdictBound entry member).trans (Nat.lt_succ_self _),
    sound.settled, fun entry member => backed (.inr rfl) (sound.valid entry member),
    fun entry member => (sound.flightBound entry member).trans (Nat.lt_succ_self _),
    fun entry member => backed (.inl rfl) (sound.flying entry member)⟩
  · simp only [Db.createTranscription, List.map_append, List.map_cons, List.map_nil, ids]
    exact Table.nodup_append_fresh sound.transcriptionIds sound.transcriptionBound
  · intro row member
    rcases List.mem_append.mp member with old | new
    · exact (sound.transcriptionBound row old).trans (Nat.lt_succ_self _)
    · rw [List.mem_singleton.mp new, ids]
      exact Nat.lt_succ_self _
  · intro row member succeeded
    rcases List.mem_append.mp member with old | new
    · exact sound.translated row old succeeded
    · rw [List.mem_singleton.mp new, untranslated] at succeeded
      cases succeeded
  · intro verdict there live id refers
    obtain ⟨row, member, same⟩ := sound.target verdict there live id refers
    exact ⟨row, List.mem_append_left _ member, same⟩

/-- A verdict row for nothing, or for a succeeded transcript. -/
theorem Sound.createModeration (sound : Sound sha256 db verdicts flights)
    {create : Id → Moderation} (ids : ∀ id, (create id).id = id)
    (target : ∀ id, (create db.nextId).transcriptionId = some id →
      ∃ row ∈ db.transcriptions, row.id = id ∧ row.messageId = (create db.nextId).messageId ∧
        row.status = .succeeded) :
    Sound sha256 (db.createModeration create) verdicts flights := by
  have other {entry : Id × VerdictInput} (bound : entry.1 < db.nextId) {verdict : Moderation}
      (member : verdict ∈ (db.createModeration create).moderations)
      (same : verdict.id = entry.1) : verdict ∈ db.moderations := by
    rcases List.mem_append.mp member with old | new
    · exact old
    · rw [List.mem_singleton.mp new, ids] at same
      rw [← same] at bound
      exact absurd bound (lt_irrefl _)
  refine ⟨sound.transcriptionIds, ?_,
    fun row member => (sound.transcriptionBound row member).trans (Nat.lt_succ_self _), ?_,
    sound.translated, ?_,
    fun entry member => (sound.verdictBound entry member).trans (Nat.lt_succ_self _), ?_, ?_,
    fun entry member => (sound.flightBound entry member).trans (Nat.lt_succ_self _), ?_⟩
  · simp only [Db.createModeration, List.map_append, List.map_cons, List.map_nil, ids]
    exact Table.nodup_append_fresh sound.moderationIds sound.moderationBound
  · intro row member
    rcases List.mem_append.mp member with old | new
    · exact (sound.moderationBound row old).trans (Nat.lt_succ_self _)
    · rw [List.mem_singleton.mp new, ids]
      exact Nat.lt_succ_self _
  · intro verdict member live id refers
    rcases List.mem_append.mp member with old | new
    · exact sound.target verdict old live id refers
    · rw [List.mem_singleton.mp new] at refers ⊢
      exact target id refers
  · intro entry known verdict member same
    exact sound.settled entry known verdict (other (sound.verdictBound entry known) member same) same
  · intro entry known verdict member same
    exact sound.valid entry known verdict (other (sound.verdictBound entry known) member same) same
  · intro entry known verdict member same
    exact sound.flying entry known verdict (other (sound.flightBound entry known) member same) same

/-- An update of verdicts that ends some of them: nothing becomes pending, and
only pending ones become succeeded. -/
theorem Sound.updateModerations (sound : Sound sha256 db verdicts flights)
    {found : Moderation → Bool} {change : Moderation → Moderation}
    (ids : ∀ row, (change row).id = row.id)
    (messages : ∀ row, (change row).messageId = row.messageId)
    (targets : ∀ row, (change row).transcriptionId = row.transcriptionId)
    (ends : ∀ row ∈ db.moderations, found row = true → (change row).status = .failed ∨
      (row.status = .pending ∧ (change row).status = .succeeded)) :
    Sound sha256 (db.updateModerations found change) verdicts flights := by
  have old {verdict : Moderation}
      (member : verdict ∈ (db.updateModerations found change).moderations) (live : Live verdict) :
      ∃ before ∈ db.moderations, verdict.id = before.id ∧
        verdict.messageId = before.messageId ∧
        verdict.transcriptionId = before.transcriptionId ∧ Live before ∧
        (verdict.status = before.status ∨ (before.status = .pending ∧ verdict.status = .succeeded)) := by
    obtain ⟨before, there, rfl⟩ := Table.mem_updateMany.mp member
    refine ⟨before, there, ?_⟩
    split at live
    · rename_i matched
      rw [if_pos matched]
      rcases ends before there matched with failed | ⟨pending, succeeded⟩
      · rw [Live, failed] at live
        exact absurd live (by decide)
      · exact ⟨ids before, messages before, targets before, .inl pending, .inr ⟨pending, succeeded⟩⟩
    · rename_i unmatched
      rw [if_neg unmatched]
      exact ⟨rfl, rfl, rfl, live, .inl rfl⟩
  refine { sound with
    moderationIds := ?_, moderationBound := ?_, target := ?_, settled := ?_, valid := ?_
    flying := ?_ }
  · simp only [Db.updateModerations]
    rw [Table.map_updateMany _ ids]
    exact sound.moderationIds
  · intro verdict member
    obtain ⟨before, there, rfl⟩ := Table.mem_updateMany.mp member
    split
    · rw [ids]
      exact sound.moderationBound before there
    · exact sound.moderationBound before there
  · intro verdict member live id refers
    obtain ⟨before, there, _, message, target, alive, _⟩ := old member live
    rw [message]
    exact sound.target before there alive id (target ▸ refers)
  · intro entry known verdict member same pending
    obtain ⟨before, there, sameId, _, _, _, status⟩ := old member (.inl pending)
    rcases status with kept | ⟨_, succeeded⟩
    · exact sound.settled entry known before there (sameId ▸ same) (kept ▸ pending)
    · exact absurd (pending.symm.trans succeeded) (by decide)
  · intro entry known verdict member same succeeded row present refers
    obtain ⟨before, there, sameId, _, target, _, status⟩ := old member (.inr succeeded)
    rcases status with kept | ⟨pending, _⟩
    · exact sound.valid entry known before there (sameId ▸ same) (kept ▸ succeeded) row present
        (target ▸ refers)
    · exact absurd pending (sound.settled entry known before there (sameId ▸ same))
  · intro entry known verdict member same pending row present refers
    obtain ⟨before, there, sameId, _, target, _, status⟩ := old member (.inl pending)
    rcases status with kept | ⟨_, succeeded⟩
    · exact sound.flying entry known before there (sameId ▸ same) (kept ▸ pending) row present
        (target ▸ refers)
    · exact absurd (pending.symm.trans succeeded) (by decide)

theorem Sound.supersede (sound : Sound sha256 db verdicts flights) (now : Time)
    (selected : Moderation → Bool) (error : String) :
    Sound sha256 (supersede now selected error db) verdicts flights :=
  sound.updateModerations (fun _ => rfl) (fun _ => rfl) (fun _ => rfl) fun _ _ _ => .inl rfl

/-- A verdict that has succeeded with this input joins the settled ones. -/
theorem Sound.accept (sound : Sound sha256 db verdicts flights) {entry : Id × VerdictInput}
    (bound : entry.1 < db.nextId)
    (ended : ∀ verdict ∈ db.moderations, verdict.id = entry.1 → verdict.status ≠ .pending)
    (backed : Backed sha256 db .succeeded entry) :
    Sound sha256 db (entry :: verdicts) flights :=
  { sound with
    verdictBound := List.forall_mem_cons.mpr ⟨bound, sound.verdictBound⟩
    settled := List.forall_mem_cons.mpr ⟨ended, sound.settled⟩
    valid := List.forall_mem_cons.mpr ⟨backed, sound.valid⟩ }

/-- A run takes off with the text of its pending verdict. -/
theorem Sound.takeOff (sound : Sound sha256 db verdicts flights) {entry : Id × VerdictInput}
    (bound : entry.1 < db.nextId) (backed : Backed sha256 db .pending entry) :
    Sound sha256 db verdicts (entry :: flights) :=
  { sound with
    flightBound := List.forall_mem_cons.mpr ⟨bound, sound.flightBound⟩
    flying := List.forall_mem_cons.mpr ⟨backed, sound.flying⟩ }

end Writes

end BoothOperator.Pipeline
