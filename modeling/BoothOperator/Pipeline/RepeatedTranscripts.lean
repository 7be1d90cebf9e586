import BoothOperator.Pipeline.Soundness

/-! A transcript that is delivered again. The transaction knows it again when it
finds nothing to fill and the newest transcription of the message is the result
itself; what it does then depends on the state that the first delivery met. -/
namespace BoothOperator.Pipeline

open BoothOperator.Schema
open BoothOperator.TranslationText

/-- The rows that tell the history of the messages. -/
def SameHistory (one other : Db) : Prop :=
  one.transcriptions = other.transcriptions ∧ one.moderations = other.moderations

def deliverTranscript (sha256 : String → String) (opts : RecordTranscriptionResultOptions)
    (db : Db) (now : Time) : Db := (recordTranscriptionResultInTransaction sha256 now opts db).2

def RecordTranscriptionResultOutcome.Accepted : RecordTranscriptionResultOutcome → Prop
  | .unchanged _ | .recorded _ => True
  | _ => False

/-- However often and whenever the result is delivered again, the history stays
as the first delivery left it, also when verdicts have come in since then. -/
def TranscriptRepeats (sha256 : String → String) (first : Time)
    (opts : RecordTranscriptionResultOptions) (db : Db) : Prop :=
  let after := deliverTranscript sha256 opts db first
  (∀ later : List Time, SameHistory (later.foldl (deliverTranscript sha256 opts) after) after) ∧
    ∀ (judged : Db) (now : Time), judged.transcriptions = after.transcriptions →
      SameHistory (deliverTranscript sha256 opts judged now) judged

/-- The row holds an on-device transcript, which no other provider's replaces. -/
def OnDevicePreferred (opts : RecordTranscriptionResultOptions) (latest : Transcription) : Prop :=
  opts.provider ≠ some .onDevice ∧ latest.status = .succeeded ∧
    latest.provider = ResultProvider.onDevice.column

/-- The delivery finds nothing to fill and nothing to add. -/
def Recognized (sha256 : String → String) (opts : RecordTranscriptionResultOptions) (db : Db) :
    Prop :=
  expectationStale sha256 opts db = true ∨
    match pendingTranscription db opts.messageId opts.transcriptionId with
    | some _ => opts.transcriptionId = none ∧ opts.provider ≠ some .onDevice
    | none => opts.transcriptionId ≠ none ∨
      ∃ latest, latestTranscription db opts.messageId = some latest ∧
        (OnDevicePreferred opts latest ∨ redelivered opts latest = true)

/-- What the state before the first delivery must be like for the second to find
nothing to do: the result names the row it fills; or it expects the hash of the row
that it fills; or the row it fills is the only pending one and the newest of all, and
keeps no requester of its own; or it is added above the other rows. -/
def TranscriptSettles (sha256 : String → String) (first : Time)
    (opts : RecordTranscriptionResultOptions) (db : Db) : Prop :=
  match pendingTranscription db opts.messageId opts.transcriptionId with
  | none => ∀ latest, latestTranscription db opts.messageId = some latest →
      redelivered opts latest = true ∨ latest.createdAt < first
  | some pending =>
    opts.transcriptionId ≠ none ∨
    (latestTranscription db opts.messageId = some pending ∧
      ∃ expected, opts.expectedLatestTranscriptionSha256 = some expected ∧
        some (sha256 ("succeeded" ++ "\n" ++ trim opts.text)) ≠ expected.map String.toLower) ∨
    ((∀ row ∈ db.transcriptions, row.messageId = opts.messageId → row.status = .pending →
        row = pending) ∧
      ∀ latest, latestTranscription db opts.messageId = some latest →
        (latest = pending → opts.requestedByUserId ≠ none ∨ pending.requestedById = none) ∧
        (latest ≠ pending → redelivered opts latest = true))

section Transcripts

variable {sha256 : String → String} {now first : Time} {opts : RecordTranscriptionResultOptions}
  {db : Db}

/-! ## One delivery -/

/-- What a result that is accepted does: it fills a pending row, is known again or is added. -/
theorem recordTranscription_cases
    (accepted : (recordTranscriptionResultInTransaction sha256 now opts db).1.Accepted) :
    expectationStale sha256 opts db = false ∧ ∃ message, db.message opts.messageId = some message ∧
      ((∃ pending, pendingTranscription db opts.messageId opts.transcriptionId = some pending ∧
          (opts.transcriptionId ≠ none ∨ opts.provider = some .onDevice) ∧
          recordTranscriptionResultInTransaction sha256 now opts db =
            finalizeTranscription now opts pending db) ∨
        (pendingTranscription db opts.messageId opts.transcriptionId = none ∧
          opts.transcriptionId = none ∧
          ((∃ latest, latestTranscription db opts.messageId = some latest ∧
              redelivered opts latest = true ∧
              recordTranscriptionResultInTransaction sha256 now opts db =
                (.unchanged latest.id, db)) ∨
            ((∀ latest, latestTranscription db opts.messageId = some latest →
                ¬ OnDevicePreferred opts latest ∧ redelivered opts latest = false) ∧
              recordTranscriptionResultInTransaction sha256 now opts db =
                createTranscript now opts message db)))) := by
  generalize outcome : recordTranscriptionResultInTransaction sha256 now opts db = result at *
  unfold recordTranscriptionResultInTransaction at outcome
  cases there : db.message opts.messageId with
  | none =>
    simp only [there] at outcome
    subst outcome
    exact accepted.elim
  | some message =>
    simp only [there] at outcome
    cases stale : expectationStale sha256 opts db with
    | true =>
      simp only [stale, if_true] at outcome
      subst outcome
      exact accepted.elim
    | false =>
      refine ⟨rfl, message, rfl, ?_⟩
      simp only [stale, Bool.false_eq_true, if_false] at outcome
      cases found : pendingTranscription db opts.messageId opts.transcriptionId with
      | some pending =>
        left
        simp only [found] at outcome
        split at outcome
        · subst outcome
          exact accepted.elim
        · rename_i free
          refine ⟨pending, rfl, ?_, outcome.symm⟩
          by_contra neither
          rw [not_or, not_not] at neither
          exact free neither
      | none =>
        right
        simp only [found] at outcome
        split at outcome
        · subst outcome
          exact accepted.elim
        · rename_i untargeted
          rw [not_not] at untargeted
          refine ⟨rfl, untargeted, ?_⟩
          cases newest : latestTranscription db opts.messageId with
          | none =>
            right
            simp only [newest] at outcome
            refine ⟨?_, outcome.symm⟩
            intro other same
            simp at same
          | some latest =>
            simp only [newest] at outcome
            split at outcome
            · subst outcome
              exact accepted.elim
            · rename_i free
              cases again : redelivered opts latest with
              | true =>
                left
                simp only [again, if_true] at outcome
                exact ⟨latest, rfl, again, outcome.symm⟩
              | false =>
                right
                simp only [again, Bool.false_eq_true, if_false] at outcome
                refine ⟨?_, outcome.symm⟩
                intro other same
                cases same
                exact ⟨free, again⟩

/-- A row that is pending is there to be filled. -/
theorem pendingTranscription_matched {messageId : Id} {transcriptionId : Option Id}
    {pending : Transcription}
    (found : pendingTranscription db messageId transcriptionId = some pending) :
    pending ∈ db.transcriptions ∧ pending.messageId = messageId ∧ pending.status = .pending ∧
      (transcriptionId = none ∨ transcriptionId = some pending.id) := by
  obtain ⟨member, matched⟩ := Table.latest_mem found
  exact ⟨member, by simpa using matched⟩

/-- A row as the result fills it. -/
def filled (now : Time) (opts : RecordTranscriptionResultOptions) (pending row : Transcription) :
    Transcription :=
  { row with
    provider := (opts.provider.getD .push).column
    model := opts.model
    status := .succeeded
    text := some opts.text
    language := opts.language
    latencyMs := some (now - pending.createdAt)
    completedAt := some now
    requestedById := opts.requestedByUserId <|> row.requestedById }

theorem finalizeTranscription_filled {pending : Transcription}
    (member : pending ∈ db.transcriptions) (was : pending.status = .pending) :
    finalizeTranscription now opts pending db =
      (.recorded pending.id, supersedeByTranscription now opts.messageId
        (db.updateTranscriptions (fun row => row.id = pending.id ∧ row.status = .pending)
          (filled now opts pending))) := by
  have present : db.transcriptions.countP
      (fun row => row.id = pending.id ∧ row.status = .pending) ≠ 0 := by
    rw [Ne, List.countP_eq_zero]
    intro none
    exact none pending member (by simp [was])
  unfold finalizeTranscription
  rw [if_neg present]
  rfl

/-! ## Deliveries that change nothing -/

theorem deliverTranscript_of_recognized (recognized : Recognized sha256 opts db) :
    deliverTranscript sha256 opts db now = db := by
  unfold deliverTranscript recordTranscriptionResultInTransaction
  cases db.message opts.messageId with
  | none => rfl
  | some message =>
    cases stale : expectationStale sha256 opts db with
    | true => rfl
    | false =>
      have known := recognized.resolve_left (by simp [stale])
      cases found : pendingTranscription db opts.messageId opts.transcriptionId with
      | some pending =>
        simp only [found] at known
        simp [known]
      | none =>
        simp only [found] at known
        rcases known with targeted | ⟨latest, newest, preferred | again⟩
        · simp [targeted]
        · have kept : opts.provider ≠ some .onDevice ∧ latest.status = .succeeded ∧
              latest.provider = ResultProvider.onDevice.column := preferred
          simp [newest, kept]
        · simp only [newest, again, if_true, Bool.false_eq_true, if_false]
          split
          · rfl
          · split
            · rfl
            · rfl

/-- A delivery that is not recognized fills a row or adds one. -/
theorem recognized_of_kept {message : Message} (there : db.message opts.messageId = some message)
    (kept : (deliverTranscript sha256 opts db now).transcriptions = db.transcriptions) :
    Recognized sha256 opts db := by
  have adds : (createTranscript now opts message db).2.transcriptions ≠ db.transcriptions := by
    intro same
    have longer := congrArg List.length same
    simp [createTranscript, supersedeByTranscription, supersede, Db.updateModerations,
      Db.createTranscription] at longer
  unfold deliverTranscript recordTranscriptionResultInTransaction at kept
  simp only [there] at kept
  unfold Recognized
  cases stale : expectationStale sha256 opts db with
  | true => exact Or.inl rfl
  | false =>
    right
    simp only [stale, Bool.false_eq_true, if_false] at kept
    cases found : pendingTranscription db opts.messageId opts.transcriptionId with
    | some pending =>
      simp only [found] at kept
      by_contra free
      rw [if_neg free] at kept
      obtain ⟨member, -, was, -⟩ := pendingTranscription_matched found
      rw [finalizeTranscription_filled member was] at kept
      have still : pending ∈ Table.updateMany
          (fun row => row.id = pending.id ∧ row.status = .pending) (filled now opts pending)
            db.transcriptions := by
        rw [← kept] at member
        exact member
      obtain ⟨old, -, same⟩ := Table.mem_updateMany.mp still
      by_cases matched : old.id = pending.id ∧ old.status = .pending
      · rw [if_pos (decide_eq_true matched)] at same
        rw [same] at was
        cases was
      · rw [if_neg (by simp [matched])] at same
        subst same
        exact matched ⟨rfl, was⟩
    | none =>
      simp only [found] at kept
      by_cases targeted : opts.transcriptionId = none
      · right
        simp only [targeted, ne_eq, not_true_eq_false, if_false] at kept
        cases newest : latestTranscription db opts.messageId with
        | none =>
          simp only [newest] at kept
          exact absurd kept adds
        | some latest =>
          simp only [newest] at kept
          refine ⟨latest, rfl, ?_⟩
          by_contra neither
          rw [not_or] at neither
          have free : ¬ (¬ opts.provider = some .onDevice ∧ latest.status = .succeeded ∧
              latest.provider = ResultProvider.onDevice.column) := neither.1
          rw [if_neg free, if_neg neither.2] at kept
          exact adds kept
      · exact Or.inl targeted

/-- What is recognized is decided by the transcriptions alone. -/
theorem Recognized.congr {other : Db} (same : other.transcriptions = db.transcriptions)
    (recognized : Recognized sha256 opts db) : Recognized sha256 opts other := by
  unfold Recognized expectationStale latestTranscription pendingTranscription at *
  rw [same]
  exact recognized

/-- The deliveries after the first change nothing exactly when the second does not. -/
theorem transcriptRepeats_iff {message : Message}
    (there : (deliverTranscript sha256 opts db first).message opts.messageId = some message) :
    TranscriptRepeats sha256 first opts db ↔
      Recognized sha256 opts (deliverTranscript sha256 opts db first) := by
  constructor
  · rintro ⟨later, -⟩
    exact recognized_of_kept there (later [first]).1
  · intro recognized
    constructor
    · intro later
      rw [List.foldl_fixed' fun _ => deliverTranscript_of_recognized recognized]
      exact ⟨rfl, rfl⟩
    · intro judged now same
      rw [deliverTranscript_of_recognized (recognized.congr same)]
      exact ⟨rfl, rfl⟩

/-! ## After a row was filled -/

section Filled

variable {pending latest : Transcription}

/-- The state in which the result has filled the pending row. -/
def filledDb (now : Time) (opts : RecordTranscriptionResultOptions) (pending : Transcription)
    (db : Db) : Db :=
  supersedeByTranscription now opts.messageId
    (db.updateTranscriptions (fun row => row.id = pending.id ∧ row.status = .pending)
      (filled now opts pending))

theorem latestTranscription_filledDb :
    latestTranscription (filledDb now opts pending db) opts.messageId =
      (latestTranscription db opts.messageId).map fun row =>
        if row.id = pending.id ∧ row.status = .pending then filled now opts pending row else row := by
  have updated := @Table.latest_updateMany Transcription Time _ (·.createdAt)
    (fun row => row.id = pending.id ∧ row.status = .pending)
    (fun row => row.messageId = opts.messageId) (filled now opts pending)
    (fun _ => rfl) (fun _ => rfl) db.transcriptions
  simpa [latestTranscription, filledDb, supersedeByTranscription, supersede, Db.updateModerations,
    Db.updateTranscriptions] using updated

/-- Another row that was the newest still is. -/
theorem latestTranscription_filledDb_other (distinct : (db.transcriptions.map (·.id)).Nodup)
    (member : pending ∈ db.transcriptions)
    (newest : latestTranscription db opts.messageId = some latest) (other : latest ≠ pending) :
    latestTranscription (filledDb now opts pending db) opts.messageId =
      latestTranscription db opts.messageId := by
  have apart : ¬ (latest.id = pending.id ∧ latest.status = .pending) := fun matched =>
    other (Table.eq_of_key_eq distinct (Table.latest_mem newest).1 member matched.1)
  rw [latestTranscription_filledDb, newest, Option.map_some, if_neg apart]

theorem latestTranscription_filledDb_own (was : pending.status = .pending)
    (newest : latestTranscription db opts.messageId = some pending) :
    latestTranscription (filledDb now opts pending db) opts.messageId =
      some (filled now opts pending pending) := by
  rw [latestTranscription_filledDb, newest, Option.map_some, if_pos ⟨rfl, was⟩]

/-- What the caller expects of the newest row is met as before where the row is the same. -/
theorem expectationStale_congr {other : Db}
    (same : latestTranscription other opts.messageId = latestTranscription db opts.messageId) :
    expectationStale sha256 opts other = expectationStale sha256 opts db := by
  unfold expectationStale
  rw [same]

/-- Where it is the row that was filled, the caller's hash is of the row before. -/
theorem expectationStale_filledDb (was : pending.status = .pending)
    (newest : latestTranscription db opts.messageId = some pending)
    (met : expectationStale sha256 opts db = false) :
    expectationStale sha256 opts (filledDb now opts pending db) = true ↔
      ∃ expected, opts.expectedLatestTranscriptionSha256 = some expected ∧
        some (sha256 ("succeeded" ++ "\n" ++ trim opts.text)) ≠ expected.map String.toLower := by
  have hash : TranscriptionStatus.column (filled now opts pending pending).status ++ "\n" ++
      trim ((filled now opts pending pending).text.getD "") =
        "succeeded" ++ "\n" ++ trim opts.text := rfl
  unfold expectationStale at met ⊢
  rw [newest, Bool.or_eq_false_iff] at met
  rw [latestTranscription_filledDb_own was newest, Bool.or_eq_true]
  simp only [Option.map_some, hash]
  cases asked : opts.expectedLatestTranscriptionId with
  | none =>
    cases opts.expectedLatestTranscriptionSha256 with
    | none => simp
    | some expected => simp
  | some expectedId =>
    have sameId : some (filled now opts pending pending).id = expectedId := by
      rw [asked] at met
      have before : some pending.id = expectedId := by simpa using met.1
      exact before
    cases opts.expectedLatestTranscriptionSha256 with
    | none => simp [sameId]
    | some expected => simp [sameId]

/-- The pending rows that are left are the others. -/
theorem pendingTranscription_filledDb_none (untargeted : opts.transcriptionId = none)
    (distinct : (db.transcriptions.map (·.id)).Nodup) (member : pending ∈ db.transcriptions)
    (was : pending.status = .pending) :
    pendingTranscription (filledDb now opts pending db) opts.messageId opts.transcriptionId = none ↔
      ∀ row ∈ db.transcriptions, row.messageId = opts.messageId → row.status = .pending →
        row = pending := by
  have dropped := @Table.latest_updateMany_dropped Transcription Time _ (·.createdAt)
    (fun row => row.id = pending.id ∧ row.status = .pending)
    (fun row => row.messageId = opts.messageId ∧ row.status = .pending ∧
      (opts.transcriptionId = none ∨ opts.transcriptionId = some row.id))
    (filled now opts pending) (by simp [filled]) db.transcriptions
  have same : pendingTranscription (filledDb now opts pending db) opts.messageId
      opts.transcriptionId = _ := dropped
  rw [same, Table.latest_eq_none]
  constructor
  · intro none row here own running
    by_contra other
    apply none row here
    have apart : row.id ≠ pending.id := fun match' =>
      other (Table.eq_of_key_eq distinct here member match')
    simp [own, running, untargeted, apart]
  · intro only row here matched
    simp only [untargeted, true_or, and_true, Bool.and_eq_true, decide_eq_true_eq,
      Bool.not_eq_true', decide_eq_false_iff_not] at matched
    rw [only row here matched.1.1 matched.1.2] at matched
    exact matched.2 ⟨rfl, was⟩

/-- A filled row is the result, unless it kept a requester that the result lacks. -/
theorem redelivered_filled : redelivered opts (filled now opts pending pending) = true ↔
    opts.requestedByUserId ≠ none ∨ pending.requestedById = none := by
  simp only [redelivered, filled, Option.getD_some, true_and, decide_eq_true_eq]
  cases opts.requestedByUserId with
  | none => simp
  | some user => simp

theorem recognized_filledDb (distinct : (db.transcriptions.map (·.id)).Nodup)
    (met : expectationStale sha256 opts db = false)
    (found : pendingTranscription db opts.messageId opts.transcriptionId = some pending)
    (free : opts.transcriptionId ≠ none ∨ opts.provider = some .onDevice) :
    Recognized sha256 opts (filledDb now opts pending db) ↔
      TranscriptSettles sha256 first opts db := by
  obtain ⟨member, own, was, target⟩ := pendingTranscription_matched found
  unfold TranscriptSettles
  rw [found]
  by_cases untargeted : opts.transcriptionId = none
  · have onDevice : opts.provider = some .onDevice := free.resolve_left (by simp [untargeted])
    obtain ⟨latest, newest⟩ : ∃ latest, latestTranscription db opts.messageId = some latest := by
      rw [← Option.ne_none_iff_exists']
      intro none
      exact Table.latest_eq_none.mp none pending member (decide_eq_true own)
    have stale_iff : expectationStale sha256 opts (filledDb now opts pending db) = true ↔
        latestTranscription db opts.messageId = some pending ∧
          ∃ expected, opts.expectedLatestTranscriptionSha256 = some expected ∧
            some (sha256 ("succeeded" ++ "\n" ++ trim opts.text)) ≠
              expected.map String.toLower := by
      by_cases same : latest = pending
      · subst same
        rw [expectationStale_filledDb was newest met]
        exact (and_iff_right newest).symm
      · rw [expectationStale_congr (latestTranscription_filledDb_other distinct member newest same),
          met, newest]
        simp [same]
    have known : (match pendingTranscription (filledDb now opts pending db) opts.messageId
          opts.transcriptionId with
        | some _ => opts.transcriptionId = none ∧ opts.provider ≠ some .onDevice
        | none => opts.transcriptionId ≠ none ∨
          ∃ latest, latestTranscription (filledDb now opts pending db) opts.messageId =
              some latest ∧ (OnDevicePreferred opts latest ∨ redelivered opts latest = true)) ↔
        (∀ row ∈ db.transcriptions, row.messageId = opts.messageId → row.status = .pending →
          row = pending) ∧
        ∀ latest, latestTranscription db opts.messageId = some latest →
          (latest = pending → opts.requestedByUserId ≠ none ∨ pending.requestedById = none) ∧
          (latest ≠ pending → redelivered opts latest = true) := by
      rw [← pendingTranscription_filledDb_none untargeted distinct member was]
      cases pendingTranscription (filledDb now opts pending db) opts.messageId
          opts.transcriptionId with
      | some other => simp [onDevice]
      | none =>
        simp only [untargeted, ne_eq, not_true_eq_false, false_or, true_and, OnDevicePreferred,
          onDevice, false_and, newest, Option.some.injEq, forall_eq']
        by_cases same : latest = pending
        · subst same
          rw [latestTranscription_filledDb_own was newest]
          simp [redelivered_filled]
        · rw [latestTranscription_filledDb_other distinct member newest same, newest]
          simp [same]
    unfold Recognized
    rw [stale_iff, known]
    simp [untargeted]
  · have unfilled : pendingTranscription (filledDb now opts pending db) opts.messageId
        opts.transcriptionId = none := by
      apply Table.latest_eq_none.mpr
      intro row member' matched
      obtain ⟨old, here, same⟩ := Table.mem_updateMany.mp member'
      have named : opts.transcriptionId = some pending.id := target.resolve_left untargeted
      simp only [named, reduceCtorEq, false_or, Option.some.injEq, decide_eq_true_eq] at matched
      by_cases filling : old.id = pending.id ∧ old.status = .pending
      · rw [if_pos (decide_eq_true filling)] at same
        rw [same] at matched
        cases matched.2.1
      · rw [if_neg (by simp [filling])] at same
        rw [same] at matched
        exact filling ⟨matched.2.2.symm, matched.2.1⟩
    unfold Recognized
    rw [unfilled]
    simp [untargeted]

end Filled

/-! ## After a row was added -/

section Added

variable {message : Message}

/-- The row that the result is added as. -/
def added (now : Time) (opts : RecordTranscriptionResultOptions) (message : Message) (db : Db) :
    Transcription :=
  { id := db.nextId
    messageId := opts.messageId
    provider := (opts.provider.getD .push).column
    model := opts.model
    status := .succeeded
    text := some opts.text
    language := opts.language
    durationMs := (db.file message.audioId).bind (·.durationMs)
    completedAt := some now
    requestedById := opts.requestedByUserId
    createdAt := now }

theorem createTranscript_transcriptions :
    (createTranscript now opts message db).2.transcriptions =
      db.transcriptions ++ [added now opts message db] := rfl

theorem redelivered_added : redelivered opts (added now opts message db) = true := by
  simp [redelivered, added]

theorem recognized_createTranscript (met : expectationStale sha256 opts db = false)
    (found : pendingTranscription db opts.messageId opts.transcriptionId = none)
    (untargeted : opts.transcriptionId = none)
    (fresh : ∀ latest, latestTranscription db opts.messageId = some latest →
      ¬ OnDevicePreferred opts latest ∧ redelivered opts latest = false) :
    Recognized sha256 opts (createTranscript first opts message db).2 ↔
      TranscriptSettles sha256 first opts db := by
  have pendings : pendingTranscription (createTranscript first opts message db).2 opts.messageId
      opts.transcriptionId = none := by
    apply Table.latest_eq_none.mpr
    rw [createTranscript_transcriptions]
    intro row member matched
    rcases List.mem_append.mp member with before | new
    · exact Table.latest_eq_none.mp found row before matched
    · rw [List.mem_singleton.mp new] at matched
      simp [added] at matched
  have newest : latestTranscription (createTranscript first opts message db).2 opts.messageId =
      match latestTranscription db opts.messageId with
      | none => some (added first opts message db)
      | some row => if row.createdAt < first then some (added first opts message db)
          else some row := by
    unfold latestTranscription Table.latest
    rw [createTranscript_transcriptions, List.filter_append,
      List.filter_cons_of_pos (by simp [added]), List.filter_nil, Table.newest_append_single]
    cases Table.newest (·.createdAt)
        (db.transcriptions.filter fun row => row.messageId = opts.messageId) with
    | none => rfl
    | some row => rfl
  unfold TranscriptSettles
  rw [found]
  have known (added_newest : latestTranscription (createTranscript first opts message db).2
      opts.messageId = some (added first opts message db)) :
      Recognized sha256 opts (createTranscript first opts message db).2 := by
    right
    rw [pendings]
    exact Or.inr ⟨_, added_newest, Or.inr redelivered_added⟩
  cases before : latestTranscription db opts.messageId with
  | none =>
    rw [before] at newest
    simp only [reduceCtorEq, false_implies, implies_true, iff_true]
    exact known newest
  | some latest =>
    rw [before] at newest
    obtain ⟨free, again⟩ := fresh latest before
    simp only [Option.some.injEq, forall_eq', again, Bool.false_eq_true, false_or]
    by_cases above : latest.createdAt < first
    · simp only [if_pos above] at newest
      exact iff_of_true (known newest) above
    · simp only [if_neg above] at newest
      apply iff_of_false _ above
      rintro (stale | other)
      · rw [expectationStale_congr (newest.trans before.symm), met] at stale
        cases stale
      · rw [pendings] at other
        rcases other with targeted | ⟨row, there, kept⟩
        · exact targeted untargeted
        · rw [newest] at there
          cases there
          rcases kept with preferred | same
          · exact free preferred
          · rw [again] at same
            cases same

end Added

/-- A transcript that was accepted can be delivered again exactly where it settles. -/
theorem transcriptRepeats_iff_settles (distinct : (db.transcriptions.map (·.id)).Nodup)
    (accepted : (recordTranscriptionResultInTransaction sha256 first opts db).1.Accepted) :
    TranscriptRepeats sha256 first opts db ↔ TranscriptSettles sha256 first opts db := by
  obtain ⟨met, message, there, cases⟩ := recordTranscription_cases accepted
  have still : (deliverTranscript sha256 opts db first).message opts.messageId = some message := by
    rw [← there]
    unfold Db.message deliverTranscript
    rw [recordTranscription_messages]
  rw [transcriptRepeats_iff still]
  unfold deliverTranscript
  rcases cases with ⟨pending, found, free, filling⟩ | ⟨found, untargeted, unchanged | adding⟩
  · obtain ⟨member, -, was, -⟩ := pendingTranscription_matched found
    rw [filling, finalizeTranscription_filled member was]
    exact recognized_filledDb distinct met found free
  · obtain ⟨latest, newest, again, outcome⟩ := unchanged
    rw [outcome]
    apply iff_of_true
    · right
      rw [found]
      exact Or.inr ⟨latest, newest, Or.inr again⟩
    · unfold TranscriptSettles
      rw [found]
      intro other there
      rw [newest] at there
      cases there
      exact Or.inl again
  · rw [adding.2]
    exact recognized_createTranscript met found untargeted adding.1

end Transcripts

end BoothOperator.Pipeline
