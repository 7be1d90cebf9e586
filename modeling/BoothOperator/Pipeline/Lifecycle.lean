import BoothOperator.Lib.Attempts
import BoothOperator.Pipeline.Soundness
import BoothOperator.Pipeline.World

/-! The transcripts of a message as attempts at its text. A transaction of the
pipeline leaves the attempts alone or makes one move, and a move that brings a
transcript about leaves no live verdict on the message. -/
namespace BoothOperator.Pipeline

open BoothOperator.Schema
open BoothOperator.Attempts

/-! ## The attempts of a database -/

def phaseOf : TranscriptionStatus → Phase
  | .pending => .pending
  | .succeeded => .succeeded
  | .failed => .failed

@[simp]
theorem phaseOf_eq_succeeded {status : TranscriptionStatus} :
    phaseOf status = .succeeded ↔ status = .succeeded := by
  cases status <;> simp [phaseOf]

theorem phaseOf_injective {one other : TranscriptionStatus} (same : phaseOf one = phaseOf other) :
    one = other := by
  cases one <;> cases other <;> first | rfl | cases same

abbrev Transcript := Attempt Id Id Time (Option String)

def attempt (row : Transcription) : Transcript where
  id := row.id
  subject := row.messageId
  begun := row.createdAt
  phase := phaseOf row.status
  result := row.text

def attempts (db : Db) : List Transcript := db.transcriptions.map attempt

theorem mem_attempts {db : Db} {one : Transcript} :
    one ∈ attempts db ↔ ∃ row ∈ db.transcriptions, attempt row = one := List.mem_map

/-- The verdict is live and refers to the transcript. -/
def Targets (verdict : Moderation) (transcriptionId : Id) : Prop :=
  Live verdict ∧ verdict.transcriptionId = some transcriptionId

structure Distinct (db : Db) : Prop where
  ids : (db.moderations.map (·.id)).Nodup
  bound : ∀ verdict ∈ db.moderations, verdict.id < db.nextId

/-- What a transaction does that brings no transcript about. -/
structure Quiet (before after : Db) : Prop where
  same : attempts after = attempts before
  nextId : before.nextId ≤ after.nextId
  distinct : Distinct before → Distinct after
  targets : ∀ verdict ∈ after.moderations, ∀ id, Targets verdict id →
    (∃ old ∈ before.moderations, Targets old id ∧ old.messageId = verdict.messageId) ∨
      ∃ one, Counts (attempts before) one ∧ one.id = id ∧ one.subject = verdict.messageId

/-- What a transaction does that moves the attempts: the verdicts that stay live
are of messages it brings no transcript about for. -/
structure Moves (before after : Db) : Prop where
  move : Move (attempts before) (attempts after)
  nextId : before.nextId ≤ after.nextId
  bound : ∀ row ∈ after.transcriptions,
    (∃ old ∈ before.transcriptions, old.id = row.id) ∨
      before.nextId ≤ row.id ∧ row.id < after.nextId
  distinct : Distinct before → Distinct after
  targets : ∀ verdict ∈ after.moderations, ∀ id, Targets verdict id →
    (∃ old ∈ before.moderations, Targets old id ∧ old.messageId = verdict.messageId) ∧
      ∀ one ∈ attempts after, one.subject = verdict.messageId → one.phase = .succeeded →
        one ∈ attempts before

/-- One transaction: a move, if it makes one, and what it does after that. -/
def Transacts (before after : Db) : Prop :=
  ∃ middle, (middle = before ∨ Moves before middle) ∧ Quiet middle after

/-- The attempts are in order, and live verdicts are on the transcript that counts. -/
structure Timely (db : Db) : Prop where
  orderly : Orderly (attempts db)
  bound : ∀ row ∈ db.transcriptions, row.id < db.nextId
  distinct : Distinct db
  current : ∀ verdict ∈ db.moderations, ∀ id, Targets verdict id →
    ∃ one, Counts (attempts db) one ∧ one.id = id ∧ one.subject = verdict.messageId

section Transactions

variable {before middle after : Db}

/-- Verdicts keep their ids, and no id is taken back. -/
theorem Distinct.of_ids (distinct : Distinct before)
    (ids : after.moderations.map (·.id) = before.moderations.map (·.id))
    (nextId : before.nextId ≤ after.nextId) : Distinct after where
  ids := ids ▸ distinct.ids
  bound := by
    intro verdict member
    have there : verdict.id ∈ before.moderations.map (·.id) := ids ▸ List.mem_map_of_mem member
    obtain ⟨old, was, same⟩ := List.mem_map.mp there
    exact same ▸ (distinct.bound old was).trans_le nextId

theorem distinct_updateModerations {found : Moderation → Bool} {change : Moderation → Moderation}
    (kept : ∀ row, (change row).id = row.id) (distinct : Distinct before) :
    Distinct (before.updateModerations found change) :=
  distinct.of_ids (Table.map_updateMany _ kept before.moderations) le_rfl

theorem distinct_supersede {selected : Moderation → Bool} {error : String} {now : Time}
    (distinct : Distinct before) : Distinct (supersede now selected error before) := by
  refine distinct_updateModerations (fun _ => ?_) distinct
  rfl

theorem Quiet.of_tables (transcriptions : after.transcriptions = before.transcriptions)
    (moderations : after.moderations = before.moderations) (nextId : after.nextId = before.nextId) :
    Quiet before after where
  same := congrArg (List.map attempt) transcriptions
  nextId := nextId.ge
  distinct distinct := distinct.of_ids (congrArg _ moderations) nextId.ge
  targets verdict member _ targets :=
    .inl ⟨verdict, moderations ▸ member, targets, rfl⟩

theorem Quiet.refl (db : Db) : Quiet db db := .of_tables rfl rfl rfl

theorem Quiet.trans (first : Quiet before middle) (second : Quiet middle after) :
    Quiet before after where
  same := second.same.trans first.same
  nextId := first.nextId.trans second.nextId
  distinct distinct := second.distinct (first.distinct distinct)
  targets := by
    intro verdict member id targets
    rcases second.targets verdict member id targets with ⟨old, there, targets', message⟩ | counts
    · rcases first.targets old there id targets' with ⟨older, there, targets', message'⟩ | counts
      · exact .inl ⟨older, there, targets', message'.trans message⟩
      · rw [message] at counts
        exact .inr counts
    · rw [first.same] at counts
      exact .inr counts

theorem Quiet.transacts (quiet : Quiet before after) : Transacts before after :=
  ⟨before, .inl rfl, quiet⟩

theorem Moves.transacts (moves : Moves before after) : Transacts before after :=
  ⟨after, .inr moves, Quiet.refl after⟩

theorem Transacts.quiet (transacts : Transacts before middle) (quiet : Quiet middle after) :
    Transacts before after :=
  let ⟨moved, first, rest⟩ := transacts
  ⟨moved, first, rest.trans quiet⟩

theorem Timely.quiet (timely : Timely before) (quiet : Quiet before after) : Timely after where
  orderly := quiet.same ▸ timely.orderly
  bound := by
    intro row member
    have kept : attempt row ∈ attempts before := quiet.same ▸ List.mem_map_of_mem member
    obtain ⟨old, there, same⟩ := mem_attempts.mp kept
    have id : old.id = row.id := congrArg Attempt.id same
    exact id ▸ (timely.bound old there).trans_le quiet.nextId
  distinct := quiet.distinct timely.distinct
  current := by
    intro verdict member id targets
    rw [quiet.same]
    rcases quiet.targets verdict member id targets with ⟨old, there, targets, message⟩ | counts
    · rw [← message]
      exact timely.current old there id targets
    · exact counts

theorem Timely.moves (timely : Timely before) (moves : Moves before after)
    (order : InOrder (attempts before) (attempts after)) : Timely after where
  orderly := moves.move.orderly timely.orderly order
  bound := by
    intro row member
    rcases moves.bound row member with ⟨old, there, same⟩ | ⟨_, new⟩
    · exact same ▸ (timely.bound old there).trans_le moves.nextId
    · exact new
  distinct := moves.distinct timely.distinct
  current := by
    intro verdict member id targets
    obtain ⟨⟨old, there, targets, message⟩, quiet⟩ := moves.targets verdict member id targets
    obtain ⟨one, counts, same, subject⟩ := timely.current old there id targets
    have about : one.subject = verdict.messageId := subject.trans message
    refine ⟨one, ?_, same, about⟩
    exact (moves.move.settles timely.orderly order).counts counts fun new here subject done =>
      quiet new here (subject.trans about) done

/-- **One transaction keeps the order; what succeeds in it counts at its commit.** -/
theorem Timely.transacts (timely : Timely before) (transacts : Transacts before after)
    (order : InOrder (attempts before) (attempts after)) :
    Timely after ∧ Settles (attempts before) (attempts after) := by
  obtain ⟨middle, first, quiet⟩ := transacts
  rcases first with rfl | moves
  · exact ⟨timely.quiet quiet, quiet.same ▸ Settles.refl _⟩
  · rw [quiet.same] at order ⊢
    exact ⟨(timely.moves moves order).quiet quiet, moves.move.settles timely.orderly order⟩


theorem Transacts.nextId (transacts : Transacts before after) : before.nextId ≤ after.nextId := by
  obtain ⟨middle, first, quiet⟩ := transacts
  rcases first with rfl | moves
  · exact quiet.nextId
  · exact moves.nextId.trans quiet.nextId

/-- A transaction that begins after statements on other tables. -/
theorem Transacts.of_tables (transcriptions : middle.transcriptions = before.transcriptions)
    (moderations : middle.moderations = before.moderations) (nextId : middle.nextId = before.nextId)
    (transacts : Transacts middle after) : Transacts before after := by
  obtain ⟨moved, first, quiet⟩ := transacts
  have same : attempts middle = attempts before := congrArg (List.map attempt) transcriptions
  rcases first with rfl | moves
  · exact ((Quiet.of_tables transcriptions moderations nextId).trans quiet).transacts
  · refine ⟨moved, .inr ⟨?_, ?_, ?_, ?_, ?_⟩, quiet⟩
    · exact same ▸ moves.move
    · exact nextId ▸ moves.nextId
    · rw [← transcriptions, ← nextId]
      exact moves.bound
    · exact fun distinct => moves.distinct (distinct.of_ids (congrArg _ moderations) nextId.ge)
    · rw [← moderations, ← same]
      exact moves.targets

/-- The row of an id keeps its message; an id that is spent is not taken again. -/
theorem Timely.message (timely : Timely before) (transacts : Transacts before after)
    (order : InOrder (attempts before) (attempts after)) {id messageId : Id}
    (spent : id < before.nextId)
    (owned : ∀ row ∈ before.transcriptions, row.id = id → row.messageId = messageId) :
    ∀ row ∈ after.transcriptions, row.id = id → row.messageId = messageId := by
  obtain ⟨later, settles⟩ := timely.transacts transacts order
  intro row member same
  have known : ∃ old ∈ before.transcriptions, old.id = row.id := by
    obtain ⟨middle, first, quiet⟩ := transacts
    have there : attempt row ∈ attempts middle := quiet.same ▸ List.mem_map_of_mem member
    obtain ⟨row', there, same'⟩ := mem_attempts.mp there
    have id' : row'.id = row.id := congrArg Attempt.id same'
    rcases first with rfl | moves
    · exact ⟨row', there, id'⟩
    · rcases moves.bound row' there with ⟨old, was, id''⟩ | ⟨fresh, _⟩
      · exact ⟨old, was, id''.trans id'⟩
      · rw [id', same] at fresh
        exact absurd spent (Nat.not_lt.mpr fresh)
  obtain ⟨old, was, id'⟩ := known
  obtain ⟨new, there, newId, subject, _⟩ := settles.kept (attempt old) (List.mem_map_of_mem was)
  have equal : new = attempt row :=
    later.orderly.unique there (List.mem_map_of_mem member) (newId.trans id')
  rw [equal] at subject
  exact subject.trans (owned old was (id'.trans same))

end Transactions

/-! ## Transcripts -/

section Writers

variable {sha256 : String → String} {now : Time} {db : Db}

theorem related_update {R : Transcript → Transcript → Prop} (same : ∀ one, R one one)
    {found : Transcription → Bool} {change : Transcription → Transcription}
    (moved : ∀ row ∈ db.transcriptions, found row = true → R (attempt row) (attempt (change row))) :
    List.Forall₂ R (attempts db) (attempts (db.updateTranscriptions found change)) := by
  unfold attempts Db.updateTranscriptions Table.updateMany
  rw [List.map_map, List.forall₂_map_left_iff, List.forall₂_map_right_iff, List.forall₂_same]
  intro row member
  simp only [Function.comp]
  split
  · rename_i matched
    exact moved row member matched
  · exact same _

theorem ids_update {found : Transcription → Bool} {change : Transcription → Transcription}
    (kept : ∀ row, (change row).id = row.id) :
    ∀ row ∈ (db.updateTranscriptions found change).transcriptions,
      ∃ old ∈ db.transcriptions, old.id = row.id := by
  intro row member
  obtain ⟨old, there, rfl⟩ := Table.mem_updateMany.mp member
  refine ⟨old, there, ?_⟩
  split
  · exact (kept old).symm
  · rfl

/-- A verdict that a superseding update leaves live was not selected. -/
theorem targets_supersede {selected : Moderation → Bool} {error : String} {verdict : Moderation}
    {id : Id} (member : verdict ∈ (supersede now selected error db).moderations)
    (targets : Targets verdict id) : verdict ∈ db.moderations ∧ ¬ selected verdict = true := by
  obtain ⟨old, there, rfl⟩ := Table.mem_updateMany.mp member
  by_cases matched : (selected old = true ∧ Live old)
  · have ended := targets.1
    rw [if_pos (decide_eq_true matched)] at ended
    rcases ended with pending | succeeded
    · cases pending
    · cases succeeded
  · rw [if_neg (by simpa using matched)] at targets ⊢
    exact ⟨there, fun selected => matched ⟨selected, targets.1⟩⟩

/-- A pending row of a message becomes its transcript. -/
theorem moves_record (messageId : Id) {found : Transcription → Bool}
    {change : Transcription → Transcription}
    (own : ∀ row ∈ db.transcriptions, found row = true →
      row.messageId = messageId ∧ row.status = .pending)
    (kept : ∀ row, (change row).id = row.id ∧ (change row).messageId = row.messageId ∧
      (change row).createdAt = row.createdAt ∧ (change row).status = .succeeded) :
    Moves db (supersedeByTranscription now messageId (db.updateTranscriptions found change)) where
  move := by
    refine .settle (related_update .same fun row member matched => ?_)
    obtain ⟨id, message, created, succeeded⟩ := kept row
    refine .settle (congrArg phaseOf (own row member matched).2) ?_ id message created
    simp [attempt, succeeded, phaseOf]
  nextId := le_rfl
  bound := fun row member => .inl (ids_update (fun row => (kept row).1) row member)
  distinct distinct := distinct_supersede (distinct.of_ids rfl le_rfl)
  targets := by
    intro verdict member id targets
    obtain ⟨there, other⟩ := targets_supersede member targets
    refine ⟨⟨verdict, there, targets, rfl⟩, fun one here subject done => ?_⟩
    obtain ⟨row, stored, rfl⟩ := mem_attempts.mp here
    obtain ⟨old, was, rfl⟩ := Table.mem_updateMany.mp stored
    by_cases matched : found old = true
    · rw [if_pos matched] at subject
      have about : old.messageId = verdict.messageId := (kept old).2.1.symm.trans subject
      exact absurd (decide_eq_true (about.symm.trans (own old was matched).1)) other
    · rw [if_neg matched]
      exact List.mem_map_of_mem was

/-- Pending rows fail. -/
theorem moves_fail {found : Transcription → Bool} {change : Transcription → Transcription}
    (own : ∀ row ∈ db.transcriptions, found row = true → row.status = .pending)
    (kept : ∀ row, (change row).id = row.id ∧ (change row).messageId = row.messageId ∧
      (change row).createdAt = row.createdAt ∧ (change row).status = .failed) :
    Moves db (db.updateTranscriptions found change) where
  move := by
    refine .settle (related_update .same fun row member matched => ?_)
    obtain ⟨id, message, created, failed⟩ := kept row
    refine .settle (congrArg phaseOf (own row member matched)) ?_ id message created
    simp [attempt, failed, phaseOf]
  nextId := le_rfl
  bound := fun row member => .inl (ids_update (fun row => (kept row).1) row member)
  distinct distinct := distinct.of_ids rfl le_rfl
  targets := by
    intro verdict member id targets
    refine ⟨⟨verdict, member, targets, rfl⟩, fun one here subject done => ?_⟩
    obtain ⟨row, stored, rfl⟩ := mem_attempts.mp here
    obtain ⟨old, was, rfl⟩ := Table.mem_updateMany.mp stored
    by_cases matched : found old = true
    · rw [if_pos matched, attempt, (kept old).2.2.2] at done
      cases done
    · rw [if_neg matched]
      exact List.mem_map_of_mem was

/-- A row is created; pending rows may be given up for it. -/
theorem move_create (timely : Timely db) {given : Db}
    (gaveUp : List.Forall₂ GivesUp (attempts db) (attempts given))
    (nextId : given.nextId = db.nextId) {create : Id → Transcription}
    (own : ∀ id, (create id).id = id)
    (alone : (create db.nextId).status ≠ .failed → ∀ row ∈ given.transcriptions,
      row.messageId = (create db.nextId).messageId → row.status ≠ .pending) :
    Move (attempts db) (attempts (given.createTranscription create)) := by
  have appended : attempts (given.createTranscription create) =
      attempts given ++ [attempt (create db.nextId)] := by
    unfold attempts Db.createTranscription
    rw [List.map_append, List.map_singleton, nextId]
  rw [appended]
  refine .create gaveUp (fun other member same => ?_) fun unfailed other member subject waits => ?_
  · obtain ⟨old, there, evolved⟩ := mem_right gaveUp member
    obtain ⟨row, stored, rfl⟩ := mem_attempts.mp there
    have id : row.id = db.nextId := evolved.evolves.frame.1.symm.trans (same.trans (own _))
    exact absurd id (timely.bound row stored).ne
  · obtain ⟨row, stored, rfl⟩ := mem_attempts.mp member
    refine alone (fun failed => unfailed (congrArg phaseOf failed)) row stored subject ?_
    exact phaseOf_injective waits

theorem bound_create {given : Db} (ids : ∀ row ∈ given.transcriptions,
      ∃ old ∈ db.transcriptions, old.id = row.id) (nextId : given.nextId = db.nextId)
    {create : Id → Transcription} (own : ∀ id, (create id).id = id) :
    ∀ row ∈ (given.createTranscription create).transcriptions,
      (∃ old ∈ db.transcriptions, old.id = row.id) ∨
        db.nextId ≤ row.id ∧ row.id < (given.createTranscription create).nextId := by
  intro row member
  rcases List.mem_append.mp member with old | new
  · exact .inl (ids row old)
  · rw [List.mem_singleton.mp new, own]
    exact .inr ⟨nextId.ge, Nat.lt_succ_self _⟩

/-- A row that is pending or failed is created. -/
theorem moves_create (timely : Timely db) {given : Db}
    (gaveUp : List.Forall₂ GivesUp (attempts db) (attempts given))
    (nextId : given.nextId = db.nextId) (moderations : given.moderations = db.moderations)
    {create : Id → Transcription} (own : ∀ id, (create id).id = id)
    (open_ : (create db.nextId).status ≠ .succeeded)
    (alone : (create db.nextId).status ≠ .failed → ∀ row ∈ given.transcriptions,
      row.messageId = (create db.nextId).messageId → row.status ≠ .pending) :
    Moves db (given.createTranscription create) where
  move := move_create timely gaveUp nextId own alone
  nextId := nextId ▸ Nat.le_succ _
  bound := by
    refine bound_create (fun row member => ?_) nextId own
    obtain ⟨old, there, evolved⟩ := mem_right gaveUp (List.mem_map_of_mem member)
    obtain ⟨row', stored, rfl⟩ := mem_attempts.mp there
    exact ⟨row', stored, evolved.evolves.frame.1.symm⟩
  distinct distinct := distinct.of_ids (congrArg _ moderations) (nextId ▸ Nat.le_succ _)
  targets := by
    intro verdict member id targets
    refine ⟨⟨verdict, moderations ▸ member, targets, rfl⟩, fun one here subject done => ?_⟩
    obtain ⟨row, stored, rfl⟩ := mem_attempts.mp here
    rcases List.mem_append.mp stored with old | new
    · exact succeeded_of_givesUp gaveUp (List.mem_map_of_mem old) done
    · rw [List.mem_singleton.mp new, nextId] at done
      exact absurd (phaseOf_eq_succeeded.mp done) open_

/-- A transcript is created for a message that has nothing pending. -/
theorem moves_createTranscript (timely : Timely db) {create : Id → Transcription}
    (own : ∀ id, (create id).id = id)
    (alone : ∀ row ∈ db.transcriptions, row.messageId = (create db.nextId).messageId →
      row.status ≠ .pending) :
    Moves db (supersedeByTranscription now (create db.nextId).messageId
      (db.createTranscription create)) where
  move := move_create timely (List.forall₂_same.mpr fun one _ => .same one) rfl own fun _ => alone
  nextId := Nat.le_succ _
  bound := bound_create (fun row member => ⟨row, member, rfl⟩) rfl own
  distinct distinct := distinct_supersede (distinct.of_ids rfl (Nat.le_succ _))
  targets := by
    intro verdict member id targets
    obtain ⟨there, other⟩ := targets_supersede member targets
    refine ⟨⟨verdict, there, targets, rfl⟩, fun one here subject done => ?_⟩
    obtain ⟨row, stored, rfl⟩ := mem_attempts.mp here
    rcases List.mem_append.mp stored with old | new
    · exact List.mem_map_of_mem old
    · rw [List.mem_singleton.mp new] at subject
      exact absurd (decide_eq_true subject.symm) other

theorem pendingTranscription_cases {messageId : Id} {pending : Transcription}
    {transcriptionId : Option Id}
    (found : pendingTranscription db messageId transcriptionId = some pending) :
    pending ∈ db.transcriptions ∧ pending.messageId = messageId ∧ pending.status = .pending := by
  obtain ⟨member, matched⟩ := Table.latest_mem found
  simp only [decide_eq_true_eq] at matched
  exact ⟨member, matched.1, matched.2.1⟩

theorem pendingTranscription_none {messageId : Id}
    (none : pendingTranscription db messageId none = none) :
    ∀ row ∈ db.transcriptions, row.messageId = messageId → row.status ≠ .pending := by
  intro row member own pending
  exact Table.latest_eq_none.mp none row member (by simp [own, pending])

theorem Timely.ids (timely : Timely db) : (db.transcriptions.map (·.id)).Nodup := by
  have nodup := timely.orderly.ids
  rw [attempts, List.map_map] at nodup
  exact nodup

theorem Timely.unique (timely : Timely db) {row other : Transcription}
    (here : row ∈ db.transcriptions) (there : other ∈ db.transcriptions)
    (same : row.id = other.id) : row = other :=
  Table.eq_of_key_eq timely.ids here there same

/-- A message has one pending row at most. -/
theorem Timely.pending (timely : Timely db) {row other : Transcription}
    (here : row ∈ db.transcriptions) (there : other ∈ db.transcriptions)
    (message : row.messageId = other.messageId) (pending : row.status = .pending)
    (pending' : other.status = .pending) : row = other := by
  have same := timely.orderly.alone _ (List.mem_map_of_mem here) _ (List.mem_map_of_mem there)
    message (congrArg phaseOf pending) (congrArg phaseOf pending')
  exact timely.unique here there (congrArg Attempt.id same)

theorem givesUp_supersedeStale (timely : Timely db) (now : Time) (messageId : Id) :
    List.Forall₂ GivesUp (attempts db)
      (attempts (supersedeStale now (pendingTranscription db messageId none) db)) := by
  unfold supersedeStale
  split
  · exact List.forall₂_same.mpr fun one _ => .same one
  · rename_i stale found
    obtain ⟨member, _, pending⟩ := pendingTranscription_cases found
    refine related_update .same fun row there matched => ?_
    cases timely.unique there member (of_decide_eq_true matched)
    exact .fail (congrArg phaseOf pending) rfl rfl rfl rfl

theorem alone_supersedeStale (timely : Timely db) (now : Time) (messageId : Id) :
    ∀ row ∈ (supersedeStale now (pendingTranscription db messageId none) db).transcriptions,
      row.messageId = messageId → row.status ≠ .pending := by
  unfold supersedeStale
  split
  · rename_i none
    exact pendingTranscription_none none
  · rename_i stale found
    obtain ⟨member, message, pending⟩ := pendingTranscription_cases found
    intro row there own waits
    obtain ⟨old, was, rfl⟩ := Table.mem_updateMany.mp there
    by_cases matched : old.id = stale.id
    · rw [if_pos (decide_eq_true matched)] at waits
      cases waits
    · rw [if_neg (by simpa using matched)] at own waits
      cases timely.pending was member (own.trans message.symm) waits pending
      exact matched rfl

theorem supersedeStale_nextId (existing : Option Transcription) :
    (supersedeStale now existing db).nextId = db.nextId := by
  cases existing with
  | none => rfl
  | some _ => rfl

theorem supersedeStale_moderations (existing : Option Transcription) :
    (supersedeStale now existing db).moderations = db.moderations := by
  cases existing with
  | none => rfl
  | some _ => rfl

theorem transacts_prepareProvider (timely : Timely db) (opts : RunTranscriptionOptions)
    (provider : Provider) (audio : File) :
    Transacts db (prepareProvider now opts provider audio db).db := by
  have gaveUp := givesUp_supersedeStale timely now opts.messageId
  have alone := alone_supersedeStale timely now opts.messageId
  simp only [prepareProvider]
  split
  · exact (Quiet.refl db).transacts
  · split
    · refine Moves.transacts ?_
      dsimp only
      refine moves_create timely gaveUp (supersedeStale_nextId _) (supersedeStale_moderations _)
        (fun _ => rfl) ?_ ?_
      · exact fun failed => nomatch failed
      · exact fun unfailed => absurd rfl unfailed
    · refine Moves.transacts ?_
      dsimp only
      refine moves_create timely gaveUp (supersedeStale_nextId _) (supersedeStale_moderations _)
        (fun _ => rfl) ?_ ?_
      · exact fun pending => nomatch pending
      · exact fun _ => alone

theorem transacts_prepareTranscription (timely : Timely db) (opts : RunTranscriptionOptions)
    (audio : File) (latest : Option Id) :
    Transacts db (prepareTranscription now opts audio latest db).db := by
  have untouched : List.Forall₂ GivesUp (attempts db) (attempts db) :=
    List.forall₂_same.mpr fun one _ => .same one
  simp only [prepareTranscription]
  split
  · exact (Quiet.refl db).transacts
  · split
    · exact transacts_prepareProvider timely opts _ audio
    · split
      · simp only [preparePush]
        split
        · exact (Quiet.refl db).transacts
        · rename_i none
          refine Moves.transacts ?_
          dsimp only
          refine moves_create timely untouched rfl rfl (fun _ => rfl) ?_ ?_
          · exact fun pending => nomatch pending
          · exact fun _ => pendingTranscription_none none
      · refine Moves.transacts ?_
        dsimp only
        refine moves_create timely untouched rfl rfl (fun _ => rfl) ?_ ?_
        · exact fun failed => nomatch failed
        · exact fun unfailed => absurd rfl unfailed

/-- The pending row of a run is one of its message. -/
def Owns (db : Db) (run : TranscriptionRun) : Prop :=
  ∀ row ∈ db.transcriptions, row.id = run.pendingId → row.messageId = run.messageId

theorem ownPending_row {run : TranscriptionRun} {row : Transcription}
    (own : ownPending run row = true) : row.id = run.pendingId ∧ row.status = .pending := by
  simp only [ownPending, decide_eq_true_eq] at own
  exact ⟨own.1, own.2.1⟩

theorem transacts_finalizeRun {run : TranscriptionRun} (owns : Owns db run) (text : String)
    (language : Option String) : Transacts db (finalizeRun now run text language db).db := by
  have recorded : Moves db (supersedeByTranscription now run.messageId
      (db.updateTranscriptions (ownPending run) fun row =>
        { row with
          status := .succeeded
          text := some text
          language
          latencyMs := some (now - run.startedAt)
          completedAt := some now })) := by
    refine moves_record run.messageId (fun row member own => ?_) fun _ => ⟨rfl, rfl, rfl, rfl⟩
    obtain ⟨id, pending⟩ := ownPending_row own
    exact ⟨owns row member id, pending⟩
  simp only [finalizeRun]
  split
  · exact (Quiet.refl db).transacts
  · split
    · exact recorded.transacts
    · split
      · exact recorded.transacts
      · exact recorded.transacts

theorem transacts_failRun (run : TranscriptionRun) (reason : String) :
    Transacts db (failRun now run reason db).db := by
  refine Moves.transacts (moves_fail (fun row _ own => (ownPending_row own).2) ?_)
  exact fun _ => ⟨rfl, rfl, rfl, rfl⟩

theorem transacts_recordTranscription (timely : Timely db)
    (opts : RecordTranscriptionResultOptions) :
    Transacts db (recordTranscriptionResultInTransaction sha256 now opts db).2 := by
  have same : Transacts db db := (Quiet.refl db).transacts
  have created (message : Message) (named : opts.transcriptionId = none)
      (none : pendingTranscription db opts.messageId opts.transcriptionId = none) :
      Transacts db (createTranscript now opts message db).2 := by
    rw [named] at none
    exact (moves_createTranscript timely (fun _ => rfl) (pendingTranscription_none none)).transacts
  unfold recordTranscriptionResultInTransaction
  split
  · exact same
  rename_i message _
  split
  · exact same
  split
  · rename_i pending found
    split
    · exact same
    · simp only [finalizeTranscription]
      split
      · exact same
      · obtain ⟨member, own, _⟩ := pendingTranscription_cases found
        refine Moves.transacts ?_
        refine moves_record opts.messageId (fun row there matched => ?_)
          fun _ => ⟨rfl, rfl, rfl, rfl⟩
        obtain ⟨id, waits⟩ := of_decide_eq_true matched
        exact ⟨timely.unique there member id ▸ own, waits⟩
  · rename_i none
    split
    · exact same
    · rename_i unnamed
      have named := not_not.mp unnamed
      split
      · exact created message named none
      · split
        · exact same
        · split
          · exact same
          · exact created message named none

end Writers

end BoothOperator.Pipeline
