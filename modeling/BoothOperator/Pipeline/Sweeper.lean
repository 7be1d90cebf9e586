import Mathlib.Data.List.Perm.Basic
import BoothOperator.Schema

/-! `lib/ai/sweeper.ts`. The query takes the newest messages with any stale pending attempt,
and what is stranded is looked for among these: other ones in front of the limit keep stranded
messages out of a sweep. -/
namespace BoothOperator.Pipeline

open BoothOperator.Schema

/-- `new Date(Date.now() - staleThresholdMs)`, a whole millisecond. -/
def staleBefore (now : Time) (staleThresholdMs : Rat) : Time :=
  let exact : Rat := now - staleThresholdMs
  if 0 ≤ exact then exact.floor else exact.ceil

/-- `UNDECIDED_STATUSES`. -/
def isUndecided (message : Message) : Bool :=
  message.status = .received || message.status = .pending

def attemptsOf (db : Db) (message : Message) : List Transcription :=
  db.transcriptions.filter fun row => row.messageId = message.id

def isStalePending (before : Time) (row : Transcription) : Bool :=
  row.status = .pending && row.createdAt < before

/-- `where` of the query. -/
def isRecoveryCandidate (before : Time) (db : Db) (message : Message) : Bool :=
  isUndecided message &&
    ((attemptsOf db message).isEmpty || (attemptsOf db message).any (isStalePending before))

/-- What the database answers: the candidates, the newest first, and with each its newest
attempt; equal times may come in any order. -/
structure Answer (before : Time) (db : Db) where
  messages : List Message
  perm : messages.Perm (db.messages.filter (isRecoveryCandidate before db))
  newest : messages.Pairwise fun one other => other.createdAt ≤ one.createdAt
  latest : Message → Option Transcription
  none_iff : ∀ message, latest message = none ↔ attemptsOf db message = []
  latest_mem : ∀ message row, latest message = some row → row ∈ attemptsOf db message
  latest_max : ∀ message row, latest message = some row → ∀ other ∈ attemptsOf db message,
    other.createdAt ≤ row.createdAt

variable {before : Time} {db : Db}

/-- No transcription at all, or a latest one that is pending and stale. -/
def Answer.isStranded (answer : Answer before db) (message : Message) : Bool :=
  match answer.latest message with
  | none => true
  | some latest => isStalePending before latest

/-- The messages whose ids `findStrandedMessages` returns. -/
def Answer.stranded (answer : Answer before db) (limit : Nat) : List Message :=
  (answer.messages.take limit).filter answer.isStranded

def findStrandedMessages (limit : Nat) (answer : Answer before db) : List Id :=
  (answer.stranded limit).map (·.id)

/-- How many undecided messages are stranded. -/
def strandedCount (answer : Answer before db) : Nat :=
  db.messages.countP fun message => isUndecided message && answer.isStranded message

/-- A sweep finds as many stranded messages as it may, and no others. -/
def SweepsAll (limit : Nat) (answer : Answer before db) : Prop :=
  (findStrandedMessages limit answer).length = min limit (strandedCount answer) ∧
    ∀ id ∈ findStrandedMessages limit answer, ∃ message ∈ db.messages, message.id = id ∧
      isUndecided message ∧ answer.isStranded message

/-- No candidate within the limit is a decoy, or no stranded message is beyond it. -/
def NotBlinded (limit : Nat) (answer : Answer before db) : Prop :=
  (∀ message ∈ answer.messages.take limit, answer.isStranded message) ∨
    ∀ message ∈ answer.messages.drop limit, ¬answer.isStranded message

section Sweep

variable {limit : Nat} (answer : Answer before db)

theorem mem_messages {message : Message} (member : message ∈ answer.messages) :
    message ∈ db.messages ∧ isUndecided message := by
  obtain ⟨stored, candidate⟩ := List.mem_filter.mp (answer.perm.mem_iff.mp member)
  exact ⟨stored, (Bool.and_eq_true_iff.mp candidate).1⟩

/-- A stranded message is a candidate. -/
theorem candidate_of_stranded {message : Message} (undecided : isUndecided message)
    (stranded : answer.isStranded message) : isRecoveryCandidate before db message := by
  rw [isRecoveryCandidate, undecided, Bool.true_and, Bool.or_eq_true]
  rw [Answer.isStranded] at stranded
  split at stranded
  · rename_i nothing
    exact Or.inl (List.isEmpty_iff.mpr ((answer.none_iff message).mp nothing))
  · rename_i latest found
    exact Or.inr (List.any_eq_true.mpr ⟨latest, answer.latest_mem message latest found, stranded⟩)

theorem strandedCount_eq : strandedCount answer = answer.messages.countP answer.isStranded := by
  rw [strandedCount, answer.perm.countP_eq, List.countP_filter]
  refine List.countP_congr fun message _ => ?_
  rw [Bool.and_eq_true, Bool.and_eq_true]
  constructor
  · rintro ⟨undecided, stranded⟩
    exact ⟨stranded, candidate_of_stranded answer undecided stranded⟩
  · rintro ⟨stranded, candidate⟩
    exact ⟨(Bool.and_eq_true_iff.mp candidate).1, stranded⟩

/-- What is found is within the limit, and the rest of the stranded messages is beyond it. -/
theorem strandedCount_split : strandedCount answer =
    (findStrandedMessages limit answer).length +
      (answer.messages.drop limit).countP answer.isStranded := by
  rw [strandedCount_eq, findStrandedMessages, List.length_map, Answer.stranded,
    ← List.countP_eq_length_filter, ← List.countP_append, List.take_append_drop]

theorem length_found_eq_iff :
    (findStrandedMessages limit answer).length = min limit (strandedCount answer) ↔
      NotBlinded limit answer := by
  have split := @strandedCount_split _ _ limit answer
  have length : (findStrandedMessages limit answer).length =
      (answer.messages.take limit).countP answer.isStranded := by
    rw [findStrandedMessages, List.length_map, Answer.stranded, List.countP_eq_length_filter]
  have within : (findStrandedMessages limit answer).length ≤ (answer.messages.take limit).length :=
    length.trans_le List.countP_le_length
  have beyond : (answer.messages.drop limit).countP answer.isStranded ≤
      (answer.messages.drop limit).length := List.countP_le_length
  rw [NotBlinded, ← List.countP_eq_length, ← List.countP_eq_zero, ← length]
  rw [List.length_drop] at beyond
  rw [List.length_take] at within ⊢
  omega

/-- **A sweep finds as many stranded messages as it may exactly when no decoy is within the
limit or no stranded message beyond it.** -/
theorem sweepsAll_iff (limit : Nat) (answer : Answer before db) :
    SweepsAll limit answer ↔ NotBlinded limit answer := by
  rw [SweepsAll, length_found_eq_iff, and_iff_left]
  intro id found
  obtain ⟨message, member, rfl⟩ := List.mem_map.mp found
  obtain ⟨taken, stranded⟩ := List.mem_filter.mp member
  obtain ⟨stored, undecided⟩ := mem_messages answer (List.mem_of_mem_take taken)
  exact ⟨message, stored, rfl, undecided, stranded⟩

end Sweep

/-! ## A decoy -/

/-- The newer message was transcribed again after a crash; the older one never was. -/
def decoyed : Db where
  messages := [{ id := 1, audioId := 1, createdAt := 20 }, { id := 2, audioId := 2, createdAt := 10 }]
  transcriptions := [
    { id := 1, messageId := 1, provider := "openai", createdAt := 30 },
    { id := 2, messageId := 1, provider := "openai", status := .succeeded, createdAt := 40 }]

def decoyedAnswer : Answer (staleBefore 400 300) decoyed where
  messages := decoyed.messages
  perm := by
    have all : ∀ message ∈ decoyed.messages,
        isRecoveryCandidate (staleBefore 400 300) decoyed message = true := by decide +kernel
    rw [List.filter_eq_self.mpr all]
  newest := by decide
  latest message :=
    Table.latest (·.createdAt) (fun row => row.messageId = message.id) decoyed.transcriptions
  none_iff _ := Table.latest_eq_none.trans List.filter_eq_nil_iff.symm
  latest_mem _ _ found := List.mem_filter.mpr (Table.latest_mem found)
  latest_max _ _ found other member :=
    Table.latest_max found other (List.mem_filter.mp member).1 (List.mem_filter.mp member).2

/-- A sweep of one message finds none. -/
theorem not_sweepsAll_decoyed : ¬SweepsAll 1 decoyedAnswer := by
  intro sweeps
  have found : (findStrandedMessages 1 decoyedAnswer).length = 0 := by decide +kernel
  have stranded : strandedCount decoyedAnswer = 1 := by decide +kernel
  have length := sweeps.1
  rw [found, stranded] at length
  exact absurd length (by decide)

end BoothOperator.Pipeline
