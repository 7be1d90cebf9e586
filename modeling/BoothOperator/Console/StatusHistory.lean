import BoothOperator.Schema

/-! `lib/status-history.ts` of the operator console: the history of booth statuses that it
caches, newest first, and the status that it shows as the current one. -/
namespace BoothOperator.Console

open BoothOperator.Schema (BoothState RuntimeMode Time)

/-- A timestamp as it is written, and the time that `Date.parse` finds in it. -/
structure Timestamp where
  text : String
  ms : Time
  deriving DecidableEq

/-- A field that may be null or absent is read the same way in both cases. -/
structure BoothStatus where
  id : Option Int := none
  state : BoothState
  currentQuestionId : Option String := none
  currentMessageId : Option String := none
  lastError : Option String := none
  runtimeMode : Option RuntimeMode := none
  firstSeenAt : Option Timestamp := none
  updatedAt : Timestamp
  repeatCount : Option Nat := none
  deriving DecidableEq

/-- Frames of an API that sends the ids of rows. -/
def Identified (frames : List BoothStatus) : Prop := ∀ frame ∈ frames, frame.id.isSome

instance (frames : List BoothStatus) : Decidable (Identified frames) :=
  inferInstanceAs (Decidable (∀ frame ∈ frames, _))

/-- `STATUS_HISTORY_LIMIT`. -/
def statusHistoryLimit : Nat := 200

def isSameStatus (a b : BoothStatus) : Bool :=
  a.state = b.state &&
  a.currentQuestionId = b.currentQuestionId &&
  a.currentMessageId = b.currentMessageId &&
  a.lastError = b.lastError &&
  a.runtimeMode = b.runtimeMode

def repeatCountOf (status : BoothStatus) : Nat := status.repeatCount.getD 1

def firstSeenAtOf (status : BoothStatus) : Timestamp := status.firstSeenAt.getD status.updatedAt

/-- The frame is an older view of a row than the one at hand. -/
def isStaleFrame (head status : BoothStatus) : Bool :=
  if status.updatedAt.ms ≠ head.updatedAt.ms then status.updatedAt.ms < head.updatedAt.ms
  else repeatCountOf status < repeatCountOf head

theorem isStaleFrame_iff (head status : BoothStatus) :
    isStaleFrame head status = true ↔ status.updatedAt.ms < head.updatedAt.ms ∨
      status.updatedAt.ms = head.updatedAt.ms ∧ repeatCountOf status < repeatCountOf head := by
  unfold isStaleFrame
  split
  · rename_i apart
    simp [apart]
  · rename_i same
    rw [not_not] at same
    simp [same]

/-- Without ids, two views of one run are an identical status where one window contains the
other. -/
def isSameRun (a b : BoothStatus) : Bool :=
  match a.id, b.id with
  | some one, some other => one = other
  | _, _ =>
    isSameStatus a b &&
      (((firstSeenAtOf a).ms ≤ (firstSeenAtOf b).ms && b.updatedAt.ms ≤ a.updatedAt.ms) ||
        ((firstSeenAtOf b).ms ≤ (firstSeenAtOf a).ms && a.updatedAt.ms ≤ b.updatedAt.ms))

/-! ## Live frames -/

/-- The frame's position in time: before the first entry that is not newer. -/
def position (history : List BoothStatus) (status : BoothStatus) : Nat :=
  history.findIdx fun item => item.updatedAt.ms ≤ status.updatedAt.ms

/-- The positions at which an entry may be the frame's row. -/
def candidates (history : List BoothStatus) (status : BoothStatus) : List Nat :=
  let index := position history status
  match status.id with
  | none => if index = 0 then [index] else [index - 1, index]
  | some _ => List.range history.length

def mergeLiveStatus (limit : Nat) (history : List BoothStatus) (status : BoothStatus) :
    List BoothStatus :=
  let index := position history status
  let cached := (candidates history status).find? fun candidate =>
    history[candidate]?.any (isSameRun · status)
  match cached with
  | some cached =>
    if history[cached]?.any (isStaleFrame · status) then history else history.set cached status
  | none => (history.take index ++ status :: history.drop index).take limit

/-! ## The current status -/

def isNewerThan (status : BoothStatus) : Option BoothStatus → Bool
  | none => true
  | some current =>
    if status.id.isSome ∧ status.id = current.id then !isStaleFrame current status
    else if status.updatedAt.ms ≠ current.updatedAt.ms then
      current.updatedAt.ms < status.updatedAt.ms
    else
      match status.id, current.id with
      | some one, some other => other < one
      | _, _ => if !isSameStatus current status then true else !isStaleFrame current status

/-- A frame that arrives becomes the current status when it is newer. -/
def currentAfter (current : Option BoothStatus) (status : BoothStatus) : Option BoothStatus :=
  if isNewerThan status current then some status else current

/-! ## Display -/

def earlier (a b : Timestamp) : Timestamp := if b.ms < a.ms then b else a

def later (a b : Timestamp) : Timestamp := if a.ms < b.ms then b else a

/-- The entry that a status begins. -/
def opened (status : BoothStatus) : BoothStatus :=
  { status with
    firstSeenAt := some (firstSeenAtOf status)
    repeatCount := some (repeatCountOf status) }

/-- The entry before with one more status in it. -/
def widened (previous status : BoothStatus) : BoothStatus :=
  { previous with
    firstSeenAt := some (earlier (firstSeenAtOf previous) (firstSeenAtOf status))
    updatedAt := later previous.updatedAt status.updatedAt
    repeatCount := some (repeatCountOf previous + repeatCountOf status) }

/-- One turn of the loop. -/
def collapseInto (collapsed : List BoothStatus) (status : BoothStatus) : List BoothStatus :=
  match collapsed.getLast? with
  | some previous =>
    if isSameStatus previous status then collapsed.dropLast ++ [widened previous status]
    else collapsed ++ [opened status]
  | none => collapsed ++ [opened status]

def collapseStatusHistory (history : List BoothStatus) : List BoothStatus :=
  history.foldl collapseInto []

end BoothOperator.Console
