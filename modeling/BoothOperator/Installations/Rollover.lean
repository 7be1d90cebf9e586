import BoothOperator.Messages

/-! How an installation starts and ends. A rollover holds the era exclusively
from before its first write to its commit, and writers hold theirs shared, so
that to everybody else it is one step. A writer whose installation has ended
looks for the next one. -/
namespace BoothOperator.Installations

open BoothOperator.Schema

/-- `ERA_LOCK_ATTEMPTS`. -/
def eraLockAttempts : Nat := 3

def openEra (db : Db) : Option Id := db.findActiveInstallation.map (·.id)

/-- The installation whose row is tried after that of the candidate, which has ended. -/
def nextEra (db : Db) (attempt : Nat) (candidate : Id) : Option Id :=
  match openEra db with
  | none => none
  | some next => if next = candidate ∨ eraLockAttempts ≤ attempt + 1 then none else some next

theorem nextEra_eq_none {db : Db} {attempt : Nat} {candidate : Id}
    (none : nextEra db attempt candidate = none) :
    openEra db = .none ∨ openEra db = some candidate ∨ eraLockAttempts ≤ attempt + 1 := by
  unfold nextEra at none
  split at none
  · exact .inl ‹_›
  · rename_i next found
    split at none
    · rename_i given
      rw [found]
      exact .inr (given.imp_left (congrArg some))
    · cases none

theorem nextEra_eq_some {db : Db} {attempt : Nat} {candidate next : Id}
    (found : nextEra db attempt candidate = some next) :
    openEra db = some next ∧ attempt + 1 < eraLockAttempts := by
  unfold nextEra at found
  split at found
  · cases found
  · rename_i active running
    split at found
    · cases found
    · rename_i goes
      cases found
      exact ⟨running, Nat.lt_of_not_le (not_or.mp goes).2⟩

/-- `closeOutInstallation`, without the summary. -/
def closeOutInstallation (installationId : Id) (endedAt : Time) (db : Db) : Db :=
  let closed := Messages.closeOutMessages installationId endedAt db
  { closed with
    callSessions := Table.updateMany
      (fun row => row.installationId = some installationId ∧ row.endedAt = none)
      (fun row => { row with endedAt := some endedAt, outcome := some .installationEnded })
      closed.callSessions
    questions := Table.updateMany
      (fun row => row.installationId = some installationId ∧ row.status = .active)
      (fun row => { row with status := .archived, retiredAt := some endedAt }) closed.questions }

/-- The claim of an open era, its close-out, and what the operator leaves on it. -/
def endInstallation (id : Id) (endedAt : Time) (endedById : Option String) (db : Db) : Option Db :=
  if db.lockInstallationForWrite id then
    let closed := closeOutInstallation id endedAt db
    some { closed with
      installations := Table.updateMany (fun row => row.id = id)
        (fun row => { row with endedAt := some endedAt, endedById }) closed.installations }
  else none

/-- The questions that a new installation takes over from an ended one. -/
def carriedForward (previous : Installation) (db : Db) : List Question :=
  db.questions.filter fun row => row.installationId = some previous.id ∧
    (row.status = .active ∨ row.status = .draft ∨
      (row.status = .archived ∧ row.retiredAt.isSome ∧ row.retiredAt = previous.endedAt))

/-- One turn of the loop over them; a prompt or a recording the new era has is passed over. -/
def copyQuestion (installationId : Id) (db : Db) (question : Question) : Db :=
  if db.questions.any fun row => row.installationId = some installationId ∧
      (row.prompt = question.prompt ∨ row.audioId = question.audioId) then db
  else
    { db with
      questions := db.questions ++
        [{ id := db.nextId
           prompt := question.prompt
           status := if question.status = .draft then .draft else .active
           audioId := question.audioId
           weight := question.weight
           installationId := some installationId }]
      nextId := db.nextId + 1 }

/-- The era that was closed last. -/
def lastEnded (db : Db) : Option Installation :=
  Table.latest (fun row => row.endedAt.getD 0) (fun row => row.endedAt ≠ none) db.installations

/-- The new era, with the questions of the previous one when they are asked for. -/
def openInstallation (data : Installation) (previous : Option Installation) (copyQuestions : Bool)
    (now : Time) (db : Db) : Db :=
  let installation := { data with id := db.nextId, startedAt := now, endedAt := none }
  let started := { db with
    installations := db.installations ++ [installation], nextId := db.nextId + 1 }
  match copyQuestions, previous with
  | true, some previous =>
    (carriedForward previous started).foldl (copyQuestion installation.id) started
  | _, _ => started

/-- `POST /`: the open era is ended, a new one starts, and questions may be carried over
from the era that was ended, or from the one that was closed last. -/
def startInstallation (data : Installation) (copyQuestions : Bool) (now : Time)
    (endedById : Option String) (db : Db) : Db :=
  match db.findActiveInstallation with
  | none => openInstallation data (lastEnded db) copyQuestions now db
  | some active =>
    match endInstallation active.id now endedById db with
    | none => db
    | some closed => openInstallation data (closed.installation active.id) copyQuestions now closed

end BoothOperator.Installations
