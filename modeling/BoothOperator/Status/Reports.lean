import Mathlib
import BoothOperator.Schema

/-! `PUT /v1/status`: a report that repeats the run it belongs to, or the run
that follows, is folded into that row; any other starts a row of its own. The
columns of ids return them in lower case, and a report is compared as written. -/
namespace BoothOperator.Status

open BoothOperator.Schema

/-- `StatusUpdateSchema`. -/
structure StatusUpdate where
  state : BoothState
  currentQuestionId : Option String := none
  currentMessageId : Option String := none
  lastError : Option String := none
  runtimeMode : Option RuntimeMode := none
  updatedAt : Option Time := none

/-- What two reports of one booth status agree in. -/
structure Observable where
  state : BoothState
  currentQuestionId : Option String
  currentMessageId : Option String
  lastError : Option String
  runtimeMode : Option RuntimeMode
  deriving DecidableEq

/-- The text of a `@db.Uuid` column for a uuid in either case. -/
def uuid (text : String) : String := String.ofList (text.toList.map Char.toLower)

/-- What the columns return. -/
def Observable.stored (observable : Observable) : Observable :=
  { observable with
    currentQuestionId := observable.currentQuestionId.map uuid
    currentMessageId := observable.currentMessageId.map uuid }

def StatusUpdate.observable (update : StatusUpdate) : Observable where
  state := update.state
  currentQuestionId := update.currentQuestionId
  currentMessageId := update.currentMessageId
  lastError := update.lastError
  runtimeMode := update.runtimeMode

def observable (snapshot : BoothStatusSnapshot) : Observable where
  state := snapshot.state
  currentQuestionId := snapshot.currentQuestionId
  currentMessageId := snapshot.currentMessageId
  lastError := snapshot.lastError
  runtimeMode := snapshot.runtimeMode

def isRepeatOf (snapshot : BoothStatusSnapshot) (update : StatusUpdate) : Bool :=
  observable snapshot = update.observable

theorem uuid_uuid (text : String) : uuid (uuid text) = uuid text := by
  have twice : Char.toLower ∘ Char.toLower = Char.toLower :=
    funext Char.toLower_toLower_eq_toLower
  rw [uuid, uuid, String.toList_ofList, List.map_map, twice]

theorem stored_stored (observable : Observable) : observable.stored.stored = observable.stored := by
  have twice : uuid ∘ uuid = uuid := funext uuid_uuid
  simp [Observable.stored, twice]

/-- The ids of a report are spelled as their columns return them. -/
def StatusUpdate.AsStored (update : StatusUpdate) : Prop :=
  update.observable.stored = update.observable

instance (update : StatusUpdate) : Decidable update.AsStored :=
  inferInstanceAs (Decidable (update.observable.stored = update.observable))

/-- The order of a history: `[{ firstSeenAt }, { id }]`. -/
abbrev Key := Time ×ₗ Id

def key (snapshot : BoothStatusSnapshot) : Key := toLex (snapshot.firstSeenAt, snapshot.id)

/-- The run current at the report's own timestamp. -/
def enclosing (era : Id) (reportedAt : Time) (db : Db) : Option BoothStatusSnapshot :=
  Table.latest key (fun row => row.installationId = some era ∧ row.firstSeenAt ≤ reportedAt)
    db.boothStatusSnapshots

/-- The run that started next. -/
def successor (era : Id) (reportedAt : Time) (db : Db) : Option BoothStatusSnapshot :=
  Table.earliest key (fun row => row.installationId = some era ∧ reportedAt < row.firstSeenAt)
    db.boothStatusSnapshots

/-- `[enclosing, successor].find(..)`. -/
def runOf (era : Id) (reportedAt : Time) (update : StatusUpdate) (db : Db) :
    Option BoothStatusSnapshot :=
  (enclosing era reportedAt db).filter (isRepeatOf · update) <|>
    (successor era reportedAt db).filter (isRepeatOf · update)

/-- `data` of the update that folds a report into its run. -/
def widen (reportedAt : Time) (run : BoothStatusSnapshot) : BoothStatusSnapshot :=
  { run with
    firstSeenAt := if reportedAt < run.firstSeenAt then reportedAt else run.firstSeenAt
    updatedAt := if run.updatedAt < reportedAt then reportedAt else run.updatedAt
    repeatCount := run.repeatCount + 1 }

def createdSnapshot (era : Id) (reportedAt : Time) (update : StatusUpdate) (id : Id) :
    BoothStatusSnapshot where
  id
  state := update.state
  currentQuestionId := update.currentQuestionId.map uuid
  currentMessageId := update.currentMessageId.map uuid
  lastError := update.lastError
  runtimeMode := update.runtimeMode
  firstSeenAt := reportedAt
  updatedAt := reportedAt
  installationId := some era

/-- `reconcileStaleSessionsOnIdle`. -/
def reconcileStaleSessionsOnIdle (idleTime : Time) (era : Id) (db : Db) : Db :=
  { db with
    callSessions := Table.updateMany
      (fun row => row.endedAt = none ∧ row.startedAt ≤ idleTime ∧ row.installationId = some era)
      (fun row => { row with endedAt := some idleTime, outcome := some .aborted, durationMs := none })
      db.callSessions }

/-- The largest value of an `Int` column. -/
def maxInt : Nat := 2147483647

/-- The statements of a report once it holds the era; a count beyond its column
rolls the report back. -/
def putStatusInto (era : Id) (reportedAt : Time) (update : StatusUpdate) (db : Db) :
    Option (Db × BoothStatusSnapshot) :=
  let written : Option (Db × BoothStatusSnapshot) :=
    match runOf era reportedAt update db with
    | some run =>
      if maxInt ≤ run.repeatCount then none
      else some ({ db with
        boothStatusSnapshots :=
          Table.updateMany (·.id = run.id) (widen reportedAt) db.boothStatusSnapshots },
        widen reportedAt run)
    | none =>
      let snapshot := createdSnapshot era reportedAt update db.nextId
      some ({ db with
        boothStatusSnapshots := db.boothStatusSnapshots ++ [snapshot]
        nextId := db.nextId + 1 }, snapshot)
  written.map fun (db, snapshot) =>
    if update.state = .idle then (reconcileStaleSessionsOnIdle snapshot.updatedAt era db, snapshot)
    else (db, snapshot)

/-- `PUT /v1/status` with no other writer. -/
def putStatus (now : Time) (update : StatusUpdate) (db : Db) : Option (Db × BoothStatusSnapshot) :=
  match db.findActiveInstallation with
  | none => none
  | some active => putStatusInto active.id (update.updatedAt.getD now) update db

end BoothOperator.Status
