import BoothOperator.Events.Ingest
import BoothOperator.Installations.EraLock
import BoothOperator.Status.Reports

/-! Event batches and status reports beside each other, and beside the installations
that start, end and are purged meanwhile. A request is interrupted between any two
of its statements. What its transaction has changed is its own until it commits;
the rows it has changed are locked, and others wait for them. -/
namespace BoothOperator.Calls

open BoothOperator.Schema
open BoothOperator.Installations
open BoothOperator.Events
open BoothOperator.Status

/-- What an open transaction has changed. -/
inductive Change where
  | patched (init : SessionInit)
  | created (session : CallSession)
  | inserted (event : BoothEvent)
  | widened (run : BoothStatusSnapshot) (reportedAt : Time)
  | recorded (snapshot : BoothStatusSnapshot)
  | reconciled (ids : List String) (idleTime : Time)

inductive Body where
  /-- `POST /v1/events`. -/
  | batch (events : List EventInput)
  /-- `PUT /v1/status`. -/
  | report (update : StatusUpdate) (reportedAt : Time)

/-- The statement a request carries out next. -/
inductive Phase where
  | arrived
  | findSessions (active : Id)
  | findEndedEras (active : Id)
  | lock (preferred : Option Id) (writer : EraLock.Phase)
  -- the transaction of a batch
  | findLate (era : Id)
  | patch (era : Id) (inits : List SessionInit)
  | upsert (era : Id) (init : SessionInit) (inits : List SessionInit)
  | insert (era : Id) (events : List EventInput)
  -- the transaction of a report
  | findEnclosing (era : Id)
  | findSuccessor (era : Id) (enclosing : Option BoothStatusSnapshot)
  | record (era : Id) (run : Option BoothStatusSnapshot)
  | reconcile (era : Id) (idleTime : Time)
  | commit (era : Id)
  | answered
  | refused

structure Request where
  body : Body
  phase : Phase := .arrived
  known : Known := { sessions := [], endedEras := [] }
  changes : List Change := []

/-- The statement a purge carries out next. -/
inductive PurgePhase where
  | arrived
  | deleteEvents
  | deleteRows (events : List Id)
  | answered

structure Purge where
  installationId : Id
  phase : PurgePhase := .arrived

structure World where
  db : Db
  requests : List Request := []
  purges : List Purge := []

inductive Action where
  | arrive (body : Body)
  | advance (request : Nat) (now : Time)
  /-- The transaction is rolled back, or the request never gets there. -/
  | abort (request : Nat)
  | start (data : Installation) (copyQuestions : Bool) (now : Time) (startedById : Option String)
  | finish (id : Id) (now : Time) (endedById : Option String)
  | purge (installationId : Id)
  | advancePurge (purge : Nat)

/-! ## Changes -/

/-- `data` of the update that folds a report into the run it read. -/
def foldInto (run : BoothStatusSnapshot) (reportedAt : Time) (row : BoothStatusSnapshot) :
    BoothStatusSnapshot :=
  { row with
    firstSeenAt := (widen reportedAt run).firstSeenAt
    updatedAt := (widen reportedAt run).updatedAt
    repeatCount := row.repeatCount + 1 }

def Change.apply (db : Db) : Change → Db
  | .patched init => { db with
      callSessions := Table.updateMany (·.id = init.id) (Events.patch init) db.callSessions }
  | .created session => { db with callSessions := db.callSessions ++ [session] }
  | .inserted event => { db with boothEvents := db.boothEvents ++ [event] }
  | .widened run reportedAt => { db with
      boothStatusSnapshots :=
        Table.updateMany (·.id = run.id) (foldInto run reportedAt) db.boothStatusSnapshots }
  | .recorded snapshot => { db with boothStatusSnapshots := db.boothStatusSnapshots ++ [snapshot] }
  | .reconciled ids idleTime => { db with
      callSessions := Table.updateMany (·.id ∈ ids)
        (fun row => { row with endedAt := some idleTime, outcome := some .aborted, durationMs := none })
        db.callSessions }

/-- The database as a transaction sees it: what is committed, and what it has changed. -/
def view (changes : List Change) (db : Db) : Db := changes.foldl Change.apply db

/-- The sessions whose rows a change locks. -/
def Change.sessions : Change → List String
  | .patched init => [init.id]
  | .created session => [session.id]
  | .reconciled ids _ => ids
  | _ => []

def Change.session? : Change → Option CallSession
  | .created session => some session
  | _ => none

def Change.event? : Change → Option BoothEvent
  | .inserted event => some event
  | _ => none

def Change.locksSnapshot (id : Id) : Change → Bool
  | .widened run _ => run.id = id
  | _ => false

/-- The rows a transaction has inserted. -/
def Request.created (request : Request) : List CallSession := request.changes.filterMap Change.session?

def Request.inserted (request : Request) : List BoothEvent := request.changes.filterMap Change.event?

/-- The installation whose row a request holds. -/
def Phase.era : Phase → Option Id
  | .findLate era | .patch era _ | .upsert era _ _ | .insert era _ | .findEnclosing era
  | .findSuccessor era _ | .record era _ | .reconcile era _ | .commit era => some era
  | _ => none

def World.unheld (world : World) (id : Id) : Bool :=
  world.requests.all fun request => request.phase.era ≠ some id

section Advance

variable (others : List Request)

/-- Another transaction has the session's row locked. -/
def lockedSession (id : String) : Bool :=
  others.any fun request => request.changes.any fun change => id ∈ change.sessions

def lockedSnapshot (id : Id) : Bool :=
  others.any fun request => request.changes.any (Change.locksSnapshot id)

/-- Another transaction has inserted the event. -/
def lockedEvent (event : EventInput) : Bool :=
  others.any fun request => request.inserted.any fun row =>
    row.boothId = event.boothId ∧ row.eventId = event.eventId

/-- A transaction that throws is rolled back. -/
def Request.refuse (request : Request) : Request := { request with phase := .refused, changes := [] }

def Request.goto (request : Request) (phase : Phase) : Request := { request with phase }

/-- A statement has changed something. -/
def Request.write (request : Request) (change : Change) (phase : Phase) : Request :=
  { request with phase, changes := request.changes ++ [change] }

/-- The first statement under the lock. -/
def Body.first (era : Id) : Body → Phase
  | .batch _ => .findLate era
  | .report _ _ => .findEnclosing era

def Body.events : Body → List EventInput
  | .batch events => events
  | .report _ _ => []

variable (columns : ColumnTypes) (now : Time) (db : Db) (self : Request)

/-- A batch is checked, and looks for the open installation; a report begins its
transaction at once. -/
def advanceArrived : Request :=
  match self.body with
  | .batch events =>
    if events = [] then self.goto .answered
    else if boothEventBatchMax < events.length then self.refuse
    else
      match openEra db with
      | none => self.refuse
      | some active => self.goto (.findSessions active)
  | .report _ _ => self.goto (.lock none .begun)

/-- `knownSessions`. -/
def findSessions (active : Id) : Request :=
  { self with
    phase := .findEndedEras active
    known := { self.known with
      sessions := db.callSessions.filter fun row => row.id ∈ referenced self.body.events } }

/-- `endedEras`. -/
def findEndedEras (active : Id) : Request :=
  { self with
    phase := .lock (some active) .begun
    known := { self.known with
      endedEras := (db.installations.filter fun era => era.endedAt ≠ none ∧
        self.known.sessions.any fun row => row.installationId = some era.id).map (·.id) } }

/-- One statement of `lockOpenInstallation`. -/
def advanceLock (preferred : Option Id) (writer : EraLock.Phase) : Option Request :=
  (EraLock.advance db { preferred, write := EraLock.nothing, phase := writer }).map fun (_, next) =>
    match next.phase with
    | .holding era => self.goto (self.body.first era)
    | .noOpenEra => self.refuse
    | writer => self.goto (.lock preferred writer)

/-! ### A batch -/

def findLate (era : Id) : Request :=
  { self with
    phase := .patch era (sessionInits self.body.events)
    known := self.known.late self.body.events db }

/-- The `updateMany` of an entry. -/
def patchSession (era : Id) : List SessionInit → Option Request
  | [] => some (self.goto (.insert era self.body.events))
  | init :: inits =>
    if self.known.frozen init.id then some (self.goto (.patch era inits))
    else if sessionFits columns init = false then some self.refuse
    else if db.callSessions.any (patchable db init.id) then
      if lockedSession others init.id then none
      else some (self.write (.patched init) (.patch era inits))
    else some (self.goto (.upsert era init inits))

/-- The `upsert` of an entry whose `updateMany` found nothing. -/
def upsertSession (era : Id) (init : SessionInit) (inits : List SessionInit) : Option Request :=
  let installationId := self.known.eraFor era (some init.id)
  if (db.callSession init.id).isSome then some (self.goto (.patch era inits))
  else if lockedSession others init.id then none
  else if (db.installation installationId).isNone then some self.refuse
  else some (self.write (.created (createdSession now installationId init)) (.patch era inits))

/-- `createMany`, row by row. -/
def insertEvents (era : Id) : List EventInput → Option Request
  | [] => some (self.goto (.commit era))
  | event :: events =>
    if eventFits columns event = false then some self.refuse
    else if stored db event then some (self.goto (.insert era events))
    else if lockedEvent others event then none
    else
      let row := buildRow now self.known era event db.nextId
      if refersToStored db row = false then some self.refuse
      else some (self.write (.inserted row) (.insert era events))

/-! ### A report -/

/-- The run a report is folded into is written, or a row of its own. -/
def recordStatus (era : Id) (update : StatusUpdate) (reportedAt : Time) :
    Option BoothStatusSnapshot → Option Request
  | some run =>
    if lockedSnapshot others run.id then none
    else if db.boothStatusSnapshots.any fun row => row.id = run.id ∧ row.repeatCount < maxInt then
      let snapshot := widen reportedAt run
      some (self.write (.widened run reportedAt)
        (if update.state = .idle then .reconcile era snapshot.updatedAt else .commit era))
    else some self.refuse
  | none =>
    let snapshot := createdSnapshot era reportedAt update db.nextId
    some (self.write (.recorded snapshot)
      (if update.state = .idle then .reconcile era snapshot.updatedAt else .commit era))

/-- The sessions that `reconcileStaleSessionsOnIdle` closes. -/
def stale (era : Id) (idleTime : Time) : List String :=
  (db.callSessions.filter fun row =>
    row.endedAt = none ∧ row.startedAt ≤ idleTime ∧ row.installationId = some era).map (·.id)

def reconcileStaleSessions (era : Id) (idleTime : Time) : Option Request :=
  let ids := stale db era idleTime
  if ids.any (lockedSession others) then none
  else some (self.write (.reconciled ids idleTime) (.commit era))

/-- `[enclosing, successor].find(..)`. -/
def runOfReport (update : StatusUpdate) (enclosing successor : Option BoothStatusSnapshot) :
    Option BoothStatusSnapshot :=
  enclosing.filter (isRepeatOf · update) <|> successor.filter (isRepeatOf · update)

/-- A request's next statement, on the database as it sees it; a row that another
transaction has locked is waited for. -/
def advance : Option Request :=
  match self.phase, self.body with
  | .arrived, _ => some (advanceArrived db self)
  | .findSessions active, _ => some (findSessions db self active)
  | .findEndedEras active, _ => some (findEndedEras db self active)
  | .lock preferred writer, _ => advanceLock db self preferred writer
  | .findLate era, _ => some (findLate db self era)
  | .patch era inits, _ => patchSession others columns db self era inits
  | .upsert era init inits, _ => upsertSession others now db self era init inits
  | .insert era events, _ => insertEvents others columns now db self era events
  | .findEnclosing era, .report _ reportedAt =>
    some (self.goto (.findSuccessor era (enclosing era reportedAt db)))
  | .findSuccessor era enclosing, .report update reportedAt =>
    some (self.goto (.record era (runOfReport update enclosing (successor era reportedAt db))))
  | .record era run, .report update reportedAt => recordStatus others db self era update reportedAt run
  | .reconcile era idleTime, _ => reconcileStaleSessions others db self era idleTime
  | _, _ => none

end Advance

/-! ## Purges -/

/-- What the transaction of a purge deletes once it has deleted events: the rest of
the installation, and the references of events that were not there yet. -/
def deleteRows (installationId : Id) (events : List Id) (db : Db) : Db :=
  let gone := (db.callSessions.filter fun row => row.installationId = some installationId).map (·.id)
  { Purges.deleteEra installationId db with
    boothEvents := (db.boothEvents.filter fun row => row.id ∉ events).map fun row =>
      { row with
        sessionId := row.sessionId.filter fun id => id ∉ gone
        installationId := row.installationId.filter fun id => id ≠ installationId } }

/-- An open transaction has inserted a row that refers to the installation, or to a
session of it. -/
def World.refersTo (world : World) (installationId : Id) : Bool :=
  world.requests.any fun request => request.inserted.any fun row =>
    row.installationId = some installationId ∨ world.db.callSessions.any fun session =>
      row.sessionId = some session.id ∧ session.installationId = some installationId

/-- One statement of a purge; past the first, they end with the commit. -/
def advancePurge (world : World) (self : Purge) : Option (Db × PurgePhase) :=
  match self.phase with
  | .arrived =>
    match world.db.installation self.installationId with
    | none => some (world.db, .answered)
    | some existing =>
      if existing.endedAt = none then some (world.db, .answered) else some (world.db, .deleteEvents)
  | .deleteEvents =>
    some (world.db, .deleteRows ((world.db.boothEvents.filter fun row =>
      row.installationId = some self.installationId).map (·.id)))
  | .deleteRows events =>
    if world.refersTo self.installationId then none
    else if (world.db.installation self.installationId).isNone then some (world.db, .answered)
    else some (deleteRows self.installationId events world.db, .answered)
  | .answered => none

/-! ## Steps -/

variable (columns : ColumnTypes)

def step (world : World) : Action → Option World
  | .arrive body => some { world with requests := world.requests ++ [{ body }] }
  | .advance request now => do
    let self ← world.requests[request]?
    match self.phase with
    | .commit _ =>
      some { world with
        db := view self.changes world.db
        requests := world.requests.set request { self with phase := .answered, changes := [] } }
    | _ =>
      let next ← advance (world.requests.eraseIdx request) columns now (view self.changes world.db) self
      some { world with
        -- the id that the statement may have drawn is spent, whatever becomes of it
        db := { world.db with nextId := world.db.nextId + 1 }
        requests := world.requests.set request next }
  | .abort request => do
    let self ← world.requests[request]?
    match self.phase with
    | .answered | .refused => none
    | _ => some { world with requests := world.requests.set request self.refuse }
  | .start data copyQuestions now startedById =>
    match openEra world.db with
    | some active =>
      if world.unheld active then
        some { world with db := startInstallation data copyQuestions now startedById world.db }
      else none
    | none => some { world with db := startInstallation data copyQuestions now startedById world.db }
  | .finish id now endedById =>
    if world.unheld id then
      (endInstallation id now endedById world.db).map fun db => { world with db }
    else none
  | .purge installationId =>
    some { world with purges := world.purges ++ [{ installationId }] }
  | .advancePurge purge => do
    let self ← world.purges[purge]?
    let (db, phase) ← advancePurge world self
    some { world with db, purges := world.purges.set purge { self with phase } }

end BoothOperator.Calls
