import BoothOperator.Uploads.Requests

/-! The purge of an ended installation, `DELETE /v1/installations/:id`, beside the
uploads that go on meanwhile. A purge is interrupted between any two of its
statements; its workers check and delete blobs each on its own. -/
namespace BoothOperator.Purges

open BoothOperator.Schema

structure OwnedFile where
  id : Id
  blobKey : String

structure Instruction where
  id : Id
  audioId : Id

/-- The `rows` of an `InstallationPurgeResult`. -/
structure PurgedRows where
  events : Nat
  messages : Nat
  callSessions : Nat
  questions : Nat
  snapshots : Nat

inductive Response where
  | purged (rows : PurgedRows) (blobsDeleted blobsRetained : Nat) (blobFailures : List String)
  | refused (status : Nat) (error : String)

inductive Worker where
  | idle
  | checking (blobKey : String)
  | deleting (blobKey : String)
  | done
  deriving DecidableEq

/-- What the workers of a purge share. -/
structure Pool where
  queue : List String
  workers : List Worker
  blobsRetained : Nat
  blobsDeleted : Nat := 0
  blobsResurrected : Nat := 0
  blobFailures : List String := []

/-- The tables that refer to files. -/
inductive Referrer where
  | questions | messages | instructions

/-- The statement a purge carries out next. -/
inductive Phase where
  | arrived
  | findInFlight
  | findOpen (inFlight : List Id)
  | rehome (inFlight : List Id) (installationId : Id)
  -- `filesOwnedByInstallation`
  | findOwned (questionFiles messageFiles : Option (List OwnedFile))
  | deleteRows (owned : List OwnedFile)
  -- `purgeOrphanFiles`
  | findReferences (rows : PurgedRows) (owned : List OwnedFile) (todo : List Referrer)
      (referenced : List Id)
  | deleteFiles (rows : PurgedRows) (owned orphans : List OwnedFile)
  | deleteFile (rows : PurgedRows) (owned orphans deleted : List OwnedFile)
  | deleteBlobs (rows : PurgedRows) (pool : Pool)
  | answered (response : Response)

structure Purge where
  installationId : Id
  confirmName : String
  phase : Phase := .arrived

structure World where
  uploads : Uploads.World
  instructions : List Instruction := []
  /-- The keys of the blobs in the storage account. -/
  blobs : List String := []
  purges : List Purge := []

abbrev World.db (world : World) : Db := world.uploads.db

inductive Action where
  | upload (action : Uploads.Action)
  /-- A booth puts its recording under the name it was given. -/
  | putBlob (blobKey : String)
  /-- A question is created, or copied from one that was read before. -/
  | insertQuestion (question : Question)
  | insertInstruction (audioId : Id)
  | arrive (installationId : Id) (confirmName : String)
  /-- A purge's next statement, the reads it has in flight in any order; it may fail. -/
  | advance (purge choice : Nat) (fails : Bool)

/-- `PURGE_BLOB_CONCURRENCY`. -/
def purgeBlobConcurrency : Nat := 8

/-! ## Statements -/

/-- The files of rows, and their blobs. -/
def audioOf (db : Db) (audioIds : List Id) : List OwnedFile :=
  audioIds.filterMap fun id => (db.file id).map fun file => { id := file.id, blobKey := file.blobKey }

/-- The files by id, in the order in which the ids were met. -/
def byId (files : List OwnedFile) : List OwnedFile :=
  files.foldl (fun kept file => Table.upsert (·.id) (fun _ file => file) file kept) []

/-- The rows' foreign keys to files. -/
def World.audioIds (world : World) : Referrer → List Id
  | .questions => world.db.questions.map (·.audioId)
  | .messages => world.db.messages.map (·.audioId)
  | .instructions => world.instructions.map (·.audioId)

/-- A row refers to the file. -/
def World.references (world : World) (file : Id) : Bool :=
  [Referrer.questions, .messages, .instructions].any fun table => (world.audioIds table).contains file

/-- An open transaction has inserted a row that refers to the file. -/
def World.claims (world : World) (file : Id) : Bool :=
  world.uploads.requests.any fun request => request.uncommitted.any (·.audioId = file)

/-- An open transaction holds the era, or a message of it. -/
def World.holdsEra (world : World) (installationId : Id) : Bool :=
  world.uploads.requests.any fun request => request.phase.era = some installationId ∨
    world.db.messages.any fun row => row.installationId = some installationId ∧ request.holds row.id

/-- The deletions of a purge's transaction, the cascades of `Message` included. What stays
loses its references to the deleted calls and questions (`ON DELETE SET NULL`). -/
def deleteEra (installationId : Id) (db : Db) : Db :=
  let owned (era : Option Id) : Bool := era = some installationId
  let gone := (db.messages.filter fun row => owned row.installationId).map (·.id)
  let calls := (db.callSessions.filter fun row => owned row.installationId).map (·.id)
  let asked := (db.questions.filter fun row => owned row.installationId).map (·.id)
  { db with
    boothEvents := (db.boothEvents.filter fun row => !owned row.installationId).map fun row =>
      { row with sessionId := row.sessionId.filter fun id => !calls.contains id }
    messages := (db.messages.filter fun row => !owned row.installationId).map fun row =>
      { row with questionId := row.questionId.filter fun id => !asked.contains id }
    transcriptions := db.transcriptions.filter fun row => !gone.contains row.messageId
    moderations := db.moderations.filter fun row => !gone.contains row.messageId
    callSessions := db.callSessions.filter fun row => !owned row.installationId
    questions := db.questions.filter fun row => !owned row.installationId
    boothStatusSnapshots := db.boothStatusSnapshots.filter fun row => !owned row.installationId
    installations := db.installations.filter fun row => row.id ≠ installationId }

def countEra (installationId : Id) (db : Db) : PurgedRows where
  events := db.boothEvents.countP fun row => row.installationId = some installationId
  messages := db.messages.countP fun row => row.installationId = some installationId
  callSessions := db.callSessions.countP fun row => row.installationId = some installationId
  questions := db.questions.countP fun row => row.installationId = some installationId
  snapshots := db.boothStatusSnapshots.countP fun row => row.installationId = some installationId

def removeFiles (ids : List Id) (db : Db) : Db :=
  { db with files := db.files.filter fun file => !ids.contains file.id }

/-- What a statement does. -/
structure Turn where
  db : Db
  blobs : List String
  phase : Phase

section Advance

variable (world : World)

def goto (phase : Phase) : Option Turn := some { db := world.db, blobs := world.blobs, phase }

def refuse (status : Nat) (error : String) : Option Turn :=
  goto world (.answered (.refused status error))

/-- The workers start, or there is nothing for them to do. -/
def startPool (rows : PurgedRows) (owned deleted : List OwnedFile) : Phase :=
  .deleteBlobs rows
    { queue := deleted.map (·.blobKey)
      workers := List.replicate (min purgeBlobConcurrency deleted.length) .idle
      blobsRetained := owned.length - deleted.length }

/-- One step of `worker`. -/
def advanceWorker (fails : Bool) (pool : Pool) (place : Nat) : Worker → Option (List String × Pool)
  | .idle =>
    match pool.queue.getLast? with
    | none => some (world.blobs, { pool with workers := pool.workers.set place .done })
    | some blobKey => some (world.blobs,
        { pool with
          queue := pool.queue.dropLast, workers := pool.workers.set place (.checking blobKey) })
  | .checking blobKey =>
    if fails then
      some (world.blobs, { pool with
        workers := pool.workers.set place .idle
        blobFailures := pool.blobFailures ++ [blobKey] })
    else if world.db.files.any fun file => file.blobKey = blobKey then
      some (world.blobs, { pool with
        workers := pool.workers.set place .idle, blobsResurrected := pool.blobsResurrected + 1 })
    else some (world.blobs, { pool with workers := pool.workers.set place (.deleting blobKey) })
  | .deleting blobKey =>
    if fails then
      some (world.blobs, { pool with
        workers := pool.workers.set place .idle
        blobFailures := pool.blobFailures ++ [blobKey] })
    else
      -- `deleteIfExists`
      some (world.blobs.filter (· ≠ blobKey), { pool with
        workers := pool.workers.set place .idle
        blobsDeleted := pool.blobsDeleted + if world.blobs.contains blobKey then 1 else 0 })
  | .done => none

def afterOwned (questionFiles messageFiles : Option (List OwnedFile)) : Phase :=
  match questionFiles, messageFiles with
  | some questionFiles, some messageFiles => .deleteRows (byId (questionFiles ++ messageFiles))
  | _, _ => .findOwned questionFiles messageFiles

def afterReferences (rows : PurgedRows) (owned : List OwnedFile) (todo : List Referrer)
    (referenced : List Id) : Phase :=
  match todo with
  | [] =>
    let orphans := owned.filter fun file => !referenced.contains file.id
    if orphans.isEmpty then startPool rows owned [] else .deleteFiles rows owned orphans
  | _ => .findReferences rows owned todo referenced

/-- A statement that throws, where nothing catches it. -/
def throwing (phase : Phase) : Bool :=
  match phase with
  | .deleteFiles _ _ _ | .deleteFile _ _ _ _ | .deleteBlobs _ _ | .answered _ => false
  | _ => true

def advance (choice : Nat) (fails : Bool) (purge : Purge) : Option Turn :=
  let id := purge.installationId
  if fails && throwing purge.phase then refuse world 500 "internal"
  else match purge.phase with
  | .arrived =>
    match world.db.installation id with
    | none => refuse world 404 "installation_not_found"
    | some existing =>
      if existing.endedAt.isNone then refuse world 409 "installation_active"
      else if purge.confirmName ≠ existing.name then refuse world 400 "name_mismatch"
      else goto world .findInFlight
  | .findInFlight =>
    let inFlight := (world.db.messages.filter fun row =>
      row.installationId = some id ∧ row.status = .uploading).map (·.id)
    goto world (if inFlight.isEmpty then .findOwned none none else .findOpen inFlight)
  | .findOpen inFlight =>
    match world.db.findActiveInstallation with
    | none => refuse world 409 "uploads_in_flight"
    | some active => goto world (.rehome inFlight active.id)
  | .rehome inFlight installationId =>
    -- a row that an open transaction has updated is waited for
    if world.uploads.requests.any fun request => inFlight.any fun id => request.holds id then none
    else some
      { db := world.db.updateMessages (fun row => inFlight.contains row.id)
          fun row => { row with installationId := some installationId }
        blobs := world.blobs
        phase := .findOwned none none }
  | .findOwned questionFiles messageFiles =>
    match choice, questionFiles, messageFiles with
    | 0, none, _ => goto world (afterOwned
        (some (audioOf world.db ((world.db.questions.filter fun row =>
          row.installationId = some id).map (·.audioId)))) messageFiles)
    | 1, _, none => goto world (afterOwned questionFiles
        (some (audioOf world.db ((world.db.messages.filter fun row =>
          row.installationId = some id).map (·.audioId)))))
    | _, _, _ => none
  | .deleteRows owned =>
    if world.holdsEra id then none
    else if (world.db.installation id).isNone then refuse world 500 "internal"
    else
      let rows := countEra id world.db
      some
        { db := deleteEra id world.db
          blobs := world.blobs
          phase :=
            if owned.isEmpty then .answered (.purged rows 0 0 [])
            else .findReferences rows owned [.questions, .messages, .instructions] [] }
  | .findReferences rows owned todo referenced =>
    match todo[choice]? with
    | none => none
    | some table => goto world (afterReferences rows owned (todo.eraseIdx choice)
        (referenced ++ (world.audioIds table).filter fun audio => owned.any (·.id = audio)))
  | .deleteFiles rows owned orphans =>
    if fails then goto world (.deleteFile rows owned orphans [])
    else if orphans.any fun file => world.claims file.id then none
    -- a foreign key restricts the deletion
    else if orphans.any fun file => world.references file.id then
      goto world (.deleteFile rows owned orphans [])
    else some
      { db := removeFiles (orphans.map (·.id)) world.db
        blobs := world.blobs
        phase := startPool rows owned orphans }
  | .deleteFile rows owned orphans deleted =>
    match orphans with
    | [] => goto world (startPool rows owned deleted)
    | file :: rest =>
      if fails || (world.db.file file.id).isNone then goto world (.deleteFile rows owned rest deleted)
      else if world.claims file.id then none
      else if world.references file.id then goto world (.deleteFile rows owned rest deleted)
      else some
        { db := removeFiles [file.id] world.db
          blobs := world.blobs
          phase := .deleteFile rows owned rest (deleted ++ [file]) }
  | .deleteBlobs rows pool =>
    if pool.workers.all (· = .done) then
      goto world (.answered (.purged rows pool.blobsDeleted
        (pool.blobsRetained + pool.blobsResurrected) pool.blobFailures))
    else do
      let worker ← pool.workers[choice]?
      let (blobs, pool) ← advanceWorker world fails pool choice worker
      some { db := world.db, blobs, phase := .deleteBlobs rows pool }
  | .answered _ => none

end Advance

/-- `headBlob` answers what is stored. -/
def World.heads (world : World) : Uploads.Action → Bool
  | .advance request _ blob =>
    match world.uploads.requests[request]? with
    | some { phase := .headBlob _ audio, .. } => blob.found = world.blobs.contains audio.blobKey
    | _ => true
  | _ => true

def step (maxAudioBytes : Nat) (world : World) : Action → Option World
  | .upload action =>
    if world.heads action then
      (Uploads.step maxAudioBytes world.uploads action).map fun uploads => { world with uploads }
    else none
  | .putBlob blobKey => some { world with blobs := world.blobs ++ [blobKey] }
  | .insertQuestion question =>
    if (world.db.file question.audioId).isSome then
      some { world with uploads := { world.uploads with
        db := { world.db with
          questions := world.db.questions ++ [{ question with id := world.db.nextId }]
          nextId := world.db.nextId + 1 } } }
    else none
  | .insertInstruction audioId =>
    if (world.db.file audioId).isSome then
      some { world with
        instructions := world.instructions ++ [{ id := world.db.nextId, audioId }]
        uploads := { world.uploads with db := { world.db with nextId := world.db.nextId + 1 } } }
    else none
  | .arrive installationId confirmName =>
    some { world with purges := world.purges ++ [{ installationId, confirmName }] }
  | .advance purge choice fails => do
    let self ← world.purges[purge]?
    let turn ← advance world choice fails self
    some { world with
      uploads := { world.uploads with db := turn.db }
      blobs := turn.blobs
      purges := world.purges.set purge { self with phase := turn.phase } }

end BoothOperator.Purges
