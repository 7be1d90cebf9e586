import BoothOperator.Lib.Run
import BoothOperator.Installations.Rollover

/-! The upload of a recording: `POST /v1/messages`, which finds or creates the
message of a content hash, and `POST /v1/messages/:id/complete`, which moves it
out of `uploading`. A request is interrupted between any two of its statements;
an open transaction's row is its own until it commits, and keeps others out of
the key or the row it holds. -/
namespace BoothOperator.Uploads

open BoothOperator.Schema
open BoothOperator.Installations

/-- `MessageCreateSchema`. `questionIdAsStored`: the id is spelled as the column returns it. -/
structure MessageCreate where
  sha256 : String
  questionId : Option Id := none
  questionIdAsStored : Bool := true
  durationMs : Option Int := none

inductive Body where
  | create (body : MessageCreate)
  | complete (id : Id)

/-- The write of a transaction that holds an open era. -/
inductive Write where
  | create (audioId : Id) (retried : Bool)
  | slot (id : Id)
  | promote (receivedAt : Time) (filed : Option Id)

inductive Response where
  | created (id : Id)
  | completed (id : Id) (status : MessageStatus) (receivedAt : Option Time)
  | refused (status : Nat) (error : String)

/-- The statement a request carries out next. -/
inductive Phase where
  | arrived
  -- `POST /`
  | findFile
  | findMessage (existingFile : File)
  | findQuestion (existingFile : Option File)
  | findEra (question : Question) (existingFile : Option File)
  | upsertFile (retried : Bool)
  | recheck (file : Id)
  | raced (file : Id)
  -- `runWithOpenEra`
  | begun (write : Write) (preferred : Option Id)
  | locking (write : Write) (attempt : Nat) (candidate : Id)
  | reopening (write : Write) (attempt : Nat) (candidate : Id)
  | locked (write : Write) (era : Id)
  | inserted (row : Message) (era : Id)
  | updated (receivedAt : Time) (refiled : Option Id) (era : Id)
  -- `POST /:id/complete`
  | headBlob (message : Message) (audio : File)
  | updateFile (message : Message) (audio : File) (sizeBytes : Nat)
  | promoted (receivedAt : Time)
  | reload
  | answered (response : Response)

structure Request where
  body : Body
  phase : Phase := .arrived

structure World where
  db : Db
  requests : List Request := []
  /-- The commits that moved a message out of `uploading`, with the request. -/
  promotions : List (Nat × Id) := []
  /-- `kickPipelineForMessage`, with the request that called it. -/
  kicks : List (Nat × Id) := []
  /-- `notifyMessageReceived`. -/
  notified : List (Nat × Id) := []

/-- What `headBlob` answers. -/
structure BlobHead where
  found : Bool
  sha256 : Option String
  sizeBytes : Nat

inductive Action where
  | arrive (body : Body)
  | advance (request : Nat) (now : Time) (blob : BlobHead)
  /-- A statement fails, or the transaction times out, and the request with it. -/
  | fail (request : Nat)
  | start (data : Installation) (copyQuestions : Bool) (now : Time) (startedById : Option String)
  | finish (id : Id) (now : Time) (endedById : Option String)

/-- `messageBlobName`. -/
def messageBlobName (sha256 : String) : String :=
  "messages/" ++ String.ofList (sha256.toList.take 2) ++ "/" ++ sha256 ++ ".flac"

def matchesReplayRequest (body : MessageCreate) (message : Message) : Bool :=
  message.status = .uploading ∧ message.questionId = body.questionId ∧
    (body.questionId = none ∨ body.questionIdAsStored = true)

def fileOf (db : Db) (sha256 : String) : Option File :=
  Table.findUnique (·.sha256) sha256 db.files

/-- `findUnique({ where: { audioId } })`. -/
def messageOf (db : Db) (audioId : Id) : Option Message :=
  Table.findUnique (·.audioId) audioId db.messages

/-! ## Locks -/

/-- The era a request holds shared. -/
def Phase.era : Phase → Option Id
  | .locked _ era | .inserted _ era | .updated _ _ era => some era
  | _ => none

/-- The message an open transaction has inserted. -/
def Request.uncommitted (request : Request) : List Message :=
  match request.phase with
  | .inserted row _ => [row]
  | _ => []

/-- The message whose row an open transaction has updated. -/
def Request.holds (request : Request) (id : Id) : Bool :=
  match request.body, request.phase with
  | .complete own, .updated _ _ _ => own = id
  | _, _ => false

/-! ## One statement -/

/-- What a statement does. -/
structure Turn where
  db : Db
  phase : Phase
  promotes : List Id := []
  kicks : List Id := []

section Advance

variable (world : World) (now : Time)

/-- The request reads, or leaves its transaction, and goes on. -/
def goto (phase : Phase) : Option Turn := some { db := world.db, phase }

def refuse (status : Nat) (error : String) : Option Turn :=
  goto world (.answered (.refused status error))

def inactive : Option Turn := refuse world 409 "installation_inactive"

def alreadyExists : Option Turn := refuse world 409 "message_already_exists"

/-- A message that was found for the recording. -/
def resume (body : MessageCreate) (message : Message) : Option Turn :=
  if matchesReplayRequest body message then goto world (.begun (.slot message.id) none)
  else alreadyExists world

def afterQuestion (body : MessageCreate) (existingFile : Option File) : Option Turn :=
  if existingFile.any fun file => file.blobKey ≠ messageBlobName body.sha256 then
    alreadyExists world
  else goto world (.upsertFile false)

/-- The statements of `POST /` outside its transactions. -/
def advanceCreate (body : MessageCreate) : Phase → Option Turn
  | .arrived =>
    if world.db.findActiveInstallation.isNone then inactive world else goto world .findFile
  | .findFile =>
    match fileOf world.db body.sha256 with
    | some file => goto world (.findMessage file)
    | none => goto world (.findQuestion none)
  | .findMessage existingFile =>
    match messageOf world.db existingFile.id with
    | some message => resume world body message
    | none => goto world (.findQuestion (some existingFile))
  | .findQuestion existingFile =>
    match body.questionId with
    | none => afterQuestion world body existingFile
    | some id =>
      match world.db.question id with
      | none => refuse world 404 "question_not_found"
      | some question =>
        if question.status = .active then afterQuestion world body existingFile
        else if question.status = .archived ∧ question.retiredAt.isSome ∧
            question.installationId.isSome then
          goto world (.findEra question existingFile)
        else refuse world 404 "question_not_found"
  | .findEra question existingFile =>
    let era := question.installationId.bind world.db.installation
    if (era.bind (·.endedAt)) = question.retiredAt then afterQuestion world body existingFile
    else refuse world 404 "question_not_found"
  | .upsertFile retried =>
    let next (id : Id) : Phase :=
      if retried then .begun (.create id true) none else .recheck id
    match fileOf world.db body.sha256 with
    | some file => goto world (next file.id)
    | none =>
      if world.db.files.any fun file => file.blobKey = messageBlobName body.sha256 then
        refuse world 500 "internal"
      else
        let file : File :=
          { id := world.db.nextId
            blobKey := messageBlobName body.sha256
            sha256 := body.sha256
            durationMs := body.durationMs }
        some
          { db := { world.db with
              files := world.db.files ++ [file], nextId := world.db.nextId + 1 }
            phase := next file.id }
  | .recheck file =>
    match messageOf world.db file with
    | some message => resume world body message
    | none => goto world (.begun (.create file false) none)
  | .raced file =>
    match messageOf world.db file with
    | some message => resume world body message
    | none => alreadyExists world
  | _ => none

/-- The statements of `POST /:id/complete` outside its transaction. -/
def advanceComplete (maxAudioBytes : Nat) (blob : BlobHead) (id : Id) : Phase → Option Turn
  | .arrived =>
    match world.db.message id with
    | none => refuse world 404 "not_found"
    | some message =>
      match world.db.file message.audioId with
      | none => refuse world 500 "internal"
      | some audio => goto world (.headBlob message audio)
  | .headBlob message audio =>
    if !blob.found then refuse world 409 "blob_not_found"
    else match blob.sha256.filter fun sha256 => sha256 ≠ "" with
      | none => refuse world 422 "sha256_metadata_missing"
      | some sha256 =>
        if sha256 ≠ audio.sha256 then refuse world 422 "sha256_mismatch"
        else if maxAudioBytes < blob.sizeBytes then refuse world 413 "audio_too_large"
        else goto world (.updateFile message audio blob.sizeBytes)
  | .updateFile message audio sizeBytes =>
    if (world.db.file audio.id).isNone then refuse world 500 "internal"
    else
      some
        { db := { world.db with
            files := Table.updateMany (fun file => file.id = audio.id)
              (fun file => { file with sizeBytes }) world.db.files }
          phase := if message.status = .uploading then
              .begun (.promote now message.installationId) message.installationId
            else .reload }
  | .promoted receivedAt =>
    some
      { db := world.db
        phase := .answered (.completed id .pending (some receivedAt))
        kicks := [id] }
  | .reload =>
    match world.db.message id with
    | some current =>
      goto world (.answered (.completed current.id current.status current.receivedAt))
    | none => refuse world 500 "internal"
  | _ => none

/-- `message.updateMany` inside its transaction. -/
def promoteMessage (id : Id) (receivedAt : Time) (refiled : Option Id) (db : Db) : Db :=
  db.updateMessages (fun row => row.id = id ∧ row.status = .uploading) fun row =>
    { row with
      status := .pending
      receivedAt := some receivedAt
      installationId := refiled <|> row.installationId }

/-- `message.create` inside its transaction. -/
def insertMessage (body : MessageCreate) (audioId : Id) (retried : Bool) (era : Id) : Option Turn :=
  -- a key that is taken is a violation, one in an open transaction is waited for
  if (messageOf world.db audioId).isSome then
    if retried then refuse world 500 "internal" else goto world (.raced audioId)
  else if world.requests.any fun other => other.uncommitted.any (·.audioId = audioId) then none
  else if (world.db.file audioId).isSome ∧
      (body.questionId.all fun id => (world.db.question id).isSome) then
    some
      { db := { world.db with nextId := world.db.nextId + 1 }
        phase := .inserted
          { id := world.db.nextId
            status := .uploading
            questionId := body.questionId
            audioId
            createdAt := now
            installationId := some era } era }
  else if retried then refuse world 500 "internal"
  else goto world (.upsertFile true)

/-- The statements of a transaction, from its start to its commit. -/
def advanceTransaction (body : Body) : Phase → Option Turn
  | .begun write preferred =>
    match preferred <|> openEra world.db with
    | none => inactive world
    | some candidate => goto world (.locking write 0 candidate)
  | .locking write attempt candidate =>
    if world.db.lockInstallationForWrite candidate then goto world (.locked write candidate)
    else goto world (.reopening write attempt candidate)
  | .reopening write attempt candidate =>
    match nextEra world.db attempt candidate with
    | none => inactive world
    | some next => goto world (.locking write (attempt + 1) next)
  | .locked (.create audioId retried) era =>
    match body with
    | .create body => insertMessage world now body audioId retried era
    | .complete _ => none
  | .inserted row _ =>
    some
      { db := { world.db with messages := world.db.messages ++ [row] }
        phase := .begun (.slot row.id) none }
  | .locked (.slot id) _ =>
    match body, world.db.message id with
    | .create body, some message =>
      if matchesReplayRequest body message then goto world (.answered (.created id))
      else alreadyExists world
    | .create _, none => alreadyExists world
    | .complete _, _ => none
  | .locked (.promote receivedAt filed) era =>
    match body with
    | .create _ => none
    | .complete id =>
      if world.requests.any (·.holds id) then none
      else if (world.db.message id).any (·.status = .uploading) then
        goto world (.updated receivedAt (if filed = some era then none else some era) era)
      else goto world .reload
  | .updated receivedAt refiled _ =>
    match body with
    | .create _ => none
    | .complete id =>
      some
        { db := promoteMessage id receivedAt refiled world.db
          phase := .promoted receivedAt
          promotes := [id] }
  | _ => none

def advance (maxAudioBytes : Nat) (blob : BlobHead) (request : Request) : Option Turn :=
  match request.body with
  | .create body =>
    advanceCreate world body request.phase <|> advanceTransaction world now request.body request.phase
  | .complete id =>
    advanceComplete world now maxAudioBytes blob id request.phase <|>
      advanceTransaction world now request.body request.phase

end Advance

/-- A rollover waits for the writers that hold the open era. -/
def World.unheld (world : World) : Bool :=
  world.requests.all fun request => request.phase.era.all fun era =>
    (world.db.findActiveInstallation.map (·.id)) ≠ some era

def World.goto (world : World) (request : Nat) (self : Request) (phase : Phase) : World :=
  { world with requests := world.requests.set request { self with phase } }

def step (maxAudioBytes : Nat) (world : World) : Action → Option World
  | .arrive body => some { world with requests := world.requests ++ [{ body }] }
  | .advance request now blob => do
    let self ← world.requests[request]?
    let turn ← advance world now maxAudioBytes blob self
    some { world.goto request self turn.phase with
      db := turn.db
      promotions := world.promotions ++ turn.promotes.map (request, ·)
      kicks := world.kicks ++ turn.kicks.map (request, ·)
      notified := world.notified ++ turn.kicks.map (request, ·) }
  | .fail request => do
    let self ← world.requests[request]?
    -- what follows the commit of a promotion cannot fail
    match self.phase with
    | .promoted _ | .answered _ => none
    | _ => some (world.goto request self (.answered (.refused 500 "internal")))
  | .start data copyQuestions now startedById =>
    if world.unheld then
      some { world with db := startInstallation data copyQuestions now startedById world.db }
    else none
  | .finish id now endedById =>
    if world.unheld then
      (endInstallation id now endedById world.db).map fun db => { world with db }
    else none

end BoothOperator.Uploads
