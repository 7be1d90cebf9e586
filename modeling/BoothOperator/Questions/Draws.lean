import Mathlib.Data.List.Sort
import BoothOperator.Events.Batch
import BoothOperator.Lib.Recent
import BoothOperator.Questions.Tickets

/-! `routes/questions.ts`: `GET /random`, and the operator's changes of the
questions, each as one transaction on its own. -/
namespace BoothOperator.Questions

open BoothOperator.Schema
open BoothOperator.Events (isGuid between)

/-! ## The draw -/

def questionDrawIdSchema (raw : String) : Bool := isGuid raw

def questionDrawHistorySchema (history : List QuestionDraw) : Bool :=
  history.all fun entry => isGuid entry.drawId

/-- The question an earlier draw of the same id was answered with. -/
def replay (era : Id) (drawId : Option String) (history : List QuestionDraw) (db : Db) :
    Option Question := do
  let wanted ← drawId
  let previousDraw ← history.find? fun entry => entry.drawId = wanted
  db.questions.find? fun row => row.id = previousDraw.questionId ∧ row.installationId = some era

def activeQuestions (era : Id) (db : Db) : List Question :=
  (db.questions.filter fun row => row.installationId = some era ∧ row.status = .active).insertionSort
    (·.id ≤ ·.id)

def invalidWeight (question : Question) : Bool :=
  question.weight < questionWeightMin ∨ questionWeightMax < question.weight

def withoutTickets (question : QuestionTicketState) : QuestionTicketState :=
  { question with lastSelectedCycle := none, selectionsInCycle := 0 }

/-- The cycle after one whose tickets are used up; the counter's last cycle is
followed by the first, with no question marked. -/
def refill (era : Id) (cycle : Nat) (questions : List QuestionTicketState) (db : Db) :
    Nat × List QuestionTicketState × Db :=
  if cycle = questionTicketCounterMax then
    (0, questions.map withoutTickets, { db with
      questions := Table.updateMany (·.installationId = some era)
        (fun row => { row with lastSelectedCycle := none, selectionsInCycle := 0 }) db.questions })
  else (cycle + 1, questions, db)

def nextQuestionDraws (drawId : Option String) (question : Id) (history : List QuestionDraw) :
    List QuestionDraw :=
  match drawId with
  | none => history
  | some drawId =>
    Recent.remember (·.drawId) questionDrawHistoryLimit ⟨drawId, question⟩ history

/-- The writes of a draw. -/
def record (era : Id) (drawId : Option String) (history : List QuestionDraw) (cycle : Nat)
    (selected : QuestionTicketState) (db : Db) : Db × Option Question :=
  let selectionsInCycle :=
    if selected.lastSelectedCycle = some cycle then selected.selectionsInCycle + 1 else 1
  let written : Db := { db with
    installations := Table.updateMany (·.id = era)
      (fun row => { row with
        questionSelectionCycle := cycle
        lastSelectedQuestionId := some selected.id
        recentQuestionDraws := nextQuestionDraws drawId selected.id history })
      db.installations
    questions := Table.updateMany (·.id = selected.id)
      (fun row => { row with lastSelectedCycle := some cycle, selectionsInCycle }) db.questions }
  (written, written.question selected.id)

/-- A draw from the bag. -/
def drawTicket (era : Id) (drawId : Option String) (randomInt : RandomInt)
    (installation : Installation) (db : Db) : Except DrawError (Db × Option Question) :=
  let active := activeQuestions era db
  let lastSelected := installation.lastSelectedQuestionId
  let history := installation.recentQuestionDraws
  if active.length = 0 then .ok (db, none)
  else
    match active.find? invalidWeight with
    | some question => .error (.invalidWeight question.id)
    | none =>
      let cycle := installation.questionSelectionCycle
      let questions := active.map ticketState
      match drawQuestion questions cycle lastSelected randomInt with
      | .error error => .error error
      | .ok (some selected) => .ok (record era drawId history cycle selected db)
      | .ok none =>
        let (cycle, questions, db) := refill era cycle questions db
        match drawQuestion questions cycle lastSelected randomInt with
        | .error error => .error error
        | .ok (some selected) => .ok (record era drawId history cycle selected db)
        | .ok none => .error .noValidTickets

/-- `GET /v1/questions/random`; no question is the answer while none is active. -/
def getRandom (rawDrawId : Option String) (randomInt : RandomInt) (db : Db) :
    Except DrawError (Db × Option Question) :=
  if rawDrawId.any fun raw => !questionDrawIdSchema raw then .error .invalidQuestionDrawId
  else
    let drawId := rawDrawId.map String.toLower
    match db.findActiveInstallation with
    | none => .error .noOpenEra
    | some locked =>
      match db.installation locked.id with
      | none => .error .installationDisappeared
      | some installation =>
        if questionDrawHistorySchema installation.recentQuestionDraws then
          match replay locked.id drawId installation.recentQuestionDraws db with
          | some question => .ok (db, some question)
          | none => drawTicket locked.id drawId randomInt installation db
        else .error .invalidHistory

/-! ## The operator's changes -/

inductive EditError where
  | notFound
  | audioFileNotFound
  | questionConflict
  | installationEnded
  | noOpenEra
  deriving DecidableEq

def questionWeightSchema (weight : Nat) : Bool :=
  questionWeightMin ≤ weight ∧ weight ≤ questionWeightMax

structure QuestionCreate where
  prompt : String
  audioFileId : Id
  status : Option QuestionStatus
  weight : Option Nat
  valid : between prompt 280 ∧ weight.all questionWeightSchema

structure QuestionUpdate where
  prompt : Option String
  weight : Option Nat
  valid : prompt.all (between · 280) ∧ weight.all questionWeightSchema
  nonempty : prompt.isSome ∨ weight.isSome

/-- A row whose unique columns another of the era already has. -/
def conflicts (row : Question) (db : Db) : Bool :=
  row.installationId.isSome && db.questions.any fun other =>
    other.id ≠ row.id ∧ other.installationId = row.installationId ∧
      (other.prompt = row.prompt ∨ other.audioId = row.audioId)

/-- `POST /v1/questions`. -/
def postQuestion (now : Time) (body : QuestionCreate) (db : Db) : Except EditError Db :=
  match db.file body.audioFileId with
  | none => .error .audioFileNotFound
  | some _ =>
    match db.findActiveInstallation with
    | none => .error .noOpenEra
    | some active =>
      let row : Question :=
        { id := db.nextId
          prompt := body.prompt
          audioId := body.audioFileId
          status := body.status.getD .draft
          createdAt := now
          weight := body.weight.getD 1
          installationId := some active.id }
      if conflicts row db then .error .questionConflict
      else .ok { db with questions := db.questions ++ [row], nextId := db.nextId + 1 }

/-- A write to a question while its era is open. -/
def withOpenEra (installationId : Option Id) (write : Db → Except EditError Db) (db : Db) :
    Except EditError Db :=
  if installationId.any fun era => !db.lockInstallationForWrite era then .error .installationEnded
  else write db

/-- `data` of a patch. -/
def patchQuestion (body : QuestionUpdate) (row : Question) : Question :=
  { row with prompt := body.prompt.getD row.prompt, weight := body.weight.getD row.weight }

/-- `PATCH /v1/questions/:id`. -/
def patch (id : Id) (body : QuestionUpdate) (db : Db) : Except EditError Db :=
  match db.question id with
  | none => .error .notFound
  | some question =>
    if question.status = .archived then .error .notFound
    else withOpenEra question.installationId (fun db =>
      if conflicts (patchQuestion body question) db then .error .questionConflict
      else .ok { db with
        questions := Table.updateMany (fun row => row.id = id ∧ row.status ≠ .archived)
          (patchQuestion body) db.questions }) db

/-- The update that moves a question to a status. -/
def setStatus (id : Id) (status : QuestionStatus) (retiredAt : Option Time) (question : Question)
    (db : Db) : Except EditError Db :=
  withOpenEra question.installationId (fun db => .ok { db with
    questions := Table.updateMany (·.id = id) (fun row => { row with status, retiredAt })
      db.questions }) db

/-- `POST /v1/questions/:id/activate`. -/
def activate (id : Id) (db : Db) : Except EditError Db :=
  match db.question id with
  | none => .error .notFound
  | some question => setStatus id .active none question db

/-- `POST /v1/questions/:id/deactivate`. -/
def deactivate (id : Id) (db : Db) : Except EditError Db :=
  match db.question id with
  | none => .error .notFound
  | some question => setStatus id .draft none question db

/-- `DELETE /v1/questions/:id`. -/
def archive (id : Id) (now : Time) (db : Db) : Except EditError Db :=
  match db.question id with
  | none => .error .notFound
  | some question =>
    if question.status = .archived then .error .notFound
    else setStatus id .archived (some now) question db

/-! ## Runs -/

inductive Edit where
  | post (now : Time) (body : QuestionCreate)
  | patch (id : Id) (body : QuestionUpdate)
  | activate (id : Id)
  | deactivate (id : Id)
  | archive (id : Id) (now : Time)

def Edit.apply : Edit → Db → Except EditError Db
  | .post now body => postQuestion now body
  | .patch id body => Questions.patch id body
  | .activate id => Questions.activate id
  | .deactivate id => Questions.deactivate id
  | .archive id now => Questions.archive id now

/-- An answered draw: a replay, or a ticket taken in a turn of the bag. -/
structure Served where
  drawId : Option String
  question : Id
  fresh : Bool
  turn : Nat
  deriving DecidableEq

/-- The database, how often the bag has been refilled, and the answers so far. -/
structure World where
  db : Db
  turn : Nat := 0
  log : List Served := []

structure Request where
  rawDrawId : Option String
  randomInt : RandomInt

inductive Action where
  | draw (request : Request)
  | edit (change : Edit)

/-- The open installation's row. -/
def openRow (db : Db) : Option Installation :=
  db.findActiveInstallation.bind fun locked => db.installation locked.id

/-- Whether a request asks again for a draw the history still has. -/
def replays (rawDrawId : Option String) (db : Db) : Bool :=
  (openRow db).any fun row =>
    (replay row.id (rawDrawId.map String.toLower) row.recentQuestionDraws db).isSome

def answered (request : Request) (world : World) (db : Db) (question : Question) : World :=
  let turn :=
    if (openRow db).map (·.questionSelectionCycle) = (openRow world.db).map (·.questionSelectionCycle)
    then world.turn else world.turn + 1
  { db, turn
    log := world.log ++ [⟨request.rawDrawId.map String.toLower, question.id,
      !replays request.rawDrawId world.db, turn⟩] }

/-- A request that fails leaves everything as it was. -/
def step (world : World) : Action → Option World
  | .draw request =>
    match getRandom request.rawDrawId request.randomInt world.db with
    | .error _ => some world
    | .ok (db, none) => some { world with db }
    | .ok (db, some question) => some (answered request world db question)
  | .edit change =>
    match change.apply world.db with
    | .error _ => some world
    | .ok db => some { world with db }

end BoothOperator.Questions
