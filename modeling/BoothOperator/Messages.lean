import BoothOperator.Schema

/-! The writes that decide a message: `POST /v1/messages/:id/decision` and the
message part of `closeOutInstallation`. -/
namespace BoothOperator.Messages

open BoothOperator.Schema

/-- A message an operator or a close-out has decided. -/
def Decided (status : MessageStatus) : Prop := status = .approved ∨ status = .rejected

instance (status : MessageStatus) : Decidable (Decided status) :=
  inferInstanceAs (Decidable (_ ∨ _))

inductive Decision where
  | approve | reject
  deriving DecidableEq, Repr

def Decision.status : Decision → MessageStatus
  | .approve => .approved
  | .reject => .rejected

/-- `withOpenEra`: a message without an era is always writable. -/
def writable (db : Db) (row : Message) : Bool :=
  match row.installationId with
  | none => true
  | some era => db.lockInstallationForWrite era

/-- `POST /v1/messages/:id/decision`. -/
def decide (id : Id) (decision : Decision) (notes : Option String) (userId : Option String)
    (now : Time) (db : Db) : Option Db :=
  match db.message id with
  | none => none
  | some row =>
    if row.status = .uploading ∨ ¬ writable db row then none
    else some (db.updateMessages (fun other => other.id = id) fun other =>
      { other with
        status := decision.status
        decidedAt := some now
        decidedById := userId
        notes := notes <|> other.notes })

/-- `ROLLOVER_MESSAGE_NOTE`. -/
def rolloverMessageNote : String := "Closed out when the installation ended."

/-- The message statement of `closeOutInstallation`. -/
def closeOutMessages (installationId : Id) (endedAt : Time) (db : Db) : Db :=
  db.updateMessages
    (fun row => row.installationId = some installationId ∧
      (row.status = .received ∨ row.status = .pending))
    fun row =>
      { row with
        status := .rejected
        notes := some rolloverMessageNote
        decidedAt := some endedAt }

end BoothOperator.Messages
