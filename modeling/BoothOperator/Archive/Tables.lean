import BoothOperator.Schema
import BoothOperator.Lib.Loading

/-! `prisma/schema.prisma` as data: for each model its columns, in the order
of the file, with what they hold and the relation they belong to. The archive
code walks the models generically, so its rows are lists of columns and not
the records of `Schema`. -/
namespace BoothOperator.Archive

open BoothOperator.Schema
open BoothOperator.Loading (Tables)

inductive Model where
  | operatorUser | installation | file | instruction | question | callSession | message
  | boothEvent | boothStatusSnapshot | telemetrySource | apiToken | transcription | moderation
  | metricFilter | mobileDevice | auditLog | boothSystemSnapshot | operatorSession
  | pushNotificationState | moderationPolicy
  deriving DecidableEq, Repr

/-- The models in the order of their declaration above. -/
def models : List Model :=
  [.operatorUser, .installation, .file, .instruction, .question, .callSession, .message,
    .boothEvent, .boothStatusSnapshot, .telemetrySource, .apiToken, .transcription, .moderation,
    .metricFilter, .mobileDevice, .auditLog, .boothSystemSnapshot, .operatorSession,
    .pushNotificationState, .moderationPolicy]

theorem mem_models (name : Model) : name ∈ models := by
  cases name <;> decide

inductive Column where
  | id | name | notes | location | defaultTranscriptionLanguage | startedAt | endedAt | endedById
  | summary | createdAt | questionSelectionCycle | lastSelectedQuestionId | recentQuestionDraws
  | boothId | snapshot | receivedAt | version | prompt | status | audioId | retiredAt | weight
  | lastSelectedCycle | selectionsInCycle | installationId | description | questionId | decidedAt
  | decidedById | reviewClassification | reviewRecommendation | reviewClassifiedAt
  | reviewClassifiedById | processingLeaseTokenHash | processingLeaseExpiresAt | processingLeasedAt
  | processingLeasedById | processingSnapshotHash | processingAttemptCount | processingError
  | processingFailedAt | processingCompletedAt | blobContainer | blobKey | sha256 | sizeBytes
  | durationMs | contentType | state | currentQuestionId | currentMessageId | lastError
  | runtimeMode | firstSeenAt | repeatCount | updatedAt | eventId | bootId | type | occurredAt
  | sessionId | recordingId | payload | digitsDialed | outcome | oidcSub | email | groups | picture
  | isAdmin | lastSeenAt | lastLoginAt | userId | window | rangeStart | rangeEnd | idToken
  | accessToken | refreshToken | accessTokenExpiresAt | expiresAt | lastValidatedAt | ip
  | userAgent | componentId | displayName | kind | prometheusJob | prometheusInstance
  | latestSnapshot | capturedAt | lookupId | tokenHash | last4 | scope | telemetrySourceId
  | createdByUserId | lastUsedAt | revokedAt | messageId | provider | model | text | language
  | latencyMs | error | requestedById | completedAt | translationStatus | translatedText
  | translatedLanguage | translationProvider | translationModel | translationError
  | translationLatencyMs | translationCompletedAt | transcriptionId | flagged | recommendation
  | maxScore | categories | reasonSummary | pushNotifiedAt | key | active | threshold | badgeCount
  | badgeVersion | badgeDeliveredVersion | badgeLeaseToken | badgeLeaseExpiresAt | instructions
  | updatedById | apnsToken | platform | deviceName | preferences | registeredAt | action
  | targetType | targetId | actorType | actorUserId | actorTokenId | actorLabel | method | path
  | statusCode | metadata
  deriving DecidableEq, Repr

/-- The types of columns. -/
inductive Kind where
  | text
  | uuid
  | int
  | float
  | bool
  | dateTime
  | json
  | oneOf (values : List String)
  deriving DecidableEq, Repr

/-- A value stored in a column. -/
inductive Cell where
  | null
  | text (value : String)
  | int (value : Int)
  | float (value : Number)
  | bool (value : Bool)
  | date (value : Time)
  | json (value : JsonValue)

structure Field where
  column : Column
  kind : Kind
  nullable : Bool := false
  references : Option Model := none

namespace Field

def required (kind : Kind) (column : Column) : Field := ⟨column, kind, false, none⟩

/-- A column with a `?`. -/
def optional (kind : Kind) (column : Column) : Field := ⟨column, kind, true, none⟩

/-- The column of a required relation. -/
def belongsTo (kind : Kind) (column : Column) (parent : Model) : Field :=
  ⟨column, kind, false, some parent⟩

/-- The column of an optional relation. -/
def refersTo (kind : Kind) (column : Column) (parent : Model) : Field :=
  ⟨column, kind, true, some parent⟩

end Field

open BoothOperator.Archive.Kind BoothOperator.Archive.Field

def messageStatus : Kind := oneOf ["uploading", "received", "pending", "approved", "rejected"]

def questionStatus : Kind := oneOf ["draft", "active", "archived"]

def instructionStatus : Kind := oneOf ["active", "inactive"]

def boothState : Kind :=
  oneOf ["idle", "dialTone", "dialing", "playingQuestion", "beep", "recording", "uploading",
    "playingMessage", "playingInstructions", "callUnavailable", "error"]

def transcriptionStatus : Kind := oneOf ["pending", "succeeded", "failed"]

def moderationRecommendation : Kind := oneOf ["approve", "review", "reject"]

def messageReviewClassification : Kind := oneOf ["likely_hangup", "unclear"]

def messageReviewRecommendation : Kind := oneOf ["delete", "review"]

def runtimeModes : Kind := oneOf ["real", "mock", "simulator"]

def auditActorType : Kind := oneOf ["operator", "apiToken", "anonymous", "system"]

def fields : Model → List Field
  | .installation =>
    [required uuid .id, required text .name, optional text .notes, optional text .location,
      optional text .defaultTranscriptionLanguage, required dateTime .startedAt,
      optional dateTime .endedAt, refersTo text .endedById .operatorUser, optional json .summary,
      required dateTime .createdAt, required int .questionSelectionCycle,
      optional uuid .lastSelectedQuestionId, required json .recentQuestionDraws]
  | .boothSystemSnapshot =>
    [required text .boothId, required json .snapshot, required dateTime .receivedAt,
      optional text .version]
  | .question =>
    [required uuid .id, required text .prompt, required questionStatus .status,
      belongsTo uuid .audioId .file, required dateTime .createdAt, optional dateTime .retiredAt,
      required int .weight, optional int .lastSelectedCycle, required int .selectionsInCycle,
      refersTo uuid .installationId .installation]
  | .instruction =>
    [required uuid .id, optional text .description, required instructionStatus .status,
      belongsTo uuid .audioId .file, required dateTime .createdAt]
  | .message =>
    [required uuid .id, required messageStatus .status, optional text .notes,
      refersTo uuid .questionId .question, belongsTo uuid .audioId .file,
      required dateTime .createdAt, optional dateTime .receivedAt, optional dateTime .decidedAt,
      refersTo text .decidedById .operatorUser,
      optional messageReviewClassification .reviewClassification,
      optional messageReviewRecommendation .reviewRecommendation,
      optional dateTime .reviewClassifiedAt, refersTo text .reviewClassifiedById .operatorUser,
      optional text .processingLeaseTokenHash, optional dateTime .processingLeaseExpiresAt,
      optional dateTime .processingLeasedAt, refersTo text .processingLeasedById .operatorUser,
      optional text .processingSnapshotHash, required int .processingAttemptCount,
      optional text .processingError, optional dateTime .processingFailedAt,
      optional dateTime .processingCompletedAt, refersTo uuid .installationId .installation]
  | .file =>
    [required uuid .id, required text .blobContainer, required text .blobKey,
      required text .sha256, required int .sizeBytes, optional int .durationMs,
      required text .contentType, required dateTime .createdAt]
  | .boothStatusSnapshot =>
    [required int .id, required boothState .state, optional uuid .currentQuestionId,
      optional uuid .currentMessageId, optional text .lastError,
      optional runtimeModes .runtimeMode, required dateTime .firstSeenAt,
      required int .repeatCount, required dateTime .updatedAt,
      refersTo uuid .installationId .installation]
  | .boothEvent =>
    [required text .id, required text .eventId, required text .boothId, required text .bootId,
      required text .type, required dateTime .occurredAt, required dateTime .receivedAt,
      refersTo text .sessionId .callSession, optional text .recordingId, required json .payload,
      optional text .version, refersTo uuid .installationId .installation]
  | .callSession =>
    [required text .id, required text .boothId, required text .bootId,
      required dateTime .startedAt, optional dateTime .endedAt, optional text .digitsDialed,
      optional text .outcome, optional text .recordingId, optional int .durationMs,
      optional text .version, refersTo uuid .installationId .installation]
  | .operatorUser =>
    [required text .id, required text .oidcSub, required text .email, required text .name,
      optional json .groups, optional text .picture, required bool .isAdmin,
      required dateTime .firstSeenAt, required dateTime .lastSeenAt,
      optional dateTime .lastLoginAt]
  | .metricFilter =>
    [required uuid .id, belongsTo text .userId .operatorUser, required text .name,
      optional text .window, optional dateTime .rangeStart, optional dateTime .rangeEnd,
      required dateTime .createdAt, required dateTime .updatedAt]
  | .operatorSession =>
    [required text .id, belongsTo text .userId .operatorUser, optional text .idToken,
      optional text .accessToken, optional text .refreshToken,
      optional dateTime .accessTokenExpiresAt, required dateTime .expiresAt,
      required dateTime .createdAt, required dateTime .lastSeenAt,
      optional dateTime .lastValidatedAt, optional text .ip, optional text .userAgent]
  | .telemetrySource =>
    [required uuid .id, required text .boothId, required text .componentId,
      required text .displayName, required text .kind, required text .prometheusJob,
      required text .prometheusInstance, optional json .latestSnapshot,
      optional dateTime .capturedAt, optional dateTime .receivedAt, required dateTime .createdAt,
      required dateTime .updatedAt]
  | .apiToken =>
    [required uuid .id, required text .name, required text .lookupId, required text .tokenHash,
      required text .last4, required text .scope,
      refersTo uuid .telemetrySourceId .telemetrySource,
      belongsTo text .createdByUserId .operatorUser, required dateTime .createdAt,
      optional dateTime .expiresAt, optional dateTime .lastUsedAt, optional dateTime .revokedAt]
  | .transcription =>
    [required uuid .id, belongsTo uuid .messageId .message, required text .provider,
      optional text .model, required transcriptionStatus .status, optional text .text,
      optional text .language, optional int .durationMs, optional int .latencyMs,
      optional text .error, refersTo text .requestedById .operatorUser,
      required dateTime .createdAt, optional dateTime .completedAt,
      optional transcriptionStatus .translationStatus, optional text .translatedText,
      optional text .translatedLanguage, optional text .translationProvider,
      optional text .translationModel, optional text .translationError,
      optional int .translationLatencyMs, optional dateTime .translationCompletedAt]
  | .moderation =>
    [required uuid .id, belongsTo uuid .messageId .message,
      refersTo uuid .transcriptionId .transcription, required text .provider,
      optional text .model, required transcriptionStatus .status, optional bool .flagged,
      optional moderationRecommendation .recommendation, optional float .maxScore,
      optional json .categories, optional text .reasonSummary, optional int .latencyMs,
      optional text .error, refersTo text .requestedById .operatorUser,
      required dateTime .createdAt, optional dateTime .completedAt,
      optional dateTime .pushNotifiedAt]
  | .pushNotificationState =>
    [required text .key, required bool .active, required int .threshold,
      required int .badgeCount, required int .badgeVersion,
      required int .badgeDeliveredVersion, optional text .badgeLeaseToken,
      optional dateTime .badgeLeaseExpiresAt, required dateTime .updatedAt]
  | .moderationPolicy =>
    [required text .key, required int .version, required text .instructions,
      required dateTime .updatedAt, refersTo text .updatedById .operatorUser]
  | .mobileDevice =>
    [required uuid .id, belongsTo text .userId .operatorUser, required text .apnsToken,
      required text .platform, optional text .deviceName, required json .preferences,
      required dateTime .registeredAt, required dateTime .lastSeenAt,
      optional dateTime .revokedAt]
  | .auditLog =>
    [required uuid .id, required text .action, optional text .targetType,
      optional text .targetId, required auditActorType .actorType,
      refersTo text .actorUserId .operatorUser, refersTo uuid .actorTokenId .apiToken,
      required text .actorLabel, optional text .ip, optional text .userAgent,
      required text .method, required text .path, required int .statusCode,
      optional json .metadata, required dateTime .createdAt]

/-- The column with `@id`. -/
def idColumn : Model → Column
  | .boothSystemSnapshot => .boothId
  | .pushNotificationState => .key
  | .moderationPolicy => .key
  | _ => .id

/-- `@id`, `@unique` and `@@unique`. -/
def uniques : Model → List (List Column)
  | .question => [[.id], [.installationId, .prompt], [.installationId, .audioId]]
  | .instruction => [[.id], [.audioId]]
  | .message => [[.id], [.audioId]]
  | .file => [[.id], [.blobKey], [.sha256]]
  | .boothEvent => [[.id], [.boothId, .eventId]]
  | .operatorUser => [[.id], [.oidcSub], [.email]]
  | .telemetrySource => [[.id], [.boothId, .componentId]]
  | .apiToken => [[.id], [.lookupId]]
  | .mobileDevice => [[.id], [.apnsToken, .platform]]
  | name => [[idColumn name]]

/-- What the schema puts into a column that a created row leaves out. -/
inductive Initial where
  | value (cell : Cell)
  | now

/-- `@default` and `@updatedAt`. -/
def initial : Model → Column → Option Initial
  | .installation, .startedAt | .installation, .createdAt => some .now
  | .installation, .questionSelectionCycle => some (.value (.int 0))
  | .installation, .recentQuestionDraws => some (.value (.json (.arr [])))
  | .question, .status => some (.value (.text "draft"))
  | .question, .createdAt => some .now
  | .question, .weight => some (.value (.int 1))
  | .question, .selectionsInCycle => some (.value (.int 0))
  | .instruction, .status => some (.value (.text "active"))
  | .instruction, .createdAt => some .now
  | .message, .status => some (.value (.text "pending"))
  | .message, .createdAt => some .now
  | .message, .processingAttemptCount => some (.value (.int 0))
  | .file, .createdAt => some .now
  | .boothStatusSnapshot, .firstSeenAt | .boothStatusSnapshot, .updatedAt => some .now
  | .boothStatusSnapshot, .repeatCount => some (.value (.int 1))
  | .boothEvent, .receivedAt => some .now
  | .operatorUser, .isAdmin => some (.value (.bool false))
  | .operatorUser, .firstSeenAt | .operatorUser, .lastSeenAt => some .now
  | .metricFilter, .createdAt | .metricFilter, .updatedAt => some .now
  | .telemetrySource, .createdAt | .telemetrySource, .updatedAt => some .now
  | .apiToken, .scope => some (.value (.text "operator"))
  | .apiToken, .createdAt => some .now
  | .transcription, .status | .moderation, .status => some (.value (.text "pending"))
  | .transcription, .createdAt | .moderation, .createdAt => some .now
  | .mobileDevice, .preferences => some (.value (.json (.obj [])))
  | .mobileDevice, .registeredAt | .mobileDevice, .lastSeenAt => some .now
  | .auditLog, .createdAt => some .now
  | _, _ => none

/-- `@updatedAt` among the models an archive carries. -/
def touched : Model → Column → Bool
  | .metricFilter, .updatedAt | .telemetrySource, .updatedAt => true
  | _, _ => false

/-- A stored row: its columns with their values. -/
abbrev Row := List (Column × Cell)

namespace Row

def get (row : Row) (column : Column) : Cell := (row.lookup column).getD .null

/-- The text in a column, when one is there. -/
def text? (row : Row) (column : Column) : Option String :=
  match row.get column with
  | .text value => some value
  | _ => none

/-- `{ ...row, column: value }` for a column the row has. -/
def set (row : Row) (column : Column) (value : Cell) : Row :=
  row.map fun entry => if entry.1 = column then (column, value) else entry

end Row

/-- The relation columns of a model with the models they refer to. -/
def relations (name : Model) : List (Column × Model) :=
  (fields name).filterMap fun field => field.references.map fun parent => (field.column, parent)

/-- A row given by some of its columns; the others are null. -/
def Row.of (name : Model) (values : Row) : Row :=
  (fields name).map fun field => (field.column, values.get field.column)

/-- What a row refers to: the parent's model and id, for each relation column
that is not null. -/
def references (name : Model) (row : Row) : List (Model × String) :=
  (relations name).filterMap fun relation =>
    (row.text? relation.1).map fun id => (relation.2, id)

/-- The id other rows refer to. -/
def rowId (name : Model) (row : Row) : Option String := row.text? (idColumn name)

/-- The foreign keys of the schema: every relation column leads to a row. -/
def ForeignKeys (tables : Tables Model Row) : Prop := Loading.Closed rowId references tables

instance (tables : Tables Model Row) : Decidable (ForeignKeys tables) :=
  decidable_of_iff
    (∀ name ∈ models, ∀ row ∈ tables name, ∀ target ∈ references name row,
      Loading.Resolves rowId tables target)
    ⟨fun checked name => checked name (mem_models name), fun keys name _ => keys name⟩

theorem mem_references {name : Model} {row : Row} {target : Model × String} :
    target ∈ references name row ↔
      ∃ column, (column, target.1) ∈ relations name ∧ row.text? column = some target.2 := by
  simp only [references, List.mem_filterMap, Option.map_eq_some_iff]
  constructor
  · rintro ⟨⟨column, parent⟩, member, id, value, rfl⟩
    exact ⟨column, member, value⟩
  · rintro ⟨column, member, value⟩
    exact ⟨(column, target.1), member, target.2, value, rfl⟩

namespace Row

theorem get_set_of_ne {column other : Column} (apart : other ≠ column) (row : Row) (value : Cell) :
    (row.set column value).get other = row.get other := by
  unfold get
  congr 1
  induction row with
  | nil => rfl
  | cons entry rest ih =>
    obtain ⟨stored, cell⟩ := entry
    simp only [set, List.map_cons] at ih ⊢
    by_cases here : stored = column
    · subst here
      have miss : (other == stored) = false := beq_false_of_ne apart
      rw [if_pos rfl, List.lookup_cons, List.lookup_cons, miss]
      exact ih
    · rw [if_neg here, List.lookup_cons, List.lookup_cons, ih]

@[simp] theorem text?_set_of_ne {column other : Column} (apart : other ≠ column) (row : Row)
    (value : Cell) : (row.set column value).text? other = row.text? other := by
  unfold text?
  rw [get_set_of_ne apart]

end Row

end BoothOperator.Archive
