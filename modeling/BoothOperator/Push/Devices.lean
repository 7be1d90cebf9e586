import BoothOperator.Lib.Table
import BoothOperator.Schema

/-! The registry of operator devices, `routes/devices.ts`. One row stands for a token on a platform:
who registers the token takes the row over, and what an operator sees of it as its preferences is
what a push is gated by. -/
namespace BoothOperator.Push

open BoothOperator.Json (Value)
open BoothOperator.Schema

inductive PreferenceKey where
  | callStarted
  | messageReceived
  | messageFlagged
  | moderationQueueHigh
  deriving DecidableEq

def PreferenceKey.name : PreferenceKey → String
  | .callStarted => "callStarted"
  | .messageReceived => "messageReceived"
  | .messageFlagged => "messageFlagged"
  | .moderationQueueHigh => "moderationQueueHigh"

structure MobileDevicePreferences where
  callStarted : Bool := true
  messageReceived : Bool := true
  messageFlagged : Bool := true
  moderationQueueHigh : Bool := false

def defaultPreferences : MobileDevicePreferences := {}

namespace MobileDevicePreferences

def get (preferences : MobileDevicePreferences) : PreferenceKey → Bool
  | .callStarted => preferences.callStarted
  | .messageReceived => preferences.messageReceived
  | .messageFlagged => preferences.messageFlagged
  | .moderationQueueHigh => preferences.moderationQueueHigh

/-- The column as it is written. -/
def column (preferences : MobileDevicePreferences) : JsonValue :=
  .obj [("callStarted", .bool preferences.callStarted),
    ("messageReceived", .bool preferences.messageReceived),
    ("messageFlagged", .bool preferences.messageFlagged),
    ("moderationQueueHigh", .bool preferences.moderationQueueHigh)]

end MobileDevicePreferences

/-- `z.boolean().default(..)` on a member; `none` when the member is no boolean. -/
def booleanMember (members : List (String × JsonValue)) (key : PreferenceKey) : Option Bool :=
  match Value.lookup key.name members with
  | none => some (defaultPreferences.get key)
  | some (.bool value) => some value
  | some _ => none

/-- `MobileDevicePreferencesSchema.safeParse`. -/
def parsePreferences (members : List (String × JsonValue)) : Option MobileDevicePreferences := do
  let callStarted ← booleanMember members .callStarted
  let messageReceived ← booleanMember members .messageReceived
  let messageFlagged ← booleanMember members .messageFlagged
  let moderationQueueHigh ← booleanMember members .moderationQueueHigh
  some { callStarted, messageReceived, messageFlagged, moderationQueueHigh }

/-- The preferences of a body, each member there or not. -/
structure PreferencesOverride where
  callStarted : Option Bool := none
  messageReceived : Option Bool := none
  messageFlagged : Option Bool := none
  moderationQueueHigh : Option Bool := none

def mergePreferences (raw : Option JsonValue) (override : Option PreferencesOverride) :
    MobileDevicePreferences :=
  let parsed := match raw with
    | some (.obj members) => parsePreferences members
    | some (.arr _) => none
    | _ => parsePreferences []
  let base := parsed.getD defaultPreferences
  match override with
  | none => base
  | some override =>
    { callStarted := override.callStarted.getD base.callStarted
      messageReceived := override.messageReceived.getD base.messageReceived
      messageFlagged := override.messageFlagged.getD base.messageFlagged
      moderationQueueHigh := override.moderationQueueHigh.getD base.moderationQueueHigh }

def prefersNotification (raw : JsonValue) (key : PreferenceKey) : Bool :=
  match raw with
  | .obj members =>
    match Value.lookup key.name members with
    | some (.bool value) => value
    | _ => defaultPreferences.get key
  | _ => defaultPreferences.get key

structure MobileDevice where
  id : Id
  userId : String
  apnsToken : String
  platform : String
  deviceName : Option String := none
  preferences : JsonValue := .obj []
  registeredAt : Time := 0
  lastSeenAt : Time := 0
  revokedAt : Option Time := none

/-- The columns of the unique index. -/
def MobileDevice.address (row : MobileDevice) : String × String := (row.apnsToken, row.platform)

structure RegisterMobileDeviceRequest where
  apnsToken : String
  platform : String
  deviceName : Option String := none
  preferences : Option PreferencesOverride := none

def RegisterMobileDeviceRequest.address (body : RegisterMobileDeviceRequest) : String × String :=
  (body.apnsToken, body.platform)

/-- A name left out is kept, one that is `null` goes. -/
structure UpdateMobileDevicePreferences where
  deviceName : Option (Option String) := none
  preferences : Option PreferencesOverride := none

def createdDevice (userId : String) (body : RegisterMobileDeviceRequest) (now : Time) (id : Id) :
    MobileDevice :=
  { id, userId
    apnsToken := body.apnsToken
    platform := body.platform
    deviceName := body.deviceName
    preferences := (mergePreferences none body.preferences).column
    registeredAt := now
    lastSeenAt := now }

/-- The `update` of a registration: the device goes over to the user, and is active again. -/
def reregistered (now : Time) (old new : MobileDevice) : MobileDevice :=
  { old with
    userId := new.userId
    deviceName := new.deviceName
    preferences := new.preferences
    lastSeenAt := now
    revokedAt := none }

/-- `POST /`, one `upsert`. -/
def registerDevice (userId : String) (body : RegisterMobileDeviceRequest) (now : Time)
    (rows : List MobileDevice) : List MobileDevice :=
  Table.upsert MobileDevice.address (reregistered now)
    (createdDevice userId body now rows.length) rows

/-- The active row of the user, which `PATCH /:id` and `DELETE /:id` look for. -/
def ownDevice (userId : String) (id : Id) (rows : List MobileDevice) : Option MobileDevice :=
  rows.find? fun row => row.id = id ∧ row.userId = userId ∧ row.revokedAt = none

/-- The `update` of `PATCH /:id`, by the id alone. -/
def updateDevice (existing : MobileDevice) (body : UpdateMobileDevicePreferences) (now : Time)
    (rows : List MobileDevice) : List MobileDevice :=
  Table.updateMany (fun row => row.id = existing.id)
    (fun row => { row with
      deviceName := body.deviceName.getD existing.deviceName
      preferences := (mergePreferences (some existing.preferences) body.preferences).column
      lastSeenAt := now }) rows

/-- `DELETE /:id`. -/
def removeDevice (userId : String) (id : Id) (now : Time) (rows : List MobileDevice) :
    List MobileDevice :=
  Table.updateMany (fun row => row.id = id ∧ row.userId = userId ∧ row.revokedAt = none)
    (fun row => { row with revokedAt := some now }) rows

/-- `revokeDevice` of the sender, by the id alone. -/
def revokeDevice (id : Id) (now : Time) (rows : List MobileDevice) : List MobileDevice :=
  Table.updateMany (fun row => row.id = id) (fun row => { row with revokedAt := some now }) rows

/-! ## What is shown and what gates -/

section Preferences

variable {key : PreferenceKey} {members : List (String × JsonValue)}
  {preferences : MobileDevicePreferences}

theorem booleanMember_of_parsed (parsed : parsePreferences members = some preferences)
    (key : PreferenceKey) : booleanMember members key = some (preferences.get key) := by
  obtain ⟨callStarted, first, parsed⟩ := Option.bind_eq_some_iff.mp parsed
  obtain ⟨messageReceived, second, parsed⟩ := Option.bind_eq_some_iff.mp parsed
  obtain ⟨messageFlagged, third, parsed⟩ := Option.bind_eq_some_iff.mp parsed
  obtain ⟨moderationQueueHigh, fourth, parsed⟩ := Option.bind_eq_some_iff.mp parsed
  cases parsed
  cases key
  · exact first
  · exact second
  · exact third
  · exact fourth

/-- Where the schema reads the column, a push is gated by what the schema reads. -/
theorem prefers_of_parsed (parsed : parsePreferences members = some preferences)
    (key : PreferenceKey) : prefersNotification (.obj members) key = preferences.get key := by
  have member := booleanMember_of_parsed parsed key
  unfold booleanMember at member
  simp only [prefersNotification]
  split at member
  · rename_i missing
    rw [missing]
    exact Option.some.inj member
  · rename_i value found
    rw [found]
    exact Option.some.inj member
  · cases member

theorem parse_column (preferences : MobileDevicePreferences) :
    ∃ members, preferences.column = .obj members ∧
      parsePreferences members = some preferences := ⟨_, rfl, rfl⟩

@[simp] theorem merge_column (preferences : MobileDevicePreferences) :
    mergePreferences (some preferences.column) none = preferences := rfl

@[simp] theorem prefers_column (preferences : MobileDevicePreferences) (key : PreferenceKey) :
    prefersNotification preferences.column key = preferences.get key := by
  obtain ⟨members, its, parsed⟩ := parse_column preferences
  rw [its]
  exact prefers_of_parsed parsed key

end Preferences

end BoothOperator.Push
