import Mathlib.Data.List.Dedup
import BoothOperator.Lib.Run
import BoothOperator.Push.Devices

/-! The pushes to the operators' devices, `lib/apns.ts` and the sender of `lib/apns-http2.ts`. A
fan-out reads the operators with an active device and sends to all of them at once; a send reads the
devices of its operator and posts to all of them at once. Between any two awaits the routes of the
devices and the other fan-outs take their steps, and the clock may move. The texts of a notification
and the provider token of a post are left out. -/
namespace BoothOperator.Push

open BoothOperator.Json (Value)
open BoothOperator.Schema

/-- Which devices a notification is for; a badge is for every active one. -/
inductive ApnsNotification where
  | alert (preferenceKey : PreferenceKey) (collapseId : Option String)
  | badge (badge : Nat)

def ApnsNotification.preferenceKey : ApnsNotification → Option PreferenceKey
  | .alert preferenceKey _ => some preferenceKey
  | .badge _ => none

def apnsDeliveryFenceMinimumMs : Time := 25000

def MODERATION_BADGE_COLLAPSE_ID : String := "moderation-badge"

def ApnsNotification.collapseKey : ApnsNotification → Option String
  | .alert _ collapseId => collapseId
  | .badge _ => some MODERATION_BADGE_COLLAPSE_ID

def permanentTokenFailures : List String :=
  ["Unregistered", "BadDeviceToken", "DeviceTokenNotForTopic", "ExpiredToken"]

def topicForPlatform (bundleId platform : String) : String :=
  if platform = "watchos" then bundleId ++ ".watch" else bundleId

structure TargetDevice where
  id : Id
  apnsToken : String
  platform : String
  deriving DecidableEq

/-- The row is one that a push to this operator goes to. -/
def isTarget (userId : String) (preferenceKey : Option PreferenceKey) (row : MobileDevice) : Bool :=
  row.userId = userId ∧ row.revokedAt = none ∧
    preferenceKey.all (prefersNotification row.preferences)

def MobileDevice.target (row : MobileDevice) : TargetDevice :=
  { id := row.id, apnsToken := row.apnsToken, platform := row.platform }

def findTargetDevices (userId : String) (preferenceKey : Option PreferenceKey)
    (rows : List MobileDevice) : List TargetDevice :=
  (rows.filter (isTarget userId preferenceKey)).map MobileDevice.target

/-- The operators that `sendToOperatorUsers` finds. -/
def operatorUsers (rows : List MobileDevice) : List String :=
  ((rows.filter fun row => row.revokedAt = none).map (·.userId)).dedup

/-- What a fence comes to when it does not throw: the end of the lease, if it still holds. -/
abbrev FenceAnswer := Option (Option Time)

/-- Whether a send or a delivery goes on. Without a fence there is nothing to await. -/
def fencePasses (fenced : Bool) (now : Time) (answer : FenceAnswer) : Bool :=
  if fenced then
    match answer with
    | some (some leaseExpiresAt) => apnsDeliveryFenceMinimumMs ≤ leaseExpiresAt - now
    | _ => false
  else true

/-- What a post comes to; `none` is an error of the transport, or the timeout. -/
abbrev PostAnswer := Option (Nat × Option String)

def refuses (status : Nat) (reason : Option String) : Bool :=
  status = 410 ∨ reason.getD "" ∈ permanentTokenFailures

inductive DeliveryStage where
  | fence
  | posted
  | revoke
  | accepted
  | refused
  | failed
  deriving DecidableEq

structure Submission where
  topic : String
  collapseId : Option String
  submittedAt : Time
  leaseExpiresAt : Option Time

structure Delivery where
  send : Nat
  device : TargetDevice
  stage : DeliveryStage := .fence
  submission : Option Submission := none

inductive SendStage where
  | devices
  | token
  | fence
  | delivering
  | settled (rejected : Bool)
  deriving DecidableEq

structure Send where
  fanOut : Nat
  userId : String
  stage : SendStage := .devices
  /-- The devices it read. -/
  targets : Option (List TargetDevice) := none

/-- `fanOutNotification`, `fanOutReplacementNotification` and `fanOutBadgeNotification`. -/
inductive FanOutKind where
  | notification
  | replacement
  | badge
  deriving DecidableEq

/-- Whether its caller learns that the operators could not be read. -/
def FanOutKind.rejects : FanOutKind → Bool
  | .notification => false
  | _ => true

inductive FanOutStage where
  | users
  | sending
  | ended (rejected : Bool)
  deriving DecidableEq

structure FanOut where
  kind : FanOutKind
  notification : ApnsNotification
  fenced : Bool
  stage : FanOutStage := .users

inductive PatchStage where
  | find
  | write (existing : MobileDevice)
  | done

/-- A `PATCH /:id` under way. -/
structure DevicePatch where
  userId : String
  id : Id
  body : UpdateMobileDevicePreferences
  stage : PatchStage := .find

structure ApnsWorld where
  configured : Bool := true
  bundleId : String := ""
  now : Time := 0
  rows : List MobileDevice := []
  patches : List DevicePatch := []
  fanOuts : List FanOut := []
  sends : List Send := []
  deliveries : List Delivery := []

inductive ApnsEvent where
  | tick (ms : Nat)
  | register (userId : String) (body : RegisterMobileDeviceRequest)
  | patch (userId : String) (id : Id) (body : UpdateMobileDevicePreferences)
  | patchStep (place : Nat)
  | remove (userId : String) (id : Id)
  | fanOut (kind : FanOutKind) (notification : ApnsNotification) (fenced : Bool)
  | users (place : Nat) (throws : Bool)
  | devices (place : Nat) (throws : Bool)
  | token (place : Nat) (throws : Bool)
  | fence (place : Nat) (answer : FenceAnswer)
  | submit (place : Nat) (answer : FenceAnswer)
  | answer (place : Nat) (answer : PostAnswer)
  | revoke (place : Nat) (throws : Bool)
  | settle (place : Nat)
  | finish (place : Nat)

namespace ApnsWorld

def setPatch (world : ApnsWorld) (place : Nat) (patch : DevicePatch) : ApnsWorld :=
  { world with patches := world.patches.set place patch }

def setFanOut (world : ApnsWorld) (place : Nat) (fanOut : FanOut) : ApnsWorld :=
  { world with fanOuts := world.fanOuts.set place fanOut }

def setSend (world : ApnsWorld) (place : Nat) (send : Send) : ApnsWorld :=
  { world with sends := world.sends.set place send }

def setDelivery (world : ApnsWorld) (place : Nat) (delivery : Delivery) : ApnsWorld :=
  { world with deliveries := world.deliveries.set place delivery }

/-- A fan-out starts; without a configuration it ends at once, and a replacement rejects. -/
def startFanOut (world : ApnsWorld) (kind : FanOutKind) (notification : ApnsNotification)
    (fenced : Bool) : ApnsWorld :=
  let stage := if world.configured then .users else .ended (kind = .replacement)
  { world with fanOuts := world.fanOuts ++ [{ kind, notification, fenced, stage }] }

/-- `sendToOperatorUsers`, whose sends all begin together. -/
def readUsers (world : ApnsWorld) (place : Nat) (fanOut : FanOut) (throws : Bool) : ApnsWorld :=
  if throws then world.setFanOut place { fanOut with stage := .ended (fanOut.kind.rejects) }
  else
    let sends := (operatorUsers world.rows).map fun userId => { fanOut := place, userId }
    { world.setFanOut place { fanOut with stage := .sending } with sends := world.sends ++ sends }

/-- `findTargetDevices` of `Http2ApnsSender.send`. -/
def readDevices (world : ApnsWorld) (place : Nat) (send : Send) (fanOut : FanOut) (throws : Bool) :
    ApnsWorld :=
  if throws then world.setSend place { send with stage := .settled true }
  else
    let targets := findTargetDevices send.userId fanOut.notification.preferenceKey world.rows
    let stage := if targets = [] then .settled false else .token
    world.setSend place { send with stage, targets := some targets }

/-- What follows the fence of a send: the deliveries to its devices all begin together. -/
def startDeliveries (world : ApnsWorld) (place : Nat) (send : Send) (fanOut : FanOut)
    (answer : FenceAnswer) : ApnsWorld :=
  if fencePasses fanOut.fenced world.now answer then
    let deliveries := (send.targets.getD []).map fun device => { send := place, device }
    { world.setSend place { send with stage := .delivering } with
      deliveries := world.deliveries ++ deliveries }
  else world.setSend place { send with stage := .settled true }

/-- What follows the fence of a delivery, up to the post. -/
def submitDelivery (world : ApnsWorld) (place : Nat) (delivery : Delivery) (fanOut : FanOut)
    (answer : FenceAnswer) : ApnsWorld :=
  if fencePasses fanOut.fenced world.now answer then
    let submission : Submission :=
      { topic := topicForPlatform world.bundleId delivery.device.platform
        collapseId := fanOut.notification.collapseKey
        submittedAt := world.now
        leaseExpiresAt := if fanOut.fenced then answer.join else none }
    world.setDelivery place { delivery with stage := .posted, submission := some submission }
  else world.setDelivery place { delivery with stage := .failed }

/-- What an answer to a post leaves to do. -/
def answered : PostAnswer → DeliveryStage
  | none => .failed
  | some (status, reason) =>
    if status = 200 then .accepted
    else if refuses status reason then .revoke
    else .failed

/-- The devices of a send that no push reached. -/
def failures (world : ApnsWorld) (place : Nat) : List Delivery :=
  world.deliveries.filter fun delivery => delivery.send = place ∧ delivery.stage = .failed

def isSettled (delivery : Delivery) : Bool :=
  delivery.stage = .accepted ∨ delivery.stage = .refused ∨ delivery.stage = .failed

/-- The `Promise.allSettled` of a send. -/
def deliveriesSettled (world : ApnsWorld) (place : Nat) : Bool :=
  world.deliveries.all fun delivery => delivery.send ≠ place ∨ isSettled delivery

/-- The `Promise.allSettled` of a fan-out. -/
def sendsSettled (world : ApnsWorld) (place : Nat) : Bool :=
  world.sends.all fun send =>
    send.fanOut ≠ place ∨ send.stage = .settled true ∨ send.stage = .settled false

def rejectedSends (world : ApnsWorld) (place : Nat) : List Send :=
  world.sends.filter fun send => send.fanOut = place ∧ send.stage = .settled true

/-- A request or a push goes on where it awaits something; what it awaits may throw. -/
def step (world : ApnsWorld) : ApnsEvent → Option ApnsWorld
  | .tick ms => some { world with now := world.now + ms }
  | .register userId body =>
    some { world with rows := registerDevice userId body world.now world.rows }
  | .patch userId id body => some { world with patches := world.patches ++ [{ userId, id, body }] }
  | .patchStep place => do
    let patch ← world.patches[place]?
    match patch.stage with
    | .find =>
      match ownDevice patch.userId patch.id world.rows with
      | none => some (world.setPatch place { patch with stage := .done })
      | some existing => some (world.setPatch place { patch with stage := .write existing })
    | .write existing =>
      some { world.setPatch place { patch with stage := .done } with
        rows := updateDevice existing patch.body world.now world.rows }
    | .done => none
  | .remove userId id => some { world with rows := removeDevice userId id world.now world.rows }
  | .fanOut kind notification fenced => some (world.startFanOut kind notification fenced)
  | .users place throws => do
    let fanOut ← world.fanOuts[place]?
    if fanOut.stage = .users then some (world.readUsers place fanOut throws) else none
  | .devices place throws => do
    let send ← world.sends[place]?
    let fanOut ← world.fanOuts[send.fanOut]?
    if send.stage = .devices then some (world.readDevices place send fanOut throws) else none
  | .token place throws => do
    let send ← world.sends[place]?
    if send.stage = .token then
      some (world.setSend place
        { send with stage := if throws then .settled true else .fence })
    else none
  | .fence place answer => do
    let send ← world.sends[place]?
    let fanOut ← world.fanOuts[send.fanOut]?
    if send.stage = .fence then some (world.startDeliveries place send fanOut answer) else none
  | .submit place answer => do
    let delivery ← world.deliveries[place]?
    let send ← world.sends[delivery.send]?
    let fanOut ← world.fanOuts[send.fanOut]?
    if delivery.stage = .fence then
      some (world.submitDelivery place delivery fanOut answer)
    else none
  | .answer place answer => do
    let delivery ← world.deliveries[place]?
    if delivery.stage = .posted then
      some (world.setDelivery place { delivery with stage := answered answer })
    else none
  | .revoke place throws => do
    let delivery ← world.deliveries[place]?
    if delivery.stage = .revoke then
      let world := world.setDelivery place { delivery with stage := .refused }
      if throws then some world
      else some { world with rows := revokeDevice delivery.device.id world.now world.rows }
    else none
  | .settle place => do
    let send ← world.sends[place]?
    if send.stage = .delivering ∧ world.deliveriesSettled place = true then
      some (world.setSend place { send with stage := .settled (world.failures place ≠ []) })
    else none
  | .finish place => do
    let fanOut ← world.fanOuts[place]?
    if fanOut.stage = .sending ∧ world.sendsSettled place = true then
      let rejected := fanOut.kind = .badge ∧ world.rejectedSends place ≠ []
      some (world.setFanOut place { fanOut with stage := .ended rejected })
    else none

/-- Nothing has been asked of the process yet. -/
def Fresh (world : ApnsWorld) : Prop :=
  world.rows = [] ∧ world.patches = [] ∧ world.fanOuts = [] ∧ world.sends = [] ∧
    world.deliveries = []

end ApnsWorld

/-! ## What a step does -/

/-- An update that takes no row from its address or its owner, and brings no revoked one back. -/
structure Spares (change : MobileDevice → MobileDevice) : Prop where
  id : ∀ row, (change row).id = row.id
  address : ∀ row, (change row).address = row.address
  userId : ∀ row, (change row).userId = row.userId
  revoked : ∀ row, row.revokedAt ≠ none → (change row).revokedAt ≠ none
  column : ∀ row, (∃ preferences : MobileDevicePreferences, row.preferences = preferences.column) →
    ∃ preferences : MobileDevicePreferences, (change row).preferences = preferences.column

def Spared (before after : List MobileDevice) : Prop :=
  ∃ (found : MobileDevice → Bool) (change : MobileDevice → MobileDevice),
    Spares change ∧ after = Table.updateMany found change before

theorem spared_refl (rows : List MobileDevice) : Spared rows rows :=
  ⟨fun _ => false, id, ⟨fun _ => rfl, fun _ => rfl, fun _ => rfl, fun _ => id, fun _ => id⟩,
    (Table.updateMany_of_none fun _ _ => rfl).symm⟩

theorem spared_update (existing : MobileDevice) (body : UpdateMobileDevicePreferences) (now : Time)
    (rows : List MobileDevice) : Spared rows (updateDevice existing body now rows) := by
  refine ⟨_, _, ?_, rfl⟩
  exact ⟨fun _ => rfl, fun _ => rfl, fun _ => rfl, fun _ => id, fun _ _ => ⟨_, rfl⟩⟩

theorem spared_remove (userId : String) (id : Id) (now : Time) (rows : List MobileDevice) :
    Spared rows (removeDevice userId id now rows) := by
  refine ⟨_, _, ?_, rfl⟩
  refine ⟨fun _ => rfl, fun _ => rfl, fun _ => rfl, ?_, fun _ its => its⟩
  intro _ _ none
  cases none

theorem spared_revoke (id : Id) (now : Time) (rows : List MobileDevice) :
    Spared rows (revokeDevice id now rows) := by
  refine ⟨_, _, ?_, rfl⟩
  refine ⟨fun _ => rfl, fun _ => rfl, fun _ => rfl, ?_, fun _ its => its⟩
  intro _ _ none
  cases none

namespace ApnsWorld

variable {world after : ApnsWorld} {event : ApnsEvent} {events : List ApnsEvent}

/-- The registration that an event is. -/
def registration : ApnsEvent → Option (String × RegisterMobileDeviceRequest)
  | .register userId body => some (userId, body)
  | _ => none

/-- What an event makes of the rows. -/
def RowsMoved (world : ApnsWorld) (event : ApnsEvent) (rows : List MobileDevice) : Prop :=
  match registration event with
  | some (userId, body) => rows = registerDevice userId body world.now world.rows
  | none => Spared world.rows rows

/-- What an event makes of the pushes. -/
inductive Moved (world : ApnsWorld) (event : ApnsEvent) : ApnsWorld → Prop where
  | quiet {after : ApnsWorld} (fanOuts : after.fanOuts = world.fanOuts)
      (sends : after.sends = world.sends) (deliveries : after.deliveries = world.deliveries) :
      Moved world event after
  | started (kind : FanOutKind) (notification : ApnsNotification) (fenced : Bool) :
      Moved world event (world.startFanOut kind notification fenced)
  | users {place : Nat} {fanOut : FanOut} (throws : Bool)
      (there : world.fanOuts[place]? = some fanOut) (stage : fanOut.stage = .users) :
      Moved world event (world.readUsers place fanOut throws)
  | devices {place : Nat} {send : Send} {fanOut : FanOut} (throws : Bool)
      (there : world.sends[place]? = some send) (its : world.fanOuts[send.fanOut]? = some fanOut)
      (stage : send.stage = .devices) (read : event = .devices place throws) :
      Moved world event (world.readDevices place send fanOut throws)
  | token {place : Nat} {send : Send} (throws : Bool) (there : world.sends[place]? = some send)
      (stage : send.stage = .token) :
      Moved world event (world.setSend place
        { send with stage := if throws then .settled true else .fence })
  | fence {place : Nat} {send : Send} {fanOut : FanOut} (answer : FenceAnswer)
      (there : world.sends[place]? = some send) (its : world.fanOuts[send.fanOut]? = some fanOut)
      (stage : send.stage = .fence) : Moved world event (world.startDeliveries place send fanOut answer)
  | submit {place : Nat} {delivery : Delivery} {send : Send} {fanOut : FanOut}
      (answer : FenceAnswer) (there : world.deliveries[place]? = some delivery)
      (its : world.sends[delivery.send]? = some send)
      (above : world.fanOuts[send.fanOut]? = some fanOut) (stage : delivery.stage = .fence) :
      Moved world event (world.submitDelivery place delivery fanOut answer)
  | delivered {after : ApnsWorld} {place : Nat} {delivery : Delivery} (stage : DeliveryStage)
      (there : world.deliveries[place]? = some delivery) (pending : isSettled delivery = false)
      (fanOuts : after.fanOuts = world.fanOuts) (sends : after.sends = world.sends)
      (deliveries : after.deliveries = world.deliveries.set place { delivery with stage }) :
      Moved world event after
  | settled {place : Nat} {send : Send} (there : world.sends[place]? = some send)
      (stage : send.stage = .delivering) (all : world.deliveriesSettled place = true) :
      Moved world event (world.setSend place
        { send with stage := .settled (world.failures place ≠ []) })
  | finished {place : Nat} {fanOut : FanOut} (there : world.fanOuts[place]? = some fanOut)
      (stage : fanOut.stage = .sending) (all : world.sendsSettled place = true) :
      Moved world event (world.setFanOut place
        { fanOut with stage := .ended (fanOut.kind = .badge ∧ world.rejectedSends place ≠ []) })

theorem rows_readUsers (place : Nat) (fanOut : FanOut) (throws : Bool) :
    (world.readUsers place fanOut throws).rows = world.rows := by
  unfold readUsers
  split
  · rfl
  · rfl

theorem rows_readDevices (place : Nat) (send : Send) (fanOut : FanOut) (throws : Bool) :
    (world.readDevices place send fanOut throws).rows = world.rows := by
  unfold readDevices
  split
  · rfl
  · rfl

theorem rows_startDeliveries (place : Nat) (send : Send) (fanOut : FanOut) (answer : FenceAnswer) :
    (world.startDeliveries place send fanOut answer).rows = world.rows := by
  unfold startDeliveries
  split
  · rfl
  · rfl

theorem rows_submitDelivery (place : Nat) (delivery : Delivery) (fanOut : FanOut)
    (answer : FenceAnswer) :
    (world.submitDelivery place delivery fanOut answer).rows = world.rows := by
  unfold submitDelivery
  split
  · rfl
  · rfl

theorem step_cases (taken : world.step event = some after) :
    Moved world event after ∧ RowsMoved world event after.rows := by
  cases event with
  | tick ms =>
    cases taken
    exact ⟨.quiet rfl rfl rfl, spared_refl _⟩
  | register userId body =>
    cases taken
    exact ⟨.quiet rfl rfl rfl, rfl⟩
  | patch userId id body =>
    cases taken
    exact ⟨.quiet rfl rfl rfl, spared_refl _⟩
  | patchStep place =>
    obtain ⟨patch, -, taken⟩ := Option.bind_eq_some_iff.mp taken
    split at taken
    · split at taken
      · cases taken
        exact ⟨.quiet rfl rfl rfl, spared_refl _⟩
      · cases taken
        exact ⟨.quiet rfl rfl rfl, spared_refl _⟩
    · cases taken
      exact ⟨.quiet rfl rfl rfl, spared_update _ _ _ _⟩
    · cases taken
  | remove userId id =>
    cases taken
    exact ⟨.quiet rfl rfl rfl, spared_remove _ _ _ _⟩
  | fanOut kind notification fenced =>
    cases taken
    exact ⟨.started kind notification fenced, spared_refl _⟩
  | users place throws =>
    obtain ⟨fanOut, there, taken⟩ := Option.bind_eq_some_iff.mp taken
    split at taken
    · rename_i stage
      cases taken
      refine ⟨.users throws there stage, ?_⟩
      rw [rows_readUsers]
      exact spared_refl _
    · cases taken
  | devices place throws =>
    obtain ⟨send, there, taken⟩ := Option.bind_eq_some_iff.mp taken
    obtain ⟨fanOut, its, taken⟩ := Option.bind_eq_some_iff.mp taken
    split at taken
    · rename_i stage
      cases taken
      refine ⟨.devices throws there its stage rfl, ?_⟩
      rw [rows_readDevices]
      exact spared_refl _
    · cases taken
  | token place throws =>
    obtain ⟨send, there, taken⟩ := Option.bind_eq_some_iff.mp taken
    split at taken
    · rename_i stage
      cases taken
      exact ⟨.token throws there stage, spared_refl _⟩
    · cases taken
  | fence place answer =>
    obtain ⟨send, there, taken⟩ := Option.bind_eq_some_iff.mp taken
    obtain ⟨fanOut, its, taken⟩ := Option.bind_eq_some_iff.mp taken
    split at taken
    · rename_i stage
      cases taken
      refine ⟨.fence answer there its stage, ?_⟩
      rw [rows_startDeliveries]
      exact spared_refl _
    · cases taken
  | submit place answer =>
    obtain ⟨delivery, there, taken⟩ := Option.bind_eq_some_iff.mp taken
    obtain ⟨send, its, taken⟩ := Option.bind_eq_some_iff.mp taken
    obtain ⟨fanOut, above, taken⟩ := Option.bind_eq_some_iff.mp taken
    split at taken
    · rename_i stage
      cases taken
      refine ⟨.submit answer there its above stage, ?_⟩
      rw [rows_submitDelivery]
      exact spared_refl _
    · cases taken
  | answer place answer =>
    obtain ⟨delivery, there, taken⟩ := Option.bind_eq_some_iff.mp taken
    split at taken
    · rename_i stage
      cases taken
      have pending : isSettled delivery = false := by simp [isSettled, stage]
      exact ⟨.delivered _ there pending rfl rfl rfl, spared_refl _⟩
    · cases taken
  | revoke place throws =>
    obtain ⟨delivery, there, taken⟩ := Option.bind_eq_some_iff.mp taken
    split at taken
    · rename_i stage
      have pending : isSettled delivery = false := by simp [isSettled, stage]
      simp only at taken
      split at taken
      · cases taken
        exact ⟨.delivered _ there pending rfl rfl rfl, spared_refl _⟩
      · cases taken
        exact ⟨.delivered _ there pending rfl rfl rfl, spared_revoke _ _ _⟩
    · cases taken
  | settle place =>
    obtain ⟨send, there, taken⟩ := Option.bind_eq_some_iff.mp taken
    split at taken
    · rename_i ready
      cases taken
      exact ⟨.settled there ready.1 ready.2, spared_refl _⟩
    · cases taken
  | finish place =>
    obtain ⟨fanOut, there, taken⟩ := Option.bind_eq_some_iff.mp taken
    split at taken
    · rename_i ready
      cases taken
      exact ⟨.finished there ready.1 ready.2, spared_refl _⟩
    · cases taken

end ApnsWorld

end BoothOperator.Push
