import BoothOperator.Lib.Run
import BoothOperator.Schema

/-! `lib/push-events.ts`: the row of the moderation badge, the transactions that
observe the queue and the dispatchers that send its count, each at its own
statement. An observation holds the advisory lock of the row's key, so there is
one at a time; what it has written is seen when it commits, and until then no
other statement writes the row. Dispatchers are as many as there are replicas
and calls; any of them may stop for good between two statements, and their
clocks are their own. -/
namespace BoothOperator.Push

open BoothOperator.Schema

def badgeLeaseDurationMs : Time := 120000
def badgeDispatchBatchSize : Nat := 16
def claimAttempts : Nat := 3

/-- The row with the key `moderation-queue-high`. -/
structure PushNotificationState where
  active : Bool
  threshold : Nat
  badgeCount : Nat
  badgeVersion : Nat
  badgeDeliveredVersion : Nat
  badgeLeaseToken : Option Id := none
  badgeLeaseExpiresAt : Option Time := none
  deriving DecidableEq

/-! ## Observations -/

inductive Observation where
  | notifyMessageReceived
  | observeModerationQueue
  | queueModerationBadgeRefresh
  | reconcileModerationBadgeState
  deriving DecidableEq

/-- `create` of the upsert; its `update` is empty. -/
def created (observation : Observation) (threshold count : Nat) : PushNotificationState :=
  match observation with
  | .reconcileModerationBadgeState =>
    { active := false, threshold, badgeCount := count, badgeVersion := 1, badgeDeliveredVersion := 0 }
  | _ => { active := false, threshold, badgeCount := 0, badgeVersion := 0, badgeDeliveredVersion := 0 }

/-- The update after the upsert that returned `state`, if there is one. -/
def updated (observation : Observation) (threshold count : Nat)
    (state row : PushNotificationState) : Option PushNotificationState :=
  let nextActive := decide (threshold ≤ count)
  match observation with
  | .notifyMessageReceived | .observeModerationQueue =>
    some { row with
      active := nextActive, threshold, badgeCount := count, badgeVersion := row.badgeVersion + 1 }
  | .queueModerationBadgeRefresh =>
    some { row with badgeCount := count, badgeVersion := row.badgeVersion + 1 }
  | .reconcileModerationBadgeState =>
    let crossed : Bool := state.active ≠ nextActive ∨ state.threshold ≠ threshold
    let badgeStateUninitialized := state.badgeVersion = 0 ∧ state.badgeDeliveredVersion = 0
    let stale : Bool := state.badgeCount ≠ count ∨ badgeStateUninitialized
    let row := if crossed then { row with active := nextActive, threshold } else row
    let row := if stale
      then { row with badgeCount := count, badgeVersion := row.badgeVersion + 1 } else row
    if crossed || stale then some row else none

inductive Stage where
  | locked
  | counted (count : Nat)
  | upserted (count : Nat) (state : PushNotificationState)
  | finished

/-- The observation that holds the advisory lock, and the row as it has written it. -/
structure Observer where
  observation : Observation
  threshold : Nat
  stage : Stage := .locked
  draft : Option PushNotificationState := none

/-! ## Dispatchers -/

structure BadgeClaim where
  count : Nat
  version : Nat
  leaseToken : Id
  deriving DecidableEq

/-- The next statement of `dispatchModerationBadges`, with its locals. -/
inductive Dispatcher where
  | read (delivered attempt : Nat)
  | claim (delivered attempt : Nat) (state : PushNotificationState) (claimedAt : Time)
  | sending (delivered : Nat) (claim : BadgeClaim)
  | complete (delivered : Nat) (claim : BadgeClaim)
  | release (claim : BadgeClaim)
  | done

/-- The claim a dispatcher acts on. -/
def Dispatcher.held : Dispatcher → Option BadgeClaim
  | .sending _ held | .complete _ held | .release held => some held
  | _ => none

structure World where
  state : Option PushNotificationState := none
  observer : Option Observer := none
  dispatchers : List Dispatcher := []
  nextToken : Id := 0
  /-- Every version the row had, with its count. -/
  stored : List (Nat × Nat) := []
  /-- The claims that succeeded, with the dispatchers that made them, the last one first. -/
  claims : List (Nat × Id) := []
  /-- The claims whose sends returned without an error. -/
  sends : List BadgeClaim := []

inductive Action where
  | observe (observation : Observation) (threshold : Nat)
  | count (count : Nat)
  | upsert
  | update
  | commit
  | rollback
  | dispatch
  | read (dispatcher : Nat) (now : Time)
  | claim (dispatcher : Nat)
  | renew (dispatcher : Nat) (now : Time)
  | sent (dispatcher : Nat)
  | failed (dispatcher : Nat)
  | complete (dispatcher : Nat)
  | release (dispatcher : Nat)
  | crash (dispatcher : Nat)

/-- Whether an open transaction has written the row. -/
def World.rowLocked (world : World) : Bool :=
  world.state.isSome && world.observer.any (·.draft.isSome)

/-- The row as the open transaction sees it. -/
def Observer.row (observer : Observer) (world : World) : Option PushNotificationState :=
  observer.draft.or world.state

/-- `updateMany` on the row, and how many rows it changed. -/
def World.updateMany (world : World) (found : PushNotificationState → Bool)
    (change : PushNotificationState → PushNotificationState) : World × Nat :=
  match world.state with
  | none => (world, 0)
  | some row => if found row then ({ world with state := some (change row) }, 1) else (world, 0)

def World.goto (world : World) (dispatcher : Nat) (next : Dispatcher) : World :=
  { world with dispatchers := world.dispatchers.set dispatcher next }

/-- After a delivery that was completed. -/
def nextDelivery (delivered : Nat) : Dispatcher :=
  if delivered + 1 < badgeDispatchBatchSize then .read (delivered + 1) 0 else .done

/-- After a claim that another writer forestalled. -/
def nextAttempt (delivered attempt : Nat) : Dispatcher :=
  if attempt + 1 < claimAttempts then .read delivered (attempt + 1) else .done

def readBadge (delivered attempt : Nat) (now : Time) (state : Option PushNotificationState) :
    Dispatcher :=
  match state with
  | none => .done
  | some state =>
    if state.badgeVersion ≤ state.badgeDeliveredVersion then .done
    else if state.badgeLeaseExpiresAt.any fun expiresAt => now < expiresAt then .done
    else .claim delivered attempt state now

def claimModerationBadge (world : World) (dispatcher delivered attempt : Nat)
    (state : PushNotificationState) (claimedAt : Time) : World :=
  let leaseToken := world.nextToken
  let (after, count) := world.updateMany
    (fun row => row.badgeVersion = state.badgeVersion ∧
      row.badgeLeaseToken = state.badgeLeaseToken ∧
        row.badgeLeaseExpiresAt = state.badgeLeaseExpiresAt)
    (fun row => { row with
      badgeLeaseToken := some leaseToken
      badgeLeaseExpiresAt := some (claimedAt + badgeLeaseDurationMs) })
  let after := { after with nextToken := world.nextToken + 1 }
  if count = 1 then
    { after with claims := (dispatcher, leaseToken) :: world.claims }.goto dispatcher
      (.sending delivered ⟨state.badgeCount, state.badgeVersion, leaseToken⟩)
  else after.goto dispatcher (nextAttempt delivered attempt)

/-- The fence of a send; the lease is renewed as long as it is the dispatcher's. -/
def renewModerationBadge (world : World) (leaseToken : Id) (now : Time) : World :=
  (world.updateMany (fun row => row.badgeLeaseToken = some leaseToken)
    (fun row => { row with badgeLeaseExpiresAt := some (now + badgeLeaseDurationMs) })).1

def releaseModerationBadge (world : World) (leaseToken : Id) : World :=
  (world.updateMany (fun row => row.badgeLeaseToken = some leaseToken)
    (fun row => { row with badgeLeaseToken := none, badgeLeaseExpiresAt := none })).1

def completeModerationBadge (world : World) (dispatcher delivered : Nat) (claim : BadgeClaim) :
    World :=
  let (after, count) := world.updateMany (fun row => row.badgeLeaseToken = some claim.leaseToken)
    (fun row => { row with
      badgeDeliveredVersion := claim.version
      badgeLeaseToken := none
      badgeLeaseExpiresAt := none })
  after.goto dispatcher (if count = 0 then .done else nextDelivery delivered)

/-- The statements of the observation that is open. -/
def advance (world : World) (observer : Observer) : Action → Option World
  | .count count =>
    match observer.stage with
    | .locked => some { world with observer := some { observer with stage := .counted count } }
    | _ => none
  | .upsert =>
    match observer.stage with
    | .counted count =>
      match observer.row world with
      | some row =>
        some { world with observer := some { observer with stage := .upserted count row } }
      | none =>
        let row := created observer.observation observer.threshold count
        some { world with
          observer := some { observer with stage := .upserted count row, draft := some row } }
    | _ => none
  | .update =>
    match observer.stage with
    | .upserted count state =>
      let written := (observer.row world).bind
        (updated observer.observation observer.threshold count state)
      some { world with
        observer := some { observer with stage := .finished, draft := written.or observer.draft } }
    | _ => none
  | .commit =>
    match observer.stage, observer.draft with
    | .finished, some row =>
      some { world with
        state := some row
        observer := none
        stored := (row.badgeVersion, row.badgeCount) :: world.stored }
    | .finished, none => some { world with observer := none }
    | _, _ => none
  | .rollback => some { world with observer := none }
  | _ => none

/-- The statements of a dispatcher. -/
def Dispatcher.act (world : World) (dispatcher : Nat) : Dispatcher → Action → Option World
  | .read delivered attempt, .read _ now =>
    some (world.goto dispatcher (readBadge delivered attempt now world.state))
  | .claim delivered attempt state claimedAt, .claim _ =>
    if world.rowLocked then none
    else some (claimModerationBadge world dispatcher delivered attempt state claimedAt)
  | .sending _ held, .renew _ now =>
    if world.rowLocked then none else some (renewModerationBadge world held.leaseToken now)
  | .sending delivered held, .sent _ =>
    some ({ world with sends := held :: world.sends }.goto dispatcher (.complete delivered held))
  | .sending _ held, .failed _ => some (world.goto dispatcher (.release held))
  | .complete delivered held, .complete _ =>
    if world.rowLocked then none
    else some (completeModerationBadge world dispatcher delivered held)
  | .release held, .release _ =>
    if world.rowLocked then none
    else some ((releaseModerationBadge world held.leaseToken).goto dispatcher .done)
  | _, _ => none

/-- The dispatcher that makes an action. -/
def Action.dispatcher : Action → Option Nat
  | .read dispatcher _ | .claim dispatcher | .renew dispatcher _ | .sent dispatcher
  | .failed dispatcher | .complete dispatcher | .release dispatcher => some dispatcher
  | _ => none

def step (world : World) (action : Action) : Option World :=
  match action with
  | .observe observation threshold =>
    match world.observer with
    | none => some { world with observer := some { observation, threshold } }
    | some _ => none
  | .dispatch => some { world with dispatchers := world.dispatchers ++ [.read 0 0] }
  | .crash dispatcher => some (world.goto dispatcher .done)
  | action =>
    match action.dispatcher with
    | some dispatcher => (world.dispatchers[dispatcher]?).bind fun phase =>
        phase.act world dispatcher action
    | none => world.observer.bind fun observer => advance world observer action

end BoothOperator.Push
