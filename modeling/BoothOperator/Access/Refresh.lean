import Mathlib.Algebra.Order.Ring.Unbundled.Rat
import Mathlib.Algebra.Ring.Nat
import BoothOperator.Access.Lifetime
import BoothOperator.Lib.OrderedMap
import BoothOperator.Lib.Run
import BoothOperator.Lib.Table

/-! The refresh of access tokens in one process, with sibling replicas beside it.
Requests of a session share the refresh that is in flight, a refresh that the
provider could not serve opens a backoff window, and a refresh that ends without
a session makes its requests destroy it. Every await gives up the turn; the
answers of the provider and of the database are chosen by the environment. -/
namespace BoothOperator.Access

structure StoredSession extends OperatorSession where
  id : String
  accessToken : Option String := none
  refreshToken : Option String := none
  accessTokenExpiresAt : Option Int := none
  deriving DecidableEq

/-- The tokens of a grant. A secret is stored encrypted, which is left out, and an
empty one is not stored. -/
structure TokenSet where
  accessToken : Option String := none
  refreshToken : Option String := none
  expiresIn : Option Rat := none
  deriving DecidableEq

structure RefreshBackoff where
  failures : Nat
  retryAt : Int
  deriving DecidableEq

abbrev RefreshBackoffs := OrderedMap String RefreshBackoff

def REFRESH_BACKOFF_BASE_MS : Nat := 15000

def REFRESH_BACKOFF_MAX_MS : Nat := 300000

def REFRESH_BACKOFF_MAX_ENTRIES : Nat := 1000

def storedSecret (plaintext : Option String) : Option String := plaintext.filter (· ≠ "")

/-- A whole millisecond. -/
def accessTokenExpiresAt (now : Int) (tokens : TokenSet) : Option Int :=
  tokens.expiresIn.map fun ttlSeconds => now + (max ttlSeconds 60 * 1000).floor

def accessTokenIsFresh (now : Int) (session : StoredSession) : Bool :=
  match session.accessTokenExpiresAt with
  | none => true
  | some expiresAt => now + 60000 < expiresAt

/-! ## The backoff table -/

/-- The first of the entries that lapse soonest. -/
def soonest : List (String × RefreshBackoff) → Option (String × RefreshBackoff)
  | [] => none
  | entry :: rest =>
    match soonest rest with
    | none => some entry
    | some other => if other.2.retryAt < entry.2.retryAt then some other else some entry

/-- Drop the entry that lapses soonest while the table is full. -/
def dropSoonest : Nat → RefreshBackoffs → RefreshBackoffs
  | 0, backoffs => backoffs
  | turns + 1, backoffs =>
    if backoffs.size < REFRESH_BACKOFF_MAX_ENTRIES then backoffs
    else match soonest backoffs.entries with
      | none => backoffs
      | some entry => dropSoonest turns (backoffs.delete entry.1)

def boundRefreshBackoffs (now : Int) (backoffs : RefreshBackoffs) : RefreshBackoffs :=
  if backoffs.size < REFRESH_BACKOFF_MAX_ENTRIES then backoffs
  else dropSoonest backoffs.size (backoffs.filter fun _ entry => ¬ entry.retryAt ≤ now)

def backoffAfter (now : Int) (previous : Option RefreshBackoff) : RefreshBackoff :=
  let failures := (previous.map RefreshBackoff.failures).getD 0 + 1
  let delay := min (REFRESH_BACKOFF_BASE_MS * 2 ^ (failures - 1)) REFRESH_BACKOFF_MAX_MS
  { failures, retryAt := now + delay }

def noteRefreshFailure (now : Int) (sessionId : String) (backoffs : RefreshBackoffs) :
    RefreshBackoffs :=
  let previous := backoffs.get sessionId
  let backoffs := if previous.isNone then boundRefreshBackoffs now backoffs else backoffs
  backoffs.set sessionId (backoffAfter now previous)

def refreshIsCoolingDown (now : Int) (sessionId : String) (backoffs : RefreshBackoffs) : Bool :=
  (backoffs.get sessionId).any fun entry => now < entry.retryAt

/-! ## Refreshes and requests -/

inductive Failure where
  | rejected | transient
  deriving DecidableEq

/-- What a reread of the stored session came back with, and when. -/
inductive Reread where
  | failed
  | answered (current : Option StoredSession) (at_ : Int)
  deriving DecidableEq

structure RefreshResult where
  session : StoredSession
  accessTokenStale : Bool
  deriving DecidableEq

/-- What `refreshAccessToken` awaits, and its result when it is over. -/
inductive RefreshStage where
  | refreshTokens
  | update (tokens : TokenSet)
  | reread (failure : Failure)
  | sleep
  | rereadAgain
  | settled (result : Option RefreshResult)
  deriving DecidableEq

/-- A call of `refreshAccessToken`, with the rereads it has made. -/
structure Refresh where
  session : StoredSession
  refreshToken : String
  stage : RefreshStage := .refreshTokens
  failure : Option Failure := none
  rereads : List Reread := []
  deriving DecidableEq

def Refresh.settled (refresh : Refresh) : Bool :=
  match refresh.stage with
  | .settled _ => true
  | _ => false

/-- Why a request destroys its session. -/
inductive Cause where
  | expired
  | noRefreshToken
  | refused (refresh : Nat)
  deriving DecidableEq

inductive RequestStage where
  | read
  | touch (session : StoredSession)
  | await (refresh : Nat)
  | destroy (cause : Cause)
  | served (result : RefreshResult)
  | finished
  deriving DecidableEq

structure Request where
  sessionId : String
  stage : RequestStage := .read
  deriving DecidableEq

/-- The window a failure opened, until a success or the end of the session clears
it, and whether its entry was dropped from the full table. -/
structure Window where
  retryAt : Int
  evicted : Bool := false
  deriving DecidableEq

/-- A grant that was started, with the window of its session at that time. -/
structure Grant where
  sessionId : String
  startedAt : Int
  window : Option Window
  deriving DecidableEq

structure Ending where
  sessionId : String
  cause : Cause
  deriving DecidableEq

structure Process where
  env : SessionEnv := {}
  now : Int := 0
  operatorSession : List StoredSession := []
  pendingRefreshes : OrderedMap String Nat := .empty
  refreshBackoffs : RefreshBackoffs := .empty
  refreshes : List Refresh := []
  requests : List Request := []
  /-- The windows, the grants and the ends of sessions so far. -/
  windows : OrderedMap String Window := .empty
  grants : List Grant := []
  endings : List Ending := []
  deriving DecidableEq

namespace Process

def stored (world : Process) (id : String) : Option StoredSession :=
  Table.findUnique StoredSession.id id world.operatorSession

def expired (world : Process) (session : StoredSession) : Bool :=
  sessionIsExpired world.env world.now session.toOperatorSession

def clearRefreshBackoff (world : Process) (sessionId : String) : Process :=
  { world with
    refreshBackoffs := world.refreshBackoffs.delete sessionId
    windows := world.windows.delete sessionId }

def noteRefreshFailure (world : Process) (sessionId : String) : Process :=
  let backoffs := Access.noteRefreshFailure world.now sessionId world.refreshBackoffs
  let opened := backoffAfter world.now (world.refreshBackoffs.get sessionId)
  { world with
    refreshBackoffs := backoffs
    windows := (world.windows.mapValues fun id window =>
      { window with evicted := window.evicted || !backoffs.has id }).set sessionId
        { retryAt := opened.retryAt } }

def setRefresh (world : Process) (index : Nat) (refresh : Refresh) : Process :=
  { world with refreshes := world.refreshes.set index refresh }

/-- The row of the session, if it is there, becomes this. -/
def writeSession (world : Process) (session : StoredSession) : Process :=
  { world with
    operatorSession := Table.updateMany (fun row => row.id = session.id) (fun _ => session)
      world.operatorSession }

/-- The refresh is over, and so is its place in the table of pending ones. -/
def settle (world : Process) (index : Nat) (refresh : Refresh) (result : Option RefreshResult) :
    Process :=
  { world.setRefresh index { refresh with stage := .settled result } with
    pendingRefreshes := world.pendingRefreshes.delete refresh.session.id }

def setRequest (world : Process) (index : Nat) (request : Request) (stage : RequestStage) :
    Process :=
  { world with requests := world.requests.set index { request with stage } }

/-- What a refresh makes of a reread of the stored session. -/
def reread (world : Process) (refresh : Refresh) (ok : Bool) : Reread :=
  if ok then .answered (world.stored refresh.session.id) world.now else .failed

/-- `readStoredSession`: a read that fails looks like a session that is gone. -/
def Reread.current : Reread → Option StoredSession
  | .failed => none
  | .answered current _ => current

def healthy (world : Process) (current : StoredSession) : Bool :=
  !world.expired current && accessTokenIsFresh world.now current

/-- The turn of a refresh. The environment says whether the awaited step
succeeded, and what the provider answered. -/
def advanceRefresh (world : Process) (index : Nat) (refresh : Refresh) (ok : Bool)
    (answer : Except Failure TokenSet) : Option Process :=
  let id := refresh.session.id
  match refresh.stage with
  | .refreshTokens =>
    match answer with
    | .ok tokens => some (world.setRefresh index { refresh with stage := .update tokens })
    | .error failure => some (world.setRefresh index
        { refresh with stage := .reread failure, failure := some failure })
  | .update tokens =>
    match world.stored id with
    | some row =>
      if ok then
        let updated : StoredSession := { row with
          accessToken := (storedSecret tokens.accessToken).or refresh.session.accessToken
          refreshToken := storedSecret (tokens.refreshToken.or (some refresh.refreshToken))
          accessTokenExpiresAt := accessTokenExpiresAt world.now tokens }
        some (((world.writeSession updated).clearRefreshBackoff id).settle index refresh
          (some { session := updated, accessTokenStale := false }))
      else some (world.setRefresh index
        { refresh with stage := .reread .transient, failure := some .transient })
    -- the update of a row that is gone fails as well
    | none => some (world.setRefresh index
        { refresh with stage := .reread .transient, failure := some .transient })
  | .reread failure =>
    let reread := world.reread refresh ok
    let refresh := { refresh with rereads := refresh.rereads ++ [reread] }
    match Reread.current reread with
    | some current =>
      if world.healthy current then
        some ((world.clearRefreshBackoff id).settle index refresh
          (some { session := current, accessTokenStale := false }))
      else if failure = .rejected then some (world.setRefresh index { refresh with stage := .sleep })
      else if world.expired current then some (world.settle index refresh none)
      else some ((world.noteRefreshFailure id).settle index refresh
        (some { session := current, accessTokenStale := true }))
    | none =>
      if failure = .rejected then some (world.setRefresh index { refresh with stage := .sleep })
      else some (world.settle index refresh none)
  | .sleep => some (world.setRefresh index { refresh with stage := .rereadAgain })
  | .rereadAgain =>
    let reread := world.reread refresh ok
    let refresh := { refresh with rereads := refresh.rereads ++ [reread] }
    match Reread.current reread with
    | some current =>
      if world.healthy current then
        some ((world.clearRefreshBackoff id).settle index refresh
          (some { session := current, accessTokenStale := false }))
      else some (world.settle index refresh none)
    | none => some (world.settle index refresh none)
  | .settled _ => none

def startRefresh (world : Process) (session : StoredSession) (refreshToken : String) : Process :=
  let grant : Grant := {
    sessionId := session.id, startedAt := world.now, window := world.windows.get session.id }
  { world with
    refreshes := world.refreshes ++ [{ session, refreshToken }]
    pendingRefreshes := world.pendingRefreshes.set session.id world.refreshes.length
    grants := world.grants ++ [grant] }

def removeSession (world : Process) (session : StoredSession) (cause : Cause) : Process :=
  let ending : Ending := { sessionId := session.id, cause }
  { world with
    operatorSession := world.operatorSession.filter fun row => row.id ≠ session.id
    endings := world.endings ++ [ending] }

/-- `refreshIfAccessTokenExpired` to its first await. -/
def refreshIfAccessTokenExpired (world : Process) (index : Nat) (request : Request)
    (session : StoredSession) : Process :=
  if accessTokenIsFresh world.now session then
    (world.clearRefreshBackoff session.id).setRequest index request
      (.served { session, accessTokenStale := false })
  else match session.refreshToken with
    | none => world.setRequest index request (.destroy .noRefreshToken)
    | some refreshToken =>
      if ¬ world.pendingRefreshes.has session.id ∧
          refreshIsCoolingDown world.now session.id world.refreshBackoffs then
        world.setRequest index request (.served { session, accessTokenStale := true })
      else match world.pendingRefreshes.get session.id with
        | some refresh => world.setRequest index request (.await refresh)
        | none =>
          (world.startRefresh session refreshToken).setRequest index request
            (.await world.refreshes.length)

/-- The turn of a request. -/
def advanceRequest (world : Process) (index : Nat) (request : Request) (ok : Bool) :
    Option Process :=
  match request.stage with
  | .read =>
    match world.stored request.sessionId with
    | some session =>
      some (world.setRequest index request (if ok then .touch session else .finished))
    | none => some (world.setRequest index request .finished)
  | .touch session =>
    if ¬ ok then some (world.setRequest index request .finished)
    else if world.expired session then some (world.setRequest index request (.destroy .expired))
    else some (world.refreshIfAccessTokenExpired index request session)
  | .await refresh =>
    match (world.refreshes[refresh]?).map Refresh.stage with
    | some (.settled (some result)) => some (world.setRequest index request (.served result))
    | some (.settled none) => some (world.setRequest index request (.destroy (.refused refresh)))
    | _ => none
  | .destroy cause =>
    -- `destroySession` reads the session again, and throws when it cannot
    match world.stored request.sessionId with
    | some session =>
      if ok then
        some (((world.removeSession session cause).clearRefreshBackoff session.id).setRequest
          index request .finished)
      else some (world.setRequest index request .finished)
    | none => some (world.setRequest index request .finished)
  | .served _ | .finished => none

inductive Action where
  | request (sessionId : String)
  | advanceRequest (index : Nat) (ok : Bool)
  | advanceRefresh (index : Nat) (ok : Bool) (answer : Except Failure TokenSet)
  /-- A sibling replica writes or deletes a session. -/
  | write (session : StoredSession)
  | delete (sessionId : String)
  | tick (ms : Nat)

def step (world : Process) : Action → Option Process
  | .request sessionId => some { world with requests := world.requests ++ [{ sessionId }] }
  | .advanceRequest index ok =>
    world.requests[index]?.bind fun request => world.advanceRequest index request ok
  | .advanceRefresh index ok answer =>
    world.refreshes[index]?.bind fun refresh => world.advanceRefresh index refresh ok answer
  | .write session => some (world.writeSession session)
  | .delete sessionId =>
    some { world with
      operatorSession := world.operatorSession.filter fun row => row.id ≠ sessionId }
  | .tick ms => some { world with now := world.now + ms }

/-- A process that has just started, on any stored sessions. -/
def Fresh (world : Process) : Prop :=
  world = { env := world.env, now := world.now, operatorSession := world.operatorSession }

end Process

end BoothOperator.Access
