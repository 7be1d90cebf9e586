import BoothOperator.Access.Cookies
import BoothOperator.Lib.OrderedMap
import BoothOperator.Lib.Run

/-! Logins through the identity provider. `GET /login` files an entry for the
state that it generates and gives the browser a signed cookie of it; `GET
/callback` takes the entry out and exchanges the code. Each handler gives up its
turn where it awaits, so that other handlers run between its turns. How a
payload is signed is a parameter. -/
namespace BoothOperator.Access

structure PendingLogin where
  nonce : String
  codeVerifier : String
  returnTo : String
  createdAt : Int
  deriving DecidableEq

structure CallbackQuery where
  code : Option String := none
  state : Option String := none
  error : Option String := none
  deriving DecidableEq

def pendingLoginTtlMs : Int := 5 * 60 * 1000

def LOGIN_TX_COOKIE_NAME : String := "__Host-booth_login_tx"

def DEV_LOGIN_TX_COOKIE_NAME : String := "booth_login_tx"

/-- A string that is neither missing nor empty. -/
def truthy (value : Option String) : Option String := value.filter (· ≠ "")

def prunePendingLogins (now : Int) (pendingLogins : OrderedMap String PendingLogin) :
    OrderedMap String PendingLogin :=
  let oldest := now - pendingLoginTtlMs
  pendingLogins.filter fun _ login => ¬ login.createdAt < oldest

/-- A callback that has taken its entry out, as it was when it did. -/
structure Ticket where
  cookieHeader : Option String
  query : CallbackQuery
  state : String
  pending : PendingLogin
  matchedAt : Int
  deriving DecidableEq

/-- What a callback with a ticket awaits. -/
inductive CallbackStage where
  | exchangeCode | authorizeAndUpsertOperator | createSession
  deriving DecidableEq

structure Callback where
  ticket : Ticket
  stage : CallbackStage
  deriving DecidableEq

structure LoginWorld where
  production : Bool := true
  now : Int := 0
  pendingLogins : OrderedMap String PendingLogin := .empty
  /-- The states of the logins that await the client of the provider. -/
  logins : List String := []
  callbacks : List Callback := []
  /-- The states generated so far, with their entries. -/
  issued : List (String × PendingLogin) := []
  /-- The states of which a login has answered with the cookie. -/
  cookies : List String := []
  sessionIds : List String := []
  /-- The tickets that went to the token endpoint. -/
  exchanges : List Ticket := []
  /-- The tickets of the sessions created. -/
  sessions : List Ticket := []
  deriving DecidableEq

namespace LoginWorld

variable (signValue : String → String)

/-- The state of the transaction cookie, or the error of a cookie that cannot be decoded. -/
def readLoginTxCookie (production : Bool) (cookieHeader : Option String) :
    Except String (Option String) := do
  let own ← cookieValueFromHeader cookieHeader LOGIN_TX_COOKIE_NAME
  let raw ← match own with
    | some raw => pure (some raw)
    | none =>
      if ¬ production then cookieValueFromHeader cookieHeader DEV_LOGIN_TX_COOKIE_NAME
      else pure none
  return verifyCookieValue signValue raw

/-- The payloads that the server has signed. -/
def signed (world : LoginWorld) : List String := world.cookies ++ world.sessionIds

/-- A text that no generator has returned. -/
def unused (world : LoginWorld) (text : String) : Bool :=
  text ∉ world.issued.map Prod.fst && text ∉ world.sessionIds

/-- `GET /login` to where it awaits the client. -/
def login (world : LoginWorld) (state nonce codeVerifier returnTo : String) : LoginWorld :=
  let pending : PendingLogin := { nonce, codeVerifier, returnTo, createdAt := world.now }
  { world with
    pendingLogins := (prunePendingLogins world.now world.pendingLogins).set state pending
    logins := world.logins ++ [state]
    issued := world.issued ++ [(state, pending)] }

/-- `GET /callback` to its first await: the entry is taken out before the code is
exchanged. Where the callback is refused, and also where a cookie that cannot be
decoded makes the handler throw, it takes no entry. -/
def callback (world : LoginWorld) (cookieHeader : Option String) (query : CallbackQuery) :
    LoginWorld :=
  if (truthy query.error).isSome then world
  else match truthy query.code, truthy query.state with
    | some _, some state =>
      match readLoginTxCookie signValue world.production cookieHeader with
      | .error _ => world
      | .ok txState =>
        if (truthy txState).isNone ∨ txState ≠ some state then world
        else
          let pendingLogins := prunePendingLogins world.now world.pendingLogins
          let world := { world with pendingLogins := pendingLogins.delete state }
          match pendingLogins.get state with
          | none => world
          | some pending =>
            let ticket : Ticket := { cookieHeader, query, state, pending, matchedAt := world.now }
            { world with
              callbacks := world.callbacks ++ [{ ticket, stage := .exchangeCode }]
              exchanges := world.exchanges ++ [ticket] }
    | _, _ => world

/-- The turn of a callback whose awaited step has succeeded. -/
def proceed (world : LoginWorld) (index : Nat) (sessionId : String) : Option LoginWorld :=
  world.callbacks[index]?.bind fun callback =>
    let others := world.callbacks.eraseIdx index
    match callback.stage with
    | .exchangeCode =>
      some { world with callbacks := others ++ [{ callback with stage := .authorizeAndUpsertOperator }] }
    | .authorizeAndUpsertOperator =>
      some { world with callbacks := others ++ [{ callback with stage := .createSession }] }
    | .createSession =>
      if world.unused sessionId then
        some { world with
          callbacks := others
          sessionIds := world.sessionIds ++ [sessionId]
          sessions := world.sessions ++ [callback.ticket] }
      else none

inductive Action where
  | login (state nonce codeVerifier returnTo : String)
  /-- The client of the provider is there, or cannot be had. -/
  | answerLogin (index : Nat) (ready : Bool)
  | callback (cookieHeader : Option String) (query : CallbackQuery)
  | proceed (index : Nat) (sessionId : String)
  /-- The exchange fails, the operator is denied, or the session cannot be stored. -/
  | fail (index : Nat)
  | prune
  | tick (ms : Nat)

def step (world : LoginWorld) : Action → Option LoginWorld
  | .login state nonce codeVerifier returnTo =>
    -- generated states are distinct
    if world.unused state then some (world.login state nonce codeVerifier returnTo) else none
  | .answerLogin index ready =>
    world.logins[index]?.map fun state =>
      { world with
        logins := world.logins.eraseIdx index
        cookies := if ready then world.cookies ++ [state] else world.cookies }
  | .callback cookieHeader query => some (world.callback signValue cookieHeader query)
  | .proceed index sessionId => world.proceed index sessionId
  | .fail index =>
    world.callbacks[index]?.map fun _ =>
      { world with callbacks := world.callbacks.eraseIdx index }
  | .prune => some { world with pendingLogins := prunePendingLogins world.now world.pendingLogins }
  | .tick ms => some { world with now := world.now + ms }

/-- Nobody but the server makes a cookie that verifies. -/
def Unforged (world : LoginWorld) : Action → Prop
  | .callback cookieHeader _ =>
    match readLoginTxCookie signValue world.production cookieHeader with
    | .ok (some payload) => payload ∈ world.signed
    | _ => True
  | _ => True

instance Unforged.decidable (world : LoginWorld) :
    (action : Action) → Decidable (world.Unforged signValue action)
  | .callback cookieHeader _ =>
    match read : readLoginTxCookie signValue world.production cookieHeader with
    | .ok (some payload) =>
      decidable_of_iff (payload ∈ world.signed) (by simp [Unforged, read])
    | .ok none => isTrue (by simp [Unforged, read])
    | .error _ => isTrue (by simp [Unforged, read])
  | .login .. | .answerLogin .. | .proceed .. | .fail .. | .prune | .tick .. => isTrue trivial

/-- A process that has just started. -/
def Fresh (world : LoginWorld) : Prop :=
  world = { production := world.production, now := world.now }

end LoginWorld

end BoothOperator.Access
