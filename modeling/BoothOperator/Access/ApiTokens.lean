import BoothOperator.Lib.OrderedMap
import BoothOperator.Lib.Run
import BoothOperator.Lib.Table

/-! The API tokens and the cache of the verified ones. A call to verify a token
goes on at its answers: between its look-up in the cache, its read of the
database and the check of the password hash, other calls and other writers go
on. The hash of a text and the check against a password hash are parameters. -/
namespace BoothOperator.Access

def tokenPrefix : String := "tb_"

def randomTokenLength : Nat := 32

def tokenLength : Nat := tokenPrefix.length + randomTokenLength

def lookupIdLength : Nat := 8

def cacheCapacity : Nat := 256

def cacheTtlMs : Nat := 60000

structure ApiToken where
  id : String
  lookupId : String
  tokenHash : String
  scope : String := "operator"
  telemetrySourceId : Option String := none
  expiresAt : Option Nat := none
  lastUsedAt : Option Nat := none
  revokedAt : Option Nat := none
  deriving DecidableEq

structure CacheEntry where
  tokenId : String
  expiresAt : Nat
  deriving DecidableEq

abbrev TokenCache := OrderedMap String CacheEntry

def isUrlSafeTokenBody (value : List Char) : Bool :=
  value.all fun char =>
    let code := char.toNat
    (48 ≤ code && code ≤ 57) || (65 ≤ code && code ≤ 90) || (97 ≤ code && code ≤ 122) ||
      code = 45 || code = 95

def lookupIdFromPlaintext (plaintext : String) : Option String :=
  if plaintext.length ≠ tokenLength then none
  else if plaintext.toList.take tokenPrefix.length ≠ tokenPrefix.toList then none
  else if ¬ isUrlSafeTokenBody (plaintext.toList.drop tokenPrefix.length) then none
  else some (String.ofList (plaintext.toList.take lookupIdLength))

/-- What the cache answers, and the cache after it: an entry that is read goes last. -/
def cacheGet (now : Nat) (key : String) (cache : TokenCache) : Option String × TokenCache :=
  match cache.get key with
  | none => (none, cache)
  | some entry =>
    if entry.expiresAt ≤ now then (none, cache.delete key)
    else (some entry.tokenId, (cache.delete key).set key entry)

def cacheSet (now : Nat) (key tokenId : String) (cache : TokenCache) : TokenCache :=
  ((cache.delete key).set key { tokenId, expiresAt := now + cacheTtlMs }).trim cacheCapacity

def isUsableToken (now : Nat) (token : ApiToken) : Bool :=
  token.revokedAt.isNone && !token.expiresAt.any fun expiresAt => expiresAt ≤ now

def invalidateApiTokenCache (tokenId : Option String) (cache : TokenCache) : TokenCache :=
  match tokenId with
  | none => .empty
  | some tokenId =>
    if tokenId = "" then .empty else cache.filter fun _ entry => entry.tokenId ≠ tokenId

def findActiveTokenById (apiToken : List ApiToken) (now : Nat) (id : String) : Option ApiToken :=
  (Table.findUnique ApiToken.id id apiToken).filter (isUsableToken now)

/-- The row of a lookup id, when it can be used. -/
def findActiveTokenByLookupId (apiToken : List ApiToken) (now : Nat) (lookupId : String) :
    Option ApiToken :=
  match Table.findUnique ApiToken.lookupId lookupId apiToken with
  | none => none
  | some token =>
    if token.lookupId ≠ lookupId then none
    else if isUsableToken now token then some token
    else none

/-- A call between two of its turns. The one that has read its row keeps the
table and the time it read them at, for the record alone. -/
inductive Call where
  | hit (plaintext key tokenId : String)
  | missed (plaintext key lookupId : String)
  | verifying (plaintext key : String) (token : ApiToken) (seen : List ApiToken) (seenAt : Nat)
  deriving DecidableEq

/-- What a call returned, with the table and the time it read. -/
structure Answer where
  plaintext : String
  apiToken : List ApiToken
  now : Nat
  result : Option ApiToken
  deriving DecidableEq

structure Verifier where
  now : Nat := 0
  apiToken : List ApiToken := []
  validTokenCache : TokenCache := .empty
  pendingUsageUpdates : OrderedMap String Nat := .empty
  calls : List Call := []
  answers : List Answer := []
  deriving DecidableEq

namespace Verifier

variable (sha256 : String → String) (argon2Verify : String → String → Bool)

def cacheKeyForPlaintext (plaintext : String) : String := sha256 plaintext

def queueLastUsedAtUpdate (world : Verifier) (tokenId : String) : Verifier :=
  { world with pendingUsageUpdates := world.pendingUsageUpdates.set tokenId world.now }

def answered (world : Verifier) (plaintext : String) (apiToken : List ApiToken) (now : Nat)
    (result : Option ApiToken) : Verifier :=
  { world with answers := world.answers ++ [{ plaintext, apiToken, now, result }] }

/-- The first turn of `verifyToken`: everything before its first query. -/
def verifyToken (world : Verifier) (plaintext : String) : Verifier :=
  match lookupIdFromPlaintext plaintext with
  | none => world.answered plaintext world.apiToken world.now none
  | some lookupId =>
    let key := cacheKeyForPlaintext sha256 plaintext
    let cached := cacheGet world.now key world.validTokenCache
    let call := match cached.1 with
      | some tokenId =>
        if tokenId = "" then Call.missed plaintext key lookupId else .hit plaintext key tokenId
      | none => .missed plaintext key lookupId
    { world with validTokenCache := cached.2, calls := world.calls ++ [call] }

/-- A later turn, from the answer of a query or of the hash check to the next
one: the call it leaves, if any, and the world. -/
def resume (world : Verifier) : Call → Option Call × Verifier
  | .hit plaintext key tokenId =>
    match findActiveTokenById world.apiToken world.now tokenId with
    | none =>
      (none, { world with validTokenCache := world.validTokenCache.delete key }.answered
        plaintext world.apiToken world.now none)
    | some token =>
      (none, (world.queueLastUsedAtUpdate token.id).answered
        plaintext world.apiToken world.now (some token))
  | .missed plaintext key lookupId =>
    match findActiveTokenByLookupId world.apiToken world.now lookupId with
    | none => (none, world.answered plaintext world.apiToken world.now none)
    | some token => (some (.verifying plaintext key token world.apiToken world.now), world)
  | .verifying plaintext key token seen seenAt =>
    if argon2Verify token.tokenHash plaintext then
      (none, ({ world with
        validTokenCache := cacheSet world.now key token.id world.validTokenCache
      }.queueLastUsedAtUpdate token.id).answered plaintext seen seenAt (some token))
    else (none, world.answered plaintext seen seenAt none)

/-- The path of `verifyToken` that does not use the cache, on one state of the table. -/
def verifyUncached (apiToken : List ApiToken) (now : Nat) (plaintext : String) :
    Option ApiToken :=
  (lookupIdFromPlaintext plaintext).bind fun lookupId =>
    (findActiveTokenByLookupId apiToken now lookupId).filter fun token =>
      argon2Verify token.tokenHash plaintext

/-- `flushApiTokenUsageUpdates`: an update of a row that is not there changes nothing. -/
def flushed (apiToken : List ApiToken) (updates : List (String × Nat)) : List ApiToken :=
  updates.foldl (fun rows update =>
    Table.updateMany (fun row => row.id = update.1)
      (fun row => { row with lastUsedAt := some update.2 }) rows) apiToken

inductive Action where
  | verifyToken (plaintext : String)
  | resume (call : Nat)
  | tick (ms : Nat)
  | create (token : ApiToken)
  | revoke (id : String)
  | detach (telemetrySourceId : String)
  | invalidateApiTokenCache (tokenId : Option String)
  | flushApiTokenUsageUpdates

def step (world : Verifier) : Action → Option Verifier
  | .verifyToken plaintext => some (world.verifyToken sha256 plaintext)
  | .resume index =>
    world.calls[index]?.map fun call =>
      let resumed := world.resume argon2Verify call
      { resumed.2 with calls := world.calls.eraseIdx index ++ resumed.1.toList }
  | .tick ms => some { world with now := world.now + ms }
  | .create token =>
    -- the columns `id` and `lookupId` are unique
    if world.apiToken.all fun row => row.id ≠ token.id && row.lookupId ≠ token.lookupId then
      some { world with apiToken := world.apiToken ++ [token] }
    else none
  | .revoke id =>
    some { world with
      apiToken := Table.updateMany (fun row => row.id = id && row.revokedAt.isNone)
        (fun row => { row with revokedAt := some world.now }) world.apiToken }
  | .detach telemetrySourceId =>
    -- the source of a token is deleted
    some { world with
      apiToken := Table.updateMany (fun row => row.telemetrySourceId = some telemetrySourceId)
        (fun row => { row with telemetrySourceId := none }) world.apiToken }
  | .invalidateApiTokenCache tokenId =>
    some { world with
      validTokenCache := Access.invalidateApiTokenCache tokenId world.validTokenCache }
  | .flushApiTokenUsageUpdates =>
    some { world with
      apiToken := flushed world.apiToken world.pendingUsageUpdates.entries
      pendingUsageUpdates := .empty }

/-- A process that has just started, on any table that keeps its unique columns. -/
structure Fresh (world : Verifier) : Prop where
  ids : (world.apiToken.map ApiToken.id).Nodup
  lookupIds : (world.apiToken.map ApiToken.lookupId).Nodup
  cache : world.validTokenCache = .empty
  calls : world.calls = []
  answers : world.answers = []

end Verifier

end BoothOperator.Access
