import BoothOperator.Access.Operators
import BoothOperator.Access.Refresh

/-! The revalidation of sessions, `readValidSession` after its refresh. Every request of every
replica reads the row of its session, may ask the provider whether the account is still there, and
writes back when it asked; between any two of its steps the others take theirs. What the refresh
comes to is chosen by the environment. -/
namespace BoothOperator.Access

/-- A session, with whose it is and when that was last confirmed. -/
structure ValidatedSession extends StoredSession where
  oidcSub : String
  lastValidatedAt : Option Int := none
  deriving DecidableEq

def revalidateIntervalMs (sessionRevalidateSeconds : Option Int) : Int :=
  max (ttlSecondsFromEnv sessionRevalidateSeconds 300) 60 * 1000

def sessionNeedsRevalidation (interval now : Int) (session : ValidatedSession) : Bool :=
  match session.lastValidatedAt with
  | none => true
  | some last => interval ≤ now - last

def oidcRevalidationEnabled (config : Option AuthConfig) : Option OidcRuntimeConfig :=
  match config with
  | some (.oidc config) => some config
  | _ => none

/-- What `fetchOperatorUserInfo` comes to. -/
inductive UserInfo (ν : Type) where
  | claims (claims : Claims ν)
  | rejected
  | transient

/-- What `refreshIfAccessTokenExpired` comes to: the session as it was read, a version of its row, or
nothing to go on with. -/
inductive Refreshed where
  | kept (accessTokenStale : Bool)
  | rotated (session : ValidatedSession) (accessTokenStale : Bool)
  | ended
  deriving DecidableEq

/-- Why a session is served without asking the provider, or what asking came to. -/
inductive Basis where
  | disabled
  | stale
  | recent (last : Int)
  | noAccessToken
  | confirmed
  | unconfirmed
  deriving DecidableEq

/-- What the code takes for a confirmation of a session. -/
inductive Confirmation (ν : Type) where
  | login
  | accepted (claims : Claims ν)
  | unanswered
  /-- Accepted claims, of which the database did not take the operator or the session. -/
  | unwritten (claims : Claims ν)
  /-- Claims that an allow-list refuses, while a step of `destroySession` threw. -/
  | refused (claims : Claims ν)

/-- What a request awaits. A session is destroyed in three steps, of which the first two may throw:
into the revalidation when that is what destroys it, over the refused claims. -/
inductive SessionStage (ν : Type) where
  | read
  | touch (session : ValidatedSession)
  | refresh (session : ValidatedSession)
  | userinfo (session : ValidatedSession)
  | authorize (session : ValidatedSession) (claims : Claims ν)
  | confirm (session : ValidatedSession) (claims : Claims ν)
  | note (session : ValidatedSession) (kind : Confirmation ν)
  | destroy (session : ValidatedSession) (refusal : Option (Claims ν))
  | destroyTouch (session : ValidatedSession) (refusal : Option (Claims ν))
  | destroyDelete
  | extend (session : ValidatedSession)
  | finished

structure SessionCall (ν : Type) where
  sessionId : String
  stage : SessionStage ν := .read

structure Check (ν : Type) where
  sessionId : String
  at_ : Int
  kind : Confirmation ν

/-- A session that a call goes on with. -/
structure Serving where
  call : Nat
  session : ValidatedSession
  at_ : Int
  basis : Basis
  deriving DecidableEq

structure Sessions (ν : Type) where
  env : SessionEnv := {}
  sessionRevalidateSeconds : Option Int := none
  config : Option AuthConfig := none
  now : Int := 0
  operatorUser : List OperatorUser := []
  operatorSession : List ValidatedSession := []
  calls : List (SessionCall ν) := []
  /-- The ids that were given out, every version of a row, the confirmations and the servings. -/
  created : List String := []
  versions : List ValidatedSession := []
  checks : List (Check ν) := []
  servings : List Serving := []

namespace Sessions

variable {ν : Type} (toLowerCase : String → String) (url : String → Option String)

def stored (world : Sessions ν) (id : String) : Option ValidatedSession :=
  Table.findUnique (fun row => row.id) id world.operatorSession

def setCall (world : Sessions ν) (index : Nat) (call : SessionCall ν) (stage : SessionStage ν) :
    Sessions ν :=
  { world with calls := world.calls.set index { call with stage } }

/-- The row of the session becomes this. -/
def writeRow (world : Sessions ν) (row : ValidatedSession) : Sessions ν :=
  { world with
    operatorSession :=
      Table.updateMany (fun old => old.id = row.id) (fun _ => row) world.operatorSession
    versions := row :: world.versions }

def removeRow (world : Sessions ν) (id : String) : Sessions ν :=
  { world with operatorSession := world.operatorSession.filter fun row => row.id ≠ id }

def logCheck (world : Sessions ν) (sessionId : String) (kind : Confirmation ν) : Sessions ν :=
  { world with checks := ⟨sessionId, world.now, kind⟩ :: world.checks }

/-- The call goes on with this session, whose lifetime is extended last. -/
def serve (world : Sessions ν) (index : Nat) (call : SessionCall ν) (session : ValidatedSession)
    (basis : Basis) : Sessions ν :=
  { world.setCall index call (.extend session) with
    servings := ⟨index, session, world.now, basis⟩ :: world.servings }

/-- `revalidateSessionAgainstIdp` to its first await. -/
def revalidateSessionAgainstIdp (world : Sessions ν) (index : Nat) (call : SessionCall ν)
    (session : ValidatedSession) : Sessions ν :=
  match oidcRevalidationEnabled world.config with
  | none => world.serve index call session .disabled
  | some _ =>
    match session.lastValidatedAt with
    | some last =>
      if sessionNeedsRevalidation (revalidateIntervalMs world.sessionRevalidateSeconds) world.now
          session = false then
        world.serve index call session (.recent last)
      else if session.accessToken = none then world.serve index call session .noAccessToken
      else world.setCall index call (.userinfo session)
    | none =>
      if session.accessToken = none then world.serve index call session .noAccessToken
      else world.setCall index call (.userinfo session)

/-- A step of `destroySession` has thrown. -/
def thrown (session : ValidatedSession) : Option (Claims ν) → SessionStage ν
  | some claims => .note session (.refused claims)
  | none => .finished

/-- The turn of a call; `ok` says whether the database does what it awaits. -/
def advance (world : Sessions ν) (index : Nat) (call : SessionCall ν) (ok : Bool) :
    Option (Sessions ν) :=
  match call.stage with
  | .read =>
    match world.stored call.sessionId with
    | some session => some (world.setCall index call (if ok then .touch session else .finished))
    | none => some (world.setCall index call .finished)
  | .touch session =>
    -- the update throws for a row that is gone
    if ok = false ∨ world.stored session.id = none then some (world.setCall index call .finished)
    else if sessionIsExpired world.env world.now session.toOperatorSession then
      some (world.setCall index call (.destroy session none))
    else some (world.setCall index call (.refresh session))
  | .authorize session claims =>
    match world.config with
    | none => none
    | some config =>
      match revalidateOperatorFromClaims toLowerCase url config world.now claims world.operatorUser with
      | none => some (world.setCall index call (.note session (.unwritten claims)))
      | some (_, .error _) => some (world.setCall index call (.destroy session (some claims)))
      | some (rows, .ok user) =>
        if user ≠ none ∧ ok = false then
          some (world.setCall index call (.note session (.unwritten claims)))
        else some { world.setCall index call (.confirm session claims) with operatorUser := rows }
  | .confirm session claims =>
    match world.stored session.id with
    | none => some (world.setCall index call (.note session (.unwritten claims)))
    | some row =>
      if ok then
        let row := { row with lastValidatedAt := some world.now }
        some (((world.writeRow row).logCheck row.id (.accepted claims)).serve index call row .confirmed)
      else some (world.setCall index call (.note session (.unwritten claims)))
  | .note session kind =>
    match world.stored session.id with
    | none => some ((world.logCheck session.id kind).serve index call session .unconfirmed)
    | some row =>
      if ok then
        let row := { row with lastValidatedAt := some world.now }
        some (((world.writeRow row).logCheck row.id kind).serve index call row .unconfirmed)
      else some ((world.logCheck session.id kind).serve index call session .unconfirmed)
  | .destroy session refusal =>
    if ok = false then some (world.setCall index call (thrown session refusal))
    else match world.stored call.sessionId with
      | none => some (world.setCall index call .finished)
      | some _ => some (world.setCall index call (.destroyTouch session refusal))
  | .destroyTouch session refusal =>
    if ok = false ∨ world.stored call.sessionId = none then
      some (world.setCall index call (thrown session refusal))
    else some (world.setCall index call .destroyDelete)
  | .destroyDelete =>
    if ok then some ((world.removeRow call.sessionId).setCall index call .finished)
    else some (world.setCall index call .finished)
  | .extend session =>
    match world.stored session.id with
    | none => some (world.setCall index call .finished)
    | some row =>
      let next := sessionExpiresAt world.env world.now session.createdAt
      if next - session.expiresAt < renewalIntervalMs world.env ∨ ok = false then
        some (world.setCall index call .finished)
      else some ((world.writeRow { row with expiresAt := next }).setCall index call .finished)
  | .refresh _ | .userinfo _ | .finished => none

end Sessions

inductive SessionAct (ν : Type) where
  | create (session : StoredSession) (oidcSub : String)
  | call (sessionId : String)
  | refreshed (index : Nat) (outcome : Refreshed)
  | answered (index : Nat) (answer : UserInfo ν)
  | advance (index : Nat) (ok : Bool)
  /-- A refresh or an extension writes its columns; a session is deleted. -/
  | rotate (session : StoredSession)
  | delete (sessionId : String)
  | tick (ms : Nat)

namespace Sessions

variable {ν : Type} (toLowerCase : String → String) (url : String → Option String)

def refreshed (world : Sessions ν) (index : Nat) (call : SessionCall ν) (session : ValidatedSession)
    (accessTokenStale : Bool) : Sessions ν :=
  if accessTokenStale then world.serve index call session .stale
  else world.revalidateSessionAgainstIdp index call session

/-- An id of a new session is 32 random bytes, and is not given out twice. -/
def step (world : Sessions ν) : SessionAct ν → Option (Sessions ν)
  | .create session oidcSub =>
    if session.id ∈ world.created then none
    else
      let row : ValidatedSession := {
        toStoredSession := session, oidcSub, lastValidatedAt := some world.now }
      some { world.logCheck session.id .login with
        operatorSession := world.operatorSession ++ [row]
        versions := row :: world.versions
        created := session.id :: world.created }
  | .call sessionId => some { world with calls := world.calls ++ [{ sessionId }] }
  | .refreshed index outcome => do
    let call ← world.calls[index]?
    match call.stage with
    | .refresh session =>
      match outcome with
      | .kept stale =>
        if accessTokenIsFresh world.now session.toStoredSession = !stale then
          some (world.refreshed index call session stale)
        else none
      | .rotated version stale =>
        if version ∈ world.versions ∧ version.id = session.id ∧
            (stale = true → accessTokenIsFresh world.now version.toStoredSession = false) then
          some (world.refreshed index call version stale)
        else none
      | .ended => some (world.setCall index call .finished)
    | _ => none
  | .answered index answer => do
    let call ← world.calls[index]?
    match call.stage with
    | .userinfo session =>
      match answer with
      | .claims claims => some (world.setCall index call (.authorize session claims))
      | .rejected => some (world.setCall index call (.destroy session none))
      | .transient => some (world.setCall index call (.note session .unanswered))
    | _ => none
  | .advance index ok => do
    let call ← world.calls[index]?
    world.advance toLowerCase url index call ok
  | .rotate session => do
    let row ← world.stored session.id
    some (world.writeRow { row with toStoredSession := session })
  | .delete sessionId => some (world.removeRow sessionId)
  | .tick ms => some { world with now := world.now + ms }

def Fresh (world : Sessions ν) : Prop :=
  world.operatorSession = [] ∧ world.calls = [] ∧ world.created = [] ∧ world.versions = [] ∧
    world.checks = [] ∧ world.servings = []

/-! ## The invariant -/

/-- Claims that do not revoke an account. -/
def AcceptedClaims (config : Option AuthConfig) (claims : Claims ν) : Prop :=
  ∀ oidc, config = some (.oidc oidc) → hasGroups claims = true →
    validateAuthorization toLowerCase oidc claims (groupsFromClaims claims) = none

/-- Claims that revoke one. -/
def RefusedClaims (config : Option AuthConfig) (claims : Claims ν) : Prop :=
  ∀ oidc, config = some (.oidc oidc) → hasGroups claims = true ∧
    validateAuthorization toLowerCase oidc claims (groupsFromClaims claims) ≠ none

/-- A step of `destroySession` over refused claims throws. -/
def DestroyThrows (world : Sessions ν) : SessionAct ν → Prop
  | .advance index ok => ∃ call, world.calls[index]? = some call ∧
    match call.stage with
    | .destroy _ (some _) => ok = false
    | .destroyTouch _ (some _) => ok = false ∨ world.stored call.sessionId = none
    | _ => False
  | _ => False

/-- The session was confirmed when it says it was. -/
def Checked (world : Sessions ν) (session : ValidatedSession) : Prop :=
  ∀ last, session.lastValidatedAt = some last →
    ∃ check ∈ world.checks, check.sessionId = session.id ∧ check.at_ = last

/-- What a serving rests on. -/
def Founded (world : Sessions ν) (serving : Serving) : Prop :=
  match serving.basis with
  | .disabled => oidcRevalidationEnabled world.config = none
  | .stale => accessTokenIsFresh serving.at_ serving.session.toStoredSession = false
  | .recent last => serving.at_ - last < revalidateIntervalMs world.sessionRevalidateSeconds ∧
    ∃ check ∈ world.checks, check.sessionId = serving.session.id ∧ check.at_ = last
  | .noAccessToken => serving.session.accessToken = none
  | .confirmed => ∃ check ∈ world.checks, check.sessionId = serving.session.id ∧
    check.at_ = serving.at_ ∧ ∃ claims, check.kind = .accepted claims
  | .unconfirmed => ∃ check ∈ world.checks, check.sessionId = serving.session.id ∧
    check.at_ = serving.at_

end Sessions

/-- Claims are what they are taken for; `throws` says whether a refusal may go by. -/
def Confirmation.Holds {ν : Type} (toLowerCase : String → String) (config : Option AuthConfig)
    (throws : Prop) : Confirmation ν → Prop
  | .login | .unanswered => True
  | .accepted claims | .unwritten claims => Sessions.AcceptedClaims toLowerCase config claims
  | .refused claims => Sessions.RefusedClaims toLowerCase config claims ∧ throws

/-- So are those that a call holds. -/
def SessionStage.Holds {ν : Type} (toLowerCase : String → String) (config : Option AuthConfig)
    (throws : Prop) : SessionStage ν → Prop
  | .confirm _ claims => Sessions.AcceptedClaims toLowerCase config claims
  | .note _ kind => kind.Holds toLowerCase config throws
  | .destroy _ (some claims) | .destroyTouch _ (some claims) =>
    Sessions.RefusedClaims toLowerCase config claims
  | _ => True

/-- The session that a call has read. -/
def SessionStage.session {ν : Type} : SessionStage ν → Option ValidatedSession
  | .read | .destroyDelete | .finished => none
  | .touch session | .refresh session | .userinfo session | .authorize session _
  | .confirm session _ | .note session _ | .destroy session _ | .destroyTouch session _
  | .extend session => some session

namespace Sessions

variable {ν : Type} (toLowerCase : String → String) (throws : Prop)

structure CallSound (world : Sessions ν) (call : SessionCall ν) : Prop where
  session : ∀ session, call.stage.session = some session →
    session ∈ world.versions ∧ session.id = call.sessionId
  holds : call.stage.Holds toLowerCase world.config throws

structure Sound (world : Sessions ν) : Prop where
  versions : ∀ session ∈ world.versions, world.Checked session
  rows : ∀ row ∈ world.operatorSession, row ∈ world.versions ∧ row.id ∈ world.created
  calls : ∀ call ∈ world.calls, world.CallSound toLowerCase throws call
  checks : ∀ check ∈ world.checks, check.at_ ≤ world.now ∧
    check.kind.Holds toLowerCase world.config throws
  servings : ∀ serving ∈ world.servings, world.Founded serving ∧ serving.at_ ≤ world.now ∧
    serving.session ∈ world.versions

section Primitives

variable {toLowerCase : String → String} {url : String → Option String} {throws : Prop}
  {world after : Sessions ν} {call : SessionCall ν} {index : Nat} {stage : SessionStage ν} {session row : ValidatedSession}
  {id : String}

/-- What a later world still has of an earlier one. -/
structure Grows (before after : Sessions ν) : Prop where
  config : after.config = before.config
  interval : after.sessionRevalidateSeconds = before.sessionRevalidateSeconds
  now : before.now ≤ after.now
  versions : ∀ session ∈ before.versions, session ∈ after.versions
  checks : ∀ check ∈ before.checks, check ∈ after.checks

theorem Grows.same (config : after.config = world.config)
    (interval : after.sessionRevalidateSeconds = world.sessionRevalidateSeconds)
    (now : after.now = world.now) (versions : after.versions = world.versions)
    (checks : after.checks = world.checks) : world.Grows after := by
  refine ⟨config, interval, Int.le_of_eq now.symm, ?_, ?_⟩
  · rw [versions]
    exact fun _ member => member
  · rw [checks]
    exact fun _ member => member

theorem Checked.grows (checked : world.Checked session) (grows : world.Grows after) :
    after.Checked session := by
  intro last read
  obtain ⟨check, member, same⟩ := checked last read
  exact ⟨check, grows.checks check member, same⟩

theorem Founded.grows {serving : Serving} (founded : world.Founded serving)
    (grows : world.Grows after) : after.Founded serving := by
  unfold Founded at founded ⊢
  split at founded
  · rw [grows.config]
    exact founded
  · exact founded
  · obtain ⟨soon, check, member, same⟩ := founded
    rw [grows.interval]
    exact ⟨soon, check, grows.checks check member, same⟩
  · exact founded
  · obtain ⟨check, member, same⟩ := founded
    exact ⟨check, grows.checks check member, same⟩
  · obtain ⟨check, member, same⟩ := founded
    exact ⟨check, grows.checks check member, same⟩

theorem CallSound.grows (sound : world.CallSound toLowerCase throws call) (grows : world.Grows after) :
    after.CallSound toLowerCase throws call := by
  refine ⟨?_, ?_⟩
  · intro session its
    obtain ⟨version, same⟩ := sound.session session its
    exact ⟨grows.versions session version, same⟩
  · rw [grows.config]
    exact sound.holds

theorem Sound.setCall (sound : world.Sound toLowerCase throws)
    (own : world.CallSound toLowerCase throws { call with stage }) :
    (world.setCall index call stage).Sound toLowerCase throws := by
  refine ⟨sound.versions, sound.rows, ?_, sound.checks, sound.servings⟩
  intro other member
  have grows : world.Grows (world.setCall index call stage) := Grows.same rfl rfl rfl rfl rfl
  rcases List.mem_or_eq_of_mem_set member with old | rfl
  · exact (sound.calls other old).grows grows
  · exact own.grows grows

/-- The call goes to a stage that holds no session and no claims. -/
theorem CallSound.silent (none : stage.session = none) :
    world.CallSound toLowerCase throws { call with stage } := by
  refine ⟨?_, ?_⟩
  · intro session its
    cases none.symm.trans its
  · cases stage with
    | read | destroyDelete | finished => trivial
    | _ => cases none

/-- The call goes to a stage that holds a version of its session. -/
theorem CallSound.holding (its : stage.session = some session) (version : session ∈ world.versions)
    (same : session.id = call.sessionId) (holds : stage.Holds toLowerCase world.config throws) :
    world.CallSound toLowerCase throws { call with stage } := by
  refine ⟨?_, holds⟩
  intro other held
  cases its.symm.trans held
  exact ⟨version, same⟩

theorem Sound.logCheck {kind : Confirmation ν} (sound : world.Sound toLowerCase throws)
    (holds : kind.Holds toLowerCase world.config throws) :
    (world.logCheck id kind).Sound toLowerCase throws := by
  have grows : world.Grows (world.logCheck id kind) :=
    ⟨rfl, rfl, Int.le_refl _, fun _ member => member, fun _ member => List.mem_cons_of_mem _ member⟩
  refine ⟨?_, sound.rows, ?_, ?_, ?_⟩
  · intro session member
    exact (sound.versions session member).grows grows
  · intro call member
    exact (sound.calls call member).grows grows
  · intro check member
    rcases List.mem_cons.mp member with rfl | old
    · exact ⟨Int.le_refl _, holds⟩
    · exact sound.checks check old
  · intro serving member
    obtain ⟨founded, rest⟩ := sound.servings serving member
    exact ⟨founded.grows grows, rest⟩

theorem Sound.writeRow (sound : world.Sound toLowerCase throws) (checked : world.Checked row) :
    (world.writeRow row).Sound toLowerCase throws := by
  have grows : world.Grows (world.writeRow row) :=
    ⟨rfl, rfl, Int.le_refl _, fun _ member => List.mem_cons_of_mem _ member, fun _ member => member⟩
  refine ⟨?_, ?_, ?_, sound.checks, ?_⟩
  · intro session member
    rcases List.mem_cons.mp member with rfl | old
    · exact checked
    · exact sound.versions session old
  · intro other member
    obtain ⟨old, there, same⟩ := Table.mem_updateMany.mp member
    obtain ⟨version, used⟩ := sound.rows old there
    split at same
    · rename_i key
      have key : old.id = row.id := of_decide_eq_true key
      rw [same]
      exact ⟨List.mem_cons_self, key ▸ used⟩
    · rw [same]
      exact ⟨List.mem_cons_of_mem _ version, used⟩
  · intro call member
    exact (sound.calls call member).grows grows
  · intro serving member
    obtain ⟨founded, time, version⟩ := sound.servings serving member
    exact ⟨founded.grows grows, time, List.mem_cons_of_mem _ version⟩

theorem Sound.removeRow (sound : world.Sound toLowerCase throws) : (world.removeRow id).Sound toLowerCase throws := by
  refine ⟨sound.versions, ?_, ?_, sound.checks, sound.servings⟩
  · intro row member
    exact sound.rows row (List.mem_filter.mp member).1
  · intro call member
    exact (sound.calls call member).grows (Grows.same rfl rfl rfl rfl rfl)

theorem Sound.serve {basis : Basis} (sound : world.Sound toLowerCase throws)
    (version : session ∈ world.versions) (same : session.id = call.sessionId)
    (founded : world.Founded ⟨index, session, world.now, basis⟩) :
    (world.serve index call session basis).Sound toLowerCase throws := by
  have own : world.CallSound toLowerCase throws { call with stage := .extend session } :=
    CallSound.holding rfl version same trivial
  have called : (world.setCall index call (.extend session)).Sound toLowerCase throws := sound.setCall own
  refine ⟨called.versions, called.rows, ?_, called.checks, ?_⟩
  · intro call member
    exact (called.calls call member).grows (Grows.same rfl rfl rfl rfl rfl)
  · intro serving member
    rcases List.mem_cons.mp member with rfl | old
    · exact ⟨founded, Int.le_refl _, version⟩
    · exact sound.servings serving old

theorem mem_of_stored (found : world.stored id = some row) :
    row ∈ world.operatorSession ∧ row.id = id := Table.findUnique_mem found

/-- What a check of this kind lets a call be served on. -/
def Fits (kind : Confirmation ν) (basis : Basis) : Prop :=
  basis = .confirmed ∧ (∃ claims, kind = .accepted claims) ∨ basis = .unconfirmed

theorem founded_of_check {kind : Confirmation ν} {basis : Basis} (fits : Fits kind basis)
    (same : session.id = id) :
    (world.logCheck id kind).Founded ⟨index, session, world.now, basis⟩ := by
  rcases fits with ⟨rfl, claims⟩ | rfl
  · exact ⟨_, List.mem_cons_self, same.symm, rfl, claims⟩
  · exact ⟨_, List.mem_cons_self, same.symm, rfl⟩

/-- A check that is written to the row, and served. -/
theorem Sound.validate {kind : Confirmation ν} {basis : Basis} (sound : world.Sound toLowerCase throws)
    (found : world.stored session.id = some row) (same : session.id = call.sessionId)
    (holds : kind.Holds toLowerCase world.config throws) (fits : Fits kind basis) :
    (((world.writeRow { row with lastValidatedAt := some world.now }).logCheck row.id kind).serve
      index call { row with lastValidatedAt := some world.now } basis).Sound toLowerCase throws := by
  have logged : (world.logCheck row.id kind).Sound toLowerCase throws := sound.logCheck holds
  have checked : (world.logCheck row.id kind).Checked { row with lastValidatedAt := some world.now } := by
    intro last read
    cases read
    exact ⟨_, List.mem_cons_self, rfl, rfl⟩
  have written := logged.writeRow checked
  exact Sound.serve written List.mem_cons_self ((mem_of_stored found).2.trans same)
    (founded_of_check fits rfl)

/-- A check that the row does not take, and is served all the same. -/
theorem Sound.unwritten {kind : Confirmation ν} (sound : world.Sound toLowerCase throws)
    (version : session ∈ world.versions) (same : session.id = call.sessionId)
    (holds : kind.Holds toLowerCase world.config throws) :
    ((world.logCheck session.id kind).serve index call session .unconfirmed).Sound
      toLowerCase throws := by
  have logged : (world.logCheck session.id kind).Sound toLowerCase throws := sound.logCheck holds
  exact logged.serve version same (founded_of_check (.inr rfl) rfl)

theorem Sound.revalidate (sound : world.Sound toLowerCase throws) (version : session ∈ world.versions)
    (same : session.id = call.sessionId) :
    (world.revalidateSessionAgainstIdp index call session).Sound toLowerCase throws := by
  have ask : (world.setCall index call (.userinfo session)).Sound toLowerCase throws :=
    sound.setCall (CallSound.holding rfl version same trivial)
  unfold revalidateSessionAgainstIdp
  split
  · rename_i disabled
    exact sound.serve version same disabled
  split
  · rename_i last read
    split
    · rename_i recent
      refine sound.serve version same ⟨?_, sound.versions session version last read⟩
      simp only [sessionNeedsRevalidation, read, decide_eq_false_iff_not] at recent
      exact Int.not_le.mp recent
    split
    · rename_i none
      exact sound.serve version same none
    · exact ask
  · split
    · rename_i none
      exact sound.serve version same none
    · exact ask

theorem Sound.refreshed {stale : Bool} (sound : world.Sound toLowerCase throws)
    (version : session ∈ world.versions) (same : session.id = call.sessionId)
    (old : stale = true → accessTokenIsFresh world.now session.toStoredSession = false) :
    (world.refreshed index call session stale).Sound toLowerCase throws := by
  unfold Sessions.refreshed
  split
  · rename_i its
    exact sound.serve version same (old its)
  · exact sound.revalidate version same

/-- What revalidation does not refuse does not revoke the account. -/
theorem accepted_of_revalidate {config : AuthConfig} {claims : Claims ν} {now : Int}
    {operatorUser : List OperatorUser} {answer}
    (answered : revalidateOperatorFromClaims toLowerCase url config now claims operatorUser = answer)
    (accepted : ∀ rows reason, answer ≠ some (rows, .error reason)) :
    AcceptedClaims toLowerCase (some config) claims := by
  rintro oidc same groups
  cases same
  by_contra revoked
  obtain ⟨reason, valid⟩ := Option.ne_none_iff_exists'.mp revoked
  refine accepted operatorUser reason (answered.symm.trans ?_)
  rw [revalidateOperatorFromClaims, if_neg (by rw [groups]; exact Bool.noConfusion)]
  simp [authorizeAndUpsertOperator, operatorOf, valid]

/-- Nor is anything else refused. -/
theorem refused_of_revalidate {config : AuthConfig} {claims : Claims ν} {now : Int}
    {operatorUser rows : List OperatorUser} {reason : String}
    (refused : revalidateOperatorFromClaims toLowerCase url config now claims operatorUser =
      some (rows, .error reason)) : RefusedClaims toLowerCase (some config) claims := by
  rintro oidc same
  cases same
  unfold revalidateOperatorFromClaims at refused
  cases groups : hasGroups claims with
  | false =>
    rw [groups] at refused
    cases refused
  | true =>
    refine ⟨rfl, ?_⟩
    intro valid
    simp only [groups, Bool.true_eq_false, if_false, authorizeAndUpsertOperator, operatorOf,
      valid] at refused
    grind

theorem Sound.advance {ok : Bool} (sound : world.Sound toLowerCase throws)
    (there : world.calls[index]? = some call)
    (allowed : throws ∨ ¬world.DestroyThrows (.advance index ok))
    (taken : world.advance toLowerCase url index call ok = some after) :
    after.Sound toLowerCase throws := by
  have own := sound.calls call (List.mem_of_getElem? there)
  have quiet (stage : SessionStage ν) (none : stage.session = none) :
      (world.setCall index call stage).Sound toLowerCase throws := sound.setCall (CallSound.silent none)
  have on (stage : SessionStage ν) (session : ValidatedSession) (its : stage.session = some session)
      (version : session ∈ world.versions) (same : session.id = call.sessionId)
      (holds : stage.Holds toLowerCase world.config throws) :
      (world.setCall index call stage).Sound toLowerCase throws :=
    sound.setCall (CallSound.holding its version same holds)
  -- refused claims are noted only where a step of `destroySession` may throw
  have past (session : ValidatedSession) (refusal : Option (Claims ν))
      (version : session ∈ world.versions) (same : session.id = call.sessionId)
      (refused : ∀ claims, refusal = some claims → RefusedClaims toLowerCase world.config claims)
      (may : refusal ≠ none → throws) :
      (world.setCall index call (thrown session refusal)).Sound toLowerCase throws := by
    cases refusal with
    | some claims =>
      refine on (.note session (.refused claims)) session rfl version same ⟨refused claims rfl, ?_⟩
      exact may (Option.some_ne_none claims)
    | none => exact quiet .finished rfl
  simp only [Sessions.advance] at taken
  split at taken
  · split at taken
    · rename_i session found
      obtain ⟨row, same⟩ := mem_of_stored found
      cases taken
      split
      · exact on _ session rfl (sound.rows session row).1 same trivial
      · exact quiet .finished rfl
    · cases taken
      exact quiet .finished rfl
  · rename_i session stage
    obtain ⟨version, same⟩ := own.session session (congrArg SessionStage.session stage)
    split at taken
    · cases taken
      exact quiet .finished rfl
    split at taken
    all_goals
      cases taken
      exact on _ session rfl version same trivial
  · rename_i session claims stage
    obtain ⟨version, same⟩ := own.session session (congrArg SessionStage.session stage)
    split at taken
    · cases taken
    rename_i config configured
    split at taken
    · rename_i answer
      cases taken
      refine on _ session rfl version same ?_
      change AcceptedClaims toLowerCase world.config claims
      rw [configured]
      refine accepted_of_revalidate answer ?_
      intro rows reason other
      cases other
    · rename_i rows reason refused
      cases taken
      refine on _ session rfl version same ?_
      change RefusedClaims toLowerCase world.config claims
      rw [configured]
      exact refused_of_revalidate refused
    · rename_i rows user answer
      have accepted : AcceptedClaims toLowerCase world.config claims := by
        rw [configured]
        refine accepted_of_revalidate answer ?_
        intro rows reason other
        cases other
      split at taken
      · cases taken
        exact on _ session rfl version same accepted
      · cases taken
        have confirmed : (world.setCall index call (.confirm session claims)).Sound toLowerCase throws :=
          on _ session rfl version same accepted
        refine ⟨confirmed.versions, confirmed.rows, ?_, confirmed.checks, confirmed.servings⟩
        intro other there
        exact (confirmed.calls other there).grows (Grows.same rfl rfl rfl rfl rfl)
  · rename_i session claims stage
    obtain ⟨version, same⟩ := own.session session (congrArg SessionStage.session stage)
    have accepted : AcceptedClaims toLowerCase world.config claims := by
      have holds := own.holds
      rw [stage] at holds
      exact holds
    split at taken
    · cases taken
      exact on _ session rfl version same accepted
    · rename_i row found
      split at taken
      · cases taken
        exact sound.validate found same accepted (.inl ⟨rfl, claims, rfl⟩)
      · cases taken
        exact on _ session rfl version same accepted
  · rename_i session kind stage
    obtain ⟨version, same⟩ := own.session session (congrArg SessionStage.session stage)
    have holds : kind.Holds toLowerCase world.config throws := by
      have holds := own.holds
      rw [stage] at holds
      exact holds
    split at taken
    · cases taken
      exact sound.unwritten version same holds
    · rename_i row found
      split at taken
      · cases taken
        exact sound.validate found same holds (.inr rfl)
      · cases taken
        exact sound.unwritten version same holds
  · rename_i session refusal stage
    obtain ⟨version, same⟩ := own.session session (congrArg SessionStage.session stage)
    have refused (claims : Claims ν) (its : refusal = some claims) :
        RefusedClaims toLowerCase world.config claims := by
      have holds := own.holds
      rw [stage, its] at holds
      exact holds
    split at taken
    · rename_i failed
      cases taken
      refine past session refusal version same refused fun some => allowed.resolve_right ?_
      obtain ⟨claims, rfl⟩ := Option.ne_none_iff_exists'.mp some
      exact not_not_intro ⟨call, there, by rw [stage]; exact failed⟩
    split at taken
    · cases taken
      exact quiet .finished rfl
    · cases taken
      refine on _ session rfl version same ?_
      cases refusal with
      | none => trivial
      | some claims => exact refused claims rfl
  · rename_i session refusal stage
    obtain ⟨version, same⟩ := own.session session (congrArg SessionStage.session stage)
    have refused (claims : Claims ν) (its : refusal = some claims) :
        RefusedClaims toLowerCase world.config claims := by
      have holds := own.holds
      rw [stage, its] at holds
      exact holds
    split at taken
    · rename_i failed
      cases taken
      refine past session refusal version same refused fun some => allowed.resolve_right ?_
      obtain ⟨claims, rfl⟩ := Option.ne_none_iff_exists'.mp some
      exact not_not_intro ⟨call, there, by rw [stage]; exact failed⟩
    · cases taken
      exact quiet .destroyDelete rfl
  · split at taken
    · cases taken
      exact sound.removeRow.setCall (CallSound.silent rfl)
    · cases taken
      exact quiet .finished rfl
  · rename_i session stage
    split at taken
    · cases taken
      exact quiet .finished rfl
    · rename_i row found
      split at taken
      · cases taken
        exact quiet .finished rfl
      · cases taken
        have checked : world.Checked { row with
            expiresAt := sessionExpiresAt world.env world.now session.createdAt } :=
          sound.versions row (sound.rows row (mem_of_stored found).1).1
        exact (sound.writeRow checked).setCall (CallSound.silent rfl)
  all_goals cases taken

theorem Sound.step {act : SessionAct ν} (sound : world.Sound toLowerCase throws)
    (allowed : throws ∨ ¬world.DestroyThrows act)
    (taken : world.step toLowerCase url act = some after) : after.Sound toLowerCase throws := by
  cases act with
  | create new oidcSub =>
    simp only [Sessions.step] at taken
    split at taken
    · cases taken
    · cases taken
      have logged : (world.logCheck new.id .login).Sound toLowerCase throws :=
        sound.logCheck trivial
      have checked : (world.logCheck new.id .login).Checked
          { toStoredSession := new, oidcSub, lastValidatedAt := some world.now } := by
        intro last read
        cases read
        exact ⟨_, List.mem_cons_self, rfl, rfl⟩
      have written := logged.writeRow checked
      refine ⟨written.versions, ?_, ?_, written.checks, ?_⟩
      · intro row member
        rcases List.mem_append.mp member with old | one
        · obtain ⟨version, used⟩ := sound.rows row old
          exact ⟨List.mem_cons_of_mem _ version, List.mem_cons_of_mem _ used⟩
        · cases List.mem_singleton.mp one
          exact ⟨List.mem_cons_self, List.mem_cons_self⟩
      · intro call member
        exact (written.calls call member).grows (Grows.same rfl rfl rfl rfl rfl)
      · exact written.servings
  | call sessionId =>
    cases taken
    have grows : world.Grows { world with calls := world.calls ++ [{ sessionId }] } :=
      Grows.same rfl rfl rfl rfl rfl
    refine ⟨sound.versions, sound.rows, ?_, sound.checks, sound.servings⟩
    intro call member
    rcases List.mem_append.mp member with old | new
    · exact (sound.calls call old).grows grows
    · cases List.mem_singleton.mp new
      refine ⟨?_, trivial⟩
      intro session its
      cases its
  | refreshed index outcome =>
    obtain ⟨call, there, taken⟩ := Option.bind_eq_some_iff.mp taken
    have own := sound.calls call (List.mem_of_getElem? there)
    split at taken
    · rename_i session stage
      obtain ⟨version, same⟩ := own.session session (congrArg SessionStage.session stage)
      split at taken
      · split at taken
        · rename_i fresh
          cases taken
          refine sound.refreshed version same ?_
          rintro rfl
          exact fresh
        · cases taken
      · split at taken
        · rename_i allowed
          cases taken
          exact sound.refreshed allowed.1 (allowed.2.1.trans same) allowed.2.2
        · cases taken
      · cases taken
        exact sound.setCall (CallSound.silent rfl)
    · cases taken
  | answered index answer =>
    obtain ⟨call, there, taken⟩ := Option.bind_eq_some_iff.mp taken
    have own := sound.calls call (List.mem_of_getElem? there)
    split at taken
    · rename_i session stage
      obtain ⟨version, same⟩ := own.session session (congrArg SessionStage.session stage)
      split at taken
      all_goals
        cases taken
        exact sound.setCall (CallSound.holding rfl version same trivial)
    · cases taken
  | advance index ok =>
    obtain ⟨call, there, taken⟩ := Option.bind_eq_some_iff.mp taken
    exact sound.advance there allowed taken
  | rotate session =>
    obtain ⟨row, found, taken⟩ := Option.bind_eq_some_iff.mp taken
    cases taken
    obtain ⟨member, same⟩ := mem_of_stored found
    refine sound.writeRow ?_
    intro last read
    obtain ⟨check, there, its, time⟩ := sound.versions row (sound.rows row member).1 last read
    exact ⟨check, there, its.trans same, time⟩
  | delete sessionId =>
    cases taken
    exact sound.removeRow
  | tick ms =>
    cases taken
    have grows : world.Grows { world with now := world.now + ms } :=
      ⟨rfl, rfl, by simp, fun _ member => member, fun _ member => member⟩
    refine ⟨?_, sound.rows, ?_, ?_, ?_⟩
    · intro session member
      exact (sound.versions session member).grows grows
    · intro call member
      exact (sound.calls call member).grows grows
    · intro check member
      obtain ⟨time, accepted⟩ := sound.checks check member
      exact ⟨Int.le_trans time grows.now, accepted⟩
    · intro serving member
      obtain ⟨founded, time, version⟩ := sound.servings serving member
      exact ⟨founded.grows grows, Int.le_trans time grows.now, version⟩

theorem sound_of_reachableUnder {ok : Sessions ν → SessionAct ν → Prop}
    (reached : Run.ReachableUnder (Sessions.step toLowerCase url) Fresh ok world)
    (allowed : ∀ world act, ok world act → throws ∨ ¬world.DestroyThrows act) :
    world.Sound toLowerCase throws := by
  refine reached.invariant ?_ fun _ _ _ sound may taken => sound.step (allowed _ _ may) taken
  rintro world ⟨rows, calls, -, versions, checks, servings⟩
  refine ⟨?_, ?_, ?_, ?_, ?_⟩
  · simp [versions]
  · simp [rows]
  · simp [calls]
  · simp [checks]
  · simp [servings]

theorem sound_of_reachable (reached : Run.Reachable (Sessions.step toLowerCase url) Fresh world) :
    world.Sound toLowerCase True :=
  sound_of_reachableUnder reached fun _ _ _ => .inl trivial

end Primitives

end Sessions

section Runs

variable {ν : Type} {toLowerCase : String → String} {url : String → Option String} {throws : Prop}
  {world after : Sessions ν}

open Sessions

/-- While revalidation is on, a call that is served has a stale access token or none, or its session
was confirmed within the interval, by a login, by claims that the allow-lists do not refuse, or, as
the code takes it, by a provider that gave no answer. Claims that are refused let a call go on only
where a step of `destroySession` threw. -/
theorem served_sessions_confirmed
    (reached : Run.Reachable (Sessions.step toLowerCase url) Sessions.Fresh world)
    {config : OidcRuntimeConfig} (enabled : world.config = some (.oidc config)) :
    (∀ serving ∈ world.servings,
      accessTokenIsFresh serving.at_ serving.session.toStoredSession = false ∨
      serving.session.accessToken = none ∨
      ∃ check ∈ world.checks, check.sessionId = serving.session.id ∧ check.at_ ≤ world.now ∧
        serving.at_ - check.at_ < revalidateIntervalMs world.sessionRevalidateSeconds) ∧
    (∀ check ∈ world.checks, match check.kind with
      | .login | .unanswered => True
      | .accepted claims | .unwritten claims => hasGroups claims = true →
        validateAuthorization toLowerCase config claims (groupsFromClaims claims) = none
      | .refused claims => hasGroups claims = true ∧
        validateAuthorization toLowerCase config claims (groupsFromClaims claims) ≠ none) ∧
    (Run.ReachableUnder (Sessions.step toLowerCase url) Sessions.Fresh
        (fun world act => ¬world.DestroyThrows act) world →
      ∀ check ∈ world.checks, ∀ claims, check.kind ≠ .refused claims) := by
  have sound := Sessions.sound_of_reachable reached
  have positive : 0 < revalidateIntervalMs world.sessionRevalidateSeconds := by
    unfold revalidateIntervalMs
    have sixty : 60 ≤ max (ttlSecondsFromEnv world.sessionRevalidateSeconds 300) 60 :=
      Int.le_max_right _ _
    omega
  refine ⟨?_, ?_, ?_⟩
  · intro serving served
    obtain ⟨founded, -, -⟩ := sound.servings serving served
    unfold Founded at founded
    split at founded
    · rw [enabled] at founded
      cases founded
    · exact .inl founded
    · obtain ⟨soon, check, member, same, time⟩ := founded
      exact .inr (.inr ⟨check, member, same, (sound.checks check member).1, time ▸ soon⟩)
    · exact .inr (.inl founded)
    · obtain ⟨check, member, same, time, -⟩ := founded
      exact .inr (.inr ⟨check, member, same, (sound.checks check member).1, by omega⟩)
    · obtain ⟨check, member, same, time⟩ := founded
      exact .inr (.inr ⟨check, member, same, (sound.checks check member).1, by omega⟩)
  · intro check member
    have holds := (sound.checks check member).2
    cases kind : check.kind with
    | login | unanswered => trivial
    | accepted claims | unwritten claims =>
      rw [kind] at holds
      exact holds config enabled
    | refused claims =>
      rw [kind] at holds
      exact holds.1 config enabled
  · intro destroyed check member claims refused
    have strict : world.Sound toLowerCase False :=
      Sessions.sound_of_reachableUnder destroyed fun _ _ may => .inr may
    have holds := (strict.checks check member).2
    rw [refused] at holds
    exact holds.2

/-! ## Sessions that are gone -/

/-- What the turn of a call does to the calls, the rows and the servings. -/
structure Turn (index : Nat) (call : SessionCall ν) (world after : Sessions ν) : Prop where
  calls : ∃ stage, after.calls = world.calls.set index { call with stage } ∧
    (call.stage.session = none → stage.session = none ∨
      ∃ row ∈ world.operatorSession, row.id = call.sessionId)
  rows : ∀ row ∈ after.operatorSession, ∃ old ∈ world.operatorSession, old.id = row.id
  servings : ∀ serving ∈ after.servings, serving ∈ world.servings ∨
    serving.call = index ∧ serving.session.id = call.sessionId ∧ call.stage.session ≠ none
  created : after.created = world.created

section Turns

variable {call : SessionCall ν} {index : Nat} {session row : ValidatedSession} {id : String}
  {stage : SessionStage ν}

theorem turn_setCall (stage : SessionStage ν) (known : call.stage.session = none →
    stage.session = none ∨ ∃ row ∈ world.operatorSession, row.id = call.sessionId) :
    Turn index call world (world.setCall index call stage) :=
  ⟨⟨stage, rfl, known⟩, fun row member => ⟨row, member, rfl⟩, fun _ member => .inl member, rfl⟩

/-- The rows change before the call goes on, and none is new. -/
theorem Turn.of_rows {base : Sessions ν} (turn : Turn index call base after)
    (calls : base.calls = world.calls) (servings : base.servings = world.servings)
    (created : base.created = world.created)
    (rows : ∀ row ∈ base.operatorSession, ∃ old ∈ world.operatorSession, old.id = row.id) :
    Turn index call world after := by
  refine ⟨?_, ?_, ?_, turn.created.trans created⟩
  · obtain ⟨stage, set, known⟩ := turn.calls
    refine ⟨stage, calls ▸ set, ?_⟩
    intro none
    rcases known none with silent | ⟨row, member, same⟩
    · exact .inl silent
    · obtain ⟨old, there, its⟩ := rows row member
      exact .inr ⟨old, there, its.trans same⟩
  · intro row member
    obtain ⟨one, there, same⟩ := turn.rows row member
    obtain ⟨old, before, its⟩ := rows one there
    exact ⟨old, before, its.trans same⟩
  · rw [← servings]
    exact turn.servings

theorem turn_serve {basis : Basis} (same : session.id = call.sessionId)
    (holding : call.stage.session ≠ none) :
    Turn index call world (world.serve index call session basis) := by
  refine ⟨⟨.extend session, rfl, fun none => absurd none holding⟩,
    fun row member => ⟨row, member, rfl⟩, ?_, rfl⟩
  intro serving member
  rcases List.mem_cons.mp member with rfl | old
  · exact .inr ⟨rfl, same, holding⟩
  · exact .inl old

theorem rows_writeRow : ∀ one ∈ (world.writeRow row).operatorSession,
    ∃ old ∈ world.operatorSession, old.id = one.id := by
  intro one member
  obtain ⟨old, there, same⟩ := Table.mem_updateMany.mp member
  refine ⟨old, there, ?_⟩
  split at same
  · rename_i key
    rw [same]
    exact of_decide_eq_true key
  · rw [same]

theorem turn_revalidate (same : session.id = call.sessionId) (holding : call.stage.session ≠ none) :
    Turn index call world (world.revalidateSessionAgainstIdp index call session) := by
  have ask : Turn index call world (world.setCall index call (.userinfo session)) :=
    turn_setCall _ fun none => absurd none holding
  unfold revalidateSessionAgainstIdp
  split
  · exact turn_serve same holding
  split
  · split
    · exact turn_serve same holding
    split
    · exact turn_serve same holding
    · exact ask
  · split
    · exact turn_serve same holding
    · exact ask

theorem turn_advance {ok : Bool} (own : world.CallSound toLowerCase throws call)
    (taken : world.advance toLowerCase url index call ok = some after) :
    Turn index call world after := by
  simp only [Sessions.advance] at taken
  split at taken
  · split at taken
    · rename_i session found
      cases taken
      exact turn_setCall _ fun _ => .inr ⟨session, mem_of_stored found⟩
    · cases taken
      exact turn_setCall _ fun _ => .inl rfl
  · rename_i session stage
    have holding : call.stage.session ≠ none := by simp [stage, SessionStage.session]
    split at taken
    · cases taken
      exact turn_setCall _ fun _ => .inl rfl
    split at taken
    all_goals
      cases taken
      exact turn_setCall _ fun none => absurd none holding
  · rename_i session claims stage
    have holding : call.stage.session ≠ none := by simp [stage, SessionStage.session]
    split at taken
    · cases taken
    split at taken
    · cases taken
      exact turn_setCall _ fun none => absurd none holding
    · cases taken
      exact turn_setCall _ fun none => absurd none holding
    split at taken
    · cases taken
      exact turn_setCall _ fun none => absurd none holding
    · cases taken
      exact ⟨⟨_, rfl, fun none => absurd none holding⟩, fun row member => ⟨row, member, rfl⟩,
        fun _ member => .inl member, rfl⟩
  · rename_i session claims stage
    have holding : call.stage.session ≠ none := by simp [stage, SessionStage.session]
    obtain ⟨-, same⟩ := own.session session (congrArg SessionStage.session stage)
    split at taken
    · cases taken
      exact turn_setCall _ fun none => absurd none holding
    · rename_i row found
      split at taken
      · cases taken
        refine Turn.of_rows (turn_serve ((mem_of_stored found).2.trans same) holding) ?_ ?_ ?_ ?_
        · rfl
        · rfl
        · rfl
        · exact rows_writeRow
      · cases taken
        exact turn_setCall _ fun none => absurd none holding
  · rename_i session kind stage
    have holding : call.stage.session ≠ none := by simp [stage, SessionStage.session]
    obtain ⟨-, same⟩ := own.session session (congrArg SessionStage.session stage)
    have unwritten : Turn index call world
        ((world.logCheck session.id kind).serve index call session .unconfirmed) :=
      (turn_serve same holding).of_rows rfl rfl rfl fun row member => ⟨row, member, rfl⟩
    split at taken
    · cases taken
      exact unwritten
    · rename_i row found
      split at taken
      · cases taken
        refine Turn.of_rows (turn_serve ((mem_of_stored found).2.trans same) holding) ?_ ?_ ?_ ?_
        · rfl
        · rfl
        · rfl
        · exact rows_writeRow
      · cases taken
        exact unwritten
  · rename_i session refusal stage
    have holding : call.stage.session ≠ none := by simp [stage, SessionStage.session]
    split at taken
    · cases taken
      exact turn_setCall _ fun none => absurd none holding
    split at taken
    all_goals
      cases taken
      exact turn_setCall _ fun none => absurd none holding
  · rename_i session refusal stage
    have holding : call.stage.session ≠ none := by simp [stage, SessionStage.session]
    split at taken
    all_goals
      cases taken
      exact turn_setCall _ fun none => absurd none holding
  · split at taken
    · cases taken
      refine (turn_setCall .finished fun _ => .inl rfl).of_rows rfl rfl rfl ?_
      intro row member
      exact ⟨row, (List.mem_filter.mp member).1, rfl⟩
    · cases taken
      exact turn_setCall _ fun _ => .inl rfl
  · split at taken
    · cases taken
      exact turn_setCall _ fun _ => .inl rfl
    split at taken
    · cases taken
      exact turn_setCall _ fun _ => .inl rfl
    · cases taken
      exact (turn_setCall .finished fun _ => .inl rfl).of_rows rfl rfl rfl rows_writeRow
  all_goals cases taken

/-- No row has the id any more, and the calls from this one on have read none. -/
structure Gone (id : String) (first : Nat) (world : Sessions ν) : Prop where
  created : id ∈ world.created
  absent : ∀ row ∈ world.operatorSession, row.id ≠ id
  calls : ∀ (index : Nat) (call : SessionCall ν), first ≤ index → world.calls[index]? = some call →
    call.sessionId = id → call.stage.session = none
  servings : ∀ serving ∈ world.servings, serving.session.id = id → serving.call < first

theorem Gone.turn {first : Nat} (gone : Gone id first world) (there : world.calls[index]? = some call)
    (turn : Turn index call world after) : Gone id first after := by
  have silent (late : first ≤ index) (its : call.sessionId = id) : call.stage.session = none :=
    gone.calls index call late there its
  refine ⟨turn.created ▸ gone.created, ?_, ?_, ?_⟩
  · intro row member same
    obtain ⟨old, before, its⟩ := turn.rows row member
    exact gone.absent old before (its.trans same)
  · intro other found late read its
    obtain ⟨stage, set, known⟩ := turn.calls
    have inside : index < world.calls.length := (List.getElem?_eq_some_iff.mp there).1
    rw [set] at read
    by_cases same : index = other
    · subst same
      rw [List.getElem?_set_self inside] at read
      cases read
      rcases known (silent late its) with none | ⟨row, member, named⟩
      · exact none
      · exact absurd (named.trans its) (gone.absent row member)
    · rw [List.getElem?_set_ne same] at read
      exact gone.calls other found late read its
  · intro serving member same
    rcases turn.servings serving member with old | ⟨rfl, its, holding⟩
    · exact gone.servings serving old same
    · by_contra late
      exact holding (silent (Nat.le_of_not_lt late) (its.symm.trans same))

/-- What a step that is no turn of a call does. -/
structure Outside (world after : Sessions ν) : Prop where
  calls : after.calls = world.calls ∨
    ∃ sessionId, after.calls = world.calls ++ [({ sessionId } : SessionCall ν)]
  rows : ∀ row ∈ after.operatorSession,
    (∃ old ∈ world.operatorSession, old.id = row.id) ∨ row.id ∉ world.created
  servings : after.servings = world.servings
  created : ∀ id ∈ world.created, id ∈ after.created

theorem step_cases {act : SessionAct ν} (sound : world.Sound toLowerCase True)
    (taken : world.step toLowerCase url act = some after) :
    (∃ index call, world.calls[index]? = some call ∧ Turn index call world after) ∨
      Outside world after := by
  cases act with
  | create new oidcSub =>
    simp only [Sessions.step] at taken
    split at taken
    · cases taken
    · rename_i unused
      cases taken
      refine .inr ⟨.inl rfl, ?_, rfl, fun _ member => List.mem_cons_of_mem _ member⟩
      intro row member
      rcases List.mem_append.mp member with old | one
      · exact .inl ⟨row, old, rfl⟩
      · cases List.mem_singleton.mp one
        exact .inr unused
  | call sessionId =>
    cases taken
    exact .inr ⟨.inr ⟨sessionId, rfl⟩, fun row member => .inl ⟨row, member, rfl⟩, rfl,
      fun _ member => member⟩
  | refreshed index outcome =>
    obtain ⟨call, there, taken⟩ := Option.bind_eq_some_iff.mp taken
    have own := sound.calls call (List.mem_of_getElem? there)
    refine .inl ⟨index, call, there, ?_⟩
    have served (session : ValidatedSession) (stale : Bool) (same : session.id = call.sessionId)
        (holding : call.stage.session ≠ none) :
        Turn index call world (world.refreshed index call session stale) := by
      unfold Sessions.refreshed
      split
      · exact turn_serve same holding
      · exact turn_revalidate same holding
    split at taken
    · rename_i session stage
      obtain ⟨-, same⟩ := own.session session (congrArg SessionStage.session stage)
      have holding : call.stage.session ≠ none := by simp [stage, SessionStage.session]
      split at taken
      · split at taken
        · cases taken
          exact served session _ same holding
        · cases taken
      · split at taken
        · rename_i allowed
          cases taken
          exact served _ _ (allowed.2.1.trans same) holding
        · cases taken
      · cases taken
        exact turn_setCall _ fun _ => .inl rfl
    · cases taken
  | answered index answer =>
    obtain ⟨call, there, taken⟩ := Option.bind_eq_some_iff.mp taken
    refine .inl ⟨index, call, there, ?_⟩
    split at taken
    · rename_i session stage
      have holding : call.stage.session ≠ none := by simp [stage, SessionStage.session]
      split at taken
      all_goals
        cases taken
        exact turn_setCall _ fun none => absurd none holding
    · cases taken
  | advance index ok =>
    obtain ⟨call, there, taken⟩ := Option.bind_eq_some_iff.mp taken
    have own := sound.calls call (List.mem_of_getElem? there)
    exact .inl ⟨index, call, there, turn_advance own taken⟩
  | rotate session =>
    obtain ⟨row, found, taken⟩ := Option.bind_eq_some_iff.mp taken
    cases taken
    exact .inr ⟨.inl rfl, fun one member => .inl (rows_writeRow one member), rfl,
      fun _ member => member⟩
  | delete sessionId =>
    cases taken
    refine .inr ⟨.inl rfl, ?_, rfl, fun _ member => member⟩
    intro row member
    exact .inl ⟨row, (List.mem_filter.mp member).1, rfl⟩
  | tick ms =>
    cases taken
    exact .inr ⟨.inl rfl, fun row member => .inl ⟨row, member, rfl⟩, rfl, fun _ member => member⟩

theorem Gone.step {first : Nat} {act : SessionAct ν} (gone : Gone id first world)
    (sound : world.Sound toLowerCase True) (taken : world.step toLowerCase url act = some after) :
    Gone id first after := by
  rcases step_cases sound taken with ⟨index, call, there, turn⟩ | outside
  · exact gone.turn there turn
  · refine ⟨outside.created id gone.created, ?_, ?_, outside.servings ▸ gone.servings⟩
    · intro row member same
      rcases outside.rows row member with ⟨old, before, its⟩ | unused
      · exact gone.absent old before (its.trans same)
      · exact unused (same ▸ gone.created)
    · intro index call late read its
      rcases outside.calls with same | ⟨sessionId, more⟩
      · rw [same] at read
        exact gone.calls index call late read its
      · rw [more] at read
        by_cases inside : index < world.calls.length
        · rw [List.getElem?_append_left inside] at read
          exact gone.calls index call late read its
        · rw [List.getElem?_append_right (Nat.le_of_not_lt inside)] at read
          cases List.mem_singleton.mp (List.mem_of_getElem? read)
          rfl

/-- The servings are of calls that have begun. -/
def Begun (world : Sessions ν) : Prop :=
  ∀ serving ∈ world.servings, serving.call < world.calls.length

theorem begun_step {act : SessionAct ν} (begun : Begun world) (sound : world.Sound toLowerCase True)
    (taken : world.step toLowerCase url act = some after) : Begun after := by
  intro serving member
  rcases step_cases sound taken with ⟨index, call, there, turn⟩ | outside
  · obtain ⟨stage, set, -⟩ := turn.calls
    rw [set, List.length_set]
    rcases turn.servings serving member with old | ⟨rfl, -, -⟩
    · exact begun serving old
    · exact (List.getElem?_eq_some_iff.mp there).1
  · rw [outside.servings] at member
    have before := begun serving member
    rcases outside.calls with same | ⟨sessionId, more⟩
    · rw [same]
      exact before
    · rw [more, List.length_append]
      exact Nat.lt_of_lt_of_le before (Nat.le_add_right _ _)

theorem begun_of_reachable
    (reached : Run.Reachable (Sessions.step toLowerCase url) Sessions.Fresh world) : Begun world := by
  induction reached with
  | initial fresh =>
    obtain ⟨-, -, -, -, -, none⟩ := fresh
    intro serving member
    rw [none] at member
    exact absurd member List.not_mem_nil
  | next before _ taken ih => exact begun_step ih (Sessions.sound_of_reachable before) taken

theorem gone_exec {first : Nat} {acts : List (SessionAct ν)} (gone : Gone id first world)
    (sound : world.Sound toLowerCase True)
    (ran : Run.exec (Sessions.step toLowerCase url) world acts = some after) : Gone id first after := by
  induction acts generalizing world with
  | nil =>
    cases ran
    exact gone
  | cons act rest ih =>
    obtain ⟨next, taken, ran⟩ := Option.bind_eq_some_iff.mp ran
    exact ih (gone.step sound taken) (sound.step (.inl trivial) taken) ran

/-- A session that is gone stays gone, whatever calls of it are under way, and none that begins
after that is served. -/
theorem deleted_session_stays_out {acts : List (SessionAct ν)}
    (reached : Run.Reachable (Sessions.step toLowerCase url) Sessions.Fresh world)
    (created : id ∈ world.created) (gone : world.stored id = none)
    (ran : Run.exec (Sessions.step toLowerCase url) world acts = some after) :
    after.stored id = none ∧
    ∀ serving ∈ after.servings, serving.session.id = id → serving.call < world.calls.length := by
  have start : Gone id world.calls.length world := by
    refine ⟨created, Table.findUnique_eq_none.mp gone, ?_, ?_⟩
    · intro index call late read
      exact absurd (List.getElem?_eq_some_iff.mp read).1 (Nat.not_lt_of_le late)
    · intro serving member _
      exact begun_of_reachable reached serving member
  have last := gone_exec start (Sessions.sound_of_reachable reached) ran
  exact ⟨Table.findUnique_eq_none.mpr last.absent, last.servings⟩

end Turns

/-- A session, a call of it that asks the provider, and one that finds it just confirmed. -/
def askedOnce : List (SessionAct Int) :=
  [.create { createdAt := 0, expiresAt := 2592000000, id := "s", accessToken := some "AT" } "sub",
    .tick 400000, .call "s", .call "s", .advance 0 true, .advance 0 true, .refreshed 0 (.kept false),
    .answered 0 (.claims []), .advance 0 true, .advance 0 true, .advance 1 true, .advance 1 true,
    .refreshed 1 (.kept false), .delete "s"]

/-- One more call, which comes too late. -/
def lateCall : List (SessionAct Int) := [.call "s", .advance 2 true]

def crewSessions : Sessions Int := { config := some (.oidc boothCrew) }

def crewClaims : Claims Int :=
  [("sub", .str "s1"), ("email", .str "One@booth.example"), ("groups", .arr [.str "crew"])]

def guestClaims : Claims Int :=
  [("sub", .str "s1"), ("email", .str "One@booth.example"), ("groups", .arr [.str "guests"])]

/-- A session, a call of it whose claims are accepted, one that finds it just confirmed, and one whose
claims are refused while the database does not answer. -/
def refusedUnanswered : List (SessionAct Int) :=
  [.create { createdAt := 0, expiresAt := 2592000000, id := "s", accessToken := some "AT" } "s1",
    .tick 400000, .call "s", .advance 0 true, .advance 0 true, .refreshed 0 (.kept false),
    .answered 0 (.claims crewClaims), .advance 0 true, .advance 0 true, .call "s", .advance 1 true,
    .advance 1 true, .refreshed 1 (.kept false), .tick 400000, .call "s", .advance 2 true,
    .advance 2 true, .refreshed 2 (.kept false), .answered 2 (.claims guestClaims), .advance 2 true,
    .advance 2 false, .advance 2 true]

theorem served_sessions_confirmed_refusedUnanswered :
    ∃ world, Run.exec (Sessions.step id some) crewSessions refusedUnanswered = some world ∧
      world.servings.map Serving.basis = [.unconfirmed, .recent 400000, .confirmed] ∧
      world.checks.map Check.at_ = [800000, 400000, 0] ∧
      (∀ serving ∈ world.servings,
        accessTokenIsFresh serving.at_ serving.session.toStoredSession = false ∨
        serving.session.accessToken = none ∨
        ∃ check ∈ world.checks, check.sessionId = serving.session.id ∧ check.at_ ≤ world.now ∧
          serving.at_ - check.at_ < revalidateIntervalMs world.sessionRevalidateSeconds) ∧
      ∀ check ∈ world.checks, ∀ claims, check.kind = .refused claims →
        validateAuthorization id boothCrew claims (groupsFromClaims claims) ≠ none := by
  obtain ⟨world, ran⟩ : ∃ world,
    Run.exec (Sessions.step id some) crewSessions refusedUnanswered = some world := ⟨_, rfl⟩
  have fresh : Sessions.Fresh crewSessions := ⟨rfl, rfl, rfl, rfl, rfl, rfl⟩
  have enabled : world.config = some (.oidc boothCrew) := by
    cases ran
    rfl
  obtain ⟨founded, kinds, -⟩ := served_sessions_confirmed (Run.reachable_of_exec fresh ran) enabled
  refine ⟨world, ran, ?_, ?_, founded, ?_⟩
  · cases ran
    rfl
  · cases ran
    rfl
  · intro check member claims refused
    have kind := kinds check member
    rw [refused] at kind
    exact kind.2

theorem deleted_session_stays_out_lateCall :
    ∃ world after, Run.exec (Sessions.step id some) crewSessions askedOnce = some world ∧
      Run.exec (Sessions.step id some) world lateCall = some after ∧ after.stored "s" = none ∧
      ∀ serving ∈ after.servings, serving.session.id = "s" → serving.call < world.calls.length := by
  obtain ⟨world, ran⟩ : ∃ world,
    Run.exec (Sessions.step id some) crewSessions askedOnce = some world := ⟨_, rfl⟩
  obtain ⟨after, later⟩ : ∃ after, Run.exec (Sessions.step id some) world lateCall = some after := by
    cases ran
    exact ⟨_, rfl⟩
  have fresh : Sessions.Fresh crewSessions := ⟨rfl, rfl, rfl, rfl, rfl, rfl⟩
  have created : "s" ∈ world.created := by
    cases ran
    exact List.mem_cons_self
  have gone : world.stored "s" = none := by
    cases ran
    rfl
  have out := deleted_session_stays_out (Run.reachable_of_exec fresh ran) created gone later
  exact ⟨world, after, ran, later, out⟩

end Runs

end BoothOperator.Access
