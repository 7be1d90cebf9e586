import BoothOperator.Access.ClientIp
import BoothOperator.Lib.Json
import BoothOperator.Lib.Run
import BoothOperator.Lib.Table

/-! `lib/operator-user.ts`: who is an operator. Verified claims are held against the allow-lists of
the configuration, and those that pass become the row of their subject, from the callback of a
login, from a bearer token and from the revalidation of a session alike. The email of a row is unique
too, so that claims with the email of another subject are not stored. -/
namespace BoothOperator.Access

open BoothOperator.Json (Value)
open BoothOperator.TranslationText (trim)

/-! ## The configuration -/

/-- The environment of the process. -/
abbrev Env := String → Option String

structure OidcRuntimeConfig where
  providerName : String
  issuer : String
  clientId : String
  clientSecret : String
  redirectUri : String
  postLogoutRedirectUri : Option String
  scopes : String
  allowedGroups : List String
  allowedEmails : List String
  adminGroups : List String
  mobileAudiences : List String
  mobileIssuers : List String
  deriving DecidableEq

inductive AuthConfig where
  | oidc (config : OidcRuntimeConfig)
  | disabled (providerName : String)
  deriving DecidableEq

def DEFAULT_SCOPES : String := "openid email profile offline_access"

def AUTH_DOC : String := "docs/authentik-setup.md"

/-- `value`: the text without the white space around it, when there is any. -/
def value (input : Option String) : Option String := (input.map trim).filter (· ≠ "")

def first (inputs : List (Option String)) : Option String := inputs.findSome? value

/-- The `csv` of the configuration is the one of the trusted proxies. -/
def csv (input : Option String) : List String :=
  (ClientIp.csv (input.map String.toList)).map String.ofList

def missingVariables (needed : List (String × Option String)) : List String :=
  (needed.filter fun entry => entry.2.isNone).map (·.1)

def missingMessage (names : List String) : String :=
  "OIDC authentication is not configured. Missing " ++ ", ".intercalate names ++ ". See " ++
    AUTH_DOC ++ " or set AUTH_DISABLED=true for local development only."

/-- `throw` is the text of an `AuthConfigurationError`. `String.prototype.toLowerCase` is a
parameter. -/
def resolveAuthConfig (toLowerCase : String → String) (env : Env) : Except String AuthConfig := do
  let providerName :=
    (first [env "OIDC_PROVIDER_NAME", env "AUTHENTIK_PROVIDER_NAME"]).getD "Authentik"
  if env "AUTH_DISABLED" = some "true" then return .disabled providerName
  let issuer := first [env "OIDC_ISSUER", env "AUTHENTIK_ISSUER"]
  let clientId := first [env "OIDC_CLIENT_ID", env "AUTHENTIK_CLIENT_ID"]
  let clientSecret := first [env "OIDC_CLIENT_SECRET", env "AUTHENTIK_CLIENT_SECRET"]
  let redirectUri := first [env "OIDC_REDIRECT_URI", env "AUTHENTIK_REDIRECT_URI"]
  let missing := missingVariables
    [("OIDC_ISSUER or AUTHENTIK_ISSUER", issuer), ("OIDC_CLIENT_ID or AUTHENTIK_CLIENT_ID", clientId),
      ("OIDC_CLIENT_SECRET or AUTHENTIK_CLIENT_SECRET", clientSecret),
      ("OIDC_REDIRECT_URI or AUTHENTIK_REDIRECT_URI", redirectUri)]
  match issuer, clientId, clientSecret, redirectUri with
  | some issuer, some clientId, some clientSecret, some redirectUri =>
    return .oidc {
      providerName
      issuer
      clientId
      clientSecret
      redirectUri
      postLogoutRedirectUri := first
        [env "OIDC_POST_LOGOUT_REDIRECT_URI", env "AUTHENTIK_POST_LOGOUT_REDIRECT_URI"]
      scopes := (first [env "OIDC_SCOPES", env "AUTHENTIK_SCOPES"]).getD DEFAULT_SCOPES
      allowedGroups := csv (first [env "OIDC_ALLOWED_GROUPS", env "AUTHENTIK_ALLOWED_GROUPS",
        env "OIDC_REQUIRED_GROUP", env "AUTHENTIK_REQUIRED_GROUP"])
      allowedEmails := (csv (first [env "OIDC_ALLOWED_EMAILS", env "AUTHENTIK_ALLOWED_EMAILS"])).map
        toLowerCase
      adminGroups := csv (first [env "OIDC_ADMIN_GROUPS", env "AUTHENTIK_ADMIN_GROUPS",
        env "OIDC_ADMIN_GROUP", env "AUTHENTIK_ADMIN_GROUP"])
      mobileAudiences := csv (first [env "OIDC_MOBILE_AUDIENCES", env "OIDC_MOBILE_CLIENT_IDS",
        env "AUTHENTIK_MOBILE_AUDIENCES", env "AUTHENTIK_MOBILE_CLIENT_IDS"])
      mobileIssuers := csv (first [env "OIDC_MOBILE_ISSUERS", env "OIDC_MOBILE_ISSUER",
        env "AUTHENTIK_MOBILE_ISSUERS", env "AUTHENTIK_MOBILE_ISSUER"]) }
  | _, _, _, _ => throw (missingMessage missing)

/-- The variables that can let anyone in. -/
def allowListVariables : List String :=
  ["OIDC_ALLOWED_GROUPS", "AUTHENTIK_ALLOWED_GROUPS", "OIDC_REQUIRED_GROUP",
    "AUTHENTIK_REQUIRED_GROUP", "OIDC_ALLOWED_EMAILS", "AUTHENTIK_ALLOWED_EMAILS"]

theorem csv_none : csv none = [] := by
  rfl

/-- Variables that are not set, or blank, list nobody. -/
theorem lists_empty_of_blank {toLowerCase : String → String} {env : Env} {config : OidcRuntimeConfig}
    (blank : ∀ name ∈ allowListVariables, value (env name) = none)
    (resolved : resolveAuthConfig toLowerCase env = .ok (.oidc config)) :
    config.allowedGroups = [] ∧ config.allowedEmails = [] := by
  have groups : first [env "OIDC_ALLOWED_GROUPS", env "AUTHENTIK_ALLOWED_GROUPS",
      env "OIDC_REQUIRED_GROUP", env "AUTHENTIK_REQUIRED_GROUP"] = none := by
    simp only [first, List.findSome?_cons, List.findSome?_nil]
    simp [blank _ (by decide : "OIDC_ALLOWED_GROUPS" ∈ allowListVariables),
      blank _ (by decide : "AUTHENTIK_ALLOWED_GROUPS" ∈ allowListVariables),
      blank _ (by decide : "OIDC_REQUIRED_GROUP" ∈ allowListVariables),
      blank _ (by decide : "AUTHENTIK_REQUIRED_GROUP" ∈ allowListVariables)]
  have emails : first [env "OIDC_ALLOWED_EMAILS", env "AUTHENTIK_ALLOWED_EMAILS"] = none := by
    simp only [first, List.findSome?_cons, List.findSome?_nil]
    simp [blank _ (by decide : "OIDC_ALLOWED_EMAILS" ∈ allowListVariables),
      blank _ (by decide : "AUTHENTIK_ALLOWED_EMAILS" ∈ allowListVariables)]
  simp only [resolveAuthConfig, groups, emails, csv_none, List.map_nil] at resolved
  split at resolved
  · cases resolved
  · split at resolved
    · cases resolved
      exact ⟨rfl, rfl⟩
    · cases resolved

/-! ## The claims -/

section Claims

variable {ν : Type} (toLowerCase : String → String) (url : String → Option String)

/-- The claims of a verified token or of a userinfo response. -/
abbrev Claims (ν : Type) := List (String × Value ν)

def claimString (claims : Claims ν) (name : String) : Option String :=
  match Value.lookup name claims with
  | some (.str text) => if trim text = "" then none else some text
  | _ => none

def asGroup : Value ν → Option String
  | .str group => some group
  | _ => none

def groupsFromClaims (claims : Claims ν) : List String :=
  match Value.lookup "groups" claims with
  | some (.arr groups) => groups.filterMap asGroup
  | _ => []

def isAdminFromGroups (config : OidcRuntimeConfig) (groups : List String) : Bool :=
  if config.adminGroups.length = 0 then false
  else groups.any fun group => group ∈ config.adminGroups

/-- `url` is the text of the URL that `new URL` makes of a text, unless it throws. -/
def pictureFromClaims (claims : Claims ν) : Option String :=
  (claimString claims "picture").bind url

def validateAuthorization (config : OidcRuntimeConfig) (claims : Claims ν) (groups : List String) :
    Option String :=
  let email := (claimString claims "email").map toLowerCase
  if config.allowedGroups.length = 0 ∧ config.allowedEmails.length = 0 then
    some "No operator allow-list is configured. Access denied."
  else if 0 < config.allowedEmails.length ∧ ∀ one, email = some one →
      one = "" ∨ one ∉ config.allowedEmails then
    some "This email is not authorized for this booth."
  else if 0 < config.allowedGroups.length ∧ ¬groups.any fun group => group ∈ config.allowedGroups then
    some "This account is not in an authorized operator group."
  else none

/-! ## The rows -/

structure OperatorUser where
  id : String
  oidcSub : String
  email : String
  name : String
  groups : List String
  picture : Option String
  isAdmin : Bool
  lastLoginAt : Int
  lastSeenAt : Int
  deriving DecidableEq

structure Refusal where
  status : Nat
  reason : String
  deriving DecidableEq

/-- What is upserted for claims that are authorized. -/
def operatorOf (config : OidcRuntimeConfig) (now : Int) (claims : Claims ν) :
    Except Refusal OperatorUser :=
  let groups := groupsFromClaims claims
  match validateAuthorization toLowerCase config claims groups with
  | some reason => .error ⟨403, reason⟩
  | none =>
    match claimString claims "email" with
    | none => .error ⟨400, "missing_email_claim"⟩
    | some email =>
      match Value.lookup "sub" claims with
      | some (.str sub) =>
        if sub = "" then .error ⟨400, "missing_sub_claim"⟩
        else .ok {
          id := sub
          oidcSub := sub
          email
          name := ((claimString claims "name").or (claimString claims "preferred_username")).getD email
          groups
          picture := pictureFromClaims url claims
          isAdmin := isAdminFromGroups config groups
          lastLoginAt := now
          lastSeenAt := now }
      | _ => .error ⟨400, "missing_sub_claim"⟩

/-- The update of a row that is there: it keeps its id, and its login unless this is one. -/
def updateOperator (markLogin : Bool) (old new : OperatorUser) : OperatorUser :=
  { new with
    id := old.id
    lastLoginAt := if markLogin then new.lastLoginAt else old.lastLoginAt }

/-- The row of another subject has the email that the upsert writes, or the id that it creates. -/
def violatesUnique (user : OperatorUser) (operatorUser : List OperatorUser) : Bool :=
  (operatorUser.any fun row => row.oidcSub ≠ user.oidcSub ∧ row.email = user.email) ||
    ((operatorUser.all fun row => row.oidcSub ≠ user.oidcSub) &&
      operatorUser.any fun row => row.id = user.id)

/-- The table after the call, and the row that is returned. Nothing is written when the upsert throws
`P2002`. -/
def authorizeAndUpsertOperator (config : AuthConfig) (now : Int) (markLogin : Bool)
    (claims : Claims ν) (operatorUser : List OperatorUser) :
    Option (List OperatorUser × Except Refusal OperatorUser) :=
  match config with
  | .disabled _ => some (operatorUser, .error ⟨403, "auth_disabled"⟩)
  | .oidc config =>
    match operatorOf toLowerCase url config now claims with
    | .error refusal => some (operatorUser, .error refusal)
    | .ok user =>
      if violatesUnique user operatorUser then none
      else
        let rows := Table.upsert OperatorUser.oidcSub (updateOperator markLogin) user operatorUser
        some (rows, .ok ((Table.findUnique OperatorUser.oidcSub user.oidcSub rows).getD user))

def hasGroups (claims : Claims ν) : Bool :=
  match Value.lookup "groups" claims with
  | some (.arr _) => true
  | _ => false

/-- A refusal with a 400 says that the claims are not complete, and revokes nothing. -/
def revalidateOperatorFromClaims (config : AuthConfig) (now : Int) (claims : Claims ν)
    (operatorUser : List OperatorUser) :
    Option (List OperatorUser × Except String (Option OperatorUser)) :=
  if hasGroups claims = false then some (operatorUser, .ok none)
  else match authorizeAndUpsertOperator toLowerCase url config now false claims operatorUser with
    | none => none
    | some (rows, .ok user) => some (rows, .ok (some user))
    | some (rows, .error refusal) =>
      if refusal.status = 403 then some (rows, .error refusal.reason) else some (rows, .ok none)

end Claims

/-! ## Runs -/

/-- Where claims come from. -/
inductive Source where
  | login | bearer | revalidation
  deriving DecidableEq

/-- Verified claims come in, some time after the last ones. -/
structure Arrival (ν : Type) where
  source : Source
  after : Nat
  claims : Claims ν

structure Operators where
  now : Int := 0
  operatorUser : List OperatorUser := []
  deriving DecidableEq

section Runs

variable {ν : Type} (toLowerCase : String → String) (url : String → Option String)
  (config : AuthConfig)

def Operators.step (world : Operators) (arrival : Arrival ν) : Option Operators :=
  let now := world.now + arrival.after
  let rows := match arrival.source with
    | .login => (authorizeAndUpsertOperator toLowerCase url config now true arrival.claims
        world.operatorUser).map Prod.fst
    | .bearer => (authorizeAndUpsertOperator toLowerCase url config now false arrival.claims
        world.operatorUser).map Prod.fst
    | .revalidation => (revalidateOperatorFromClaims toLowerCase url config now arrival.claims
        world.operatorUser).map Prod.fst
  some { now, operatorUser := rows.getD world.operatorUser }

def Operators.Fresh (world : Operators) : Prop := world.operatorUser = []

/-- What the configuration asks of an operator. -/
structure Allowed (config : OidcRuntimeConfig) (user : OperatorUser) : Prop where
  listed : config.allowedGroups ≠ [] ∨ config.allowedEmails ≠ []
  email : config.allowedEmails ≠ [] → toLowerCase user.email ∈ config.allowedEmails
  group : config.allowedGroups ≠ [] → ∃ group ∈ user.groups, group ∈ config.allowedGroups
  admin : user.isAdmin = true ↔ ∃ group ∈ user.groups, group ∈ config.adminGroups

/-- The row of an arrival that is authorized, as of now. -/
def Arrival.accepted (config : OidcRuntimeConfig) (now : Int) (arrival : Arrival ν) :
    Option OperatorUser :=
  if arrival.source = .revalidation ∧ hasGroups arrival.claims = false then none
  else (operatorOf toLowerCase url config now arrival.claims).toOption

/-- The row of an arrival that the unique columns let in. -/
def Arrival.stored (config : OidcRuntimeConfig) (now : Int) (operatorUser : List OperatorUser)
    (arrival : Arrival ν) : Option OperatorUser :=
  (arrival.accepted toLowerCase url config now).filter fun user => !violatesUnique user operatorUser

/-- The last of the subject that is authorized and stored. -/
def latestStored (config : OidcRuntimeConfig) (sub : String) : Operators → List (Arrival ν) →
    Option OperatorUser
  | _, [] => none
  | world, arrival :: rest =>
    match world.step toLowerCase url (.oidc config) arrival with
    | none => none
    | some next => (latestStored config sub next rest).or
      ((arrival.stored toLowerCase url config next.now world.operatorUser).filter (·.oidcSub = sub))

/-- Those that are authorized, the last one first. -/
def allAccepted (config : OidcRuntimeConfig) : Int → List (Arrival ν) → List OperatorUser
  | _, [] => []
  | now, arrival :: rest =>
    let now := now + arrival.after
    allAccepted config now rest ++ (arrival.accepted toLowerCase url config now).toList

/-- No two subjects share an email. -/
def EmailsApart (users : List OperatorUser) : Prop :=
  ∀ one ∈ users, ∀ other ∈ users, one.email = other.email → one.oidcSub = other.oidcSub

/-- What of a row its last claims have decided. -/
def profile (user : OperatorUser) :
    String × String × String × List String × Option String × Bool × Int :=
  (user.oidcSub, user.email, user.name, user.groups, user.picture, user.isAdmin, user.lastSeenAt)

end Runs

section Runs

variable {ν : Type} {toLowerCase : String → String} {url : String → Option String}
  {config : OidcRuntimeConfig} {claims : Claims ν} {groups : List String} {now : Int}
  {user : OperatorUser} {operatorUser : List OperatorUser} {world after : Operators}
  {arrival : Arrival ν}

theorem validateAuthorization_eq_none
    (none : validateAuthorization toLowerCase config claims groups = none) :
    (config.allowedGroups ≠ [] ∨ config.allowedEmails ≠ []) ∧
    (config.allowedEmails ≠ [] → ∃ email, claimString claims "email" = some email ∧
      toLowerCase email ∈ config.allowedEmails) ∧
    (config.allowedGroups ≠ [] → ∃ group ∈ groups, group ∈ config.allowedGroups) := by
  simp only [validateAuthorization] at none
  split at none
  · cases none
  rename_i listed
  split at none
  · cases none
  rename_i email
  split at none
  · cases none
  rename_i group
  refine ⟨?_, ?_, ?_⟩
  · by_contra neither
    obtain ⟨no, nor⟩ := not_or.mp neither
    exact listed ⟨by simpa using no, by simpa using nor⟩
  · intro some
    have listed : 0 < config.allowedEmails.length := List.length_pos_iff.mpr some
    have found := not_and.mp email listed
    push Not at found
    obtain ⟨one, read, -, member⟩ := found
    obtain ⟨email, its, rfl⟩ := Option.map_eq_some_iff.mp read
    exact ⟨email, its, member⟩
  · intro some
    have listed : 0 < config.allowedGroups.length := List.length_pos_iff.mpr some
    have found := not_not.mp (not_and.mp group listed)
    obtain ⟨group, member, allowed⟩ := List.any_eq_true.mp found
    exact ⟨group, member, of_decide_eq_true allowed⟩

theorem isAdminFromGroups_iff :
    isAdminFromGroups config groups = true ↔ ∃ group ∈ groups, group ∈ config.adminGroups := by
  unfold isAdminFromGroups
  split
  · rename_i empty
    simp [List.length_eq_zero_iff.mp empty]
  · simp

/-- What is upserted is an operator. -/
theorem operatorOf_eq_ok (made : operatorOf toLowerCase url config now claims = .ok user) :
    Allowed toLowerCase config user ∧ user.id = user.oidcSub ∧ user.lastLoginAt = now ∧
      user.lastSeenAt = now := by
  simp only [operatorOf] at made
  split at made
  · cases made
  rename_i valid
  split at made
  · cases made
  rename_i email read
  split at made
  · split at made
    · cases made
    · cases made
      obtain ⟨listed, emails, groups⟩ := validateAuthorization_eq_none valid
      refine ⟨⟨listed, ?_, groups, isAdminFromGroups_iff⟩, rfl, rfl, rfl⟩
      intro some
      obtain ⟨one, its, member⟩ := emails some
      cases read.symm.trans its
      exact member
  · cases made

/-- An arrival upserts the row of its claims when they are authorized and no unique column is in the
way, and else does nothing. -/
theorem rows_step (taken : world.step toLowerCase url (.oidc config) arrival = some after) :
    after.now = world.now + arrival.after ∧
    after.operatorUser =
      match arrival.stored toLowerCase url config after.now world.operatorUser with
      | none => world.operatorUser
      | some user => Table.upsert OperatorUser.oidcSub
          (updateOperator (arrival.source = .login)) user world.operatorUser := by
  cases taken
  refine ⟨rfl, ?_⟩
  obtain ⟨source, wait, claims⟩ := arrival
  cases source with
  | login | bearer =>
    simp only [Arrival.stored, Arrival.accepted, authorizeAndUpsertOperator]
    cases operatorOf toLowerCase url config (world.now + wait) claims with
    | error refusal => simp [Except.toOption]
    | ok user =>
      cases clash : violatesUnique user world.operatorUser with
      | true => simp [Except.toOption, Option.filter_some, clash]
      | false => simp [Except.toOption, Option.filter_some, clash]
  | revalidation =>
    simp only [Arrival.stored, Arrival.accepted, revalidateOperatorFromClaims,
      authorizeAndUpsertOperator]
    cases hasGroups claims with
    | false => simp
    | true =>
      cases operatorOf toLowerCase url config (world.now + wait) claims with
      | error refusal =>
        by_cases denied : refusal.status = 403
        · simp [Except.toOption, denied]
        · simp [Except.toOption, denied]
      | ok user =>
        cases clash : violatesUnique user world.operatorUser with
        | true => simp [Except.toOption, Option.filter_some, clash]
        | false => simp [Except.toOption, Option.filter_some, clash]

theorem accepted_operator (accepted : arrival.accepted toLowerCase url config now = some user) :
    Allowed toLowerCase config user ∧ user.id = user.oidcSub ∧ user.lastLoginAt = now ∧
      user.lastSeenAt = now := by
  unfold Arrival.accepted at accepted
  split at accepted
  · cases accepted
  · cases made : operatorOf toLowerCase url config now arrival.claims with
    | error refusal =>
      rw [made] at accepted
      cases accepted
    | ok found =>
      rw [made] at accepted
      cases accepted
      exact operatorOf_eq_ok made

theorem stored_operator
    (stored : arrival.stored toLowerCase url config now operatorUser = some user) :
    arrival.accepted toLowerCase url config now = some user ∧
      violatesUnique user operatorUser = false := by
  obtain ⟨accepted, unique⟩ := Option.filter_eq_some_iff.mp stored
  exact ⟨accepted, by simpa using unique⟩

/-- Only the row of its own subject has the email of a row that is upserted. -/
theorem email_own (unique : violatesUnique user operatorUser = false) :
    ∀ row ∈ operatorUser, row.email = user.email → row.oidcSub = user.oidcSub := by
  intro row member same
  by_contra other
  have clash : (operatorUser.any fun row => row.oidcSub ≠ user.oidcSub ∧ row.email = user.email) =
      true := List.any_eq_true.mpr ⟨row, member, decide_eq_true ⟨other, same⟩⟩
  rw [violatesUnique, clash] at unique
  cases unique

/-- What holds of every row. -/
structure OperatorUser.Sound (toLowerCase : String → String) (config : OidcRuntimeConfig) (now : Int)
    (user : OperatorUser) : Prop where
  allowed : Allowed toLowerCase config user
  id : user.id = user.oidcSub
  login : user.lastLoginAt ≤ user.lastSeenAt
  seen : user.lastSeenAt ≤ now

structure Operators.Sound (toLowerCase : String → String) (config : OidcRuntimeConfig)
    (world : Operators) : Prop where
  rows : ∀ user ∈ world.operatorUser, user.Sound toLowerCase config world.now
  distinct : (world.operatorUser.map OperatorUser.oidcSub).Nodup
  emails : EmailsApart world.operatorUser

theorem mem_upsert {merge : OperatorUser → OperatorUser → OperatorUser} {row found : OperatorUser}
    {rows : List OperatorUser} (member : found ∈ Table.upsert OperatorUser.oidcSub merge row rows) :
    found ∈ rows ∨ found = row ∨ ∃ old ∈ rows, old.oidcSub = row.oidcSub ∧ found = merge old row := by
  unfold Table.upsert at member
  split at member
  · obtain ⟨old, there, same⟩ := Table.mem_updateMany.mp member
    split at same
    · rename_i key
      exact .inr (.inr ⟨old, there, of_decide_eq_true key, same⟩)
    · exact .inl (same ▸ there)
  · rcases List.mem_append.mp member with old | new
    · exact .inl old
    · exact .inr (.inl (List.mem_singleton.mp new))

/-- A row after an upsert is an old one of another subject, or has the new email. -/
theorem email_upsert {markLogin : Bool} {found : OperatorUser} (member : found ∈
      Table.upsert OperatorUser.oidcSub (updateOperator markLogin) user operatorUser) :
    found ∈ operatorUser ∨ found.oidcSub = user.oidcSub ∧ found.email = user.email := by
  rcases mem_upsert member with there | rfl | ⟨old, -, -, rfl⟩
  · exact .inl there
  · exact .inr ⟨rfl, rfl⟩
  · exact .inr ⟨rfl, rfl⟩

theorem emailsApart_upsert {markLogin : Bool} (apart : EmailsApart operatorUser)
    (own : ∀ row ∈ operatorUser, row.email = user.email → row.oidcSub = user.oidcSub) :
    EmailsApart (Table.upsert OperatorUser.oidcSub (updateOperator markLogin) user operatorUser) := by
  intro one first other second same
  rcases email_upsert first with old | ⟨sub, email⟩
  · rcases email_upsert second with former | ⟨its, written⟩
    · exact apart one old other former same
    · exact (own one old (same.trans written)).trans its.symm
  · rcases email_upsert second with former | ⟨its, written⟩
    · exact sub.trans (own other former (same.symm.trans email)).symm
    · exact sub.trans its.symm

theorem Operators.Sound.step (sound : world.Sound toLowerCase config)
    (taken : world.step toLowerCase url (.oidc config) arrival = some after) :
    after.Sound toLowerCase config := by
  obtain ⟨later, rows⟩ := rows_step taken
  have old (user : OperatorUser) (member : user ∈ world.operatorUser) :
      user.Sound toLowerCase config after.now := by
    obtain ⟨allowed, id, login, seen⟩ := sound.rows user member
    exact ⟨allowed, id, login, by omega⟩
  cases stored : arrival.stored toLowerCase url config after.now world.operatorUser with
  | none =>
    rw [stored] at rows
    simp only at rows
    refine ⟨?_, ?_, ?_⟩
    · rw [rows]
      exact old
    · rw [rows]
      exact sound.distinct
    · rw [rows]
      exact sound.emails
  | some user =>
    rw [stored] at rows
    simp only at rows
    obtain ⟨accepted, unique⟩ := stored_operator stored
    obtain ⟨allowed, id, login, seen⟩ := accepted_operator accepted
    refine ⟨?_, ?_, ?_⟩
    · rw [rows]
      intro found member
      rcases mem_upsert member with there | rfl | ⟨before, there, same, rfl⟩
      · exact old found there
      · exact ⟨allowed, id, by omega, by omega⟩
      · have was := old before there
        refine ⟨⟨allowed.listed, allowed.email, allowed.group, allowed.admin⟩, was.id.trans same, ?_, ?_⟩
        · have kept := was.login
          have past := was.seen
          simp only [updateOperator]
          split
          · omega
          · omega
        · exact Int.le_of_eq seen
    · rw [rows]
      exact Table.nodup_upsert (fun _ => rfl) sound.distinct
    · rw [rows]
      exact emailsApart_upsert sound.emails (email_own unique)

/-- The row of a subject after a run is that of its last stored claims, or else the one it had. -/
theorem profile_exec {arrivals : List (Arrival ν)} (sub : String)
    (ran : Run.exec (Operators.step toLowerCase url (.oidc config)) world arrivals = some after) :
    (Table.findUnique OperatorUser.oidcSub sub after.operatorUser).map profile =
      ((latestStored toLowerCase url config sub world arrivals).or
        (Table.findUnique OperatorUser.oidcSub sub world.operatorUser)).map profile := by
  induction arrivals generalizing world with
  | nil =>
    cases ran
    rfl
  | cons arrival rest ih =>
    obtain ⟨next, taken, ran⟩ := Option.bind_eq_some_iff.mp ran
    obtain ⟨-, rows⟩ := rows_step taken
    rw [ih ran, latestStored, taken]
    simp only
    cases latestStored toLowerCase url config sub next rest with
    | some last => rfl
    | none =>
      simp only [Option.none_or]
      cases stored : arrival.stored toLowerCase url config next.now world.operatorUser with
      | none =>
        rw [stored] at rows
        simp only at rows
        rw [rows]
        rfl
      | some user =>
        rw [stored] at rows
        simp only at rows
        rw [rows, Table.findUnique_upsert fun _ => rfl]
        by_cases own : user.oidcSub = sub
        · rw [if_pos own, Option.filter_some, if_pos (decide_eq_true own)]
          cases Table.findUnique OperatorUser.oidcSub sub world.operatorUser with
          | none => rfl
          | some old => rfl
        · have other : ¬decide (user.oidcSub = sub) = true := fun same => own (of_decide_eq_true same)
          rw [if_neg own, Option.filter_some, if_neg other, Option.none_or]

/-- Among emails of their own, the unique columns are in no one's way. -/
theorem violatesUnique_of_apart (sound : world.Sound toLowerCase config)
    (id : user.id = user.oidcSub)
    (own : ∀ row ∈ world.operatorUser, row.email = user.email → row.oidcSub = user.oidcSub) :
    violatesUnique user world.operatorUser = false := by
  simp only [violatesUnique, Bool.or_eq_false_iff, Bool.and_eq_false_iff, List.any_eq_false,
    List.all_eq_false]
  refine ⟨?_, ?_⟩
  · intro row member clash
    obtain ⟨other, same⟩ := of_decide_eq_true clash
    exact other (own row member same)
  · by_cases known : ∃ row ∈ world.operatorUser, row.oidcSub = user.oidcSub
    · obtain ⟨row, member, same⟩ := known
      exact .inl ⟨row, member, by simp [same]⟩
    · refine .inr fun row member clash => known ⟨row, member, ?_⟩
      rw [← (sound.rows row member).id, ← id]
      exact of_decide_eq_true clash

/-- Where no two subjects share an email, what is authorized is stored. -/
theorem latestStored_of_apart {arrivals : List (Arrival ν)} (sub : String)
    (sound : world.Sound toLowerCase config)
    (apart : EmailsApart (world.operatorUser ++ allAccepted toLowerCase url config world.now arrivals)) :
    latestStored toLowerCase url config sub world arrivals =
      (allAccepted toLowerCase url config world.now arrivals).find? (·.oidcSub = sub) := by
  induction arrivals generalizing world with
  | nil => rfl
  | cons arrival rest ih =>
    obtain ⟨next, taken⟩ : ∃ next, world.step toLowerCase url (.oidc config) arrival = some next :=
      ⟨_, rfl⟩
    obtain ⟨later, rows⟩ := rows_step taken
    simp only [allAccepted, ← later] at apart ⊢
    have stored : arrival.stored toLowerCase url config next.now world.operatorUser =
        arrival.accepted toLowerCase url config next.now := by
      rw [Arrival.stored]
      cases accepted : arrival.accepted toLowerCase url config next.now with
      | none => rfl
      | some user =>
        have unique : violatesUnique user world.operatorUser = false := by
          refine violatesUnique_of_apart sound (accepted_operator accepted).2.1 ?_
          intro row member
          exact apart row (List.mem_append_left _ member) user (by simp [accepted])
        rw [Option.filter_some, unique]
        rfl
    have onward : EmailsApart
        (next.operatorUser ++ allAccepted toLowerCase url config next.now rest) := by
      -- a row of the next table has the subject and the email of one that was there
      have from_ (one : OperatorUser)
          (member : one ∈ next.operatorUser ++ allAccepted toLowerCase url config next.now rest) :
          ∃ old ∈ world.operatorUser ++ (allAccepted toLowerCase url config next.now rest ++
            (arrival.accepted toLowerCase url config next.now).toList),
            old.oidcSub = one.oidcSub ∧ old.email = one.email := by
        rcases List.mem_append.mp member with row | coming
        · rw [rows, stored] at row
          cases accepted : arrival.accepted toLowerCase url config next.now with
          | none =>
            rw [accepted] at row
            exact ⟨one, List.mem_append_left _ row, rfl, rfl⟩
          | some user =>
            rw [accepted] at row
            rcases email_upsert row with there | ⟨same, email⟩
            · exact ⟨one, List.mem_append_left _ there, rfl, rfl⟩
            · exact ⟨user, by simp, same.symm, email.symm⟩
        · exact ⟨one, by simp [coming], rfl, rfl⟩
      intro one first other second same
      obtain ⟨before, member, sub, email⟩ := from_ one first
      obtain ⟨former, there, its, written⟩ := from_ other second
      have agree := apart before member former there (email.trans (same.trans written.symm))
      exact sub.symm.trans (agree.trans its)
    rw [latestStored, taken]
    simp only
    rw [ih (sound.step taken) onward, stored, List.find?_append]
    cases arrival.accepted toLowerCase url config next.now with
    | none => rfl
    | some user => simp [Option.filter_some, List.find?_singleton]

/-- From no operators on, a row is what the last claims of its subject said that were authorized while
no other subject's row had their email; where no two subjects ever share one, that is the last
authorized ones. Each is an operator of the allow-lists, and an admin exactly when one of its groups
is an admin group. Where no variable of the environment lists anyone there are no operators. -/
theorem operators_follow_claims {arrivals : List (Arrival ν)} (fresh : world.Fresh)
    (ran : Run.exec (Operators.step toLowerCase url (.oidc config)) world arrivals = some after) :
    (∀ sub, (Table.findUnique OperatorUser.oidcSub sub after.operatorUser).map profile =
      (latestStored toLowerCase url config sub world arrivals).map profile) ∧
    (EmailsApart (allAccepted toLowerCase url config world.now arrivals) → ∀ sub,
      (Table.findUnique OperatorUser.oidcSub sub after.operatorUser).map profile =
        ((allAccepted toLowerCase url config world.now arrivals).find? (·.oidcSub = sub)).map profile) ∧
    (∀ user ∈ after.operatorUser, Allowed toLowerCase config user ∧ user.id = user.oidcSub ∧
      user.lastLoginAt ≤ user.lastSeenAt) ∧
    (after.operatorUser.map OperatorUser.oidcSub).Nodup ∧ EmailsApart after.operatorUser ∧
    (config.allowedGroups = [] → config.allowedEmails = [] → after.operatorUser = []) ∧
    ∀ env, resolveAuthConfig toLowerCase env = .ok (.oidc config) →
      (∀ name ∈ allowListVariables, value (env name) = none) → after.operatorUser = [] := by
  unfold Operators.Fresh at fresh
  have start : world.Sound toLowerCase config := by
    refine ⟨?_, ?_, ?_⟩
    · rw [fresh]
      exact fun _ member => absurd member List.not_mem_nil
    · rw [fresh]
      exact List.nodup_nil
    · rw [fresh]
      exact fun _ member => absurd member List.not_mem_nil
  have reached : Run.Reachable (Operators.step toLowerCase url (.oidc config))
      (Operators.Sound toLowerCase config) after := Run.reachable_of_exec start ran
  have sound : after.Sound toLowerCase config :=
    reached.invariant (fun _ first => first) fun _ _ _ sound _ taken => sound.step taken
  have follow (sub : String) :
      (Table.findUnique OperatorUser.oidcSub sub after.operatorUser).map profile =
        (latestStored toLowerCase url config sub world arrivals).map profile := by
    rw [profile_exec sub ran, fresh]
    simp [Table.findUnique]
  have nobody (groups : config.allowedGroups = []) (emails : config.allowedEmails = []) :
      after.operatorUser = [] := by
    refine List.eq_nil_iff_forall_not_mem.mpr fun user member => ?_
    rcases (sound.rows user member).allowed.listed with some | some
    · exact some groups
    · exact some emails
  refine ⟨follow, ?_, ?_, sound.distinct, sound.emails, nobody, ?_⟩
  · intro apart sub
    rw [follow sub, latestStored_of_apart sub start]
    rw [fresh]
    exact apart
  · intro user member
    have own := sound.rows user member
    exact ⟨own.allowed, own.id, own.login⟩
  · intro env resolved blank
    obtain ⟨groups, emails⟩ := lists_empty_of_blank blank resolved
    exact nobody groups emails

/-- A configuration with one group, whose operators are admins. -/
def boothCrew : OidcRuntimeConfig where
  providerName := "Authentik"
  issuer := "https://auth.example"
  clientId := "booth"
  clientSecret := "secret"
  redirectUri := "https://booth.example/v1/auth/callback"
  postLogoutRedirectUri := none
  scopes := DEFAULT_SCOPES
  allowedGroups := ["crew"]
  allowedEmails := []
  adminGroups := ["crew"]
  mobileAudiences := []
  mobileIssuers := []

/-- A login, a bearer token of another account with the same email, one of its own, and a userinfo
response of the first account, which has left the group. -/
def joinedThenLeft : List (Arrival Int) :=
  [⟨.login, 5, [("sub", .str "s1"), ("email", .str "One@booth.example"), ("groups", .arr [.str "crew"])]⟩,
    ⟨.bearer, 5, [("sub", .str "s2"), ("email", .str "One@booth.example"), ("groups", .arr [.str "crew"])]⟩,
    ⟨.bearer, 5, [("sub", .str "s3"), ("email", .str "Two@booth.example"), ("groups", .arr [.str "crew"])]⟩,
    ⟨.revalidation, 5,
      [("sub", .str "s1"), ("email", .str "One@booth.example"), ("groups", .arr [.str "guests"])]⟩]

theorem operators_follow_claims_joinedThenLeft :
    ∃ after, Run.exec (Operators.step id some (.oidc boothCrew)) {} joinedThenLeft = some after ∧
      after.operatorUser.map OperatorUser.oidcSub = ["s1", "s3"] ∧
      (∀ sub, (Table.findUnique OperatorUser.oidcSub sub after.operatorUser).map profile =
        (latestStored id some boothCrew sub {} joinedThenLeft).map profile) ∧
      (∀ user ∈ after.operatorUser, Allowed id boothCrew user) ∧ EmailsApart after.operatorUser := by
  obtain ⟨after, ran⟩ : ∃ after,
    Run.exec (Operators.step id some (.oidc boothCrew)) {} joinedThenLeft = some after := ⟨_, rfl⟩
  have fresh : Operators.Fresh {} := rfl
  have follow := operators_follow_claims fresh ran
  refine ⟨after, ran, ?_, follow.1, fun user member => (follow.2.2.1 user member).1,
    follow.2.2.2.2.1⟩
  cases ran
  decide +kernel

end Runs

end BoothOperator.Access
