import BoothOperator.Access.Cookies
import BoothOperator.Access.Lifetime

/-! `authorizeStatusUpgrade`, which its caller awaits without a catch: what rejects it is an
error of the steps outside its `try` blocks. Queries succeed; the checks of a bearer
token are parameters, and may fail. -/
namespace BoothOperator.Access

open BoothOperator.TranslationText (trimChars isJsSpace)

inductive SubscriberKind where
  | operator | worker | monitor
  deriving DecidableEq

def sessionCookieName : String := "__Host-booth_session"

def devSessionCookieName : String := "booth_session"

structure UpgradeEnv where
  sessionEnv : SessionEnv := {}
  now : Int := 0
  production : Bool := true
  sessionSecret : Option String := some "secret"
  generatedCookieSecret : String := "generated"
  /-- `createHmac("sha256", secret).update(payload).digest("base64url")` -/
  hmac : String → String → String
  findSession : String → Option OperatorSession
  /-- whether the token is an operator's -/
  verifyOperatorBearer : String → Except String Bool
  /-- the scope of the API token -/
  verifyToken : String → Except String (Option String)

def getSessionSecret (env : UpgradeEnv) : Except String String :=
  match env.sessionSecret with
  | some configured => .ok configured
  | none =>
    if env.production then .error "SESSION_SECRET is required in production."
    else .ok env.generatedCookieSecret

/-- `verifyCookieValue`, which needs the secret for a value with a dot after its first
character. -/
def verifyCookie (env : UpgradeEnv) (value : Option String) : Except String (Option String) :=
  match value with
  | none => .ok none
  | some text =>
    if '.' ∉ text.toList.tail then .ok none
    else do
      let secret ← getSessionSecret env
      return verifyCookieValue (env.hmac secret) value

/-- The session cookie, or else the one that is read outside production. -/
def presentedCookie (env : UpgradeEnv) (cookieHeader : Option String) :
    Except String (Option String) := do
  match ← cookieValueFromHeader cookieHeader sessionCookieName with
  | some own => return some own
  | none =>
    if env.production then return none
    else cookieValueFromHeader cookieHeader devSessionCookieName

def readSessionFromCookieHeader (env : UpgradeEnv) (cookieHeader : Option String) :
    Except String (Option OperatorSession) := do
  let cookieValue ← presentedCookie env cookieHeader
  let sessionId ← verifyCookie env cookieValue
  return sessionId.bind env.findSession

def isLineTerminator (c : Char) : Bool :=
  c = '\n' || c = '\r' || c.toNat = 0x2028 || c.toNat = 0x2029

/-- `/^Bearer\s+(.+)$/i`, over the trimmed header. -/
def bearerTokenFromHeader (header : Option String) : Option String :=
  match header with
  | none => none
  | some header =>
    let trimmed := trimChars header.toList
    let scheme := trimmed.take 6
    let after := trimmed.drop 6
    let token := after.dropWhile isJsSpace
    if scheme.map Char.toLower ≠ ['b', 'e', 'a', 'r', 'e', 'r'] then none
    else if token = [] ∨ token = after ∨ token.any isLineTerminator then none
    else some (String.ofList (trimChars token))

def kindOfScope (scope : String) : Option SubscriberKind :=
  if scope = "worker" then some .worker
  else if scope = "monitor" then some .monitor
  else if scope = "operator" then some .operator
  else none

/-- Both checks of a token are inside a `try`. -/
def authorizeBearer (env : UpgradeEnv) (token : String) : Option SubscriberKind :=
  match env.verifyOperatorBearer token with
  | .ok true => some .operator
  | _ =>
    match env.verifyToken token with
    | .ok (some scope) => kindOfScope scope
    | _ => none

def authorizeStatusUpgrade (env : UpgradeEnv) (cookie authorization : Option String) :
    Except String (Option SubscriberKind) := do
  let session ← readSessionFromCookieHeader env cookie
  if session.any fun session => !sessionIsExpired env.sessionEnv env.now session then
    return some .operator
  return (bearerTokenFromHeader authorization).bind (authorizeBearer env)

/-! ## When it rejects -/

/-- A part of the header that gives a value for the name, as it is written. -/
def rawOfPart (name : String) (part : List Char) : Option (List Char) :=
  let trimmed := trimChars part
  let own := trimmed.takeWhile (· ≠ '=')
  if own ≠ [] ∧ own ≠ trimmed ∧ String.ofList own = name then
    some (trimmed.drop (own.length + 1))
  else none

/-- The value that the header has for the name, as it is written. -/
def rawCookie (cookieHeader : Option String) (name : String) : Option (List Char) :=
  cookieHeader.bind fun header => (header.toList.splitOn ';').findSome? (rawOfPart name)

/-- The cookie is missing, or its percent sequences are those of a text. -/
def Decodes (cookieHeader : Option String) (name : String) : Prop :=
  ∀ raw, rawCookie cookieHeader name = some raw → (decodeURIComponent raw).isSome

def decodeCookie (raw : List Char) : Except String (Option String) :=
  match decodeURIComponent raw with
  | none => .error "URI malformed"
  | some decoded => .ok (some (String.ofList decoded))

theorem cookieValueFromHeader_eq (cookieHeader : Option String) (name : String) :
    cookieValueFromHeader cookieHeader name =
      (rawCookie cookieHeader name).elim (.ok none) decodeCookie := by
  cases cookieHeader with
  | none => rfl
  | some header =>
    simp only [cookieValueFromHeader, rawCookie, Option.bind_some]
    induction header.toList.splitOn ';' with
    | nil => rfl
    | cons part rest ih =>
      rw [cookieValueFromHeader.value, List.findSome?_cons, rawOfPart]
      by_cases own : (trimChars part).takeWhile (· ≠ '=') = [] ∨
          (trimChars part).takeWhile (· ≠ '=') = trimChars part
      · rw [if_pos own, ih, if_neg (by tauto)]
      · by_cases named : String.ofList ((trimChars part).takeWhile (· ≠ '=')) = name
        · rw [if_neg own, if_neg (not_not.mpr named), if_pos (by tauto)]
          rfl
        · rw [if_neg own, if_pos named, ih, if_neg (by tauto)]

theorem decodeCookie_answers (raw : List Char) :
    (∃ value, decodeCookie raw = .ok value) ↔ (decodeURIComponent raw).isSome := by
  cases decoded : decodeURIComponent raw with
  | none => simp [decodeCookie, decoded]
  | some text => simp [decodeCookie, decoded]

/-- `cookieValueFromHeader` answers exactly where the cookie decodes. -/
theorem cookieValueFromHeader_answers (cookieHeader : Option String) (name : String) :
    (∃ value, cookieValueFromHeader cookieHeader name = .ok value) ↔ Decodes cookieHeader name := by
  rw [cookieValueFromHeader_eq, Decodes]
  cases rawCookie cookieHeader name with
  | none => simp
  | some raw => simp [decodeCookie_answers]

/-- The text that a cookie decodes to. -/
def cookieText (cookieHeader : Option String) (name : String) : Option (List Char) :=
  (rawCookie cookieHeader name).bind decodeURIComponent

/-- The cookies that are read decode; and without a secret the session cookie has no
signature. -/
structure Readable (env : UpgradeEnv) (cookie : Option String) : Prop where
  session : Decodes cookie sessionCookieName
  dev : rawCookie cookie sessionCookieName = none → env.production = false →
    Decodes cookie devSessionCookieName
  secret : env.production = true → env.sessionSecret = none →
    ∀ text, cookieText cookie sessionCookieName = some text → '.' ∉ text.tail

theorem verifyCookie_answers (env : UpgradeEnv) (value : Option String) :
    (∃ sessionId, verifyCookie env value = .ok sessionId) ↔
      (env.production = true → env.sessionSecret = none →
        ∀ text, value = some text → '.' ∉ text.toList.tail) := by
  cases value with
  | none => simp [verifyCookie]
  | some text =>
    by_cases dot : '.' ∈ text.toList.tail
    · cases configured : env.sessionSecret with
      | some secret => simp [verifyCookie, dot, getSessionSecret, configured, bind, Except.bind, pure,
          Except.pure]
      | none =>
        cases stage : env.production <;>
          simp [verifyCookie, dot, getSessionSecret, configured, stage, bind, Except.bind, pure,
            Except.pure]
    · simp [verifyCookie, dot]

theorem authorizeStatusUpgrade_answers (env : UpgradeEnv) (cookie authorization : Option String) :
    (∃ kind, authorizeStatusUpgrade env cookie authorization = .ok kind) ↔
      ∃ session, readSessionFromCookieHeader env cookie = .ok session := by
  rw [authorizeStatusUpgrade]
  cases readSessionFromCookieHeader env cookie with
  | error reason => simp [bind, Except.bind]
  | ok session =>
    simp only [bind, Except.bind, pure, Except.pure]
    split <;> simp

theorem readSession_answers (env : UpgradeEnv) (cookie : Option String) :
    (∃ session, readSessionFromCookieHeader env cookie = .ok session) ↔
      ∃ value, presentedCookie env cookie = .ok value ∧
        ∃ sessionId, verifyCookie env value = .ok sessionId := by
  rw [readSessionFromCookieHeader]
  cases presentedCookie env cookie with
  | error reason => simp [bind, Except.bind]
  | ok value =>
    cases verified : verifyCookie env value <;>
      simp [verified, bind, Except.bind, pure, Except.pure]

/-- Where there is no session cookie, the other is read outside production. -/
theorem presentedCookie_missing {env : UpgradeEnv} {cookie : Option String}
    (missing : rawCookie cookie sessionCookieName = none) :
    presentedCookie env cookie =
      if env.production then .ok none else cookieValueFromHeader cookie devSessionCookieName := by
  rw [presentedCookie, cookieValueFromHeader_eq cookie sessionCookieName, missing]
  rfl

theorem presentedCookie_session {env : UpgradeEnv} {cookie : Option String} {raw : List Char}
    (own : rawCookie cookie sessionCookieName = some raw) :
    presentedCookie env cookie = decodeCookie raw := by
  rw [presentedCookie, cookieValueFromHeader_eq cookie sessionCookieName, own, Option.elim_some]
  cases decoded : decodeURIComponent raw with
  | none => simp [decodeCookie, decoded, bind, Except.bind]
  | some text => simp [decodeCookie, decoded, bind, Except.bind, pure, Except.pure]

theorem presented_iff_readable (env : UpgradeEnv) (cookie : Option String) :
    (∃ value, presentedCookie env cookie = .ok value ∧
      ∃ sessionId, verifyCookie env value = .ok sessionId) ↔ Readable env cookie := by
  simp only [verifyCookie_answers]
  cases own : rawCookie cookie sessionCookieName with
  | none =>
    have decodes : Decodes cookie sessionCookieName := by
      intro raw found
      rw [own] at found
      cases found
    have textless : cookieText cookie sessionCookieName = none := by
      rw [cookieText, own, Option.bind_none]
    rw [presentedCookie_missing own]
    cases stage : env.production with
    | true =>
      refine iff_of_true ⟨none, rfl, fun _ _ _ found => by cases found⟩ ⟨decodes, ?_, ?_⟩
      · intro _ live
        cases live.symm.trans stage
      · intro _ _ text found
        rw [textless] at found
        cases found
    | false =>
      rw [if_neg (by decide)]
      constructor
      · rintro ⟨value, answered, -⟩
        refine ⟨decodes, fun _ _ => (cookieValueFromHeader_answers _ _).mp ⟨value, answered⟩, ?_⟩
        intro _ _ text found
        rw [textless] at found
        cases found
      · intro readable
        obtain ⟨value, answered⟩ := (cookieValueFromHeader_answers _ _).mpr (readable.dev own stage)
        exact ⟨value, answered, fun live => by cases live⟩
  | some raw =>
    rw [presentedCookie_session own]
    cases decoded : decodeURIComponent raw with
    | none =>
      refine iff_of_false ?_ fun readable => ?_
      · rintro ⟨value, answered, -⟩
        simp [decodeCookie, decoded] at answered
      · have text := readable.session raw own
        rw [decoded] at text
        cases text
    | some text =>
      have own_text : cookieText cookie sessionCookieName = some text := by
        rw [cookieText, own, Option.bind_some, decoded]
      constructor
      · rintro ⟨value, answered, unsigned⟩
        have value_eq : value = some (String.ofList text) := by
          simpa [decodeCookie, decoded, eq_comm] using answered
        subst value_eq
        refine ⟨?_, fun missing => (by rw [own] at missing; cases missing), ?_⟩
        · intro found same
          cases own.symm.trans same
          rw [decoded]
          rfl
        · intro live unset found same
          cases own_text.symm.trans same
          simpa using unsigned live unset _ rfl
      · intro readable
        refine ⟨some (String.ofList text), by simp [decodeCookie, decoded], ?_⟩
        intro live unset found same
        cases same
        simpa using readable.secret live unset text own_text

/-- A header never crashes the reading of a cookie, or the upgrade, exactly where the
cookies that are read decode. -/
theorem upgrade_resolves_iff (env : UpgradeEnv) (cookie authorization : Option String)
    (name : String) :
    ((∃ value, cookieValueFromHeader cookie name = .ok value) ↔ Decodes cookie name) ∧
    ((∃ kind, authorizeStatusUpgrade env cookie authorization = .ok kind) ↔ Readable env cookie) :=
  ⟨cookieValueFromHeader_answers cookie name,
    (authorizeStatusUpgrade_answers env cookie authorization).trans
      ((readSession_answers env cookie).trans (presented_iff_readable env cookie))⟩

/-! ## A cookie that is no text -/

/-- A server with no session, and no token that it takes. -/
def quietEnv : UpgradeEnv where
  hmac _ payload := payload
  findSession _ := none
  verifyOperatorBearer _ := .ok false
  verifyToken _ := .ok none

theorem authorizeStatusUpgrade_rejects :
    authorizeStatusUpgrade quietEnv (some "__Host-booth_session=%FF") none =
      .error "URI malformed" := by
  decide +kernel

end BoothOperator.Access
