import Mathlib.Order.Lattice

/-! How long an operator session lives. Its expiry slides with the requests it
serves, but is written only when that moves it by a renewal interval, and never
past the ceiling that is measured from the creation of the row. -/
namespace BoothOperator.Access

/-- What `parseInt` makes of the variables, where it makes a finite number. -/
structure SessionEnv where
  sessionTtlSeconds : Option Int := none
  sessionAbsoluteTtlSeconds : Option Int := none
  deriving DecidableEq

/-- The columns of a session that bound its life. -/
structure OperatorSession where
  createdAt : Int
  expiresAt : Int
  deriving DecidableEq

variable (env : SessionEnv)

def ttlSecondsFromEnv (parsed : Option Int) (fallback : Int) : Int := parsed.getD fallback

def idleTtlSeconds : Int := max (ttlSecondsFromEnv env.sessionTtlSeconds 2592000) 300

def absoluteTtlSeconds : Int := max (ttlSecondsFromEnv env.sessionAbsoluteTtlSeconds 7776000) 0

def sessionExpiresAt (now createdAt : Int) : Int :=
  let idleDeadline := now + idleTtlSeconds env * 1000
  let absolute := absoluteTtlSeconds env
  if absolute = 0 then idleDeadline else min idleDeadline (createdAt + absolute * 1000)

def renewalIntervalMs : Int := min (idleTtlSeconds env * 1000 / 10) 3600000

def sessionIsExpired (now : Int) (session : OperatorSession) : Bool :=
  session.expiresAt ≤ now ||
    (0 < absoluteTtlSeconds env && session.createdAt + absoluteTtlSeconds env * 1000 ≤ now)

/-- The row that `createSession` inserts: the expiry is computed first, and the
database stamps the creation when it inserts. -/
def createSession (computedAt createdAt : Int) : OperatorSession :=
  { createdAt, expiresAt := sessionExpiresAt env computedAt computedAt }

/-- The row of a session whose insertion was over within a renewal interval. -/
structure Created (session : OperatorSession) (computedAt : Int) : Prop where
  row : session = createSession env computedAt session.createdAt
  after : computedAt ≤ session.createdAt
  soon : session.createdAt - computedAt < renewalIntervalMs env

/-- The stored expiry is less than a renewal interval behind the one that the last use earned. -/
def Trails (lastUse : Int) (session : OperatorSession) : Prop :=
  sessionExpiresAt env lastUse session.createdAt - session.expiresAt < renewalIntervalMs env

def WithinCeiling (session : OperatorSession) : Prop :=
  0 < absoluteTtlSeconds env →
    session.expiresAt ≤ session.createdAt + absoluteTtlSeconds env * 1000

variable {env} {session : OperatorSession}

theorem idleTtlSeconds_ge : 300 ≤ idleTtlSeconds env := Int.le_max_right _ _

theorem absoluteTtlSeconds_nonneg : 0 ≤ absoluteTtlSeconds env := Int.le_max_right _ _

theorem renewalIntervalMs_pos : 0 < renewalIntervalMs env := by
  have idle : 300 ≤ idleTtlSeconds env := idleTtlSeconds_ge
  unfold renewalIntervalMs
  omega

/-! ## Deadlines -/

theorem sessionExpiresAt_le_ceiling {now createdAt : Int} (on : 0 < absoluteTtlSeconds env) :
    sessionExpiresAt env now createdAt ≤ createdAt + absoluteTtlSeconds env * 1000 := by
  unfold sessionExpiresAt
  rw [if_neg (by omega)]
  exact Int.min_le_right _ _

/-- A later use earns a later deadline, or the same. -/
theorem sessionExpiresAt_mono {earlier later createdAt : Int} (le : earlier ≤ later) :
    sessionExpiresAt env earlier createdAt ≤ sessionExpiresAt env later createdAt := by
  unfold sessionExpiresAt
  by_cases off : absoluteTtlSeconds env = 0
  · simp only [if_pos off]
    omega
  · simp only [if_neg off]
    omega

theorem not_expired {now : Int} (live : sessionIsExpired env now session = false) :
    now < session.expiresAt ∧ (0 < absoluteTtlSeconds env →
      now < session.createdAt + absoluteTtlSeconds env * 1000) := by
  unfold sessionIsExpired at live
  simp only [Bool.or_eq_false_iff, Bool.and_eq_false_iff, decide_eq_false_iff_not] at live
  constructor
  · omega
  · intro on
    rcases live.2 with off | early <;> omega

/-- A session that has expired stays so, and so does any earlier version of its row. -/
theorem expired_of_le {earlier now : Int} {version : OperatorSession}
    (expired : sessionIsExpired env earlier session = true) (later : earlier ≤ now)
    (created : version.createdAt = session.createdAt) (le : version.expiresAt ≤ session.expiresAt) :
    sessionIsExpired env now version = true := by
  unfold sessionIsExpired at expired ⊢
  simp only [Bool.or_eq_true, Bool.and_eq_true, decide_eq_true_eq, created] at expired ⊢
  omega

/-! ## Uses -/

theorem Created.trails {computedAt : Int} (created : Created env session computedAt) :
    Trails env session.createdAt session := by
  obtain ⟨row, after, soon⟩ := created
  have expires : session.expiresAt = sessionExpiresAt env computedAt computedAt := by
    rw [row]
    rfl
  rw [Trails, expires]
  unfold sessionExpiresAt
  by_cases off : absoluteTtlSeconds env = 0
  · simp only [if_pos off]
    omega
  · simp only [if_neg off]
    omega

theorem Created.withinCeiling {computedAt : Int} (created : Created env session computedAt) :
    WithinCeiling env session := by
  intro on
  obtain ⟨row, after, -⟩ := created
  have expires : session.expiresAt = sessionExpiresAt env computedAt computedAt := by
    rw [row]
    rfl
  have ceiling : sessionExpiresAt env computedAt computedAt ≤
      computedAt + absoluteTtlSeconds env * 1000 := sessionExpiresAt_le_ceiling on
  omega

/-- A use that comes soon enough after another is accepted. -/
theorem not_expired_of_trails {lastUse now : Int} (trails : Trails env lastUse session)
    (gap : now - lastUse ≤ idleTtlSeconds env * 1000 - renewalIntervalMs env)
    (early : 0 < absoluteTtlSeconds env →
      now < session.createdAt + absoluteTtlSeconds env * 1000 - renewalIntervalMs env) :
    sessionIsExpired env now session = false := by
  have positive : 0 < renewalIntervalMs env := renewalIntervalMs_pos
  have nonneg : 0 ≤ absoluteTtlSeconds env := absoluteTtlSeconds_nonneg
  unfold Trails sessionExpiresAt at trails
  unfold sessionIsExpired
  by_cases off : absoluteTtlSeconds env = 0
  · simp only [if_pos off] at trails
    simp only [off, Int.lt_irrefl, decide_false, Bool.false_and, Bool.or_false,
      decide_eq_false_iff_not]
    omega
  · simp only [if_neg off] at trails
    have ceiling := early (by omega)
    simp only [Bool.or_eq_false_iff, Bool.and_eq_false_iff, decide_eq_false_iff_not]
    omega

end BoothOperator.Access
