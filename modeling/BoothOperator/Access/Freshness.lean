import Mathlib.Algebra.Order.Floor.Ring
import Mathlib.Data.Rat.Floor
import BoothOperator.Access.Refresh

/-! Whether an access token is fresh when it has just been stored. Its expiry is at least the
minute away that is kept as a margin, and fresh is what is further away: a token that lives for
a minute or less never is. -/
namespace BoothOperator.Access

namespace Process

/-- The session is served without another refresh, and is what a sibling defers to whose own
refresh was refused. -/
structure Healthy (world : Process) (session : StoredSession) : Prop where
  fresh : accessTokenIsFresh world.now session = true
  next : ∀ index request,
    (world.refreshIfAccessTokenExpired index request session).grants = world.grants
  sibling : world.expired session = false → ∀ index (sibling : Refresh) answer,
    sibling.session.id = session.id →
      sibling.stage = .reread .rejected ∨ sibling.stage = .rereadAgain →
        ∃ refused : Refresh, world.advanceRefresh index sibling true answer =
          some ((world.clearRefreshBackoff session.id).settle index refused
            (some { session, accessTokenStale := false }))

variable {world after : Process} {session : StoredSession}

end Process

end BoothOperator.Access
