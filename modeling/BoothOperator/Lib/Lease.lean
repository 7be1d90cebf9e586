import Mathlib.Data.List.Basic
import Mathlib.Order.Basic

/-! Leases on keys, as a history of what became of them. A claim gives the key
to a holder until a moment; the holder may renew it and may end it. A history
is lawful when a claim finds no live lease and every renewal and ending is made
by the holder of the latest claim while its lease lives. Histories are written
newest event first. -/
namespace BoothOperator.Lease

variable {κ η τ π ε : Type*}

inductive Event (κ η τ π ε : Type*) where
  | claimed (key : κ) (holder : η) (moment expiresAt : τ) (payload : π)
  | renewed (key : κ) (holder : η) (moment expiresAt : τ)
  | ended (key : κ) (holder : η) (moment : τ) (ending : ε)

def Event.key : Event κ η τ π ε → κ
  | .claimed key _ _ _ _ | .renewed key _ _ _ | .ended key _ _ _ => key

/-- Who presents a lease, and when, in an event that uses one. -/
def Event.use : Event κ η τ π ε → Option (κ × η × τ)
  | .claimed _ _ _ _ _ => none
  | .renewed key holder moment _ | .ended key holder moment _ => some (key, holder, moment)

/-- A lease as its holder knows it. -/
structure Grant (η τ π : Type*) where
  holder : η
  expiresAt : τ
  payload : π

section History

variable [DecidableEq κ]

/-- The lease on a key that was claimed last and has not been ended. -/
def current (key : κ) : List (Event κ η τ π ε) → Option (Grant η τ π)
  | [] => none
  | .claimed other holder _ expiresAt payload :: past =>
    if other = key then some ⟨holder, expiresAt, payload⟩ else current key past
  | .renewed other _ _ expiresAt :: past =>
    if other = key then (current key past).map fun lease => { lease with expiresAt }
    else current key past
  | .ended other _ _ _ :: past => if other = key then none else current key past

/-- Whom the latest claim of a key gave it to, and with what. -/
def lastClaim (key : κ) : List (Event κ η τ π ε) → Option (η × π)
  | [] => none
  | .claimed other holder _ _ payload :: past =>
    if other = key then some (holder, payload) else lastClaim key past
  | .renewed _ _ _ _ :: past | .ended _ _ _ _ :: past => lastClaim key past

/-- How often a key has been claimed. -/
def claims (key : κ) : List (Event κ η τ π ε) → Nat
  | [] => 0
  | .claimed other _ _ _ _ :: past => if other = key then claims key past + 1 else claims key past
  | .renewed _ _ _ _ :: past | .ended _ _ _ _ :: past => claims key past

/-- The holder's lease on the key is the current one and lives past the moment. -/
def HeldBy [LT τ] (past : List (Event κ η τ π ε)) (key : κ) (holder : η) (moment : τ) : Prop :=
  ∃ lease, current key past = some lease ∧ lease.holder = holder ∧ moment < lease.expiresAt

/-- What may happen next. A claim's payload and an ending are further limited
by the history and by the lease that ends. -/
def Event.Allowed [LT τ] [LE τ] (grants : κ → List (Event κ η τ π ε) → π → Prop)
    (permits : Grant η τ π → ε → Prop) (past : List (Event κ η τ π ε)) : Event κ η τ π ε → Prop
  | .claimed key _ moment _ payload =>
    (∀ lease, current key past = some lease → lease.expiresAt ≤ moment) ∧ grants key past payload
  | .renewed key holder moment _ => HeldBy past key holder moment
  | .ended key holder moment ending =>
    ∃ lease, current key past = some lease ∧ lease.holder = holder ∧ moment < lease.expiresAt ∧
      permits lease ending

def Lawful [LT τ] [LE τ] (grants : κ → List (Event κ η τ π ε) → π → Prop)
    (permits : Grant η τ π → ε → Prop) : List (Event κ η τ π ε) → Prop
  | [] => True
  | event :: past => event.Allowed grants permits past ∧ Lawful grants permits past

variable {key : κ} {past : List (Event κ η τ π ε)}

/-- Whoever holds the key got it from the latest claim. -/
theorem lastClaim_of_current {lease : Grant η τ π} (held : current key past = some lease) :
    lastClaim key past = some (lease.holder, lease.payload) := by
  induction past generalizing lease with
  | nil => cases held
  | cons event past ih =>
    cases event with
    | claimed other holder moment expiresAt payload =>
      simp only [current, lastClaim] at held ⊢
      split at held
      · cases held
        rw [if_pos ‹_›]
      · rw [if_neg ‹_›]
        exact ih held
    | renewed other holder moment expiresAt =>
      simp only [current, lastClaim] at held ⊢
      split at held
      · obtain ⟨before, there, rfl⟩ := Option.map_eq_some_iff.mp held
        have earlier := ih there
        exact earlier
      · exact ih held
    | ended other holder moment ending =>
      simp only [current, lastClaim] at held ⊢
      split at held
      · cases held
      · exact ih held

/-- No two holders at once, whatever the moments they look at. -/
theorem HeldBy.unique [LT τ] {first second : η} {one other : τ} (mine : HeldBy past key first one)
    (theirs : HeldBy past key second other) : first = second := by
  obtain ⟨lease, held, rfl, _⟩ := mine
  obtain ⟨same, again, rfl, _⟩ := theirs
  rw [held, Option.some.injEq] at again
  rw [again]

/-- A lease is used by its holder, who got it from the latest claim, while it lives. -/
theorem Event.Allowed.held [LT τ] [LE τ] {grants : κ → List (Event κ η τ π ε) → π → Prop}
    {permits : Grant η τ π → ε → Prop} {event : Event κ η τ π ε}
    (allowed : event.Allowed grants permits past) {holder : η} {moment : τ}
    (use : event.use = some (key, holder, moment)) : HeldBy past key holder moment := by
  cases event with
  | claimed => cases use
  | renewed => cases use; exact allowed
  | ended =>
    cases use
    obtain ⟨grant, held, same, later, _⟩ := allowed
    exact ⟨grant, held, same, later⟩

/-- What happens to one key leaves the lease on another. -/
theorem current_of_other {event : Event κ η τ π ε} (other : event.key ≠ key) :
    current key (event :: past) = current key past := by
  cases event <;> simp only [Event.key] at other <;> simp [current, other]

theorem claims_of_other {event : Event κ η τ π ε} (other : event.key ≠ key) :
    claims key (event :: past) = claims key past := by
  cases event <;> simp only [Event.key] at other <;> simp [claims, other]

/-- A key is claimed no less often as the history grows. -/
theorem claims_le (event : Event κ η τ π ε) : claims key past ≤ claims key (event :: past) := by
  cases event with
  | claimed other holder moment expiresAt payload =>
    simp only [claims]
    split <;> omega
  | renewed | ended => exact Nat.le_refl _

theorem current_of_unused (unused : ∀ event ∈ past, event.key ≠ key) :
    current key past = none ∧ claims key past = 0 := by
  induction past with
  | nil => exact ⟨rfl, rfl⟩
  | cons event past ih =>
    obtain ⟨other, rest⟩ := List.forall_mem_cons.mp unused
    rw [current_of_other other, claims_of_other other]
    exact ih rest

end History

end BoothOperator.Lease
