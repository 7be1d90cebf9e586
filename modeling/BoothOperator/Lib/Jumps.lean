import Mathlib.Algebra.Order.Group.Int
import Mathlib.Order.Interval.Set.Basic

/-! Functions on the integers that are constant between their jumps. -/
namespace BoothOperator.Jumps

variable {α : Type*} (f : Int → α)

/-- The value is another than at the integer before. -/
def Jump (s : Int) : Prop := f s ≠ f (s - 1)

variable {f}

/-- Up to a point the value is that at the point, back to the last jump before it. -/
theorem back_to_jump {from_ s : Int} (ordered : from_ ≤ s) :
    (∀ m, from_ ≤ m → m ≤ s → f m = f s) ∨
      ∃ jump, from_ < jump ∧ jump ≤ s ∧ Jump f jump ∧ ∀ m, jump ≤ m → m ≤ s → f m = f s := by
  induction s, ordered using Int.leInduction with
  | base =>
    refine .inl fun m low high => ?_
    rw [Int.le_antisymm high low]
  | succ s ordered ih =>
    by_cases same : f (s + 1) = f s
    · have last (m : Int) (past : s < m) (high : m ≤ s + 1) : f m = f (s + 1) := by
        rw [show m = s + 1 by omega]
      rcases ih with constant | ⟨jump, after, within, jumps, constant⟩
      · refine .inl fun m low high => ?_
        rcases lt_or_ge s m with past | before
        · exact last m past high
        · rw [same, constant m low before]
      · refine .inr ⟨jump, after, by omega, jumps, fun m low high => ?_⟩
        rcases lt_or_ge s m with past | before
        · exact last m past high
        · rw [same, constant m low before]
    · refine .inr ⟨s + 1, by omega, Int.le_refl _, ?_, fun m low high => ?_⟩
      · rw [Jump, Int.add_sub_cancel]
        exact same
      · rw [Int.le_antisymm high low]

/-- From a point the value is that at the point, up to the next jump. -/
theorem on_to_jump {s stop : Int} (ordered : s ≤ stop) :
    (∀ m, s ≤ m → m ≤ stop → f m = f s) ∨
      ∃ jump, s < jump ∧ jump ≤ stop ∧ Jump f jump ∧ ∀ m, s ≤ m → m < jump → f m = f s := by
  induction stop, ordered using Int.leInduction with
  | base =>
    refine .inl fun m low high => ?_
    rw [Int.le_antisymm high low]
  | succ stop ordered ih =>
    rcases ih with constant | ⟨jump, after, within, jumps, constant⟩
    · by_cases same : f (stop + 1) = f stop
      · refine .inl fun m low high => ?_
        rcases lt_or_ge stop m with past | before
        · rw [show m = stop + 1 by omega, same, constant stop ordered (Int.le_refl _)]
        · exact constant m low before
      · refine .inr ⟨stop + 1, by omega, Int.le_refl _, ?_, fun m low high => ?_⟩
        · rw [Jump, Int.add_sub_cancel]
          exact same
        · exact constant m low (by omega)
    · exact .inr ⟨jump, after, by omega, jumps, constant⟩

theorem constant_of_no_jump {s stop : Int} (ordered : s ≤ stop)
    (none : ∀ jump, s < jump → jump ≤ stop → ¬Jump f jump) :
    ∀ m, s ≤ m → m ≤ stop → f m = f s := by
  rcases on_to_jump ordered with constant | ⟨jump, after, within, jumps, -⟩
  · exact constant
  · exact absurd jumps (none jump after within)

/-- Around its only jump a function has two values. -/
theorem values_of_one_jump {s stop jump : Int} (after : s < jump) (within : jump ≤ stop)
    (jumps : Jump f jump) (only : ∀ other, s < other → other ≤ stop → Jump f other → other = jump)
    {m : Int} (low : s ≤ m) (high : m ≤ stop) :
    (m < jump → f m = f s) ∧ (jump ≤ m → f m = f stop) ∧ f stop ≠ f s := by
  have before : ∀ m, s ≤ m → m ≤ jump - 1 → f m = f s :=
    constant_of_no_jump (by omega) fun other past until_ another => by
      have same := only other past (by omega) another
      omega
  have later : ∀ m, jump ≤ m → m ≤ stop → f m = f jump :=
    constant_of_no_jump within fun other past until_ another => by
      have same := only other (by omega) until_ another
      omega
  refine ⟨fun left => before m low (by omega), fun right => ?_, ?_⟩
  · rw [later m right high, later stop within (Int.le_refl _)]
  · rw [later stop within (Int.le_refl _), ← before (jump - 1) (by omega) (Int.le_refl _)]
    exact jumps

end BoothOperator.Jumps
