import Mathlib.Algebra.Order.Group.Int
import Mathlib.Data.List.Basic

/-! Ranges of integers, both ends of which belong to them. -/
namespace BoothOperator.Ranges

structure Range where
  start : Int
  stop : Int
  deriving DecidableEq, Repr

def Range.Has (range : Range) (t : Int) : Prop := range.start ≤ t ∧ t ≤ range.stop

/-- In one of the ranges. -/
def Inside (ranges : List Range) (t : Int) : Prop := ∃ range ∈ ranges, range.Has t

/-- Ranges that are not empty, in order, with a gap between each and the next. -/
structure Separated (ranges : List Range) : Prop where
  filled : ∀ range ∈ ranges, range.start ≤ range.stop
  gaps : ranges.Pairwise fun one other => one.stop + 1 < other.start

variable {ranges : List Range} {range : Range} {t : Int}

theorem separated_nil : Separated [] := ⟨by simp, .nil⟩

theorem separated_snoc : Separated (ranges ++ [range]) ↔ Separated ranges ∧
    range.start ≤ range.stop ∧ ∀ earlier ∈ ranges, earlier.stop + 1 < range.start := by
  constructor
  · rintro ⟨filled, gaps⟩
    obtain ⟨front, -, apart⟩ := List.pairwise_append.mp gaps
    refine ⟨⟨fun one member => filled one (List.mem_append_left _ member), front⟩, ?_, ?_⟩
    · exact filled range (List.mem_append_right _ (List.mem_singleton_self _))
    · exact fun earlier member => apart earlier member range (List.mem_singleton_self _)
  · rintro ⟨⟨filled, gaps⟩, own, apart⟩
    refine ⟨fun one member => ?_, List.pairwise_append.mpr ⟨gaps, List.pairwise_singleton _ _, ?_⟩⟩
    · rcases List.mem_append.mp member with front | last
      · exact filled one front
      · exact List.mem_singleton.mp last ▸ own
    · intro earlier member one last
      exact List.mem_singleton.mp last ▸ apart earlier member

@[simp]
theorem not_inside_nil : ¬Inside [] t := by
  rintro ⟨range, member, -⟩
  cases member

theorem inside_snoc : Inside (ranges ++ [range]) t ↔ Inside ranges t ∨ range.Has t := by
  simp only [Inside, List.mem_append, List.mem_singleton, or_and_right, exists_or, exists_eq_left]

/-- The ranges so far of the integers from the first up to a bound that a predicate has. -/
structure Collected (own : Int → Bool) (first bound : Int) (ranges : List Range) : Prop where
  separated : Separated ranges
  before : ∀ range ∈ ranges, range.stop < bound
  inside : ∀ t, Inside ranges t ↔ first ≤ t ∧ t < bound ∧ own t = true

section Collected

variable {own : Int → Bool} {first bound next : Int}

theorem collected_nil : Collected own first first [] :=
  ⟨separated_nil, by simp, fun t => by simp; omega⟩

/-- A stretch without the predicate. -/
theorem Collected.skip (collected : Collected own first bound ranges) (further : bound ≤ next)
    (without : ∀ t, bound ≤ t → t < next → own t = false) : Collected own first next ranges := by
  refine ⟨collected.separated, fun range member => ?_, fun t => ?_⟩
  · exact lt_of_lt_of_le (collected.before range member) further
  · rw [collected.inside]
    constructor
    · exact fun ⟨low, high, has⟩ => ⟨low, by omega, has⟩
    · rintro ⟨low, high, has⟩
      refine ⟨low, ?_, has⟩
      by_contra past
      rw [without t (by omega) high] at has
      cases has

/-- A stretch with the predicate, behind a gap. -/
theorem Collected.push (collected : Collected own first bound ranges) (low : first ≤ bound)
    (further : bound < next) (gap : ∀ range ∈ ranges, range.stop + 1 < bound)
    (throughout : ∀ t, bound ≤ t → t < next → own t = true) :
    Collected own first next (ranges ++ [⟨bound, next - 1⟩]) := by
  refine ⟨separated_snoc.mpr ⟨collected.separated, by simp only; omega, gap⟩, ?_, fun t => ?_⟩
  · intro range member
    rcases List.mem_append.mp member with front | last
    · have before := collected.before range front
      omega
    · rw [List.mem_singleton.mp last]
      simp only
      omega
  · rw [inside_snoc, collected.inside, Range.Has]
    simp only
    constructor
    · rintro (⟨low, high, has⟩ | ⟨past, high⟩)
      · exact ⟨low, by omega, has⟩
      · exact ⟨by omega, by omega, throughout t past (by omega)⟩
    · rintro ⟨low, high, has⟩
      by_cases past : bound ≤ t
      · exact .inr ⟨past, by omega⟩
      · exact .inl ⟨low, by omega, has⟩

/-- A stretch with the predicate, that the last range goes on with. -/
theorem Collected.extend (collected : Collected own first bound (ranges ++ [range]))
    (low : first ≤ bound) (further : bound < next) (adjacent : range.stop + 1 = bound)
    (throughout : ∀ t, bound ≤ t → t < next → own t = true) :
    Collected own first next (ranges ++ [{ range with stop := next - 1 }]) := by
  obtain ⟨separated, filled, gaps⟩ := separated_snoc.mp collected.separated
  refine ⟨separated_snoc.mpr ⟨separated, by simp only; omega, gaps⟩, ?_, fun t => ?_⟩
  · intro other member
    rcases List.mem_append.mp member with front | last
    · have before := collected.before other (List.mem_append_left _ front)
      omega
    · rw [List.mem_singleton.mp last]
      simp only
      omega
  · have inside := collected.inside t
    rw [inside_snoc, Range.Has] at inside
    rw [inside_snoc, Range.Has]
    simp only
    constructor
    · rintro (front | ⟨past, high⟩)
      · obtain ⟨low, high, has⟩ := inside.mp (.inl front)
        exact ⟨low, by omega, has⟩
      · by_cases new : bound ≤ t
        · exact ⟨by omega, by omega, throughout t new (by omega)⟩
        · obtain ⟨low, high, has⟩ := inside.mp (.inr ⟨past, by omega⟩)
          exact ⟨low, by omega, has⟩
    · rintro ⟨low, high, has⟩
      by_cases new : bound ≤ t
      · exact .inr ⟨by omega, by omega⟩
      · rcases inside.mpr ⟨low, by omega, has⟩ with front | ⟨past, within⟩
        · exact .inl front
        · exact .inr ⟨past, by omega⟩

end Collected

end BoothOperator.Ranges
