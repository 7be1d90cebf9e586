import Mathlib.Data.List.Count
import Mathlib.Data.Nat.Order.Lemmas
import Mathlib.Order.Lattice

/-! A bag of tickets that is refilled turn by turn. Every item has as many
tickets a turn as its weight says; a draw takes a ticket that is left, and a new
turn begins when the items that may be drawn have none. The weights may be
others at every draw. -/
namespace BoothOperator.TicketBag

variable {α : Type*} [DecidableEq α]

/-- The turn the bag is in, and what was drawn in which turn. -/
structure Bag (α : Type*) where
  turn : Nat
  log : List (Nat × α)

/-- How often an item was drawn in a turn. -/
def Bag.drawn (bag : Bag α) (turn : Nat) (item : α) : Nat := bag.log.count (turn, item)

/-- One draw from a pool. -/
inductive Draw (pool : α → Prop) (weight : α → Nat) (item : α) : Bag α → Bag α → Prop where
  | take (bag : Bag α) : pool item → bag.drawn bag.turn item < weight item →
      Draw pool weight item bag ⟨bag.turn, bag.log ++ [(bag.turn, item)]⟩
  | refill (bag : Bag α) : pool item → 0 < weight item →
      (∀ other, pool other → weight other ≤ bag.drawn bag.turn other) →
      Draw pool weight item bag ⟨bag.turn + 1, bag.log ++ [(bag.turn + 1, item)]⟩

/-- Nothing has been drawn in a turn to come. -/
def Bag.Current (bag : Bag α) : Prop := ∀ turn item, bag.turn < turn → bag.drawn turn item = 0

variable {pool : α → Prop} {weight : α → Nat} {item : α} {bag after : Bag α}

theorem drawn_snoc (log : List (Nat × α)) (turn turn' now : Nat) (item other : α) :
    (Bag.mk now (log ++ [(turn', item)])).drawn turn other =
      (Bag.mk now log).drawn turn other + if turn' = turn ∧ item = other then 1 else 0 := by
  by_cases same : turn' = turn ∧ item = other
  · obtain ⟨rfl, rfl⟩ := same
    simp [Bag.drawn]
  · simp [Bag.drawn, same]

theorem Draw.turn_le (draw : Draw pool weight item bag after) : bag.turn ≤ after.turn := by
  cases draw with
  | take => exact le_rfl
  | refill => exact Nat.le_succ _

/-- Counts only grow, and only in the turn the draw leaves the bag in. -/
theorem Draw.drawn_eq (draw : Draw pool weight item bag after) (turn : Nat) (other : α) :
    after.drawn turn other =
      bag.drawn turn other + if after.turn = turn ∧ item = other then 1 else 0 := by
  cases draw with
  | take => exact drawn_snoc bag.log turn bag.turn bag.turn item other
  | refill => exact drawn_snoc bag.log turn (bag.turn + 1) (bag.turn + 1) item other

theorem Draw.drawn_le (draw : Draw pool weight item bag after) (turn : Nat) (other : α) :
    bag.drawn turn other ≤ after.drawn turn other := by
  rw [draw.drawn_eq]
  exact Nat.le_add_right _ _

theorem Draw.current (draw : Draw pool weight item bag after) (current : bag.Current) :
    after.Current := by
  intro turn other later
  have before : bag.turn < turn := lt_of_le_of_lt draw.turn_le later
  rw [draw.drawn_eq, current turn other before, if_neg]
  rintro ⟨here, _⟩
  exact absurd here later.ne

/-- What is drawn had a ticket of the turn left. -/
theorem Draw.drawn_lt (draw : Draw pool weight item bag after) (current : bag.Current) :
    bag.drawn after.turn item < weight item := by
  cases draw with
  | take _ left => exact left
  | refill _ positive _ =>
    change bag.drawn (bag.turn + 1) item < weight item
    rw [current _ _ (Nat.lt_succ_self _)]
    exact positive

/-- A draw takes an item over its weight in no turn. -/
theorem Draw.drawn_le_max (draw : Draw pool weight item bag after) (current : bag.Current)
    (turn : Nat) (other : α) :
    after.drawn turn other ≤
      max (bag.drawn turn other) (if after.turn = turn then weight other else 0) := by
  rw [draw.drawn_eq]
  by_cases here : after.turn = turn ∧ item = other
  · obtain ⟨rfl, rfl⟩ := here
    rw [if_pos ⟨rfl, rfl⟩, if_pos rfl]
    exact (Nat.succ_le_of_lt (draw.drawn_lt current)).trans (le_max_right _ _)
  · rw [if_neg here]
    exact le_max_left _ _

/-- What a draw that begins a turn leaves behind. -/
theorem Draw.spent (draw : Draw pool weight item bag after) (begun : bag.turn < after.turn)
    (other : α) (pooled : pool other) : weight other ≤ bag.drawn bag.turn other := by
  cases draw with
  | take => exact absurd begun (lt_irrefl _)
  | refill _ _ spent => exact spent other pooled

theorem Draw.turn_succ (draw : Draw pool weight item bag after) :
    after.turn = bag.turn ∨ after.turn = bag.turn + 1 := by
  cases draw with
  | take => exact .inl rfl
  | refill => exact .inr rfl

/-! ## A pool and weights that stay -/

/-- What draws from one pool with one weight make of a bag: every turn that was
completed has used each item's tickets and no more, those of the first turn that
were left; and the turn the bag is in has used none twice. -/
structure Fair (pool : α → Prop) (weight : α → Nat) (start bag : Bag α) : Prop where
  turn : start.turn ≤ bag.turn
  past : ∀ turn item, turn < start.turn → bag.drawn turn item = start.drawn turn item
  completed : ∀ turn item, pool item → start.turn ≤ turn → turn < bag.turn →
    bag.drawn turn item = max (weight item) (start.drawn turn item)
  partway : ∀ item, pool item →
    bag.drawn bag.turn item ≤ max (weight item) (start.drawn bag.turn item)
  grown : ∀ turn item, start.drawn turn item ≤ bag.drawn turn item

theorem fair_start (start : Bag α) : Fair pool weight start start where
  turn := le_rfl
  past _ _ _ := rfl
  completed _ _ _ from_ until_ := absurd until_ (not_lt.mpr from_)
  partway _ _ := le_max_right _ _
  grown _ _ := le_rfl

theorem Fair.draw {start : Bag α} (fair : Fair pool weight start bag) (current : bag.Current)
    (draw : Draw pool weight item bag after) : Fair pool weight start after where
  turn := fair.turn.trans draw.turn_le
  past turn other before := by
    have elsewhere : ¬ (after.turn = turn ∧ item = other) := by
      rintro ⟨rfl, _⟩
      exact absurd (fair.turn.trans draw.turn_le) (not_le.mpr before)
    rw [draw.drawn_eq, if_neg elsewhere]
    exact fair.past turn other before
  completed turn other pooled since before := by
    have elsewhere : ¬ (after.turn = turn ∧ item = other) := by
      rintro ⟨rfl, _⟩
      exact absurd before (lt_irrefl _)
    rw [draw.drawn_eq, if_neg elsewhere, Nat.add_zero]
    rcases Nat.lt_or_ge turn bag.turn with done | open_
    · exact fair.completed turn other pooled since done
    · -- The turn the draw closes: everything in the pool is spent.
      have closing : turn = bag.turn := by
        rcases draw.turn_succ with same | next
        · exact absurd (same ▸ before) (not_lt.mpr open_)
        · rw [next] at before
          exact le_antisymm (Nat.lt_succ_iff.mp before) open_
      subst closing
      refine le_antisymm (fair.partway other pooled) (max_le ?_ (fair.grown _ other))
      exact draw.spent before other pooled
  partway other pooled := by
    refine (draw.drawn_le_max current after.turn other).trans ?_
    rw [if_pos rfl]
    refine max_le ?_ (le_max_left _ _)
    rcases draw.turn_succ with same | next
    · rw [same]
      exact fair.partway other pooled
    · rw [next, current _ _ (Nat.lt_succ_self _)]
      exact Nat.zero_le _
  grown turn other := (fair.grown turn other).trans (draw.drawn_le turn other)

end BoothOperator.TicketBag
