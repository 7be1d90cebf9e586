import Mathlib.Data.List.Basic
import Mathlib.Data.List.Induction
import Mathlib.Order.Lattice

/-! A fold that keeps the item with the greatest key, the later of equal ones. What it keeps
depends on which items there are, and not on their order, where no two of them share a key. -/
namespace BoothOperator.Greatest

variable {α κ : Type*} [LinearOrder κ] {key : α → κ} {items others : List α} {item kept : α}

def keep (key : α → κ) : Option α → α → Option α
  | none, item => some item
  | some held, item => if key held ≤ key item then some item else some held

def greatest (key : α → κ) (items : List α) : Option α := items.foldl (keep key) none

theorem greatest_snoc : greatest key (items ++ [item]) = keep key (greatest key items) item := by
  rw [greatest, List.foldl_append]
  rfl

theorem greatest_eq_none : greatest key items = none ↔ items = [] := by
  rcases items.eq_nil_or_concat' with rfl | ⟨front, last, rfl⟩
  · exact ⟨fun _ => rfl, fun _ => rfl⟩
  · rw [greatest_snoc]
    constructor
    · intro nothing
      cases held : greatest key front with
      | none =>
        rw [held] at nothing
        cases nothing
      | some other =>
        rw [held, keep] at nothing
        split at nothing <;> cases nothing
    · simp

/-- What is kept is there, and no key is greater. -/
theorem greatest_max (found : greatest key items = some kept) :
    kept ∈ items ∧ ∀ item ∈ items, key item ≤ key kept := by
  induction items using List.reverseRecOn generalizing kept with
  | nil => cases found
  | append_singleton front last ih =>
    rw [greatest_snoc] at found
    cases held : greatest key front with
    | none =>
      rw [held] at found
      cases found
      rw [greatest_eq_none.mp held]
      exact ⟨List.mem_cons_self, fun item member => (List.mem_singleton.mp member).symm ▸ le_rfl⟩
    | some other =>
      obtain ⟨there, most⟩ := ih held
      rw [held, keep] at found
      split at found
      · rename_i passed
        cases found
        refine ⟨List.mem_append_right _ List.mem_cons_self, fun item member => ?_⟩
        rcases List.mem_append.mp member with before | here
        · exact (most item before).trans passed
        · rw [List.mem_singleton.mp here]
      · rename_i below
        cases found
        refine ⟨List.mem_append_left _ there, fun item member => ?_⟩
        rcases List.mem_append.mp member with before | here
        · exact most item before
        · rw [List.mem_singleton.mp here]
          exact (not_le.mp below).le

/-- The same items, in any order and any number of times, leave the same one. -/
theorem greatest_eq_of_mem_iff (apart : ∀ one ∈ items, ∀ other ∈ items, key one = key other → one = other)
    (same : ∀ item, item ∈ others ↔ item ∈ items) : greatest key others = greatest key items := by
  cases found : greatest key items with
  | none =>
    have empty := greatest_eq_none.mp found
    subst empty
    exact greatest_eq_none.mpr (List.eq_nil_iff_forall_not_mem.mpr fun item member =>
      List.not_mem_nil ((same item).mp member))
  | some kept =>
    obtain ⟨there, most⟩ := greatest_max found
    cases other : greatest key others with
    | none =>
      rw [greatest_eq_none.mp other] at same
      exact absurd ((same kept).mpr there) List.not_mem_nil
    | some winner =>
      obtain ⟨listed, above⟩ := greatest_max other
      have member := (same winner).mp listed
      have equal := le_antisymm (most winner member) (above kept ((same kept).mpr there))
      rw [apart winner member kept there equal]

end BoothOperator.Greatest
