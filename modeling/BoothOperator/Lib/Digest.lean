import Mathlib.Data.List.Nodup
import Mathlib.Data.List.Basic

/-! A stand-in for a digest: the true digests of a few texts, and for every
other text one that no digest of a few looks like. -/
namespace BoothOperator.Digest

/-- The table's digest of a text, or the text marked as having none. -/
def digest (table : List (String × String)) (text : String) : String :=
  match table.lookup text with
  | some hex => hex
  | none => "!" ++ text

/-- No two texts share a digest when no two entries of the table do. -/
theorem digest_injective {table : List (String × String)} (distinct : (table.map (·.2)).Nodup)
    (unmarked : ∀ entry ∈ table, entry.2.toList.head? ≠ some '!') :
    Function.Injective (digest table) := by
  have entry {text hex : String} (found : table.lookup text = some hex) : (text, hex) ∈ table := by
    obtain ⟨before, after, rfl, _⟩ := List.lookup_eq_some_iff.mp found
    exact List.mem_append_right _ List.mem_cons_self
  have marked (text : String) : ("!" ++ text).toList.head? = some '!' := by simp
  intro one other same
  unfold digest at same
  cases here : table.lookup one with
  | some hex =>
    cases there : table.lookup other with
    | some hex' =>
      rw [here, there] at same
      simp only at same
      subst same
      have agree := List.inj_on_of_nodup_map distinct (entry here) (entry there) rfl
      exact congrArg Prod.fst agree
    | none =>
      rw [here, there] at same
      simp only at same
      exact absurd (same ▸ marked other) (unmarked _ (entry here))
  | none =>
    cases there : table.lookup other with
    | some hex =>
      rw [here, there] at same
      simp only at same
      exact absurd (same ▸ marked one) (unmarked _ (entry there))
    | none =>
      rw [here, there] at same
      exact (String.append_right_inj "!").mp same

end BoothOperator.Digest
