import Mathlib.Data.List.Basic

/-! Reading from the front of a list what passes a test, as far as it goes. A reader of parts that
follow one another, each of which may be missing, takes a part whole when what follows it does
not begin with an item that passes the part's test. -/
namespace BoothOperator.Fronts

variable {α : Type*} {test : α → Bool} {limit : Nat} {taken rest items : List α} {item : α}

/-- The list does not begin with an item that passes the test. -/
def Stops (test : α → Bool) (items : List α) : Prop := ∀ item ∈ items.head?, test item = false

theorem stops_nil : Stops test [] := nofun

theorem stops_cons (fails : test item = false) : Stops test (item :: rest) := by
  rintro _ ⟨⟩
  exact fails

theorem Stops.append (fails : ∀ item ∈ taken, test item = false) (stops : Stops test rest) :
    Stops test (taken ++ rest) := by
  cases taken with
  | nil => exact stops
  | cons item _ => exact stops_cons (fails item List.mem_cons_self)

/-- The items at the front that pass the test, at most so many, and the rest. -/
def readUpTo (test : α → Bool) : Nat → List α → List α × List α
  | 0, items => ([], items)
  | _ + 1, [] => ([], [])
  | limit + 1, item :: rest =>
    if test item then (item :: (readUpTo test limit rest).1, (readUpTo test limit rest).2)
    else ([], item :: rest)

theorem readUpTo_append (passes : ∀ item ∈ taken, test item = true) (few : taken.length ≤ limit)
    (stops : Stops test rest) : readUpTo test limit (taken ++ rest) = (taken, rest) := by
  induction taken generalizing limit with
  | nil =>
    cases limit with
    | zero => rfl
    | succ limit =>
      cases rest with
      | nil => rfl
      | cons item rest =>
        have fails := stops item rfl
        rw [List.nil_append, readUpTo, fails, if_neg Bool.false_ne_true]
  | cons item taken ih =>
    obtain ⟨first, later⟩ := List.forall_mem_cons.mp passes
    cases limit with
    | zero => exact absurd few (Nat.not_succ_le_zero _)
    | succ limit =>
      rw [List.cons_append, readUpTo, if_pos first, ih later (Nat.le_of_succ_le_succ few)]

theorem readUpTo_spec (test : α → Bool) (limit : Nat) (items : List α) :
    items = (readUpTo test limit items).1 ++ (readUpTo test limit items).2 ∧
      (∀ item ∈ (readUpTo test limit items).1, test item = true) ∧
      (readUpTo test limit items).1.length ≤ limit := by
  fun_induction readUpTo test limit items with
  | case1 items => exact ⟨rfl, nofun, Nat.le_refl 0⟩
  | case2 limit => exact ⟨rfl, nofun, Nat.zero_le _⟩
  | case3 limit item rest passes ih =>
    obtain ⟨whole, passing, few⟩ := ih
    exact ⟨congrArg (item :: ·) whole, List.forall_mem_cons.mpr ⟨passes, passing⟩,
      Nat.succ_le_succ few⟩
  | case4 limit item rest fails => exact ⟨rfl, nofun, Nat.zero_le _⟩

theorem takeWhile_append (passes : ∀ item ∈ taken, test item = true) (stops : Stops test rest) :
    (taken ++ rest).takeWhile test = taken := by
  rw [List.takeWhile_append_of_pos passes]
  cases rest with
  | nil => exact List.append_nil taken
  | cons item rest => rw [List.takeWhile_cons_of_neg (by simp [stops item rfl]), List.append_nil]

theorem dropWhile_append (passes : ∀ item ∈ taken, test item = true) (stops : Stops test rest) :
    (taken ++ rest).dropWhile test = rest := by
  rw [List.dropWhile_append_of_pos passes]
  cases rest with
  | nil => rfl
  | cons item rest => rw [List.dropWhile_cons_of_neg (by simp [stops item rfl])]

end BoothOperator.Fronts
