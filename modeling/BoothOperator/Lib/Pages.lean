import Mathlib.Data.List.Basic

/-! A listing that is read page by page: every answer has the items of its page and,
unless it is the last, the cursor that the next request goes on from. -/
namespace BoothOperator.Pages

variable {ρ χ : Type*}

/-- The items of the pages that follow a cursor, when the last is reached within so many
requests; none as well where a request is refused. -/
def follow (page : Option χ → Option (List ρ × Option χ)) : Nat → Option χ → Option (List ρ)
  | 0, _ => none
  | turns + 1, cursor =>
    match page cursor with
    | none => none
    | some (items, none) => some items
    | some (items, some next) => (follow page turns (some next)).map (items ++ ·)

/-- The rows that are read when every page has some and the next begins `stride` further on. -/
def stretches (take stride : Nat) (rows : List ρ) : List ρ :=
  if rows.length ≤ take ∨ stride = 0 then rows.take take
  else rows.take take ++ stretches take stride (rows.drop stride)
termination_by rows.length
decreasing_by
  rw [List.length_drop]
  omega

theorem stretches_of_le {take stride : Nat} {rows : List ρ} (short : rows.length ≤ take) :
    stretches take stride rows = rows := by
  rw [stretches, if_pos (Or.inl short), List.take_of_length_le short]

theorem stretches_of_lt {take stride : Nat} {rows : List ρ} (long : take < rows.length)
    (positive : 0 < stride) :
    stretches take stride rows = rows.take take ++ stretches take stride (rows.drop stride) := by
  rw [stretches, if_neg (by omega)]

/-- A next page that begins where the one before ended leaves nothing out. -/
theorem stretches_self {take : Nat} (positive : 0 < take) (rows : List ρ) :
    stretches take take rows = rows := by
  induction rows using stretches.induct take take with
  | case1 rows last =>
    exact stretches_of_le (by omega)
  | case2 rows more ih =>
    rw [stretches_of_lt (by omega) positive, ih, List.take_append_drop]

theorem length_stretches_le {take stride : Nat} (apart : take ≤ stride) (rows : List ρ) :
    (stretches take stride rows).length ≤ rows.length := by
  induction rows using stretches.induct take stride with
  | case1 rows last =>
    rw [stretches, if_pos last, List.length_take]
    omega
  | case2 rows more ih =>
    rw [stretches_of_lt (by omega) (by omega), List.length_append, List.length_take]
    rw [List.length_drop] at ih
    omega

/-- Pages that pass over a row between them lose one as soon as there are two. -/
theorem length_stretches_lt {take stride : Nat} {rows : List ρ} (long : take < rows.length)
    (apart : take < stride) : (stretches take stride rows).length < rows.length := by
  have later := length_stretches_le (Nat.le_of_lt apart) (rows.drop stride)
  rw [stretches_of_lt long (by omega), List.length_append, List.length_take]
  rw [List.length_drop] at later
  omega

/-- However many requests are allowed, what is read to the end is the same. -/
theorem follow_unique {page : Option χ → Option (List ρ × Option χ)} {turns more : Nat}
    {cursor : Option χ} {read again : List ρ} (first : follow page turns cursor = some read)
    (second : follow page more cursor = some again) : read = again := by
  induction turns generalizing more cursor read again with
  | zero => cases first
  | succ turns ih =>
    cases more with
    | zero => cases second
    | succ more =>
      rw [follow] at first second
      split at first
      · cases first
      · rename_i items answered
        rw [answered] at second
        exact Option.some.inj (first.symm.trans second)
      · rename_i items next answered
        rw [answered] at second
        obtain ⟨later, followed, rfl⟩ := Option.map_eq_some_iff.mp first
        obtain ⟨later', followed', rfl⟩ := Option.map_eq_some_iff.mp second
        rw [ih followed followed']

/-- What is read from a cursor, when every page has the first of the rows that are left at
its cursor, and the next cursor leaves those `stride` further on. -/
theorem follow_eq {page : Option χ → Option (List ρ × Option χ)} {take stride : Nat}
    (At : Option χ → List ρ → Prop) (positive : 0 < stride)
    (turn : ∀ cursor rest, At cursor rest → ∃ next, page cursor = some (rest.take take, next) ∧
      (rest.length ≤ take → next = none) ∧
      (take < rest.length → ∃ token, next = some token ∧ At (some token) (rest.drop stride)))
    {cursor : Option χ} {rest : List ρ} (here : At cursor rest) :
    ∃ turns, follow page turns cursor = some (stretches take stride rest) := by
  induction rest using stretches.induct take stride generalizing cursor with
  | case1 rest last =>
    obtain ⟨next, read, ends, _⟩ := turn cursor rest here
    have short : rest.length ≤ take := by omega
    refine ⟨1, ?_⟩
    simp [follow, read, ends short, stretches_of_le short, List.take_of_length_le short]
  | case2 rest more ih =>
    obtain ⟨next, read, -, continues⟩ := turn cursor rest here
    obtain ⟨token, rfl, later⟩ := continues (by omega)
    obtain ⟨turns, followed⟩ := ih later
    refine ⟨turns + 1, ?_⟩
    simp [follow, read, followed, stretches_of_lt (show take < rest.length by omega) positive]

end BoothOperator.Pages
