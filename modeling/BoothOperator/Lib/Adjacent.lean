import Mathlib

/-! Rows in the order of a key: which are neighbours, and when no two neighbours
carry one label. A row put between two others changes only its own neighbours; a
row moved down the order changes three pairs. -/
namespace BoothOperator.Adjacent

variable {ρ ι γ : Type*} [LinearOrder ι]

/-- The second row is the next after the first. -/
def Next (key : ρ → ι) (rows : List ρ) (first second : ρ) : Prop :=
  first ∈ rows ∧ second ∈ rows ∧ key first < key second ∧
    ∀ other ∈ rows, key other ≤ key first ∨ key second ≤ key other

/-- No two neighbours carry one label. -/
def Differ (key : ρ → ι) (label : ρ → γ) (rows : List ρ) : Prop :=
  ∀ first second, Next key rows first second → label first ≠ label second

variable {key : ρ → ι} {label : ρ → γ} {rows after : List ρ}

/-- A change of rows that keeps their keys and labels. -/
theorem differ_map {change : ρ → ρ} (keys : ∀ row ∈ rows, key (change row) = key row)
    (labels : ∀ row ∈ rows, label (change row) = label row) (differ : Differ key label rows) :
    Differ key label (rows.map change) := by
  rintro first second ⟨one, two, less, between⟩
  obtain ⟨old, there, rfl⟩ := List.mem_map.mp one
  obtain ⟨old', there', rfl⟩ := List.mem_map.mp two
  rw [keys old there, keys old' there'] at less
  rw [labels old there, labels old' there']
  refine differ old old' ⟨there, there', less, fun other member => ?_⟩
  have apart := between (change other) (List.mem_map_of_mem member)
  rwa [keys old there, keys old' there', keys other member] at apart

/-- A new row that differs from the two it stands between. -/
theorem differ_insert {row : ρ} (differ : Differ key label rows)
    (below : ∀ first ∈ rows, key first < key row →
      (∀ other ∈ rows, key other < key row → key other ≤ key first) → label first ≠ label row)
    (above : ∀ second ∈ rows, key row < key second →
      (∀ other ∈ rows, key row < key other → key second ≤ key other) → label row ≠ label second) :
    Differ key label (rows ++ [row]) := by
  intro first second next
  obtain ⟨one, two, less, between⟩ := next
  rw [List.forall_mem_append] at between
  rw [List.mem_append, List.mem_singleton] at one two
  rcases one with old | rfl
  · rcases two with old' | rfl
    · exact differ first second ⟨old, old', less, between.1⟩
    · refine below first old less fun other member lower => ?_
      rcases between.1 other member with le | ge
      · exact le
      · exact absurd lower (not_lt.mpr ge)
  · rcases two with old' | rfl
    · refine above second old' less fun other member higher => ?_
      rcases between.1 other member with le | ge
      · exact absurd higher (not_lt.mpr le)
      · exact ge
    · exact absurd less (lt_irrefl _)

/-- The pairs a row that moves down the order leaves side by side: itself and
the row before its new place, itself and the first row it moves in front of,
and the last of those and the row that followed it. -/
structure Seam (key : ρ → ι) (label : ρ → γ) (rows : List ρ) (row : ρ) (place : ι) : Prop where
  before : ∀ first ∈ rows, key first < place →
    (∀ other ∈ rows, key other < place → key other ≤ key first) → label first ≠ label row
  front : ∀ second ∈ rows, place < key second → key second < key row →
    (∀ other ∈ rows, place < key other → key second ≤ key other) → label row ≠ label second
  gap : ∀ first ∈ rows, place < key first → key first < key row → ∀ second ∈ rows,
    key row < key second →
      (∀ other ∈ rows, key other ≤ key first ∨ other = row ∨ key second ≤ key other) →
        label first ≠ label second

instance [DecidableEq ρ] [DecidableEq γ] (row : ρ) (place : ι) :
    Decidable (Seam key label rows row place) :=
  have _gap : Decidable (∀ first ∈ rows, place < key first → key first < key row → ∀ second ∈ rows,
      key row < key second →
        (∀ other ∈ rows, key other ≤ key first ∨ other = row ∨ key second ≤ key other) →
          label first ≠ label second) := inferInstance
  have _front : Decidable (∀ second ∈ rows, place < key second → key second < key row →
      (∀ other ∈ rows, place < key other → key second ≤ key other) →
        label row ≠ label second) := inferInstance
  have _before : Decidable (∀ first ∈ rows, key first < place →
      (∀ other ∈ rows, key other < place → key other ≤ key first) →
        label first ≠ label row) := inferInstance
  decidable_of_iff (_ ∧ _ ∧ _)
    ⟨fun ⟨before, front, gap⟩ => Seam.mk before front gap,
      fun seam => ⟨seam.before, seam.front, seam.gap⟩⟩

/-- Some row stands between the old place and the new one. -/
def Overtakes (key : ρ → ι) (rows : List ρ) (row : ρ) (place : ι) : Prop :=
  ∃ other ∈ rows, place < key other ∧ key other < key row

instance (row : ρ) (place : ι) : Decidable (Overtakes key rows row place) :=
  inferInstanceAs (Decidable (∃ other ∈ rows, place < key other ∧ key other < key row))

section Move

variable {row moved : ρ} (distinct : ∀ one ∈ rows, ∀ other ∈ rows, key one = key other → one = other)
  (stored : row ∈ rows) (less : key moved < key row) (labels : label moved = label row)
  (fresh : ∀ other ∈ rows, key other ≠ key moved)
  (members : ∀ other, other ∈ after ↔ (other ∈ rows ∧ other ≠ row) ∨ other = moved)
  (differ : Differ key label rows)

include distinct stored less labels fresh members differ

theorem differ_of_seam (seam : Seam key label rows row (key moved)) : Differ key label after := by
  intro first second next
  obtain ⟨one, two, order, between⟩ := next
  have others : ∀ other ∈ rows, other ≠ row → key other ≤ key first ∨ key second ≤ key other :=
    fun other member ne => between other ((members other).mpr (.inl ⟨member, ne⟩))
  rcases (members first).mp one with ⟨one, oneNe⟩ | rfl
  · rcases (members second).mp two with ⟨two, twoNe⟩ | rfl
    · rcases lt_trichotomy (key row) (key first) with lower | same | higher
      · refine differ first second ⟨one, two, order, fun other member => ?_⟩
        by_cases own : other = row
        · exact .inl (own ▸ lower.le)
        · exact others other member own
      · exact absurd (distinct _ stored _ one same).symm oneNe
      rcases lt_trichotomy (key row) (key second) with lower | same | above
      · -- The row stood between the two, and now stands before both.
        have place : key moved < key first := by
          rcases between moved ((members moved).mpr (.inr rfl)) with le | ge
          · exact lt_of_le_of_ne le (fresh first one).symm
          · exact absurd (less.trans lower) (not_lt.mpr ge)
        refine seam.gap first one place higher second two lower fun other member => ?_
        by_cases own : other = row
        · exact .inr (.inl own)
        · exact (others other member own).imp_right .inr
      · exact absurd (distinct _ stored _ two same).symm twoNe
      · refine differ first second ⟨one, two, order, fun other member => ?_⟩
        by_cases own : other = row
        · exact .inr (own ▸ above.le)
        · exact others other member own
    · rw [labels]
      refine seam.before first one order fun other member lower => ?_
      have ne : other ≠ row := by
        rintro rfl
        exact absurd (lower.trans less) (lt_irrefl _)
      rcases others other member ne with le | ge
      · exact le
      · exact absurd lower (not_lt.mpr ge)
  · rcases (members second).mp two with ⟨two, twoNe⟩ | rfl
    · rw [labels]
      rcases lt_trichotomy (key second) (key row) with lower | same | higher
      · refine seam.front second two order lower fun other member above => ?_
        by_cases own : other = row
        · exact own ▸ lower.le
        · rcases others other member own with le | ge
          · exact absurd above (not_lt.mpr le)
          · exact ge
      · exact absurd (distinct _ two _ stored same) twoNe
      · refine differ row second ⟨stored, two, higher, fun other member => ?_⟩
        by_cases own : other = row
        · exact .inl (own ▸ le_rfl)
        · exact (others other member own).imp_left fun le => le.trans less.le
    · exact absurd order (lt_irrefl _)

omit distinct differ in
theorem seam_of_differ (after_differ : Differ key label after)
    (overtakes : Overtakes key rows row (key moved)) : Seam key label rows row (key moved) := by
  have there : ∀ other ∈ rows, key other ≠ key row → other ∈ after := by
    intro other member ne
    refine (members other).mpr (.inl ⟨member, ?_⟩)
    rintro rfl
    exact ne rfl
  have self : moved ∈ after := (members moved).mpr (.inr rfl)
  refine ⟨?_, ?_, ?_⟩
  · intro first member lower greatest
    rw [← labels]
    refine after_differ first moved
      ⟨there first member (lower.trans less).ne, self, lower, fun other kept => ?_⟩
    rcases (members other).mp kept with ⟨old, _⟩ | rfl
    · rcases lt_or_ge (key other) (key moved) with below | above
      · exact .inl (greatest other old below)
      · exact .inr above
    · exact .inr le_rfl
  · intro second member above lower least
    rw [← labels]
    refine after_differ moved second
      ⟨self, there second member lower.ne, above, fun other kept => ?_⟩
    rcases (members other).mp kept with ⟨old, _⟩ | rfl
    · rcases lt_or_ge (key moved) (key other) with higher | below
      · exact .inr (least other old higher)
      · exact .inl below
    · exact .inl le_rfl
  · intro first one above lower second two higher between
    refine after_differ first second
      ⟨there first one lower.ne, there second two higher.ne', lower.trans higher, fun other kept => ?_⟩
    rcases (members other).mp kept with ⟨old, ne⟩ | rfl
    · rcases between other old with le | own | ge
      · exact .inl le
      · exact absurd own ne
      · exact .inr ge
    · exact .inl above.le

omit distinct labels members in
/-- A row that moves without overtaking keeps its neighbours. -/
theorem seam_of_adjacent (alone : ¬ Overtakes key rows row (key moved)) :
    Seam key label rows row (key moved) := by
  have nobody : ∀ other ∈ rows, key moved < key other → key row ≤ key other := by
    intro other member above
    by_contra lower
    exact alone ⟨other, member, above, not_le.mp lower⟩
  refine ⟨?_, ?_, ?_⟩
  · intro first member lower greatest
    refine differ first row ⟨member, stored, lower.trans less, fun other old => ?_⟩
    rcases lt_trichotomy (key other) (key moved) with below | same | above
    · exact .inl (greatest other old below)
    · exact absurd same (fresh other old)
    · exact .inr (nobody other old above)
  · intro second member above lower _
    exact absurd lower (not_lt.mpr (nobody second member above))
  · intro first member above lower
    exact absurd lower (not_lt.mpr (nobody first member above))

/-- **Neighbours still differ after a move exactly when the rows it brings side
by side do.** -/
theorem differ_move_iff :
    Differ key label after ↔
      (Overtakes key rows row (key moved) → Seam key label rows row (key moved)) := by
  constructor
  · intro after_differ
    exact seam_of_differ stored less labels fresh members after_differ
  · intro seam
    refine differ_of_seam distinct stored less labels fresh members differ ?_
    by_cases overtakes : Overtakes key rows row (key moved)
    · exact seam overtakes
    · exact seam_of_adjacent stored less fresh differ overtakes

end Move

end BoothOperator.Adjacent
