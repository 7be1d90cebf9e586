import Mathlib.Algebra.Ring.Nat
import Mathlib.Data.List.Nodup
import Mathlib.Order.Lattice
import Mathlib.Order.OrderDual

/-! A table of a relational store as the list of its rows: the bulk update, the
look-up by a key column, and the first row in a descending order. Rows with
equal sort keys come back in their stored order, so that a query repeated over
unchanged rows answers the same. -/
namespace BoothOperator.Table

variable {ρ κ ι : Type*}

/-- `UPDATE .. SET change WHERE found`. -/
def updateMany (found : ρ → Bool) (change : ρ → ρ) (rows : List ρ) : List ρ :=
  rows.map fun row => if found row then change row else row

/-- `SELECT .. WHERE key = wanted` on a unique column. -/
def findUnique [DecidableEq κ] (key : ρ → κ) (wanted : κ) (rows : List ρ) : Option ρ :=
  rows.find? fun row => key row == wanted

/-- The first row of `ORDER BY key DESC`. -/
def newest [LinearOrder ι] (key : ρ → ι) : List ρ → Option ρ
  | [] => none
  | row :: rest =>
    match newest key rest with
    | none => some row
    | some other => if key row < key other then some other else some row

/-- `SELECT .. WHERE found ORDER BY key DESC LIMIT 1`. -/
def latest [LinearOrder ι] (key : ρ → ι) (found : ρ → Bool) (rows : List ρ) : Option ρ :=
  newest key (rows.filter found)

theorem mem_updateMany {found : ρ → Bool} {change : ρ → ρ} {rows : List ρ} {row : ρ} :
    row ∈ updateMany found change rows ↔
      ∃ old ∈ rows, row = if found old then change old else old := by
  simp only [updateMany, List.mem_map]
  exact ⟨fun ⟨old, member, same⟩ => ⟨old, member, same.symm⟩,
    fun ⟨old, member, same⟩ => ⟨old, member, same.symm⟩⟩

theorem updateMany_of_none {found : ρ → Bool} {change : ρ → ρ} {rows : List ρ}
    (none : ∀ row ∈ rows, found row = false) : updateMany found change rows = rows := by
  rw [updateMany]
  conv_rhs => rw [← List.map_id rows]
  refine List.map_congr_left fun row member => ?_
  simp [none row member]

/-- A column that the update keeps in the rows it finds. -/
theorem map_updateMany_found {γ : Type*} {found : ρ → Bool} {change : ρ → ρ} (column : ρ → γ)
    {rows : List ρ} (kept : ∀ row ∈ rows, found row = true → column (change row) = column row) :
    (updateMany found change rows).map column = rows.map column := by
  rw [updateMany, List.map_map]
  refine List.map_congr_left fun row member => ?_
  simp only [Function.comp]
  split
  · rename_i matched
    exact kept row member matched
  · rfl

theorem map_updateMany {γ : Type*} {found : ρ → Bool} {change : ρ → ρ} (column : ρ → γ)
    (kept : ∀ row, column (change row) = column row) (rows : List ρ) :
    (updateMany found change rows).map column = rows.map column :=
  map_updateMany_found column fun row _ _ => kept row

theorem findUnique_mem [DecidableEq κ] {key : ρ → κ} {wanted : κ} {rows : List ρ} {row : ρ}
    (found : findUnique key wanted rows = some row) : row ∈ rows ∧ key row = wanted :=
  ⟨List.mem_of_find?_eq_some found, by simpa using List.find?_some found⟩

theorem findUnique_updateMany_found [DecidableEq κ] {key : ρ → κ} {found : ρ → Bool}
    {change : ρ → ρ} (kept : ∀ row, found row = true → key (change row) = key row) (wanted : κ)
    (rows : List ρ) :
    findUnique key wanted (updateMany found change rows) =
      (findUnique key wanted rows).map fun row => if found row then change row else row := by
  induction rows with
  | nil => rfl
  | cons row rest ih =>
    have same : key (if found row then change row else row) = key row := by
      split
      · rename_i matched
        exact kept row matched
      · rfl
    simp only [findUnique, updateMany, List.map_cons, List.find?_cons, same] at ih ⊢
    cases key row == wanted with
    | true => rfl
    | false => exact ih

/-- A look-up by a column that the update keeps sees the updated row. -/
theorem findUnique_updateMany [DecidableEq κ] {key : ρ → κ} {found : ρ → Bool} {change : ρ → ρ}
    (kept : ∀ row, key (change row) = key row) (wanted : κ) (rows : List ρ) :
    findUnique key wanted (updateMany found change rows) =
      (findUnique key wanted rows).map fun row => if found row then change row else row :=
  findUnique_updateMany_found (fun row _ => kept row) wanted rows

theorem findUnique_of_mem [DecidableEq κ] {key : ρ → κ} {rows : List ρ} {row : ρ}
    (distinct : (rows.map key).Nodup) (member : row ∈ rows) :
    findUnique key (key row) rows = some row := by
  induction rows with
  | nil => cases member
  | cons first rest ih =>
    simp only [List.map_cons, List.nodup_cons] at distinct
    simp only [findUnique, List.find?_cons] at ih ⊢
    rcases List.mem_cons.mp member with rfl | later
    · simp
    · have differ : key first ≠ key row := fun same =>
        distinct.1 (List.mem_map.mpr ⟨row, later, same.symm⟩)
      simp only [beq_eq_false_iff_ne.mpr differ]
      exact ih distinct.2 later

/-- A look-up among the rows of a filter that keeps the row looked for. -/
theorem findUnique_filter [DecidableEq κ] {key : ρ → κ} {wanted : κ} {keep : ρ → Bool}
    (kept : ∀ row, key row = wanted → keep row = true) (rows : List ρ) :
    findUnique key wanted (rows.filter keep) = findUnique key wanted rows := by
  unfold findUnique
  rw [List.find?_filter]
  congr 1
  funext row
  by_cases own : key row = wanted
  · simp [own, kept row own]
  · simp [own]

/-- Rows of a table with a unique column agree when they share its value. -/
theorem eq_of_key_eq {key : ρ → κ} {rows : List ρ} {first second : ρ}
    (distinct : (rows.map key).Nodup) (one : first ∈ rows) (other : second ∈ rows)
    (same : key first = key second) : first = second :=
  List.inj_on_of_nodup_map distinct one other same

/-- An update of one row: the others stay, and the one is the changed one. -/
theorem mem_updateMany_unique {key : ρ → κ} {wanted : κ} {found : ρ → Bool} {change : ρ → ρ}
    {rows : List ρ} (distinct : (rows.map key).Nodup) (some : ∃ row ∈ rows, found row = true)
    (own : ∀ row, found row = true → key row = wanted) {row : ρ}
    (member : row ∈ updateMany found change rows) :
    (key row ≠ wanted ∧ row ∈ rows) ∨
      ∃ old ∈ rows, found old = true ∧ key old = wanted ∧ row = change old := by
  obtain ⟨old, there, rfl⟩ := mem_updateMany.mp member
  by_cases matched : found old = true
  · rw [if_pos matched]
    exact .inr ⟨old, there, matched, own old matched, rfl⟩
  · rw [if_neg matched]
    refine .inl ⟨fun same => ?_, there⟩
    obtain ⟨one, present, hit⟩ := some
    have agree := eq_of_key_eq distinct there present (same.trans (own one hit).symm)
    exact matched (agree ▸ hit)

/-- A filter that the update does not cross. -/
theorem filter_updateMany {found keep : ρ → Bool} {change : ρ → ρ}
    (kept : ∀ row, keep (change row) = keep row) (rows : List ρ) :
    (updateMany found change rows).filter keep = updateMany found change (rows.filter keep) := by
  induction rows with
  | nil => rfl
  | cons row rest ih =>
    have same : keep (if found row then change row else row) = keep row := by
      split
      · exact kept row
      · rfl
    simp only [updateMany, List.map_cons, List.filter_cons, same] at ih ⊢
    split
    · rw [List.map_cons, ih]
    · exact ih

/-- The rows after an update of one row. -/
theorem mem_updateMany_iff {key : ρ → κ} [DecidableEq κ] {change : ρ → ρ} {rows : List ρ} {row : ρ}
    (distinct : (rows.map key).Nodup) (stored : row ∈ rows) (other : ρ) :
    other ∈ updateMany (fun old => key old = key row) change rows ↔
      (other ∈ rows ∧ key other ≠ key row) ∨ other = change row := by
  rw [mem_updateMany]
  constructor
  · rintro ⟨old, there, rfl⟩
    by_cases own : key old = key row
    · have one := eq_of_key_eq distinct there stored own
      exact .inr (by simp [one])
    · exact .inl (by simpa [own] using there)
  · rintro (⟨there, ne⟩ | rfl)
    · exact ⟨other, there, by simp [ne]⟩
    · exact ⟨row, stored, by simp⟩

/-- An update that adds one to a column of one row. -/
theorem sum_updateMany {key : ρ → κ} [DecidableEq κ] {change : ρ → ρ} {column : ρ → Nat}
    {rows : List ρ} {row : ρ} (distinct : (rows.map key).Nodup) (stored : row ∈ rows)
    (adds : column (change row) = column row + 1) :
    ((updateMany (fun old => key old = key row) change rows).map column).sum =
      (rows.map column).sum + 1 := by
  induction rows with
  | nil => cases stored
  | cons first rest ih =>
    rw [List.map_cons, List.nodup_cons] at distinct
    rcases List.mem_cons.mp stored with rfl | later
    · have untouched : updateMany (fun old => key old = key row) change rest = rest := by
        refine updateMany_of_none fun old there => decide_eq_false fun same => distinct.1 ?_
        exact List.mem_map.mpr ⟨old, there, same⟩
      have shape : updateMany (fun old => key old = key row) change (row :: rest) =
          change row :: rest := by
        conv_rhs => rw [← untouched]
        simp [updateMany]
      rw [shape, List.map_cons, List.map_cons, List.sum_cons, List.sum_cons, adds]
      omega
    · have ne : key first ≠ key row := fun same =>
        distinct.1 (List.mem_map.mpr ⟨row, later, same.symm⟩)
      have shape : updateMany (fun old => key old = key row) change (first :: rest) =
          first :: updateMany (fun old => key old = key row) change rest := by
        simp [updateMany, ne]
      rw [shape, List.map_cons, List.map_cons, List.sum_cons, List.sum_cons, ih distinct.2 later]
      omega

/-- A filter that finds one row of a table by its key counts it once. -/
theorem countP_unique {key : ρ → κ} {found : ρ → Bool} {rows : List ρ} {row : ρ}
    (distinct : (rows.map key).Nodup) (stored : row ∈ rows) (hit : found row = true)
    (own : ∀ other, found other = true → key other = key row) : rows.countP found = 1 := by
  induction rows with
  | nil => cases stored
  | cons first rest ih =>
    rw [List.map_cons, List.nodup_cons] at distinct
    rcases List.mem_cons.mp stored with rfl | later
    · have none : rest.countP found = 0 := by
        rw [List.countP_eq_zero]
        exact fun other there met => distinct.1 (List.mem_map.mpr ⟨other, there, own other met⟩)
      rw [List.countP_cons_of_pos hit, none]
    · have miss : ¬found first = true := fun met =>
        distinct.1 (List.mem_map.mpr ⟨row, later, (own first met).symm⟩)
      rw [List.countP_cons_of_neg miss]
      exact ih distinct.2 later

/-- An update after which the one row that it finds is no longer wanted. -/
theorem countP_updateMany {key : ρ → κ} {found wanted : ρ → Bool} {change : ρ → ρ} {rows : List ρ}
    {row : ρ} (distinct : (rows.map key).Nodup) (stored : row ∈ rows) (hit : found row = true)
    (own : ∀ other, found other = true → key other = key row) (was : wanted row = true)
    (gone : wanted (change row) = false) :
    (updateMany found change rows).countP wanted + 1 = rows.countP wanted := by
  induction rows with
  | nil => cases stored
  | cons first rest ih =>
    rw [List.map_cons, List.nodup_cons] at distinct
    rcases List.mem_cons.mp stored with rfl | later
    · have untouched : updateMany found change rest = rest := by
        refine updateMany_of_none fun old there => Bool.eq_false_iff.mpr fun met => distinct.1 ?_
        exact List.mem_map.mpr ⟨old, there, own old met⟩
      have shape : updateMany found change (row :: rest) = change row :: rest := by
        conv_rhs => rw [← untouched]
        simp [updateMany, hit]
      rw [shape, List.countP_cons_of_pos was, List.countP_cons_of_neg (by simp [gone])]
    · have miss : ¬found first = true := fun met =>
        distinct.1 (List.mem_map.mpr ⟨row, later, (own first met).symm⟩)
      have shape : updateMany found change (first :: rest) =
          first :: updateMany found change rest := by
        simp [updateMany, miss]
      rw [shape, List.countP_cons, List.countP_cons, ← ih distinct.2 later]
      omega

/-- An id beyond every id in use keeps the column unique. -/
theorem nodup_append_fresh {key : ρ → Nat} {rows : List ρ} {fresh : Nat}
    (distinct : (rows.map key).Nodup) (bound : ∀ row ∈ rows, key row < fresh) :
    (rows.map key ++ [fresh]).Nodup := by
  refine List.nodup_append.mpr ⟨distinct, List.nodup_singleton _, ?_⟩
  intro used member other new same
  obtain ⟨row, there, rfl⟩ := List.mem_map.mp member
  rw [List.mem_singleton] at new
  exact absurd (bound row there) (by omega)

section Upsert

variable [DecidableEq κ]

/-- Merge the row into the one of its key, or append it. -/
def upsert (key : ρ → κ) (merge : ρ → ρ → ρ) (row : ρ) (rows : List ρ) : List ρ :=
  if rows.any fun old => key old = key row then
    updateMany (fun old => key old = key row) (fun old => merge old row) rows
  else rows ++ [row]

theorem findUnique_append_single (key : ρ → κ) (wanted : κ) (rows : List ρ) (row : ρ) :
    findUnique key wanted (rows ++ [row]) =
      (findUnique key wanted rows).or (if key row = wanted then some row else none) := by
  simp only [findUnique, List.find?_append, List.find?_singleton, beq_iff_eq]

theorem findUnique_eq_none {key : ρ → κ} {wanted : κ} {rows : List ρ} :
    findUnique key wanted rows = none ↔ ∀ row ∈ rows, key row ≠ wanted := by
  simp [findUnique]

theorem findUnique_upsert {key : ρ → κ} {merge : ρ → ρ → ρ} {row : ρ}
    (kept : ∀ old, key (merge old row) = key row) (wanted : κ) (rows : List ρ) :
    findUnique key wanted (upsert key merge row rows) =
      if key row = wanted then
        some ((findUnique key wanted rows).elim row fun old => merge old row)
      else findUnique key wanted rows := by
  unfold upsert
  split
  · rename_i stored
    obtain ⟨one, member, same⟩ := List.any_eq_true.mp stored
    have keeps : ∀ old, decide (key old = key row) = true → key (merge old row) = key old :=
      fun old same => (kept old).trans (of_decide_eq_true same).symm
    rw [findUnique_updateMany_found keeps]
    by_cases own : key row = wanted
    · rw [if_pos own]
      cases found : findUnique key wanted rows with
      | none =>
        have same : key one = key row := of_decide_eq_true same
        exact absurd (same.trans own) (findUnique_eq_none.mp found one member)
      | some old =>
        have named : key old = key row := (findUnique_mem found).2.trans own.symm
        simp [named]
    · rw [if_neg own]
      cases found : findUnique key wanted rows with
      | none => rfl
      | some old =>
        have other : key old ≠ key row := fun same => own (same.symm.trans (findUnique_mem found).2)
        simp [other]
  · rename_i fresh
    rw [findUnique_append_single]
    by_cases own : key row = wanted
    · have missing : findUnique key wanted rows = none := by
        refine findUnique_eq_none.mpr fun old member same => fresh ?_
        exact List.any_eq_true.mpr ⟨old, member, decide_eq_true (same.trans own.symm)⟩
      simp [own, missing]
    · simp [own]

theorem nodup_upsert {key : ρ → κ} {merge : ρ → ρ → ρ} {row : ρ} {rows : List ρ}
    (kept : ∀ old, key (merge old row) = key row) (distinct : (rows.map key).Nodup) :
    ((upsert key merge row rows).map key).Nodup := by
  unfold upsert
  split
  · rw [map_updateMany_found key fun old _ same => (kept old).trans (of_decide_eq_true same).symm]
    exact distinct
  · rename_i fresh
    rw [List.map_append, List.map_singleton]
    refine List.nodup_append.mpr ⟨distinct, List.nodup_singleton _, ?_⟩
    rintro used member _ new rfl
    rw [List.mem_singleton] at new
    obtain ⟨old, there, same⟩ := List.mem_map.mp member
    exact fresh (List.any_eq_true.mpr ⟨old, there, decide_eq_true (same.trans new)⟩)

end Upsert

section Latest

variable [LinearOrder ι] {key : ρ → ι}

theorem newest_nil : newest key ([] : List ρ) = none := rfl

theorem newest_cons (row : ρ) (rest : List ρ) : newest key (row :: rest) =
    match newest key rest with
    | none => some row
    | some other => if key row < key other then some other else some row := rfl

theorem newest_eq_none {rows : List ρ} : newest key rows = none ↔ rows = [] := by
  cases rows with
  | nil => simp [newest_nil]
  | cons row rest =>
    simp only [newest_cons, reduceCtorEq, iff_false]
    cases newest key rest with
    | none => simp
    | some other => simp only; split <;> simp

theorem newest_mem {rows : List ρ} {row : ρ} (first : newest key rows = some row) :
    row ∈ rows := by
  induction rows generalizing row with
  | nil => cases first
  | cons head rest ih =>
    simp only [newest_cons] at first
    cases later : newest key rest with
    | none => rw [later] at first; cases first; exact List.mem_cons_self
    | some other =>
      rw [later] at first
      simp only at first
      split at first
      · cases first; exact List.mem_cons_of_mem _ (ih later)
      · cases first; exact List.mem_cons_self

theorem newest_max {rows : List ρ} {row : ρ} (first : newest key rows = some row) :
    ∀ other ∈ rows, key other ≤ key row := by
  induction rows generalizing row with
  | nil => cases first
  | cons head rest ih =>
    intro other member
    simp only [newest_cons] at first
    cases later : newest key rest with
    | none =>
      rw [newest_eq_none] at later
      subst later
      simp only [newest_nil, Option.some.injEq] at first
      subst first
      simp at member
      exact member ▸ le_rfl
    | some best =>
      rw [later] at first
      simp only at first
      split at first <;> rename_i order <;> cases first
      · rcases List.mem_cons.mp member with rfl | there
        · exact order.le
        · exact ih later other there
      · rcases List.mem_cons.mp member with rfl | there
        · exact le_rfl
        · exact (ih later other there).trans (not_lt.mp order)

/-- The newest row stays the newest of any selection that keeps it. -/
theorem newest_filter {rows : List ρ} {row : ρ} {keep : ρ → Bool}
    (first : newest key rows = some row) (kept : keep row = true) :
    newest key (rows.filter keep) = some row := by
  induction rows generalizing row with
  | nil => cases first
  | cons head rest ih =>
    simp only [newest_cons] at first
    cases later : newest key rest with
    | none =>
      rw [later] at first
      cases first
      rw [newest_eq_none] at later
      simp [later, kept, newest_cons, newest_nil]
    | some best =>
      rw [later] at first
      simp only at first
      split at first <;> rename_i order <;> cases first
      · have rest_newest := ih later kept
        by_cases headKept : keep head
        · simp [headKept, newest_cons, rest_newest, order]
        · simp [headKept, rest_newest]
      · simp only [List.filter_cons, kept, if_true, newest_cons]
        cases other : newest key (rest.filter keep) with
        | none => rfl
        | some runner =>
          have there : runner ∈ rest := List.mem_of_mem_filter (newest_mem other)
          have bound := (newest_max later runner there).trans (not_lt.mp order)
          simp [not_lt.mpr bound]

/-- An update that keeps the sort column. -/
theorem newest_updateMany {found : ρ → Bool} {change : ρ → ρ}
    (kept : ∀ row, key (change row) = key row) (rows : List ρ) :
    newest key (updateMany found change rows) =
      (newest key rows).map fun row => if found row then change row else row := by
  have keys : ∀ row, key (if found row then change row else row) = key row := by
    intro row
    split
    · exact kept row
    · rfl
  induction rows with
  | nil => rfl
  | cons head rest ih =>
    simp only [updateMany, List.map_cons, newest_cons] at ih ⊢
    rw [ih]
    cases newest key rest with
    | none => rfl
    | some other =>
      simp only [Option.map_some, keys]
      split
      · rfl
      · rfl

theorem latest_updateMany {found wanted : ρ → Bool} {change : ρ → ρ}
    (kept : ∀ row, key (change row) = key row) (still : ∀ row, wanted (change row) = wanted row)
    (rows : List ρ) :
    latest key wanted (updateMany found change rows) =
      (latest key wanted rows).map fun row => if found row then change row else row := by
  rw [latest, filter_updateMany still, newest_updateMany kept, latest]

theorem latest_mem {found : ρ → Bool} {rows : List ρ} {row : ρ}
    (first : latest key found rows = some row) : row ∈ rows ∧ found row = true :=
  List.mem_filter.mp (newest_mem first)

theorem latest_max {found : ρ → Bool} {rows : List ρ} {row : ρ}
    (first : latest key found rows = some row) :
    ∀ other ∈ rows, found other = true → key other ≤ key row :=
  fun other member met => newest_max first other (List.mem_filter.mpr ⟨member, met⟩)

/-- The first row of `ORDER BY key ASC`. -/
def earliest (key : ρ → ι) (found : ρ → Bool) (rows : List ρ) : Option ρ :=
  latest (fun row => OrderDual.toDual (key row)) found rows

theorem earliest_mem {found : ρ → Bool} {rows : List ρ} {row : ρ}
    (first : earliest key found rows = some row) : row ∈ rows ∧ found row = true :=
  List.mem_filter.mp (newest_mem first)

theorem earliest_min {found : ρ → Bool} {rows : List ρ} {row : ρ}
    (first : earliest key found rows = some row) :
    ∀ other ∈ rows, found other = true → key row ≤ key other :=
  fun other member met => OrderDual.toDual_le_toDual.mp
    (newest_max first other (List.mem_filter.mpr ⟨member, met⟩))

theorem latest_eq_none {found : ρ → Bool} {rows : List ρ} :
    latest key found rows = none ↔ ∀ row ∈ rows, ¬ found row = true := by
  rw [latest, newest_eq_none, List.filter_eq_nil_iff]

theorem earliest_eq_none {found : ρ → Bool} {rows : List ρ} :
    earliest key found rows = none ↔ ∀ row ∈ rows, ¬ found row = true :=
  latest_eq_none

/-- The latest row of a query is the latest of every narrower query it meets. -/
theorem latest_narrow {wide narrow : ρ → Bool} {rows : List ρ} {row : ρ}
    (first : latest key wide rows = some row) (met : narrow row = true)
    (within : ∀ other, narrow other = true → wide other = true) :
    latest key narrow rows = some row := by
  have same : rows.filter narrow = (rows.filter wide).filter narrow := by
    rw [List.filter_filter]
    refine List.filter_congr fun other _ => ?_
    cases narrowed : narrow other with
    | false => rfl
    | true => simp [within other narrowed]
  rw [latest, same]
  exact newest_filter first met

/-- The first row after an insert is the new one or the first before. -/
theorem newest_append {rows : List ρ} {new row : ρ}
    (first : newest key (rows ++ [new]) = some row) : row = new ∨ newest key rows = some row := by
  induction rows generalizing row with
  | nil =>
    cases first
    exact .inl rfl
  | cons head rest ih =>
    simp only [List.cons_append, newest_cons] at first ⊢
    cases later : newest key (rest ++ [new]) with
    | none =>
      rw [newest_eq_none] at later
      simp at later
    | some other =>
      rw [later] at first
      simp only at first
      rcases ih later with rfl | before
      · split at first
        · exact .inl (Option.some.inj first).symm
        · rename_i order
          refine .inr ?_
          cases found : newest key rest with
          | none => exact first
          | some runner =>
            have there : runner ∈ rest ++ [other] := List.mem_append_left _ (newest_mem found)
            have bound := (newest_max later runner there).trans (not_lt.mp order)
            simp only
            rw [if_neg (not_lt.mpr bound)]
            exact first
      · rw [before]
        exact .inr first

theorem latest_append {found : ρ → Bool} {rows : List ρ} {new row : ρ}
    (first : latest key found (rows ++ [new]) = some row) :
    row = new ∨ latest key found rows = some row := by
  rw [latest, List.filter_append] at first
  by_cases met : found new = true
  · rw [List.filter_cons_of_pos met, List.filter_nil] at first
    exact newest_append first
  · rw [List.filter_cons_of_neg met, List.filter_nil, List.append_nil] at first
    exact .inr first

/-- An inserted row comes first when it is above every row before it. -/
theorem newest_append_single (rows : List ρ) (new : ρ) :
    newest key (rows ++ [new]) =
      match newest key rows with
      | none => some new
      | some row => if key row < key new then some new else some row := by
  induction rows with
  | nil => rfl
  | cons head rest ih =>
    rw [List.cons_append, newest_cons, ih, newest_cons]
    cases newest key rest with
    | none =>
      by_cases above : key head < key new
      · simp [above]
      · simp [above]
    | some best =>
      by_cases above : key best < key new
      · by_cases order : key head < key best
        · simp [above, order, order.trans above]
        · by_cases past : key head < key new
          · simp [above, order, past]
          · simp [above, order, past]
      · by_cases order : key head < key best
        · simp [above, order]
        · have below : ¬ key head < key new := fun past =>
            above ((not_lt.mp order).trans_lt past)
          simp [above, order, below]

/-- An update that takes the rows it finds out of the query. -/
theorem latest_updateMany_dropped {found wanted : ρ → Bool} {change : ρ → ρ}
    (dropped : ∀ row, found row = true → wanted (change row) = false) (rows : List ρ) :
    latest key wanted (updateMany found change rows) =
      latest key (fun row => wanted row && !found row) rows := by
  have same : (updateMany found change rows).filter wanted =
      rows.filter fun row => wanted row && !found row := by
    induction rows with
    | nil => rfl
    | cons row rest ih =>
      rw [updateMany, List.map_cons, List.filter_cons, List.filter_cons]
      rw [updateMany] at ih
      cases matched : found row with
      | true => simp [dropped row matched, ih]
      | false => simp [ih]
  rw [latest, same, latest]

/-- The latest row after an update that leaves the rows of the query alone is one
that the update brought into it or the latest before. -/
theorem latest_widened {found wanted : ρ → Bool} {change : ρ → ρ} {rows : List ρ} {row : ρ}
    (kept : ∀ row, key (change row) = key row)
    (spared : ∀ row ∈ rows, wanted row = true → found row = false)
    (first : latest key wanted (updateMany found change rows) = some row) :
    (∃ old ∈ rows, found old = true ∧ row = change old) ∨ latest key wanted rows = some row := by
  let wide (row : ρ) : Bool := wanted (if found row then change row else row)
  have same : (updateMany found change rows).filter wanted =
      updateMany found change (rows.filter wide) := by
    rw [updateMany, updateMany, List.filter_map]
    rfl
  rw [latest, same, newest_updateMany kept, Option.map_eq_some_iff] at first
  obtain ⟨old, newest, rfl⟩ := first
  obtain ⟨member, met⟩ := List.mem_filter.mp (newest_mem newest)
  by_cases matched : found old = true
  · exact .inl ⟨old, member, matched, if_pos matched⟩
  · rw [if_neg matched]
    have met' : wanted old = true := by
      simp only [wide, if_neg matched] at met
      exact met
    refine .inr ?_
    have narrow : rows.filter wanted = (rows.filter wide).filter wanted := by
      rw [List.filter_filter]
      refine List.filter_congr fun other there => ?_
      cases asked : wanted other with
      | false => rfl
      | true => simp [wide, spared other there asked, asked]
    rw [latest, narrow]
    exact newest_filter newest met'

end Latest

end BoothOperator.Table
