import Mathlib.Data.List.Sort
import Mathlib.Order.Lattice

/-! Keyset pagination over a table that does not change: a page holds the rows
with the greatest keys below a cursor, and the cursor moves to the key of its
last row. Where keys are distinct, the pages are the consecutive stretches of the
rows in descending order. -/
namespace BoothOperator.Keyset

variable {ρ κ : Type*} [LinearOrder κ] {key : ρ → κ} {rows : List ρ}

/-- `ORDER BY key DESC` puts the one before the other. -/
def Descends (key : ρ → κ) (one other : ρ) : Prop := key other ≤ key one

instance : DecidableRel (Descends key) := fun _ _ => inferInstanceAs (Decidable (_ ≤ _))

instance : Std.Total (Descends key) where
  total one other := le_total (key other) (key one)

instance : IsTrans ρ (Descends key) where
  trans _ _ _ first second := le_trans second first

def orderDesc (key : ρ → κ) (rows : List ρ) : List ρ := rows.insertionSort (Descends key)

/-- `SELECT .. WHERE key < cursor ORDER BY key DESC LIMIT take`. -/
def findMany (key : ρ → κ) (take : Nat) (cursor : Option κ) (rows : List ρ) : List ρ :=
  (orderDesc key (rows.filter fun row => cursor.all fun bound => key row < bound)).take take

/-- The cursor after a page: an empty one leaves it where it is. -/
def advance (key : ρ → κ) (cursor : Option κ) (page : List ρ) : Option κ :=
  (page.getLast?.map key).or cursor

/-- The page of an index, of the rows in their order. -/
def pageAt (take index : Nat) (ordered : List ρ) : List ρ :=
  (ordered.drop (index * take)).take take

/-- The cursor before the page of an index. -/
def cursorAt (key : ρ → κ) (take index : Nat) (ordered : List ρ) : Option κ :=
  (ordered.take (index * take)).getLast?.map key

/-! ## The order -/

theorem orderDesc_perm (rows : List ρ) : (orderDesc key rows).Perm rows :=
  List.perm_insertionSort _ _

theorem mem_orderDesc {row : ρ} : row ∈ orderDesc key rows ↔ row ∈ rows :=
  (orderDesc_perm rows).mem_iff

/-- Distinct keys descend strictly. -/
theorem orderDesc_descends (distinct : (rows.map key).Nodup) :
    (orderDesc key rows).Pairwise fun one other => key other < key one := by
  have sorted : (orderDesc key rows).Pairwise (Descends key) := List.pairwise_insertionSort _ _
  have apart : (orderDesc key rows).Pairwise fun one other => key one ≠ key other := by
    rw [← List.pairwise_map]
    exact ((orderDesc_perm rows).map key).nodup_iff.mpr distinct
  apply (sorted.and apart).imp
  rintro one other ⟨below, differ⟩
  exact lt_of_le_of_ne below differ.symm

theorem orderDesc_filter (distinct : (rows.map key).Nodup) (keep : ρ → Bool) :
    orderDesc key (rows.filter keep) = (orderDesc key rows).filter keep := by
  have fewer : ((rows.filter keep).map key).Nodup :=
    distinct.sublist (List.filter_sublist.map key)
  apply List.Perm.eq_of_pairwise _ (orderDesc_descends fewer)
    ((orderDesc_descends distinct).filter keep)
  · exact (orderDesc_perm _).trans ((orderDesc_perm rows).symm.filter keep)
  · intro one other _ _ below above
    exact absurd (below.trans above) (lt_irrefl _)

/-- Below the last of the first rows are the rest of them. -/
theorem filter_below_last {ordered : List ρ} {count : Nat} {last : ρ}
    (descends : ordered.Pairwise fun one other => key other < key one)
    (found : (ordered.take count).getLast? = some last) :
    ordered.filter (fun row => key row < key last) = ordered.drop count := by
  obtain ⟨front, split⟩ := List.getLast?_eq_some_iff.mp found
  have whole : ordered = front ++ [last] ++ ordered.drop count := by
    rw [← split, List.take_append_drop]
  rw [whole, List.pairwise_append, List.pairwise_append] at descends
  obtain ⟨⟨-, -, above⟩, -, below⟩ := descends
  have none : (front ++ [last]).filter (fun row => key row < key last) = [] := by
    apply List.filter_eq_nil_iff.mpr
    intro row member
    simp only [decide_eq_true_eq, not_lt]
    rcases List.mem_append.mp member with earlier | own
    · exact (above row earlier last List.mem_cons_self).le
    · rw [List.mem_singleton.mp own]
  have all : (ordered.drop count).filter (fun row => key row < key last) = ordered.drop count := by
    apply List.filter_eq_self.mpr
    intro row member
    exact decide_eq_true (below last (List.mem_append_right _ List.mem_cons_self) row member)
  conv_lhs => rw [whole]
  rw [List.filter_append, none, all, List.nil_append]

/-! ## Pages -/

/-- Below the key of the last row before it, the rest of the rows follows. -/
theorem findMany_below (distinct : (rows.map key).Nodup) {front rest : List ρ}
    (ordered : orderDesc key rows = front ++ rest) (take : Nat) :
    findMany key take (front.getLast?.map key) rows = rest.take take := by
  rw [findMany, orderDesc_filter distinct]
  congr 1
  cases found : front.getLast? with
  | none =>
    have nothing : front = [] := List.getLast?_eq_none_iff.mp found
    simp [ordered, nothing]
  | some last =>
    have taken : ((orderDesc key rows).take front.length).getLast? = some last := by
      rw [ordered, List.take_left, found]
    have below := filter_below_last (orderDesc_descends distinct) taken
    rw [ordered, List.drop_left] at below
    rw [ordered]
    exact below

/-- The page after the cursor of an index is the page of that index. -/
theorem findMany_cursorAt (distinct : (rows.map key).Nodup) (take index : Nat) :
    findMany key take (cursorAt key take index (orderDesc key rows)) rows =
      pageAt take index (orderDesc key rows) :=
  findMany_below distinct (List.take_append_drop _ _).symm take

omit [LinearOrder κ] in
theorem advance_cursorAt (take index : Nat) (ordered : List ρ) :
    advance key (cursorAt key take index ordered) (pageAt take index ordered) =
      cursorAt key take (index + 1) ordered := by
  have longer : ordered.take ((index + 1) * take) =
      ordered.take (index * take) ++ pageAt take index ordered := by
    rw [Nat.succ_mul, List.take_add, pageAt]
  rw [advance, cursorAt, cursorAt, longer, List.getLast?_append, Option.map_or]

omit [LinearOrder κ] in
theorem cursorAt_zero (take : Nat) (ordered : List ρ) : cursorAt key take 0 ordered = none := by
  simp [cursorAt]

/-- A page is full as long as the rows reach to its end. -/
theorem length_pageAt_eq {take index : Nat} {ordered : List ρ} :
    (pageAt take index ordered).length = take ↔ (index + 1) * take ≤ ordered.length := by
  rcases Nat.eq_zero_or_pos take with rfl | positive
  · simp [pageAt]
  · rw [pageAt, List.length_take, List.length_drop, Nat.succ_mul]
    omega

/-- The rows of a page are those whose place falls in it. -/
theorem mem_pageAt {take index : Nat} {ordered : List ρ} {row : ρ} (positive : 0 < take) :
    row ∈ pageAt take index ordered ↔
      ∃ place, ordered[place]? = some row ∧ place / take = index := by
  rw [pageAt, List.mem_iff_getElem?]
  constructor
  · rintro ⟨offset, found⟩
    rw [List.getElem?_take] at found
    split at found
    · rename_i inside
      rw [List.getElem?_drop] at found
      refine ⟨index * take + offset, found, ?_⟩
      rw [Nat.mul_comm, Nat.mul_add_div positive, Nat.div_eq_of_lt inside, Nat.add_zero]
    · cases found
  · rintro ⟨place, found, rfl⟩
    refine ⟨place % take, ?_⟩
    rw [List.getElem?_take, if_pos (Nat.mod_lt place positive), List.getElem?_drop,
      Nat.mul_comm, Nat.div_add_mod]
    exact found

end BoothOperator.Keyset
