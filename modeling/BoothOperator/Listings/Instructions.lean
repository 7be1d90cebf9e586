import BoothOperator.Listings.Completeness

/-! `GET /instructions`, whose cursor is the id of a row. The next page begins after the
cursor's row, and the cursor is the row that the page before looked ahead at, so that row is
on neither. -/
namespace BoothOperator.Listings

inductive InstructionStatus where
  | active | inactive
  deriving DecidableEq

structure Instruction where
  id : Uuid
  status : InstructionStatus
  createdAt : Instant

structure InstructionsQuery where
  limit : Limit
  status : Option InstructionStatus

def InstructionsQuery.filters (query : InstructionsQuery) (row : Instruction) : Bool :=
  query.status.all (row.status = ·)

section Order

variable [LinearOrder Uuid]

def Instruction.key (row : Instruction) : Instant ×ₗ Uuid := toLex (row.createdAt, row.id)

/-- `findMany` with `orderBy: [{ createdAt: "desc" }, { id: "desc" }]`. A cursor begins at its
row, which need not be one that the filters keep, and is without rows where there is none. -/
def findManyFrom (filters : Instruction → Bool) (take skip : Nat) (cursor : Option Uuid)
    (rows : List Instruction) : List Instruction :=
  let ordered := Keyset.orderDesc Instruction.key (rows.filter filters)
  match cursor with
  | none => (ordered.drop skip).take take
  | some cursor =>
    match rows.find? (·.id = cursor) with
    | none => []
    | some first => ((ordered.filter (·.key ≤ first.key)).drop skip).take take

/-- `GET /instructions`. -/
def getInstructions (rows : List Instruction) (query : InstructionsQuery) (cursor : Option Uuid) :
    Option (List Instruction × Option Uuid) :=
  let limit : Nat := query.limit
  let skip := if cursor.isSome then 1 else 0
  let instructions := findManyFrom query.filters (limit + 1) skip cursor rows
  let items := instructions.take limit
  let next :=
    if instructions.length > limit then instructions[limit]?.map Instruction.id else none
  some (items, next)

/-- Following the cursors reads every row that the filters keep once, in descending order. -/
def ReadsWhole (rows : List Instruction) (query : InstructionsQuery) : Prop :=
  ∃ turns items, Pages.follow (getInstructions rows query) turns none = some items ∧
    items.Perm (rows.filter query.filters) ∧
    items.Pairwise fun one other => other.key < one.key

variable {rows : List Instruction} {query : InstructionsQuery}

omit [LinearOrder Uuid] in
theorem nodup_instructionKey (distinct : (rows.map Instruction.id).Nodup) :
    (rows.map Instruction.key).Nodup := by
  refine List.Nodup.of_map (fun key => (ofLex key).2) ?_
  rw [List.map_map]
  exact distinct

theorem find?_id (distinct : (rows.map Instruction.id).Nodup) {row : Instruction}
    (member : row ∈ rows) : rows.find? (·.id = row.id) = some row := by
  obtain ⟨found, at_⟩ : ∃ found, rows.find? (·.id = row.id) = some found := by
    apply Option.isSome_iff_exists.mp
    rw [List.find?_isSome]
    exact ⟨row, member, decide_eq_true rfl⟩
  have same : found.id = row.id := of_decide_eq_true (List.find?_some (p := fun other : Instruction =>
    decide (other.id = row.id)) at_)
  rw [at_, List.inj_on_of_nodup_map distinct (List.mem_of_find?_eq_some at_) member same]

/-- From a row on come that row and those after it. -/
theorem filter_from {front rest : List Instruction} {row : Instruction}
    (descends : (front ++ row :: rest).Pairwise fun one other => other.key < one.key) :
    (front ++ row :: rest).filter (·.key ≤ row.key) = row :: rest := by
  obtain ⟨-, later, above⟩ := List.pairwise_append.mp descends
  have none : front.filter (·.key ≤ row.key) = [] := by
    refine List.filter_eq_nil_iff.mpr fun other member => ?_
    rw [decide_eq_true_eq, not_le]
    exact above other member row List.mem_cons_self
  have all : (row :: rest).filter (·.key ≤ row.key) = row :: rest := by
    refine List.filter_eq_self.mpr fun other member => decide_eq_true ?_
    rcases List.mem_cons.mp member with rfl | after
    · exact le_refl _
    · exact (List.rel_of_pairwise_cons later after).le
  rw [List.filter_append, none, all, List.nil_append]

/-- What a cursor leaves to be read. -/
def Left (rows : List Instruction) (query : InstructionsQuery) (cursor : Option Uuid)
    (rest : List Instruction) : Prop :=
  match cursor with
  | none => rest = Keyset.orderDesc Instruction.key (rows.filter query.filters)
  | some cursor => ∃ front row, row.id = cursor ∧
      Keyset.orderDesc Instruction.key (rows.filter query.filters) = front ++ row :: rest

theorem findManyFrom_left (distinct : (rows.map Instruction.id).Nodup) {cursor : Option Uuid}
    {rest : List Instruction} (left : Left rows query cursor rest) (take : Nat) :
    findManyFrom query.filters take (if cursor.isSome then 1 else 0) cursor rows =
      rest.take take := by
  cases cursor with
  | none =>
    rw [left]
    rfl
  | some cursor =>
    obtain ⟨front, row, rfl, ordered⟩ := left
    have member : row ∈ rows := by
      have kept : row ∈ Keyset.orderDesc Instruction.key (rows.filter query.filters) := by
        rw [ordered]
        exact List.mem_append_right _ List.mem_cons_self
      exact (List.mem_filter.mp (Keyset.mem_orderDesc.mp kept)).1
    have apart : ((rows.filter query.filters).map Instruction.key).Nodup :=
      (nodup_instructionKey distinct).sublist (List.filter_sublist.map _)
    have descends := Keyset.orderDesc_descends apart
    rw [ordered] at descends
    simp only [findManyFrom, find?_id distinct member, ordered, filter_from descends]
    rfl

/-- A page ends `limit` rows on, and the next begins one row after that. -/
theorem getInstructions_turn (distinct : (rows.map Instruction.id).Nodup) {cursor : Option Uuid}
    {rest : List Instruction} (left : Left rows query cursor rest) :
    ∃ next, getInstructions rows query cursor = some (rest.take query.limit, next) ∧
      (rest.length ≤ query.limit → next = none) ∧
      ((query.limit : Nat) < rest.length → ∃ token, next = some token ∧
        Left rows query (some token) (rest.drop (query.limit + 1))) := by
  have found := findManyFrom_left distinct left (query.limit + 1)
  have page : getInstructions rows query cursor = some (rest.take query.limit,
      if (rest.take (query.limit + 1)).length > query.limit then
        (rest.take (query.limit + 1))[(query.limit : Nat)]?.map Instruction.id else none) := by
    simp only [getInstructions, found, List.take_take, Nat.min_eq_left (Nat.le_succ _)]
  refine ⟨_, page, ?_, ?_⟩
  · intro last
    rw [if_neg]
    rw [List.length_take]
    omega
  · intro more
    have ahead : (rest.take (query.limit + 1))[(query.limit : Nat)]? =
        some rest[(query.limit : Nat)] := by
      rw [List.getElem?_take_of_lt (Nat.lt_succ_self _), List.getElem?_eq_getElem more]
    have cut : rest = rest.take query.limit ++
        rest[(query.limit : Nat)] :: rest.drop (query.limit + 1) := by
      rw [List.getElem_cons_drop, List.take_append_drop]
    refine ⟨rest[(query.limit : Nat)].id, ?_, ?_⟩
    · rw [if_pos, ahead, Option.map_some]
      rw [List.length_take]
      omega
    · cases cursor with
      | none => exact ⟨rest.take query.limit, _, rfl, left.symm.trans cut⟩
      | some cursor =>
        obtain ⟨front, row, -, ordered⟩ := left
        refine ⟨front ++ row :: rest.take query.limit, _, rfl, ?_⟩
        rw [ordered, List.append_assoc, List.cons_append, ← cut]

/-- What is read in all. -/
theorem follow_getInstructions (query : InstructionsQuery)
    (distinct : (rows.map Instruction.id).Nodup) :
    ∃ turns, Pages.follow (getInstructions rows query) turns none =
      some (Pages.stretches query.limit (query.limit + 1)
        (Keyset.orderDesc Instruction.key (rows.filter query.filters))) :=
  Pages.follow_eq (Left rows query) (Nat.succ_pos _)
    (fun _ _ left => getInstructions_turn distinct left) rfl

/-- Rows for more than one page are not all read. -/
theorem not_readsWhole (distinct : (rows.map Instruction.id).Nodup)
    (more : (query.limit : Nat) < (rows.filter query.filters).length) : ¬ReadsWhole rows query := by
  rintro ⟨turns, items, followed, whole, -⟩
  obtain ⟨enough, read⟩ := follow_getInstructions query distinct
  have same := Pages.follow_unique followed read
  have count : (Keyset.orderDesc Instruction.key (rows.filter query.filters)).length =
      (rows.filter query.filters).length := (Keyset.orderDesc_perm _).length_eq
  have lost := Pages.length_stretches_lt (count.symm ▸ more) (Nat.lt_succ_self _)
  rw [← same, whole.length_eq, count] at lost
  exact Nat.lt_irrefl _ lost

theorem readsWhole_iff (instructions : Keyed Instruction.id) (query : InstructionsQuery) :
    ReadsWhole instructions.rows query ↔
      (instructions.rows.filter query.filters).length ≤ query.limit := by
  constructor
  · intro whole
    by_contra more
    exact not_readsWhole instructions.distinct (Nat.lt_of_not_le more) whole
  · intro few
    obtain ⟨turns, read⟩ := follow_getInstructions query instructions.distinct
    rw [Pages.stretches_of_le (by rwa [(Keyset.orderDesc_perm _).length_eq])] at read
    refine ⟨turns, _, read, Keyset.orderDesc_perm _, ?_⟩
    exact Keyset.orderDesc_descends ((nodup_instructionKey instructions.distinct).sublist
      (List.filter_sublist.map _))

end Order

/-! ## Two instructions, one at a time -/

theorem not_readsWhole_two :
    letI := uuidsByText
    ¬ReadsWhole [⟨lowId, .active, ⟨0, by decide⟩⟩, ⟨highId, .active, ⟨1, by decide⟩⟩]
      ⟨⟨1, by decide⟩, none⟩ := by
  let := uuidsByText
  refine not_readsWhole ?_ (by decide)
  simp [lowId, highId]

end BoothOperator.Listings
