import Mathlib.Data.List.Induction
import Mathlib.Data.List.Nodup
import Mathlib.Logic.Function.Basic

/-! Filling the tables of a relational store one row after another, each row
checked against what is already there, and references between the rows. The
tables of a store are indexed by their names; a table is the list of its rows.
`load_listing_iff` says when a whole dump goes in: every row must be admitted
by the rows listed before it. `loads_iff_closed` is the case of references:
a dump goes in parents first exactly when every reference leads to a row of
the dump. -/
namespace BoothOperator.Loading

variable {μ ρ : Type*}

abbrev Tables (μ ρ : Type*) := μ → List ρ

def empty : Tables μ ρ := fun _ => []

/-- The rows of a dump, table by table. -/
def listing (order : List μ) (dump : Tables μ ρ) : List (μ × ρ) :=
  order.flatMap fun name => (dump name).map fun row => (name, row)

theorem mem_listing {order : List μ} {dump : Tables μ ρ} {name : μ} {row : ρ} :
    (name, row) ∈ listing order dump ↔ name ∈ order ∧ row ∈ dump name := by
  constructor
  · intro member
    obtain ⟨other, listed, inside⟩ := List.mem_flatMap.mp member
    obtain ⟨same, found, equal⟩ := List.mem_map.mp inside
    cases equal
    exact ⟨listed, found⟩
  · rintro ⟨listed, found⟩
    exact List.mem_flatMap.mpr ⟨name, listed, List.mem_map.mpr ⟨row, found, rfl⟩⟩

section Filling

variable [DecidableEq μ]

/-- Add a row at the end of a table. -/
def insert (tables : Tables μ ρ) (name : μ) (row : ρ) : Tables μ ρ :=
  Function.update tables name (tables name ++ [row])

/-- The tables that hold exactly the listed rows. -/
def gather (entries : List (μ × ρ)) : Tables μ ρ :=
  fun name => (entries.filter fun entry => entry.1 = name).map (·.2)

/-- Insert the rows in turn; the first one refused stops everything. -/
def load (admits : Tables μ ρ → μ → ρ → Bool) : Tables μ ρ → List (μ × ρ) → Option (Tables μ ρ)
  | tables, [] => some tables
  | tables, (name, row) :: rest =>
    if admits tables name row then load admits (insert tables name row) rest else none

theorem load_nil (admits : Tables μ ρ → μ → ρ → Bool) (tables : Tables μ ρ) :
    load admits tables [] = some tables := rfl

theorem load_cons (admits : Tables μ ρ → μ → ρ → Bool) (tables : Tables μ ρ) (entry : μ × ρ)
    (rest : List (μ × ρ)) : load admits tables (entry :: rest) =
      if admits tables entry.1 entry.2 then load admits (insert tables entry.1 entry.2) rest
      else none := rfl

theorem mem_gather {entries : List (μ × ρ)} {name : μ} {row : ρ} :
    row ∈ gather entries name ↔ (name, row) ∈ entries := by
  simp only [gather, List.mem_map, List.mem_filter, decide_eq_true_eq]
  constructor
  · rintro ⟨⟨other, found⟩, ⟨member, rfl⟩, rfl⟩
    exact member
  · intro member
    exact ⟨(name, row), ⟨member, rfl⟩, rfl⟩

theorem gather_append_singleton (entries : List (μ × ρ)) (name : μ) (row : ρ) :
    gather (entries ++ [(name, row)]) = insert (gather entries) name row := by
  funext other
  by_cases same : name = other
  · subst same
    simp [gather, insert]
  · have apart : other ≠ name := fun equal => same equal.symm
    simp [gather, insert, same, apart]

/-- Every row is admitted by the rows before it. -/
def Admitted (admits : Tables μ ρ → μ → ρ → Bool) (entries : List (μ × ρ)) : Prop :=
  ∀ before name row after, entries = before ++ (name, row) :: after →
    admits (gather before) name row = true

theorem load_append {admits : Tables μ ρ → μ → ρ → Bool} (first rest : List (μ × ρ))
    (tables : Tables μ ρ) :
    load admits tables (first ++ rest) = (load admits tables first).bind (load admits · rest) := by
  induction first generalizing tables with
  | nil => rfl
  | cons entry others ih =>
    simp only [List.cons_append, load_cons]
    split
    · exact ih _
    · rfl

private theorem load_from {admits : Tables μ ρ → μ → ρ → Bool} (rest before : List (μ × ρ)) :
    (∀ between name row after, rest = between ++ (name, row) :: after →
        admits (gather (before ++ between)) name row = true) →
      load admits (gather before) rest = some (gather (before ++ rest)) := by
  induction rest generalizing before with
  | nil => intro _; simp [load_nil]
  | cons entry others ih =>
    intro admitted
    have now : admits (gather before) entry.1 entry.2 = true := by
      simpa using admitted [] entry.1 entry.2 others rfl
    have later : load admits (gather (before ++ [entry])) others =
        some (gather ((before ++ [entry]) ++ others)) := by
      refine ih (before ++ [entry]) fun between name row after split => ?_
      have whole := admitted (entry :: between) name row after (by rw [split]; rfl)
      simpa using whole
    rw [gather_append_singleton] at later
    simp only [load_cons, now, if_true]
    simpa using later

theorem load_of_admitted {admits : Tables μ ρ → μ → ρ → Bool} {entries : List (μ × ρ)}
    (admitted : Admitted admits entries) : load admits empty entries = some (gather entries) := by
  have start : gather ([] : List (μ × ρ)) = empty := rfl
  have whole := load_from entries [] (by simpa [Admitted] using admitted)
  rwa [start, List.nil_append] at whole

private theorem admitted_from {admits : Tables μ ρ → μ → ρ → Bool} {result : Tables μ ρ}
    (between : List (μ × ρ)) (tables : Tables μ ρ) (name : μ) (row : ρ) (after : List (μ × ρ))
    (loaded : load admits tables (between ++ (name, row) :: after) = some result) :
    ∃ reached, load admits tables between = some reached ∧ admits reached name row = true := by
  rw [load_append] at loaded
  cases reached : load admits tables between with
  | none => simp [reached] at loaded
  | some state =>
    refine ⟨state, rfl, ?_⟩
    simp only [reached, Option.bind_some, load_cons] at loaded
    by_contra refused
    simp [refused] at loaded

/-- What a load that succeeds holds: the rows, as listed. -/
theorem load_some {admits : Tables μ ρ → μ → ρ → Bool} {entries : List (μ × ρ)}
    {result : Tables μ ρ} (loaded : load admits empty entries = some result) :
    result = gather entries ∧ Admitted admits entries := by
  induction entries using List.reverseRecOn generalizing result with
  | nil =>
    simp only [load_nil, Option.some.injEq] at loaded
    exact ⟨loaded.symm, fun before name row after split => by simp at split⟩
  | append_singleton entries entry ih =>
    obtain ⟨name, row⟩ := entry
    obtain ⟨reached, sofar, last⟩ := admitted_from entries empty name row [] loaded
    obtain ⟨rfl, admitted⟩ := ih sofar
    constructor
    · rw [load_append, sofar] at loaded
      simp only [Option.bind_some, load_cons, load_nil, last, if_true, Option.some.injEq] at loaded
      rw [gather_append_singleton]
      exact loaded.symm
    · intro before other found after split
      rcases List.eq_nil_or_concat after with rfl | ⟨others, final, rfl⟩
      · obtain ⟨same, equal⟩ := List.append_inj' split rfl
        cases equal
        exact same ▸ last
      · rw [List.concat_eq_append, ← List.cons_append, ← List.append_assoc] at split
        obtain ⟨same, -⟩ := List.append_inj' split rfl
        exact admitted before other found others same

theorem load_iff {admits : Tables μ ρ → μ → ρ → Bool} {entries : List (μ × ρ)} :
    (load admits empty entries).isSome = true ↔ Admitted admits entries := by
  constructor
  · intro loaded
    obtain ⟨result, found⟩ := Option.isSome_iff_exists.mp loaded
    exact (load_some found).2
  · intro admitted
    rw [load_of_admitted admitted]
    rfl

end Filling

/-! ## References -/

section References

variable {κ : Type*} (key : μ → ρ → Option κ) (references : μ → ρ → List (μ × κ))

/-- Some row of the table has the key. -/
def Resolves (tables : Tables μ ρ) (target : μ × κ) : Prop :=
  ∃ parent ∈ tables target.1, key target.1 parent = some target.2

instance [DecidableEq κ] (tables : Tables μ ρ) (target : μ × κ) :
    Decidable (Resolves key tables target) :=
  inferInstanceAs (Decidable (∃ parent ∈ tables target.1, key target.1 parent = some target.2))

/-- Every reference of every row leads to a row. -/
def Closed (tables : Tables μ ρ) : Prop :=
  ∀ name, ∀ row ∈ tables name, ∀ target ∈ references name row, Resolves key tables target

/-- A row goes in when its references lead to rows already there. -/
def resolved [DecidableEq κ] (tables : Tables μ ρ) (name : μ) (row : ρ) : Bool :=
  (references name row).all fun target => Resolves key tables target

variable {key references}

theorem Resolves.mono {tables others : Tables μ ρ} {target : μ × κ}
    (more : ∀ row ∈ tables target.1, row ∈ others target.1)
    (resolves : Resolves key tables target) : Resolves key others target := by
  obtain ⟨parent, member, same⟩ := resolves
  exact ⟨parent, more parent member, same⟩

/-- Parents stand before their children in the order. -/
def ParentsFirst (references : μ → ρ → List (μ × κ)) (order : List μ) : Prop :=
  ∀ before name after, order = before ++ name :: after →
    ∀ row, ∀ target ∈ references name row, target.1 ∈ before

/-- In a listing, the tables before a row's own table are listed whole. -/
theorem listed_before {order : List μ} {dump : Tables μ ρ} {before after : List (μ × ρ)}
    {name : μ} {row : ρ} (split : listing order dump = before ++ (name, row) :: after) :
    ∃ earlier later, order = earlier ++ name :: later ∧
      ∀ other ∈ earlier, ∀ parent ∈ dump other, (other, parent) ∈ before := by
  induction order generalizing before with
  | nil => simp [listing] at split
  | cons first rest ih =>
    simp only [listing, List.flatMap_cons] at split
    rcases List.append_eq_append_iff.mp split with ⟨more, whole, tail⟩ | ⟨own, whole, tail⟩
    · obtain ⟨earlier, later, order, listed⟩ := ih tail
      refine ⟨first :: earlier, later, by rw [order]; rfl, fun other member parent found => ?_⟩
      rcases List.mem_cons.mp member with rfl | inside
      · exact whole ▸ List.mem_append_left _ (List.mem_map.mpr ⟨parent, found, rfl⟩)
      · exact whole ▸ List.mem_append_right _ (listed other inside parent found)
    · cases own with
      | nil =>
        simp only [List.append_nil] at whole
        have start : listing rest dump = [] ++ (name, row) :: after := tail.symm
        obtain ⟨earlier, later, order, listed⟩ := ih start
        refine ⟨first :: earlier, later, by rw [order]; rfl, fun other member parent found => ?_⟩
        rcases List.mem_cons.mp member with rfl | inside
        · exact whole ▸ List.mem_map.mpr ⟨parent, found, rfl⟩
        · exact absurd (listed other inside parent found) (by simp)
      | cons entry others =>
        have inside : entry ∈ (dump first).map fun row => (first, row) := by
          rw [whole]
          exact List.mem_append_right _ (List.mem_cons_self ..)
        obtain ⟨found, -, same⟩ := List.mem_map.mp inside
        simp only [List.cons_append, List.cons.injEq] at tail
        have names : first = name := by
          have equal := same.trans tail.1.symm
          exact congrArg Prod.fst equal
        subst names
        exact ⟨[], rest, rfl, fun other member => absurd member (by simp)⟩

/-- A dump goes in parents first exactly when it is closed. -/
theorem loads_iff_closed [DecidableEq μ] [DecidableEq κ] {order : List μ}
    (parents : ParentsFirst references order) {dump : Tables μ ρ}
    (absent : ∀ name, name ∉ order → dump name = []) :
    (load (resolved key references) empty (listing order dump)).isSome = true ↔
      Closed key references dump := by
  rw [load_iff]
  constructor
  · intro admitted name row member target refers
    have listed : (name, row) ∈ listing order dump := by
      refine mem_listing.mpr ⟨?_, member⟩
      by_contra missing
      simp [absent name missing] at member
    obtain ⟨before, after, split⟩ := List.append_of_mem listed
    have all := List.all_eq_true.mp (admitted before name row after split) target refers
    refine Resolves.mono (fun parent found => ?_) (of_decide_eq_true all)
    have whole : (target.1, parent) ∈ listing order dump := by
      rw [split]
      exact List.mem_append_left _ (mem_gather.mp found)
    exact (mem_listing.mp whole).2
  · intro closed before name row after split
    have listed : (name, row) ∈ listing order dump := by
      rw [split]
      exact List.mem_append_right _ (List.mem_cons_self ..)
    refine List.all_eq_true.mpr fun target refers => decide_eq_true ?_
    obtain ⟨earlier, later, whole, sooner⟩ := listed_before split
    have place := parents earlier name later whole row target refers
    refine Resolves.mono (fun parent found => ?_)
      (closed name row (mem_listing.mp listed).2 target refers)
    exact mem_gather.mpr (sooner target.1 place parent found)

end References

end BoothOperator.Loading
