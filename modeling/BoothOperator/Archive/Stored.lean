import BoothOperator.Archive.Restore

/-! What the schema guarantees of the stored tables, and what the archive code
relies on Prisma for: a value it wrote out reads back as the value it was. -/
namespace BoothOperator.Archive

open BoothOperator.Schema
open BoothOperator.Loading (Tables)

/-! ## Columns -/

/-- The values of a column type; the dates are those of four-digit years. -/
def Kind.holds : Kind → Cell → Bool
  | .text, .text _ | .uuid, .text _ | .int, .int _ | .float, .float _ | .bool, .bool _ => true
  | .dateTime, .date time => IsoTime.InRange time
  | .json, .json _ => true
  | .oneOf values, .text value => value ∈ values
  | _, _ => false

def Cell.isNull : Cell → Bool
  | .null => true
  | _ => false

/-- A value a column may hold. -/
def Field.holds (field : Field) (cell : Cell) : Bool :=
  (field.nullable && cell.isNull) || field.kind.holds cell

/-- A row has the columns of its model, and values they hold. -/
structure Shaped (name : Model) (row : Row) : Prop where
  columns : row.map (·.1) = (fields name).map (·.column)
  values : ∀ field ∈ fields name, field.holds (row.get field.column) = true

instance (name : Model) (row : Row) : Decidable (Shaped name row) :=
  decidable_of_iff (row.map (·.1) = (fields name).map (·.column) ∧
      ∀ field ∈ fields name, field.holds (row.get field.column) = true)
    ⟨fun both => ⟨both.1, both.2⟩, fun shaped => ⟨shaped.columns, shaped.values⟩⟩

/-- What the migrated schema guarantees of every table. -/
structure Valid (db : Tables Model Row) : Prop where
  shaped : ∀ name, ∀ row ∈ db name, Shaped name row
  unique : ∀ name, (db name).Pairwise fun row other => compatible name row other = true
  keys : ForeignKeys db

instance (db : Tables Model Row) : Decidable (Valid db) :=
  decidable_of_iff ((∀ name ∈ models, ∀ row ∈ db name, Shaped name row) ∧
      (∀ name ∈ models, (db name).Pairwise fun row other => compatible name row other = true) ∧
      ForeignKeys db)
    ⟨fun all => ⟨fun name => all.1 name (mem_models name), fun name => all.2.1 name (mem_models name),
        all.2.2⟩,
      fun valid => ⟨fun name _ => valid.shaped name, fun name _ => valid.unique name, valid.keys⟩⟩

/-- Prisma takes a value it gave out as what it was, but for the null of a JSON column. -/
def Client.ReadsBack (client : Client) : Prop :=
  ∀ field cell, field.holds cell = true → (field.kind = .json → cell.toJson ≠ .null) →
    client.input field cell.toJson = some cell

theorem Cell.isNull_iff {cell : Cell} : cell.isNull = true ↔ cell = .null := by
  cases cell <;> simp [Cell.isNull]

theorem Field.holds_iff {field : Field} {cell : Cell} :
    field.holds cell = true ↔
      (field.nullable = true ∧ cell = .null) ∨ field.kind.holds cell = true := by
  rw [Field.holds, Bool.or_eq_true, Bool.and_eq_true, Cell.isNull_iff]

/-- What Prisma makes of a member of an input object. -/
def readInput (field : Field) (value : JsonValue) : Option Cell :=
  match field.kind, value with
  | .json, .null => none
  | .json, value => some (.json value)
  | _, .null => if field.nullable then some .null else none
  | .text, .str text | .uuid, .str text => some (.text text)
  | .oneOf values, .str text => if text ∈ values then some (.text text) else none
  | .int, .num value => if value.den = 1 then some (.int value.num) else none
  | .float, .num value => some (.float value)
  | .bool, .bool value => some (.bool value)
  | .dateTime, .str text => (IsoTime.read text).map .date
  | _, _ => none

/-- A client that reads values so, with no digest of its own. -/
def plainClient : Client where
  input := readInput
  nativeUpsert := true
  numberText _ := []
  sha256 _ := ""
  parseDate _ := none
  restoredInstallationId _ _ := "restored"

theorem plainClient_readsBack : plainClient.ReadsBack := by
  intro field cell holds spoken
  change readInput field cell.toJson = some cell
  rcases Field.holds_iff.mp holds with ⟨nullable, rfl⟩ | held
  · cases kind : field.kind with
    | json => exact absurd rfl (spoken kind)
    | text | uuid | int | float | bool | dateTime | oneOf _ =>
      simp [readInput, kind, Cell.toJson, nullable]
  · cases kind : field.kind with
    | json =>
      cases cell with
      | json value =>
        have other := spoken kind
        cases value with
        | null => exact absurd rfl other
        | bool _ | num _ | str _ | arr _ | obj _ => simp [readInput, kind, Cell.toJson]
      | null | text _ | int _ | float _ | bool _ | date _ => simp [kind, Kind.holds] at held
    | dateTime =>
      cases cell with
      | date time =>
        have range : IsoTime.InRange time := by simpa [kind, Kind.holds] using held
        simp [readInput, kind, Cell.toJson, IsoTime.read_format range]
      | null | text _ | int _ | float _ | bool _ | json _ => simp [kind, Kind.holds] at held
    | text | uuid | int | float | bool | oneOf _ =>
      cases cell <;> simp_all [Kind.holds, readInput, Cell.toJson]

theorem columns_nodup (name : Model) : ((fields name).map (·.column)).Nodup := by
  cases name <;> decide

/-! ## Reading a row -/

theorem lookup_of_mem {κ α : Type*} [BEq κ] [LawfulBEq κ] {entries : List (κ × α)}
    (distinct : (entries.map (·.1)).Nodup) {key : κ} {value : α} (member : (key, value) ∈ entries) :
    entries.lookup key = some value := by
  induction entries with
  | nil => cases member
  | cons entry rest ih =>
    obtain ⟨fresh, distinct⟩ := List.nodup_cons.mp distinct
    rcases List.mem_cons.mp member with rfl | later
    · simp
    · have other : key ≠ entry.1 := by
        rintro rfl
        exact fresh (List.mem_map.mpr ⟨_, later, rfl⟩)
      rw [List.lookup_cons, beq_false_of_ne other]
      exact ih distinct later

theorem lookup_map_snd {κ α β : Type*} [BEq κ] [LawfulBEq κ] (entries : List (κ × α))
    (value : κ → α → β) (key : κ) :
    (entries.map fun entry => (entry.1, value entry.1 entry.2)).lookup key =
      (entries.lookup key).map (value key) := by
  induction entries with
  | nil => rfl
  | cons entry rest ih =>
    rw [List.map_cons, List.lookup_cons, List.lookup_cons]
    cases same : key == entry.1 with
    | true => rw [eq_of_beq same]; rfl
    | false => exact ih

theorem mapM_columns {columns : List Field} {cell : Field → Option Cell} {row : Row}
    (built : columns.mapM (fun field => (cell field).map fun value => (field.column, value)) =
      some row) :
    row.map (·.1) = columns.map (·.column) ∧
      ∀ field ∈ columns, ∃ value, cell field = some value ∧ (field.column, value) ∈ row := by
  induction columns generalizing row with
  | nil =>
    cases built
    exact ⟨rfl, fun field member => absurd member List.not_mem_nil⟩
  | cons field rest ih =>
    rw [List.mapM_cons] at built
    obtain ⟨entry, first, built⟩ := Option.bind_eq_some_iff.mp built
    obtain ⟨others, later, same⟩ := Option.bind_eq_some_iff.mp built
    cases same
    obtain ⟨value, held, rfl⟩ := Option.map_eq_some_iff.mp first
    obtain ⟨columns, values⟩ := ih later
    refine ⟨by rw [List.map_cons, columns, List.map_cons], fun other member => ?_⟩
    rcases List.mem_cons.mp member with rfl | among
    · exact ⟨value, held, List.mem_cons_self⟩
    · obtain ⟨found, read, there⟩ := values other among
      exact ⟨found, read, List.mem_cons_of_mem _ there⟩

theorem Row.get_of_mem {row : Row} (distinct : (row.map (·.1)).Nodup) {column : Column} {cell : Cell}
    (member : (column, cell) ∈ row) : row.get column = cell := by
  rw [Row.get, lookup_of_mem distinct member]
  rfl

/-- The values of a row that was built column by column. -/
theorem built_row {name : Model} {cell : Field → Option Cell} {row : Row}
    (built : (fields name).mapM (fun field => (cell field).map fun value => (field.column, value)) =
      some row) :
    row.map (·.1) = (fields name).map (·.column) ∧
      ∀ field ∈ fields name, cell field = some (row.get field.column) := by
  obtain ⟨columns, values⟩ := mapM_columns built
  refine ⟨columns, fun field member => ?_⟩
  obtain ⟨value, held, there⟩ := values field member
  rw [Row.get_of_mem (columns ▸ columns_nodup name) there]
  exact held

/-- A member of an archived row is the value of its column. -/
theorem Row.document_get (row : Row) (column : Column) :
    row.document.get column = (row.lookup column).map Cell.toJson := by
  induction row with
  | nil => rfl
  | cons entry rest ih =>
    have cons : (Row.document (entry :: rest)).get column =
        if column = entry.1 then some entry.2.toJson else (Row.document rest).get column := by
      unfold Row.document Document.get
      rw [List.map_cons, List.lookup_cons]
      by_cases same : column = entry.1
      · simp [same]
      · have other : (Name.column column == Name.column entry.1) = false :=
          beq_false_of_ne fun equal => same (Name.column.inj equal)
        simp [other, same]
    rw [cons, ih, List.lookup_cons]
    by_cases same : column = entry.1
    · simp [same]
    · simp [same, beq_false_of_ne same]

theorem Shaped.lookup {name : Model} {row : Row} (shaped : Shaped name row) {column : Column}
    (known : column ∈ (fields name).map (·.column)) : row.lookup column = some (row.get column) := by
  rw [← shaped.columns] at known
  obtain ⟨⟨_, cell⟩, member, rfl⟩ := List.mem_map.mp known
  have distinct : (row.map (·.1)).Nodup := shaped.columns ▸ columns_nodup name
  rw [Row.get_of_mem distinct member]
  exact lookup_of_mem distinct member

theorem Shaped.document_get {name : Model} {row : Row} (shaped : Shaped name row) {column : Column}
    (known : column ∈ (fields name).map (·.column)) :
    row.document.get column = some (row.get column).toJson := by
  rw [Row.document_get, shaped.lookup known]
  rfl

end BoothOperator.Archive
