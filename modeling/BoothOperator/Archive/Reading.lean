import Mathlib.Data.List.Forall2
import BoothOperator.Archive.Stored

/-! What `parseArchive` reads from what `buildExportArchive` wrote: the rows of
the dump, each in its place, in the current version. -/
namespace BoothOperator.Archive

open BoothOperator.Schema
open BoothOperator.Json (Value)
open BoothOperator.Loading (Tables)

/-! ## Documents -/

/-- The columns a parse may write anew. -/
def normalized : List Column :=
  [.firstSeenAt, .repeatCount, .weight, .lastSelectedCycle, .selectionsInCycle,
    .questionSelectionCycle, .lastSelectedQuestionId, .recentQuestionDraws]

theorem Document.put_get_of_ne (document : Document) {column other : Column} (value : JsonValue)
    (apart : other ≠ column) : (document.put column value).get other = document.get other := by
  have differ : (Name.column other == Name.column column) = false :=
    beq_false_of_ne fun same => apart (Name.column.inj same)
  unfold Document.get
  induction document with
  | nil => simp [Document.put, List.lookup_cons, differ]
  | cons entry rest ih =>
    obtain ⟨name, old⟩ := entry
    unfold Document.put
    by_cases same : name = .column column
    · subst same
      simp [List.lookup_cons, differ]
    · rw [if_neg same, List.lookup_cons, List.lookup_cons, ih]

theorem Document.without_get_of_ne (document : Document) {column other : Column}
    (apart : other ≠ column) : (document.without column).get other = document.get other := by
  unfold Document.get Document.without
  induction document with
  | nil => rfl
  | cons entry rest ih =>
    by_cases same : entry.1 = .column column
    · have differ : (Name.column other == entry.1) = false := by
        rw [same]
        exact beq_false_of_ne fun equal => apart (Name.column.inj equal)
      rw [List.filter_cons_of_neg (by simpa using same), ih, List.lookup_cons, differ]
    · rw [List.filter_cons_of_pos (by simpa using same), List.lookup_cons, List.lookup_cons, ih]

/-- A parse leaves the other columns of a row as they are. -/
theorem normalizeArchiveRow_get {name : Model} {row document : Document} {version : Number}
    (read : normalizeArchiveRow name row version = .ok document) {column : Column}
    (plain : column ∉ normalized) : document.get column = row.get column := by
  have apart : ∀ other ∈ normalized, column ≠ other := fun other member same =>
    plain (same ▸ member)
  simp only [normalized, List.forall_mem_cons] at apart
  obtain ⟨first, count, weight, cycle, selections, selection, question, draws, _⟩ := apart
  unfold normalizeArchiveRow at read
  split at read
  · cases read
    unfold withStatusWindow
    split
    · rename_i missing
      dsimp only
      split
      all_goals
        rw [Document.put_get_of_ne _ _ count]
        split
        · exact Document.put_get_of_ne _ _ first
        · exact Document.without_get_of_ne _ first
    · rfl
  · unfold withQuestionTicketState at read
    split at read
    · cases read
      rw [Document.put_get_of_ne _ _ selections, Document.put_get_of_ne _ _ cycle,
        Document.put_get_of_ne _ _ weight]
    split at read
    · cases read
      rw [Document.put_get_of_ne _ _ selections, Document.put_get_of_ne _ _ cycle,
        Document.put_get_of_ne _ _ weight]
    · cases read
  · unfold withInstallationTicketState at read
    split at read
    · cases read
      rw [Document.put_get_of_ne _ _ draws, Document.put_get_of_ne _ _ question,
        Document.put_get_of_ne _ _ selection]
    split at read
    · split at read
      · cases read
        rw [Document.put_get_of_ne _ _ draws, Document.put_get_of_ne _ _ question,
          Document.put_get_of_ne _ _ selection]
      · cases read
    · cases read
  · cases read
    rfl

/-! ## The dump -/

theorem normalizeRows_each {name : Model} {version : Number} {rows : List Document}
    {documents : List Document} {index : Nat}
    (read : normalizeRows name version index (rows.map some) = .ok documents) :
    List.Forall₂ (fun row document => normalizeArchiveRow name row version = .ok document)
      rows documents := by
  induction rows generalizing index documents with
  | nil =>
    cases read
    exact .nil
  | cons row rest ih =>
    simp only [List.map_cons, normalizeRows] at read
    cases first : normalizeArchiveRow name row version with
    | error reason => simp [first, bind, Except.bind] at read
    | ok document =>
      cases later : normalizeRows name version (index + 1) (rest.map some) with
      | error reason => simp [first, later, bind, Except.bind] at read
      | ok others =>
        simp only [first, later, bind, Except.bind, pure, Except.pure] at read
        cases read
        exact .cons first (ih later)

theorem normalizeDump_entry {version : Number} {data : Model → Entry} {order : List Model}
    {dump : DataDump} (read : normalizeDump version data order = .ok dump) {name : Model}
    (listed : name ∈ order) : normalizeEntry name version (data name) = .ok (dump name) := by
  induction order generalizing dump with
  | nil => cases listed
  | cons head rest ih =>
    simp only [normalizeDump] at read
    cases first : normalizeEntry head version (data head) with
    | error reason => simp [first, bind, Except.bind] at read
    | ok rows =>
      cases later : normalizeDump version data rest with
      | error reason => simp [first, later, bind, Except.bind] at read
      | ok others =>
        simp only [first, later, bind, Except.bind, pure, Except.pure] at read
        cases read
        by_cases same : name = head
        · subst same
          rw [first, Function.update_self]
        · rw [Function.update_of_ne same]
          exact ih later ((List.mem_cons.mp listed).resolve_left same)

theorem strings_map (texts : List String) : strings (texts.map .str) = some texts := by
  induction texts with
  | nil => rfl
  | cons text rest ih => simp [strings, ih]

theorem parseManifest_toJson (generatedAt : JsonValue) (ids : List String) :
    parseManifest (ExportManifest.toJson ⟨exportVersion, generatedAt, ids⟩) =
      .ok ⟨exportVersion, generatedAt, ids⟩ := by
  have partials : parsePartial (some (.arr (ids.map .str))) = .ok ids := by
    simp [parsePartial, strings_map]
  let members : List (String × JsonValue) :=
    [("format", .str exportFormat), ("version", .num exportVersion), ("generatedAt", generatedAt),
      ("partialInstallationIds", .arr (ids.map .str))]
  have format : Value.lookup "format" members = some (.str exportFormat) := rfl
  have version : Value.lookup "version" members = some (.num exportVersion) := rfl
  have moment : Value.lookup "generatedAt" members = some generatedAt := rfl
  have listed : Value.lookup "partialInstallationIds" members = some (.arr (ids.map .str)) := rfl
  change parseManifest (.obj members) = _
  simp [parseManifest, format, version, moment, listed, partials, bind, Except.bind, pure,
    Except.pure]

/-! ## An exported archive -/

/-- The eras of a dump that stand in for another installation's prompts. -/
def partialIds (scope : Option String) (db : Tables Model Row) : List String :=
  match scope with
  | none => []
  | some installationId =>
    (collectDump scope db .installation).filterMap fun row =>
      (row.text? .id).filter fun id => id ≠ installationId

/-- What a restore of an exported archive starts from. -/
structure Reads (scope : Option String) (db : Tables Model Row) (archive : Parsed) : Prop where
  version : archive.manifest.version = exportVersion
  partials : archive.manifest.partialInstallationIds = partialIds scope db
  rows : ∀ name ∈ importOrder,
    List.Forall₂ (fun row document =>
        normalizeArchiveRow name (Row.document row) exportVersion = .ok document)
      (collectDump scope db name) (archive.dump name)

/-- The archive of a dump, before its names are checked. -/
def archiveOf (storage : Storage) (db : Tables Model Row) (now : Time) (scope : Option String) :
    ArchiveFile where
  manifest := some (ExportManifest.toJson
    ⟨exportVersion, .str (IsoTime.format now), partialIds scope db⟩)
  data := some fun name => .rows ((collectDump scope db name).map fun row => some (Row.document row))
  blobs := collectBlobs storage (collectDump scope db .file) []

theorem buildExportArchive_eq (storage : Storage) (db : Tables Model Row) (now : Time)
    (scope : Option String) :
    buildExportArchive storage db now scope = createTar (archiveOf storage db now scope) := by
  cases scope <;> rfl

theorem createTar_some {file written : ArchiveFile} (packed : createTar file = some written) :
    written = file := by
  unfold createTar at packed
  split at packed
  · exact (Option.some.inj packed).symm
  · cases packed

theorem parse_built {storage : Storage} {db : Tables Model Row} {now : Time} {scope : Option String}
    {file : ArchiveFile} {archive : Parsed} (built : buildExportArchive storage db now scope = some file)
    (read : parseArchive file = .ok archive) : Reads scope db archive := by
  rw [buildExportArchive_eq] at built
  rw [createTar_some built] at read
  simp only [parseArchive, archiveOf, parseManifest_toJson, bind, Except.bind] at read
  split at read
  · cases read
  rename_i dump normalized
  cases read
  refine ⟨rfl, rfl, fun name listed => ?_⟩
  have entry := normalizeDump_entry normalized listed
  have listed : normalizeRows name exportVersion 0
      (((collectDump scope db name).map Row.document).map some) = .ok (dump name) := by
    simpa [normalizeEntry, List.map_map, Function.comp_def] using entry
  exact List.forall₂_map_left_iff.mp (normalizeRows_each listed)

end BoothOperator.Archive
