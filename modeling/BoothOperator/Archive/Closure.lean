import BoothOperator.Archive.Scope

/-! When a scoped dump is referentially closed. The relation filters follow
every relation of the schema but three: the classifier and the lease holder of
a message are operators that `OPERATOR_REFERENCES` does not list, and the
session of an event and the transcription of a moderation are only followed as
far as their own tags and messages go. -/
namespace BoothOperator.Archive

open BoothOperator.Schema
open BoothOperator.Loading (Tables)

/-- The restore's foreign-key checks alone: the rows of a dump go into empty
tables in import order, each one's relations already there. -/
def restoresKeys (dump : Tables Model Row) : Bool :=
  (Loading.load (Loading.resolved rowId references) Loading.empty
    (Loading.listing importOrder dump)).isSome

/-- An operator that a listed column of an exported row names. -/
def Mentioned (installationId : String) (db : Tables Model Row) (operator : String) : Prop :=
  ∃ entry ∈ operatorReferences, ∃ row ∈ db entry.1,
    scopedFindArgs installationId db entry.1 row = true ∧
    ∃ column ∈ entry.2, row.text? column = some operator

/-- What a database must satisfy for the filters to be enough. -/
structure Followed (installationId : String) (db : Tables Model Row) : Prop where
  /-- Whoever classified or leases a message of the era is mentioned elsewhere. -/
  operators : ∀ message ∈ db .message, inInstallation installationId message = true →
    ∀ column ∈ [Column.reviewClassifiedById, Column.processingLeasedById],
      ∀ operator, message.text? column = some operator → Mentioned installationId db operator
  /-- The session of an event of the era is filed under the era too. -/
  sessions : ∀ event ∈ db .boothEvent, inInstallation installationId event = true →
    ∀ id, event.text? .sessionId = some id →
      ∃ session ∈ db .callSession, session.text? .id = some id ∧
        inInstallation installationId session = true
  /-- A moderation of a message of the era reads a transcription of such a message. -/
  transcriptions : ∀ moderation ∈ db .moderation,
    moderationScopeArgs installationId db moderation = true →
    ∀ id, moderation.text? .transcriptionId = some id →
      ∃ transcription ∈ db .transcription, transcription.text? .id = some id ∧
        transcriptionScopeArgs installationId db transcription = true

private theorem parents_earlier : ∀ place : Fin importOrder.length,
    ∀ relation ∈ relations (importOrder.get place),
      relation.2 ∈ importOrder.take place := by decide

theorem parents_first : Loading.ParentsFirst references importOrder := by
  intro before name after split row target refers
  obtain ⟨column, relation, -⟩ := mem_references.mp refers
  have bound : before.length < importOrder.length := by
    rw [split]
    simp
  have here : importOrder.get ⟨before.length, bound⟩ = name := by
    simp [split]
  have found := parents_earlier ⟨before.length, bound⟩ (column, target.1) (here ▸ relation)
  have start : importOrder.take before.length = before := by
    simp [split]
  simpa [start] using found

theorem collectDump_absent (scope : Option String) (db : Tables Model Row) (name : Model)
    (missing : name ∉ importOrder) : collectDump scope db name = [] := by
  cases scope with
  | none => simp [collectDump, missing]
  | some installationId =>
    cases name <;> first | rfl | exact absurd (by decide) missing

theorem restoresKeys_iff (scope : Option String) (db : Tables Model Row) :
    restoresKeys (collectDump scope db) = true ↔ ForeignKeys (collectDump scope db) :=
  Loading.loads_iff_closed parents_first (collectDump_absent scope db)

/-! ## A whole export -/

private theorem relations_listed : ∀ name ∈ importOrder, ∀ relation ∈ relations name,
    relation.2 ∈ importOrder := by decide

theorem fullExport_closed {db : Tables Model Row} (keys : ForeignKeys db) :
    ForeignKeys (collectDump none db) := by
  intro name row member target refers
  by_cases listed : name ∈ importOrder
  · have inside : row ∈ db name := by simpa [collectDump, listed] using member
    obtain ⟨column, relation, -⟩ := mem_references.mp refers
    have known := relations_listed name listed _ relation
    obtain ⟨parent, found, same⟩ := keys name row inside target refers
    exact ⟨parent, by simpa [collectDump, known] using found, same⟩
  · rw [collectDump_absent none db name listed] at member
    cases member

/-! ## A scoped export -/

section Scoped

variable {installationId : String} {db : Tables Model Row}

theorem mem_referencedOperatorIds {operator : String} :
    operator ∈ referencedOperatorIds (scopedTables installationId db) ↔
      Mentioned (lower installationId) db operator := by
  have columns : ∀ entry ∈ operatorReferences, entry.1 ∈ importOrder ∧ entry.1 ≠ .operatorUser ∧
      ∀ column ∈ entry.2, column ≠ .summary ∧ column ≠ .notes := by decide
  simp only [referencedOperatorIds, List.mem_flatMap, List.mem_filterMap]
  constructor
  · rintro ⟨entry, listed, row, member, column, among, value⟩
    obtain ⟨stored, inside, chosen, same⟩ := mem_scopedTables member
    obtain ⟨-, -, plain⟩ := columns entry listed
    refine ⟨entry, listed, stored, inside, chosen, column, among, ?_⟩
    rw [← same column (plain column among).1 (plain column among).2]
    exact value
  · rintro ⟨entry, listed, row, member, chosen, column, among, value⟩
    obtain ⟨known, other, plain⟩ := columns entry listed
    obtain ⟨exported, inside, same⟩ := exported_row known other member chosen
    refine ⟨entry, listed, exported, inside, column, among, ?_⟩
    rw [same column (plain column among).1 (plain column among).2]
    exact value

theorem resolves_operator {operator : String} :
    Loading.Resolves rowId (collectDump (some installationId) db) (.operatorUser, operator) ↔
      Loading.Resolves rowId db (.operatorUser, operator) ∧
        Mentioned (lower installationId) db operator := by
  simp only [Loading.Resolves, collectDump_operators, List.mem_filter]
  constructor
  · rintro ⟨user, ⟨member, among⟩, same⟩
    have id : user.text? .id = some operator := same
    refine ⟨⟨user, member, same⟩, mem_referencedOperatorIds.mp ?_⟩
    simpa [id] using among
  · rintro ⟨⟨user, member, same⟩, mentioned⟩
    have id : user.text? .id = some operator := same
    refine ⟨user, ⟨member, ?_⟩, same⟩
    simpa [id] using mem_referencedOperatorIds.mpr mentioned

theorem resolves_others {name : Model} (listed : name ∈ importOrder)
    (other : name ≠ .operatorUser) {id : String} :
    Loading.Resolves rowId (collectDump (some installationId) db) (name, id) ↔
      ∃ row ∈ db name, row.text? .id = some id ∧
        scopedFindArgs (lower installationId) db name row = true := by
  have key : idColumn name = .id := by
    cases name <;> first | rfl | exact absurd listed (by decide)
  simp only [Loading.Resolves, collectDump_others other, rowId, key]
  constructor
  · rintro ⟨row, member, same⟩
    obtain ⟨stored, inside, chosen, equal⟩ := mem_scopedTables member
    exact ⟨stored, inside, equal .id (by decide) (by decide) ▸ same, chosen⟩
  · rintro ⟨row, member, same, chosen⟩
    obtain ⟨exported, inside, equal⟩ := exported_row listed other member chosen
    exact ⟨exported, inside, (equal .id (by decide) (by decide)).trans same⟩

/-! ### One relation after another -/

theorem parentOf_iff {column : Column} {child row : Row} :
    parentOf column child row = true ↔
      ∃ id, child.text? column = some id ∧ row.text? .id = some id := by
  unfold parentOf
  split
  · rename_i none
    simp [none]
  · rename_i id found
    simp [found]

theorem someRelated_iff {children : Model} {column : Column} {found : Row → Bool} {row : Row} :
    someRelated db children column found row = true ↔
      ∃ child ∈ db children, parentOf column child row = true ∧ found child = true := by
  simp [someRelated]

theorem parent_iff {model : Model} {column : Column} {found : Row → Bool} {row : Row} :
    parent db model column found row = true ↔
      ∃ other ∈ db model, parentOf column row other = true ∧ found other = true := by
  simp [parent]

theorem fileScopeArgs_question {question file : Row} (member : question ∈ db .question)
    (chosen : questionScopeArgs installationId db question = true)
    (audio : parentOf .audioId question file = true) :
    fileScopeArgs installationId db file = true := by
  simp only [questionScopeArgs, Bool.or_eq_true] at chosen
  simp only [fileScopeArgs, Bool.or_eq_true, someRelated_iff]
  rcases chosen with own | asked
  · exact .inl (.inl (.inl ⟨question, member, audio, own⟩))
  · exact .inl (.inl (.inr ⟨question, member, audio, asked⟩))

theorem fileScopeArgs_message {message file : Row} (member : message ∈ db .message)
    (own : inInstallation installationId message = true)
    (audio : parentOf .audioId message file = true) :
    fileScopeArgs installationId db file = true := by
  simp only [fileScopeArgs, Bool.or_eq_true, someRelated_iff]
  exact .inl (.inr ⟨message, member, audio, own⟩)

theorem fileScopeArgs_instruction {instruction file : Row}
    (member : instruction ∈ db .instruction) (audio : parentOf .audioId instruction file = true) :
    fileScopeArgs installationId db file = true := by
  simp only [fileScopeArgs, Bool.or_eq_true, someRelated_iff]
  exact .inr ⟨instruction, member, audio, trivial⟩

theorem questionScopeArgs_message {message question : Row} (member : message ∈ db .message)
    (own : inInstallation installationId message = true)
    (asks : parentOf .questionId message question = true) :
    questionScopeArgs installationId db question = true := by
  simp only [questionScopeArgs, hasMessage, Bool.or_eq_true, someRelated_iff]
  exact .inr ⟨message, member, asks, own⟩

theorem installationScopeArgs_question {question era : Row} (member : question ∈ db .question)
    (chosen : questionScopeArgs installationId db question = true)
    (tagged : parentOf .installationId question era = true) :
    installationScopeArgs installationId db era = true := by
  simp only [questionScopeArgs, Bool.or_eq_true] at chosen
  simp only [installationScopeArgs, Bool.or_eq_true, someRelated_iff, decide_eq_true_eq]
  rcases chosen with own | asked
  · obtain ⟨id, tag, same⟩ := parentOf_iff.mp tagged
    left
    have equal : some id = some installationId := tag.symm.trans (of_decide_eq_true own)
    rw [same, equal]
  · exact .inr ⟨question, member, tagged, asked⟩

/-- A directly tagged row leads to the era itself. -/
theorem installationScopeArgs_tag {row era : Row}
    (own : inInstallation installationId row = true)
    (tagged : parentOf .installationId row era = true) :
    installationScopeArgs installationId db era = true := by
  obtain ⟨id, tag, same⟩ := parentOf_iff.mp tagged
  have equal : some id = some installationId := tag.symm.trans (of_decide_eq_true own)
  simp [installationScopeArgs, same, equal]

end Scoped

/-! ### The whole dump -/

section Closed

variable {installationId : String} {db : Tables Model Row}

private theorem relations_plain : ∀ name ∈ importOrder, ∀ relation ∈ relations name,
    relation.1 ≠ .summary ∧ relation.1 ≠ .notes := by decide

/-- Where a relation of a chosen row leads in the dump. -/
theorem resolves_of_followed (keys : ForeignKeys db) (followed : Followed (lower installationId) db)
    {name : Model} (listed : name ∈ importOrder) {row : Row} (member : row ∈ db name)
    (chosen : scopedFindArgs (lower installationId) db name row = true) (other : name ≠ .operatorUser)
    {column : Column} {target : Model × String} (relation : (column, target.1) ∈ relations name)
    (value : row.text? column = some target.2) :
    Loading.Resolves rowId (collectDump (some installationId) db) target := by
  obtain ⟨model, id⟩ := target
  obtain ⟨stored, inside, same⟩ : Loading.Resolves rowId db (model, id) :=
    keys name row member (model, id) (mem_references.mpr ⟨column, relation, value⟩)
  have known : model ∈ importOrder := relations_listed name listed _ relation
  -- an operator must be mentioned; any other parent must be chosen by its own filter
  have operator (mentioned : Mentioned (lower installationId) db id) (user : model = .operatorUser) :
      Loading.Resolves rowId (collectDump (some installationId) db) (model, id) := by
    subst user
    exact resolves_operator.mpr ⟨⟨stored, inside, same⟩, mentioned⟩
  have listedColumn (columns : List Column) (entry : (name, columns) ∈ operatorReferences)
      (among : column ∈ columns) : Mentioned (lower installationId) db id :=
    ⟨(name, columns), entry, row, member, chosen, column, among, value⟩
  have others (apart : model ≠ .operatorUser)
      (filter : stored.text? .id = some id → parentOf column row stored = true →
        scopedFindArgs (lower installationId) db model stored = true) :
      Loading.Resolves rowId (collectDump (some installationId) db) (model, id) := by
    have key : idColumn model = .id := by
      cases model <;> first | rfl | exact absurd known (by decide)
    have own : stored.text? .id = some id := by
      rw [← key]
      exact same
    exact (resolves_others known apart).mpr
      ⟨stored, inside, own, filter own (parentOf_iff.mpr ⟨id, value, own⟩)⟩
  cases name with
  | installation =>
    simp [relations, fields, Field.required, Field.optional, Field.refersTo] at relation
    obtain ⟨rfl, rfl⟩ := relation
    exact operator (listedColumn [.endedById] (by decide) (by decide)) rfl
  | question =>
    simp [relations, fields, Field.required, Field.optional, Field.refersTo,
      Field.belongsTo] at relation
    rcases relation with ⟨rfl, rfl⟩ | ⟨rfl, rfl⟩
    · exact others (by decide) fun _ audio => fileScopeArgs_question member chosen audio
    · exact others (by decide) fun _ tagged =>
        installationScopeArgs_question member chosen tagged
  | instruction =>
    simp [relations, fields, Field.required, Field.optional, Field.belongsTo] at relation
    obtain ⟨rfl, rfl⟩ := relation
    exact others (by decide) fun _ audio => fileScopeArgs_instruction member audio
  | message =>
    simp [relations, fields, Field.required, Field.optional, Field.refersTo,
      Field.belongsTo] at relation
    rcases relation with ⟨rfl, rfl⟩ | ⟨rfl, rfl⟩ | ⟨rfl, rfl⟩ | ⟨rfl, rfl⟩ | ⟨rfl, rfl⟩ |
      ⟨rfl, rfl⟩
    · exact others (by decide) fun _ asks => questionScopeArgs_message member chosen asks
    · exact others (by decide) fun _ audio => fileScopeArgs_message member chosen audio
    · exact operator (listedColumn [.decidedById] (by decide) (by decide)) rfl
    · exact operator (followed.operators row member chosen _ (by decide) id value) rfl
    · exact operator (followed.operators row member chosen _ (by decide) id value) rfl
    · exact others (by decide) fun _ tagged => installationScopeArgs_tag chosen tagged
  | callSession =>
    simp [relations, fields, Field.required, Field.optional, Field.refersTo] at relation
    obtain ⟨rfl, rfl⟩ := relation
    exact others (by decide) fun _ tagged => installationScopeArgs_tag chosen tagged
  | boothStatusSnapshot =>
    simp [relations, fields, Field.required, Field.optional, Field.refersTo] at relation
    obtain ⟨rfl, rfl⟩ := relation
    exact others (by decide) fun _ tagged => installationScopeArgs_tag chosen tagged
  | boothEvent =>
    simp [relations, fields, Field.required, Field.optional, Field.refersTo] at relation
    rcases relation with ⟨rfl, rfl⟩ | ⟨rfl, rfl⟩
    · exact (resolves_others known (by decide)).mpr
        (followed.sessions row member chosen id value)
    · exact others (by decide) fun _ tagged => installationScopeArgs_tag chosen tagged
  | transcription =>
    simp [relations, fields, Field.required, Field.optional, Field.refersTo,
      Field.belongsTo] at relation
    rcases relation with ⟨rfl, rfl⟩ | ⟨rfl, rfl⟩
    · obtain ⟨message, found, about, own⟩ := parent_iff.mp chosen
      obtain ⟨read, reads, equal⟩ := parentOf_iff.mp about
      have ids : read = id := Option.some.inj (reads.symm.trans value)
      exact (resolves_others known (by decide)).mpr ⟨message, found, ids ▸ equal, own⟩
    · exact operator (listedColumn [.requestedById] (by decide) (by decide)) rfl
  | moderation =>
    simp [relations, fields, Field.required, Field.optional, Field.refersTo,
      Field.belongsTo] at relation
    rcases relation with ⟨rfl, rfl⟩ | ⟨rfl, rfl⟩ | ⟨rfl, rfl⟩
    · obtain ⟨message, found, about, own⟩ := parent_iff.mp chosen
      obtain ⟨read, reads, equal⟩ := parentOf_iff.mp about
      have ids : read = id := Option.some.inj (reads.symm.trans value)
      exact (resolves_others known (by decide)).mpr ⟨message, found, ids ▸ equal, own⟩
    · exact (resolves_others known (by decide)).mpr
        (followed.transcriptions row member chosen id value)
    · exact operator (listedColumn [.requestedById] (by decide) (by decide)) rfl
  | operatorUser => exact absurd rfl other
  | file => simp [relations, fields, Field.required, Field.optional] at relation
  | telemetrySource | apiToken | metricFilter | mobileDevice | auditLog => cases chosen
  | boothSystemSnapshot | operatorSession | pushNotificationState | moderationPolicy =>
    exact absurd listed (by decide)

theorem closed_of_followed (keys : ForeignKeys db) (followed : Followed (lower installationId) db) :
    ForeignKeys (collectDump (some installationId) db) := by
  intro name row member target refers
  obtain ⟨column, relation, value⟩ := mem_references.mp refers
  have other : name ≠ .operatorUser := by
    rintro rfl
    simp [relations, fields, Field.required, Field.optional] at relation
  have listed : name ∈ importOrder := by
    by_contra missing
    rw [collectDump_absent (some installationId) db name missing] at member
    cases member
  rw [collectDump_others other] at member
  obtain ⟨stored, inside, chosen, same⟩ := mem_scopedTables member
  obtain ⟨kept, silent⟩ := relations_plain name listed _ relation
  exact resolves_of_followed keys followed listed inside chosen other relation
    ((same column kept silent).symm.trans value)

/-- Where a relation of a chosen row leads when the dump is closed. -/
private theorem resolves_of_closed
    (closed : ForeignKeys (collectDump (some installationId) db)) {name : Model}
    (listed : name ∈ importOrder) (other : name ≠ .operatorUser) {row : Row}
    (member : row ∈ db name) (chosen : scopedFindArgs (lower installationId) db name row = true)
    {column : Column} {parent : Model} (relation : (column, parent) ∈ relations name) {id : String}
    (value : row.text? column = some id) :
    Loading.Resolves rowId (collectDump (some installationId) db) (parent, id) := by
  obtain ⟨exported, inside, same⟩ := exported_row listed other member chosen
  obtain ⟨kept, silent⟩ := relations_plain name listed _ relation
  rw [← collectDump_others other] at inside
  exact closed name exported inside (parent, id)
    (mem_references.mpr ⟨column, relation, (same column kept silent).trans value⟩)

theorem followed_of_closed (closed : ForeignKeys (collectDump (some installationId) db)) :
    Followed (lower installationId) db := by
  constructor
  · intro message member own column among operator value
    have relation : ∀ column ∈ [Column.reviewClassifiedById, Column.processingLeasedById],
        (column, Model.operatorUser) ∈ relations .message := by decide
    have resolves := resolves_of_closed closed (by decide) (by decide) member own
      (relation column among) value
    exact (resolves_operator.mp resolves).2
  · intro event member own id value
    have relation : (Column.sessionId, Model.callSession) ∈ relations .boothEvent := by decide
    have resolves := resolves_of_closed closed (by decide) (by decide)
      member own relation value
    exact (resolves_others (by decide) (by decide)).mp resolves
  · intro moderation member chosen id value
    have relation : (Column.transcriptionId, Model.transcription) ∈ relations .moderation := by
      decide
    have resolves := resolves_of_closed closed (by decide) (by decide)
      member chosen relation value
    exact (resolves_others (by decide) (by decide)).mp resolves

/-- A scoped export is referentially closed, and goes into empty tables with
every foreign key satisfied, exactly when its era needs no relation that the
filters leave out. -/
theorem scopedExport_closed_iff (keys : ForeignKeys db) :
    (ForeignKeys (collectDump (some installationId) db) ∧
        restoresKeys (collectDump (some installationId) db) = true) ↔
      Followed (lower installationId) db := by
  constructor
  · rintro ⟨closed, -⟩
    exact followed_of_closed closed
  · intro followed
    have closed := closed_of_followed keys followed
    exact ⟨closed, (restoresKeys_iff _ _).mpr closed⟩

end Closed

/-- An era with one recording, leased by an operator who has done nothing else. -/
def leasedRecording : Tables Model Row :=
  Loading.gather
    [(.operatorUser, Row.of .operatorUser [(.id, .text "operator")]),
      (.installation, Row.of .installation [(.id, .text "era")]),
      (.file, Row.of .file [(.id, .text "audio")]),
      (.message, Row.of .message
        [(.id, .text "message"), (.status, .text "pending"), (.audioId, .text "audio"),
          (.processingLeasedById, .text "operator"), (.installationId, .text "era")])]

theorem scopedExport_closed_leased :
    ForeignKeys leasedRecording ∧ ¬ Followed "era" leasedRecording := by
  have keys : ForeignKeys leasedRecording := by decide +kernel
  refine ⟨keys, fun followed => ?_⟩
  have open' : ¬ ForeignKeys (collectDump (some "era") leasedRecording) := by decide +kernel
  have spelled : lower "era" = "era" := by decide +kernel
  exact open' ((scopedExport_closed_iff keys).mpr (spelled.symm ▸ followed)).1

/-- The export of that era refers to an operator it does not carry. -/
theorem leasedRecording_open :
    ForeignKeys leasedRecording ∧
      ¬ ForeignKeys (collectDump (some "era") leasedRecording) ∧
      restoresKeys (collectDump (some "era") leasedRecording) = false := by
  decide +kernel

end BoothOperator.Archive
