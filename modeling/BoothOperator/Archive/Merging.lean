import BoothOperator.Lib.Merge
import BoothOperator.Archive.Reading

/-! What the upserts of an exported archive make of the tables: a table holds
the archive's rows and, of the target's own, those the archive does not carry. -/
namespace BoothOperator.Archive

open BoothOperator.Schema
open BoothOperator.Loading (Tables)

section Values

variable {client : Client} {now : Time} {freshId : String} {name : Model} {stored row : Row}
  {document : Document} {version : Number}

/-- A value goes through an archive unchanged, unless it is the null of a JSON column. -/
theorem input_read (faithful : client.ReadsBack) (shaped : Shaped name stored)
    (read : normalizeArchiveRow name (Row.document stored) version = .ok document) {field : Field}
    (known : field ∈ fields name) (plain : field.kind ≠ .json) (kept : field.column ∉ normalized) :
    ∃ value, document.inputs.lookup (.column field.column) = some (.json value) ∧
      (Input.json value).cell client field = some (stored.get field.column) := by
  have member := (normalizeArchiveRow_get read kept).trans
    (shaped.document_get (List.mem_map.mpr ⟨field, known, rfl⟩))
  refine ⟨(stored.get field.column).toJson, ?_, ?_⟩
  · have inputs := lookup_map_snd document (fun _ value => Input.json value) (.column field.column)
    unfold Document.get at member
    rw [member] at inputs
    exact inputs
  · exact faithful field _ (shaped.values field known) fun json => absurd json plain

theorem createRow_get (faithful : client.ReadsBack) (shaped : Shaped name stored)
    (read : normalizeArchiveRow name (Row.document stored) version = .ok document)
    (created : createRow client now name document.inputs = some row) {field : Field}
    (known : field ∈ fields name) (plain : field.kind ≠ .json) (kept : field.column ∉ normalized) :
    row.get field.column = stored.get field.column := by
  obtain ⟨value, given, held⟩ := input_read faithful shaped read known plain kept
  unfold createRow at created
  split at created
  · have cell := (built_row created).2 field known
    simp only [createCell, given, held] at cell
    exact (Option.some.inj cell).symm
  · cases created

theorem updateRow_get (faithful : client.ReadsBack) (shaped : Shaped name stored)
    (read : normalizeArchiveRow name (Row.document stored) version = .ok document) {old : Row}
    (changed : updateRow client now name document.inputs old = some row) {field : Field}
    (known : field ∈ fields name) (plain : field.kind ≠ .json) (kept : field.column ∉ normalized) :
    row.get field.column = stored.get field.column := by
  obtain ⟨value, given, held⟩ := input_read faithful shaped read known plain kept
  have cell := (built_row changed).2 field known
  simp only [updateCell, given, held] at cell
  exact (Option.some.inj cell).symm

theorem hasId_text {id : String} (keyed : idColumn name = .id) :
    hasId name (.text id) row = true ↔ row.text? .id = some id := by
  unfold hasId Cell.key Row.text?
  rw [keyed]
  cases row.get .id <;> simp

end Values

/-! ## One upsert -/

section Upsert

variable {client : Client} {now : Time} {freshId : String} {name : Model}
  {create update : InputRow} {db after : Tables Model Row}

theorem upsert_cases (done : upsert client now freshId name create update db = some after) :
    ∃ created, createRow client now name create = some created ∧
      (((∀ row ∈ db name, hasId name (created.get (idColumn name)) row = false) ∧
          after = Loading.insert (defaultScope now freshId name created db).2 name
            (defaultScope now freshId name created db).1) ∨
        ∃ row ∈ db name, hasId name (created.get (idColumn name)) row = true ∧
          ∃ held changed, (held = db ∨ held = (defaultScope now freshId name created db).2) ∧
            updateRow client now name update row = some changed ∧
            after = Function.update held name ((held name).map fun other =>
              if hasId name (created.get (idColumn name)) other then changed else other)) := by
  obtain ⟨created, first, done⟩ := Option.bind_eq_some_iff.mp done
  refine ⟨created, first, ?_⟩
  dsimp only at done
  split at done
  · rename_i absent
    split at done
    · cases done
      refine .inl ⟨fun row member => ?_, rfl⟩
      simpa using List.find?_eq_none.mp absent row member
    · cases done
  · rename_i row found
    have keyed : hasId name (created.get (idColumn name)) row = true := List.find?_some found
    obtain ⟨changed, second, done⟩ := Option.bind_eq_some_iff.mp done
    generalize native : (if client.nativeUpsert = true then
      (defaultScope now freshId name created db).2 else db) = held at done
    have same : held = db ∨ held = (defaultScope now freshId name created db).2 := by
      rw [← native]
      split
      · exact .inr rfl
      · exact .inl rfl
    split at done
    · cases done
      exact .inr ⟨row, List.mem_of_find?_eq_some found, keyed, held, changed, same, second, rfl⟩
    · cases done

/-- The eras, and what the trigger has opened beside them. -/
def Grown (freshId : String) (start eras : List Row) : Prop :=
  ∃ opened, eras = start ++ opened ∧
    ∀ era ∈ opened, isOpenEra era = true ∧ era.text? .id = some freshId

theorem grown_refl (freshId : String) (eras : List Row) : Grown freshId eras eras :=
  ⟨[], by simp, fun _ none_ => absurd none_ List.not_mem_nil⟩

theorem automaticEra_open : isOpenEra (automaticEra now freshId db) = true ∧
    (automaticEra now freshId db).text? .id = some freshId := ⟨rfl, rfl⟩

theorem defaultScope_tables (row : Row) {table : Model} (other : table ≠ .installation) :
    (defaultScope now freshId name row db).2 table = db table := by
  unfold defaultScope
  split
  · split
    · rfl
    · simp [Loading.insert, other]
  · rfl

theorem defaultScope_grown (row : Row) {start : List Row}
    (grown : Grown freshId start (db .installation)) :
    Grown freshId start ((defaultScope now freshId name row db).2 .installation) := by
  unfold defaultScope
  split
  · split
    · exact grown
    · obtain ⟨opened, eras, each⟩ := grown
      refine ⟨opened ++ [automaticEra now freshId db], by simp [Loading.insert, eras], ?_⟩
      intro era member
      rcases List.mem_append.mp member with old | new
      · exact each era old
      · exact List.mem_singleton.mp new ▸ automaticEra_open
  · exact grown

theorem upsert_others (done : upsert client now freshId name create update db = some after)
    {table : Model} (other : table ≠ name) (apart : table ≠ .installation) :
    after table = db table := by
  obtain ⟨created, _, ⟨_, rfl⟩ | ⟨_, _, _, held, _, same, _, rfl⟩⟩ := upsert_cases done
  · simp [Loading.insert, other, defaultScope_tables created apart]
  · rw [Function.update_of_ne other]
    rcases same with rfl | rfl
    · rfl
    · exact defaultScope_tables created apart

theorem upsert_grown (done : upsert client now freshId name create update db = some after)
    (other : name ≠ .installation) {start : List Row}
    (grown : Grown freshId start (db .installation)) : Grown freshId start (after .installation) := by
  obtain ⟨created, _, ⟨_, rfl⟩ | ⟨_, _, _, held, _, same, _, rfl⟩⟩ := upsert_cases done
  · rw [Loading.insert, Function.update_of_ne other.symm]
    exact defaultScope_grown created grown
  · rw [Function.update_of_ne other.symm]
    rcases same with rfl | rfl
    · exact grown
    · exact defaultScope_grown created grown

theorem openEra_mem {era : Row} (found : openEra db = some era) :
    era ∈ db .installation ∧ isOpenEra era = true :=
  Table.latest_mem found

theorem text?_set_self {row : Row} {column : Column} {value : Cell} {id : String}
    (read : (row.set column value).text? column = some id) : value = .text id := by
  have lookup : (row.set column value).lookup column = (row.lookup column).map fun _ => value := by
    clear read
    induction row with
    | nil => rfl
    | cons entry rest ih =>
      unfold Row.set at ih ⊢
      rw [List.map_cons, List.lookup_cons, List.lookup_cons, ih]
      by_cases same : entry.1 = column
      · simp [same]
      · have other : (column == entry.1) = false := beq_false_of_ne fun equal => same equal.symm
        simp [same, other]
  unfold Row.text? Row.get at read
  rw [lookup] at read
  cases stored : row.lookup column with
  | none => simp [stored] at read
  | some cell =>
    simp only [stored, Option.map_some, Option.getD_some] at read
    cases value with
    | text held => exact congrArg Cell.text (Option.some.inj read)
    | null | int _ | float _ | bool _ | date _ | json _ => cases read

/-- The id of an era that is open: one of the start, or one the trigger opened. -/
def OpenId (freshId : String) (start : List Row) (id : String) : Prop :=
  id = freshId ∨ ∃ era ∈ start, isOpenEra era = true ∧ era.text? .id = some id

/-- A row that is not tagged goes to an era that is open by then. -/
theorem defaultScope_row {row : Row} {start : List Row}
    (grown : Grown freshId start (db .installation)) :
    (defaultScope now freshId name row db).1 = row ∨
      ∃ value, (defaultScope now freshId name row db).1 = row.set .installationId value ∧
        row.text? .installationId = none ∧ ∀ id, value = .text id → OpenId freshId start id := by
  unfold defaultScope
  split
  · rename_i untagged
    split
    · rename_i era found
      refine .inr ⟨era.get .id, rfl, untagged.2, fun id value => ?_⟩
      have named : era.text? .id = some id := by simp [Row.text?, value]
      obtain ⟨member, open_⟩ := openEra_mem found
      obtain ⟨opened, eras, each⟩ := grown
      rw [eras] at member
      rcases List.mem_append.mp member with old | new
      · exact .inr ⟨era, old, open_, named⟩
      · exact .inl (Option.some.inj (named.symm.trans (each era new).2))
    · refine .inr ⟨.text freshId, rfl, untagged.2, fun id value => ?_⟩
      exact .inl (Cell.text.inj value).symm
  · exact .inl rfl

end Upsert

/-! ## The rows of one table -/

/-- The key under which a row of text id is merged. -/
def idText (row : Row) : String := (row.text? .id).getD ""

/-- The values a restored row takes over from the archived one. -/
def Agrees (name : Model) (stored row : Row) : Prop :=
  ∀ field ∈ fields name, field.kind ≠ .json → field.column ∉ normalized →
    field.column ≠ .installationId → row.get field.column = stored.get field.column

/-- What became of an archived row: an untagged one may have been filed under an open era. -/
structure Became (freshId : String) (eras : List Row) (name : Model) (stored row : Row) : Prop where
  keyed : row.text? .id = some (idText stored)
  agrees : Agrees name stored row
  filed : row.text? .installationId = stored.text? .installationId ∨
    stored.text? .installationId = none ∧
      ∀ id, row.text? .installationId = some id → OpenId freshId eras id

/-- The tables whose rows an installation closes out when it ends. -/
def closedModels : List Model := [.callSession, .message, .question]

/-- A row of an installation or of a table it closes out has a text as its id. -/
theorem Shaped.id_text {name : Model} {row : Row} (shaped : Shaped name row)
    (keyed : name ∈ Model.installation :: closedModels) : row.text? .id = some (idText row) := by
  have text : ∃ id, row.get .id = .text id := by
    have field : ∃ field ∈ fields name, field.column = .id ∧ field.nullable = false ∧
        (field.kind = .uuid ∨ field.kind = .text) := by
      simp only [closedModels, List.mem_cons, List.not_mem_nil, or_false] at keyed
      rcases keyed with rfl | rfl | rfl | rfl
      · exact ⟨.required .uuid .id, List.mem_cons_self, rfl, rfl, .inl rfl⟩
      · exact ⟨.required .text .id, List.mem_cons_self, rfl, rfl, .inr rfl⟩
      · exact ⟨.required .uuid .id, List.mem_cons_self, rfl, rfl, .inl rfl⟩
      · exact ⟨.required .uuid .id, List.mem_cons_self, rfl, rfl, .inl rfl⟩
    obtain ⟨field, known, column, required, kind⟩ := field
    have value := shaped.values field known
    rw [column, Field.holds_iff] at value
    rcases value with ⟨null, _⟩ | holds
    · rw [required] at null
      cases null
    · rcases kind with uuid | text
      · rw [uuid] at holds
        cases cell : row.get .id with
        | text id => exact ⟨id, rfl⟩
        | null | int _ | float _ | bool _ | date _ | json _ => simp [cell, Kind.holds] at holds
      · rw [text] at holds
        cases cell : row.get .id with
        | text id => exact ⟨id, rfl⟩
        | null | int _ | float _ | bool _ | date _ | json _ => simp [cell, Kind.holds] at holds
  obtain ⟨id, cell⟩ := text
  simp [idText, Row.text?, cell]

section Blocks

variable {client : Client} {now : Time} {freshId : String} {partials : List String} {name : Model}

theorem restoreRows_append (first rest : List (Model × Document)) (db : Tables Model Row) :
    restoreRows client now freshId partials (first ++ rest) db =
      (restoreRows client now freshId partials first db).bind
        (restoreRows client now freshId partials rest) := by
  induction first generalizing db with
  | nil => rfl
  | cons entry others ih =>
    obtain ⟨name, row⟩ := entry
    simp only [List.cons_append, restoreRows]
    cases restoreRow client now freshId partials name row db with
    | none => rfl
    | some next => exact ih next

theorem restoreRow_upsert {document : Document} {db after : Tables Model Row}
    (done : restoreRow client now freshId partials name document db = some after) :
    ∃ create update, upsert client now freshId name create update db = some after := by
  unfold restoreRow at done
  split at done
  · exact ⟨_, _, done⟩
  · exact ⟨_, _, done⟩
  · exact ⟨_, _, done⟩

/-- The rows of other tables leave a table alone. -/
theorem restoreRows_others {entries : List (Model × Document)} {db after : Tables Model Row}
    (done : restoreRows client now freshId partials entries db = some after) {table : Model}
    (other : ∀ entry ∈ entries, entry.1 ≠ table) (apart : table ≠ .installation) :
    after table = db table := by
  induction entries generalizing db with
  | nil => cases done; rfl
  | cons entry rest ih =>
    obtain ⟨name, document⟩ := entry
    obtain ⟨middle, first, done⟩ := Option.bind_eq_some_iff.mp done
    obtain ⟨create, update, first⟩ := restoreRow_upsert first
    obtain ⟨here, later⟩ := List.forall_mem_cons.mp other
    rw [ih done later, upsert_others first (fun same => here same.symm) apart]

theorem restoreRows_grown {entries : List (Model × Document)} {db after : Tables Model Row}
    (done : restoreRows client now freshId partials entries db = some after)
    (other : ∀ entry ∈ entries, entry.1 ≠ .installation) {start : List Row}
    (grown : Grown freshId start (db .installation)) : Grown freshId start (after .installation) := by
  induction entries generalizing db with
  | nil => cases done; exact grown
  | cons entry rest ih =>
    obtain ⟨name, document⟩ := entry
    obtain ⟨middle, first, done⟩ := Option.bind_eq_some_iff.mp done
    obtain ⟨create, update, first⟩ := restoreRow_upsert first
    obtain ⟨here, later⟩ := List.forall_mem_cons.mp other
    exact ih done later (upsert_grown first here grown)

/-- A table takes the rows of an archive one after another. -/
theorem restoreRows_merged {becomes : Row → Row → Prop} {inv : Tables Model Row → Prop}
    {start : List Row} {version : Number}
    (own : ∀ stored row, becomes stored row → row.text? .id = some (idText stored))
    {rows : List Row} {documents : List Document}
    (each : List.Forall₂ (fun row document =>
      normalizeArchiveRow name (Row.document row) version = .ok document) rows documents)
    (step : ∀ stored document earlier db after, stored ∈ rows →
      normalizeArchiveRow name (Row.document stored) version = .ok document → inv db →
      Merge.Merged (·.text? .id) idText becomes earlier start (db name) →
      (∀ other ∈ earlier, idText other ≠ idText stored) →
      restoreRow client now freshId partials name document db = some after →
        Merge.Put (·.text? .id) idText becomes stored (db name) (after name) ∧ inv after)
    {earlier : List Row} (distinct : ((earlier ++ rows).map idText).Nodup)
    {db after : Tables Model Row} (holds : inv db)
    (merged : Merge.Merged (·.text? .id) idText becomes earlier start (db name))
    (done : restoreRows client now freshId partials (documents.map fun row => (name, row)) db =
      some after) :
    Merge.Merged (·.text? .id) idText becomes (earlier ++ rows) start (after name) ∧ inv after := by
  induction each generalizing earlier db with
  | nil =>
    cases done
    rw [List.append_nil]
    exact ⟨merged, holds⟩
  | @cons stored document rows documents read each ih =>
    obtain ⟨middle, first, done⟩ := Option.bind_eq_some_iff.mp done
    have fresh : ∀ other ∈ earlier, idText other ≠ idText stored := by
      intro other among same
      rw [List.map_append, List.nodup_append] at distinct
      exact distinct.2.2 _ (List.mem_map.mpr ⟨other, among, rfl⟩) _ List.mem_cons_self same
    obtain ⟨put, kept⟩ :=
      step stored document earlier db middle List.mem_cons_self read holds merged fresh first
    have rest : (((earlier ++ [stored]) ++ rows).map idText).Nodup := by simpa using distinct
    have later := ih (fun stored document earlier db after among =>
      step stored document earlier db after (List.mem_cons_of_mem _ among)) rest kept
        (merged.snoc put own fresh) done
    simpa using later

/-! ## The tables an installation closes out -/

theorem closed_plain (closed : name ∈ closedModels) :
    name ≠ .installation ∧ idColumn name = .id ∧ (name = .callSession ∨ name = .message ∨ name = .question) := by
  simp only [closedModels, List.mem_cons, List.not_mem_nil, or_false] at closed
  rcases closed with rfl | rfl | rfl
  · exact ⟨by decide, rfl, .inl rfl⟩
  · exact ⟨by decide, rfl, .inr (.inl rfl)⟩
  · exact ⟨by decide, rfl, .inr (.inr rfl)⟩

theorem tagged_field (closed : name ∈ closedModels) :
    Field.refersTo .uuid .installationId .installation ∈ fields name := by
  obtain ⟨_, _, rfl | rfl | rfl⟩ := closed_plain closed
  · simp [fields]
  · simp [fields]
  · simp [fields]

theorem restoreRow_closed (closed : name ∈ closedModels) {document : Document}
    {db : Tables Model Row} :
    restoreRow client now freshId partials name document db =
      upsert client now freshId name document.inputs document.inputs db := by
  obtain ⟨_, _, rfl | rfl | rfl⟩ := closed_plain closed
  · rfl
  · rfl
  · rfl

/-- A created or updated row is the archived one. -/
theorem became_same {eras : List Row} {stored row : Row} (closed : name ∈ closedModels)
    (shaped : Shaped name stored)
    (same : ∀ field ∈ fields name, field.kind ≠ .json → field.column ∉ normalized →
      row.get field.column = stored.get field.column) : Became freshId eras name stored row := by
  have id : row.text? .id = stored.text? .id := by
    have column : row.get .id = stored.get .id := by
      obtain ⟨_, _, rfl | rfl | rfl⟩ := closed_plain closed
      · exact same (.required .text .id) List.mem_cons_self (by decide) (by decide)
      · exact same (.required .uuid .id) List.mem_cons_self (by decide) (by decide)
      · exact same (.required .uuid .id) List.mem_cons_self (by decide) (by decide)
    rw [Row.text?, Row.text?, column]
  refine ⟨?_, fun field known plain kept _ => same field known plain kept, .inl ?_⟩
  · rw [id]
    exact shaped.id_text (List.mem_cons_of_mem _ closed)
  · have column := same _ (tagged_field closed) (by decide) (by decide)
    rw [Row.text?, Row.text?]
    rw [Field.refersTo] at column
    rw [column]

theorem Became.set {eras : List Row} {stored row : Row} (became : Became freshId eras name stored row)
    (untagged : row.text? .installationId = none) {value : Cell}
    (open_ : ∀ id, value = .text id → OpenId freshId eras id) :
    Became freshId eras name stored (row.set .installationId value) := by
  refine ⟨?_, fun field known plain kept other => ?_, .inr ⟨?_, fun id read => ?_⟩⟩
  · rw [Row.text?_set_of_ne (by decide)]
    exact became.keyed
  · rw [Row.get_set_of_ne other]
    exact became.agrees field known plain kept other
  · rcases became.filed with same | ⟨none_, _⟩
    · exact same ▸ untagged
    · exact none_
  · exact open_ id (text?_set_self read)

theorem restoreRow_put (faithful : client.ReadsBack) (closed : name ∈ closedModels) {stored : Row}
    (shaped : Shaped name stored) {version : Number} {document : Document}
    (read : normalizeArchiveRow name (Row.document stored) version = .ok document)
    {db after : Tables Model Row} {eras : List Row} (grown : Grown freshId eras (db .installation))
    (done : restoreRow client now freshId partials name document db = some after) :
    Merge.Put (·.text? .id) idText (Became freshId eras name) stored (db name) (after name) := by
  rw [restoreRow_closed closed] at done
  obtain ⟨other, keyed, _⟩ := closed_plain closed
  obtain ⟨created, first, cases_⟩ := upsert_cases done
  have same : Became freshId eras name stored created :=
    became_same closed shaped fun _ => createRow_get faithful shaped read first
  have id : created.get (idColumn name) = .text (idText stored) := by
    have text := same.keyed
    rw [keyed]
    unfold Row.text? at text
    split at text
    · rename_i value cell
      rw [cell, Option.some.inj text]
    · cases text
  simp only [id] at cases_
  rcases cases_ with ⟨absent, rfl⟩ | ⟨row, member, found, held, changed, kept, second, rfl⟩
  · have became : Became freshId eras name stored (defaultScope now freshId name created db).1 := by
      rcases defaultScope_row grown with plain | ⟨value, filed, untagged, open_⟩
      · exact plain ▸ same
      · exact filed ▸ same.set untagged open_
    have missing : ∀ row ∈ db name, row.text? .id ≠ some (idText stored) := by
      intro row member equal
      have clash := absent row member
      rw [(hasId_text keyed).mpr equal] at clash
      cases clash
    rw [Loading.insert, Function.update_self, defaultScope_tables created other]
    refine ⟨fun row member => ?_, fun row member _ => List.mem_append_left _ member,
      _, List.mem_append_right _ List.mem_cons_self, became⟩
    rcases List.mem_append.mp member with old | new
    · exact .inr ⟨old, missing row old⟩
    · exact .inl (List.mem_singleton.mp new ▸ became)
  · have became : Became freshId eras name stored changed :=
      became_same closed shaped fun _ => updateRow_get faithful shaped read second
    have table : held name = db name := by
      rcases kept with rfl | rfl
      · rfl
      · exact defaultScope_tables created other
    rw [Function.update_self, table]
    refine ⟨fun other there => ?_, fun other there apart => ?_, changed, ?_, became⟩
    · obtain ⟨old, among, rfl⟩ := List.mem_map.mp there
      split
      · exact .inl became
      · rename_i apart
        exact .inr ⟨among, fun equal => apart ((hasId_text keyed).mpr equal)⟩
    · refine List.mem_map.mpr ⟨other, there, if_neg fun equal => apart ?_⟩
      exact (hasId_text keyed).mp equal
    · exact List.mem_map.mpr ⟨row, member, if_pos found⟩

/-! ## The installations -/

/-- A partial era that the target already has stays as it is there. -/
def Stays (partials : List String) (start : List Row) (stored : Row) : Prop :=
  idText stored ∈ partials ∧ ∃ old ∈ start, old.text? .id = some (idText stored)

/-- What became of an archived installation. -/
structure EraBecame (partials : List String) (start : List Row) (stored row : Row) : Prop where
  keyed : row.text? .id = some (idText stored)
  kept : Stays partials start stored → ∃ old ∈ start, old.text? .id = some (idText stored) ∧
    isOpenEra row = isOpenEra old
  taken : ¬ Stays partials start stored → isOpenEra row = isOpenEra stored

theorem isPartial_iff {stored : Row} (shaped : Shaped .installation stored) {version : Number}
    {document : Document}
    (read : normalizeArchiveRow .installation (Row.document stored) version = .ok document) :
    isPartial partials .installation document = true ↔ idText stored ∈ partials := by
  have id : stored.get .id = .text (idText stored) := by
    have text := shaped.id_text List.mem_cons_self
    unfold Row.text? at text
    split at text
    · rename_i value cell
      rw [cell, Option.some.inj text]
    · cases text
  have plain : Column.id ∉ normalized := by decide
  have member := (normalizeArchiveRow_get read plain).trans (shaped.document_get (by decide))
  rw [id] at member
  simp [isPartial, Document.read, member, Cell.toJson]

/-- A row updated with no data is the row it was. -/
theorem updateRow_nil {row changed : Row} (updated : updateRow client now .installation [] row =
    some changed) : ∀ field ∈ fields .installation, changed.get field.column = row.get field.column := by
  intro field known
  have cell := (built_row updated).2 field known
  have plain : touched .installation field.column = false := by
    cases field.column <;> rfl
  simp only [updateCell, List.lookup_nil, plain, Bool.false_eq_true, if_false] at cell
  exact (Option.some.inj cell).symm

theorem isOpenEra_congr {row other : Row} (same : row.get .endedAt = other.get .endedAt) :
    isOpenEra row = isOpenEra other := by
  unfold isOpenEra
  rw [same]

theorem text?_congr {row other : Row} {column : Column} (same : row.get column = other.get column) :
    row.text? column = other.text? column := by
  unfold Row.text?
  rw [same]

theorem restoreEra_put (faithful : client.ReadsBack) {stored : Row}
    (shaped : Shaped .installation stored) {version : Number} {document : Document}
    (read : normalizeArchiveRow .installation (Row.document stored) version = .ok document)
    {earlier start : List Row} {db after : Tables Model Row}
    (merged : Merge.Merged (·.text? .id) idText (EraBecame partials start) earlier start
      (db .installation))
    (fresh : ∀ other ∈ earlier, idText other ≠ idText stored)
    (done : restoreRow client now freshId partials .installation document db = some after) :
    Merge.Put (·.text? .id) idText (EraBecame partials start) stored (db .installation)
      (after .installation) := by
  have named : stored.text? .id = some (idText stored) := shaped.id_text List.mem_cons_self
  have idField : Field.required .uuid .id ∈ fields .installation := List.mem_cons_self
  have endField : Field.optional .dateTime .endedAt ∈ fields .installation := by simp [fields]
  obtain ⟨created, first, cases_⟩ := upsert_cases done
  have same : ∀ field ∈ fields .installation, field.kind ≠ .json → field.column ∉ normalized →
      created.get field.column = stored.get field.column :=
    fun _ => createRow_get faithful shaped read first
  have text : created.text? .id = some (idText stored) :=
    (text?_congr (same _ idField (by decide) (by decide))).trans named
  have id : created.get (idColumn .installation) = .text (idText stored) := by
    change created.get .id = _
    unfold Row.text? at text
    split at text
    · rename_i value cell
      rw [cell, Option.some.inj text]
    · cases text
  have alone : defaultScope now freshId .installation created db = (created, db) := by
    simp [defaultScope, isTagged]
  simp only [id, alone, or_self] at cases_
  rcases cases_ with ⟨absent, rfl⟩ | ⟨row, member, found, held, changed, rfl, second, rfl⟩
  · have missing : ∀ row ∈ db .installation, row.text? .id ≠ some (idText stored) := by
      intro row member equal
      have clash := absent row member
      rw [(hasId_text rfl).mpr equal] at clash
      cases clash
    have became : EraBecame partials start stored created := by
      refine ⟨text, fun stays => ?_, fun _ => ?_⟩
      · obtain ⟨_, old, there, equal⟩ := stays
        refine absurd equal (missing old (merged.kept old there fun other among => ?_))
        rw [equal]
        exact fun clash => fresh other among (Option.some.inj clash).symm
      · exact isOpenEra_congr (same _ endField (by decide) (by decide))
    rw [Loading.insert, Function.update_self]
    refine ⟨fun row member => ?_, fun row member _ => List.mem_append_left _ member,
      _, List.mem_append_right _ List.mem_cons_self, became⟩
    rcases List.mem_append.mp member with old | new
    · exact .inr ⟨old, missing row old⟩
    · exact .inl (List.mem_singleton.mp new ▸ became)
  · have old : row ∈ start ∧ row.text? .id = some (idText stored) := by
      have keyed := (hasId_text rfl).mp found
      rcases merged.only row member with ⟨other, among, became⟩ | ⟨there, _⟩
      · exact absurd (Option.some.inj (became.keyed.symm.trans keyed)) (fresh other among)
      · exact ⟨there, keyed⟩
    have became : EraBecame partials start stored changed := by
      by_cases kept : idText stored ∈ partials
      · have unchanged : updateRow client now .installation [] row = some changed := by
          simpa [(isPartial_iff shaped read).mpr kept] using second
        have column := updateRow_nil unchanged
        refine ⟨(text?_congr (column _ idField)).trans old.2, fun _ => ?_, fun moves => ?_⟩
        · exact ⟨row, old.1, old.2, isOpenEra_congr (column _ endField)⟩
        · exact absurd ⟨kept, row, old⟩ moves
      · have whole : isPartial partials .installation document = false := by
          rw [← Bool.not_eq_true, isPartial_iff shaped read]
          exact kept
        rw [whole] at second
        have column : ∀ field ∈ fields .installation, field.kind ≠ .json →
            field.column ∉ normalized → changed.get field.column = stored.get field.column :=
          fun _ => updateRow_get faithful shaped read second
        refine ⟨(text?_congr (column _ idField (by decide) (by decide))).trans named,
          fun stays => absurd stays.1 kept, fun _ => ?_⟩
        exact isOpenEra_congr (column _ endField (by decide) (by decide))
    rw [Function.update_self]
    refine ⟨fun other there => ?_, fun other there apart => ?_, changed, ?_, became⟩
    · obtain ⟨before, among, rfl⟩ := List.mem_map.mp there
      split
      · exact .inl became
      · rename_i apart
        exact .inr ⟨among, fun equal => apart ((hasId_text rfl).mpr equal)⟩
    · refine List.mem_map.mpr ⟨other, there, if_neg fun equal => apart ?_⟩
      exact (hasId_text rfl).mp equal
    · exact List.mem_map.mpr ⟨row, member, if_pos found⟩

end Blocks

end BoothOperator.Archive
