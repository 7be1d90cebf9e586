import BoothOperator.Archive.Closure
import BoothOperator.Archive.Merging

/-! Whether a restore leaves an era that is ended in name only: with a session
still open, a message still queued or a question still live. The close-out is
applied to the era that an open one in the archive displaces; an era that the
archive itself ends keeps what the target has and the archive has not. -/
namespace BoothOperator.Archive

open BoothOperator.Schema
open BoothOperator.Loading (Tables)

/-- What a close-out ends: an open session, a queued message, a live question. -/
def live : Model → Row → Bool
  | .callSession, row => (row.date? .endedAt).isNone
  | .message, row => row.text? .status = some "received" || row.text? .status = some "pending"
  | .question, row => row.text? .status = some "active"
  | _, _ => false

/-- No ended era has anything a close-out would end. -/
def Settled (db : Tables Model Row) : Prop :=
  ∀ name ∈ closedModels, ∀ row ∈ db name, live name row = true →
    ∀ era ∈ db .installation, parentOf .installationId row era = true → isOpenEra era = true

instance (db : Tables Model Row) : Decidable (Settled db) :=
  inferInstanceAs (Decidable (∀ name ∈ closedModels, ∀ row ∈ db name, _ → ∀ era ∈ db .installation, _))

/-- Where an archive's eras and the target's overlap without harm. -/
structure Covered (scope : Option String) (source target : Tables Model Row) : Prop where
  /-- An open era that the archive carries as ended, and that no open one
  displaces, has nothing open that the archive does not carry. -/
  ended : ∀ era ∈ target .installation, isOpenEra era = true →
    ∀ archived ∈ collectDump scope source .installation, archived.text? .id = era.text? .id →
      isOpenEra archived = false → idText archived ∉ partialIds scope source →
      (∀ other ∈ collectDump scope source .installation, isOpenEra other = false) →
        ∀ name ∈ closedModels, ∀ row ∈ target name, live name row = true →
          parentOf .installationId row era = true →
            ∃ carried ∈ collectDump scope source name, carried.text? .id = row.text? .id
  /-- A partial era that is open in the archive and ended in the target brings
  nothing open with it. -/
  prompts : ∀ archived ∈ collectDump scope source .installation, isOpenEra archived = true →
    idText archived ∈ partialIds scope source →
      ∀ era ∈ target .installation, era.text? .id = archived.text? .id → isOpenEra era = false →
        ∀ name ∈ closedModels, ∀ row ∈ collectDump scope source name, live name row = true →
          parentOf .installationId row archived = false

/-! ## The rows of an archive -/

section Dump

variable {scope : Option String} {db : Tables Model Row} {name : Model} {row : Row}

theorem Shaped.set (shaped : Shaped name row) {field : Field} (known : field ∈ fields name)
    {value : Cell} (holds : field.holds value = true) : Shaped name (row.set field.column value) := by
  have columns : (row.set field.column value).map (·.1) = row.map (·.1) := by
    unfold Row.set
    rw [List.map_map]
    refine List.map_congr_left fun entry _ => ?_
    rw [Function.comp_apply]
    split
    · rename_i same
      exact same.symm
    · rfl
  refine ⟨columns.trans shaped.columns, fun other among => ?_⟩
  by_cases same : other.column = field.column
  · have one : other = field := by
      have distinct := columns_nodup name
      exact List.inj_on_of_nodup_map distinct among known same
    subst one
    have member : (other.column, value) ∈ row.set other.column value := by
      have listed : other.column ∈ row.map (·.1) := by
        rw [shaped.columns]
        exact List.mem_map.mpr ⟨other, known, rfl⟩
      obtain ⟨entry, there, column⟩ := List.mem_map.mp listed
      refine List.mem_map.mpr ⟨entry, there, ?_⟩
      rw [if_pos column]
    rw [Row.get_of_mem (by rw [columns, shaped.columns]; exact columns_nodup name) member]
    exact holds
  · rw [Row.get_set_of_ne same]
    exact shaped.values other among

theorem Shaped.partialInstallation (shaped : Shaped .installation row) :
    Shaped .installation (partialInstallation row) := by
  have summary : Field.optional .json .summary ∈ fields .installation := by simp [fields]
  have notes : Field.optional .text .notes ∈ fields .installation := by simp [fields]
  exact (shaped.set summary rfl).set notes rfl

theorem isOpenEra_partial : isOpenEra (partialInstallation row) = isOpenEra row := by
  refine isOpenEra_congr ?_
  rw [partialInstallation, Row.get_set_of_ne (by decide), Row.get_set_of_ne (by decide)]

/-- An archived row of a closed table is a stored one. -/
theorem dump_closed (closed : name ∈ closedModels) (member : row ∈ collectDump scope db name) :
    row ∈ db name ∧ ∀ installationId, scope = some installationId →
      scopedFindArgs (lower installationId) db name row = true := by
  cases scope with
  | none =>
    obtain ⟨_, _, rfl | rfl | rfl⟩ := closed_plain closed
    · exact ⟨member, fun _ none_ => nomatch none_⟩
    · exact ⟨member, fun _ none_ => nomatch none_⟩
    · exact ⟨member, fun _ none_ => nomatch none_⟩
  | some installationId =>
    have chosen : row ∈ (db name).filter (scopedFindArgs (lower installationId) db name) := by
      obtain ⟨_, _, rfl | rfl | rfl⟩ := closed_plain closed
      · exact member
      · exact member
      · exact member
    obtain ⟨stored, found⟩ := List.mem_filter.mp chosen
    exact ⟨stored, fun _ same => Option.some.inj same ▸ found⟩

/-- An archived installation is a stored one, up to its counters. -/
theorem dump_installation (member : row ∈ collectDump scope db .installation) :
    ∃ stored ∈ db .installation, (row = stored ∨ row = partialInstallation stored) := by
  cases scope with
  | none => exact ⟨row, member, .inl rfl⟩
  | some installationId =>
    obtain ⟨stored, chosen, rfl⟩ := List.mem_map.mp member
    refine ⟨stored, (List.mem_filter.mp chosen).1, ?_⟩
    split
    · exact .inl rfl
    · exact .inr rfl

theorem dump_shaped (valid : Valid db) (keyed : name ∈ Model.installation :: closedModels)
    (member : row ∈ collectDump scope db name) : Shaped name row := by
  rcases List.mem_cons.mp keyed with rfl | closed
  · obtain ⟨stored, there, rfl | rfl⟩ := dump_installation member
    · exact valid.shaped _ _ there
    · exact (valid.shaped _ _ there).partialInstallation
  · exact valid.shaped _ _ (dump_closed closed member).1

/-- Rows that may stand beside each other have different ids. -/
theorem idText_apart {other : Row} (keyed : name ∈ Model.installation :: closedModels)
    (shaped : Shaped name row) (shaped' : Shaped name other)
    (apart : compatible name row other = true) : idText row ≠ idText other := by
  intro same
  have listed : [.id] ∈ uniques name := by
    simp only [closedModels, List.mem_cons, List.not_mem_nil, or_false] at keyed
    rcases keyed with rfl | rfl | rfl | rfl <;> decide
  have free := List.all_eq_true.mp (Bool.and_eq_true _ _ ▸ apart).1 _ listed
  have key : ∀ row, Shaped name row → row.uniqueKey [.id] = some [.inl (idText row)] := by
    intro row shaped
    have text := shaped.id_text keyed
    unfold Row.text? at text
    split at text
    · rename_i value cell
      simp [Row.uniqueKey, Cell.key, cell, Option.some.inj text]
    · cases text
  simp [clash, key row shaped, key other shaped', same] at free

theorem idText_nodup (valid : Valid db) (keyed : name ∈ Model.installation :: closedModels) :
    ((db name).map idText).Nodup := by
  refine List.pairwise_map.mpr ?_
  refine (valid.unique name).imp_of_mem fun {row other} first second apart => ?_
  exact idText_apart keyed (valid.shaped name row first) (valid.shaped name other second) apart

theorem dump_nodup (valid : Valid db) (keyed : name ∈ Model.installation :: closedModels) :
    ((collectDump scope db name).map idText).Nodup := by
  have whole := idText_nodup valid keyed
  have texts : ((collectDump scope db name).map idText).Sublist ((db name).map idText) := by
    cases scope with
    | none =>
      have same : collectDump none db name = db name := by
        simp only [closedModels, List.mem_cons, List.not_mem_nil, or_false] at keyed
        rcases keyed with rfl | rfl | rfl | rfl <;> rfl
      rw [same]
    | some installationId =>
      rcases List.mem_cons.mp keyed with rfl | closed
      · change (((db .installation).filter _).map _ |>.map idText).Sublist _
        rw [List.map_map]
        have ids : (db .installation |>.filter
              (scopedFindArgs (lower installationId) db .installation)).map (idText ∘ fun row =>
                if row.text? .id = some installationId then row else partialInstallation row) =
            ((db .installation).filter (scopedFindArgs (lower installationId) db .installation)).map
              idText := by
          refine List.map_congr_left fun row _ => ?_
          rw [Function.comp_apply]
          split
          · rfl
          · rw [idText, text?_partialInstallation (by decide) (by decide)]
            rfl
        rw [ids]
        exact List.filter_sublist.map _
      · have same : collectDump (some installationId) db name =
            (db name).filter (scopedFindArgs (lower installationId) db name) := by
          obtain ⟨_, _, rfl | rfl | rfl⟩ := closed_plain closed <;> rfl
        rw [same]
        exact List.filter_sublist.map _
  exact whole.sublist texts

/-- A row of an archive brings its era along. -/
theorem dump_era (valid : Valid db) (closed : name ∈ closedModels)
    (member : row ∈ collectDump scope db name) {id : String}
    (tagged : row.text? .installationId = some id) :
    ∃ era ∈ collectDump scope db .installation, era.text? .id = some id := by
  obtain ⟨stored, chosen⟩ := dump_closed closed member
  have relation : (Column.installationId, Model.installation) ∈ relations name := by
    obtain ⟨_, _, rfl | rfl | rfl⟩ := closed_plain closed <;> decide
  obtain ⟨era, there, named⟩ := valid.keys name row stored (.installation, id)
    (mem_references.mpr ⟨_, relation, tagged⟩)
  have there : era ∈ db .installation := there
  cases scope with
  | none => exact ⟨era, there, named⟩
  | some installationId =>
    have found := chosen installationId rfl
    have filed : parentOf .installationId row era = true := parentOf_iff.mpr ⟨id, tagged, named⟩
    have wanted : scopedFindArgs (lower installationId) db .installation era = true := by
      obtain ⟨_, _, rfl | rfl | rfl⟩ := closed_plain closed
      · exact installationScopeArgs_tag found filed
      · exact installationScopeArgs_tag found filed
      · exact installationScopeArgs_question stored found filed
    obtain ⟨exported, inside, same⟩ := exported_row (by decide) (by decide) there wanted
    exact ⟨exported, inside, (same .id (by decide) (by decide)).trans named⟩

end Dump

/-! ## The transaction -/

section Restored

variable {client : Client} {now : Time} {freshId : String} {scope : Option String}
  {source start restored : Tables Model Row} {archive : Parsed}

/-- What the upserts leave: the installations, beside which the trigger may have
opened one, and the tables they close out. -/
structure Merges (freshId : String) (scope : Option String) (source start restored : Tables Model Row) :
    Prop where
  eras : ∃ eras, Merge.Merged (·.text? .id) idText
      (EraBecame (partialIds scope source) (start .installation))
      (collectDump scope source .installation) (start .installation) eras ∧
    Grown freshId eras (restored .installation) ∧
    ∀ name ∈ closedModels, Merge.Merged (·.text? .id) idText (Became freshId eras name)
      (collectDump scope source name) (start name) (restored name)

theorem listing_append {μ ρ : Type*} (first rest : List μ) (dump : Tables μ ρ) :
    Loading.listing (first ++ rest) dump = Loading.listing first dump ++ Loading.listing rest dump :=
  List.flatMap_append

theorem listing_names {μ ρ : Type*} {order : List μ} {dump : Tables μ ρ} {entry : μ × ρ}
    (member : entry ∈ Loading.listing order dump) : entry.1 ∈ order := by
  obtain ⟨name, row⟩ := entry
  exact (Loading.mem_listing.mp member).1

/-- The rows of untagged models leave the installations alone. -/
theorem upsert_untagged {name : Model} {create update : InputRow} {db after : Tables Model Row}
    (done : upsert client now freshId name create update db = some after)
    (untagged : isTagged name = false) {table : Model} (other : table ≠ name) :
    after table = db table := by
  have alone : ∀ row, defaultScope now freshId name row db = (row, db) := by
    intro row
    simp [defaultScope, untagged]
  obtain ⟨created, _, ⟨_, rfl⟩ | ⟨_, _, _, held, _, same, _, rfl⟩⟩ := upsert_cases done
  · simp [Loading.insert, other, alone]
  · rw [alone, or_self] at same
    rw [Function.update_of_ne other, same]

theorem operators_untouched {partials : List String} {documents : List Document}
    {db after : Tables Model Row}
    (done : restoreRows client now freshId partials
      (documents.map fun row => (Model.operatorUser, row)) db = some after)
    {table : Model} (other : table ≠ .operatorUser) : after table = db table := by
  induction documents generalizing db with
  | nil => cases done; rfl
  | cons document rest ih =>
    obtain ⟨middle, first, done⟩ := Option.bind_eq_some_iff.mp done
    obtain ⟨create, update, first⟩ := restoreRow_upsert first
    rw [ih done, upsert_untagged first rfl other]

/-- The part of an import order around one of the closed tables. -/
theorem order_around {name : Model} (closed : name ∈ closedModels) :
    ∃ before after, importOrder.drop 2 = before ++ name :: after ∧ name ∉ before ∧ name ∉ after ∧
      Model.installation ∉ before ∧ Model.installation ∉ after := by
  obtain ⟨_, _, rfl | rfl | rfl⟩ := closed_plain closed
  · exact ⟨[.file, .instruction, .question], _, rfl, by decide, by decide, by decide, by decide⟩
  · exact ⟨[.file, .instruction, .question, .callSession], _, rfl, by decide, by decide, by decide,
      by decide⟩
  · exact ⟨[.file, .instruction], _, rfl, by decide, by decide, by decide, by decide⟩

theorem restoreRows_merges (faithful : client.ReadsBack) (valid : Valid source)
    (reads : Reads scope source archive)
    (done : restoreRows client now freshId archive.manifest.partialInstallationIds
      (listed archive.dump) start = some restored) :
    Merges freshId scope source start restored := by
  have order : importOrder = [.operatorUser] ++ [.installation] ++ importOrder.drop 2 := rfl
  rw [reads.partials, listed, order, listing_append, listing_append, restoreRows_append,
    restoreRows_append] at done
  obtain ⟨begun, first, rest⟩ := Option.bind_eq_some_iff.mp done
  obtain ⟨middle, operators, eras⟩ := Option.bind_eq_some_iff.mp first
  simp only [Loading.listing, List.flatMap_cons, List.flatMap_nil, List.append_nil] at operators eras
  have begin_ : middle .installation = start .installation :=
    operators_untouched operators (by decide)
  have eraStep : ∀ stored document earlier db after, stored ∈ collectDump scope source .installation →
      normalizeArchiveRow .installation (Row.document stored) exportVersion = .ok document → True →
      Merge.Merged (·.text? .id) idText (EraBecame (partialIds scope source) (start .installation))
        earlier (start .installation) (db .installation) →
      (∀ other ∈ earlier, idText other ≠ idText stored) →
      restoreRow client now freshId (partialIds scope source) .installation document db = some after →
        Merge.Put (·.text? .id) idText (EraBecame (partialIds scope source) (start .installation))
          stored (db .installation) (after .installation) ∧ True := by
    intro stored document earlier db after among read _ merged fresh done
    have shaped := dump_shaped valid List.mem_cons_self among
    exact ⟨restoreEra_put faithful shaped read merged fresh done, trivial⟩
  have distinct : (([] ++ collectDump scope source .installation).map idText).Nodup :=
    dump_nodup valid List.mem_cons_self
  have merged := restoreRows_merged (fun _ _ became => became.keyed)
    (reads.rows .installation (by decide)) eraStep distinct trivial
    (begin_.symm ▸ Merge.merged_nil _) eras
  refine ⟨begun .installation, merged.1, ?_, fun name closed => ?_⟩
  · refine restoreRows_grown rest (fun entry member same => ?_) (grown_refl _ _)
    have known := listing_names member
    rw [same] at known
    exact absurd known (by decide)
  · obtain ⟨apart, _, _⟩ := closed_plain closed
    obtain ⟨before, after, split, fresh, past, early, late⟩ := order_around closed
    have known : name ∈ importOrder := by
      refine List.mem_of_mem_drop (i := 2) ?_
      simp [split]
    have rowStep : ∀ stored document (earlier : List Row) db after,
        stored ∈ collectDump scope source name →
        normalizeArchiveRow name (Row.document stored) exportVersion = .ok document →
        Grown freshId (begun .installation) (db .installation) →
        Merge.Merged (·.text? .id) idText (Became freshId (begun .installation) name) earlier
          (start name) (db name) →
        (∀ other ∈ earlier, idText other ≠ idText stored) →
        restoreRow client now freshId (partialIds scope source) name document db = some after →
          Merge.Put (·.text? .id) idText (Became freshId (begun .installation) name) stored
            (db name) (after name) ∧
          Grown freshId (begun .installation) (after .installation) := by
      intro stored document earlier db after among read grown _ _ done
      have shaped := dump_shaped valid (List.mem_cons_of_mem _ closed) among
      obtain ⟨create, update, upserted⟩ := restoreRow_upsert done
      exact ⟨restoreRow_put faithful closed shaped read grown done,
        upsert_grown upserted apart grown⟩
    rw [split, ← List.singleton_append, listing_append, listing_append, restoreRows_append] at rest
    obtain ⟨reached, sooner, rest⟩ := Option.bind_eq_some_iff.mp rest
    rw [restoreRows_append] at rest
    obtain ⟨finished, own, later⟩ := Option.bind_eq_some_iff.mp rest
    simp only [Loading.listing, List.flatMap_cons, List.flatMap_nil, List.append_nil] at own
    have untouched : ∀ {order : List Model} {db after : Tables Model Row}, name ∉ order →
        restoreRows client now freshId (partialIds scope source)
          (Loading.listing order archive.dump) db = some after → after name = db name := by
      intro order db after absent done
      refine restoreRows_others done (fun entry member same => ?_) apart
      exact absent (same ▸ listing_names member)
    have grown : Grown freshId (begun .installation) (reached .installation) := by
      refine restoreRows_grown sooner (fun entry member same => ?_) (grown_refl _ _)
      exact early (same ▸ listing_names member)
    have eras' : begun name = middle name := by
      refine restoreRows_others eras (fun entry member same => ?_) apart
      obtain ⟨row, _, rfl⟩ := List.mem_map.mp member
      exact apart same.symm
    have operator : name ≠ .operatorUser := by
      rintro rfl
      exact absurd closed (by decide)
    have table : reached name = start name := by
      rw [untouched fresh sooner, eras', operators_untouched operators operator]
    have distinct : (([] ++ collectDump scope source name).map idText).Nodup :=
      dump_nodup valid (List.mem_cons_of_mem _ closed)
    have merged := restoreRows_merged (fun _ _ became => became.keyed) (reads.rows name known) rowStep
      distinct grown (table.symm ▸ Merge.merged_nil _) own
    rw [untouched past later]
    exact merged.1

end Restored

/-! ## The era that yields -/

section Reconciled

variable {now : Time} {scope : Option String} {source target : Tables Model Row} {archive : Parsed}

theorem get_update {name : Model} {row : Row} (shaped : Shaped name row) (data : Row) {column : Column}
    (known : column ∈ (fields name).map (·.column)) :
    (row.update data).get column = (data.lookup column).getD (row.get column) := by
  have stored := shaped.lookup known
  have lookup := lookup_map_snd row (fun column cell => (data.lookup column).getD cell) column
  unfold Row.get at stored ⊢
  rw [Row.update, lookup, stored]
  rfl

/-- The tables after `reconcileActiveInstallation`, which may have closed an era out. -/
structure Reconciled (displaced : Option String) (target start : Tables Model Row) : Prop where
  rows : ∀ name ∈ closedModels, ∀ row ∈ start name, ∃ old ∈ target name,
    row.text? .installationId = old.text? .installationId ∧
      (live name row = true → live name old = true ∧
        ∀ id, displaced = some id → row.text? .installationId ≠ some id)
  eras : ∀ era ∈ start .installation, ∃ old ∈ target .installation, era.text? .id = old.text? .id ∧
    isOpenEra era = (isOpenEra old && decide (displaced ≠ old.text? .id))
  there : ∀ old ∈ target .installation, ∃ era ∈ start .installation, era.text? .id = old.text? .id
  kept : displaced = none → start = target

theorem reconciled_none (valid : Valid target) : Reconciled none target target where
  rows name closed row member := ⟨row, member, rfl, fun open_ => ⟨open_, fun _ none_ => nomatch none_⟩⟩
  eras era member := by
    refine ⟨era, member, rfl, ?_⟩
    rw [(valid.shaped _ _ member).id_text List.mem_cons_self]
    simp
  there old member := ⟨old, member, rfl⟩
  kept _ := rfl

/-- Of a closed-out row only what the close-out ends is changed. -/
theorem reconciled_row {name : Model} {row : Row} (shaped : Shaped name row) {found : Row → Bool}
    {data : Row} (closed : name ∈ closedModels) (untagged : data.lookup .installationId = none)
    {id : String} (ends : ∀ row, found row = (inInstallation id row && live name row))
    (settles : live name (row.update data) = false) :
    ((if found row then row.update data else row).text? .installationId =
        row.text? .installationId) ∧
      (live name (if found row then row.update data else row) = true → live name row = true ∧
        (if found row then row.update data else row).text? .installationId ≠ some id) := by
  have tagged : (row.update data).text? .installationId = row.text? .installationId := by
    have known : Column.installationId ∈ (fields name).map (·.column) :=
      List.mem_map.mpr ⟨_, tagged_field closed, rfl⟩
    refine text?_congr ?_
    rw [get_update shaped data known, untagged]
    rfl
  by_cases mine : found row = true
  · rw [if_pos mine]
    refine ⟨tagged, fun open_ => ?_⟩
    rw [settles] at open_
    cases open_
  · rw [if_neg mine]
    refine ⟨rfl, fun open_ => ⟨open_, fun own => mine ?_⟩⟩
    rw [ends, open_, Bool.and_true]
    exact decide_eq_true own

theorem reconciled_closed (valid : Valid target) {id : String} (endedAt : Time) (data : Row)
    (era : data.lookup .endedAt = some (.date endedAt)) (unnamed : data.lookup .id = none) :
    Reconciled (some id) target
      (updateMany .installation (fun row => row.text? .id = some id) data
        (closeOutRows id endedAt target)) := by
  have ended : ∀ row ∈ target .installation, isOpenEra (row.update data) = false ∧
      (row.update data).text? .id = row.text? .id := by
    intro row member
    have shaped := valid.shaped _ _ member
    refine ⟨?_, text?_congr ?_⟩
    · rw [isOpenEra, get_update shaped data (by decide), era]
      rfl
    · rw [get_update shaped data (by decide), unnamed]
      rfl
  refine ⟨fun name closed row member => ?_, fun row member => ?_, fun old member => ?_,
    fun none_ => nomatch none_⟩
  · have change : ∃ found data, data.lookup Column.installationId = none ∧
        (∀ row, found row = (inInstallation id row && live name row)) ∧
        (∀ row ∈ target name, live name (row.update data) = false) ∧
        row ∈ Table.updateMany found (·.update data) (target name) := by
      obtain ⟨_, _, rfl | rfl | rfl⟩ := closed_plain closed
      · refine ⟨isOpenSession id, _, rfl, fun _ => rfl, fun row there => ?_, member⟩
        have stamped := get_update (valid.shaped _ _ there)
          [(.endedAt, .date endedAt), (.outcome, .text rolloverOutcome)]
          (show Column.endedAt ∈ _ by decide)
        simp [live, Row.date?, stamped]
      · refine ⟨isQueuedMessage id, _, rfl, fun _ => rfl, fun row there => ?_, member⟩
        have stamped := get_update (valid.shaped _ _ there)
          [(.status, .text "rejected"), (.notes, .text rolloverMessageNote),
            (.decidedAt, .date endedAt)] (show Column.status ∈ _ by decide)
        simp [live, Row.text?, stamped]
      · refine ⟨isLiveQuestion id, _, rfl, fun _ => rfl, fun row there => ?_, member⟩
        have stamped := get_update (valid.shaped _ _ there)
          [(.status, .text "archived"), (.retiredAt, .date endedAt)]
          (show Column.status ∈ _ by decide)
        simp [live, Row.text?, stamped]
    obtain ⟨found, data, untagged, ends, settles, member⟩ := change
    obtain ⟨old, there, rfl⟩ := List.mem_map.mp member
    obtain ⟨filed, opens⟩ := reconciled_row (valid.shaped _ _ there) closed untagged ends
      (settles old there)
    refine ⟨old, there, filed, fun open_ => ⟨(opens open_).1, fun other same => ?_⟩⟩
    exact Option.some.inj same ▸ (opens open_).2
  · obtain ⟨old, there, rfl⟩ := List.mem_map.mp member
    have there : old ∈ target .installation := there
    by_cases own : old.text? .id = some id
    · rw [if_pos (decide_eq_true own)]
      obtain ⟨past, same⟩ := ended old there
      exact ⟨old, there, same, by rw [past, own]; simp⟩
    · rw [if_neg (by simpa using own)]
      exact ⟨old, there, rfl, by simp [Ne.symm own]⟩
  · refine ⟨_, List.mem_map.mpr ⟨old, member, rfl⟩, ?_⟩
    split
    · exact (ended old member).2
    · rfl

/-- An installation of the archive is open when its document says so. -/
theorem isOpen_document {stored : Row} (shaped : Shaped .installation stored) {version : Number}
    {document : Document}
    (read : normalizeArchiveRow .installation (Row.document stored) version = .ok document) :
    isNullish (document.get .endedAt) = isOpenEra stored ∧
      document.read .id = .str (idText stored) := by
  have plain : Column.endedAt ∉ normalized ∧ Column.id ∉ normalized := by decide
  have ended := (normalizeArchiveRow_get read plain.1).trans (shaped.document_get (by decide))
  have named := (normalizeArchiveRow_get read plain.2).trans (shaped.document_get (by decide))
  constructor
  · have field : Field.optional .dateTime .endedAt ∈ fields .installation := by simp [fields]
    have value : (true = true ∧ stored.get .endedAt = .null) ∨
        Kind.holds .dateTime (stored.get .endedAt) = true :=
      Field.holds_iff.mp (shaped.values _ field)
    rw [ended, isOpenEra]
    cases cell : stored.get .endedAt with
    | null => rfl
    | date time => rfl
    | text _ | int _ | float _ | bool _ | json _ => simp [cell, Kind.holds] at value
  · have text := shaped.id_text List.mem_cons_self
    unfold Row.text? at text
    split at text
    · rename_i value cell
      rw [Document.read, named, cell, Option.some.inj text]
      rfl
    · cases text

/-- Two installations of a database that are both open are one. -/
theorem open_unique (valid : Valid target) {row other : Row} (member : row ∈ target .installation)
    (member' : other ∈ target .installation) (open_ : isOpenEra row = true)
    (open' : isOpenEra other = true) : row = other := by
  have alone : ∀ {row other}, compatible .installation row other = true →
      isOpenEra row = true → isOpenEra other = true → False := by
    intro row other beside first second
    simp [compatible, first, second] at beside
  have ordered := valid.unique .installation
  have forward : (target .installation).Pairwise fun row other =>
      isOpenEra row = true → isOpenEra other = true → row = other :=
    ordered.imp fun beside first second => (alone beside first second).elim
  have backward : (target .installation).Pairwise (flip fun row other =>
      isOpenEra row = true → isOpenEra other = true → row = other) :=
    ordered.imp fun beside first second => (alone beside second first).elim
  exact forward.forall_of_forall_of_flip (fun _ _ _ _ => rfl) backward member member' open_ open'

theorem dump_isOpen {row : Row} (member : row ∈ collectDump scope source .installation) :
    ∃ stored ∈ source .installation, isOpenEra row = isOpenEra stored ∧ idText row = idText stored := by
  obtain ⟨stored, there, rfl | rfl⟩ := dump_installation member
  · exact ⟨row, there, rfl, rfl⟩
  · refine ⟨stored, there, isOpenEra_partial, ?_⟩
    rw [idText, text?_partialInstallation (by decide) (by decide)]
    rfl

theorem forall₂_mem {α β : Type*} {related : α → β → Prop} {rows : List α} {others : List β}
    (each : List.Forall₂ related rows others) :
    (∀ row ∈ rows, ∃ other ∈ others, related row other) ∧
      ∀ other ∈ others, ∃ row ∈ rows, related row other := by
  induction each with
  | nil => simp
  | cons here _ ih =>
    obtain ⟨left, right⟩ := ih
    refine ⟨fun row member => ?_, fun other member => ?_⟩
    · rcases List.mem_cons.mp member with rfl | later
      · exact ⟨_, List.mem_cons_self, here⟩
      · obtain ⟨other, there, same⟩ := left row later
        exact ⟨other, List.mem_cons_of_mem _ there, same⟩
    · rcases List.mem_cons.mp member with rfl | later
      · exact ⟨_, List.mem_cons_self, here⟩
      · obtain ⟨row, there, same⟩ := right other later
        exact ⟨row, List.mem_cons_of_mem _ there, same⟩

theorem reconcile_spec (validSource : Valid source) (valid : Valid target)
    (reads : Reads scope source archive) :
    ∃ displaced, Reconciled displaced target (reconcileActiveInstallation now archive.dump target) ∧
      (∀ id, displaced = some id → (∃ existing ∈ target .installation, isOpenEra existing = true ∧
        existing.text? .id = some id) ∧ ∃ incoming ∈ collectDump scope source .installation,
          isOpenEra incoming = true ∧ idText incoming ≠ id) ∧
      (displaced = none → ∀ incoming ∈ collectDump scope source .installation,
        isOpenEra incoming = true → ∀ existing ∈ target .installation, isOpenEra existing = true →
          existing.text? .id = some (idText incoming)) := by
  obtain ⟨rows, documents⟩ := forall₂_mem (reads.rows .installation (by decide))
  have shaped : ∀ stored ∈ collectDump scope source .installation, Shaped .installation stored :=
    fun stored member => dump_shaped validSource List.mem_cons_self member
  unfold reconcileActiveInstallation
  split
  · rename_i absent
    refine ⟨none, reconciled_none valid, fun _ none_ => (nomatch none_), ?_⟩
    intro _ incoming member open_
    obtain ⟨document, there, read⟩ := rows incoming member
    have closed := List.find?_eq_none.mp absent document there
    rw [(isOpen_document (shaped _ member) read).1] at closed
    exact absurd open_ closed
  rename_i document found
  obtain ⟨incoming, member, read⟩ := documents document (List.mem_of_find?_eq_some found)
  obtain ⟨nullish, named⟩ := isOpen_document (shaped _ member) read
  have accepted : isNullish (document.get .endedAt) = true := by simpa using List.find?_some found
  have open_ : isOpenEra incoming = true := nullish.symm.trans accepted
  split
  · rename_i absent
    refine ⟨none, reconciled_none valid, fun _ none_ => (nomatch none_), ?_⟩
    intro _ _ _ _ existing there open'
    exact absurd open' (List.find?_eq_none.mp absent existing there)
  rename_i existing found'
  have there := List.mem_of_find?_eq_some found'
  have openExisting : isOpenEra existing = true := List.find?_some found'
  have keyed := (valid.shaped _ _ there).id_text List.mem_cons_self
  have own : (existing.text? .id).getD "" = idText existing := rfl
  dsimp only
  rw [named, own]
  split
  · rename_i same
    have same : idText incoming = idText existing := of_decide_eq_true same
    refine ⟨none, reconciled_none valid, fun _ none_ => (nomatch none_), ?_⟩
    intro _ incoming' member' open' existing' there' openExisting'
    obtain ⟨stored, first, status, text⟩ := dump_isOpen member
    obtain ⟨stored', second, status', text'⟩ := dump_isOpen member'
    have one : stored = stored' :=
      open_unique validSource first second (status ▸ open_) (status' ▸ open')
    rw [open_unique valid there' there openExisting' openExisting, keyed, ← same, text, text', one]
  · rename_i apart
    refine ⟨some (idText existing), reconciled_closed valid now _ rfl rfl, ?_, fun none_ => nomatch none_⟩
    intro id displaced
    have id : idText existing = id := Option.some.inj displaced
    refine ⟨⟨existing, there, openExisting, id ▸ keyed⟩, incoming, member, open_, fun same => apart ?_⟩
    exact decide_eq_true (same.trans id.symm)

end Reconciled

/-! ## After a restore -/

section After

variable {now : Time} {freshId : String} {scope : Option String}
  {source target start restored : Tables Model Row} {displaced : Option String}

theorem Became.live {eras : List Row} {name : Model} {stored row : Row} (closed : name ∈ closedModels)
    (became : Became freshId eras name stored row) : live name row = live name stored := by
  obtain ⟨_, _, rfl | rfl | rfl⟩ := closed_plain closed
  · have field : Field.optional .dateTime .endedAt ∈ fields .callSession := by simp [fields]
    have column : row.get .endedAt = stored.get .endedAt :=
      became.agrees _ field (by decide) (by decide) (by decide)
    simp [Archive.live, Row.date?, column]
  · have field : Field.required messageStatus .status ∈ fields .message := by simp [fields]
    have column : row.get .status = stored.get .status :=
      became.agrees _ field (by decide) (by decide) (by decide)
    simp [Archive.live, text?_congr column]
  · have field : Field.required questionStatus .status ∈ fields .question := by simp [fields]
    have column : row.get .status = stored.get .status :=
      became.agrees _ field (by decide) (by decide) (by decide)
    simp [Archive.live, text?_congr column]

theorem era_unique (valid : Valid target) {era other : Row} (member : era ∈ target .installation)
    (member' : other ∈ target .installation) (same : era.text? .id = other.text? .id) : era = other := by
  refine List.inj_on_of_nodup_map (idText_nodup valid List.mem_cons_self) member member' ?_
  rw [idText, idText, same]

/-- The eras of one id are open or ended together, in the tables the upserts start from. -/
theorem Reconciled.start_era (valid : Valid target) (reconciled : Reconciled displaced target start)
    {era old : Row} (member : era ∈ target .installation) (there : old ∈ start .installation)
    (same : old.text? .id = era.text? .id) :
    isOpenEra old = (isOpenEra era && decide (displaced ≠ era.text? .id)) := by
  obtain ⟨other, among, named, opens⟩ := reconciled.eras old there
  rwa [era_unique valid among member (named.symm.trans same)] at opens

theorem Reconciled.settled (reconciled : Reconciled displaced target start)
    (settled : Settled target) : Settled start := by
  intro name closed row member open_ era there filed
  obtain ⟨id, tag, named⟩ := parentOf_iff.mp filed
  obtain ⟨old, among, sameTag, opens⟩ := reconciled.rows name closed row member
  obtain ⟨other, among', sameId, status⟩ := reconciled.eras era there
  obtain ⟨openOld, spared⟩ := opens open_
  have openOther := settled name closed old among openOld other among'
    (parentOf_iff.mpr ⟨id, sameTag.symm.trans tag, sameId.symm.trans named⟩)
  have apart : displaced ≠ other.text? .id := by
    intro same
    rw [← sameId, named] at same
    exact spared id same tag
  rw [status, openOther, decide_eq_true apart]
  rfl

theorem covered_of_settled (validSource : Valid source) (valid : Valid target)
    (reconciled : Reconciled displaced target start)
    (yields : ∀ id, displaced = some id → ∃ incoming ∈ collectDump scope source .installation,
      isOpenEra incoming = true)
    (merges : Merges freshId scope source start restored) (settled : Settled restored) :
    Covered scope source target := by
  obtain ⟨eras, mergedEras, ⟨opened, whole, _⟩, tables⟩ := merges.eras
  have kept : ∀ era ∈ eras, era ∈ restored .installation := fun era member =>
    whole ▸ List.mem_append_left _ member
  constructor
  · intro era member open_ archived among same ended plain none_ name closed row there openRow filed
    have stays : start = target := by
      refine reconciled.kept (Option.eq_none_iff_forall_ne_some.mpr fun id yielded => ?_)
      obtain ⟨incoming, among', open'⟩ := yields id yielded
      rw [none_ incoming among'] at open'
      cases open'
    by_contra missing
    obtain ⟨id, tag, named⟩ := parentOf_iff.mp filed
    have rest : row ∈ restored name := by
      refine (tables name closed).kept row (stays ▸ there) fun carried among' equal => missing ?_
      have shaped := dump_shaped validSource (List.mem_cons_of_mem _ closed) among'
      exact ⟨carried, among', (shaped.id_text (List.mem_cons_of_mem _ closed)).trans equal.symm⟩
    obtain ⟨era', there', became⟩ := mergedEras.there archived among
    have shaped := dump_shaped validSource List.mem_cons_self among
    have named' : era'.text? .id = some id := by
      rw [became.keyed, ← shaped.id_text List.mem_cons_self, same, named]
    have still := settled name closed row rest openRow era' (kept era' there')
      (parentOf_iff.mpr ⟨id, tag, named'⟩)
    rw [became.taken fun stays => plain stays.1, ended] at still
    cases still
  · intro archived among open_ standIn era member same ended name closed row there openRow
    by_contra filed
    rw [Bool.not_eq_false] at filed
    obtain ⟨id, tag, named⟩ := parentOf_iff.mp filed
    obtain ⟨row', there', became⟩ := (tables name closed).there row there
    have tag' : row'.text? .installationId = some id := by
      rcases became.filed with equal | ⟨untagged, _⟩
      · exact equal.trans tag
      · rw [tag] at untagged
        cases untagged
    obtain ⟨era', present, becameEra⟩ := mergedEras.there archived among
    have shaped := dump_shaped validSource List.mem_cons_self among
    have keyed := shaped.id_text List.mem_cons_self
    obtain ⟨old, before, sameOld⟩ := reconciled.there era member
    obtain ⟨other, before', sameOther, status⟩ := becameEra.kept
      ⟨standIn, old, before, sameOld.trans (same.trans keyed)⟩
    have closedOther := reconciled.start_era valid member before'
      (sameOther.trans (keyed.symm.trans same.symm))
    have still := settled name closed row' there' ((became.live closed).trans openRow) era'
      (kept era' present) (parentOf_iff.mpr ⟨id, tag', becameEra.keyed.trans (keyed.symm.trans named)⟩)
    rw [status, closedOther, ended] at still
    cases still

/-- The eras of one id are open or ended together once the installations are merged. -/
theorem merged_open (validSource : Valid source) (valid : Valid target)
    (reconciled : Reconciled displaced target start) {eras : List Row}
    (merged : Merge.Merged (·.text? .id) idText
      (EraBecame (partialIds scope source) (start .installation))
      (collectDump scope source .installation) (start .installation) eras)
    {era other : Row} (member : era ∈ eras) (member' : other ∈ eras)
    (same : era.text? .id = other.text? .id) : isOpenEra era = isOpenEra other := by
  have before : ∀ old ∈ start .installation, ∀ old' ∈ start .installation,
      old.text? .id = old'.text? .id → isOpenEra old = isOpenEra old' := by
    intro old there old' there' equal
    obtain ⟨stored, among, named, _⟩ := reconciled.eras old there
    rw [reconciled.start_era valid among there named,
      reconciled.start_era valid among there' (equal.symm.trans named)]
  rcases merged.only era member with ⟨archived, among, became⟩ | ⟨there, apart⟩
  · rcases merged.only other member' with ⟨archived', among', became'⟩ | ⟨there', apart'⟩
    · have texts : idText archived = idText archived' :=
        Option.some.inj (became.keyed.symm.trans (same.trans became'.keyed))
      have one : archived = archived' :=
        List.inj_on_of_nodup_map (dump_nodup validSource List.mem_cons_self) among among' texts
      subst one
      by_cases stays : Stays (partialIds scope source) (start .installation) archived
      · obtain ⟨old, there, named, status⟩ := became.kept stays
        obtain ⟨old', there', named', status'⟩ := became'.kept stays
        rw [status, status', before old there old' there' (named.trans named'.symm)]
      · rw [became.taken stays, became'.taken stays]
    · exact absurd (same.symm.trans became.keyed) (apart' archived among)
  · rcases merged.only other member' with ⟨archived', among', became'⟩ | ⟨there', _⟩
    · exact absurd (same.trans became'.keyed) (apart archived' among')
    · exact before era there other there' same

theorem settled_of_covered (validSource : Valid source) (valid : Valid target)
    (settledSource : Settled source) (settled : Settled target)
    (fresh : ∀ era ∈ target .installation, era.text? .id ≠ some freshId)
    (fresh' : ∀ era ∈ source .installation, era.text? .id ≠ some freshId)
    (reconciled : Reconciled displaced target start)
    (yields : ∀ id, displaced = some id → (∃ existing ∈ target .installation,
      isOpenEra existing = true ∧ existing.text? .id = some id) ∧
      ∃ incoming ∈ collectDump scope source .installation, isOpenEra incoming = true ∧
        idText incoming ≠ id)
    (remains : displaced = none → ∀ incoming ∈ collectDump scope source .installation,
      isOpenEra incoming = true → ∀ existing ∈ target .installation, isOpenEra existing = true →
        existing.text? .id = some (idText incoming))
    (merges : Merges freshId scope source start restored) (covered : Covered scope source target) :
    Settled restored := by
  obtain ⟨eras, merged, ⟨opened, whole, each⟩, tables⟩ := merges.eras
  have settledStart := reconciled.settled settled
  intro name closed row member open_ era there filed
  obtain ⟨id, tag, named⟩ := parentOf_iff.mp filed
  rw [whole] at there
  rcases List.mem_append.mp there with there | new
  swap
  · exact (each era new).1
  have keyed : ∀ archived ∈ collectDump scope source .installation,
      archived.text? .id = some (idText archived) := fun archived among =>
    (dump_shaped validSource List.mem_cons_self among).id_text List.mem_cons_self
  rcases (tables name closed).only row member with ⟨stored, among, became⟩ | ⟨before, apart⟩
  · -- the row is the archive's, and so is its era
    have openStored : live name stored = true := (became.live closed).symm.trans open_
    rcases became.filed with same | ⟨_, opens⟩
    · have tagStored : stored.text? .installationId = some id := same.symm.trans tag
      obtain ⟨archived, carried, namedArchived⟩ := dump_era validSource closed among tagStored
      have openArchived : isOpenEra archived = true := by
        obtain ⟨origin, held, status, text⟩ := dump_isOpen carried
        have keyedOrigin := (validSource.shaped _ _ held).id_text List.mem_cons_self
        rw [status]
        refine settledSource name closed stored (dump_closed closed among).1 openStored origin held ?_
        refine parentOf_iff.mpr ⟨id, tagStored, ?_⟩
        rw [keyedOrigin, ← text, ← keyed archived carried, namedArchived]
      have text : idText archived = id :=
        Option.some.inj ((keyed archived carried).symm.trans namedArchived)
      obtain ⟨era', there', becameEra⟩ := merged.there archived carried
      have same' : era.text? .id = era'.text? .id := by rw [named, becameEra.keyed, text]
      rw [merged_open validSource valid reconciled merged there there' same']
      by_cases stays : Stays (partialIds scope source) (start .installation) archived
      · obtain ⟨old, held, namedOld, status⟩ := becameEra.kept stays
        obtain ⟨origin, held', sameOrigin, statusOrigin⟩ := reconciled.eras old held
        have namedOrigin : origin.text? .id = some id := by rw [← sameOrigin, namedOld, text]
        have openOrigin : isOpenEra origin = true := by
          by_contra ended
          have quiet := covered.prompts archived carried openArchived stays.1 origin held'
            (namedOrigin.trans namedArchived.symm) (by simpa using ended) name closed
            stored among openStored
          rw [parentOf_iff.mpr ⟨id, tagStored, namedArchived⟩] at quiet
          cases quiet
        have spared : displaced ≠ origin.text? .id := by
          intro yielded
          rw [namedOrigin] at yielded
          obtain ⟨_, incoming, among', open', other⟩ := yields id yielded
          obtain ⟨first, held₁, status₁, text₁⟩ := dump_isOpen among'
          obtain ⟨second, held₂, status₂, text₂⟩ := dump_isOpen carried
          have one := open_unique validSource held₁ held₂ (status₁ ▸ open') (status₂ ▸ openArchived)
          exact other (text₁.trans (one ▸ text₂.symm.trans text))
        rw [status, statusOrigin, openOrigin, decide_eq_true spared]
        rfl
      · rw [becameEra.taken stays, openArchived]
    · rcases opens id tag with rfl | ⟨opener, held, openOpener, namedOpener⟩
      · rcases merged.only era there with ⟨archived, carried, becameEra⟩ | ⟨held, _⟩
        · obtain ⟨origin, held, _, text⟩ := dump_isOpen carried
          have keyedOrigin := (validSource.shaped _ _ held).id_text List.mem_cons_self
          rw [becameEra.keyed, text, ← keyedOrigin] at named
          exact absurd named (fresh' origin held)
        · obtain ⟨origin, held', same, _⟩ := reconciled.eras era held
          exact absurd (same.symm.trans named) (fresh origin held')
      · rw [merged_open validSource valid reconciled merged there held
          (named.trans namedOpener.symm), openOpener]
  · -- the row is the target's alone
    obtain ⟨old, held, sameTag, opens⟩ := reconciled.rows name closed row before
    obtain ⟨openOld, spared⟩ := opens open_
    have relation : (Column.installationId, Model.installation) ∈ relations name := by
      obtain ⟨_, _, rfl | rfl | rfl⟩ := closed_plain closed <;> decide
    obtain ⟨home, atHome, namedHome⟩ := valid.keys name old held (.installation, id)
      (mem_references.mpr ⟨_, relation, sameTag.symm.trans tag⟩)
    have atHome : home ∈ target .installation := atHome
    have openHome := settled name closed old held openOld home atHome
      (parentOf_iff.mpr ⟨id, sameTag.symm.trans tag, namedHome⟩)
    rcases merged.only era there with ⟨archived, carried, becameEra⟩ | ⟨first, _⟩
    swap
    · exact settledStart name closed row before open_ era first filed
    have text : idText archived = id := Option.some.inj (becameEra.keyed.symm.trans named)
    obtain ⟨start', began, sameStart⟩ := reconciled.there home atHome
    by_cases stays : Stays (partialIds scope source) (start .installation) archived
    · obtain ⟨kept, held', namedKept, status⟩ := becameEra.kept stays
      rw [status]
      exact settledStart name closed row before open_ kept held'
        (parentOf_iff.mpr ⟨id, tag, text ▸ namedKept⟩)
    rw [becameEra.taken stays]
    by_contra ended
    have plain : idText archived ∉ partialIds scope source := fun listed =>
      stays ⟨listed, start', began, sameStart.trans (text.symm ▸ namedHome)⟩
    have namedArchived : archived.text? .id = some id := text ▸ keyed archived carried
    -- another open era of the archive would have displaced this one
    have alone : ∀ other ∈ collectDump scope source .installation, isOpenEra other = false := by
      intro other among
      by_contra open'
      have open' : isOpenEra other = true := by simpa using open'
      cases yielded : displaced with
      | none =>
        have same := remains yielded other among open' home atHome openHome
        rw [show home.text? .id = some id from namedHome] at same
        have one : archived = other := List.inj_on_of_nodup_map
          (dump_nodup validSource List.mem_cons_self) carried among
          (text.trans (Option.some.inj same))
        exact ended (one ▸ open')
      | some yielding =>
        obtain ⟨⟨existing, held', openExisting, namedExisting⟩, _⟩ := yields yielding yielded
        have one := open_unique valid held' atHome openExisting openHome
        refine spared id (yielded.trans ?_) tag
        rw [← namedExisting, one]
        exact namedHome
    have untouched : start = target := by
      refine reconciled.kept (Option.eq_none_iff_forall_ne_some.mpr fun other yielded => ?_)
      obtain ⟨_, incoming, among, open', _⟩ := yields other yielded
      rw [alone incoming among] at open'
      cases open'
    obtain ⟨carriedRow, among, same⟩ := covered.ended home atHome openHome archived carried
      (namedArchived.trans namedHome.symm) (by simpa using ended) plain alone name closed
      row (untouched ▸ before) open_ (parentOf_iff.mpr ⟨id, tag, namedHome⟩)
    have shaped := dump_shaped validSource (List.mem_cons_of_mem _ closed) among
    refine apart carriedRow among ?_
    rw [← shaped.id_text (List.mem_cons_of_mem _ closed), same]

end After

/-- What a restore of an exported archive runs. -/
theorem restore_exported {client : Client} {now exportedAt : Time} {freshId : String}
    {scope : Option String} {source target restored : Tables Model Row} {file : ArchiveFile}
    {storage targetStorage stored : Storage}
    (built : buildExportArchive storage source exportedAt scope = some file)
    (done : restoreImportArchive client now freshId file targetStorage target =
      .ok (stored, restored)) :
    ∃ archive, Reads scope source archive ∧
      restoreRows client now freshId archive.manifest.partialInstallationIds (listed archive.dump)
        (reconcileActiveInstallation now archive.dump target) = some restored := by
  unfold restoreImportArchive at done
  cases read : parseArchive file with
  | error reason => simp [read, Except.mapError, bind, Except.bind] at done
  | ok archive =>
    have reads := parse_built built read
    refine ⟨archive, reads, ?_⟩
    cases blobs : restoreBlobs client archive (archive.dump .file) [] targetStorage with
    | error reason => simp [read, blobs, Except.mapError, bind, Except.bind] at done
    | ok kept =>
      simp only [read, blobs, Except.mapError, bind, Except.bind] at done
      split at done
      · cases done
      · rename_i tables ran
        cases done
        obtain ⟨upserted, rows, adopted⟩ := Option.bind_eq_some_iff.mp ran
        have current : (4 : Number) ≤ archive.manifest.version := by
          rw [reads.version]
          decide
        rw [adoptLegacyRows, if_pos current] at adopted
        exact Option.some.inj adopted ▸ rows

/-- After a restore no ended era has anything open, precisely when the archive
and the target overlap without harm. -/
theorem restore_settled_iff {client : Client} (faithful : client.ReadsBack) {now exportedAt : Time}
    {freshId : String} {scope : Option String} {source target restored : Tables Model Row}
    {file : ArchiveFile} {storage targetStorage stored : Storage}
    (validSource : Valid source) (valid : Valid target)
    (settledSource : Settled source) (settled : Settled target)
    (fresh : ∀ db ∈ [source, target], ∀ era ∈ db .installation, era.text? .id ≠ some freshId)
    (built : buildExportArchive storage source exportedAt scope = some file)
    (done : restoreImportArchive client now freshId file targetStorage target =
      .ok (stored, restored)) :
    Settled restored ↔ Covered scope source target := by
  obtain ⟨archive, reads, rows⟩ := restore_exported built done
  obtain ⟨displaced, reconciled, yields, remains⟩ := reconcile_spec validSource valid reads
  have merges := restoreRows_merges faithful validSource reads rows
  constructor
  · refine covered_of_settled validSource valid reconciled (fun id yielded => ?_) merges
    obtain ⟨_, incoming, among, open_, _⟩ := yields id yielded
    exact ⟨incoming, among, open_⟩
  · exact settled_of_covered validSource valid settledSource settled
      (fresh target (by simp)) (fresh source (by simp)) reconciled yields remains merges

/-! ## An era archived after its close-out -/

/-- An era with a question, a call and the message it left. -/
def calledEra (endedAt : Cell) (question message : String) : Tables Model Row :=
  Loading.gather
    [(.installation, Row.of .installation
      [(.id, .text "era"), (.name, .text "Spring"), (.startedAt, .date 0), (.endedAt, endedAt),
        (.summary, .json (.obj [])), (.createdAt, .date 0), (.questionSelectionCycle, .int 0),
        (.recentQuestionDraws, .json (.arr []))]),
      (.file, Row.of .file
        [(.id, .text "prompt"), (.blobContainer, .text "audio"), (.blobKey, .text "prompt.wav"),
          (.sha256, .text "cd"), (.sizeBytes, .int 1), (.contentType, .text "audio/wav"),
          (.createdAt, .date 0)]),
      (.file, Row.of .file
        [(.id, .text "audio"), (.blobContainer, .text "audio"), (.blobKey, .text "audio.wav"),
          (.sha256, .text "ab"), (.sizeBytes, .int 1), (.contentType, .text "audio/wav"),
          (.createdAt, .date 0)]),
      (.question, Row.of .question
        [(.id, .text "question"), (.prompt, .text "What is spring?"), (.status, .text question),
          (.audioId, .text "prompt"), (.createdAt, .date 0), (.weight, .int 1),
          (.selectionsInCycle, .int 0), (.installationId, .text "era")]),
      (.callSession, Row.of .callSession
        [(.id, .text "call"), (.boothId, .text "booth"), (.bootId, .text "boot"),
          (.startedAt, .date 0), (.endedAt, endedAt), (.installationId, .text "era")]),
      (.message, Row.of .message
        [(.id, .text "message"), (.status, .text message), (.questionId, .text "question"),
          (.audioId, .text "audio"), (.createdAt, .date 0), (.processingAttemptCount, .int 0),
          (.installationId, .text "era")])]

/-- While the booth is in use, and once the era is closed out. -/
def liveEra : Tables Model Row := calledEra .null "active" "pending"

def closedEra : Tables Model Row := calledEra (.date 1) "archived" "rejected"

def closedArchive : ArchiveFile := archiveOf (fun _ => none) closedEra 2 none

/-- Restored over the live era, the archive brings the end of everything in it. -/
theorem restore_settled_closed : ∃ stored restored,
    restoreImportArchive plainClient 3 "fresh" closedArchive (fun _ => none) liveEra =
      .ok (stored, restored) ∧
      (closedModels.all fun name => (liveEra name).all (live name)) = true ∧ Settled restored := by
  have taken : (restoreImportArchive plainClient 3 "fresh" closedArchive (fun _ => none)
      liveEra).isOk = true := by decide +kernel
  cases done : restoreImportArchive plainClient 3 "fresh" closedArchive (fun _ => none)
      liveEra with
  | error reason => simp [done, Except.isOk, Except.toBool] at taken
  | ok result =>
    obtain ⟨stored, restored⟩ := result
    have built : buildExportArchive (fun _ => none) closedEra 2 none = some closedArchive := rfl
    have agrees := restore_settled_iff plainClient_readsBack (by decide +kernel) (by decide +kernel)
      (by decide +kernel) (by decide +kernel) (by decide +kernel) built done
    exact ⟨stored, restored, rfl, by decide +kernel,
      agrees.mpr ⟨by decide +kernel, by decide +kernel⟩⟩

/-! ## An era ended elsewhere -/

/-- An instance with one ended era and nothing in it. -/
def emptyEra : Tables Model Row :=
  Loading.gather
    [(.installation, Row.of .installation
      [(.id, .text "era"), (.name, .text "Spring"), (.startedAt, .date 0), (.endedAt, .date 1),
        (.summary, .json (.obj [])), (.createdAt, .date 0), (.questionSelectionCycle, .int 0),
        (.recentQuestionDraws, .json (.arr []))])]

/-- The same era, still open, with a recording that waits to be moderated. -/
def pendingRecording : Tables Model Row :=
  Loading.gather
    [(.installation, Row.of .installation
      [(.id, .text "era"), (.name, .text "Spring"), (.startedAt, .date 0), (.createdAt, .date 0),
        (.questionSelectionCycle, .int 0), (.recentQuestionDraws, .json (.arr []))]),
      (.file, Row.of .file
        [(.id, .text "audio"), (.blobContainer, .text "audio"), (.blobKey, .text "audio.wav"),
          (.sha256, .text "ab"), (.sizeBytes, .int 1), (.contentType, .text "audio/wav"),
          (.createdAt, .date 0)]),
      (.message, Row.of .message
        [(.id, .text "message"), (.status, .text "pending"), (.audioId, .text "audio"),
          (.createdAt, .date 0), (.processingAttemptCount, .int 0),
          (.installationId, .text "era")])]

/-- The archive in which that era has ended. -/
def endedArchive : ArchiveFile := archiveOf (fun _ => none) emptyEra 2 none

theorem endedArchive_built :
    buildExportArchive (fun _ => none) emptyEra 2 none = some endedArchive := rfl

/-- An era that ended where the archive was made stays ended here, and its
recording stays queued. -/
theorem endedElsewhere_unsettled : ¬ ∀ (client : Client) (now exportedAt : Time) (freshId : String)
    (scope : Option String) (source target restored : Tables Model Row) (file : ArchiveFile)
    (storage targetStorage stored : Storage), client.ReadsBack → Valid source → Valid target →
      Settled source → Settled target →
      (∀ db ∈ [source, target], ∀ era ∈ db .installation, era.text? .id ≠ some freshId) →
      buildExportArchive storage source exportedAt scope = some file →
      restoreImportArchive client now freshId file targetStorage target = .ok (stored, restored) →
        Settled restored := by
  intro settles
  have leaves : (match restoreImportArchive plainClient 3 "fresh" endedArchive (fun _ => none)
      pendingRecording with
    | .ok (_, restored) => decide (¬ Settled restored)
    | .error _ => false) = true := by decide +kernel
  cases done : restoreImportArchive plainClient 3 "fresh" endedArchive (fun _ => none)
      pendingRecording with
  | error reason => simp [done] at leaves
  | ok result =>
    obtain ⟨stored, restored⟩ := result
    simp only [done, decide_eq_true_eq] at leaves
    exact leaves (settles plainClient 3 2 "fresh" none _ _ restored _ _ _ stored
      plainClient_readsBack (by decide +kernel) (by decide +kernel) (by decide +kernel)
      (by decide +kernel) (by decide +kernel) endedArchive_built done)

end BoothOperator.Archive
