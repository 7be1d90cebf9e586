import BoothOperator.Installations.StoredSummary

/-! `installation-summary-backfill.ts`: the summaries that are stored for ended installations are
read, compared with those of the rows, and replaced where they differ. -/
namespace BoothOperator.Installations

open BoothOperator.Schema

/-! ## The backfill -/

def statusText : MessageStatus → String
  | .uploading => "uploading"
  | .received => "received"
  | .pending => "pending"
  | .approved => "approved"
  | .rejected => "rejected"

/-- The rows of an installation, a message with the duration of its audio. -/
structure InstallationRows where
  sessions : List InteractionSession
  messages : List (MessageStatus × Option Int)
  questions : Nat
  events : List Activity

def InstallationRows.era (rows : InstallationRows) : EraRows where
  sessions := rows.sessions
  recordings := rows.messages.map fun message => ⟨statusText message.1, message.2⟩
  questions := rows.questions
  events := rows.events

structure BackfillInstallationRow where
  id : Id
  name : String
  endedAt : Option Time
  summary : Option JsonValue

@[ext] structure Store where
  installations : List BackfillInstallationRow
  rows : Id → InstallationRows
  /-- Ids are a primary key. -/
  distinct : (installations.map BackfillInstallationRow.id).Nodup

section Run

variable (environment : Environment)

def Store.next (store : Store) (id : Id) : SummaryData :=
  (computeInstallationSummary (store.rows id).era).data

/-- `stableStringify(current) === stableStringify(next)`. -/
def Store.upToDate (store : Store) (row : BackfillInstallationRow) : Bool :=
  stableStringify environment
      (summaryValue (parseInstallationSummary environment.isDatetime row.summary)) =
    stableStringify environment (summaryValue (some (store.next row.id)))

/-- `installation.update` of the summary. -/
def Store.setSummary (store : Store) (id : Id) (summary : JsonValue) : Store where
  installations := store.installations.map fun row =>
    if row.id = id then { row with summary := some summary } else row
  rows := store.rows
  distinct := by
    rw [List.map_map]
    convert store.distinct using 2
    funext row
    simp only [Function.comp_apply]
    split <;> rfl

inductive Outcome where
  | unchanged
  | changed
  | failed (error : String)
  deriving DecidableEq

/-- What is done about one ended installation, in a transaction when it is applied. -/
def attempt (apply : Bool) (fails : Id → Option String) (store : Store)
    (row : BackfillInstallationRow) : Outcome × Store :=
  match fails row.id with
  | some error => (.failed error, store)
  | none =>
    if apply then
      match store.installations.find? fun current => current.id = row.id with
      | none => (.failed "installation not found", store)
      | some current =>
        if current.endedAt = none then (.failed "installation is no longer ended", store)
        else if store.upToDate environment current then (.unchanged, store)
        else (.changed, store.setSummary row.id ((store.next row.id).stored environment))
    else if store.upToDate environment row then (.unchanged, store)
    else (.changed, store)

structure InstallationSummaryBackfillFailure where
  installationId : Id
  installationName : String
  error : String

/-- The report, and the installation and outcome of each line of the log. -/
structure InstallationSummaryBackfillReport where
  apply : Bool
  endedInstallations : Nat
  changed : Nat := 0
  unchanged : Nat := 0
  applied : Nat := 0
  failures : List InstallationSummaryBackfillFailure := []
  log : List (Id × Outcome) := []

def InstallationSummaryBackfillReport.count (report : InstallationSummaryBackfillReport)
    (row : BackfillInstallationRow) (outcome : Outcome) : InstallationSummaryBackfillReport :=
  let logged := { report with log := report.log ++ [(row.id, outcome)] }
  match outcome with
  | .unchanged => { logged with unchanged := report.unchanged + 1 }
  | .changed =>
    { logged with
      changed := report.changed + 1
      applied := if report.apply then report.applied + 1 else report.applied }
  | .failed error =>
    { logged with failures := report.failures ++ [⟨row.id, row.name, error⟩] }

def visit (apply : Bool) (fails : Id → Option String)
    (state : Store × InstallationSummaryBackfillReport) (row : BackfillInstallationRow) :
    Store × InstallationSummaryBackfillReport :=
  let tried := attempt environment apply fails state.1 row
  (tried.2, state.2.count row tried.1)

/-- The ended installations, the first that ended first. -/
def Store.ended (store : Store) : List BackfillInstallationRow :=
  (store.installations.filter fun row => row.endedAt.isSome).mergeSort fun left right =>
    left.endedAt.getD 0 ≤ right.endedAt.getD 0

/-- `fails` has the error that the database raises about an installation, if it does. -/
def runInstallationSummaryBackfill (apply : Bool) (fails : Id → Option String) (store : Store) :
    Store × InstallationSummaryBackfillReport :=
  store.ended.foldl (visit environment apply fails)
    (store, { apply, endedInstallations := store.ended.length })

end Run

/-! ## Runs without failures -/

section Runs

variable {environment : Environment} {store : Store} {fails : Id → Option String}
  {row : BackfillInstallationRow} {report : InstallationSummaryBackfillReport} {apply : Bool}

/-- A row as an applied run leaves it. -/
def Store.refresh (environment : Environment) (store : Store) (row : BackfillInstallationRow) :
    BackfillInstallationRow :=
  if row.endedAt.isSome && !store.upToDate environment row then
    { row with summary := some ((store.next row.id).stored environment) }
  else row

@[simp] theorem Store.id_refresh : (store.refresh environment row).id = row.id := by
  rw [Store.refresh]
  split <;> rfl

@[simp] theorem Store.endedAt_refresh : (store.refresh environment row).endedAt = row.endedAt := by
  rw [Store.refresh]
  split <;> rfl

theorem Store.refresh_of_upToDate (current : store.upToDate environment row = true) :
    store.refresh environment row = row := by
  rw [Store.refresh, current, Bool.not_true, Bool.and_false, if_neg Bool.false_ne_true]

theorem Store.refresh_of_open (running : ¬row.endedAt.isSome = true) :
    store.refresh environment row = row := by
  rw [Store.refresh, Bool.eq_false_of_not_eq_true running, Bool.false_and,
    if_neg Bool.false_ne_true]

theorem Store.refresh_of_stale (ended : row.endedAt.isSome = true)
    (stale : ¬store.upToDate environment row = true) : store.refresh environment row =
      { row with summary := some ((store.next row.id).stored environment) } := by
  rw [Store.refresh, ended, Bool.eq_false_of_not_eq_true stale, Bool.not_false, Bool.and_true,
    if_pos rfl]

/-- The store when some of its installations have been visited. -/
def Store.refreshed (environment : Environment) (store : Store) (visited : Id → Bool) : Store where
  installations := store.installations.map fun row =>
    if visited row.id then store.refresh environment row else row
  rows := store.rows
  distinct := by
    rw [List.map_map]
    convert store.distinct using 2
    funext row
    simp only [Function.comp_apply]
    split
    · exact Store.id_refresh
    · rfl

def expected (environment : Environment) (store : Store) (row : BackfillInstallationRow) : Outcome :=
  if store.upToDate environment row then .unchanged else .changed

theorem refreshed_none : store.refreshed environment (fun _ => false) = store := by
  apply Store.ext
  · simp [Store.refreshed]
  · rfl

theorem count_failures : (report.count row (expected environment store row)).failures =
    report.failures := by
  rw [expected]
  split <;> rfl

theorem failures_subset (state : Store × InstallationSummaryBackfillReport) :
    state.2.failures ⊆ (visit environment apply fails state row).2.failures := by
  rw [visit]
  cases (attempt environment apply fails state.1 row).1 with
  | unchanged => exact List.Subset.refl _
  | changed => exact List.Subset.refl _
  | failed error => exact List.subset_append_left _ _

theorem failures_eq_nil (rows : List BackfillInstallationRow)
    (state : Store × InstallationSummaryBackfillReport)
    (clean : (rows.foldl (visit environment apply fails) state).2.failures = []) :
    state.2.failures = [] := by
  induction rows generalizing state with
  | nil => exact clean
  | cons row rest ih =>
    have before : state.2.failures ⊆ (visit environment apply fails state row).2.failures :=
      failures_subset state
    rw [ih _ clean] at before
    exact List.subset_nil.mp before

/-- What the database did not fail for has been tried. -/
theorem fails_eq_none {state : Store × InstallationSummaryBackfillReport}
    (clean : (visit environment apply fails state row).2.failures = []) : fails row.id = none := by
  rw [visit, attempt] at clean
  split at clean
  · exact absurd clean (List.append_ne_nil_of_right_ne_nil _ (List.cons_ne_nil _ _))
  · assumption

theorem works_of_clean (rows : List BackfillInstallationRow)
    (state : Store × InstallationSummaryBackfillReport)
    (clean : (rows.foldl (visit environment apply fails) state).2.failures = []) :
    ∀ row ∈ rows, fails row.id = none := by
  induction rows generalizing state with
  | nil => exact nofun
  | cons row rest ih =>
    exact List.forall_mem_cons.mpr ⟨fails_eq_none (failures_eq_nil rest _ clean), ih _ clean⟩

theorem attempt_dry (works : fails row.id = none) :
    attempt environment false fails store row = (expected environment store row, store) := by
  rw [attempt, works, expected]
  simp only [Bool.false_eq_true, if_false]
  split <;> rfl

theorem Store.find_eq_some (own : row ∈ store.installations) :
    store.installations.find? (fun current => current.id = row.id) = some row := by
  have there : (store.installations.find? fun current => current.id = row.id).isSome := by
    rw [List.find?_isSome]
    exact ⟨row, own, by simp⟩
  obtain ⟨found, first⟩ := Option.isSome_iff_exists.mp there
  have same : found.id = row.id := by simpa using List.find?_some first
  rw [first, List.inj_on_of_nodup_map store.distinct (List.mem_of_find?_eq_some first) own same]

/-- An installation that has not been visited is found as it was, and is refreshed. -/
theorem attempt_apply {visited : Id → Bool} (works : fails row.id = none)
    (own : row ∈ store.installations) (ended : row.endedAt.isSome)
    (unvisited : visited row.id = false) :
    attempt environment true fails (store.refreshed environment visited) row =
      (expected environment store row,
        store.refreshed environment fun id => visited id || id = row.id) := by
  have own' : row ∈ (store.refreshed environment visited).installations :=
    List.mem_map.mpr ⟨row, own, if_neg (Bool.not_eq_true _ ▸ unvisited)⟩
  have only : ∀ current ∈ store.installations, current.id = row.id → current = row :=
    fun current member same => List.inj_on_of_nodup_map store.distinct member own same
  rw [attempt, works, Store.find_eq_some own', expected]
  simp only [if_true, if_neg (Option.isSome_iff_ne_none.mp ended)]
  have compared : (store.refreshed environment visited).upToDate environment row =
      store.upToDate environment row := rfl
  by_cases current : store.upToDate environment row = true
  · rw [if_pos (compared.trans current), if_pos current]
    congr 1
    refine Store.ext (List.map_congr_left fun other member => ?_) rfl
    by_cases same : other.id = row.id
    · simp [only other member same, Store.refresh_of_upToDate current]
    · simp [same]
  · rw [if_neg (compared ▸ current), if_neg current]
    congr 1
    refine Store.ext ?_ rfl
    simp only [Store.setSummary, Store.refreshed, List.map_map]
    refine List.map_congr_left fun other member => ?_
    by_cases same : other.id = row.id
    · simp [only other member same, unvisited, Store.refresh_of_stale ended current]
      rfl
    · by_cases before : visited other.id = true
      · simp [before, same]
      · simp [before, same]

/-- A visit that does not fail reports what is expected. -/
theorem visit_dry (works : fails row.id = none) :
    visit environment false fails (store, report) row =
      (store, report.count row (expected environment store row)) := by
  rw [visit, attempt_dry works]

theorem visit_apply {visited : Id → Bool} (works : fails row.id = none)
    (own : row ∈ store.installations) (ended : row.endedAt.isSome)
    (unvisited : visited row.id = false) :
    visit environment true fails (store.refreshed environment visited, report) row =
      (store.refreshed environment fun id => visited id || id = row.id,
        report.count row (expected environment store row)) := by
  rw [visit, attempt_apply works own ended unvisited]

/-- The report of rows that are visited without a failure. -/
def reported (environment : Environment) (store : Store) (rows : List BackfillInstallationRow)
    (report : InstallationSummaryBackfillReport) : InstallationSummaryBackfillReport :=
  rows.foldl (fun report row => report.count row (expected environment store row)) report

theorem reported_failures (rows : List BackfillInstallationRow) :
    (reported environment store rows report).failures = report.failures := by
  induction rows generalizing report with
  | nil => rfl
  | cons row rest ih => exact ih.trans count_failures

theorem fold_dry (rows : List BackfillInstallationRow)
    (works : ∀ row ∈ rows, fails row.id = none) :
    rows.foldl (visit environment false fails) (store, report) =
      (store, reported environment store rows report) := by
  induction rows generalizing report with
  | nil => rfl
  | cons row rest ih =>
    obtain ⟨first, later⟩ := List.forall_mem_cons.mp works
    rw [List.foldl_cons, visit_dry first]
    exact ih later

/-- By induction on the rows that are left, which have not been visited. -/
theorem fold_apply (rows : List BackfillInstallationRow) {visited : Id → Bool}
    (works : ∀ row ∈ rows, fails row.id = none)
    (own : ∀ row ∈ rows, row ∈ store.installations ∧ row.endedAt.isSome)
    (distinct : (rows.map BackfillInstallationRow.id).Nodup)
    (unvisited : ∀ row ∈ rows, visited row.id = false) :
    rows.foldl (visit environment true fails) (store.refreshed environment visited, report) =
      (store.refreshed environment fun id => visited id || rows.any fun row => id = row.id,
        reported environment store rows report) := by
  induction rows generalizing visited report with
  | nil =>
    simp only [List.foldl_nil, List.any_nil, Bool.or_false]
    rfl
  | cons row rest ih =>
    obtain ⟨work, works⟩ := List.forall_mem_cons.mp works
    obtain ⟨⟨there, ended⟩, later⟩ := List.forall_mem_cons.mp own
    obtain ⟨first, others⟩ := List.forall_mem_cons.mp unvisited
    obtain ⟨fresh, distinct⟩ := List.nodup_cons.mp distinct
    rw [List.foldl_cons, visit_apply work there ended first, ih works later distinct]
    · simp only [List.any_cons, Bool.or_assoc]
      rfl
    · intro other member
      have apart : other.id ≠ row.id := by
        intro same
        exact fresh (same ▸ List.mem_map_of_mem member)
      rw [others other member, Bool.false_or, decide_eq_false apart]

theorem reported_log (rows : List BackfillInstallationRow) :
    (reported environment store rows report).log =
      report.log ++ rows.map fun row => (row.id, expected environment store row) := by
  induction rows generalizing report with
  | nil => simp [reported]
  | cons row rest ih =>
    have one : (report.count row (expected environment store row)).log =
        report.log ++ [(row.id, expected environment store row)] := by
      rw [expected]
      split <;> rfl
    have rest' := @ih (report.count row (expected environment store row))
    rw [one, List.append_assoc] at rest'
    exact rest'

/-- Nothing is counted as changed when every row is up to date. -/
theorem reported_changed (rows : List BackfillInstallationRow)
    (current : ∀ row ∈ rows, store.upToDate environment row = true) :
    (reported environment store rows report).changed = report.changed := by
  induction rows generalizing report with
  | nil => rfl
  | cons row rest ih =>
    obtain ⟨first, later⟩ := List.forall_mem_cons.mp current
    have one : (report.count row (expected environment store row)).changed = report.changed := by
      rw [expected, if_pos first]
      rfl
    exact (ih later).trans one

theorem Store.mem_ended : row ∈ store.ended ↔ row ∈ store.installations ∧ row.endedAt.isSome := by
  rw [Store.ended, List.mem_mergeSort, List.mem_filter]

theorem Store.ended_distinct : (store.ended.map BackfillInstallationRow.id).Nodup := by
  have perm := (List.mergeSort_perm (store.installations.filter fun row => row.endedAt.isSome)
    fun left right => left.endedAt.getD 0 ≤ right.endedAt.getD 0).map BackfillInstallationRow.id
  exact perm.nodup_iff.mpr (store.distinct.sublist (List.filter_sublist.map _))

theorem run_dry (works : ∀ row ∈ store.ended, fails row.id = none) :
    runInstallationSummaryBackfill environment false fails store =
      (store, reported environment store store.ended
        { apply := false, endedInstallations := store.ended.length }) :=
  fold_dry store.ended works

theorem run_apply (works : ∀ row ∈ store.ended, fails row.id = none) :
    runInstallationSummaryBackfill environment true fails store =
      (store.refreshed environment fun id => store.ended.any fun row => id = row.id,
        reported environment store store.ended
          { apply := true, endedInstallations := store.ended.length }) := by
  have fold := @fold_apply environment store fails
    { apply := true, endedInstallations := store.ended.length } store.ended (fun _ => false) works
    (fun row => Store.mem_ended.mp) Store.ended_distinct (fun _ _ => rfl)
  rw [refreshed_none] at fold
  simp only [Bool.false_or] at fold
  exact fold

/-- A run without failures refreshes every row. -/
theorem installations_refreshed :
    (store.refreshed environment fun id => store.ended.any fun row => id = row.id).installations =
      store.installations.map (store.refresh environment) := by
  refine List.map_congr_left fun row member => ?_
  by_cases ended : row.endedAt.isSome = true
  · have there : (store.ended.any fun other => row.id = other.id) = true :=
      List.any_eq_true.mpr ⟨row, Store.mem_ended.mpr ⟨member, ended⟩, by simp⟩
    rw [if_pos there]
  · rw [Store.refresh_of_open ended, ite_self]

end Runs

/-! ## Convergence -/

section Convergence

variable (environment : Environment)

/-- What a run reports as changed. -/
def InstallationSummaryBackfillReport.changedIds (report : InstallationSummaryBackfillReport) :
    List Id :=
  (report.log.filter fun line => line.2 = .changed).map Prod.fst

/-- After a run that applies and does not fail, every ended installation has the summary of its
rows and a second run changes nothing; and a dry run reports what such a run changes. -/
structure Converges (store : Store) : Prop where
  settled : ∀ fails, (runInstallationSummaryBackfill environment true fails store).2.failures = [] →
    ∀ row ∈ (runInstallationSummaryBackfill environment true fails store).1.installations,
      row.endedAt.isSome → ∃ summary,
        parseInstallationSummary environment.isDatetime row.summary = some summary ∧
          summary.Same (store.next row.id)
  again : ∀ fails, (runInstallationSummaryBackfill environment true fails store).2.failures = [] →
    ∀ after, after = (runInstallationSummaryBackfill environment true fails store).1 →
      ∀ fails', (runInstallationSummaryBackfill environment true fails' after).2.failures = [] →
        (runInstallationSummaryBackfill environment true fails' after).1 = after ∧
          (runInstallationSummaryBackfill environment true fails' after).2.changed = 0
  dryRun : ∀ fails fails',
    (runInstallationSummaryBackfill environment false fails store).2.failures = [] →
      (runInstallationSummaryBackfill environment true fails' store).2.failures = [] →
        (runInstallationSummaryBackfill environment false fails store).1 = store ∧
          (runInstallationSummaryBackfill environment false fails store).2.changedIds =
            (runInstallationSummaryBackfill environment true fails' store).2.changedIds

variable {environment} {store : Store}

theorem statusText_letters (status : MessageStatus) :
    (statusText status).toList.all Char.isAlpha = true := by
  cases status <;> decide

theorem next_lettered (id : Id) : Lettered (store.next id).byStatus := by
  refine byStatus_lettered fun recording member => ?_
  obtain ⟨message, -, rfl⟩ := List.mem_map.mp member
  exact statusText_letters message.1

theorem upToDate_iff (reliable : environment.Reliable) {row : BackfillInstallationRow} :
    store.upToDate environment row = true ↔ ∃ summary,
      parseInstallationSummary environment.isDatetime row.summary = some summary ∧
        summary.Same (store.next row.id) := by
  rw [Store.upToDate, decide_eq_true_iff, stableStringify_summary_iff reliable (next_lettered row.id)]

/-- Once its rows are presentable, a refreshed installation is up to date. -/
theorem upToDate_refresh (reliable : environment.Reliable) {row : BackfillInstallationRow}
    (ended : row.endedAt.isSome) (presentable : Presentable (store.rows row.id).era) :
    store.upToDate environment (store.refresh environment row) = true := by
  by_cases current : store.upToDate environment row = true
  · rw [Store.refresh_of_upToDate current, current]
  · rw [Store.refresh_of_stale ended current, upToDate_iff reliable]
    exact parse_stored reliable (next_lettered row.id).1 (presentable.readable reliable)

/-- Nothing is left to do when every ended installation is up to date. -/
theorem run_upToDate {fails : Id → Option String}
    (works : ∀ row ∈ store.ended, fails row.id = none)
    (current : ∀ row ∈ store.ended, store.upToDate environment row = true) :
    (runInstallationSummaryBackfill environment true fails store).1 = store ∧
      (runInstallationSummaryBackfill environment true fails store).2.changed = 0 := by
  rw [run_apply works]
  refine ⟨Store.ext ?_ rfl, reported_changed _ current⟩
  rw [installations_refreshed]
  refine (List.map_congr_left fun row member => ?_).trans (List.map_id _)
  by_cases ended : row.endedAt.isSome = true
  · rw [Store.refresh_of_upToDate (current row (Store.mem_ended.mpr ⟨member, ended⟩)), id]
  · rw [Store.refresh_of_open ended, id]

/-- A summary that is settled is one that the schema takes. -/
theorem presentable_of_converges (reliable : environment.Reliable)
    (converges : Converges environment store) {row : BackfillInstallationRow}
    (member : row ∈ store.installations) (ended : row.endedAt.isSome) :
    Presentable (store.rows row.id).era := by
  have ran := @run_apply environment store (fun _ => none) fun _ _ => rfl
  have settled := converges.settled fun _ => none
  rw [ran] at settled
  obtain ⟨summary, parsed, same⟩ := settled (reported_failures _)
    (store.refresh environment row)
    (installations_refreshed ▸ List.mem_map_of_mem member) (by rwa [Store.endedAt_refresh])
  rw [Store.id_refresh] at same
  exact presentable_of_parse reliable parsed same

/-- The backfill converges exactly when the rows of every ended installation have a summary that
the schema takes. -/
theorem converges_iff (reliable : environment.Reliable) (store : Store) :
    Converges environment store ↔ ∀ row ∈ store.installations, row.endedAt.isSome →
      Presentable (store.rows row.id).era := by
  refine ⟨fun converges row => presentable_of_converges reliable converges, fun presentable => ?_⟩
  have refreshed : ∀ row ∈ (store.refreshed environment
      fun id => store.ended.any fun row => id = row.id).installations, row.endedAt.isSome →
        store.upToDate environment row = true := by
    rw [installations_refreshed]
    intro row member ended
    obtain ⟨row, there, rfl⟩ := List.mem_map.mp member
    rw [Store.endedAt_refresh] at ended
    exact upToDate_refresh reliable ended (presentable row there ended)
  constructor
  · intro fails clean row member ended
    rw [run_apply (works_of_clean _ _ clean)] at member
    exact (upToDate_iff reliable).mp (refreshed row member ended)
  · rintro fails clean _ rfl fails' clean'
    have works := works_of_clean _ _ clean'
    rw [run_apply (works_of_clean _ _ clean)] at works ⊢
    refine run_upToDate works fun row member => ?_
    obtain ⟨there, ended⟩ := Store.mem_ended.mp member
    exact refreshed row there ended
  · intro fails fails' clean clean'
    rw [run_dry (works_of_clean _ _ clean), run_apply (works_of_clean _ _ clean')]
    refine ⟨rfl, ?_⟩
    rw [InstallationSummaryBackfillReport.changedIds, InstallationSummaryBackfillReport.changedIds,
      reported_log, reported_log]

end Convergence

/-- An installation that ended with a summary of the first format. -/
def legacyStore : Store where
  installations := [{
    id := 1
    name := "Ended"
    endedAt := some 2
    summary := some (.obj
      [("calls", .num 2), ("messages", .num 1), ("messagesApproved", .num 1),
        ("messagesRejected", .num 0), ("questions", .num 0), ("events", .num 1),
        ("recordedMs", .num 0), ("firstActivityAt", .null), ("lastActivityAt", .null)]) }]
  rows _ := {
    sessions := []
    messages := [(.approved, some 3000)]
    questions := 0
    events := [⟨"digit_dialed", .obj [("digit", .num 1)], 1⟩] }
  distinct := by decide

theorem converges_legacy : Converges postgres legacyStore := by
  refine (converges_iff postgres_reliable legacyStore).mpr ?_
  intro row _ _
  change Presentable (legacyStore.rows 1).era
  exact {
    sessions := by decide
    recordings := by decide
    questions := by decide
    events := by decide
    recorded := by decide
    safe := by decide
    first := by
      rintro _ ⟨⟩
      decide
    last := by
      rintro _ ⟨⟩
      decide }

/-- An installation with a restored recording of a negative duration. -/
def negativeStore : Store where
  installations := [{ id := 1, name := "Ended", endedAt := some 2, summary := none }]
  rows _ := { sessions := [], messages := [(.approved, some (-1))], questions := 0, events := [] }
  distinct := by decide

theorem not_converges_negative :
    ¬ ∀ environment : Environment, environment.Reliable → ∀ store, Converges environment store := by
  intro converges
  have presentable := presentable_of_converges postgres_reliable
    (converges postgres postgres_reliable negativeStore) List.mem_cons_self rfl
  exact absurd presentable.recorded (by decide)

end BoothOperator.Installations
