import Mathlib.Algebra.Ring.Nat
import BoothOperator.Lib.Adjacent
import BoothOperator.Lib.Run
import BoothOperator.Status.Reports

/-! What the rows of an installation tell about the reports it had: every report
is counted once, in a row that spans its time and shows its status. That two
neighbours always show different statuses fails only when a report widens a run
back to the very time at which later rows stand, or is not recognized for the
upper case of its ids. -/
namespace BoothOperator.Status

open BoothOperator.Schema
open BoothOperator.Adjacent

/-- A report that has been handled, and the row it was counted in. -/
structure Counted where
  snapshot : Id
  reportedAt : Time
  observable : Observable
  deriving DecidableEq

structure Reported where
  db : Db
  log : List Counted := []

structure Report where
  now : Time
  update : StatusUpdate

def Report.reportedAt (report : Report) : Time := report.update.updatedAt.getD report.now

/-- Handle one report. -/
def step (world : Reported) (report : Report) : Option Reported :=
  (putStatus report.now report.update world.db).map fun (db, snapshot) =>
    { db, log := world.log ++ [⟨snapshot.id, report.reportedAt, report.update.observable.stored⟩] }

/-- The rows of one installation. -/
def history (era : Id) (db : Db) : List BoothStatusSnapshot :=
  db.boothStatusSnapshots.filter fun row => row.installationId = some era

/-- An open installation that has had no report. -/
structure Initial (era : Id) (world : Reported) : Prop where
  active : world.db.findActiveInstallation.map (·.id) = some era
  distinct : (world.db.boothStatusSnapshots.map (·.id)).Nodup
  bound : ∀ row ∈ world.db.boothStatusSnapshots, row.id < world.db.nextId
  empty : history era world.db = []
  log : world.log = []

/-- What a row tells about the reports counted in it. -/
structure Spans (row : BoothStatusSnapshot) (entry : Counted) : Prop where
  observable : Status.observable row = entry.observable
  first : row.firstSeenAt ≤ entry.reportedAt
  last : entry.reportedAt ≤ row.updatedAt

/-- A history is truthful about the reports so far. -/
structure Truthful (era : Id) (world : Reported) : Prop where
  total : ((history era world.db).map (·.repeatCount)).sum = world.log.length
  ordered : ∀ row ∈ history era world.db, row.firstSeenAt ≤ row.updatedAt
  counted : ∀ entry ∈ world.log, ∃ row ∈ history era world.db, row.id = entry.snapshot
  spans : ∀ entry ∈ world.log, ∀ row ∈ history era world.db, row.id = entry.snapshot →
    Spans row entry
  differ : Differ key observable (history era world.db)

/-- The observable fields of a row never change. -/
def Kept (era : Id) (before after : Reported) : Prop :=
  ∀ row ∈ history era before.db, ∃ row' ∈ history era after.db,
    row'.id = row.id ∧ observable row' = observable row

/-- A report that widens the following run backwards: the row it moves leaves
different statuses side by side when it overtakes rows of the report's time. -/
def WidensSeamless (era : Id) (world : Reported) (report : Report) : Prop :=
  (enclosing era report.reportedAt world.db).filter (isRepeatOf · report.update) = none →
    ∀ run, successor era report.reportedAt world.db = some run → isRepeatOf run report.update →
      Overtakes key (history era world.db) run (toLex (report.reportedAt, run.id)) →
        Seam key observable (history era world.db) run (toLex (report.reportedAt, run.id))

instance (era : Id) (world : Reported) (report : Report) :
    Decidable (WidensSeamless era world report) :=
  have : Decidable (∀ run ∈ successor era report.reportedAt world.db, isRepeatOf run report.update →
      Overtakes key (history era world.db) run (toLex (report.reportedAt, run.id)) →
        Seam key observable (history era world.db) run (toLex (report.reportedAt, run.id))) :=
    inferInstance
  decidable_of_iff
    ((enclosing era report.reportedAt world.db).filter (isRepeatOf · report.update) = none →
      ∀ run ∈ successor era report.reportedAt world.db, isRepeatOf run report.update →
        Overtakes key (history era world.db) run (toLex (report.reportedAt, run.id)) →
          Seam key observable (history era world.db) run (toLex (report.reportedAt, run.id)))
    Iff.rfl

/-- The rows around the time of a report show other statuses. -/
def Apart (era : Id) (reportedAt : Time) (update : StatusUpdate) (db : Db) : Prop :=
  (∀ row ∈ enclosing era reportedAt db, observable row ≠ update.observable.stored) ∧
    ∀ row ∈ successor era reportedAt db, observable row ≠ update.observable.stored

instance (era : Id) (reportedAt : Time) (update : StatusUpdate) (db : Db) :
    Decidable (Apart era reportedAt update db) :=
  inferInstanceAs (Decidable (_ ∧ _))

/-- A report with an id in upper case is never recognized as a repeat. -/
def Seamless (era : Id) (world : Reported) (report : Report) : Prop :=
  WidensSeamless era world report ∧
    (¬report.update.AsStored → Apart era report.reportedAt report.update world.db)

instance (era : Id) (world : Reported) (report : Report) :
    Decidable (Seamless era world report) :=
  inferInstanceAs (Decidable (_ ∧ _))

section Steps

variable {era : Id} {db after : Db} {reportedAt : Time} {update : StatusUpdate}
  {snapshot : BoothStatusSnapshot}

/-! ## One report -/

theorem mem_history {row : BoothStatusSnapshot} :
    row ∈ history era db ↔ row ∈ db.boothStatusSnapshots ∧ row.installationId = some era := by
  simp [history]

/-- What a report can do to the table. -/
theorem putStatusInto_cases (put : putStatusInto era reportedAt update db = some (after, snapshot)) :
    after.installations = db.installations ∧
      ((∃ run, runOf era reportedAt update db = some run ∧ snapshot = widen reportedAt run ∧
          after.nextId = db.nextId ∧
            after.boothStatusSnapshots =
              Table.updateMany (·.id = run.id) (widen reportedAt) db.boothStatusSnapshots) ∨
        (runOf era reportedAt update db = none ∧
          snapshot = createdSnapshot era reportedAt update db.nextId ∧
            after.nextId = db.nextId + 1 ∧
              after.boothStatusSnapshots = db.boothStatusSnapshots ++ [snapshot])) := by
  unfold putStatusInto at put
  simp only [Option.map_eq_some_iff] at put
  obtain ⟨⟨written, stored⟩, wrote, settled⟩ := put
  have same : snapshot = stored ∧ after.installations = written.installations ∧
      after.nextId = written.nextId ∧
        after.boothStatusSnapshots = written.boothStatusSnapshots := by
    split at settled
    · cases settled
      exact ⟨rfl, rfl, rfl, rfl⟩
    · cases settled
      exact ⟨rfl, rfl, rfl, rfl⟩
  obtain ⟨rfl, installations, nextId, rows⟩ := same
  cases found : runOf era reportedAt update db with
  | some run =>
    simp only [found] at wrote
    split at wrote
    · cases wrote
    · cases wrote
      exact ⟨installations, .inl ⟨run, rfl, rfl, nextId, rows⟩⟩
  | none =>
    simp only [found] at wrote
    cases wrote
    exact ⟨installations, .inr ⟨rfl, rfl, nextId, rows⟩⟩

theorem runOf_mem {run : BoothStatusSnapshot} (found : runOf era reportedAt update db = some run) :
    run ∈ history era db ∧ observable run = update.observable ∧
      ((enclosing era reportedAt db = some run ∧ run.firstSeenAt ≤ reportedAt) ∨
        ((enclosing era reportedAt db).filter (isRepeatOf · update) = none ∧
          successor era reportedAt db = some run ∧ reportedAt < run.firstSeenAt)) := by
  unfold runOf at found
  cases before : (enclosing era reportedAt db).filter (isRepeatOf · update) with
  | some run' =>
    rw [before] at found
    cases found
    obtain ⟨enclosed, repeated⟩ := Option.filter_eq_some_iff.mp before
    obtain ⟨member, met⟩ := Table.latest_mem enclosed
    obtain ⟨filed, early⟩ := of_decide_eq_true met
    exact ⟨mem_history.mpr ⟨member, filed⟩, of_decide_eq_true repeated, .inl ⟨enclosed, early⟩⟩
  | none =>
    rw [before] at found
    obtain ⟨followed, repeated⟩ := Option.filter_eq_some_iff.mp found
    obtain ⟨member, met⟩ := Table.earliest_mem followed
    obtain ⟨filed, late⟩ := of_decide_eq_true met
    exact ⟨mem_history.mpr ⟨member, filed⟩, of_decide_eq_true repeated, .inr ⟨rfl, followed, late⟩⟩

theorem widen_span (reportedAt : Time) (run : BoothStatusSnapshot) :
    (widen reportedAt run).firstSeenAt ≤ run.firstSeenAt ∧
      (widen reportedAt run).firstSeenAt ≤ reportedAt ∧
        run.updatedAt ≤ (widen reportedAt run).updatedAt ∧
          reportedAt ≤ (widen reportedAt run).updatedAt := by
  have first : (widen reportedAt run).firstSeenAt = min reportedAt run.firstSeenAt := by
    simp only [widen]
    split
    · rename_i early
      exact (min_eq_left early.le).symm
    · rename_i late
      exact (min_eq_right (not_lt.mp late)).symm
  have last : (widen reportedAt run).updatedAt = max reportedAt run.updatedAt := by
    simp only [widen]
    split
    · rename_i late
      exact (max_eq_left late.le).symm
    · rename_i early
      exact (max_eq_right (not_lt.mp early)).symm
  rw [first, last]
  exact ⟨min_le_right _ _, min_le_left _ _, le_max_right _ _, le_max_left _ _⟩

/-- The rows of the installation after a fold. -/
theorem history_widen {run : BoothStatusSnapshot}
    (rows : after.boothStatusSnapshots =
      Table.updateMany (·.id = run.id) (widen reportedAt) db.boothStatusSnapshots) :
    history era after = Table.updateMany (·.id = run.id) (widen reportedAt) (history era db) := by
  unfold history
  rw [rows]
  refine Table.filter_updateMany ?_ _
  exact fun _ => rfl

theorem distinct_history (distinct : (db.boothStatusSnapshots.map (·.id)).Nodup) :
    ((history era db).map (·.id)).Nodup :=
  distinct.sublist ((List.filter_sublist).map _)

theorem key_injective (distinct : ((history era db).map (·.id)).Nodup) :
    ∀ one ∈ history era db, ∀ other ∈ history era db, key one = key other → one = other := by
  intro one member other there same
  refine Table.eq_of_key_eq distinct member there ?_
  have pairs : (one.firstSeenAt, one.id) = (other.firstSeenAt, other.id) := toLex.injective same
  exact congrArg Prod.snd pairs

theorem key_lt {one other : BoothStatusSnapshot} :
    key one < key other ↔
      one.firstSeenAt < other.firstSeenAt ∨
        (one.firstSeenAt = other.firstSeenAt ∧ one.id < other.id) :=
  Prod.Lex.toLex_lt_toLex

theorem key_widen_enclosing {run : BoothStatusSnapshot} (early : run.firstSeenAt ≤ reportedAt) :
    key (widen reportedAt run) = key run := by
  simp [key, widen, not_lt.mpr early]

theorem key_widen_successor {run : BoothStatusSnapshot} (late : reportedAt < run.firstSeenAt) :
    key (widen reportedAt run) = toLex (reportedAt, run.id) := by
  simp [key, widen, late]

/-! ## Neighbours -/

theorem differ_enclosing (distinct : ((history era db).map (·.id)).Nodup) {run : BoothStatusSnapshot}
    (member : run ∈ history era db) (early : run.firstSeenAt ≤ reportedAt)
    (rows : history era after =
      Table.updateMany (·.id = run.id) (widen reportedAt) (history era db))
    (differ : Differ key observable (history era db)) :
    Differ key observable (history era after) := by
  rw [rows]
  refine differ_map ?_ ?_ differ
  · intro row there
    split
    · rename_i own
      have one : row = run := Table.eq_of_key_eq distinct there member (of_decide_eq_true own)
      exact one ▸ key_widen_enclosing early
    · rfl
  · intro row _
    split
    · rfl
    · rfl

theorem differ_successor_iff (distinct : ((history era db).map (·.id)).Nodup)
    {run : BoothStatusSnapshot} (member : run ∈ history era db) (late : reportedAt < run.firstSeenAt)
    (rows : history era after =
      Table.updateMany (·.id = run.id) (widen reportedAt) (history era db))
    (differ : Differ key observable (history era db)) :
    Differ key observable (history era after) ↔
      (Overtakes key (history era db) run (toLex (reportedAt, run.id)) →
        Seam key observable (history era db) run (toLex (reportedAt, run.id))) := by
  rw [← key_widen_successor late]
  refine differ_move_iff (key_injective distinct) member ?_ rfl ?_ ?_ differ
  · rw [key_widen_successor late]
    exact Prod.Lex.toLex_lt_toLex.mpr (.inl late)
  · intro other there same
    rw [key_widen_successor late] at same
    have pairs : (other.firstSeenAt, other.id) = (reportedAt, run.id) := toLex.injective same
    have one : other = run :=
      Table.eq_of_key_eq distinct there member (congrArg Prod.snd pairs)
    have moment : other.firstSeenAt = reportedAt := congrArg Prod.fst pairs
    rw [one] at moment
    exact absurd late (moment ▸ lt_irrefl _)
  · intro other
    rw [rows, Table.mem_updateMany_iff distinct member]
    refine or_congr (and_congr_right fun there => not_congr ⟨fun same => ?_, fun same => ?_⟩) Iff.rfl
    · exact Table.eq_of_key_eq distinct there member same
    · rw [same]

/-- The row that a report starts stands between its enclosing row and the next. -/
theorem differ_created_iff (bound : ∀ row ∈ history era db, row.id < db.nextId)
    (distinct : ((history era db).map (·.id)).Nodup)
    (differ : Differ key observable (history era db)) :
    Differ key observable
        (history era db ++ [createdSnapshot era reportedAt update db.nextId]) ↔
      Apart era reportedAt update db := by
  have lower (row : BoothStatusSnapshot) (member : row ∈ history era db)
      (early : row.firstSeenAt ≤ reportedAt) :
      key row < key (createdSnapshot era reportedAt update db.nextId) := by
    rcases early.lt_or_eq with less | same
    · exact key_lt.mpr (.inl less)
    · exact key_lt.mpr (.inr ⟨same, bound row member⟩)
  have early (row : BoothStatusSnapshot)
      (less : key row < key (createdSnapshot era reportedAt update db.nextId)) :
      row.firstSeenAt ≤ reportedAt := by
    rcases key_lt.mp less with before | ⟨same, _⟩
    · exact before.le
    · exact same.le
  have late (row : BoothStatusSnapshot) (member : row ∈ history era db)
      (less : key (createdSnapshot era reportedAt update db.nextId) < key row) :
      reportedAt < row.firstSeenAt := by
    rcases key_lt.mp less with before | ⟨_, more⟩
    · exact before
    · exact absurd more (not_lt.mpr (bound row member).le)
  constructor
  · intro apart
    refine ⟨?_, ?_⟩
    · intro run enclosed
      obtain ⟨stored, met⟩ := Table.latest_mem enclosed
      obtain ⟨filed, before⟩ := of_decide_eq_true met
      have member : run ∈ history era db := mem_history.mpr ⟨stored, filed⟩
      refine apart run _ ⟨List.mem_append_left _ member, List.mem_append_right _ List.mem_cons_self,
        lower run member before, fun other there => ?_⟩
      rcases List.mem_append.mp there with old | new
      · obtain ⟨stored', filed'⟩ := mem_history.mp old
        rcases le_or_gt other.firstSeenAt reportedAt with before' | after'
        · exact .inl (Table.latest_max enclosed other stored' (decide_eq_true ⟨filed', before'⟩))
        · exact .inr (key_lt.mpr (.inl after')).le
      · exact .inr (List.mem_singleton.mp new ▸ le_rfl)
    · intro run followed
      obtain ⟨stored, met⟩ := Table.earliest_mem followed
      obtain ⟨filed, after'⟩ := of_decide_eq_true met
      have member : run ∈ history era db := mem_history.mpr ⟨stored, filed⟩
      refine (apart _ run ⟨List.mem_append_right _ List.mem_cons_self, List.mem_append_left _ member,
        key_lt.mpr (.inl after'), fun other there => ?_⟩).symm
      rcases List.mem_append.mp there with old | new
      · obtain ⟨stored', filed'⟩ := mem_history.mp old
        rcases le_or_gt other.firstSeenAt reportedAt with before' | later
        · exact .inl (lower other old before').le
        · exact .inr (Table.earliest_min followed other stored' (decide_eq_true ⟨filed', later⟩))
      · exact .inl (List.mem_singleton.mp new ▸ le_rfl)
  · rintro ⟨before, after'⟩
    refine differ_insert differ ?_ ?_
    · intro first member less greatest
      obtain ⟨stored, filed⟩ := mem_history.mp member
      have soon := early first less
      cases enclosed : enclosing era reportedAt db with
      | none =>
        have nobody := Table.latest_eq_none.mp enclosed first stored
        exact absurd (decide_eq_true ⟨filed, soon⟩) nobody
      | some run =>
        obtain ⟨there, met⟩ := Table.latest_mem enclosed
        obtain ⟨filed', early'⟩ := of_decide_eq_true met
        have inside : run ∈ history era db := mem_history.mpr ⟨there, filed'⟩
        have one : first = run :=
          key_injective distinct first member run inside
            (le_antisymm (Table.latest_max enclosed first stored (decide_eq_true ⟨filed, soon⟩))
              (greatest run inside (lower run inside early')))
        exact one ▸ before run enclosed
    · intro second member higher least
      obtain ⟨stored, filed⟩ := mem_history.mp member
      have later := late second member higher
      cases followed : successor era reportedAt db with
      | none =>
        have nobody := Table.earliest_eq_none.mp followed second stored
        exact absurd (decide_eq_true ⟨filed, later⟩) nobody
      | some run =>
        obtain ⟨there, met⟩ := Table.earliest_mem followed
        obtain ⟨filed', late'⟩ := of_decide_eq_true met
        have inside : run ∈ history era db := mem_history.mpr ⟨there, filed'⟩
        have one : second = run :=
          key_injective distinct second member run inside
            (le_antisymm (least run inside (key_lt.mpr (.inl late')))
              (Table.earliest_min followed second stored (decide_eq_true ⟨filed, later⟩)))
        exact one ▸ (after' run followed).symm

/-- A report that is spelled as stored starts a row only among other statuses. -/
theorem apart_of_runOf (asStored : update.AsStored)
    (found : runOf era reportedAt update db = none) : Apart era reportedAt update db := by
  obtain ⟨noEnclosing, noSuccessor⟩ : (enclosing era reportedAt db).filter (isRepeatOf · update) =
      none ∧ (successor era reportedAt db).filter (isRepeatOf · update) = none := by
    simpa only [runOf, Option.orElse_eq_orElse, Option.orElse_eq_or, Option.or_eq_none_iff] using found
  rw [Option.filter_eq_none_iff] at noEnclosing noSuccessor
  unfold StatusUpdate.AsStored at asStored
  rw [Apart, asStored]
  exact ⟨fun row there same => noEnclosing row there (decide_eq_true same),
    fun row there same => noSuccessor row there (decide_eq_true same)⟩

end Steps

/-! ## Every run -/

/-- What holds of the rows and the log after any reports at all. -/
structure Sound (era : Id) (world : Reported) : Prop where
  active : world.db.findActiveInstallation.map (·.id) = some era
  distinct : (world.db.boothStatusSnapshots.map (·.id)).Nodup
  bound : ∀ row ∈ world.db.boothStatusSnapshots, row.id < world.db.nextId
  total : ((history era world.db).map (·.repeatCount)).sum = world.log.length
  ordered : ∀ row ∈ history era world.db, row.firstSeenAt ≤ row.updatedAt
  counted : ∀ entry ∈ world.log, ∃ row ∈ history era world.db, row.id = entry.snapshot
  spans : ∀ entry ∈ world.log, ∀ row ∈ history era world.db, row.id = entry.snapshot →
    Spans row entry
  spelled : ∀ row ∈ history era world.db, (observable row).stored = observable row

section Runs

variable {era : Id} {world after : Reported} {report : Report}

theorem sound_initial (initial : Initial era world) : Sound era world := by
  refine ⟨initial.active, initial.distinct, initial.bound, ?_, ?_, ?_, ?_, ?_⟩
  · rw [initial.empty, initial.log]
    rfl
  · rw [initial.empty]
    exact fun row member => absurd member List.not_mem_nil
  · rw [initial.log]
    exact fun entry member => absurd member List.not_mem_nil
  · rw [initial.log]
    exact fun entry member => absurd member List.not_mem_nil
  · rw [initial.empty]
    exact fun row member => absurd member List.not_mem_nil

/-- A step is the report's transaction in the open installation. -/
theorem step_ok (sound : Sound era world) (taken : step world report = some after) :
    ∃ snapshot, putStatusInto era report.reportedAt report.update world.db =
        some (after.db, snapshot) ∧
      after.log =
        world.log ++ [⟨snapshot.id, report.reportedAt, report.update.observable.stored⟩] := by
  unfold step at taken
  obtain ⟨⟨db, snapshot⟩, put, rfl⟩ := Option.map_eq_some_iff.mp taken
  obtain ⟨active, opened, rfl⟩ := Option.map_eq_some_iff.mp sound.active
  simp only [putStatus, opened] at put
  exact ⟨snapshot, put, rfl⟩

theorem active_congr {db other : Db} (same : other.installations = db.installations) :
    other.findActiveInstallation = db.findActiveInstallation := by
  unfold Db.findActiveInstallation
  rw [same]

/-- A report folded into a run. -/
theorem sound_fold (sound : Sound era world) {run : BoothStatusSnapshot}
    (found : runOf era report.reportedAt report.update world.db = some run)
    (installations : after.db.installations = world.db.installations)
    (nextId : after.db.nextId = world.db.nextId)
    (rows : after.db.boothStatusSnapshots =
      Table.updateMany (·.id = run.id) (widen report.reportedAt) world.db.boothStatusSnapshots)
    (log : after.log =
      world.log ++ [⟨run.id, report.reportedAt, report.update.observable.stored⟩]) :
    Sound era after ∧ Kept era world after := by
  obtain ⟨member, repeated, _⟩ := runOf_mem found
  have shown : observable run = report.update.observable.stored := by
    rw [← repeated, sound.spelled run member]
  have distinct : ((history era world.db).map (·.id)).Nodup := distinct_history sound.distinct
  have listed : history era after.db =
      Table.updateMany (·.id = run.id) (widen report.reportedAt) (history era world.db) :=
    history_widen rows
  have members : ∀ row, row ∈ history era after.db ↔
      (row ∈ history era world.db ∧ row.id ≠ run.id) ∨ row = widen report.reportedAt run := by
    intro row
    rw [listed]
    exact Table.mem_updateMany_iff distinct member row
  obtain ⟨first, here, last, here'⟩ := widen_span report.reportedAt run
  refine ⟨⟨?_, ?_, ?_, ?_, ?_, ?_, ?_, ?_⟩, ?_⟩
  · rw [active_congr installations]
    exact sound.active
  · rw [rows, Table.map_updateMany _ ?_]
    · exact sound.distinct
    · exact fun _ => rfl
  · intro row there
    rw [rows] at there
    obtain ⟨old, stored, rfl⟩ := Table.mem_updateMany.mp there
    rw [nextId]
    split
    · exact sound.bound old stored
    · exact sound.bound old stored
  · rw [listed, Table.sum_updateMany distinct member rfl, sound.total, log, List.length_append,
      List.length_singleton]
  · intro row there
    rcases (members row).mp there with ⟨old, _⟩ | rfl
    · exact sound.ordered row old
    · exact first.trans ((sound.ordered run member).trans last)
  · intro entry there
    rw [log, List.mem_append, List.mem_singleton] at there
    rcases there with old | rfl
    · obtain ⟨row, stored, own⟩ := sound.counted entry old
      by_cases same : row.id = run.id
      · exact ⟨widen report.reportedAt run, (members _).mpr (.inr rfl), same.symm.trans own⟩
      · exact ⟨row, (members row).mpr (.inl ⟨stored, same⟩), own⟩
    · exact ⟨widen report.reportedAt run, (members _).mpr (.inr rfl), rfl⟩
  · intro entry there row stored own
    rw [log, List.mem_append, List.mem_singleton] at there
    rcases (members row).mp stored with ⟨old, ne⟩ | rfl
    · rcases there with before | rfl
      · exact sound.spans entry before row old own
      · exact absurd own ne
    · rcases there with before | rfl
      · have spans := sound.spans entry before run member own
        exact ⟨spans.observable, first.trans spans.first, spans.last.trans last⟩
      · exact ⟨shown, here, here'⟩
  · intro row there
    rcases (members row).mp there with ⟨old, _⟩ | rfl
    · exact sound.spelled row old
    · exact sound.spelled run member
  · intro row there
    by_cases same : row.id = run.id
    · have one : row = run := Table.eq_of_key_eq distinct there member same
      exact ⟨widen report.reportedAt run, (members _).mpr (.inr rfl), same.symm, one ▸ rfl⟩
    · exact ⟨row, (members row).mpr (.inl ⟨there, same⟩), rfl, rfl⟩

/-- A report that starts a row. -/
theorem sound_create (sound : Sound era world)
    (installations : after.db.installations = world.db.installations)
    (nextId : after.db.nextId = world.db.nextId + 1)
    (listed : history era after.db = history era world.db ++
      [createdSnapshot era report.reportedAt report.update world.db.nextId])
    (rows : after.db.boothStatusSnapshots = world.db.boothStatusSnapshots ++
      [createdSnapshot era report.reportedAt report.update world.db.nextId])
    (log : after.log =
      world.log ++ [⟨world.db.nextId, report.reportedAt, report.update.observable.stored⟩]) :
    Sound era after ∧ Kept era world after := by
  have old : ∀ row ∈ history era world.db, row ∈ history era after.db := by
    intro row there
    rw [listed]
    exact List.mem_append_left _ there
  have new : createdSnapshot era report.reportedAt report.update world.db.nextId ∈
      history era after.db := by
    rw [listed]
    exact List.mem_append_right _ List.mem_cons_self
  refine ⟨⟨?_, ?_, ?_, ?_, ?_, ?_, ?_, ?_⟩, fun row there => ⟨row, old row there, rfl, rfl⟩⟩
  · rw [active_congr installations]
    exact sound.active
  · rw [rows, List.map_append]
    exact Table.nodup_append_fresh sound.distinct sound.bound
  · intro row there
    rw [rows, List.mem_append, List.mem_singleton] at there
    rw [nextId]
    rcases there with stored | rfl
    · exact (sound.bound row stored).trans (Nat.lt_succ_self _)
    · exact Nat.lt_succ_self _
  · rw [listed, List.map_append, List.sum_append, sound.total, log, List.length_append,
      List.length_singleton]
    rfl
  · intro row there
    rw [listed, List.mem_append, List.mem_singleton] at there
    rcases there with stored | rfl
    · exact sound.ordered row stored
    · exact le_rfl
  · intro entry there
    rw [log, List.mem_append, List.mem_singleton] at there
    rcases there with before | rfl
    · obtain ⟨row, stored, own⟩ := sound.counted entry before
      exact ⟨row, old row stored, own⟩
    · exact ⟨_, new, rfl⟩
  · intro entry there row stored own
    rw [log, List.mem_append, List.mem_singleton] at there
    rw [listed, List.mem_append, List.mem_singleton] at stored
    rcases there with before | rfl
    · rcases stored with stored | rfl
      · exact sound.spans entry before row stored own
      · obtain ⟨row', stored', own'⟩ := sound.counted entry before
        have less := sound.bound row' (mem_history.mp stored').1
        exact absurd (own'.trans own.symm) less.ne
    · rcases stored with stored | rfl
      · have less := sound.bound row (mem_history.mp stored).1
        exact absurd own less.ne
      · exact ⟨rfl, le_rfl, le_rfl⟩
  · intro row there
    rw [listed, List.mem_append, List.mem_singleton] at there
    rcases there with stored | rfl
    · exact sound.spelled row stored
    · exact stored_stored report.update.observable

/-- One report keeps the history sound, and its neighbours different exactly
when it is seamless. -/
theorem step_sound (sound : Sound era world) (differ : Differ key observable (history era world.db))
    (taken : step world report = some after) :
    (Sound era after ∧ Kept era world after) ∧
      (Differ key observable (history era after.db) ↔ Seamless era world report) := by
  obtain ⟨snapshot, put, log⟩ := step_ok sound taken
  have distinct : ((history era world.db).map (·.id)).Nodup := distinct_history sound.distinct
  obtain ⟨installations, cases⟩ := putStatusInto_cases put
  rcases cases with ⟨run, found, rfl, nextId, rows⟩ | ⟨found, rfl, nextId, rows⟩
  · refine ⟨sound_fold sound found installations nextId rows log, ?_⟩
    obtain ⟨member, repeated, place⟩ := runOf_mem found
    have listed : history era after.db = _ := history_widen rows
    have asStored : report.update.AsStored := by
      rw [StatusUpdate.AsStored, ← repeated]
      exact sound.spelled run member
    rcases place with ⟨enclosed, early⟩ | ⟨nowhere, followed, late⟩
    · refine ⟨fun _ => ⟨fun none => ?_, absurd asStored⟩,
        fun _ => differ_enclosing distinct member early listed differ⟩
      rw [enclosed, Option.filter_eq_none_iff] at none
      exact absurd (decide_eq_true repeated) (none run rfl)
    · rw [differ_successor_iff distinct member late listed differ]
      constructor
      · intro seam
        refine ⟨?_, absurd asStored⟩
        intro _ other followed' _
        rw [followed, Option.some.injEq] at followed'
        exact followed' ▸ seam
      · exact fun seamless => seamless.1 nowhere run followed (decide_eq_true repeated)
  · have listed : history era after.db = history era world.db ++
        [createdSnapshot era report.reportedAt report.update world.db.nextId] := by
      unfold history
      rw [rows, List.filter_append]
      simp [createdSnapshot]
    refine ⟨sound_create sound installations nextId listed rows log, ?_⟩
    have bound : ∀ row ∈ history era world.db, row.id < world.db.nextId :=
      fun row there => sound.bound row (mem_history.mp there).1
    rw [listed, differ_created_iff bound distinct differ]
    constructor
    · intro apart
      refine ⟨?_, fun _ => apart⟩
      intro none run followed repeated
      have nothing : runOf era report.reportedAt report.update world.db = some run := by
        simp [runOf, none, followed, repeated]
      rw [found] at nothing
      cases nothing
    · intro seamless
      by_cases asStored : report.update.AsStored
      · exact apart_of_runOf asStored found
      · exact seamless.2 asStored

theorem truthful_of_sound (sound : Sound era world)
    (differ : Differ key observable (history era world.db)) : Truthful era world :=
  ⟨sound.total, sound.ordered, sound.counted, sound.spans, differ⟩

theorem along_truthful_iff (sound : Sound era world)
    (differ : Differ key observable (history era world.db)) (reports : List Report) :
    Run.Along step (fun before _ after => Truthful era after ∧ Kept era before after) world reports ↔
      Run.Along step (fun before report _ => Seamless era before report) world reports := by
  induction reports generalizing world with
  | nil => exact Iff.rfl
  | cons report rest ih =>
    refine forall_congr' fun after => forall_congr' fun taken => ?_
    obtain ⟨⟨sound', kept⟩, seamless⟩ := step_sound sound differ taken
    constructor
    · rintro ⟨⟨truthful, _⟩, later⟩
      exact ⟨seamless.mp truthful.differ, (ih sound' truthful.differ).mp later⟩
    · rintro ⟨here, later⟩
      have differ' := seamless.mpr here
      exact ⟨⟨truthful_of_sound sound' differ', kept⟩, (ih sound' differ').mpr later⟩

end Runs

/-- **Along every run of reports the history stays truthful exactly when every
report that overtakes later rows leaves different statuses side by side, and
none with an id in upper case shows the status of a row around it.** -/
theorem history_truthful_iff {era : Id} {start : Reported} (initial : Initial era start)
    (reports : List Report) :
    Run.Along step (fun before _ after => Truthful era after ∧ Kept era before after) start reports ↔
      Run.Along step (fun before report _ => Seamless era before report) start reports := by
  refine along_truthful_iff (sound_initial initial) ?_ reports
  rw [initial.empty]
  rintro first second ⟨member, _⟩
  cases member

def openInstallation : Reported where
  db := { installations := [{ id := 7 }] }

theorem initial_openInstallation : Initial 7 openInstallation :=
  ⟨rfl, List.nodup_nil, fun _ member => absurd member List.not_mem_nil, rfl, rfl⟩

def reportAt (state : BoothState) (time : Time) : Report where
  now := 100
  update := { state, updatedAt := some time }

/-- A run widened back over a row of the same time stays next to different ones. -/
theorem history_truthful_overtaken :
    Run.Along step (fun before _ after => Truthful 7 after ∧ Kept 7 before after) openInstallation
      [reportAt .error 10, reportAt .idle 0, reportAt .error 0] :=
  (history_truthful_iff initial_openInstallation _).mpr (by decide +kernel)

/-- A question whose id is sent in upper case has one row for each heartbeat. -/
example :
    let playing : StatusUpdate :=
      { state := .playingQuestion, currentQuestionId := some "3F2B8C1E-6D0A-4C57-9A1E-2B7C4D5E6F70" }
    ∃ after, Run.exec step openInstallation [⟨0, playing⟩, ⟨10, playing⟩] = some after ∧
      (history 7 after.db).map observable = [playing.observable.stored, playing.observable.stored] :=
  ⟨_, rfl, rfl⟩

/-- The last report moves the `error` run from between the two `idle` ones. -/
theorem widened_leaves_repeats :
    ¬ ∀ (era : Id) (start : Reported), Initial era start → ∀ reports,
      Run.Along step (fun before _ after => Truthful era after ∧ Kept era before after)
        start reports := by
  intro truthful
  let first : List Report := [reportAt .error 10, reportAt .idle 0, reportAt .idle 20]
  have along := truthful 7 openInstallation initial_openInstallation (first ++ [reportAt .error 0])
  let moved := widen 0 (createdSnapshot 7 10 (reportAt .error 10).update 0)
  let early := createdSnapshot 7 0 (reportAt .idle 0).update 1
  let late := createdSnapshot 7 20 (reportAt .idle 20).update 2
  have run : ∃ before after, Run.exec step openInstallation first = some before ∧
      step before (reportAt .error 0) = some after ∧ history 7 after.db = [moved, early, late] :=
    ⟨_, _, rfl, rfl, rfl⟩
  obtain ⟨before, after, ran, taken, listed⟩ := run
  have differ := (along.last ran taken).1.differ
  rw [listed] at differ
  have next : Next key [moved, early, late] early late :=
    ⟨by decide, by decide, by decide, by decide⟩
  exact differ early late next rfl

end BoothOperator.Status
