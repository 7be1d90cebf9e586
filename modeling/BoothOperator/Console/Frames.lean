import BoothOperator.Console.StatusHistory
import BoothOperator.Lib.IsoTime
import BoothOperator.Status.History

/-! The frames that the API broadcasts: after every report, the row that the report was folded
into or that it created. Of one row, a later view counts more reports and ends no earlier. -/
namespace BoothOperator.Console

open BoothOperator.Schema (Db Id Time BoothStatusSnapshot)
open BoothOperator.Status (Report StatusUpdate createdSnapshot putStatus putStatusInto_cases runOf_mem
  widen widen_span)

def iso (time : Time) : Timestamp := ⟨IsoTime.toISOString time, time⟩

def serializeStatus (snapshot : BoothStatusSnapshot) : BoothStatus where
  id := some snapshot.id
  state := snapshot.state
  updatedAt := iso snapshot.updatedAt
  firstSeenAt := some (iso snapshot.firstSeenAt)
  repeatCount := some snapshot.repeatCount
  currentQuestionId := snapshot.currentQuestionId
  currentMessageId := snapshot.currentMessageId
  lastError := snapshot.lastError
  runtimeMode := snapshot.runtimeMode

/-- What `PUT /v1/status` broadcasts, report after report; a refused report changes nothing. -/
def broadcasts (db : Db) : List Report → List BoothStatusSnapshot
  | [] => []
  | report :: rest =>
    match putStatus report.now report.update db with
    | none => broadcasts db rest
    | some (after, snapshot) => snapshot :: broadcasts after rest

/-- The views of its rows that the API has given: those that were stored, and those that were
broadcast since. -/
def views (db : Db) (reports : List Report) : List BoothStatus :=
  (db.boothStatusSnapshots ++ broadcasts db reports).map serializeStatus

structure Stored (db : Db) : Prop where
  distinct : (db.boothStatusSnapshots.map (·.id)).Nodup
  bound : ∀ row ∈ db.boothStatusSnapshots, row.id < db.nextId

/-- A later view of one row counts more reports, and ends no earlier. -/
def Succeeds (earlier later : BoothStatusSnapshot) : Prop :=
  earlier.id = later.id →
    earlier.repeatCount < later.repeatCount ∧ earlier.updatedAt ≤ later.updatedAt

/-- The table holds the last view of every row. -/
structure Current (db : Db) (log : List BoothStatusSnapshot) : Prop where
  stored : Stored db
  bound : ∀ view ∈ log, view.id < db.nextId
  last : ∀ view ∈ log, ∀ row ∈ db.boothStatusSnapshots, view.id = row.id →
    view.repeatCount ≤ row.repeatCount ∧ view.updatedAt ≤ row.updatedAt
  ordered : log.Pairwise Succeeds

variable {db after : Db} {log : List BoothStatusSnapshot} {snapshot : BoothStatusSnapshot}
  {report : Report}

theorem current_stored (stored : Stored db) : Current db db.boothStatusSnapshots where
  stored := stored
  bound := stored.bound
  last := by
    intro view there row member same
    rw [Table.eq_of_key_eq stored.distinct there member same]
    exact ⟨le_rfl, le_rfl⟩
  ordered := by
    have apart := List.pairwise_map.mp stored.distinct
    exact apart.imp fun differ same => absurd same differ

theorem current_snoc_widen (current : Current db log) {run : BoothStatusSnapshot} {reportedAt : Time}
    (member : run ∈ db.boothStatusSnapshots) (nextId : after.nextId = db.nextId)
    (rows : after.boothStatusSnapshots =
      Table.updateMany (·.id = run.id) (widen reportedAt) db.boothStatusSnapshots) :
    Current after (log ++ [widen reportedAt run]) := by
  obtain ⟨-, -, grows, -⟩ := widen_span reportedAt run
  have ids : after.boothStatusSnapshots.map (·.id) = db.boothStatusSnapshots.map (·.id) := by
    rw [rows]
    have kept : ∀ row, (widen reportedAt row).id = row.id := fun _ => rfl
    exact Table.map_updateMany _ kept _
  have stays : ∀ row ∈ after.boothStatusSnapshots, row = widen reportedAt run ∨
      row.id ≠ run.id ∧ row ∈ db.boothStatusSnapshots := by
    intro row there
    rw [rows, Table.mem_updateMany_iff current.stored.distinct member] at there
    rcases there with ⟨before, other⟩ | rfl
    · exact Or.inr ⟨other, before⟩
    · exact Or.inl rfl
  refine ⟨⟨ids ▸ current.stored.distinct, ?_⟩, ?_, ?_, ?_⟩
  · intro row there
    rw [nextId]
    rcases stays row there with rfl | ⟨-, before⟩
    · exact current.stored.bound run member
    · exact current.stored.bound row before
  · intro view there
    rw [nextId]
    rcases List.mem_append.mp there with before | here
    · exact current.bound view before
    · rw [List.mem_singleton.mp here]
      exact current.stored.bound run member
  · intro view there row found same
    rcases List.mem_append.mp there with before | here
    · rcases stays row found with rfl | ⟨-, old⟩
      · obtain ⟨count, time⟩ := current.last view before run member same
        exact ⟨count.trans (Nat.le_succ _), time.trans grows⟩
      · exact current.last view before row old same
    · rw [List.mem_singleton.mp here] at same ⊢
      rcases stays row found with rfl | ⟨other, -⟩
      · exact ⟨le_rfl, le_rfl⟩
      · exact absurd same.symm other
  · refine List.pairwise_append.mpr ⟨current.ordered, List.pairwise_singleton _ _, ?_⟩
    intro view before new here same
    rw [List.mem_singleton.mp here] at same ⊢
    obtain ⟨count, time⟩ := current.last view before run member same
    exact ⟨Nat.lt_succ_of_le count, time.trans grows⟩

theorem current_snoc_created (current : Current db log) (fresh : snapshot.id = db.nextId)
    (nextId : after.nextId = db.nextId + 1)
    (rows : after.boothStatusSnapshots = db.boothStatusSnapshots ++ [snapshot]) :
    Current after (log ++ [snapshot]) := by
  have other : ∀ row ∈ db.boothStatusSnapshots, row.id ≠ snapshot.id := fun row member =>
    fresh ▸ (current.stored.bound row member).ne
  have otherView : ∀ view ∈ log, view.id ≠ snapshot.id := fun view member =>
    fresh ▸ (current.bound view member).ne
  refine ⟨⟨?_, ?_⟩, ?_, ?_, ?_⟩
  · rw [rows, List.map_append, List.map_singleton, fresh]
    exact Table.nodup_append_fresh current.stored.distinct current.stored.bound
  · intro row there
    rw [nextId]
    rw [rows, List.mem_append, List.mem_singleton] at there
    rcases there with before | rfl
    · exact (current.stored.bound row before).trans (Nat.lt_succ_self _)
    · exact fresh ▸ Nat.lt_succ_self _
  · intro view there
    rw [nextId]
    rw [List.mem_append, List.mem_singleton] at there
    rcases there with before | rfl
    · exact (current.bound view before).trans (Nat.lt_succ_self _)
    · exact fresh ▸ Nat.lt_succ_self _
  · intro view there row found same
    rw [rows, List.mem_append, List.mem_singleton] at found
    rw [List.mem_append, List.mem_singleton] at there
    rcases there with before | rfl
    · rcases found with old | rfl
      · exact current.last view before row old same
      · exact absurd same (otherView view before)
    · rcases found with old | rfl
      · exact absurd same.symm (other row old)
      · exact ⟨le_rfl, le_rfl⟩
  · refine List.pairwise_append.mpr ⟨current.ordered, List.pairwise_singleton _ _, ?_⟩
    intro view before new here same
    rw [List.mem_singleton.mp here] at same
    exact absurd same (otherView view before)

/-- A report adds one view. -/
theorem current_snoc (current : Current db log)
    (put : putStatus report.now report.update db = some (after, snapshot)) :
    Current after (log ++ [snapshot]) := by
  unfold putStatus at put
  split at put
  · cases put
  · obtain ⟨-, written⟩ := putStatusInto_cases put
    rcases written with ⟨run, found, rfl, nextId, rows⟩ | ⟨-, rfl, nextId, rows⟩
    · have member := (Status.mem_history.mp (runOf_mem found).1).1
      exact current_snoc_widen current member nextId rows
    · exact current_snoc_created current rfl nextId rows

theorem succeeds_broadcasts (current : Current db log) (reports : List Report) :
    (log ++ broadcasts db reports).Pairwise Succeeds := by
  induction reports generalizing db log with
  | nil => simpa [broadcasts] using current.ordered
  | cons report rest ih =>
    rw [broadcasts]
    split
    · exact ih current
    · rename_i after snapshot put
      have more := ih (current_snoc current put)
      rwa [List.append_assoc] at more

/-- The counts and the times of one row agree. -/
def Coherent (frames : List BoothStatus) : Prop :=
  ∀ one ∈ frames, ∀ other ∈ frames, one.id = other.id → repeatCountOf one ≤ repeatCountOf other →
    one.updatedAt.ms ≤ other.updatedAt.ms

theorem coherent_views (stored : Stored db) (reports : List Report) : Coherent (views db reports) := by
  have ordered := succeeds_broadcasts (current_stored stored) reports
  intro one there other found same count
  obtain ⟨earlier, member, rfl⟩ := List.mem_map.mp there
  obtain ⟨later, listed, rfl⟩ := List.mem_map.mp found
  have row : earlier.id = later.id := Int.ofNat.inj (Option.some.inj same)
  have forward : (db.boothStatusSnapshots ++ broadcasts db reports).Pairwise fun one other =>
      one.id = other.id → one.repeatCount ≤ other.repeatCount → one.updatedAt ≤ other.updatedAt :=
    ordered.imp fun succeeds same _ => (succeeds same).2
  have backward : (db.boothStatusSnapshots ++ broadcasts db reports).Pairwise fun one other =>
      other.id = one.id → other.repeatCount ≤ one.repeatCount → other.updatedAt ≤ one.updatedAt :=
    ordered.imp fun succeeds same back => absurd (succeeds same.symm).1 (not_lt.mpr back)
  have either := List.Pairwise.forall_of_forall_of_flip (fun _ _ _ _ => le_rfl) forward backward
  exact either member listed row count

end BoothOperator.Console
