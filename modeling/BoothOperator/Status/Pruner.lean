import Mathlib.Data.List.Nodup
import BoothOperator.Schema

/-! `lib/snapshot-pruner.ts`. The boundary is found in the order of `updatedAt`, and what is
deleted are old rows with a lower id than it: these are the rows beyond the most recent
ones only as far as the two orders agree. -/
namespace BoothOperator.Status

open BoothOperator.Schema

/-- What a pruner goes by; a configuration has both at least 1. -/
structure PrunerConfig where
  retentionHours : Rat
  minKeep : Nat
  keeps : 1 ≤ minKeep

structure SnapshotTable where
  rows : List BoothStatusSnapshot
  distinct : (rows.map (·.id)).Nodup

/-- An answer to `orderBy: { updatedAt: "desc" }`, which leaves equal times in any order. -/
structure ByUpdatedAt (rows : List BoothStatusSnapshot) where
  ordered : List BoothStatusSnapshot
  perm : ordered.Perm rows
  latest : ordered.Pairwise fun one other => other.updatedAt ≤ one.updatedAt

/-- `new Date(Date.now() - retentionHours * 60 * 60 * 1000)`, a whole millisecond. -/
def cutoff (now : Time) (config : PrunerConfig) : Time :=
  let exact : Rat := now - config.retentionHours * 60 * 60 * 1000
  if 0 ≤ exact then exact.floor else exact.ceil

def isDoomed (now : Time) (config : PrunerConfig) (boundary row : BoothStatusSnapshot) : Bool :=
  row.updatedAt < cutoff now config && row.id < boundary.id

/-- The rows that are left, and how many are not. -/
def pruneSnapshots (now : Time) (config : PrunerConfig) (rows : List BoothStatusSnapshot)
    (answer : ByUpdatedAt rows) : List BoothStatusSnapshot × Nat :=
  if rows.length ≤ config.minKeep then (rows, 0)
  else
    match (answer.ordered.drop (config.minKeep - 1)).take 1 with
    | [] => (rows, 0)
    | boundary :: _ =>
      (rows.filter fun row => !isDoomed now config boundary row,
        (rows.filter (isDoomed now config boundary)).length)

/-! ## What is kept -/

section Prune

variable {now : Time} {config : PrunerConfig}

/-- Only old rows are deleted, none of the most recent, and all others that are old. -/
structure KeepsRecent (now : Time) (config : PrunerConfig) (rows : List BoothStatusSnapshot)
    (answer : ByUpdatedAt rows) : Prop where
  old : ∀ row ∈ rows, row ∉ (pruneSnapshots now config rows answer).1 →
    row.updatedAt < cutoff now config
  recent : ∀ row ∈ answer.ordered.take config.minKeep,
    row ∈ (pruneSnapshots now config rows answer).1
  rest : ∀ row ∈ rows, row.updatedAt < cutoff now config →
    row ∉ answer.ordered.take config.minKeep → row ∉ (pruneSnapshots now config rows answer).1

/-- An old row comes after the boundary by its time exactly when its id is lower. -/
def OrdersAgree (now : Time) (config : PrunerConfig) {rows : List BoothStatusSnapshot}
    (answer : ByUpdatedAt rows) : Prop :=
  ∀ boundary, answer.ordered[config.minKeep - 1]? = some boundary →
    ∀ row ∈ rows, row.updatedAt < cutoff now config →
      (row ∈ answer.ordered.drop config.minKeep ↔ row.id < boundary.id)

theorem exists_boundary {rows : List BoothStatusSnapshot} (answer : ByUpdatedAt rows)
    (more : config.minKeep < rows.length) :
    ∃ boundary, answer.ordered[config.minKeep - 1]? = some boundary := by
  refine ⟨_, List.getElem?_eq_getElem ?_⟩
  rw [answer.perm.length_eq]
  omega

theorem mem_pruneSnapshots {rows : List BoothStatusSnapshot} {answer : ByUpdatedAt rows}
    {boundary row : BoothStatusSnapshot} (more : config.minKeep < rows.length)
    (at_ : answer.ordered[config.minKeep - 1]? = some boundary) :
    row ∈ (pruneSnapshots now config rows answer).1 ↔
      row ∈ rows ∧ ¬(row.updatedAt < cutoff now config ∧ row.id < boundary.id) := by
  have found : (answer.ordered.drop (config.minKeep - 1)).take 1 = [boundary] := by
    rw [List.take_one, List.head?_drop, at_]
    rfl
  rw [pruneSnapshots, if_neg (by omega), found]
  simp only [List.mem_filter, isDoomed, Bool.not_eq_true', ← Bool.not_eq_true, Bool.and_eq_true,
    decide_eq_true_eq]

/-- A row is one of the most recent, or after them. -/
theorem mem_drop_iff {table : SnapshotTable} (answer : ByUpdatedAt table.rows)
    {row : BoothStatusSnapshot} (member : row ∈ table.rows) :
    row ∈ answer.ordered.drop config.minKeep ↔ row ∉ answer.ordered.take config.minKeep := by
  have distinct : answer.ordered.Nodup := answer.perm.nodup_iff.mpr table.distinct.of_map
  rw [← List.take_append_drop config.minKeep answer.ordered, List.nodup_append] at distinct
  obtain ⟨-, -, apart⟩ := distinct
  have there : row ∈ answer.ordered.take config.minKeep ++ answer.ordered.drop config.minKeep := by
    rw [List.take_append_drop]
    exact answer.perm.mem_iff.mpr member
  constructor
  · intro later recent
    exact apart row recent row later rfl
  · intro other
    exact (List.mem_append.mp there).resolve_left other

theorem keepsRecent_iff (now : Time) (config : PrunerConfig) (table : SnapshotTable)
    (answer : ByUpdatedAt table.rows) :
    KeepsRecent now config table.rows answer ↔
      (config.minKeep < table.rows.length → OrdersAgree now config answer) := by
  constructor
  · intro keeps more boundary at_ row member old
    rw [mem_drop_iff answer member]
    constructor
    · intro other
      have gone := mt (mem_pruneSnapshots more at_).mpr (keeps.rest row member old other)
      tauto
    · intro lower recent
      have left := (mem_pruneSnapshots more at_).mp (keeps.recent row recent)
      exact left.2 ⟨old, lower⟩
  · intro agree
    by_cases more : config.minKeep < table.rows.length
    · obtain ⟨boundary, at_⟩ := exists_boundary answer more
      have sides := agree more boundary at_
      refine ⟨?_, ?_, ?_⟩
      · intro row member gone
        by_contra young
        exact gone ((mem_pruneSnapshots more at_).mpr ⟨member, fun doomed => young doomed.1⟩)
      · intro row recent
        have member := answer.perm.mem_iff.mp (List.mem_of_mem_take recent)
        refine (mem_pruneSnapshots more at_).mpr ⟨member, ?_⟩
        rintro ⟨old, lower⟩
        exact (mem_drop_iff answer member).mp ((sides row member old).mpr lower) recent
      · intro row member old other left
        have lower := (sides row member old).mp ((mem_drop_iff answer member).mpr other)
        exact ((mem_pruneSnapshots more at_).mp left).2 ⟨old, lower⟩
    · have whole : (pruneSnapshots now config table.rows answer).1 = table.rows := by
        rw [pruneSnapshots, if_pos (by omega)]
      have all : answer.ordered.take config.minKeep = answer.ordered := by
        refine List.take_of_length_le ?_
        rw [answer.perm.length_eq]
        omega
      refine ⟨?_, ?_, ?_⟩
      · intro row member gone
        rw [whole] at gone
        exact absurd member gone
      · intro row recent
        rw [whole]
        exact answer.perm.mem_iff.mp (List.mem_of_mem_take recent)
      · intro row member _ other
        rw [all] at other
        exact absurd (answer.perm.mem_iff.mpr member) other

end Prune

/-! ## A long run among later rows -/

/-- Three rows, of which the first was widened by the latest report and the last is a report
that came late. -/
def widened : List BoothStatusSnapshot :=
  [{ id := 1, state := .idle, firstSeenAt := 0, updatedAt := 30 },
   { id := 2, state := .dialing, firstSeenAt := 20, updatedAt := 20 },
   { id := 3, state := .error, firstSeenAt := 10, updatedAt := 10 }]

/-- With two rows to keep, the most recent of them is deleted. -/
theorem not_keepsRecent_widened :
    ¬KeepsRecent 3600100 ⟨1, 2, by decide⟩ widened ⟨widened, .refl _, by decide⟩ := by
  intro keeps
  have lost := keeps.recent { id := 1, state := .idle, firstSeenAt := 0, updatedAt := 30 }
    (by decide)
  revert lost
  decide +kernel

end BoothOperator.Status
