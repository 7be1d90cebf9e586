import Mathlib.Algebra.Ring.Nat
import BoothOperator.Console.StatusHistory
import BoothOperator.Lib.RunFold

/-! Collapsing a history for display. Widening an entry is associative, so that the loop is a
fold over runs of one status, and may be made again or over parts. -/
namespace BoothOperator.Console

open BoothOperator.RunFold (Folding)
open BoothOperator.Schema (BoothState RuntimeMode)

abbrev Shown := BoothState × Option String × Option String × Option String × Option RuntimeMode

/-- What `isSameStatus` compares. -/
def shown (status : BoothStatus) : Shown :=
  (status.state, status.currentQuestionId, status.currentMessageId, status.lastError,
    status.runtimeMode)

theorem isSameStatus_eq (a b : BoothStatus) : isSameStatus a b = decide (shown a = shown b) := by
  simp only [isSameStatus, shown, Prod.mk.injEq, Bool.decide_and, Bool.and_assoc]

theorem earlier_assoc (a b c : Timestamp) : earlier (earlier a b) c = earlier a (earlier b c) := by
  grind [earlier]

theorem later_assoc (a b c : Timestamp) : later (later a b) c = later a (later b c) := by
  grind [later]

def statusFolding : Folding BoothStatus Shown where
  key := shown
  opened := opened
  joined := widened
  key_opened _ := rfl
  key_joined _ _ := rfl
  opened_opened _ := rfl
  joined_opened _ _ := rfl
  opened_joined _ _ := rfl
  joined_assoc a b c := by
    simp only [widened, firstSeenAtOf, repeatCountOf, Option.getD_some, earlier_assoc, later_assoc,
      add_assoc]

theorem same_eq : statusFolding.same = isSameStatus := by
  funext a b
  exact (isSameStatus_eq a b).symm

theorem collapseInto_eq : collapseInto = statusFolding.step := by
  funext collapsed status
  rw [collapseInto, Folding.step, same_eq]
  cases collapsed.getLast? <;> rfl

theorem collapseStatusHistory_eq (history : List BoothStatus) :
    collapseStatusHistory history = statusFolding.fold history := by
  rw [collapseStatusHistory, collapseInto_eq]
  rfl

/-! ## Entries and runs -/

/-- An entry covers the windows of a run, and no more. -/
structure Covers (entry : BoothStatus) (run : List BoothStatus) : Prop where
  first_le : ∀ status ∈ run, (firstSeenAtOf entry).ms ≤ (firstSeenAtOf status).ms
  first_mem : ∃ status ∈ run, firstSeenAtOf entry = firstSeenAtOf status
  le_last : ∀ status ∈ run, status.updatedAt.ms ≤ entry.updatedAt.ms
  last_mem : ∃ status ∈ run, entry.updatedAt = status.updatedAt
  count : repeatCountOf entry = (run.map repeatCountOf).sum

/-- An entry stands for a run of one status. -/
structure Summarizes (entry : BoothStatus) (run : List BoothStatus) : Prop extends
    Covers entry run where
  same : ∀ status ∈ run, isSameStatus entry status

variable {entry status : BoothStatus} {run : List BoothStatus}

theorem earlier_le (a b : Timestamp) : (earlier a b).ms ≤ a.ms ∧ (earlier a b).ms ≤ b.ms := by
  unfold earlier
  split
  · rename_i less
    exact ⟨less.le, le_rfl⟩
  · rename_i more
    exact ⟨le_rfl, not_lt.mp more⟩

theorem le_later (a b : Timestamp) : a.ms ≤ (later a b).ms ∧ b.ms ≤ (later a b).ms := by
  unfold later
  split
  · rename_i less
    exact ⟨less.le, le_rfl⟩
  · rename_i more
    exact ⟨le_rfl, not_lt.mp more⟩

theorem earlier_eq_or (a b : Timestamp) : earlier a b = a ∨ earlier a b = b := by
  unfold earlier
  split
  · exact Or.inr rfl
  · exact Or.inl rfl

theorem later_eq_or (a b : Timestamp) : later a b = a ∨ later a b = b := by
  unfold later
  split
  · exact Or.inr rfl
  · exact Or.inl rfl

theorem covers_opened (status : BoothStatus) : Covers (opened status) [status] where
  first_le := by simp [opened, firstSeenAtOf]
  first_mem := by simp [opened, firstSeenAtOf]
  le_last := by simp [opened]
  last_mem := by simp [opened]
  count := by simp [opened, repeatCountOf]

theorem covers_widened (covers : Covers entry run) (status : BoothStatus) :
    Covers (widened entry status) (run ++ [status]) where
  first_le := by
    obtain ⟨before, here⟩ := earlier_le (firstSeenAtOf entry) (firstSeenAtOf status)
    intro other member
    rcases List.mem_append.mp member with old | new
    · exact before.trans (covers.first_le other old)
    · rw [List.mem_singleton.mp new]
      exact here
  first_mem := by
    rcases earlier_eq_or (firstSeenAtOf entry) (firstSeenAtOf status) with old | new
    · obtain ⟨other, member, same⟩ := covers.first_mem
      exact ⟨other, List.mem_append_left _ member, old.trans same⟩
    · exact ⟨status, List.mem_append_right _ List.mem_cons_self, new⟩
  le_last := by
    obtain ⟨before, here⟩ := le_later entry.updatedAt status.updatedAt
    intro other member
    rcases List.mem_append.mp member with old | new
    · exact (covers.le_last other old).trans before
    · rw [List.mem_singleton.mp new]
      exact here
  last_mem := by
    rcases later_eq_or entry.updatedAt status.updatedAt with old | new
    · obtain ⟨other, member, same⟩ := covers.last_mem
      exact ⟨other, List.mem_append_left _ member, old.trans same⟩
    · exact ⟨status, List.mem_append_right _ List.mem_cons_self, new⟩
  count := by
    rw [List.map_append, List.sum_append, ← covers.count]
    simp [widened, repeatCountOf]

theorem covers_of_summary (made : statusFolding.summary run = some entry) : Covers entry run := by
  induction run using List.reverseRecOn generalizing entry with
  | nil => cases made
  | append_singleton run status ih =>
    by_cases empty : run = []
    · subst empty
      cases made
      exact covers_opened status
    · rw [Folding.summary_snoc empty, Option.map_eq_some_iff] at made
      obtain ⟨before, summed, rfl⟩ := made
      exact covers_widened (ih summed) status

theorem forall₂_summarizes (history : List BoothStatus) :
    List.Forall₂ Summarizes (collapseStatusHistory history) (history.splitBy isSameStatus) := by
  have entries : List.Forall₂ (· = ·)
      ((history.splitBy isSameStatus).map statusFolding.summary)
      ((collapseStatusHistory history).map some) := by
    rw [collapseStatusHistory_eq, Folding.map_fold, same_eq]
    exact List.forall₂_eq_eq_eq ▸ rfl
  rw [List.forall₂_map_left_iff, List.forall₂_map_right_iff] at entries
  have chains : ∀ run ∈ history.splitBy isSameStatus,
      run.IsChain fun one other => statusFolding.same one other := by
    intro run member
    rw [same_eq]
    exact List.isChain_of_mem_splitBy member
  refine ((List.forall₂_and_left _ _).mpr ⟨chains, entries⟩).flip.imp ?_
  rintro entry run ⟨chain, made⟩
  refine ⟨covers_of_summary made, fun status member => ?_⟩
  rw [isSameStatus_eq]
  exact decide_eq_true (Folding.key_of_summary chain made member).symm

/-- What is shown tells of all that was reported. -/
structure Lossless (history collapsed : List BoothStatus) : Prop where
  total : (collapsed.map repeatCountOf).sum = (history.map repeatCountOf).sum
  differ : collapsed.IsChain fun one other => ¬isSameStatus one other
  runs : List.Forall₂ Summarizes collapsed (history.splitBy isSameStatus)
  again : collapseStatusHistory collapsed = collapsed

theorem collapse_lossless (history : List BoothStatus) :
    Lossless history (collapseStatusHistory history) ∧
      ∀ more, collapseStatusHistory (history ++ more) =
        collapseStatusHistory (collapseStatusHistory history ++ collapseStatusHistory more) := by
  simp only [collapseStatusHistory_eq]
  refine ⟨⟨?_, ?_, ?_, ?_⟩, Folding.fold_append history⟩
  · exact Folding.sum_fold (fun _ => rfl) (fun _ _ => rfl) history
  · refine (Folding.isChain_fold history).imp fun one other apart => ?_
    rw [isSameStatus_eq, decide_eq_true_iff]
    exact apart
  · rw [← collapseStatusHistory_eq]
    exact forall₂_summarizes history
  · rw [collapseStatusHistory_eq]
    exact Folding.fold_fold history

end BoothOperator.Console
