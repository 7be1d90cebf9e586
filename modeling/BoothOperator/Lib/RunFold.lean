import Mathlib.Algebra.BigOperators.Group.List.Basic
import Mathlib.Data.List.SplitBy

/-! One pass that folds neighbours with one key into one entry. An item opens an entry, or is
joined to the last one; where opening again and joining an opened item change nothing, and
joining is associative, the pass may be made over parts, and over what it made itself. -/
namespace BoothOperator.RunFold

variable {α κ M : Type*} [DecidableEq κ] [AddMonoid M]

structure Folding (α κ : Type*) where
  key : α → κ
  opened : α → α
  joined : α → α → α
  key_opened : ∀ item, key (opened item) = key item
  key_joined : ∀ entry item, key (joined entry item) = key entry
  opened_opened : ∀ item, opened (opened item) = opened item
  joined_opened : ∀ entry item, joined entry (opened item) = joined entry item
  opened_joined : ∀ entry item, opened (joined entry item) = joined (opened entry) item
  joined_assoc : ∀ first second third,
    joined (joined first second) third = joined first (joined second third)

namespace Folding

variable (folding : Folding α κ)

def same (one other : α) : Bool := folding.key one = folding.key other

def step (entries : List α) (item : α) : List α :=
  match entries.getLast? with
  | some last =>
    if folding.same last item then entries.dropLast ++ [folding.joined last item]
    else entries ++ [folding.opened item]
  | none => entries ++ [folding.opened item]

def fold (items : List α) : List α := items.foldl folding.step []

/-- What a run becomes. -/
def summary : List α → Option α
  | [] => none
  | first :: rest => some (rest.foldl folding.joined (folding.opened first))

variable {folding} {entries front items run : List α} {last item entry : α}

theorem step_nil : folding.step [] item = [folding.opened item] := rfl

theorem step_snoc : folding.step (front ++ [last]) item =
    if folding.key last = folding.key item then front ++ [folding.joined last item]
    else front ++ [last] ++ [folding.opened item] := by
  simp [step, same]

theorem fold_snoc : folding.fold (items ++ [item]) = folding.step (folding.fold items) item := by
  rw [fold, List.foldl_append]
  rfl

theorem step_opened : folding.step entries (folding.opened item) = folding.step entries item := by
  rcases entries.eq_nil_or_concat' with rfl | ⟨front, last, rfl⟩
  · rw [step_nil, step_nil, folding.opened_opened]
  · rw [step_snoc, step_snoc, folding.key_opened, folding.joined_opened, folding.opened_opened]

/-- Two steps with one key are one step with both items joined. -/
theorem step_joined (same : folding.key last = folding.key item) :
    folding.step entries (folding.joined last item) =
      folding.step (folding.step entries last) item := by
  rcases entries.eq_nil_or_concat' with rfl | ⟨front, previous, rfl⟩
  · have opened := @step_snoc _ _ _ folding [] (folding.opened last) item
    rw [folding.key_opened, if_pos same, List.nil_append, List.nil_append] at opened
    rw [step_nil, step_nil, opened, folding.opened_joined]
  · rw [step_snoc, step_snoc, folding.key_joined]
    split
    · rename_i continued
      rw [step_snoc, folding.key_joined, if_pos (continued.trans same), folding.joined_assoc]
    · rw [step_snoc, folding.key_opened, if_pos same, folding.opened_joined]

/-- Folding on with what a pass made is folding on with its items. -/
theorem foldl_fold (items entries : List α) :
    (folding.fold items).foldl folding.step entries = items.foldl folding.step entries := by
  induction items using List.reverseRecOn with
  | nil => rfl
  | append_singleton items item ih =>
    rw [fold_snoc, List.foldl_append, List.foldl_cons, List.foldl_nil, ← ih]
    rcases (folding.fold items).eq_nil_or_concat' with made | ⟨front, last, made⟩
    · rw [made, step_nil, List.foldl_cons, List.foldl_nil, List.foldl_nil, step_opened]
    · rw [made, step_snoc]
      split
      · rename_i same
        rw [List.foldl_append, List.foldl_append, List.foldl_cons, List.foldl_nil, List.foldl_cons,
          List.foldl_nil, step_joined same]
      · rw [List.foldl_append, List.foldl_cons, List.foldl_nil, step_opened]

theorem fold_fold (items : List α) : folding.fold (folding.fold items) = folding.fold items :=
  foldl_fold items []

theorem fold_append (items more : List α) :
    folding.fold (items ++ more) = folding.fold (folding.fold items ++ folding.fold more) := by
  have parts : folding.fold (folding.fold items ++ folding.fold more) =
      (folding.fold more).foldl folding.step (folding.fold (folding.fold items)) := by
    rw [fold, List.foldl_append]
    rfl
  rw [parts, fold_fold, foldl_fold, fold, List.foldl_append]
  rfl

/-! ## Entries -/

/-- Neighbours have different keys. -/
theorem isChain_fold (items : List α) :
    (folding.fold items).IsChain fun one other => folding.key one ≠ folding.key other := by
  induction items using List.reverseRecOn with
  | nil => exact List.isChain_nil
  | append_singleton items item ih =>
    rw [fold_snoc]
    rcases (folding.fold items).eq_nil_or_concat' with made | ⟨front, last, made⟩
    · rw [made, step_nil]
      exact List.isChain_singleton _
    · rw [made, List.isChain_append] at ih
      obtain ⟨before, -, apart⟩ := ih
      rw [made, step_snoc]
      split
      · refine List.isChain_append.mpr ⟨before, List.isChain_singleton _, ?_⟩
        rintro one final _ ⟨⟩
        rw [folding.key_joined]
        exact apart one final last rfl
      · rename_i other
        refine List.isChain_append.mpr
          ⟨List.isChain_append.mpr ⟨before, List.isChain_singleton _, apart⟩,
            List.isChain_singleton _, ?_⟩
        rintro one final _ ⟨⟩
        rw [List.getLast?_append, List.getLast?_singleton, Option.some_or] at final
        cases final
        rwa [folding.key_opened]

/-- What adds up when items are joined is kept. -/
theorem sum_fold {weight : α → M} (opened : ∀ item, weight (folding.opened item) = weight item)
    (joined : ∀ entry item, weight (folding.joined entry item) = weight entry + weight item)
    (items : List α) : ((folding.fold items).map weight).sum = (items.map weight).sum := by
  induction items using List.reverseRecOn with
  | nil => rfl
  | append_singleton items item ih =>
    rw [fold_snoc, List.map_append, List.sum_append, ← ih]
    rcases (folding.fold items).eq_nil_or_concat' with made | ⟨front, last, made⟩
    · simp [made, step_nil, opened]
    · rw [made, step_snoc]
      split
      · simp [joined, add_assoc]
      · simp [opened, add_assoc]

/-! ## Runs -/

omit [DecidableEq κ] in
theorem summary_snoc (some : run ≠ []) :
    folding.summary (run ++ [item]) = (folding.summary run).map (folding.joined · item) := by
  cases run with
  | nil => exact absurd rfl some
  | cons first rest =>
    rw [List.cons_append, summary, summary, List.foldl_append]
    rfl

/-- The items of a run all have the key of its entry. -/
theorem key_of_summary (chain : run.IsChain fun one other => folding.same one other)
    (made : folding.summary run = some entry) (member : item ∈ run) :
    folding.key item = folding.key entry := by
  cases run with
  | nil => cases member
  | cons first rest =>
    cases made
    have key : ∀ entry, folding.key (rest.foldl folding.joined entry) = folding.key entry := by
      clear member chain
      induction rest with
      | nil => exact fun _ => rfl
      | cons next rest ih => exact fun entry => (ih _).trans (folding.key_joined _ _)
    rw [key, folding.key_opened]
    rcases List.mem_cons.mp member with rfl | later
    · rfl
    · clear key
      induction rest generalizing first with
      | nil => cases later
      | cons next rest ih =>
        rw [List.isChain_cons_cons] at chain
        have equal : folding.key first = folding.key next := of_decide_eq_true chain.1
        rcases List.mem_cons.mp later with rfl | later
        · exact equal.symm
        · rw [equal]
          exact ih next chain.2 (List.mem_cons_of_mem _ later) later

/-- One more item of the last run. -/
theorem splitBy_snoc {r : α → α → Bool} {runs : List (List α)} {some : run ≠ []}
    (split : items.splitBy r = runs ++ [run]) (same : r (run.getLast some) item = true) :
    (items ++ [item]).splitBy r = runs ++ [run ++ [item]] := by
  obtain ⟨whole, filled, chains, apart⟩ := List.splitBy_eq_iff.mp split
  refine List.splitBy_eq_iff.mpr ⟨?_, ?_, ?_, ?_⟩
  · rw [whole]
    simp
  · simp only [List.mem_append, List.mem_singleton, not_or] at filled ⊢
    exact ⟨filled.1, by simp⟩
  · intro other member
    rcases List.mem_append.mp member with before | here
    · exact chains other (List.mem_append_left _ before)
    · rw [List.mem_singleton.mp here]
      refine List.isChain_append.mpr
        ⟨chains run (List.mem_append_right _ List.mem_cons_self), List.isChain_singleton _, ?_⟩
      rintro one final _ ⟨⟩
      rw [List.getLast?_eq_some_getLast some] at final
      cases final
      exact same
  · rw [List.isChain_append] at apart ⊢
    refine ⟨apart.1, List.isChain_singleton _, ?_⟩
    rintro one final _ ⟨⟩
    obtain ⟨filled, _, differ⟩ := apart.2.2 one final run rfl
    refine ⟨filled, by simp, ?_⟩
    rwa [List.head_append_of_ne_nil some]

/-- There is one entry for each longest run of items with one key, in their order. -/
theorem map_fold (items : List α) :
    (folding.fold items).map some = (items.splitBy folding.same).map folding.summary := by
  induction items using List.reverseRecOn with
  | nil => rfl
  | append_singleton items item ih =>
    rw [fold_snoc]
    rcases (items.splitBy folding.same).eq_nil_or_concat' with split | ⟨runs, run, split⟩
    · have nothing : items = [] := List.splitBy_eq_nil.mp split
      rw [nothing]
      rfl
    · have member : run ∈ items.splitBy folding.same :=
        split ▸ List.mem_append_right _ List.mem_cons_self
      have filled : run ≠ [] := List.ne_nil_of_mem_splitBy member
      have chain := List.isChain_of_mem_splitBy member
      rw [split, List.map_append, List.map_singleton, List.map_eq_append_iff] at ih
      obtain ⟨front, lasts, made, before, ended⟩ := ih
      obtain ⟨entry, rfl, summed⟩ := List.map_eq_singleton_iff.mp ended
      have key : folding.key (run.getLast filled) = folding.key entry :=
        key_of_summary chain summed.symm (List.getLast_mem filled)
      rw [made, step_snoc]
      split
      · rename_i same
        have longer := @splitBy_snoc _ items run item folding.same runs filled split
          (decide_eq_true (key.trans same))
        rw [longer, List.map_append, List.map_append, before, List.map_singleton,
          List.map_singleton, summary_snoc filled, ← summed]
        rfl
      · rename_i other
        have apart : ∀ one ∈ items.getLast?, ∀ next ∈ [item].head?, folding.same one next = false := by
          rintro one final next ⟨⟩
          have last : run.getLast? = some one := by
            rw [← final, ← List.flatten_splitBy folding.same items, split, List.flatten_append,
              List.flatten_singleton, List.getLast?_append, List.getLast?_eq_some_getLast filled,
              Option.some_or]
          rw [List.getLast?_eq_some_getLast filled, Option.some.injEq] at last
          rw [← last]
          exact decide_eq_false fun same => other (key.symm.trans same)
        rw [List.splitBy_append apart, split, List.map_append, List.map_append, List.map_append,
          List.map_append, before, List.map_singleton, summed]
        rfl

end Folding

end BoothOperator.RunFold
