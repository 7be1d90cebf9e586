import Mathlib.Algebra.Ring.Nat
import Mathlib.Data.List.Perm.Basic
import Mathlib.Logic.Function.Iterate
import Mathlib.Order.Lattice
import BoothOperator.Lib.OrderedMap

/-! Rows tallied under their keys: each row changes the tally of its own key, which begins afresh
when it is not there. A measure that each row raises by its own share is the shares' sum over all
tallies; and where the rows of one key may be counted in any order, so may all rows. -/
namespace BoothOperator.Tally

variable {κ ν α β : Type*} [DecidableEq κ]

/-! ## The sum over a map -/

section Sum

variable {measure : ν → Nat} {map : OrderedMap κ ν} {key : κ} {value old : ν}

def sumOf (measure : ν → Nat) (map : OrderedMap κ ν) : Nat :=
  (map.entries.map fun entry => measure entry.2).sum

theorem sum_replaced {entries : List (κ × ν)} (distinct : (entries.map Prod.fst).Nodup)
    (member : (key, old) ∈ entries) :
    ((OrderedMap.replaced key value entries).map fun entry => measure entry.2).sum + measure old =
      (entries.map fun entry => measure entry.2).sum + measure value := by
  induction entries with
  | nil => cases member
  | cons entry rest ih =>
    rw [List.map_cons, List.nodup_cons] at distinct
    have here : OrderedMap.replaced key value (entry :: rest) =
      (if entry.1 = key then (key, value) else entry) :: OrderedMap.replaced key value rest := rfl
    rw [here, List.map_cons, List.map_cons, List.sum_cons, List.sum_cons]
    rcases List.mem_cons.mp member with rfl | later
    · have others : OrderedMap.replaced key value rest = rest := by
        conv_rhs => rw [← List.map_id rest]
        refine List.map_congr_left fun other among => if_neg ?_
        intro same
        have mine : other.1 ∈ rest.map Prod.fst := List.mem_map_of_mem among
        rw [same] at mine
        exact distinct.1 mine
      rw [others, if_pos rfl]
      simp only
      omega
    · have apart : entry.1 ≠ key := by
        intro same
        apply distinct.1
        rw [same]
        exact List.mem_map_of_mem later
      rw [if_neg apart]
      have tail := ih distinct.2 later
      omega

theorem sumOf_set (measure : ν → Nat) (map : OrderedMap κ ν) (key : κ) (value : ν) :
    sumOf measure (map.set key value) + ((map.get key).map measure).getD 0 =
      sumOf measure map + measure value := by
  unfold sumOf OrderedMap.set
  cases read : map.get key with
  | none =>
    have fresh : ¬ map.has key = true := by simp [OrderedMap.has, read]
    rw [dif_neg fresh]
    simp
  | some old =>
    have there : map.has key = true := by simp [OrderedMap.has, read]
    rw [dif_pos there]
    exact sum_replaced map.distinct (OrderedMap.get_eq_some.mp read)

end Sum

/-! ## Tallies -/

section Tally

variable (key : α → κ) (init : ν) (count : ν → α → ν)

/-- Count one row under its key. -/
def add (map : OrderedMap κ ν) (item : α) : OrderedMap κ ν :=
  map.set (key item) (count ((map.get (key item)).getD init) item)

def tally (map : OrderedMap κ ν) (items : List α) : OrderedMap κ ν :=
  items.foldl (add key init count) map

/-- The rows of one key are counted from what was there, the rest change nothing. -/
theorem get_tally (map : OrderedMap κ ν) (items : List α) (other : κ) :
    (tally key init count map items).get other =
      if items.filter (key · = other) = [] then map.get other
      else some ((items.filter (key · = other)).foldl count ((map.get other).getD init)) := by
  induction items generalizing map with
  | nil => rfl
  | cons item rest ih =>
    have next : tally key init count map (item :: rest) =
      tally key init count (add key init count map item) rest := rfl
    rw [next, ih]
    by_cases same : key item = other
    · have read : (add key init count map item).get other =
          some (count ((map.get other).getD init) item) := by
        rw [add, same, OrderedMap.get_set_same]
      rw [List.filter_cons_of_pos (by simpa using same), read, if_neg (List.cons_ne_nil _ _)]
      split
      next none => rw [none]; rfl
      next => rfl
    · have read : (add key init count map item).get other = map.get other :=
        OrderedMap.get_set_of_ne (Ne.symm same)
      rw [List.filter_cons_of_neg (by simpa using same), read]

theorem has_tally {map : OrderedMap κ ν} {items : List α} {other : κ} :
    (tally key init count map items).has other = true ↔
      map.has other = true ∨ ∃ item ∈ items, key item = other := by
  rw [OrderedMap.has, get_tally]
  by_cases none : items.filter (key · = other) = []
  · rw [if_pos none]
    have nobody : ¬ ∃ item ∈ items, key item = other := by
      rintro ⟨item, among, same⟩
      exact List.filter_eq_nil_iff.mp none item among (decide_eq_true same)
    exact (or_iff_left nobody).symm
  · rw [if_neg none]
    obtain ⟨item, among⟩ := List.exists_mem_of_ne_nil _ none
    obtain ⟨there, same⟩ := List.mem_filter.mp among
    exact iff_of_true rfl (Or.inr ⟨item, there, of_decide_eq_true same⟩)

/-- Each row raises the sum by its share. -/
theorem sumOf_tally {measure : ν → Nat} {share : α → Nat} (zero : measure init = 0)
    (raises : ∀ value item, measure (count value item) = measure value + share item)
    (map : OrderedMap κ ν) (items : List α) :
    sumOf measure (tally key init count map items) = sumOf measure map + (items.map share).sum := by
  induction items generalizing map with
  | nil => rfl
  | cons item rest ih =>
    have next : tally key init count map (item :: rest) =
      tally key init count (add key init count map item) rest := rfl
    have set := sumOf_set measure map (key item) (count ((map.get (key item)).getD init) item)
    have before : ((map.get (key item)).map measure).getD 0 =
        measure ((map.get (key item)).getD init) := by
      cases map.get (key item) with
      | none => exact zero.symm
      | some value => rfl
    rw [raises, before] at set
    rw [next, ih, List.map_cons, List.sum_cons]
    have added : sumOf measure (add key init count map item) = sumOf measure map + share item := by
      unfold add
      omega
    omega

theorem entries_perm {map other : OrderedMap κ ν} (same : ∀ key, map.get key = other.get key) :
    map.entries.Perm other.entries := by
  refine (List.perm_ext_iff_of_nodup map.distinct.of_map other.distinct.of_map).mpr fun entry => ?_
  rw [← OrderedMap.get_eq_some, ← OrderedMap.get_eq_some, same]

/-- Rows in another order leave the same tallies. -/
theorem tally_perm [RightCommutative count] (map : OrderedMap κ ν) {items other : List α}
    (perm : items.Perm other) :
    (tally key init count map items).entries.Perm (tally key init count map other).entries := by
  refine entries_perm fun own => ?_
  have mine := perm.filter (key · = own)
  rw [get_tally, get_tally, mine.foldl_eq]
  simp only [← List.length_eq_zero_iff, mine.length_eq]

end Tally

/-! ## Counts -/

section Counts

variable {number : α → Option Nat} {holds : α → Bool}

theorem countP_lt_succ (bound : Nat) (items : List α) :
    (items.countP fun item => (number item).any (· < bound + 1)) =
      (items.countP fun item => (number item).any (· < bound)) +
        items.countP fun item => number item = some bound := by
  induction items with
  | nil => rfl
  | cons item rest ih =>
    simp only [List.countP_cons, ih]
    cases number item with
    | none => simp
    | some n =>
      simp only [Option.any_some, Option.some.injEq, decide_eq_true_eq]
      split_ifs <;> omega

/-- The counts of the numbers below a bound are those of the items that have such a number. -/
theorem sum_countP_range (number : α → Option Nat) (bound : Nat) (items : List α) :
    ((List.range bound).map fun n => items.countP fun item => number item = some n).sum =
      items.countP fun item => (number item).any (· < bound) := by
  induction bound with
  | zero =>
    refine (List.countP_eq_zero.mpr fun item _ => ?_).symm
    cases number item <;> simp
  | succ bound ih =>
    rw [List.range_succ, List.map_append, List.sum_append, ih]
    rw [countP_lt_succ, List.map_singleton, List.sum_singleton]

theorem sum_indicator (items : List α) :
    (items.map fun item => if holds item then 1 else 0).sum = items.countP holds := by
  induction items with
  | nil => rfl
  | cons item rest ih =>
    rw [List.map_cons, List.sum_cons, ih, List.countP_cons, Nat.add_comm]

/-- Each item changes the bucket of its own index. -/
theorem getElem?_foldl_modify (index : α → Nat) (change : β → β) (buckets : List β)
    (items : List α) (i : Nat) :
    (items.foldl (fun buckets item => buckets.modify (index item) change) buckets)[i]? =
      buckets[i]?.map (change^[items.countP fun item => index item = i]) := by
  induction items generalizing buckets with
  | nil => simp
  | cons item rest ih =>
    rw [List.foldl_cons, ih, List.getElem?_modify, List.countP_cons]
    by_cases same : index item = i
    · simp [same, Function.comp_def]
    · simp [same]

end Counts

/-! ## In the order of a key -/

section Sorted

variable {γ : Type*} [LinearOrder γ] (own : β → γ)

/-- A stable sort. -/
def sortBy (items : List β) : List β :=
  items.mergeSort fun left right => !decide (own right < own left)

variable {own} {items other : List β}

theorem sortBy_perm (own : β → γ) (items : List β) : (sortBy own items).Perm items := List.mergeSort_perm _ _

/-- Distinct texts ascend. -/
theorem pairwise_sortBy (distinct : (items.map own).Nodup) :
    (sortBy own items).Pairwise fun left right => own left < own right := by
  have sorted : (sortBy own items).Pairwise fun left right =>
      (!decide (own right < own left)) = true := by
    refine List.pairwise_mergeSort (fun a b c first second => ?_) (fun a b => ?_) items
    · simp only [Bool.not_eq_true', decide_eq_false_iff_not, not_lt] at first second ⊢
      exact le_trans first second
    · simp only [Bool.or_eq_true, Bool.not_eq_true', decide_eq_false_iff_not, not_lt]
      exact le_total _ _
  have apart : (sortBy own items).Pairwise fun left right => own left ≠ own right :=
    List.pairwise_map.mp (((sortBy_perm own items).map own).nodup_iff.mpr distinct)
  refine (sorted.and apart).imp fun {left right} both => ?_
  have least : own left ≤ own right := by simpa using both.1
  exact lt_of_le_of_ne least both.2

/-- The order in which they come makes no difference. -/
theorem sortBy_congr (distinct : (items.map own).Nodup) (perm : items.Perm other) :
    sortBy own items = sortBy own other := by
  have distinct' : (other.map own).Nodup := (perm.map own).nodup_iff.mp distinct
  refine List.Perm.eq_of_pairwise (fun a b _ _ first second => absurd first (lt_asymm second))
    (pairwise_sortBy distinct) (pairwise_sortBy distinct') ?_
  exact (sortBy_perm own items).trans (perm.trans (sortBy_perm own other).symm)

end Sorted

end BoothOperator.Tally
