import Mathlib.Data.List.Nodup
import Mathlib.Data.List.Basic

/-! A map that keeps the order in which its keys were first set, as the program's
maps do: setting a key that is there replaces its value in place, and setting a
new one puts it last. -/
namespace BoothOperator

structure OrderedMap (κ ν : Type*) where
  entries : List (κ × ν)
  /-- A key has one entry. -/
  distinct : (entries.map Prod.fst).Nodup
  deriving DecidableEq

namespace OrderedMap

variable {κ ν : Type*} [DecidableEq κ] {map : OrderedMap κ ν} {key other : κ} {value found : ν}

def empty : OrderedMap κ ν := ⟨[], List.nodup_nil⟩

def size (map : OrderedMap κ ν) : Nat := map.entries.length

def get (map : OrderedMap κ ν) (key : κ) : Option ν :=
  (map.entries.find? fun entry => entry.1 = key).map Prod.snd

def has (map : OrderedMap κ ν) (key : κ) : Bool := (map.get key).isSome

/-- Keep the entries that satisfy a test. -/
def filter (map : OrderedMap κ ν) (keep : κ → ν → Bool) : OrderedMap κ ν where
  entries := map.entries.filter fun entry => keep entry.1 entry.2
  distinct := map.distinct.sublist (List.filter_sublist.map Prod.fst)

/-- Change the values, in their places. -/
def mapValues (map : OrderedMap κ ν) (change : κ → ν → ν) : OrderedMap κ ν where
  entries := map.entries.map fun entry => (entry.1, change entry.1 entry.2)
  distinct := by simpa [List.map_map, Function.comp_def] using map.distinct

def delete (map : OrderedMap κ ν) (key : κ) : OrderedMap κ ν :=
  map.filter fun other _ => other ≠ key

/-- The entries with the value of one key replaced. -/
def replaced (key : κ) (value : ν) (entries : List (κ × ν)) : List (κ × ν) :=
  entries.map fun entry => if entry.1 = key then (key, value) else entry

theorem map_fst_replaced (entries : List (κ × ν)) :
    (replaced key value entries).map Prod.fst = entries.map Prod.fst := by
  rw [replaced, List.map_map]
  apply List.map_congr_left
  intro entry _
  by_cases same : entry.1 = key
  · simp [same]
  · simp [same]

theorem mem_map_fst_iff_has : key ∈ map.entries.map Prod.fst ↔ map.has key = true := by
  rw [has, get, Option.isSome_map, List.find?_isSome]
  simp [eq_comm]

def set (map : OrderedMap κ ν) (key : κ) (value : ν) : OrderedMap κ ν :=
  if there : map.has key = true then
    ⟨replaced key value map.entries, (map_fst_replaced map.entries).symm ▸ map.distinct⟩
  else
    ⟨map.entries ++ [(key, value)], by
      rw [List.map_append, List.nodup_append]
      refine ⟨map.distinct, List.nodup_singleton _, ?_⟩
      rintro first member _ last rfl
      apply there
      rw [← mem_map_fst_iff_has]
      simpa [List.mem_singleton.mp last] using member⟩

/-- Forget the oldest entries of a list that has more than the limit, one after the other. -/
def trimmed (limit : Nat) : List (κ × ν) → List (κ × ν)
  | [] => []
  | oldest :: rest => if limit < (oldest :: rest).length then trimmed limit rest else oldest :: rest

omit [DecidableEq κ] in
theorem trimmed_suffix (limit : Nat) (entries : List (κ × ν)) :
    trimmed limit entries <:+ entries := by
  induction entries with
  | nil => exact List.suffix_rfl
  | cons oldest rest ih =>
    rw [trimmed]
    split
    · exact ih.trans (List.suffix_cons oldest rest)
    · exact List.suffix_rfl

omit [DecidableEq κ] in
theorem length_trimmed_le (limit : Nat) (entries : List (κ × ν)) :
    (trimmed limit entries).length ≤ limit := by
  induction entries with
  | nil => exact Nat.zero_le limit
  | cons oldest rest ih =>
    rw [trimmed]
    split
    · exact ih
    · omega

/-- Forget the oldest entries while there are more than the limit. -/
def trim (map : OrderedMap κ ν) (limit : Nat) : OrderedMap κ ν where
  entries := trimmed limit map.entries
  distinct := map.distinct.sublist ((trimmed_suffix limit map.entries).sublist.map Prod.fst)

/-! ## Entries -/

theorem get_eq_some : map.get key = some value ↔ (key, value) ∈ map.entries := by
  constructor
  · intro read
    obtain ⟨entry, first, rfl⟩ := Option.map_eq_some_iff.mp read
    have same : entry.1 = key := by simpa using List.find?_some first
    exact same ▸ List.mem_of_find?_eq_some first
  · intro member
    have there : (map.entries.find? fun entry => entry.1 = key).isSome := by
      rw [List.find?_isSome]
      exact ⟨(key, value), member, by simp⟩
    obtain ⟨entry, first⟩ := Option.isSome_iff_exists.mp there
    have same : entry.1 = key := by simpa using List.find?_some first
    have one : entry = (key, value) :=
      List.inj_on_of_nodup_map map.distinct (List.mem_of_find?_eq_some first) member same
    rw [get, first, one]
    rfl

theorem has_eq_true : map.has key = true ↔ ∃ value, map.get key = some value := by
  rw [has, Option.isSome_iff_exists]

@[simp] theorem get_empty : (empty : OrderedMap κ ν).get key = none := rfl

omit [DecidableEq κ] in
@[simp] theorem size_empty : (empty : OrderedMap κ ν).size = 0 := rfl

theorem get_filter {keep : κ → ν → Bool} :
    (map.filter keep).get key = some value ↔ map.get key = some value ∧ keep key value = true := by
  rw [get_eq_some, get_eq_some]
  exact List.mem_filter

theorem filter_eq_self {keep : κ → ν → Bool}
    (all : ∀ key value, map.get key = some value → keep key value = true) : map.filter keep = map := by
  have same : map.entries.filter (fun entry => keep entry.1 entry.2) = map.entries :=
    List.filter_eq_self.mpr fun entry member => all entry.1 entry.2 (get_eq_some.mpr member)
  cases map
  simp only [filter, same]

theorem get_mapValues {change : κ → ν → ν} :
    (map.mapValues change).get key = (map.get key).map (change key) := by
  apply Option.ext
  intro value
  rw [get_eq_some, Option.map_eq_some_iff]
  constructor
  · intro member
    obtain ⟨entry, there, same⟩ := List.mem_map.mp member
    cases same
    exact ⟨entry.2, get_eq_some.mpr there, rfl⟩
  · rintro ⟨before, read, rfl⟩
    exact List.mem_map.mpr ⟨(key, before), get_eq_some.mp read, rfl⟩

theorem get_delete_eq_some :
    (map.delete key).get other = some value ↔ other ≠ key ∧ map.get other = some value := by
  rw [delete, get_filter, and_comm, decide_eq_true_iff]

@[simp] theorem get_delete_same : (map.delete key).get key = none := by
  rw [Option.eq_none_iff_forall_ne_some]
  intro value read
  exact (get_delete_eq_some.mp read).1 rfl

theorem mem_replaced {entry : κ × ν} (member : entry ∈ replaced key value map.entries) :
    entry = (key, value) ∨ entry.1 ≠ key ∧ entry ∈ map.entries := by
  obtain ⟨old, there, rfl⟩ := List.mem_map.mp member
  by_cases same : old.1 = key
  · rw [if_pos same]
    exact Or.inl rfl
  · rw [if_neg same]
    exact Or.inr ⟨same, there⟩

theorem get_set_eq_some : (map.set key value).get other = some found ↔
    other = key ∧ found = value ∨ other ≠ key ∧ map.get other = some found := by
  rw [get_eq_some, get_eq_some, set]
  by_cases there : map.has key = true
  · rw [dif_pos there]
    constructor
    · intro member
      rcases mem_replaced member with same | ⟨apart, old⟩
      · exact Or.inl (Prod.mk.inj same)
      · exact Or.inr ⟨apart, old⟩
    · rintro (⟨rfl, rfl⟩ | ⟨apart, old⟩)
      · obtain ⟨before, read⟩ := has_eq_true.mp there
        exact List.mem_map.mpr ⟨(other, before), get_eq_some.mp read, if_pos rfl⟩
      · exact List.mem_map.mpr ⟨(other, found), old, if_neg apart⟩
  · rw [dif_neg there, List.mem_append, List.mem_singleton, Prod.mk.injEq]
    constructor
    · rintro (old | new)
      · refine Or.inr ⟨?_, old⟩
        rintro rfl
        exact there (has_eq_true.mpr ⟨found, get_eq_some.mpr old⟩)
      · exact Or.inl new
    · rintro (new | ⟨-, old⟩)
      · exact Or.inr new
      · exact Or.inl old

@[simp] theorem get_set_same : (map.set key value).get key = some value :=
  get_set_eq_some.mpr (Or.inl ⟨rfl, rfl⟩)

theorem get_set_of_ne (apart : other ≠ key) : (map.set key value).get other = map.get other := by
  apply Option.ext
  intro found
  rw [get_set_eq_some]
  simp [apart]

theorem get_of_trim {limit : Nat} (read : (map.trim limit).get key = some value) :
    map.get key = some value := by
  rw [get_eq_some] at read ⊢
  exact (trimmed_suffix limit map.entries).subset read

/-! ## Sizes -/

omit [DecidableEq κ] in
theorem size_trim_le (limit : Nat) : (map.trim limit).size ≤ limit :=
  length_trimmed_le limit map.entries

omit [DecidableEq κ] in
theorem size_filter_le (keep : κ → ν → Bool) : (map.filter keep).size ≤ map.size :=
  List.length_filter_le _ _

theorem size_delete_le : (map.delete key).size ≤ map.size := size_filter_le _

theorem size_set_of_has (there : map.has key = true) : (map.set key value).size = map.size := by
  rw [set, dif_pos there]
  exact List.length_map _

theorem size_set_of_not (fresh : ¬ map.has key = true) :
    (map.set key value).size = map.size + 1 := by
  rw [set, dif_neg fresh]
  exact List.length_append

/-- An entry that was there makes room for one when it is deleted. -/
theorem size_delete_lt (there : map.has key = true) : (map.delete key).size < map.size := by
  obtain ⟨value, read⟩ := has_eq_true.mp there
  apply List.length_filter_lt_length_iff_exists.mpr
  exact ⟨(key, value), get_eq_some.mp read, by simp⟩

end OrderedMap

end BoothOperator
