import Std.Data.String.ToInt
import Mathlib.Data.List.Nodup
import Mathlib.Data.List.Perm.Basic
import BoothOperator.Lib.Json

/-! JSON values up to the order of the members of their objects: what is found under a name, the
value with all its members in order of their names, and the texts of whole numbers, which make
the text of such a value its own. -/
namespace BoothOperator.Json

/-! ## Members by name -/

section Members

variable {ν : Type} {name : String} {value : Value ν} {members other : List (String × Value ν)}

theorem Value.lookup_eq_some (distinct : (members.map Prod.fst).Nodup) :
    Value.lookup name members = some value ↔ (name, value) ∈ members := by
  rw [Value.lookup, Option.map_eq_some_iff]
  constructor
  · rintro ⟨found, first, rfl⟩
    have same : found.1 = name := by simpa using List.find?_some first
    exact same ▸ List.mem_reverse.mp (List.mem_of_find?_eq_some first)
  · intro member
    have there : (members.reverse.find? fun member => member.1 == name).isSome := by
      rw [List.find?_isSome]
      exact ⟨(name, value), List.mem_reverse.mpr member, by simp⟩
    obtain ⟨found, first⟩ := Option.isSome_iff_exists.mp there
    have same : found.1 = name := by simpa using List.find?_some first
    have own := List.mem_reverse.mp (List.mem_of_find?_eq_some first)
    exact ⟨found, first, congrArg Prod.snd (List.inj_on_of_nodup_map distinct own member same)⟩

/-- What is found under a name does not depend on the order of the members. -/
theorem Value.lookup_perm (distinct : (members.map Prod.fst).Nodup) (same : other.Perm members)
    (name : String) : Value.lookup name other = Value.lookup name members := by
  apply Option.ext
  intro value
  rw [lookup_eq_some distinct, lookup_eq_some ((same.map Prod.fst).nodup_iff.mpr distinct)]
  exact same.mem_iff

theorem Value.lookup_map (change : Value ν → Value ν) (name : String)
    (members : List (String × Value ν)) :
    Value.lookup name (members.map (Prod.map id change)) =
      (Value.lookup name members).map change := by
  rw [Value.lookup, Value.lookup, ← List.map_reverse, List.find?_map, Option.map_map,
    Option.map_map]
  rfl

theorem map_fst_map {α β : Type*} (change : α → β) (entries : List (String × α)) :
    (entries.map (Prod.map id change)).map Prod.fst = entries.map Prod.fst := by
  rw [List.map_map]
  rfl

end Members

/-- A list with the members of an image is the image of a list with the members. -/
theorem exists_map_of_perm {α β : Type*} {change : α → β} {items : List α} {images : List β}
    (perm : images.Perm (items.map change)) :
    ∃ other : List α, other.Perm items ∧ images = other.map change := by
  generalize target : items.map change = image at perm
  induction perm generalizing items with
  | nil => exact ⟨[], List.map_eq_nil_iff.mp target ▸ List.Perm.refl _, rfl⟩
  | cons head _ ih =>
    obtain ⟨item, rest, rfl, rfl, tail⟩ := List.map_eq_cons_iff.mp target
    obtain ⟨other, perm, rfl⟩ := ih tail
    exact ⟨item :: other, perm.cons item, rfl⟩
  | swap first second _ =>
    obtain ⟨item, rest, rfl, rfl, tail⟩ := List.map_eq_cons_iff.mp target
    obtain ⟨next, rest, rfl, rfl, rfl⟩ := List.map_eq_cons_iff.mp tail
    exact ⟨next :: item :: rest, List.Perm.swap item next rest, rfl⟩
  | trans _ _ first second =>
    obtain ⟨middle, perm, same⟩ := second target
    obtain ⟨other, perm', rfl⟩ := first same.symm
    exact ⟨other, perm'.trans perm, rfl⟩

/-! ## Members in order -/

section Sorting

variable {ν : Type} (le : String → String → Bool)

mutual

/-- The value with the members of each object in order of their names. -/
def sortKeys : Value ν → Value ν
  | .arr items => .arr (sortItems items)
  | .obj members => .obj ((sortMembers members).mergeSort fun left right => le left.1 right.1)
  | .null => .null
  | .bool value => .bool value
  | .num value => .num value
  | .str value => .str value

def sortItems : List (Value ν) → List (Value ν)
  | [] => []
  | item :: rest => sortKeys item :: sortItems rest

def sortMembers : List (String × Value ν) → List (String × Value ν)
  | [] => []
  | (name, item) :: rest => (name, sortKeys item) :: sortMembers rest

end

theorem sortMembers_eq (members : List (String × Value ν)) :
    sortMembers le members = members.map (Prod.map id (sortKeys le)) := by
  induction members with
  | nil => rfl
  | cons member rest ih =>
    rw [sortMembers, ih]
    rfl

variable {le}

@[simp] theorem sortKeys_num (value : ν) : sortKeys le (.num value) = .num value := rfl

@[simp] theorem sortKeys_str (value : String) : sortKeys le (.str value : Value ν) = .str value :=
  rfl

@[simp] theorem sortKeys_null : sortKeys le (.null : Value ν) = .null := rfl

theorem sortKeys_obj (members : List (String × Value ν)) :
    sortKeys le (.obj members) =
      .obj ((sortMembers le members).mergeSort fun left right => le left.1 right.1) :=
  rfl

/-- Objects that are the same in order have the same members. -/
theorem perm_of_sortKeys_eq {members other : List (String × Value ν)}
    (same : sortKeys le (.obj members) = sortKeys le (.obj other)) :
    (members.map (Prod.map id (sortKeys le))).Perm (other.map (Prod.map id (sortKeys le))) := by
  rw [sortKeys_obj, sortKeys_obj, Value.obj.injEq, sortMembers_eq, sortMembers_eq] at same
  have ordered := List.mergeSort_perm (members.map (Prod.map id (sortKeys le)))
    fun left right => le left.1 right.1
  rw [same] at ordered
  exact ordered.symm.trans (List.mergeSort_perm _ _)

/-- An order of texts that tells the names of the members apart puts them in one order. -/
theorem sortKeys_obj_congr (transitive : ∀ a b c, le a b → le b c → le a c)
    (total : ∀ a b, le a b || le b a) {members other : List (String × Value ν)}
    (distinct : (other.map Prod.fst).Nodup)
    (apart : ∀ a ∈ other.map Prod.fst, ∀ b ∈ other.map Prod.fst, le a b → le b a → a = b)
    (same : (members.map (Prod.map id (sortKeys le))).Perm (other.map (Prod.map id (sortKeys le)))) :
    sortKeys le (.obj members) = sortKeys le (.obj other) := by
  rw [sortKeys_obj, sortKeys_obj, sortMembers_eq, sortMembers_eq]
  congr 1
  have sorted (entries : List (String × Value ν)) :
      (entries.mergeSort fun left right => le left.1 right.1).Pairwise
        fun left right => le left.1 right.1 = true :=
    List.pairwise_mergeSort (fun a b c => transitive a.1 b.1 c.1) (fun a b => total a.1 b.1) entries
  refine List.Perm.eq_of_pairwise ?_ (sorted _) (sorted _)
    ((List.mergeSort_perm _ _).trans (same.trans (List.mergeSort_perm _ _).symm))
  intro first second there here before after
  rw [List.mem_mergeSort] at there here
  have own := same.mem_iff.mp there
  have names : ∀ entry ∈ other.map (Prod.map id (sortKeys le)), entry.1 ∈ other.map Prod.fst := by
    intro entry member
    rw [← map_fst_map (sortKeys le)]
    exact List.mem_map_of_mem member
  exact List.inj_on_of_nodup_map (by rwa [map_fst_map]) own here
    (apart _ (names _ own) _ (names _ here) before after)

end Sorting

/-! ## Whole numbers -/

/-- A whole number as it is written. -/
def decimal (value : Int) : List Char := value.repr.toList

private def inDecimal (c : Char) : Bool := c = '-' || c.isDigit

private theorem decimal_eq (value : Int) : decimal value =
    if value < 0 then '-' :: Nat.toDigits 10 value.natAbs else Nat.toDigits 10 value.natAbs := by
  cases value with
  | ofNat n => exact Nat.toList_repr
  | negSucc n =>
    rw [if_pos (Int.negSucc_lt_zero n), decimal, Int.repr, String.toList_append, Nat.toList_repr]
    rfl

private theorem inDecimal_of_mem {value : Int} {c : Char} (member : c ∈ decimal value) :
    inDecimal c = true := by
  have digits : ∀ d ∈ Nat.toDigits 10 value.natAbs, inDecimal d = true := by
    intro d there
    rw [inDecimal, Nat.isDigit_of_mem_toDigits (by decide) (by decide) there, Bool.or_true]
  rw [decimal_eq] at member
  split at member
  · rcases List.mem_cons.mp member with rfl | later
    · rfl
    · exact digits c later
  · exact digits c member

private theorem decimal_ne_nil (value : Int) : decimal value ≠ [] := by
  rw [decimal_eq]
  split
  · exact List.cons_ne_nil _ _
  · exact Nat.toDigits_ne_nil

theorem literals_decimal : Literals decimal where
  starts value := by
    obtain ⟨c, rest, written⟩ := List.exists_cons_of_ne_nil (decimal_ne_nil value)
    refine ⟨c, rest, written, ?_⟩
    have within : inDecimal c = true := inDecimal_of_mem (written ▸ List.mem_cons_self)
    simpa [inDecimal] using within
  unique v w x y endX endY same := by
    have stops : ∀ rest, Ends rest → rest.takeWhile inDecimal = [] := by
      intro rest ends
      cases rest with
      | nil => rfl
      | cons c _ =>
        rcases ends with rfl | rfl | rfl <;> rfl
    have whole (value : Int) (rest : List Char) (ends : Ends rest) :
        (decimal value ++ rest).takeWhile inDecimal = decimal value := by
      rw [List.takeWhile_append_of_pos fun c member => inDecimal_of_mem member, stops rest ends,
        List.append_nil]
    have texts : decimal v = decimal w := by
      rw [← whole v x endX, same, whole w y endY]
    have values := Int.repr_injective (String.toList_injective texts)
    exact ⟨values, List.append_cancel_left (texts ▸ same)⟩

end BoothOperator.Json
