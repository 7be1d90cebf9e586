import Mathlib.Algebra.Ring.Nat
import BoothOperator.Lib.Utf16
import BoothOperator.Schema

/-! `sanitizeMetadata` of `lib/audit.ts` over texts of code units: what is too large becomes a
marker with the keys, and what is stored has been sanitized twice. -/
namespace BoothOperator.Audit

open BoothOperator.Schema (Number)
open BoothOperator.Utf16

def MAX_METADATA_STRING_LENGTH : Nat := 2000
def MAX_METADATA_DEPTH : Nat := 3
def MAX_METADATA_KEYS : Nat := 32
def MAX_METADATA_MARKER_KEY_LENGTH : Nat := 120
def MAX_METADATA_ITEMS : Nat := 20
def MAX_METADATA_BYTES : Nat := 8000

/-- Half of a pair may be what is left before the ellipsis. -/
def truncate (value : Text) (max : Nat) : Text :=
  if value.length ≤ max then value else value.take (max - 1) ++ units "…"

def truncatedText : Text := units "[truncated]"

variable {ν : Type}

mutual

def sanitizeValue (depth : Nat) : Value ν → Value ν
  | .str value => .str (truncate value MAX_METADATA_STRING_LENGTH)
  | .null => .null
  | .num value => .num value
  | .bool value => .bool value
  | .arr value =>
    if MAX_METADATA_DEPTH ≤ depth then .str truncatedText
    else
      let items := sanitizeItems MAX_METADATA_ITEMS (depth + 1) value
      .arr (if MAX_METADATA_ITEMS < value.length then items ++ [.str truncatedText] else items)
  | .obj value =>
    if MAX_METADATA_DEPTH ≤ depth then .str truncatedText
    else .obj (sanitizeMembers MAX_METADATA_KEYS (depth + 1) value)

/-- `slice(0, left)` of an array, each item sanitized. -/
def sanitizeItems (left depth : Nat) : List (Value ν) → List (Value ν)
  | [] => []
  | item :: rest =>
    if left = 0 then [] else sanitizeValue depth item :: sanitizeItems (left - 1) depth rest

/-- `slice(0, left)` of the entries of an object, each value sanitized. -/
def sanitizeMembers (left depth : Nat) : Members ν → Members ν
  | [] => []
  | (key, nested) :: rest =>
    if left = 0 then []
    else (key, sanitizeValue depth nested) :: sanitizeMembers (left - 1) depth rest

end

/-- The keys that the marker lists. -/
def markerKeys (sanitized : Members ν) : List Text :=
  ((sanitized.map Prod.fst).take MAX_METADATA_KEYS).map fun key =>
    truncate key MAX_METADATA_MARKER_KEY_LENGTH

def marker (keys : List Text) : Members ν :=
  [(units "error", .str (units "metadata_too_large")), (units "keys", .arr (keys.map .str))]

variable (numberText : ν → Text)

/-- `Buffer.byteLength` of the JSON of an object. -/
def serializedBytes (members : Members ν) : Nat := byteLength (stringify numberText (.obj members))

def sanitizeMetadata : Option (Members ν) → Option (Members ν)
  | none => none
  | some [] => none
  | some metadata =>
    let sanitized := sanitizeMembers MAX_METADATA_KEYS 1 metadata
    if MAX_METADATA_BYTES < serializedBytes numberText sanitized then
      some (marker (markerKeys sanitized))
    else some sanitized

/-- What is stored is within the bound, and sanitizing it again keeps it. -/
def Bounded (metadata : Option (Members ν)) : Prop :=
  (∀ result, sanitizeMetadata numberText metadata = some result →
    serializedBytes numberText result ≤ MAX_METADATA_BYTES) ∧
  sanitizeMetadata numberText (sanitizeMetadata numberText metadata) =
    sanitizeMetadata numberText metadata

/-- The keys take few enough octets beside the forty of the marker itself, and are no more than
the items that an array keeps, with the item that stands for the others. -/
def ListsWell (keys : List Text) : Prop :=
  40 + (keys.map fun key => byteLength (quote key)).sum + (keys.length - 1) ≤ MAX_METADATA_BYTES ∧
    (keys.length ≤ MAX_METADATA_ITEMS ∨
      keys.length = MAX_METADATA_ITEMS + 1 ∧ keys.getLast? = some truncatedText)

/-- The metadata is small once its strings, arrays and objects are cut, or its keys make a marker
that is. -/
def Manageable (metadata : Option (Members ν)) : Prop :=
  ∀ members, metadata = some members →
    serializedBytes numberText (sanitizeMembers MAX_METADATA_KEYS 1 members) ≤ MAX_METADATA_BYTES ∨
      ListsWell (markerKeys members)

/-! ## Sanitizing twice -/

theorem length_truncate_le (value : Text) {max : Nat} (positive : 0 < max) :
    (truncate value max).length ≤ max := by
  rw [truncate]
  split
  · assumption
  · have one : (units "…").length = 1 := rfl
    rw [List.length_append, List.length_take, one]
    omega

theorem truncate_of_le {value : Text} {max : Nat} (short : value.length ≤ max) :
    truncate value max = value := if_pos short

theorem sanitizeItems_eq (left depth : Nat) (items : List (Value ν)) :
    sanitizeItems left depth items = (items.take left).map (sanitizeValue depth) := by
  induction items generalizing left with
  | nil => rw [sanitizeItems, List.take_nil, List.map_nil]
  | cons item rest ih =>
    cases left with
    | zero => rw [sanitizeItems, if_pos rfl, List.take_zero, List.map_nil]
    | succ left =>
      rw [sanitizeItems, if_neg (Nat.succ_ne_zero left), ih, List.take_succ_cons, List.map_cons,
        Nat.add_sub_cancel]

theorem sanitizeMembers_eq (left depth : Nat) (members : Members ν) :
    sanitizeMembers left depth members =
      (members.take left).map (Prod.map id (sanitizeValue depth)) := by
  induction members generalizing left with
  | nil => rw [sanitizeMembers, List.take_nil, List.map_nil]
  | cons member rest ih =>
    cases left with
    | zero => rw [sanitizeMembers, if_pos rfl, List.take_zero, List.map_nil]
    | succ left =>
      rw [sanitizeMembers, if_neg (Nat.succ_ne_zero left), ih, List.take_succ_cons, List.map_cons,
        Nat.add_sub_cancel]
      rfl

/-- Members that are few and whose values are as sanitized are kept. -/
theorem sanitizeMembers_sanitizeMembers {left depth : Nat} {members : Members ν}
    (each : ∀ member ∈ members,
      sanitizeValue depth (sanitizeValue depth member.2) = sanitizeValue depth member.2) :
    sanitizeMembers left depth (sanitizeMembers left depth members) =
      sanitizeMembers left depth members := by
  rw [sanitizeMembers_eq, sanitizeMembers_eq, ← List.map_take, List.take_take, Nat.min_self,
    List.map_map]
  apply List.map_congr_left
  intro member taken
  have kept := each member (List.mem_of_mem_take taken)
  simp only [Function.comp_apply, Prod.map, id, kept]

/-- The items of an array as they are cut, and a text for those that are left out. -/
def cut {α : Type*} (text : α) (items : List α) : List α :=
  if MAX_METADATA_ITEMS < items.length then items.take MAX_METADATA_ITEMS ++ [text] else items

theorem cut_cut {α : Type*} (text : α) (items : List α) : cut text (cut text items) = cut text items := by
  by_cases many : MAX_METADATA_ITEMS < items.length
  · have kept : (items.take MAX_METADATA_ITEMS).length = MAX_METADATA_ITEMS :=
      List.length_take_of_le (Nat.le_of_lt many)
    have more : MAX_METADATA_ITEMS < (items.take MAX_METADATA_ITEMS ++ [text]).length := by
      rw [List.length_append, kept]
      exact Nat.lt_succ_self _
    rw [cut, cut, if_pos many, if_pos more, List.take_left' kept]
  · rw [cut, cut, if_neg many, if_neg many]

theorem cut_eq_self_iff {α : Type*} (text : α) (items : List α) :
    cut text items = items ↔ items.length ≤ MAX_METADATA_ITEMS ∨
      items.length = MAX_METADATA_ITEMS + 1 ∧ items.getLast? = some text := by
  by_cases many : MAX_METADATA_ITEMS < items.length
  · have few : ¬ items.length ≤ MAX_METADATA_ITEMS := Nat.not_le_of_lt many
    simp only [cut, if_pos many, few, false_or]
    constructor
    · intro same
      have length := congrArg List.length same
      rw [List.length_append, List.length_take_of_le (Nat.le_of_lt many)] at length
      refine ⟨length.symm, ?_⟩
      rw [← same, List.getLast?_concat]
    · rintro ⟨length, last⟩
      obtain ⟨kept, rfl⟩ := List.getLast?_eq_some_iff.mp last
      rw [List.length_append, List.length_singleton] at length
      rw [List.take_left' (Nat.add_right_cancel length)]
  · simp only [cut, if_neg many, true_iff]
    exact Or.inl (Nat.le_of_not_lt many)

theorem map_cut {α β : Type*} (change : α → β) (text : α) (items : List α) :
    (cut text items).map change = cut (change text) (items.map change) := by
  rw [cut, cut, List.length_map]
  split
  · rw [List.map_append, List.map_take, List.map_singleton]
  · rfl

theorem sanitizeValue_truncatedText (depth : Nat) :
    sanitizeValue depth (.str truncatedText : Value ν) = .str truncatedText := by
  rw [sanitizeValue, truncate_of_le (by decide)]

theorem sanitizeValue_arr {depth : Nat} (shallow : ¬ MAX_METADATA_DEPTH ≤ depth)
    (items : List (Value ν)) :
    sanitizeValue depth (.arr items) =
      .arr (cut (.str truncatedText) (items.map (sanitizeValue (depth + 1)))) := by
  rw [sanitizeValue, if_neg shallow, sanitizeItems_eq, cut, List.length_map, List.map_take]
  split
  · rfl
  · next few => rw [List.take_of_length_le (by rw [List.length_map]; exact Nat.le_of_not_lt few)]

/-- By induction on the value: each cut leaves what the next one would. -/
theorem sanitizeValue_sanitizeValue (depth : Nat) : (value : Value ν) →
    sanitizeValue depth (sanitizeValue depth value) = sanitizeValue depth value
  | .str value => by
    rw [sanitizeValue, sanitizeValue, truncate_of_le (length_truncate_le value (by decide))]
  | .null => rfl
  | .num _ => rfl
  | .bool _ => rfl
  | .arr items => by
    by_cases deep : MAX_METADATA_DEPTH ≤ depth
    · rw [sanitizeValue, if_pos deep, sanitizeValue_truncatedText]
    · have each : (items.map (sanitizeValue (depth + 1))).map (sanitizeValue (depth + 1)) =
          items.map (sanitizeValue (depth + 1)) := by
        rw [List.map_map]
        refine List.map_congr_left fun item member => ?_
        exact sanitizeValue_sanitizeValue (depth + 1) item
      rw [sanitizeValue_arr deep, sanitizeValue_arr deep, map_cut, each,
        sanitizeValue_truncatedText, cut_cut]
  | .obj members => by
    by_cases deep : MAX_METADATA_DEPTH ≤ depth
    · rw [sanitizeValue, if_pos deep, sanitizeValue_truncatedText]
    · rw [sanitizeValue, if_neg deep, sanitizeValue, if_neg deep,
        sanitizeMembers_sanitizeMembers fun member there =>
          sanitizeValue_sanitizeValue (depth + 1) member.2]
termination_by value => sizeOf value
decreasing_by
  · have smaller := List.sizeOf_lt_of_mem member
    simp only [Value.arr.sizeOf_spec]
    omega
  · have smaller := List.sizeOf_lt_of_mem there
    obtain ⟨name, nested⟩ := member
    simp only [Value.obj.sizeOf_spec, Prod.mk.sizeOf_spec] at smaller ⊢
    omega

/-! ## The marker -/

section Marker

variable {numberText : ν → Text} {members : Members ν} {keys : List Text}

theorem markerKeys_sanitizeMembers (depth : Nat) (members : Members ν) :
    markerKeys (sanitizeMembers MAX_METADATA_KEYS depth members) = markerKeys members := by
  rw [markerKeys, markerKeys, sanitizeMembers_eq, List.map_map, ← List.map_take, ← List.map_take,
    List.take_take, Nat.min_self]
  rfl

theorem length_of_mem_markerKeys {key : Text} (member : key ∈ markerKeys members) :
    key.length ≤ MAX_METADATA_STRING_LENGTH := by
  obtain ⟨whole, -, rfl⟩ := List.mem_map.mp member
  have short := length_truncate_le whole (show 0 < MAX_METADATA_MARKER_KEY_LENGTH by decide)
  exact Nat.le_trans short (by decide)

/-- Sanitizing a marker cuts its keys as any array. -/
theorem sanitizeMembers_marker (short : ∀ key ∈ keys, key.length ≤ MAX_METADATA_STRING_LENGTH) :
    sanitizeMembers MAX_METADATA_KEYS 1 (marker keys : Members ν) =
      marker (cut truncatedText keys) := by
  have kept : (keys.map Value.str).map (sanitizeValue 2) = (keys.map Value.str : List (Value ν)) := by
    rw [List.map_map]
    apply List.map_congr_left
    intro key member
    rw [Function.comp_apply, sanitizeValue, truncate_of_le (short key member)]
  rw [sanitizeMembers_eq, marker, marker, map_cut]
  simp only [MAX_METADATA_KEYS, List.take_succ_cons, List.take_nil, List.map_cons, List.map_nil,
    Prod.map, id]
  rw [sanitizeValue_arr (by decide), kept, sanitizeValue, truncate_of_le (by decide)]

theorem serializedBytes_marker :
    serializedBytes numberText (marker keys) =
      40 + (keys.map fun key => byteLength (quote key)).sum + (keys.length - 1) := by
  have error : byteLength (quote (units "error")) = 7 := by decide
  have large : byteLength (quote (units "metadata_too_large")) = 20 := by decide
  have names : byteLength (quote (units "keys")) = 6 := by decide
  have brace : unitBytes 0x7B = 1 := rfl
  have colon : unitBytes 0x3A = 1 := rfl
  have comma : unitBytes 0x2C = 1 := rfl
  have close : byteLength [0x7D] = 1 := rfl
  rw [serializedBytes, marker, stringify, stringify, stringifyMembers, stringifyMembers,
    byteLength_cons (by decide), byteLength_quote_append, byteLength_cons (by decide),
    byteLength_quote_append, byteLength_cons (by decide), byteLength_quote_append,
    byteLength_cons (by decide), byteLength_append_cons (by decide) (by decide),
    byteLength_stringify_strs, error, large, names, brace, colon, comma, byteLength]
  have last : unitBytes 0x7D = 1 := rfl
  omega

theorem sanitizeMetadata_of_small (some' : members ≠ [])
    (small : serializedBytes numberText (sanitizeMembers MAX_METADATA_KEYS 1 members) ≤
      MAX_METADATA_BYTES) :
    sanitizeMetadata numberText (some members) =
      some (sanitizeMembers MAX_METADATA_KEYS 1 members) := by
  cases members with
  | nil => exact absurd rfl some'
  | cons =>
    rw [sanitizeMetadata, if_neg (Nat.not_lt_of_le small)]
    exact some'

theorem sanitizeMetadata_of_large
    (large : MAX_METADATA_BYTES <
      serializedBytes numberText (sanitizeMembers MAX_METADATA_KEYS 1 members)) :
    sanitizeMetadata numberText (some members) = some (marker (markerKeys members)) := by
  cases members with
  | nil =>
    have empty : serializedBytes numberText (sanitizeMembers MAX_METADATA_KEYS 1 []) = 2 := rfl
    exact absurd (empty ▸ large) (by decide)
  | cons =>
    rw [sanitizeMetadata, if_pos large, markerKeys_sanitizeMembers]
    exact List.cons_ne_nil _ _

/-- Metadata that is small once cut is stored as that. -/
theorem bounded_of_small (small : serializedBytes numberText
    (sanitizeMembers MAX_METADATA_KEYS 1 members) ≤ MAX_METADATA_BYTES) :
    Bounded numberText (some members) := by
  by_cases empty : members = []
  · rw [empty]
    exact ⟨nofun, rfl⟩
  · have stored := sanitizeMetadata_of_small empty small
    have again : sanitizeMembers MAX_METADATA_KEYS 1
        (sanitizeMembers MAX_METADATA_KEYS 1 members) =
          sanitizeMembers MAX_METADATA_KEYS 1 members :=
      sanitizeMembers_sanitizeMembers fun member _ => sanitizeValue_sanitizeValue 1 member.2
    rw [Bounded, stored]
    constructor
    · rintro _ ⟨⟩
      exact small
    · have kept : sanitizeMembers MAX_METADATA_KEYS 1 members ≠ [] := by
        obtain ⟨first, rest, rfl⟩ := List.exists_cons_of_ne_nil empty
        exact List.cons_ne_nil _ _
      rw [sanitizeMetadata_of_small kept (again.symm ▸ small), again]

theorem marker_injective {other : List Text} (same : (marker keys : Members ν) = marker other) :
    keys = other := by
  have lists := congrArg Prod.snd (List.cons.inj (List.cons.inj same).2).1
  exact (List.map_inj_right fun _ _ text => Value.str.inj text).mp (Value.arr.inj lists)

/-- A marker is within the bound and kept by a second pass exactly when its keys list well. -/
theorem bounded_marker_iff (short : ∀ key ∈ keys, key.length ≤ MAX_METADATA_STRING_LENGTH) :
    (serializedBytes numberText (marker keys) ≤ MAX_METADATA_BYTES ∧
      sanitizeMetadata numberText (some (marker keys)) = some (marker keys)) ↔ ListsWell keys := by
  have again : sanitizeMembers MAX_METADATA_KEYS 1 (marker keys : Members ν) = _ :=
    sanitizeMembers_marker short
  have listed : (marker keys : Members ν) ≠ [] := List.cons_ne_nil _ _
  rw [ListsWell, ← @serializedBytes_marker _ numberText, ← cut_eq_self_iff]
  refine and_congr_right fun small => ?_
  constructor
  · intro kept
    by_cases small' : serializedBytes numberText (marker (cut truncatedText keys)) ≤
        MAX_METADATA_BYTES
    · rw [sanitizeMetadata_of_small listed (again ▸ small'), again] at kept
      exact marker_injective (Option.some.inj kept)
    · rw [sanitizeMetadata_of_large (again ▸ Nat.lt_of_not_le small')] at kept
      -- the marker of a marker lists two keys, and so few are not cut
      rw [← marker_injective (Option.some.inj kept)]
      rfl
  · intro same
    rw [same] at again
    rw [sanitizeMetadata_of_small listed (again.symm ▸ small), again]

/-- What is stored is within its bound and is kept when it is sanitized again, exactly for the
metadata that is small once cut or whose keys list well in a marker. -/
theorem sanitizeMetadata_bounded_iff (numberText : ν → Text) (metadata : Option (Members ν)) :
    Bounded numberText metadata ↔ Manageable numberText metadata := by
  cases metadata with
  | none => exact iff_of_true ⟨nofun, rfl⟩ nofun
  | some members =>
    by_cases small : serializedBytes numberText (sanitizeMembers MAX_METADATA_KEYS 1 members) ≤
        MAX_METADATA_BYTES
    · refine iff_of_true (bounded_of_small small) ?_
      rintro _ ⟨⟩
      exact Or.inl small
    · have stored := sanitizeMetadata_of_large (Nat.lt_of_not_le small)
      rw [Bounded, stored, Manageable]
      simp only [Option.some.injEq, forall_eq', small, false_or]
      exact bounded_marker_iff fun key => length_of_mem_markerKeys

end Marker

/-! ## A marker that is too large -/

/-- As many keys as are listed, each of as many units as are kept, none of them ASCII. -/
def wideKeys : Members Number :=
  (List.range 32).map fun index =>
    (UInt16.ofNat (0x4E00 + index) :: List.replicate 119 0x4E2D, .null)

theorem not_bounded_wideKeys :
    ¬ ∀ (numberText : Number → Text) (metadata : Option (Members Number)),
      Bounded numberText metadata := by
  intro bounded
  have large : MAX_METADATA_BYTES <
      serializedBytes (fun _ => []) (sanitizeMembers MAX_METADATA_KEYS 1 wideKeys) := by
    decide +kernel
  have exceeds : MAX_METADATA_BYTES <
      serializedBytes (fun _ : Number => []) (marker (markerKeys wideKeys)) := by
    decide +kernel
  have within := (bounded (fun _ => []) (some wideKeys)).1 _ (sanitizeMetadata_of_large large)
  exact Nat.not_lt_of_le within exceeds

end BoothOperator.Audit
