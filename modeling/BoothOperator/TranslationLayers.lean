import BoothOperator.Lib.JsonStrings
import BoothOperator.TranslationText

/-! What normalizing a translation twice does. One call takes at most one layer off a text: a JSON
object of one member, in a fence or not, or a fence around anything but other JSON. The text inside
a layer is shorter, so a second call leaves it alone just when it has no layer of its own. -/
namespace BoothOperator.TranslationText

open BoothOperator.Json (Value parse)

/-- The translation in a JSON object of one member. -/
def wrappedText (value : String) : Option String :=
  match parse value.toList with
  | some (.obj members) =>
    if (Value.keys members).length ≠ 1 then none
    else translationKeys.findSome? fun key =>
      match Value.lookup key members with
      | some (.str text) => if trim text = "" then none else some (trim text)
      | _ => none
  | _ => none

/-- The text is JSON, and no object. -/
def isOtherJson (value : String) : Bool :=
  match parse value.toList with
  | none => false
  | some (.obj _) => false
  | some _ => true

/-- The text in a code fence. -/
def fencedText (value : String) : Option String :=
  (fenceBody value.toList).map fun body => String.ofList (trimChars body)

/-- The text inside the layer of a text, if it has one. -/
def layer (value : String) : Option String :=
  (wrappedText (unwrapCodeFence value)).or
    (if isOtherJson (unwrapCodeFence value) then none else fencedText value)

section Layers

variable {value inner : String}

theorem unwrapCodeFence_eq (value : String) :
    unwrapCodeFence value = (fencedText value).getD value := by
  unfold unwrapCodeFence fencedText
  cases fenceBody value.toList with
  | none => rfl
  | some body => rfl

/-- A call takes one layer off. -/
theorem normalizeTranslationText_eq :
    normalizeTranslationText value = (layer (trim value)).getD (trim value) := by
  have candidate := unwrapCodeFence_eq (trim value)
  unfold normalizeTranslationText layer wrappedText isOtherJson
  simp only
  generalize unwrapCodeFence (trim value) = unwrapped at candidate ⊢
  generalize parse unwrapped.toList = parsed
  rcases parsed with _ | (_ | _ | _ | _ | _ | members)
  case none => exact candidate
  case some.obj =>
    simp only [Bool.false_eq_true, if_false]
    split
    · rw [Option.none_or]
      exact candidate
    · generalize translationKeys.findSome? _ = chosen
      cases chosen with
      | none => exact candidate
      | some text => rfl
  all_goals rfl

theorem length_trim_le (text : String) : (trim text).length ≤ text.length := by
  rw [trim, String.length_ofList]
  exact length_trimChars_le text.toList

theorem length_fencedText_lt (fenced : fencedText value = some inner) :
    inner.length < value.length := by
  obtain ⟨body, found, rfl⟩ := Option.map_eq_some_iff.mp fenced
  rw [String.length_ofList]
  exact Nat.lt_of_le_of_lt (length_trimChars_le body) (length_fenceBody_lt found)

theorem length_unwrapCodeFence_le (value : String) :
    (unwrapCodeFence value).length ≤ value.length := by
  rw [unwrapCodeFence_eq]
  cases fenced : fencedText value with
  | none => exact Nat.le_refl _
  | some inner => exact Nat.le_of_lt (length_fencedText_lt fenced)

theorem lookup_mem {name : String} {members : List (String × Json.Document)} {found : Json.Document}
    (read : Value.lookup name members = some found) : (name, found) ∈ members := by
  unfold Value.lookup at read
  obtain ⟨member, first, rfl⟩ := Option.map_eq_some_iff.mp read
  have same := List.find?_some first
  have among := List.mem_reverse.mp (List.mem_of_find?_eq_some first)
  rwa [← eq_of_beq same]

/-- The translation in an object is shorter than the object's text. -/
theorem length_wrappedText_lt (wrapped : wrappedText value = some inner) :
    inner.length < value.length := by
  unfold wrappedText at wrapped
  split at wrapped
  next members read =>
    split at wrapped
    · cases wrapped
    · obtain ⟨key, -, picked⟩ := List.exists_of_findSome?_eq_some wrapped
      split at picked
      next text found =>
        split at picked
        · cases picked
        · cases picked
          have short : text.length < value.toList.length :=
            Json.parse_short read _ (lookup_mem found)
          rw [String.length_toList] at short
          exact Nat.lt_of_le_of_lt (length_trim_le text) short
      next => cases picked
  next => cases wrapped

theorem length_layer_lt (found : layer value = some inner) : inner.length < value.length := by
  rcases Option.or_eq_some_iff.mp found with wrapped | ⟨-, fenced⟩
  · exact Nat.lt_of_lt_of_le (length_wrappedText_lt wrapped) (length_unwrapCodeFence_le value)
  · split at fenced
    · cases fenced
    · exact length_fencedText_lt fenced

theorem wrappedText_nonblank (wrapped : wrappedText value = some inner) : inner ≠ "" := by
  unfold wrappedText at wrapped
  split at wrapped
  next members _ =>
    split at wrapped
    · cases wrapped
    · obtain ⟨key, -, picked⟩ := List.exists_of_findSome?_eq_some wrapped
      split at picked
      next text _ =>
        split at picked
        · cases picked
        next nonblank =>
          cases picked
          exact nonblank
      next => cases picked
  next => cases wrapped

theorem layer_empty : layer "" = none := by decide

/-- Only an empty fence has nothing in its layer. -/
theorem layer_eq_empty_iff : layer value = some "" ↔ fencedText value = some "" := by
  constructor
  · intro found
    rcases Option.or_eq_some_iff.mp found with wrapped | ⟨-, fenced⟩
    · exact absurd rfl (wrappedText_nonblank wrapped)
    · split at fenced
      · cases fenced
      · exact fenced
  · intro fenced
    have unwrapped : unwrapCodeFence value = "" := by rw [unwrapCodeFence_eq, fenced, Option.getD_some]
    have bare : wrappedText "" = none := by decide
    have text : isOtherJson "" = false := by decide
    rw [layer, unwrapped, bare, text, Option.none_or, if_neg Bool.false_ne_true, fenced]

end Layers

/-- There is a text in it when it is normalized, and when what is left is normalized again: it is
not blank, and neither it nor the text in its layer is an empty fence. -/
def Lasting (value : String) : Prop :=
  trim value ≠ "" ∧ fencedText (trim value) ≠ some "" ∧
    ∀ inner, layer (trim value) = some inner → fencedText inner ≠ some ""

instance (value : String) : Decidable (Lasting value) :=
  inferInstanceAs (Decidable (_ ∧ _ ∧ ∀ inner ∈ layer (trim value), _))

theorem lasting_iff (value : String) :
    Lasting value ↔ normalizeTranslationText (normalizeTranslationText value) ≠ "" := by
  have trimmed := trim_normalizeTranslationText value
  rw [Lasting, normalizeTranslationText_eq, trimmed, normalizeTranslationText_eq]
  cases found : layer (trim value) with
  | none =>
    have unfenced : fencedText (trim value) ≠ some "" := by
      rw [← layer_eq_empty_iff.ne, found]
      exact nofun
    simp [found, unfenced]
  | some inner =>
    have shorter := length_layer_lt found
    have nonblank : trim value ≠ "" := by
      intro blank
      rw [blank] at shorter
      exact absurd shorter (Nat.not_lt_zero _)
    have fenced : fencedText (trim value) = some "" ↔ inner = "" := by
      rw [← layer_eq_empty_iff, found, Option.some.injEq]
    simp only [Option.getD_some, Option.some.injEq, forall_eq', nonblank, Ne, fenced,
      not_false_eq_true, true_and]
    rw [← layer_eq_empty_iff]
    by_cases blank : inner = ""
    · simp [blank, layer_empty]
    · cases again : layer inner with
      | none => simp [blank]
      | some deeper => simp [blank]

/-- A second call changes nothing just when the text inside the layer, if there is one, has no layer
itself. -/
theorem normalizeTranslationText_idempotent_iff (value : String) :
    normalizeTranslationText (normalizeTranslationText value) = normalizeTranslationText value ↔
      ∀ inner, layer (trim value) = some inner → layer inner = none := by
  have trimmed := trim_normalizeTranslationText value
  rw [normalizeTranslationText_eq, trimmed, normalizeTranslationText_eq]
  cases found : layer (trim value) with
  | none =>
    simp [found]
  | some inner =>
    rw [Option.getD_some]
    constructor
    · rintro same _ ⟨⟩
      cases again : layer inner with
      | none => rfl
      | some deeper =>
        rw [again, Option.getD_some] at same
        have shorter := length_layer_lt again
        rw [same] at shorter
        exact absurd shorter (Nat.lt_irrefl _)
    · intro single
      rw [single inner rfl, Option.getD_none]

/-- A fence in a fence: the first call leaves the inner fence. -/
theorem normalizeTranslationText_not_idempotent :
    ¬ ∀ value : String,
      normalizeTranslationText (normalizeTranslationText value) = normalizeTranslationText value := by
  intro idempotent
  have twice := idempotent "```\n```Hello```\n```"
  exact absurd twice (by decide +kernel)

end BoothOperator.TranslationText
