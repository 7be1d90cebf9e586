import Mathlib.Data.List.DropRight
import BoothOperator.Lib.JsonReader

/-! `lib/translation-text.ts`: the text a translation provider returned,
unwrapped from a code fence or a one-member JSON object. Strings are handled as
their characters where the source indexes or matches them. -/
namespace BoothOperator.TranslationText

open BoothOperator.Json (Value parse)

/-- White space and line terminators, as `String.prototype.trim` and `\s` have them. -/
def isJsSpace (c : Char) : Bool :=
  (9 ≤ c.toNat && c.toNat ≤ 13) || c.toNat == 0x20 || c.toNat == 0xA0 || c.toNat == 0x1680 ||
    (0x2000 ≤ c.toNat && c.toNat ≤ 0x200A) || c.toNat == 0x2028 || c.toNat == 0x2029 ||
    c.toNat == 0x202F || c.toNat == 0x205F || c.toNat == 0x3000 || c.toNat == 0xFEFF

def trimChars (text : List Char) : List Char :=
  (text.dropWhile isJsSpace).rdropWhile isJsSpace

/-- `String.prototype.trim`. -/
def trim (text : String) : String := String.ofList (trimChars text.toList)

private theorem dropWhile_of_prefix {p : Char → Bool} {text whole : List Char}
    (shorter : text <+: whole.dropWhile p) : text.dropWhile p = text := by
  cases text with
  | nil => rfl
  | cons c rest =>
    obtain ⟨more, same⟩ := shorter
    have head := List.head?_dropWhile_not p whole
    rw [← same] at head
    simp at head
    simp [List.dropWhile, head]

theorem trimChars_trimChars (text : List Char) : trimChars (trimChars text) = trimChars text := by
  have front : (trimChars text).dropWhile isJsSpace = trimChars text :=
    dropWhile_of_prefix (List.rdropWhile_prefix isJsSpace _)
  conv_lhs => rw [trimChars, front]
  exact List.rdropWhile_idempotent _ _

theorem trimChars_of_unspaced {text : List Char} (unspaced : ∀ c ∈ text, isJsSpace c = false) :
    trimChars text = text := by
  have front : text.dropWhile isJsSpace = text := by
    cases text with
    | nil => rfl
    | cons c rest =>
      rw [List.dropWhile_cons_of_neg (by simp [unspaced c List.mem_cons_self])]
  have back : text.reverse.dropWhile isJsSpace = text.reverse := by
    cases reversed : text.reverse with
    | nil => rfl
    | cons c rest =>
      have member : c ∈ text := List.mem_reverse.mp (reversed ▸ List.mem_cons_self)
      rw [List.dropWhile_cons_of_neg (by simp [unspaced c member])]
  rw [trimChars, front, List.rdropWhile, back, List.reverse_reverse]

@[simp]
theorem trim_trim (text : String) : trim (trim text) = trim text := by
  simp [trim, trimChars_trimChars]

@[simp]
theorem trim_empty : trim "" = "" := rfl

/-- The fence may name its language: `json`, in any case. -/
private def dropJsonTag : List Char → List Char
  | j :: s :: o :: n :: rest =>
    if (j = 'j' ∨ j = 'J') ∧ (s = 's' ∨ s = 'S') ∧ (o = 'o' ∨ o = 'O') ∧ (n = 'n' ∨ n = 'N') then rest
    else j :: s :: o :: n :: rest
  | text => text

private def fence : List Char := ['`', '`', '`']

/-- The group of the fence pattern. What may stand between the opening fence
and the group holds no backtick, so taking all of it never loses the match,
and the lazy group leaves a line feed before the closing fence out. -/
def fenceBody (value : List Char) : Option (List Char) :=
  match value with
  | '`' :: '`' :: '`' :: rest =>
    let inner := (dropJsonTag rest).dropWhile isJsSpace
    if fence.isSuffixOf inner then
      let body := inner.take (inner.length - 3)
      some (if ['\n'].isSuffixOf body then body.dropLast else body)
    else none
  | _ => none

private theorem length_dropJsonTag_le (text : List Char) :
    (dropJsonTag text).length ≤ text.length := by
  unfold dropJsonTag
  split
  · split
    · simp only [List.length_cons]
      omega
    · exact Nat.le_refl _
  · exact Nat.le_refl _

/-- A fence takes its six backticks at least. -/
theorem length_fenceBody_lt {value body : List Char} (fenced : fenceBody value = some body) :
    body.length < value.length := by
  unfold fenceBody at fenced
  split at fenced
  · rename_i rest
    have inner := (List.dropWhile_suffix isJsSpace (l := dropJsonTag rest)).length_le
    have tag := length_dropJsonTag_le rest
    simp only [Option.ite_none_right_eq_some, Option.some.injEq] at fenced
    obtain ⟨-, rfl⟩ := fenced
    simp only [List.length_cons]
    split
    · rw [List.length_dropLast, List.length_take]
      omega
    · rw [List.length_take]
      omega
  · cases fenced

theorem length_trimChars_le (text : List Char) : (trimChars text).length ≤ text.length := by
  have front := (List.dropWhile_suffix isJsSpace (l := text)).length_le
  have back := (List.rdropWhile_prefix isJsSpace (text.dropWhile isJsSpace)).length_le
  exact Nat.le_trans back front

def unwrapCodeFence (value : String) : String :=
  match fenceBody value.toList with
  | some body => String.ofList (trimChars body)
  | none => value

def translationKeys : List String := ["translatedText", "translated_text", "message", "text"]

def normalizeTranslationText (value : String) : String :=
  let trimmed := trim value
  let candidate := unwrapCodeFence trimmed
  match parse candidate.toList with
  | none => candidate
  | some (.obj members) =>
    if (Value.keys members).length ≠ 1 then candidate
    else
      let texts := translationKeys.findSome? fun key =>
        match Value.lookup key members with
        | some (.str text) => if trim text = "" then none else some (trim text)
        | _ => none
      texts.getD candidate
  | some _ => trimmed

@[simp]
theorem trim_unwrapCodeFence (value : String) :
    trim (unwrapCodeFence (trim value)) = unwrapCodeFence (trim value) := by
  unfold unwrapCodeFence
  split
  · simp [trim, trimChars_trimChars]
  · exact trim_trim value

/-- A normalized text has no white space around it. -/
@[simp]
theorem trim_normalizeTranslationText (value : String) :
    trim (normalizeTranslationText value) = normalizeTranslationText value := by
  unfold normalizeTranslationText
  simp only
  split
  · exact trim_unwrapCodeFence value
  · split
    · exact trim_unwrapCodeFence value
    · rename_i members _ _
      cases chosen : translationKeys.findSome? fun key =>
          match Value.lookup key members with
          | some (.str text) => if trim text = "" then none else some (trim text)
          | _ => none with
      | none =>
        rw [Option.getD_none]
        exact trim_unwrapCodeFence value
      | some text =>
        obtain ⟨key, _, picked⟩ := List.exists_of_findSome?_eq_some chosen
        split at picked
        · split at picked
          · cases picked
          · cases picked
            exact trim_trim _
        · cases picked
  · exact trim_trim value

/-- A blank translation normalizes to the empty text. -/
theorem normalizeTranslationText_of_blank {value : String} (blank : trim value = "") :
    normalizeTranslationText value = "" := by
  unfold normalizeTranslationText
  rw [blank]
  decide +kernel

end BoothOperator.TranslationText
