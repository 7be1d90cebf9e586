import Mathlib
import BoothOperator.Lib.Fronts

/-! Language tags as RFC 5646 has them: the shapes of subtags, the tags that are made of them, and
the letter case that is recommended for each part, which changes no shape. -/
namespace BoothOperator.Languages

open BoothOperator.Fronts

abbrev Subtag := List Char

/-! ## Shapes -/

def alpha (subtag : Subtag) : Bool := subtag ≠ [] && subtag.all Char.isAlpha

def alphanumeric (subtag : Subtag) : Bool := subtag ≠ [] && subtag.all Char.isAlphanum

def numeric (subtag : Subtag) : Bool := subtag ≠ [] && subtag.all Char.isDigit

def isLanguage (subtag : Subtag) : Bool :=
  alpha subtag && (2 ≤ subtag.length && subtag.length ≤ 8)

def isExtlang (subtag : Subtag) : Bool := alpha subtag && subtag.length = 3

def isScript (subtag : Subtag) : Bool := alpha subtag && subtag.length = 4

def isRegion (subtag : Subtag) : Bool :=
  (alpha subtag && subtag.length = 2) || (numeric subtag && subtag.length = 3)

def isVariant (subtag : Subtag) : Bool :=
  (alphanumeric subtag && (5 ≤ subtag.length && subtag.length ≤ 8)) ||
    (alphanumeric subtag && subtag.length = 4 && (subtag.take 1).all Char.isDigit)

def lower (text : List Char) : List Char := text.map Char.toLower

/-- The mark of a private use, in either case. -/
def isMark (subtag : Subtag) : Bool := lower subtag = ['x']

def isSingleton (subtag : Subtag) : Bool :=
  alphanumeric subtag && subtag.length = 1 && !isMark subtag

def isExtensionPart (subtag : Subtag) : Bool :=
  alphanumeric subtag && (2 ≤ subtag.length && subtag.length ≤ 8)

def isPart (subtag : Subtag) : Bool :=
  alphanumeric subtag && (1 ≤ subtag.length && subtag.length ≤ 8)

/-! ## Tags -/

/-- The mark and at least one part. -/
def IsPrivateUse (subtags : List Subtag) : Prop :=
  ∃ mark parts, subtags = mark :: parts ∧ isMark mark = true ∧ parts ≠ [] ∧
    ∀ part ∈ parts, isPart part = true

/-- A `langtag`: its parts, each well formed, without duplicate variants or singletons. -/
structure Langtag where
  language : Subtag
  extlangs : List Subtag
  script : List Subtag
  region : List Subtag
  variants : List Subtag
  extensions : List (Subtag × List Subtag)
  privateUse : List Subtag
  isLanguage : isLanguage language = true
  isExtlang : ∀ extlang ∈ extlangs, isExtlang extlang = true
  /-- Only a language of two or three letters has extended ones, three at most. -/
  extended : extlangs = [] ∨ language.length ≤ 3 ∧ extlangs.length ≤ 3
  isScript : ∀ subtag ∈ script, isScript subtag = true
  oneScript : script.length ≤ 1
  isRegion : ∀ subtag ∈ region, isRegion subtag = true
  oneRegion : region.length ≤ 1
  isVariant : ∀ variant ∈ variants, isVariant variant = true
  distinctVariants : (variants.map lower).Nodup
  isSingleton : ∀ extension ∈ extensions, isSingleton extension.1 = true
  hasParts : ∀ extension ∈ extensions, extension.2 ≠ []
  isExtensionPart : ∀ extension ∈ extensions, ∀ part ∈ extension.2, isExtensionPart part = true
  distinctSingletons : (extensions.map fun extension => lower extension.1).Nodup
  isPrivateUse : privateUse = [] ∨ IsPrivateUse privateUse

/-- The subtags of extensions, each after its singleton. -/
def extensionSubtags (extensions : List (Subtag × List Subtag)) : List Subtag :=
  extensions.flatMap fun extension => extension.1 :: extension.2

namespace Langtag

/-- The subtags after the language. -/
def tail (tag : Langtag) : List Subtag :=
  tag.extlangs ++ (tag.script ++ (tag.region ++
    (tag.variants ++ (extensionSubtags tag.extensions ++ tag.privateUse))))

def subtags (tag : Langtag) : List Subtag := tag.language :: tag.tail

end Langtag

/-- The text of subtags. -/
def join (subtags : List Subtag) : List Char := ['-'].intercalate subtags

/-! ## Letter case -/

section Case

variable {c : Char} {subtag other : Subtag}

theorem isDigit_toLower (c : Char) : c.toLower.isDigit = c.isDigit := by
  grind [Char.toLower, Char.isDigit]

theorem isAlphanum_toLower (c : Char) : c.toLower.isAlphanum = c.isAlphanum := by
  rw [Char.isAlphanum, Char.isAlphanum, Char.isAlpha_toLower_eq_isAlpha, isDigit_toLower]

theorem lower_lower (text : List Char) : lower (lower text) = lower text := by
  simp [lower]

@[simp] theorem length_lower (text : List Char) : (lower text).length = text.length :=
  List.length_map _

theorem all_lower {test : Char → Bool} (kept : ∀ c : Char, test c.toLower = test c)
    (text : List Char) : (lower text).all test = text.all test := by
  rw [lower, List.all_map]
  exact congrArg text.all (funext kept)

@[simp] theorem lower_eq_nil (text : List Char) : lower text = [] ↔ text = [] := List.map_eq_nil_iff

@[simp] theorem alpha_lower (subtag : Subtag) : alpha (lower subtag) = alpha subtag := by
  simp [alpha, all_lower Char.isAlpha_toLower_eq_isAlpha]

@[simp] theorem alphanumeric_lower (subtag : Subtag) :
    alphanumeric (lower subtag) = alphanumeric subtag := by
  simp [alphanumeric, all_lower isAlphanum_toLower]

@[simp] theorem numeric_lower (subtag : Subtag) : numeric (lower subtag) = numeric subtag := by
  simp [numeric, all_lower isDigit_toLower]

@[simp] theorem isVariant_lower (subtag : Subtag) :
    isVariant (lower subtag) = isVariant subtag := by
  have first : ((lower subtag).take 1).all Char.isDigit = (subtag.take 1).all Char.isDigit := by
    rw [lower, ← List.map_take]
    exact all_lower isDigit_toLower _
  simp [isVariant, first]

@[simp] theorem isMark_lower (subtag : Subtag) : isMark (lower subtag) = isMark subtag := by
  rw [isMark, isMark, lower_lower]

/-- Subtags that differ in case only have the same shape. -/
theorem shape_of_lower {shape : Subtag → Bool} (kept : ∀ subtag, shape (lower subtag) = shape subtag)
    (same : lower subtag = lower other) : shape subtag = shape other := by
  rw [← kept subtag, same, kept]

def upper (text : List Char) : List Char := text.map Char.toUpper

def titleCase : Subtag → Subtag
  | [] => []
  | first :: rest => first.toUpper :: lower rest

theorem lower_upper (text : List Char) : lower (upper text) = lower text := by
  simp [lower, upper]

theorem upper_lower (text : List Char) : upper (lower text) = upper text := by
  simp [lower, upper]

theorem upper_upper (text : List Char) : upper (upper text) = upper text := by
  rw [← upper_lower (upper text), lower_upper, upper_lower]

theorem lower_titleCase (subtag : Subtag) : lower (titleCase subtag) = lower subtag := by
  cases subtag <;> simp [titleCase, lower]

theorem titleCase_lower (subtag : Subtag) : titleCase (lower subtag) = titleCase subtag := by
  cases subtag <;> simp [titleCase, lower]

theorem titleCase_titleCase (subtag : Subtag) : titleCase (titleCase subtag) = titleCase subtag := by
  rw [← titleCase_lower (titleCase subtag), lower_titleCase, titleCase_lower]

/-- What holds of subtags holds of them in another case. -/
theorem shape_map {shape : Subtag → Bool} {recase : Subtag → Subtag}
    (kept : ∀ subtag, shape (lower subtag) = shape subtag)
    (cased : ∀ subtag, lower (recase subtag) = lower subtag) {subtags : List Subtag}
    (all : ∀ subtag ∈ subtags, shape subtag = true) :
    ∀ subtag ∈ subtags.map recase, shape subtag = true := by
  intro subtag member
  obtain ⟨before, there, rfl⟩ := List.mem_map.mp member
  exact (shape_of_lower kept (cased before)).trans (all before there)

theorem isPrivateUse_map {subtags : List Subtag} (isPrivateUse : IsPrivateUse subtags) :
    IsPrivateUse (subtags.map lower) := by
  obtain ⟨mark, parts, rfl, marked, some', all⟩ := isPrivateUse
  refine ⟨lower mark, parts.map lower, rfl, (isMark_lower mark).trans marked, ?_, ?_⟩
  · simpa using some'
  · exact shape_map (by simp [isPart]) lower_lower all

end Case

/-! ## Shapes apart -/

section Apart

variable {subtag : Subtag}

theorem alphanumeric_of_alpha (letters : alpha subtag = true) : alphanumeric subtag = true := by
  simp_all [alpha, alphanumeric, Char.isAlphanum]

theorem alphanumeric_of_numeric (digits : numeric subtag = true) : alphanumeric subtag = true := by
  simp_all [numeric, alphanumeric, Char.isAlphanum]

theorem not_isDigit_of_isAlpha {c : Char} (letter : c.isAlpha = true) : c.isDigit = false := by
  grind [Char.isAlpha, Char.isUpper, Char.isLower, Char.isDigit]

/-- A text of letters begins with no digit. -/
theorem first_of_alpha (letters : alpha subtag = true) :
    (subtag.take 1).all Char.isDigit = false ∧ numeric subtag = false := by
  cases subtag with
  | nil => simp [alpha] at letters
  | cons first rest =>
    have letter : first.isAlpha = true := by
      simp only [alpha, List.all_cons, Bool.and_eq_true] at letters
      exact letters.2.1
    simp [numeric, not_isDigit_of_isAlpha letter]

/-- A mark or a singleton is of one character, so that it is nothing that may stand before. -/
theorem apart_of_length_one (one : subtag.length = 1) :
    isExtlang subtag = false ∧ isScript subtag = false ∧ isRegion subtag = false ∧
      isVariant subtag = false ∧ isExtensionPart subtag = false := by
  simp [isExtlang, isScript, isRegion, isVariant, isExtensionPart, one]

theorem length_of_isMark (marked : isMark subtag = true) : subtag.length = 1 := by
  rw [← length_lower, of_decide_eq_true marked]
  rfl

theorem length_of_isSingleton (single : isSingleton subtag = true) : subtag.length = 1 := by
  simp only [isSingleton, Bool.and_eq_true, decide_eq_true_eq] at single
  exact single.1.2

theorem isSingleton_of_isMark (marked : isMark subtag = true) : isSingleton subtag = false := by
  rw [isSingleton, marked, Bool.not_true, Bool.and_false]

theorem apart_of_isVariant (variant : isVariant subtag = true) :
    isExtlang subtag = false ∧ isScript subtag = false ∧ isRegion subtag = false := by
  have long : 4 ≤ subtag.length := by
    simp only [isVariant, Bool.or_eq_true, Bool.and_eq_true, decide_eq_true_eq] at variant
    omega
  have apart : isScript subtag = false := by
    rw [← Bool.not_eq_true]
    intro script
    simp only [isScript, Bool.and_eq_true, decide_eq_true_eq] at script
    simp [isVariant, script.2, (first_of_alpha script.1).1] at variant
  refine ⟨?_, apart, ?_⟩
  · have other : subtag.length ≠ 3 := by omega
    simp [isExtlang, other]
  · have other : subtag.length ≠ 2 ∧ subtag.length ≠ 3 := by omega
    simp [isRegion, other]

theorem apart_of_isRegion (region : isRegion subtag = true) :
    isExtlang subtag = false ∧ isScript subtag = false := by
  have short : subtag.length ≠ 4 := by
    simp only [isRegion, Bool.or_eq_true, Bool.and_eq_true, decide_eq_true_eq] at region
    omega
  refine ⟨?_, by simp [isScript, short]⟩
  rw [← Bool.not_eq_true]
  intro extlang
  simp only [isExtlang, Bool.and_eq_true, decide_eq_true_eq] at extlang
  simp [isRegion, extlang.2, (first_of_alpha extlang.1).2] at region

theorem apart_of_isScript (script : isScript subtag = true) : isExtlang subtag = false := by
  simp only [isScript, Bool.and_eq_true, decide_eq_true_eq] at script
  simp [isExtlang, script.2]

/-- Every shape is one of up to eight letters and digits. -/
theorem isPart_of_shape (shape : isLanguage subtag = true ∨ isExtlang subtag = true ∨
    isScript subtag = true ∨ isRegion subtag = true ∨ isVariant subtag = true ∨
    isSingleton subtag = true ∨ isExtensionPart subtag = true) : isPart subtag = true := by
  have letters : alpha subtag = true → alphanumeric subtag = true := alphanumeric_of_alpha
  have digits : numeric subtag = true → alphanumeric subtag = true := alphanumeric_of_numeric
  simp only [isLanguage, isExtlang, isScript, isRegion, isVariant, isSingleton, isExtensionPart,
    isPart, Bool.and_eq_true, Bool.or_eq_true, decide_eq_true_eq] at shape ⊢
  grind

theorem isPart_of_isMark (marked : isMark subtag = true) : isPart subtag = true := by
  have one := length_of_isMark marked
  have alphanumeric : alphanumeric subtag = true := by
    rw [← alphanumeric_lower, of_decide_eq_true marked]
    decide
  simp [isPart, one, alphanumeric]

theorem isPart_of_isPrivateUse {subtags : List Subtag} (isPrivateUse : IsPrivateUse subtags) :
    ∀ subtag ∈ subtags, isPart subtag = true := by
  obtain ⟨mark, parts, rfl, marked, -, all⟩ := isPrivateUse
  exact List.forall_mem_cons.mpr ⟨isPart_of_isMark marked, all⟩

theorem Langtag.isPart_of_mem (tag : Langtag) : ∀ subtag ∈ tag.subtags, isPart subtag = true := by
  intro subtag member
  simp only [Langtag.subtags, Langtag.tail, extensionSubtags, List.mem_cons, List.mem_append,
    List.mem_flatMap] at member
  rcases member with rfl | extlang | script | region | variant |
    ⟨extension, there, rfl | part⟩ | privateUse
  · exact isPart_of_shape (by simp [tag.isLanguage])
  · exact isPart_of_shape (by simp [tag.isExtlang _ extlang])
  · exact isPart_of_shape (by simp [tag.isScript _ script])
  · exact isPart_of_shape (by simp [tag.isRegion _ region])
  · exact isPart_of_shape (by simp [tag.isVariant _ variant])
  · exact isPart_of_shape (by simp [tag.isSingleton _ there])
  · exact isPart_of_shape (by simp [tag.isExtensionPart _ there _ part])
  · rcases tag.isPrivateUse with none' | isPrivateUse
    · rw [none'] at privateUse
      cases privateUse
    · exact isPart_of_isPrivateUse isPrivateUse subtag privateUse

end Apart

/-! ## The recommended case -/

namespace Langtag

/-- The tag in the case that is recommended for its parts. -/
def canonical (tag : Langtag) : Langtag where
  language := lower tag.language
  extlangs := tag.extlangs.map lower
  script := tag.script.map titleCase
  region := tag.region.map upper
  variants := tag.variants.map lower
  extensions := tag.extensions.map fun extension => (lower extension.1, extension.2.map lower)
  privateUse := tag.privateUse.map lower
  isLanguage := by simpa [Languages.isLanguage] using tag.isLanguage
  isExtlang := shape_map (by simp [Languages.isExtlang]) lower_lower tag.isExtlang
  extended := by simpa using tag.extended
  isScript := shape_map (by simp [Languages.isScript]) lower_titleCase tag.isScript
  oneScript := by simpa using tag.oneScript
  isRegion := shape_map (by simp [Languages.isRegion]) lower_upper tag.isRegion
  oneRegion := by simpa using tag.oneRegion
  isVariant := shape_map isVariant_lower lower_lower tag.isVariant
  distinctVariants := by simpa [Function.comp_def, lower_lower] using tag.distinctVariants
  isSingleton := by
    intro extension member
    obtain ⟨before, there, rfl⟩ := List.mem_map.mp member
    exact (shape_of_lower (by simp [Languages.isSingleton]) (lower_lower before.1)).trans
      (tag.isSingleton before there)
  hasParts := by
    intro extension member
    obtain ⟨before, there, rfl⟩ := List.mem_map.mp member
    simpa using tag.hasParts before there
  isExtensionPart := by
    intro extension member
    obtain ⟨before, there, rfl⟩ := List.mem_map.mp member
    exact shape_map (by simp [Languages.isExtensionPart]) lower_lower
      (tag.isExtensionPart before there)
  distinctSingletons := by simpa [Function.comp_def, lower_lower] using tag.distinctSingletons
  isPrivateUse := tag.isPrivateUse.imp (fun none' => by rw [none', List.map_nil]) isPrivateUse_map

theorem map_lower_canonical (tag : Langtag) :
    tag.canonical.subtags.map lower = tag.subtags.map lower := by
  simp [subtags, tail, canonical, extensionSubtags, Function.comp_def, lower_lower, lower_titleCase,
    lower_upper, List.map_flatMap, List.flatMap_map]

theorem canonical_canonical (tag : Langtag) :
    tag.canonical.canonical.subtags = tag.canonical.subtags := by
  simp [subtags, tail, canonical, extensionSubtags, Function.comp_def, lower_lower,
    titleCase_titleCase, upper_upper, List.flatMap_map]

end Langtag

end BoothOperator.Languages
