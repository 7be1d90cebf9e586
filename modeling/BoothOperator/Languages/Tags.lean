import BoothOperator.Events.Batch
import BoothOperator.TranslationText
import BoothOperator.Languages.Grammar

/-! `canonicalizeBcp47LanguageTag` of the shared package: it accepts the language tags of RFC 5646,
and brings those that `Intl` refuses to the recommended case. -/
namespace BoothOperator.Languages

open BoothOperator.Events (utf16Length)
open BoothOperator.Fronts
open BoothOperator.TranslationText (trim trimChars_of_unspaced)

def GRANDFATHERED_LANGUAGE_TAGS : List (String × String) :=
  [("art-lojban", "jbo"), ("cel-gaulish", "xtg-x-cel-gaulish"), ("en-gb-oed", "en-GB-oxendict"),
    ("i-ami", "ami"), ("i-bnn", "bnn"), ("i-default", "i-default"), ("i-enochian", "i-enochian"),
    ("i-hak", "hak"), ("i-klingon", "tlh"), ("i-lux", "lb"), ("i-mingo", "i-mingo"),
    ("i-navajo", "nv"), ("i-pwn", "pwn"), ("i-tao", "tao"), ("i-tay", "tay"), ("i-tsu", "tsu"),
    ("no-bok", "nb"), ("no-nyn", "nn"), ("sgn-be-fr", "sfb"), ("sgn-be-nl", "vgt"),
    ("sgn-ch-de", "sgg"), ("zh-guoyu", "cmn"), ("zh-hakka", "hak"), ("zh-min", "zh-min"),
    ("zh-min-nan", "nan"), ("zh-xiang", "hsn")]

/-- `/^[A-Za-z0-9-]+$/`, of each character. -/
def isTagChar (c : Char) : Bool := c.isAlphanum || c = '-'

/-- The test of the first subtag: `[A-Za-z]{2,3}`, `[A-Za-z]{4}` or `[A-Za-z]{5,8}`. -/
def isPrimary (language : Subtag) : Bool :=
  (alpha language && (2 ≤ language.length && language.length ≤ 3) && language.length ≤ 3) ||
    (alpha language && language.length = 4) ||
    (alpha language && (5 ≤ language.length && language.length ≤ 8))

def regionCase (region : Subtag) : Subtag := if alpha region then upper region else region

/-! ## The reader

Each loop returns the subtags it pushed, and those it left. -/

def readVariants (seen : List Subtag) : List Subtag → Option (List Subtag × List Subtag)
  | [] => some ([], [])
  | subtag :: rest =>
    if isVariant subtag then
      if lower subtag ∈ seen then none
      else (readVariants (lower subtag :: seen) rest).map fun read =>
        (lower subtag :: read.1, read.2)
    else some ([], subtag :: rest)

def readExtensions (seen : List Subtag) : List Subtag → Option (List Subtag × List Subtag)
  | [] => some ([], [])
  | subtag :: rest =>
    if isSingleton subtag then
      if lower subtag ∈ seen then none
      else if rest.takeWhile isExtensionPart = [] then none
      else (readExtensions (lower subtag :: seen) (rest.dropWhile isExtensionPart)).map fun read =>
        (lower subtag :: (rest.takeWhile isExtensionPart).map lower ++ read.1, read.2)
    else some ([], subtag :: rest)
termination_by subtags => subtags.length
decreasing_by exact Nat.lt_succ_of_le (List.dropWhile_suffix _).length_le

def readPrivateUse : List Subtag → Option (List Subtag × List Subtag)
  | [] => some ([], [])
  | subtag :: rest =>
    if lower subtag = ['x'] then
      if rest.takeWhile isPart = [] then none
      else some (['x'] :: (rest.takeWhile isPart).map lower, rest.dropWhile isPart)
    else some ([], subtag :: rest)

/-- The canonical subtags of a tag that does not begin with `x`. -/
def readLangtag : List Subtag → Option (List Subtag)
  | [] => none
  | language :: rest =>
    if isPrimary language then
      let extlangs := if language.length ≤ 3 then readUpTo isExtlang 3 rest else ([], rest)
      let script := readUpTo isScript 1 extlangs.2
      let region := readUpTo isRegion 1 script.2
      (readVariants [] region.2).bind fun variants =>
        (readExtensions [] variants.2).bind fun extensions =>
          (readPrivateUse extensions.2).bind fun privateUse =>
            if privateUse.2 = [] then
              some (lower language :: (extlangs.1.map lower ++ (script.1.map titleCase ++
                (region.1.map regionCase ++ (variants.1 ++ (extensions.1 ++ privateUse.1))))))
            else none
    else none

def canonicalizeBcp47LanguageTag (getCanonicalLocales : String → Option (List String))
    (value : String) : Option String :=
  let tag := trim value
  if utf16Length tag = 0 ∨ 64 < utf16Length tag ∨ tag.toList.all isTagChar = false then none
  else match GRANDFATHERED_LANGUAGE_TAGS.lookup (String.ofList (lower tag.toList)) with
    | some grandfathered => some grandfathered
    | none =>
      let subtags := tag.toList.splitOn '-'
      if subtags.any fun subtag =>
          subtag.length = 0 || 8 < subtag.length || !alphanumeric subtag then none
      else if subtags.head?.map lower = some ['x'] then
        if 1 < subtags.length then some (String.ofList (join (['x'] :: subtags.tail.map lower)))
        else none
      else (readLangtag subtags).bind fun canonicalSubtags =>
        match getCanonicalLocales tag with
        | some locales => locales.head?
        | none => some (String.ofList (join canonicalSubtags))

/-! ## Well formed tags are read -/

section Completeness

variable {seen variants rest parts : List Subtag} {extensions : List (Subtag × List Subtag)}
  {subtag : Subtag} {subtags : List Subtag}

theorem readVariants_of_stops (seen : List Subtag) (stops : Stops isVariant rest) :
    readVariants seen rest = some ([], rest) := by
  cases rest with
  | nil => rfl
  | cons subtag rest => rw [readVariants, if_neg (by simp [stops subtag rfl])]

theorem readVariants_append (shaped : ∀ variant ∈ variants, isVariant variant = true)
    (distinct : (variants.map lower).Nodup) (fresh : (variants.map lower).Disjoint seen)
    (stops : Stops isVariant rest) :
    readVariants seen (variants ++ rest) = some (variants.map lower, rest) := by
  induction variants generalizing seen with
  | nil => exact readVariants_of_stops seen stops
  | cons variant variants ih =>
    obtain ⟨first, later⟩ := List.forall_mem_cons.mp shaped
    obtain ⟨unseen, freshLater⟩ := List.disjoint_cons_left.mp fresh
    obtain ⟨other, distinctLater⟩ := List.nodup_cons.mp distinct
    have others := List.disjoint_cons_right.mpr ⟨other, freshLater⟩
    rw [List.cons_append, readVariants, if_pos first, if_neg unseen, ih later distinctLater others]
    rfl

theorem readExtensions_of_stops (seen : List Subtag) (stops : Stops isSingleton rest) :
    readExtensions seen rest = some ([], rest) := by
  cases rest with
  | nil => rw [readExtensions]
  | cons subtag rest => rw [readExtensions, if_neg (by simp [stops subtag rfl])]

/-- What begins no extension part may follow extensions, or the parts of one. -/
theorem stops_extensionSubtags {shape : Subtag → Bool}
    (apart : ∀ subtag, subtag.length = 1 → shape subtag = false)
    (single : ∀ extension ∈ extensions, isSingleton extension.1 = true) (stops : Stops shape rest) :
    Stops shape (extensionSubtags extensions ++ rest) := by
  cases extensions with
  | nil => exact stops
  | cons extension extensions =>
    exact stops_cons (apart _ (length_of_isSingleton (single extension List.mem_cons_self)))

theorem readExtensions_append
    (single : ∀ extension ∈ extensions, isSingleton extension.1 = true)
    (some' : ∀ extension ∈ extensions, extension.2 ≠ [])
    (shaped : ∀ extension ∈ extensions, ∀ part ∈ extension.2, isExtensionPart part = true)
    (distinct : (extensions.map fun extension => lower extension.1).Nodup)
    (fresh : (extensions.map fun extension => lower extension.1).Disjoint seen)
    (stops : Stops isSingleton rest) (ends : Stops isExtensionPart rest) :
    readExtensions seen (extensionSubtags extensions ++ rest) =
      some ((extensionSubtags extensions).map lower, rest) := by
  induction extensions generalizing seen with
  | nil => exact readExtensions_of_stops seen stops
  | cons extension extensions ih =>
    obtain ⟨first, later⟩ := List.forall_mem_cons.mp single
    obtain ⟨unseen, freshLater⟩ := List.disjoint_cons_left.mp fresh
    obtain ⟨other, distinctLater⟩ := List.nodup_cons.mp distinct
    obtain ⟨parts, partsLater⟩ := List.forall_mem_cons.mp shaped
    obtain ⟨any, anyLater⟩ := List.forall_mem_cons.mp some'
    have others := List.disjoint_cons_right.mpr ⟨other, freshLater⟩
    have after := stops_extensionSubtags (fun _ one => (apart_of_length_one one).2.2.2.2) later ends
    have whole : extensionSubtags (extension :: extensions) ++ rest =
        extension.1 :: (extension.2 ++ (extensionSubtags extensions ++ rest)) := by
      simp [extensionSubtags]
    rw [whole, readExtensions, if_pos first, if_neg unseen, takeWhile_append parts after, if_neg any,
      dropWhile_append parts after, ih later anyLater partsLater distinctLater others]
    simp [extensionSubtags]

theorem readPrivateUse_isPrivateUse (privateUse : subtags = [] ∨ IsPrivateUse subtags) :
    readPrivateUse subtags = some (subtags.map lower, []) := by
  rcases privateUse with rfl | ⟨mark, parts, rfl, marked, any, shaped⟩
  · rfl
  · have lowered : lower mark = ['x'] := of_decide_eq_true marked
    have taken : (parts ++ []).takeWhile isPart = parts := takeWhile_append shaped stops_nil
    have left : (parts ++ []).dropWhile isPart = [] := dropWhile_append shaped stops_nil
    rw [List.append_nil] at taken left
    rw [readPrivateUse, if_pos lowered, taken, if_neg any, left, List.map_cons, lowered]

theorem isPrimary_eq (language : Subtag) : isPrimary language = isLanguage language := by
  rw [Bool.eq_iff_iff]
  simp only [isPrimary, isLanguage, Bool.or_eq_true, Bool.and_eq_true, decide_eq_true_eq]
  constructor
  · rintro ((⟨⟨letters, bounds⟩, -⟩ | ⟨letters, four⟩) | ⟨letters, bounds⟩)
    all_goals exact ⟨letters, by omega⟩
  · rintro ⟨letters, bounds⟩
    simp only [letters, true_and]
    omega

theorem regionCase_eq {region : Subtag} (shaped : isRegion region = true) :
    regionCase region = upper region := by
  rw [regionCase]
  split
  next => rfl
  next figures =>
    have digits : ∀ c ∈ region, c.isDigit = true := by
      simp only [isRegion, figures, numeric, Bool.false_and, Bool.false_or, Bool.and_eq_true,
        List.all_eq_true] at shaped
      exact shaped.1.2
    have caseless : ∀ c : Char, c.isDigit = true → c.toUpper = c := by
      grind [Char.isDigit, Char.toUpper]
    have same : upper region = region.map id :=
      List.map_congr_left fun c member => caseless c (digits c member)
    rw [same, List.map_id]

theorem stops_privateUse {shape : Subtag → Bool}
    (apart : ∀ subtag, isMark subtag = true → shape subtag = false)
    (privateUse : subtags = [] ∨ IsPrivateUse subtags) : Stops shape subtags := by
  rcases privateUse with rfl | ⟨mark, parts, rfl, marked, -⟩
  · exact stops_nil
  · exact stops_cons (apart mark marked)

/-- What follows the variants begins with a subtag of one character. -/
theorem Langtag.stops_extensions (tag : Langtag) {shape : Subtag → Bool}
    (apart : ∀ subtag, subtag.length = 1 → shape subtag = false) :
    Stops shape (extensionSubtags tag.extensions ++ tag.privateUse) :=
  stops_extensionSubtags apart tag.isSingleton
    (stops_privateUse (fun subtag marked => apart subtag (length_of_isMark marked)) tag.isPrivateUse)

theorem readLangtag_subtags (tag : Langtag) :
    readLangtag tag.subtags = some tag.canonical.subtags := by
  have one := @apart_of_length_one
  have atVariants := tag.stops_extensions fun _ single => (one single).2.2.2.1
  have atRegion : Stops isRegion (tag.variants ++ _) :=
    Stops.append (fun _ member => (apart_of_isVariant (tag.isVariant _ member)).2.2)
      (tag.stops_extensions fun _ single => (one single).2.2.1)
  have atScript : Stops isScript (tag.region ++ (tag.variants ++ _)) :=
    Stops.append (fun _ member => (apart_of_isRegion (tag.isRegion _ member)).2)
      (Stops.append (fun _ member => (apart_of_isVariant (tag.isVariant _ member)).2.1)
        (tag.stops_extensions fun _ single => (one single).2.1))
  have atExtlangs : Stops isExtlang (tag.script ++ (tag.region ++ (tag.variants ++ _))) :=
    Stops.append (fun _ member => apart_of_isScript (tag.isScript _ member))
      (Stops.append (fun _ member => (apart_of_isRegion (tag.isRegion _ member)).1)
        (Stops.append (fun _ member => (apart_of_isVariant (tag.isVariant _ member)).1)
          (tag.stops_extensions fun _ single => (one single).1)))
  have extlangs : (if tag.language.length ≤ 3 then readUpTo isExtlang 3 tag.tail else ([], tag.tail)) =
      (tag.extlangs, tag.script ++ (tag.region ++ (tag.variants ++
        (extensionSubtags tag.extensions ++ tag.privateUse)))) := by
    split
    next short =>
      refine readUpTo_append tag.isExtlang ?_ atExtlangs
      rcases tag.extended with none' | few
      · simp [none']
      · exact few.2
    next long =>
      rw [Langtag.tail, tag.extended.resolve_right fun few => long few.1]
      rfl
  have variants := readVariants_append tag.isVariant tag.distinctVariants
    (List.disjoint_nil_right _) atVariants
  have extensions := readExtensions_append tag.isSingleton tag.hasParts tag.isExtensionPart
    tag.distinctSingletons (List.disjoint_nil_right _)
    (stops_privateUse (fun _ => isSingleton_of_isMark) tag.isPrivateUse)
    (stops_privateUse (fun _ marked => (one (length_of_isMark marked)).2.2.2.2) tag.isPrivateUse)
  have privateUse := readPrivateUse_isPrivateUse tag.isPrivateUse
  have regions : tag.region.map regionCase = tag.region.map upper :=
    List.map_congr_left fun _ member => regionCase_eq (tag.isRegion _ member)
  rw [Langtag.subtags, readLangtag, if_pos ((isPrimary_eq _).trans tag.isLanguage), extlangs]
  simp only [readUpTo_append tag.isScript tag.oneScript atScript,
    readUpTo_append tag.isRegion tag.oneRegion atRegion, variants, extensions, privateUse, regions,
    Option.bind_some, if_true]
  simp [Langtag.subtags, Langtag.tail, Langtag.canonical, extensionSubtags, List.map_flatMap,
    List.flatMap_map]

end Completeness

/-! ## What is read is well formed -/

section Soundness

variable {seen subtags canonical : List Subtag} {read : List Subtag × List Subtag}

theorem readVariants_sound (reads : readVariants seen subtags = some read) :
    ∃ variants, subtags = variants ++ read.2 ∧ (∀ variant ∈ variants, isVariant variant = true) ∧
      (variants.map lower).Nodup ∧ (variants.map lower).Disjoint seen := by
  fun_induction readVariants seen subtags generalizing read with
  | case1 seen =>
    cases reads
    exact ⟨[], rfl, nofun, List.nodup_nil, List.disjoint_nil_left seen⟩
  | case2 => cases reads
  | case3 seen subtag rest shaped unseen ih =>
    obtain ⟨later, readsLater, rfl⟩ := Option.map_eq_some_iff.mp reads
    obtain ⟨variants, rfl, variantsShaped, distinct, fresh⟩ := ih readsLater
    obtain ⟨other, freshLater⟩ := List.disjoint_cons_right.mp fresh
    exact ⟨subtag :: variants, rfl, List.forall_mem_cons.mpr ⟨shaped, variantsShaped⟩,
      List.nodup_cons.mpr ⟨other, distinct⟩, List.disjoint_cons_left.mpr ⟨unseen, freshLater⟩⟩
  | case4 seen subtag rest stops =>
    cases reads
    exact ⟨[], rfl, nofun, List.nodup_nil, List.disjoint_nil_left seen⟩

theorem readExtensions_sound (reads : readExtensions seen subtags = some read) :
    ∃ extensions, subtags = extensionSubtags extensions ++ read.2 ∧
      (∀ extension ∈ extensions, isSingleton extension.1 = true) ∧
      (∀ extension ∈ extensions, extension.2 ≠ []) ∧
      (∀ extension ∈ extensions, ∀ part ∈ extension.2, isExtensionPart part = true) ∧
      (extensions.map fun extension => lower extension.1).Nodup ∧
      (extensions.map fun extension => lower extension.1).Disjoint seen := by
  fun_induction readExtensions seen subtags generalizing read with
  | case1 seen =>
    cases reads
    exact ⟨[], rfl, nofun, nofun, nofun, List.nodup_nil, List.disjoint_nil_left seen⟩
  | case2 => cases reads
  | case3 => cases reads
  | case4 seen subtag rest single unseen any ih =>
    obtain ⟨later, readsLater, rfl⟩ := Option.map_eq_some_iff.mp reads
    obtain ⟨extensions, whole, singles, anyLater, shaped, distinct, fresh⟩ := ih readsLater
    obtain ⟨other, freshLater⟩ := List.disjoint_cons_right.mp fresh
    refine ⟨(subtag, rest.takeWhile isExtensionPart) :: extensions, ?_,
      List.forall_mem_cons.mpr ⟨single, singles⟩, List.forall_mem_cons.mpr ⟨any, anyLater⟩,
      List.forall_mem_cons.mpr ⟨fun part => List.mem_takeWhile_imp, shaped⟩,
      List.nodup_cons.mpr ⟨other, distinct⟩, List.disjoint_cons_left.mpr ⟨unseen, freshLater⟩⟩
    calc subtag :: rest
        = subtag :: (rest.takeWhile isExtensionPart ++ rest.dropWhile isExtensionPart) := by
          rw [List.takeWhile_append_dropWhile]
      _ = _ := by rw [whole]; simp [extensionSubtags]
  | case5 seen subtag rest stops =>
    cases reads
    exact ⟨[], rfl, nofun, nofun, nofun, List.nodup_nil, List.disjoint_nil_left seen⟩

theorem readPrivateUse_sound (reads : readPrivateUse subtags = some read) (all : read.2 = []) :
    subtags = [] ∨ IsPrivateUse subtags := by
  cases subtags with
  | nil => exact .inl rfl
  | cons subtag rest =>
    rw [readPrivateUse] at reads
    split at reads
    next marked =>
      split at reads
      next => cases reads
      next any =>
        cases reads
        have taken : rest.takeWhile isPart = rest := by
          rw [← List.append_nil (rest.takeWhile isPart), ← all, List.takeWhile_append_dropWhile]
        rw [taken] at any
        exact .inr ⟨subtag, rest, rfl, decide_eq_true marked, any,
          fun part member => List.mem_takeWhile_imp (taken.symm ▸ member)⟩
    next =>
      cases reads
      cases all

theorem readLangtag_sound (reads : readLangtag subtags = some canonical) :
    ∃ tag : Langtag, tag.subtags = subtags := by
  cases subtags with
  | nil => cases reads
  | cons language rest =>
    rw [readLangtag] at reads
    split at reads
    case isFalse => cases reads
    case isTrue primary =>
      extract_lets extlangs script region at reads
      obtain ⟨variants, readsVariants, reads⟩ := Option.bind_eq_some_iff.mp reads
      obtain ⟨extensions, readsExtensions, reads⟩ := Option.bind_eq_some_iff.mp reads
      obtain ⟨privateUse, readsPrivateUse, reads⟩ := Option.bind_eq_some_iff.mp reads
      have all : privateUse.2 = [] := by
        split at reads
        next all => exact all
        next => cases reads
      have ofExtlangs : rest = extlangs.1 ++ extlangs.2 ∧
          (∀ extlang ∈ extlangs.1, isExtlang extlang = true) ∧
          (extlangs.1 = [] ∨ language.length ≤ 3 ∧ extlangs.1.length ≤ 3) := by
        dsimp only [extlangs]
        split
        next short =>
          obtain ⟨whole, shaped, few⟩ := readUpTo_spec isExtlang 3 rest
          exact ⟨whole, shaped, .inr ⟨short, few⟩⟩
        next => exact ⟨rfl, nofun, .inl rfl⟩
      obtain ⟨whole, isExtlang, extended⟩ := ofExtlangs
      obtain ⟨ofScript, isScript, oneScript⟩ := readUpTo_spec isScript 1 extlangs.2
      obtain ⟨ofRegion, isRegion, oneRegion⟩ := readUpTo_spec isRegion 1 script.2
      obtain ⟨named, ofVariants, isVariant, distinctVariants, -⟩ := readVariants_sound readsVariants
      obtain ⟨extending, ofExtensions, isSingleton, hasParts, isExtensionPart, distinctSingletons, -⟩ :=
        readExtensions_sound readsExtensions
      exact ⟨{
          language, isExtlang, extended, isScript, oneScript, isRegion, oneRegion, isVariant
          distinctVariants, isSingleton, hasParts, isExtensionPart, distinctSingletons
          extlangs := extlangs.1
          script := script.1
          region := region.1
          variants := named
          extensions := extending
          privateUse := extensions.2
          isLanguage := (isPrimary_eq language).symm.trans primary
          isPrivateUse := readPrivateUse_sound readsPrivateUse all },
        congrArg (language :: ·) (by
          rw [Langtag.tail, ← ofExtensions, ← ofVariants, ← ofRegion, ← ofScript, ← whole])⟩

end Soundness

/-! ## Texts of subtags -/

def IsGrandfathered (text : List Char) : Prop :=
  ∃ entry ∈ GRANDFATHERED_LANGUAGE_TAGS, String.ofList (lower text) = entry.1

/-- A well-formed tag: `langtag`, `privateuse` or `grandfathered`. -/
def IsLanguageTag (text : List Char) : Prop :=
  (∃ tag : Langtag, text = join tag.subtags) ∨
    (∃ subtags, IsPrivateUse subtags ∧ text = join subtags) ∨ IsGrandfathered text

/-- The texts have the same subtags up to letter case. -/
def SameSubtags (text other : List Char) : Prop :=
  (text.splitOn '-').map lower = (other.splitOn '-').map lower

section Texts

variable {c : Char} {subtag : Subtag} {subtags canonical : List Subtag} {tag value : String}

theorem isTagChar_toLower (c : Char) : isTagChar c.toLower = isTagChar c := by
  by_cases upper : c.isUpper
  · have letter : c.isAlphanum = true := by simp [Char.isAlphanum, Char.isAlpha, upper]
    rw [isTagChar, isTagChar, isAlphanum_toLower, letter, Bool.true_or, Bool.true_or]
  · rw [Char.toLower_eq_of_not_isUpper upper]

theorem toNat_of_isTagChar (inTag : isTagChar c = true) : 45 ≤ c.toNat ∧ c.toNat < 128 := by
  simp only [isTagChar, Char.isAlphanum, Char.isAlpha, Char.isUpper, Char.isLower, Char.isDigit,
    Bool.or_eq_true, decide_eq_true_eq, Bool.and_eq_true, UInt32.le_iff_toNat_le] at inTag
  rcases inTag with ((⟨above, below⟩ | ⟨above, below⟩) | ⟨above, below⟩) | rfl
  all_goals first | decide | exact ⟨Nat.le_trans (by decide) above, Nat.lt_of_le_of_lt below (by decide)⟩

theorem unspaced_of_isTagChar (inTag : isTagChar c = true) :
    TranslationText.isJsSpace c = false := by
  have bounds := toNat_of_isTagChar inTag
  grind [TranslationText.isJsSpace]

theorem utf16Length_of_isTagChar (inTag : tag.toList.all isTagChar = true) :
    utf16Length tag = tag.toList.length := by
  have single : ∀ c ∈ tag.toList, (if c.toNat < 0x10000 then 1 else 2) = 1 := by
    intro c member
    have bounds := toNat_of_isTagChar (List.all_eq_true.mp inTag c member)
    exact if_pos (Nat.lt_trans bounds.2 (by decide))
  rw [utf16Length, List.map_congr_left single, List.map_const', List.sum_replicate_nat, Nat.mul_one]

theorem alphanumeric_of_isPart (part : isPart subtag = true) : ∀ c ∈ subtag, c.isAlphanum = true := by
  simp only [isPart, alphanumeric, Bool.and_eq_true, List.all_eq_true] at part
  exact part.1.2

theorem splitOn_join (any : subtags ≠ []) (parts : ∀ subtag ∈ subtags, isPart subtag = true) :
    (join subtags).splitOn '-' = subtags := by
  refine List.splitOn_intercalate '-' (fun subtag member dash => ?_) any
  have letter := alphanumeric_of_isPart (parts subtag member) '-' dash
  revert letter
  decide

theorem mem_join (inside : c ∈ join subtags) : c = '-' ∨ ∃ subtag ∈ subtags, c ∈ subtag := by
  induction subtags with
  | nil => cases inside
  | cons subtag subtags ih =>
    by_cases any : subtags = []
    · rw [any, join, List.intercalate_singleton] at inside
      exact .inr ⟨subtag, List.mem_cons_self, inside⟩
    · rw [join, List.intercalate_cons_of_ne_nil any, List.append_assoc, List.mem_append,
        List.mem_append, List.mem_singleton] at inside
      rcases inside with here | dash | later
      · exact .inr ⟨subtag, List.mem_cons_self, here⟩
      · exact .inl dash
      · exact (ih later).imp_right fun ⟨other, member, there⟩ =>
          ⟨other, List.mem_cons_of_mem subtag member, there⟩

theorem all_isTagChar_join (parts : ∀ subtag ∈ subtags, isPart subtag = true) :
    (join subtags).all isTagChar = true := by
  refine List.all_eq_true.mpr fun c inside => ?_
  rcases mem_join inside with rfl | ⟨subtag, member, there⟩
  · decide
  · rw [isTagChar, alphanumeric_of_isPart (parts subtag member) c there, Bool.true_or]

theorem lower_join (subtags : List Subtag) : lower (join subtags) = join (subtags.map lower) := by
  induction subtags with
  | nil => rfl
  | cons subtag subtags ih =>
    by_cases any : subtags = []
    · rw [any, join, List.intercalate_singleton, List.map_singleton, join,
        List.intercalate_singleton]
    · have anyLower : subtags.map lower ≠ [] := by simpa using any
      rw [join, List.intercalate_cons_of_ne_nil any, List.map_cons, join,
        List.intercalate_cons_of_ne_nil anyLower]
      simp only [join] at ih
      rw [← ih]
      simp [lower]

theorem join_ne_nil (any : subtags ≠ []) (parts : ∀ subtag ∈ subtags, isPart subtag = true) :
    join subtags ≠ [] := by
  intro empty
  have split := splitOn_join any parts
  rw [empty, List.splitOn_nil] at split
  have part := parts [] (split ▸ List.mem_singleton_self [])
  revert part
  decide

theorem admitted (few : utf16Length tag ≤ 64) (any : tag.toList ≠ [])
    (chars : tag.toList.all isTagChar = true) :
    ¬ (utf16Length tag = 0 ∨ 64 < utf16Length tag ∨ tag.toList.all isTagChar = false) := by
  have some' : utf16Length tag ≠ 0 := by
    rw [utf16Length_of_isTagChar chars, ne_eq, List.length_eq_zero_iff]
    exact any
  rw [chars]
  simp only [Bool.true_eq_false, or_false]
  omega

/-- The test that every subtag has to pass before the tag is read. -/
theorem misshapen_eq (subtag : Subtag) :
    (subtag.length = 0 || 8 < subtag.length || !alphanumeric subtag) = !isPart subtag := by
  rw [Bool.eq_iff_iff]
  simp only [isPart, Bool.or_eq_true, Bool.not_eq_true', Bool.and_eq_false_iff, decide_eq_true_eq,
    decide_eq_false_iff_not]
  constructor
  · rintro ((empty | long) | other)
    · exact Or.inr (Or.inl (by omega))
    · exact Or.inr (Or.inr (by omega))
    · exact Or.inl other
  · rintro (other | short | long)
    · exact Or.inr other
    · exact Or.inl (Or.inl (by omega))
    · exact Or.inl (Or.inr (by omega))

/-- A tag that is short enough and not in the table, of these subtags. -/
structure Written (tag : String) (subtags : List Subtag) : Prop where
  text : tag.toList = join subtags
  any : subtags ≠ []
  parts : ∀ subtag ∈ subtags, isPart subtag = true
  few : utf16Length tag ≤ 64
  other : ¬ IsGrandfathered tag.toList

namespace Written

theorem chars (written : Written tag subtags) : tag.toList.all isTagChar = true := by
  rw [written.text]
  exact all_isTagChar_join written.parts

theorem trim_eq (written : Written tag subtags) : trim tag = tag := by
  rw [trim, trimChars_of_unspaced fun c member =>
    unspaced_of_isTagChar (List.all_eq_true.mp written.chars c member), String.ofList_toList]

theorem splitOn (written : Written tag subtags) : tag.toList.splitOn '-' = subtags := by
  rw [written.text, splitOn_join written.any written.parts]

/-- The same subtags in another case. -/
theorem recase (written : Written tag subtags) (same : canonical.map lower = subtags.map lower) :
    Written (String.ofList (join canonical)) canonical := by
  have lowered : lower (join canonical) = lower tag.toList := by
    rw [lower_join, same, ← lower_join, written.text]
  have parts : ∀ subtag ∈ canonical, isPart subtag = true := by
    intro subtag member
    have there : lower subtag ∈ subtags.map lower := same ▸ List.mem_map_of_mem member
    obtain ⟨before, member', cased⟩ := List.mem_map.mp there
    exact (shape_of_lower (by simp [isPart]) cased.symm).trans (written.parts before member')
  refine ⟨String.toList_ofList, ?_, parts, ?_, ?_⟩
  · rintro rfl
    exact written.any (List.map_eq_nil_iff.mp same.symm)
  · have few := written.few
    rw [utf16Length_of_isTagChar written.chars, ← length_lower, ← lowered, length_lower] at few
    rwa [utf16Length_of_isTagChar (by rw [String.toList_ofList]; exact all_isTagChar_join parts),
      String.toList_ofList]
  · rw [String.toList_ofList, IsGrandfathered, lowered]
    exact written.other

theorem canonicalize (written : Written (trim value) subtags)
    (getCanonicalLocales : String → Option (List String)) :
    canonicalizeBcp47LanguageTag getCanonicalLocales value =
      if subtags.head?.map lower = some ['x'] then
        if 1 < subtags.length then some (String.ofList (join (['x'] :: subtags.tail.map lower)))
        else none
      else (readLangtag subtags).bind fun canonicalSubtags =>
        match getCanonicalLocales (trim value) with
        | some locales => locales.head?
        | none => some (String.ofList (join canonicalSubtags)) := by
  have any : (trim value).toList ≠ [] := by
    rw [written.text]
    exact join_ne_nil written.any written.parts
  have goes := admitted written.few any written.chars
  have absent : GRANDFATHERED_LANGUAGE_TAGS.lookup (String.ofList (lower (trim value).toList)) = none :=
    List.lookup_eq_none_iff.mpr fun entry member => by
      simpa using fun same => written.other ⟨entry, member, same⟩
  have shaped : ¬ (subtags.any fun subtag => !isPart subtag) = true := by
    rw [List.any_eq_true]
    rintro ⟨subtag, member, misshapen⟩
    rw [written.parts subtag member] at misshapen
    cases misshapen
  simp only [canonicalizeBcp47LanguageTag, if_neg goes, absent, written.splitOn,
    misshapen_eq, if_neg shaped]

end Written

end Texts

/-! ## What is accepted -/

section Accepted

variable {getCanonicalLocales : String → Option (List String)} {subtags : List Subtag}
  {value result : String}

theorem canonicalize_langtag (tag : Langtag) (written : Written (trim value) tag.subtags) :
    canonicalizeBcp47LanguageTag getCanonicalLocales value =
      match getCanonicalLocales (trim value) with
      | some locales => locales.head?
      | none => some (String.ofList (join tag.canonical.subtags)) := by
  have longer : lower tag.language ≠ ['x'] := by
    intro mark
    have one := length_of_isMark (decide_eq_true mark)
    have shaped := tag.isLanguage
    simp [isLanguage, one] at shaped
  have other : ¬ tag.subtags.head?.map lower = some ['x'] := by
    simpa [Langtag.subtags] using longer
  rw [written.canonicalize, if_neg other, readLangtag_subtags, Option.bind_some]

theorem canonicalize_privateUse (privateUse : IsPrivateUse subtags)
    (written : Written (trim value) subtags) :
    canonicalizeBcp47LanguageTag getCanonicalLocales value =
      some (String.ofList (join (subtags.map lower))) := by
  obtain ⟨mark, parts, rfl, marked, any, -⟩ := privateUse
  have lowered : lower mark = ['x'] := of_decide_eq_true marked
  have two : 1 < (mark :: parts).length :=
    Nat.succ_lt_succ (List.length_pos_iff.mpr any)
  have begins : (mark :: parts).head?.map lower = some ['x'] := congrArg some lowered
  rw [written.canonicalize, if_pos begins, if_pos two, List.map_cons, lowered, List.tail_cons]

theorem isLanguageTag_of_canonicalize
    (accepted : canonicalizeBcp47LanguageTag getCanonicalLocales value = some result) :
    utf16Length (trim value) ≤ 64 ∧ IsLanguageTag (trim value).toList := by
  have text : join ((trim value).toList.splitOn '-') = (trim value).toList :=
    List.intercalate_splitOn '-'
  simp only [canonicalizeBcp47LanguageTag, misshapen_eq] at accepted
  generalize (trim value).toList.splitOn '-' = subtags at accepted text
  split at accepted
  next => cases accepted
  next goes =>
    refine ⟨Nat.le_of_not_lt fun long => goes (.inr (.inl long)), ?_⟩
    split at accepted
    next grandfathered found =>
      obtain ⟨entry, member, same⟩ :=
        List.lookup_isSome_iff.mp (Option.isSome_of_mem (Option.mem_def.mpr found))
      exact .inr (.inr ⟨entry, member, eq_of_beq same⟩)
    next =>
      split at accepted
      next => cases accepted
      next shaped =>
        have parts : ∀ subtag ∈ subtags, isPart subtag = true := by
          intro subtag member
          by_contra misshapen
          exact shaped (List.any_eq_true.mpr ⟨subtag, member, by simpa using misshapen⟩)
        split at accepted
        next marked =>
          split at accepted
          next two =>
            obtain ⟨mark, rest, split⟩ := List.exists_cons_of_ne_nil (List.ne_nil_of_length_pos
              (Nat.lt_of_succ_lt two))
            rw [split] at marked two parts text
            have lowered : lower mark = ['x'] := Option.some.inj marked
            have any : rest ≠ [] := List.ne_nil_of_length_pos (Nat.lt_of_succ_lt_succ two)
            exact .inr (.inl ⟨mark :: rest, ⟨mark, rest, rfl, decide_eq_true lowered, any,
              (List.forall_mem_cons.mp parts).2⟩, text.symm⟩)
          next => cases accepted
        next =>
          obtain ⟨canonical, reads, -⟩ := Option.bind_eq_some_iff.mp accepted
          obtain ⟨langtag, same⟩ := readLangtag_sound reads
          exact .inl ⟨langtag, same ▸ text.symm⟩

/-- A tag in the table is replaced before `Intl` is asked. -/
theorem canonicalize_grandfathered (few : utf16Length (trim value) ≤ 64)
    (grandfathered : IsGrandfathered (trim value).toList) :
    ∃ entry ∈ GRANDFATHERED_LANGUAGE_TAGS,
      canonicalizeBcp47LanguageTag getCanonicalLocales value = some entry.2 := by
  have keys : ∀ entry ∈ GRANDFATHERED_LANGUAGE_TAGS,
      entry.1.toList.all isTagChar = true ∧ entry.1.toList ≠ [] := by decide +kernel
  obtain ⟨entry, member, same⟩ := grandfathered
  have lowered : lower (trim value).toList = entry.1.toList := by
    rw [← same, String.toList_ofList]
  have chars : (trim value).toList.all isTagChar = true := by
    rw [← all_lower isTagChar_toLower, lowered]
    exact (keys entry member).1
  have any : (trim value).toList ≠ [] := by
    intro empty
    rw [empty] at lowered
    exact (keys entry member).2 lowered.symm
  have goes := admitted few any chars
  have found : (GRANDFATHERED_LANGUAGE_TAGS.lookup
      (String.ofList (lower (trim value).toList))).isSome = true :=
    List.lookup_isSome_iff.mpr ⟨entry, member, beq_iff_eq.mpr same⟩
  obtain ⟨replacement, there⟩ := Option.isSome_iff_exists.mp found
  obtain ⟨before, after, whole, -⟩ := List.lookup_eq_some_iff.mp there
  refine ⟨(String.ofList (lower (trim value).toList), replacement), ?_, ?_⟩
  · rw [whole]
    exact List.mem_append_right before List.mem_cons_self
  · simp only [canonicalizeBcp47LanguageTag, if_neg goes, there]

theorem canonicalize_congr {other : String → Option (List String)}
    (same : getCanonicalLocales (trim value) = other (trim value)) :
    canonicalizeBcp47LanguageTag getCanonicalLocales value =
      canonicalizeBcp47LanguageTag other value := by
  simp only [canonicalizeBcp47LanguageTag, same]

/-- No replacement is replaced by another, or has another case. -/
theorem canonicalize_replacement {entry : String × String}
    (member : entry ∈ GRANDFATHERED_LANGUAGE_TAGS) (refuses : getCanonicalLocales entry.2 = none) :
    canonicalizeBcp47LanguageTag getCanonicalLocales entry.2 = some entry.2 := by
  have settled : ∀ entry ∈ GRANDFATHERED_LANGUAGE_TAGS, trim entry.2 = entry.2 ∧
      canonicalizeBcp47LanguageTag (fun _ => none) entry.2 = some entry.2 := by decide +kernel
  obtain ⟨trimmed, same⟩ := settled entry member
  exact (canonicalize_congr (by rw [trimmed, refuses])).trans same

/-- A well-formed tag that is not in the table is of some subtags. -/
theorem written_of_isLanguageTag (few : utf16Length (trim value) ≤ 64)
    (isTag : IsLanguageTag (trim value).toList) (other : ¬ IsGrandfathered (trim value).toList) :
    (∃ tag : Langtag, Written (trim value) tag.subtags) ∨
      ∃ subtags, IsPrivateUse subtags ∧ Written (trim value) subtags := by
  rcases isTag with ⟨tag, text⟩ | ⟨subtags, privateUse, text⟩ | grandfathered
  · exact .inl ⟨tag, text, List.cons_ne_nil _ _, tag.isPart_of_mem, few, other⟩
  · refine .inr ⟨subtags, privateUse, text, ?_, isPart_of_isPrivateUse privateUse, few, other⟩
    obtain ⟨mark, parts, rfl, -⟩ := privateUse
    exact List.cons_ne_nil _ _
  · exact absurd grandfathered other

theorem Written.sameSubtags {canonical : List Subtag} {tag : String} (written : Written tag subtags)
    (same : canonical.map lower = subtags.map lower) :
    SameSubtags (String.ofList (join canonical)).toList tag.toList := by
  rw [SameSubtags, (written.recase same).splitOn, written.splitOn, same]

/-- Where `Intl` refuses a tag that is not in the table, the tag is brought to another case, in
which it stays as it is. -/
theorem canonicalize_refused (other : ¬ IsGrandfathered (trim value).toList)
    (refuses : getCanonicalLocales (trim value) = none)
    (accepted : canonicalizeBcp47LanguageTag getCanonicalLocales value = some result) :
    SameSubtags result.toList (trim value).toList ∧
      (getCanonicalLocales result = none →
        canonicalizeBcp47LanguageTag getCanonicalLocales result = some result) := by
  obtain ⟨few, isTag⟩ := isLanguageTag_of_canonicalize accepted
  rcases written_of_isLanguageTag few isTag other with
    ⟨tag, written⟩ | ⟨subtags, privateUse, written⟩
  · rw [canonicalize_langtag tag written, refuses] at accepted
    obtain rfl := Option.some.inj accepted
    have again := written.recase tag.map_lower_canonical
    refine ⟨written.sameSubtags tag.map_lower_canonical, fun refusesAgain => ?_⟩
    rw [← again.trim_eq] at again
    rw [canonicalize_langtag tag.canonical again, (written.recase tag.map_lower_canonical).trim_eq,
      refusesAgain, tag.canonical_canonical]
  · have same : (subtags.map lower).map lower = subtags.map lower := by
      simp [Function.comp_def, lower_lower]
    rw [canonicalize_privateUse privateUse written] at accepted
    obtain rfl := Option.some.inj accepted
    have again := written.recase same
    refine ⟨written.sameSubtags same, fun _ => ?_⟩
    rw [← again.trim_eq] at again
    rw [canonicalize_privateUse (isPrivateUse_map privateUse) again, same]

theorem canonicalizeBcp47LanguageTag_rfc5646
    (one : ∀ tag locales, getCanonicalLocales tag = some locales → locales ≠ [])
    (value : String) :
    ((canonicalizeBcp47LanguageTag getCanonicalLocales value).isSome = true ↔
      utf16Length (trim value) ≤ 64 ∧ IsLanguageTag (trim value).toList) ∧
    ∀ result, canonicalizeBcp47LanguageTag getCanonicalLocales value = some result →
      getCanonicalLocales (trim value) = none →
      (¬ IsGrandfathered (trim value).toList → SameSubtags result.toList (trim value).toList) ∧
        (getCanonicalLocales result = none →
          canonicalizeBcp47LanguageTag getCanonicalLocales result = some result) := by
  refine ⟨⟨fun accepted => ?_, fun ⟨few, isTag⟩ => ?_⟩, fun result accepted refuses => ?_⟩
  · obtain ⟨result, accepted⟩ := Option.isSome_iff_exists.mp accepted
    exact isLanguageTag_of_canonicalize accepted
  · by_cases grandfathered : IsGrandfathered (trim value).toList
    · obtain ⟨entry, -, replaced⟩ := canonicalize_grandfathered few grandfathered
      exact Option.isSome_of_eq_some replaced
    rcases written_of_isLanguageTag few isTag grandfathered with
      ⟨tag, written⟩ | ⟨subtags, privateUse, written⟩
    · rw [canonicalize_langtag tag written]
      split
      next locales answers =>
        obtain ⟨first, rest, rfl⟩ := List.exists_cons_of_ne_nil (one _ locales answers)
        rfl
      next => rfl
    · rw [canonicalize_privateUse privateUse written]
      rfl
  · by_cases grandfathered : IsGrandfathered (trim value).toList
    · obtain ⟨entry, member, replaced⟩ := canonicalize_grandfathered
        (isLanguageTag_of_canonicalize accepted).1 grandfathered
      obtain rfl := Option.some.inj (accepted.symm.trans replaced)
      exact ⟨absurd grandfathered, canonicalize_replacement member⟩
    · obtain ⟨same, settled⟩ := canonicalize_refused grandfathered refuses accepted
      exact ⟨fun _ => same, settled⟩

/-- An `Intl` that knows no extended languages. -/
example : canonicalizeBcp47LanguageTag (fun tag => if tag = "en" then some [tag] else none)
    " ZH-HAK-hant-cn-X-Tones" = some "zh-hak-Hant-CN-x-tones" := by decide +kernel

theorem canonicalizeBcp47LanguageTag_rfc5646_extlang :
    let refusing := fun tag => if tag = "ZH-HAK-cn" ∨ tag = "zh-hak-CN" then none else some [tag]
    (canonicalizeBcp47LanguageTag refusing " ZH-HAK-cn").isSome = true ∧
      SameSubtags "zh-hak-CN".toList "ZH-HAK-cn".toList ∧
      canonicalizeBcp47LanguageTag refusing "zh-hak-CN" = some "zh-hak-CN" := by
  intro refusing
  have one : ∀ tag locales, refusing tag = some locales → locales ≠ [] := by
    intro tag locales answers
    dsimp only [refusing] at answers
    split at answers
    · cases answers
    · cases answers
      exact List.cons_ne_nil _ _
  obtain ⟨-, settles⟩ := canonicalizeBcp47LanguageTag_rfc5646 one " ZH-HAK-cn"
  have accepted : canonicalizeBcp47LanguageTag refusing " ZH-HAK-cn" = some "zh-hak-CN" := by
    decide +kernel
  have trimmed : trim " ZH-HAK-cn" = "ZH-HAK-cn" := by decide
  obtain ⟨same, settled⟩ := settles _ accepted (by rw [trimmed]; decide)
  rw [trimmed] at same
  refine ⟨Option.isSome_of_eq_some accepted, same ?_, settled (by decide)⟩
  rintro ⟨entry, member, key⟩
  revert entry
  decide +kernel

/-- The table gives `i-klingon`, which `Intl` refuses, another subtag. -/
theorem canonicalizeBcp47LanguageTag_klingon :
    ¬ ∀ getCanonicalLocales : String → Option (List String),
      (∀ tag locales, getCanonicalLocales tag = some locales → locales ≠ []) →
      ∀ value result, canonicalizeBcp47LanguageTag getCanonicalLocales value = some result →
        getCanonicalLocales (trim value) = none →
        SameSubtags result.toList (trim value).toList := by
  intro claimed
  have same := claimed (fun tag => if tag = "i-klingon" then none else some [tag])
    (by
      intro tag locales answers
      split at answers
      · cases answers
      · cases answers
        exact List.cons_ne_nil _ _)
    "i-klingon" "tlh" (by decide +kernel) (by decide +kernel)
  revert same
  unfold SameSubtags
  decide +kernel

end Accepted

end BoothOperator.Languages
