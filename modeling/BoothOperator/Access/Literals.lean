import BoothOperator.Access.ClientIp
import BoothOperator.Lib.IpAddress
import Mathlib.Tactic.IntervalCases

/-! The literals that `toBytes` reads: all of them, but for an IPv6 address that ends in an
IPv4 one other than the mapped form that `normalize` takes for its IPv4 address. -/
namespace BoothOperator.ClientIp

open BoothOperator.IpAddress
open BoothOperator.TranslationText (trimChars)

/-! ## Groups -/

theorem mem_hexDigits {c : Char} (hex : c.isHexDigit) : c ∈ "0123456789abcdefABCDEF".toList := by
  have ranges : (48 ≤ c.toNat ∧ c.toNat ≤ 57) ∨ (97 ≤ c.toNat ∧ c.toNat ≤ 102) ∨
      (65 ≤ c.toNat ∧ c.toNat ≤ 70) := by
    simpa [Char.isHexDigit, Char.isDigit, UInt32.le_iff_toNat_le, or_assoc] using hex
  rw [← Char.ofNat_toNat c]
  generalize c.toNat = code at ranges
  rcases ranges with ⟨low, high⟩ | ⟨low, high⟩ | ⟨low, high⟩ <;> interval_cases code <;> decide

theorem hexValue_eq {c : Char} (hex : c.isHexDigit) : hexValue c = IpAddress.hexValue c := by
  have same : "0123456789abcdefABCDEF".toList.all (fun c => hexValue c = IpAddress.hexValue c) := by
    decide
  exact of_decide_eq_true (List.all_eq_true.mp same c (mem_hexDigits hex))

theorem hexValue_lt {c : Char} (hex : c.isHexDigit) : hexValue c < 16 := by
  have below : "0123456789abcdefABCDEF".toList.all (fun c => hexValue c < 16) := by decide
  exact of_decide_eq_true (List.all_eq_true.mp below c (mem_hexDigits hex))

theorem foldl_hexValue {piece : Text} (digits : ∀ c ∈ piece, c.isHexDigit) (word : Nat) :
    piece.foldl (fun word c => 16 * word + hexValue c) word =
      piece.foldl (fun word c => 16 * word + IpAddress.hexValue c) word := by
  induction piece generalizing word with
  | nil => rfl
  | cons c piece ih =>
    rw [List.foldl_cons, List.foldl_cons, hexValue_eq (digits c List.mem_cons_self)]
    exact ih (fun other member => digits other (List.mem_cons_of_mem _ member)) _

theorem foldl_hexValue_lt {piece : Text} (digits : ∀ c ∈ piece, c.isHexDigit) (word : Nat) :
    piece.foldl (fun word c => 16 * word + hexValue c) word < (word + 1) * 16 ^ piece.length := by
  induction piece generalizing word with
  | nil => simp
  | cons c piece ih =>
    have bound := ih (fun other member => digits other (List.mem_cons_of_mem _ member))
      (16 * word + hexValue c)
    have low := hexValue_lt (digits c List.mem_cons_self)
    rw [List.foldl_cons, List.length_cons, Nat.pow_succ]
    refine Nat.lt_of_lt_of_le bound ?_
    calc (16 * word + hexValue c + 1) * 16 ^ piece.length
        ≤ ((word + 1) * 16) * 16 ^ piece.length := Nat.mul_le_mul_right _ (by omega)
      _ = (word + 1) * (16 ^ piece.length * 16) := by rw [Nat.mul_assoc, Nat.mul_comm 16]

theorem parsePiece_iff {piece : Text} {octets : List UInt8} :
    parsePiece piece = some octets ↔ ∃ high low, Group piece high low ∧ octets = [high, low] := by
  unfold parsePiece
  constructor
  · intro parsed
    split at parsed
    · rename_i own
      obtain ⟨nonempty, short, digits⟩ := own
      have digits : ∀ c ∈ piece, c.isHexDigit := fun c member => List.all_eq_true.mp digits c member
      have below : wordOf piece < 1 * 16 ^ piece.length := foldl_hexValue_lt digits 0
      have four : 16 ^ piece.length ≤ 16 ^ 4 := Nat.pow_le_pow_right (by decide) short
      refine ⟨_, _, ⟨nonempty, short, digits, ?_⟩, (Option.some.inj parsed).symm⟩
      rw [← foldl_hexValue digits, UInt8.toNat_ofNat', UInt8.toNat_ofNat']
      change wordOf piece = _
      omega
    · cases parsed
  · rintro ⟨high, low, group, rfl⟩
    have digits : piece.all isHexDigit = true := List.all_eq_true.mpr group.digits
    have value : wordOf piece = 256 * high.toNat + low.toNat := by
      rw [← group.value, ← foldl_hexValue group.digits]
      rfl
    have top := high.toNat_lt
    have bottom := low.toNat_lt
    rw [if_pos ⟨group.nonempty, group.short, digits⟩, value]
    have first : (256 * high.toNat + low.toNat) / 256 = high.toNat := by omega
    have second : (256 * high.toNat + low.toNat) % 256 = low.toNat := by omega
    rw [first, second, UInt8.ofNat_toNat, UInt8.ofNat_toNat]

theorem mapM_parsePiece {pieces : List Text} {octets : List UInt8} :
    (pieces.mapM parsePiece).map List.flatten = some octets ↔ Groups pieces octets := by
  induction pieces generalizing octets with
  | nil =>
    constructor
    · intro parsed
      cases parsed
      exact .nil
    · intro groups
      cases groups
      rfl
  | cons piece pieces ih =>
    constructor
    · intro parsed
      obtain ⟨whole, read, rfl⟩ := Option.map_eq_some_iff.mp parsed
      rw [List.mapM_cons] at read
      obtain ⟨first, own, read⟩ := Option.bind_eq_some_iff.mp read
      obtain ⟨others, later, read⟩ := Option.bind_eq_some_iff.mp read
      cases read
      obtain ⟨high, low, group, rfl⟩ := parsePiece_iff.mp own
      exact .cons group (ih.mp (Option.map_eq_some_iff.mpr ⟨others, later, rfl⟩))
    · intro groups
      cases groups with
      | cons head tail =>
        obtain ⟨others, later, flat⟩ := Option.map_eq_some_iff.mp (ih.mpr tail)
        have own := parsePiece_iff.mpr ⟨_, _, head, rfl⟩
        simp [List.mapM_cons, own, later, flat]

theorem parseGroup_iff {group : Text} {octets : List UInt8} :
    parseGroup group = some octets ↔ ∃ pieces, Groups pieces octets ∧ group = colons pieces := by
  unfold parseGroup
  constructor
  · intro parsed
    split at parsed
    · rename_i empty
      cases parsed
      exact ⟨[], .nil, empty⟩
    · exact ⟨_, mapM_parsePiece.mp parsed, (List.intercalate_splitOn ':').symm⟩
  · rintro ⟨pieces, groups, rfl⟩
    cases pieces with
    | nil =>
      cases groups
      rfl
    | cons piece pieces =>
      obtain ⟨c, rest, -, starts⟩ := groups.starts (List.cons_ne_nil _ _)
      have split : (colons (piece :: pieces)).splitOn ':' = piece :: pieces :=
        List.splitOn_intercalate ':' groups.unseparated (List.cons_ne_nil _ _)
      rw [if_neg (by simp [starts]), split]
      exact mapM_parsePiece.mpr groups

/-! ## Pairs of colons -/

theorem splitPair_colons (rest : Text) : splitPair (':' :: ':' :: rest) = [] :: splitPair rest := rfl

/-- A character that begins no pair of colons belongs to the first part. -/
theorem splitPair_cons {c : Char} {rest part : Text} {parts : List Text}
    (single : ∀ next, c = ':' → rest = ':' :: next → False) (found : splitPair rest = part :: parts) :
    splitPair (c :: rest) = (c :: part) :: parts := by
  rw [splitPair]
  · rw [found]
  · exact single

theorem splitPair_ne_nil (text : Text) : splitPair text ≠ [] := by
  induction text with
  | nil => exact List.cons_ne_nil _ _
  | cons c rest ih =>
    by_cases pair : ∃ next, c = ':' ∧ rest = ':' :: next
    · obtain ⟨next, rfl, rfl⟩ := pair
      exact List.cons_ne_nil _ _
    · obtain ⟨part, parts, found⟩ := List.exists_cons_of_ne_nil ih
      rw [splitPair_cons (fun next colon more => pair ⟨next, colon, more⟩) found]
      exact List.cons_ne_nil _ _

theorem intercalate_splitPair (text : Text) : [':', ':'].intercalate (splitPair text) = text := by
  induction text using splitPair.induct with
  | case1 rest ih =>
    rw [splitPair_colons, List.intercalate_cons_of_ne_nil (splitPair_ne_nil rest), ih]
    rfl
  | case2 c rest single empty ih => exact absurd empty (splitPair_ne_nil rest)
  | case3 c rest single part parts found ih =>
    rw [splitPair_cons single found, List.intercalate_cons_cons_left, ← found, ih]
  | case4 => rfl

theorem splitPair_eq_singleton {text : Text} (apart : text.IsChain Apart) :
    splitPair text = [text] := by
  induction text with
  | nil => rfl
  | cons c text ih =>
    refine splitPair_cons ?_ (ih apart.tail)
    rintro next rfl rfl
    exact apart.rel ⟨rfl, rfl⟩

theorem splitPair_append {left right : Text} (apart : (left ++ [':']).IsChain Apart) :
    splitPair (left ++ ':' :: ':' :: right) = left :: splitPair right := by
  induction left with
  | nil => rfl
  | cons c left ih =>
    refine splitPair_cons ?_ (ih apart.tail)
    rintro next rfl starts
    cases left with
    | nil => exact apart.rel ⟨rfl, rfl⟩
    | cons other left =>
      cases (List.cons.inj starts).1
      exact apart.rel ⟨rfl, rfl⟩

/-! ## Literals -/

theorem v6Bytes_iff {text : Text} {octets : List UInt8} :
    v6Bytes text = some octets ↔ Grouped text octets := by
  unfold v6Bytes
  constructor
  · intro read
    split at read
    · cases read
    · have joined := intercalate_splitPair text
      split at read
      · rename_i head split
        obtain ⟨left, parsed, read⟩ := Option.bind_eq_some_iff.mp read
        split at read
        · cases read
        · rename_i whole
          cases read
          obtain ⟨pieces, groups, rfl⟩ := parseGroup_iff.mp parsed
          rw [split, List.intercalate_singleton] at joined
          exact joined ▸ .full groups (not_not.mp whole)
      · rename_i head tail split
        obtain ⟨left, parsed, read⟩ := Option.bind_eq_some_iff.mp read
        obtain ⟨right, behind, read⟩ := Option.bind_eq_some_iff.mp read
        split at read
        · cases read
        · rename_i fewer
          cases read
          obtain ⟨front, before, rfl⟩ := parseGroup_iff.mp parsed
          obtain ⟨back, after, rfl⟩ := parseGroup_iff.mp behind
          rw [split, List.intercalate_cons_cons, List.intercalate_singleton,
            List.append_assoc] at joined
          exact joined ▸ .elided before after (Nat.lt_of_not_le fewer)
      · cases read
  · intro grouped
    have plain : ¬(text = [] ∨ text.any (fun c => !(isHexDigit c || c = ':')) = true) := by
      rintro (rfl | odd)
      · cases grouped.colon_mem
      · obtain ⟨c, member, other⟩ := List.any_eq_true.mp odd
        rcases grouped.each member with rfl | hex
        · simp at other
        · have own : isHexDigit c = true := hex
          simp [own] at other
    rw [if_neg plain]
    cases grouped with
    | full groups eight =>
      have apart := (isChain_colons groups).left_of_append
      rw [splitPair_eq_singleton apart]
      simp [parseGroup_iff.mpr ⟨_, groups, rfl⟩, eight]
    | elided before after fewer =>
      have apart := (isChain_colons after).left_of_append
      rw [splitPair_append (isChain_colons before), splitPair_eq_singleton apart]
      have more := Nat.not_le_of_lt fewer
      simp [parseGroup_iff.mpr ⟨_, before, rfl⟩, parseGroup_iff.mpr ⟨_, after, rfl⟩, more, zeros]

theorem dottedRuns_iff {allowed : Text → Bool} {text : Text} {runs : List Text} :
    dottedRuns allowed text = some runs ↔ runs.length = 4 ∧ text = dots runs ∧
      ∀ run ∈ runs, run ≠ [] ∧ (∀ c ∈ run, c.isDigit) ∧ allowed run := by
  simp only [dottedRuns]
  constructor
  · intro read
    split at read
    · rename_i own
      cases read
      refine ⟨own.1, (List.intercalate_splitOn '.').symm, fun run member => ?_⟩
      have each := List.all_eq_true.mp own.2 run member
      simp only [ne_eq, Bool.and_eq_true, decide_eq_true_eq, List.all_eq_true] at each
      exact ⟨each.1.1, each.1.2, each.2⟩
    · cases read
  · rintro ⟨four, rfl, each⟩
    have split : (dots runs).splitOn '.' = runs := by
      refine List.splitOn_intercalate '.' (fun run member inside => ?_) ?_
      · exact (isDigit_ne ((each run member).2.1 _ inside)).2.1 rfl
      · rintro rfl
        cases four
    rw [split, if_pos]
    refine ⟨four, List.all_eq_true.mpr fun run member => ?_⟩
    obtain ⟨nonempty, digits, short⟩ := each run member
    simp only [ne_eq, nonempty, not_false_eq_true, decide_true, Bool.true_and, short,
      Bool.and_true, List.all_eq_true]
    exact digits

theorem v4Bytes_iff {runs : List Text} {octets : List UInt8}
    (each : ∀ run ∈ runs, run ≠ [] ∧ (∀ c ∈ run, c.isDigit) ∧ run.length ≤ 3) :
    v4Bytes runs = some (mapped ++ octets) ↔ List.Forall₂ Octet runs octets := by
  simp only [v4Bytes]
  constructor
  · intro read
    split at read
    · cases read
    · rename_i fits
      have same := List.append_cancel_left (Option.some.inj read)
      rw [← same, List.map_map, List.forall₂_map_right_iff, List.forall₂_same]
      intro run member
      obtain ⟨nonempty, digits, short⟩ := each run member
      refine ⟨nonempty, short, digits, ?_⟩
      have small : ¬255 < Nat.ofDigitChars 10 run 0 := fun large =>
        fits (List.any_eq_true.mpr ⟨_, List.mem_map_of_mem member, decide_eq_true large⟩)
      rw [Function.comp, UInt8.toNat_ofNat', Nat.mod_eq_of_lt (by omega)]
  · intro read
    have fits : ¬(runs.map fun run => Nat.ofDigitChars 10 run 0).any (255 < ·) = true := by
      intro large
      obtain ⟨value, member, more⟩ := List.any_eq_true.mp large
      obtain ⟨run, there, rfl⟩ := List.mem_map.mp member
      obtain ⟨octet, own⟩ := octet_of_mem read there
      have below := octet.toNat_lt
      have more := of_decide_eq_true more
      rw [own.value] at more
      omega
    have same : (runs.map fun run => Nat.ofDigitChars 10 run 0).map UInt8.ofNat = octets := by
      clear each fits
      induction read with
      | nil => rfl
      | cons own _ ih => rw [List.map_cons, List.map_cons, ih, own.value, UInt8.ofNat_toNat]
    rw [if_neg fits, same]
    rfl

theorem dotted_iff {text : Text} {octets : List UInt8} :
    Dotted text octets ↔ ∃ runs, dottedRuns (·.length ≤ 3) text = some runs ∧
      v4Bytes runs = some (mapped ++ octets) := by
  constructor
  · rintro ⟨⟨runs, read, rfl⟩, four⟩
    have each : ∀ run ∈ runs, run ≠ [] ∧ (∀ c ∈ run, c.isDigit) ∧ run.length ≤ 3 := by
      intro run member
      obtain ⟨octet, own⟩ := octet_of_mem read member
      exact ⟨own.nonempty, own.digits, own.short⟩
    refine ⟨runs, dottedRuns_iff.mpr ⟨read.length_eq.trans four, rfl, fun run member => ?_⟩,
      (v4Bytes_iff each).mpr read⟩
    obtain ⟨nonempty, digits, short⟩ := each run member
    exact ⟨nonempty, digits, decide_eq_true short⟩
  · rintro ⟨runs, split, read⟩
    obtain ⟨four, joined, each⟩ := dottedRuns_iff.mp split
    have octets_read := (v4Bytes_iff fun run member =>
      ⟨(each run member).1, (each run member).2.1, of_decide_eq_true (each run member).2.2⟩).mp read
    exact ⟨⟨runs, octets_read, joined⟩, octets_read.length_eq.symm.trans four⟩

/-! ## Mapped addresses -/

theorem eq_of_toLower_colon {c : Char} (lower : c.toLower = ':') : c = ':' := by
  unfold Char.toLower at lower
  split at lower
  · rename_i upper
    have value := congrArg (fun c => c.val.toNat) lower
    have low := UInt32.le_iff_toNat_le.mp upper.1
    have high := UInt32.le_iff_toNat_le.mp upper.2
    simp [UInt32.toNat_add] at value low high
    omega
  · exact lower

theorem eq_of_toLower_f {c : Char} (lower : c.toLower = 'f') : c = 'f' ∨ c = 'F' := by
  unfold Char.toLower at lower
  split at lower
  · rename_i upper
    have value := congrArg (fun c => c.val.toNat) lower
    have low := UInt32.le_iff_toNat_le.mp upper.1
    have high := UInt32.le_iff_toNat_le.mp upper.2
    simp [UInt32.toNat_add] at value low high
    refine .inr (Char.ext (UInt32.toNat_inj.mp ?_))
    simp
    omega
  · exact .inl lower

/-- The text that `normalize` takes for its IPv4 form. -/
structure Mapped (text : Text) : Prop where
  front : (text.take mappedPrefix.length).map Char.toLower = mappedPrefix
  dotted : (dottedRuns (fun _ => true) (text.drop mappedPrefix.length)).isSome

theorem Mapped.cut {text : Text} (mappedText : Mapped text) : ∃ a b c d rest,
    (∀ x ∈ [a, b, c, d], x.isHexDigit ∧ IpAddress.hexValue x = 15) ∧
      text = ':' :: ':' :: ([a, b, c, d] ++ ':' :: rest) ∧ rest = text.drop mappedPrefix.length := by
  have front := mappedText.front
  obtain ⟨c₁, t₁, taken, l₁, front⟩ := List.map_eq_cons_iff.mp front
  obtain ⟨c₂, t₂, rfl, l₂, front⟩ := List.map_eq_cons_iff.mp front
  obtain ⟨c₃, t₃, rfl, l₃, front⟩ := List.map_eq_cons_iff.mp front
  obtain ⟨c₄, t₄, rfl, l₄, front⟩ := List.map_eq_cons_iff.mp front
  obtain ⟨c₅, t₅, rfl, l₅, front⟩ := List.map_eq_cons_iff.mp front
  obtain ⟨c₆, t₆, rfl, l₆, front⟩ := List.map_eq_cons_iff.mp front
  obtain ⟨c₇, t₇, rfl, l₇, front⟩ := List.map_eq_cons_iff.mp front
  cases List.map_eq_nil_iff.mp front
  cases eq_of_toLower_colon l₁
  cases eq_of_toLower_colon l₂
  cases eq_of_toLower_colon l₇
  have fifteen : ∀ x : Char, x.toLower = 'f' → x.isHexDigit ∧ IpAddress.hexValue x = 15 := by
    intro x lower
    rcases eq_of_toLower_f lower with rfl | rfl <;> decide
  refine ⟨c₃, c₄, c₅, c₆, text.drop mappedPrefix.length, ?_, ?_, rfl⟩
  · intro x member
    simp only [List.mem_cons, List.not_mem_nil, or_false] at member
    rcases member with rfl | rfl | rfl | rfl
    · exact fifteen x l₃
    · exact fifteen x l₄
    · exact fifteen x l₅
    · exact fifteen x l₆
  · conv_lhs => rw [← List.take_append_drop mappedPrefix.length text, taken]
    rfl

theorem Mapped.runs {text : Text} (mappedText : Mapped text) : ∃ runs : List Text,
    runs.length = 4 ∧ text.drop mappedPrefix.length = dots runs ∧
      ∀ run ∈ runs, ∀ c ∈ run, c.isDigit := by
  obtain ⟨runs, split⟩ := Option.isSome_iff_exists.mp mappedText.dotted
  obtain ⟨four, joined, each⟩ := dottedRuns_iff.mp split
  exact ⟨runs, four, joined, fun run there => (each run there).2.1⟩

theorem Mapped.no_colon {text : Text} (mappedText : Mapped text) :
    ':' ∉ text.drop mappedPrefix.length := by
  obtain ⟨runs, -, joined, digits⟩ := mappedText.runs
  rw [joined]
  exact (not_mem_dots digits).1

/-- A text is cut in one way at its first colon. -/
theorem cut_unique {one two one' two' : Text} (same : one ++ ':' :: two = one' ++ ':' :: two')
    (plain : ':' ∉ one) (plain' : ':' ∉ one') : one = one' ∧ two = two' := by
  rcases List.append_eq_append_iff.mp same with ⟨more, longer, rest⟩ | ⟨more, longer, rest⟩
  · cases more with
    | nil =>
      rw [List.append_nil] at longer
      exact ⟨longer.symm, (List.cons.inj rest).2⟩
    | cons c more =>
      cases (List.cons.inj rest).1
      exact absurd (longer ▸ List.mem_append_right _ List.mem_cons_self) plain'
  · cases more with
    | nil =>
      rw [List.append_nil] at longer
      exact ⟨longer, (List.cons.inj rest).2.symm⟩
    | cons c more =>
      cases (List.cons.inj rest).1
      exact absurd (longer ▸ List.mem_append_right _ List.mem_cons_self) plain

/-- A mapped text is an IPv6 literal as its IPv4 form is an IPv4 one. -/
theorem Mapped.tailed_iff {text : Text} {octets : List UInt8} (mappedText : Mapped text) :
    Tailed text octets ↔
      ∃ last, Dotted (text.drop mappedPrefix.length) last ∧ octets = mapped ++ last := by
  have unseparated := mappedText.no_colon
  obtain ⟨a, b, c, d, rest, digits, joined, behind⟩ := mappedText.cut
  rw [← behind] at unseparated ⊢
  have plain : ':' ∉ [a, b, c, d] := fun member => (isHexDigit_ne (digits _ member).1).1 rfl
  have value : [a, b, c, d].foldl (fun word c => 16 * word + IpAddress.hexValue c) 0 = 65535 := by
    simp only [List.foldl_cons, List.foldl_nil, digits a (by simp), digits b (by simp),
      digits c (by simp), digits d (by simp)]
  clear behind mappedText
  subst joined
  constructor
  · intro tailed
    generalize whole : ':' :: ':' :: ([a, b, c, d] ++ ':' :: rest) = text at tailed
    cases tailed with
    | @full texts octets last tail groups six dotted =>
      cases groups with
      | nil => cases six
      | @cons first texts high low octets head others =>
        cases first with
        | nil => exact absurd rfl head.nonempty
        | cons x first =>
          have starts := (List.cons.inj whole).1
          exact absurd starts.symm (isHexDigit_ne (head.digits x List.mem_cons_self)).1
    | @elided left right front back last tail before after dotted fewer =>
      cases left with
      | cons first left =>
        obtain ⟨x, more, hex, starts⟩ := before.starts (List.cons_ne_nil _ _)
        rw [starts] at whole
        exact absurd (List.cons.inj whole).1.symm (isHexDigit_ne hex).1
      | nil =>
        cases before
        have whole : [a, b, c, d] ++ ':' :: rest = terminated right ++ tail :=
          (List.cons.inj (List.cons.inj whole).2).2
        cases after with
        | nil =>
          have inside : ':' ∈ tail := by
            have member : ':' ∈ [a, b, c, d] ++ ':' :: rest :=
              List.mem_append_right _ List.mem_cons_self
            rw [whole] at member
            exact member
          exact absurd inside dotted.plain.1
        | @cons first right high low back head others =>
          have first_plain : ':' ∉ first := fun member => (isHexDigit_ne (head.digits _ member)).1 rfl
          have shape : terminated (first :: right) ++ tail =
              first ++ ':' :: (terminated right ++ tail) := by
            simp [terminated]
          obtain ⟨rfl, remains⟩ := cut_unique (whole.trans shape) plain first_plain
          cases others with
          | cons next others => exact absurd (remains ▸ by simp [terminated]) unseparated
          | nil =>
            have word := head.value.symm.trans value
            have top := high.toNat_lt
            have bottom := low.toNat_lt
            have highest : high = 0xff := UInt8.toNat_inj.mp (by simp; omega)
            have lowest : low = 0xff := UInt8.toNat_inj.mp (by simp; omega)
            subst highest lowest
            refine ⟨last, ?_, rfl⟩
            rw [remains]
            exact dotted
  · rintro ⟨last, dotted, rfl⟩
    have group : Group [a, b, c, d] 0xff 0xff :=
      ⟨by simp, by simp, fun x member => (digits x member).1, value⟩
    have read := Tailed.elided .nil (.cons group .nil) dotted (by decide)
    simpa [terminated, colons, mapped] using read

/-! ## Reading an address -/

/-- The text of a literal has no zone in it. -/
def unzoned (text : Text) : Text := text.takeWhile (· ≠ '%')

/-- The literal that a text names: white space around it is not a part of it, nor is the zone
of an IPv6 address. -/
def Names : Family → Text → List UInt8 → Prop
  | .v4, text, octets => Literal .v4 (trimChars text) octets
  | .v6, text, octets => Literal .v6 (unzoned (trimChars text)) octets

/-- An IPv6 address that ends in an IPv4 one, and is none that `normalize` takes for that. -/
def Unread (text : Text) : Prop :=
  (∃ octets, Tailed (unzoned (trimChars text)) octets) ∧ ¬Mapped (trimChars text)

theorem unzoned_eq {text : Text} (zoneless : '%' ∉ text) : unzoned text = text := by
  refine List.takeWhile_eq_self_iff.mpr fun c member => ?_
  exact decide_eq_true fun same => zoneless (same ▸ member)

theorem Mapped.zoneless {text : Text} (mappedText : Mapped text) : '%' ∉ text := by
  obtain ⟨runs, -, joined, each⟩ := mappedText.runs
  obtain ⟨a, b, c, d, rest, digits, whole, behind⟩ := mappedText.cut
  intro member
  rw [whole, behind, joined] at member
  have inside : '%' ∈ [a, b, c, d] ∨ '%' ∈ dots runs := by simpa [or_assoc] using member
  rcases inside with group | dotted
  · exact (isHexDigit_ne (digits _ group).1).2.2 rfl
  · exact (not_mem_dots each).2 dotted

theorem v6Bytes_dot {text : Text} (dot : '.' ∈ text) : v6Bytes text = none := by
  cases read : v6Bytes text with
  | none => rfl
  | some octets => exact absurd dot (v6Bytes_iff.mp read).no_dot

theorem v4Bytes_mapped {runs : List Text} {octets : List UInt8} (read : v4Bytes runs = some octets) :
    ∃ last, octets = mapped ++ last := by
  simp only [v4Bytes] at read
  split at read
  · cases read
  · exact ⟨_, (Option.some.inj read).symm⟩

theorem mem_of_mem_unzoned {text : Text} {c : Char} (member : c ∈ unzoned text) : c ∈ text :=
  (List.takeWhile_prefix _).subset member

theorem toBytes_mapped {text : Text} (mappedText : Mapped (trimChars text)) {octets : List UInt8} :
    toBytes text = some octets ↔ Tailed (trimChars text) octets := by
  rw [mappedText.tailed_iff]
  have zoneless := mappedText.zoneless
  obtain ⟨a, b, c, d, rest, -, whole, behind⟩ := mappedText.cut
  have nonempty : trimChars text ≠ [] := by simp [whole]
  have plain : normalize text = some rest := by
    simp only [normalize, if_neg nonempty]
    rw [behind]
    exact if_pos ⟨mappedText.front, mappedText.dotted⟩
  obtain ⟨runs, four, joined, -⟩ := mappedText.runs
  rw [← behind] at joined ⊢
  simp only [toBytes, plain, Option.bind_some]
  constructor
  · intro read
    split at read
    · rename_i short own
      obtain ⟨last, rfl⟩ := v4Bytes_mapped read
      exact ⟨last, dotted_iff.mpr ⟨short, own, read⟩, rfl⟩
    · have zone : '%' ∉ rest := fun member =>
        zoneless (List.mem_of_mem_drop (behind ▸ member : '%' ∈ _))
      have same : rest.takeWhile (· ≠ '%') = rest := unzoned_eq zone
      rw [same, v6Bytes_dot (joined ▸ dot_mem_dots four)] at read
      cases read
  · rintro ⟨last, dotted, rfl⟩
    obtain ⟨runs, own, read⟩ := dotted_iff.mp dotted
    rw [own]
    exact read

theorem toBytes_unmapped {text : Text} (unmapped : ¬Mapped (trimChars text)) {octets : List UInt8} :
    toBytes text = some octets ↔
      (∃ last, Dotted (trimChars text) last ∧ octets = mapped ++ last) ∨
        Grouped (unzoned (trimChars text)) octets := by
  by_cases empty : trimChars text = []
  · have unread : toBytes text = none := by simp [toBytes, normalize, empty]
    rw [unread, empty]
    refine iff_of_false (by simp) ?_
    rintro (⟨last, dotted, -⟩ | grouped)
    · cases dotted.dot_mem
    · cases grouped.colon_mem
  · have plain : normalize text = some (trimChars text) := by
      simp only [normalize, if_neg empty]
      exact if_neg fun own => unmapped ⟨own.1, own.2⟩
    simp only [toBytes, plain, Option.bind_some]
    cases split : dottedRuns (·.length ≤ 3) (trimChars text) with
    | some runs =>
      simp only
      constructor
      · intro read
        obtain ⟨last, rfl⟩ := v4Bytes_mapped read
        exact .inl ⟨last, dotted_iff.mpr ⟨runs, split, read⟩, rfl⟩
      · rintro (⟨last, dotted, rfl⟩ | grouped)
        · obtain ⟨own, found, read⟩ := dotted_iff.mp dotted
          cases split.symm.trans found
          exact read
        · obtain ⟨-, joined, each⟩ := dottedRuns_iff.mp split
          have member := mem_of_mem_unzoned grouped.colon_mem
          rw [joined] at member
          exact absurd member (not_mem_dots fun run there => (each run there).2.1).1
    | none =>
      simp only
      rw [show (trimChars text).takeWhile (· ≠ '%') = unzoned (trimChars text) from rfl, v6Bytes_iff]
      refine ⟨.inr, ?_⟩
      rintro (⟨last, dotted, rfl⟩ | grouped)
      · obtain ⟨own, found, -⟩ := dotted_iff.mp dotted
        cases split.symm.trans found
      · exact grouped

/-- What is read is what the text names, unless it is not read. -/
theorem toBytes_iff {text : Text} {octets : List UInt8} :
    toBytes text = some octets ↔ (∃ family, Names family text octets) ∧ ¬Unread text := by
  by_cases mappedText : Mapped (trimChars text)
  · rw [toBytes_mapped mappedText]
    have same := unzoned_eq mappedText.zoneless
    constructor
    · intro tailed
      exact ⟨⟨.v6, .tailed (same.symm ▸ tailed)⟩, fun unread => unread.2 mappedText⟩
    · rintro ⟨⟨family, names⟩, -⟩
      obtain ⟨a, b, c, d, rest, -, whole, behind⟩ := mappedText.cut
      cases family with
      | v4 =>
        cases names with
        | dotted read => exact absurd (whole ▸ List.mem_cons_self) read.plain.1
      | v6 =>
        simp only [Names, same] at names
        cases names with
        | tailed read => exact read
        | grouped read =>
          obtain ⟨runs, four, joined, -⟩ := mappedText.runs
          exact absurd (List.mem_of_mem_drop (joined ▸ dot_mem_dots four)) read.no_dot
  · rw [toBytes_unmapped mappedText]
    constructor
    · rintro (⟨last, dotted, rfl⟩ | grouped)
      · refine ⟨⟨.v4, .dotted dotted⟩, ?_⟩
        rintro ⟨⟨octets, tailed⟩, -⟩
        exact dotted.plain.1 (mem_of_mem_unzoned tailed.colon_mem)
      · refine ⟨⟨.v6, .grouped grouped⟩, ?_⟩
        rintro ⟨⟨octets, tailed⟩, -⟩
        exact grouped.no_dot tailed.dot_mem
    · rintro ⟨⟨family, names⟩, readable⟩
      cases family with
      | v4 =>
        cases names with
        | dotted read => exact .inl ⟨_, read, rfl⟩
      | v6 =>
        cases names with
        | grouped read => exact .inr read
        | tailed read => exact absurd ⟨⟨_, read⟩, mappedText⟩ readable

end BoothOperator.ClientIp
