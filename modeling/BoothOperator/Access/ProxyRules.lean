import BoothOperator.Access.Literals
import Mathlib.Tactic.Linarith
import Mathlib.Tactic.NormNum

/-! Which addresses a proxy rule matches: those of its block, but where the rule or the address
is not read as the literal that it is. -/
namespace BoothOperator.ClientIp

open BoothOperator.IpAddress
open BoothOperator.TranslationText (trimChars)

/-! ## Leading bits -/

theorem names_length {family : Family} {text : Text} {octets : List UInt8}
    (names : Names family text octets) : octets.length = 16 := by
  have literal : ∃ text, Literal family text octets := by
    cases family with
    | v4 => exact ⟨_, names⟩
    | v6 => exact ⟨_, names⟩
  obtain ⟨text, literal⟩ := literal
  exact literal.length

theorem and_mask_iff {one other : UInt8} {remainder : Nat} (small : remainder < 8) :
    (one.toNat &&& 0xff <<< (8 - remainder)) = (other.toNat &&& 0xff <<< (8 - remainder)) ↔
      ∀ i < remainder, one.toNat.testBit (7 - i) = other.toNat.testBit (7 - i) := by
  have masked (octet : UInt8) (i : Nat) :
      (octet.toNat &&& 0xff <<< (8 - remainder)).testBit i =
        (decide (8 - remainder ≤ i) && octet.toNat.testBit i) := by
    rw [Nat.testBit_and, Nat.testBit_shiftLeft]
    rcases Nat.lt_or_ge i 8 with low | high
    · have ones : (0xff : Nat).testBit (i - (8 - remainder)) = true := by
        rw [show (0xff : Nat) = 2 ^ 8 - 1 from rfl, Nat.testBit_two_pow_sub_one]
        exact decide_eq_true (by omega)
      rw [ones, Bool.and_true, Bool.and_comm]
    · rw [testBit_octet high, Bool.false_and, Bool.and_false]
  constructor
  · intro same i below
    have bit := congrArg (fun octet => octet.testBit (7 - i)) same
    have kept : 8 - remainder ≤ 7 - i := by omega
    simpa only [masked, decide_eq_true kept, Bool.true_and] using bit
  · intro same
    refine Nat.eq_of_testBit_eq fun i => ?_
    rw [masked, masked]
    by_cases kept : 8 - remainder ≤ i
    · rcases Nat.lt_or_ge i 8 with low | high
      · have bit := same (7 - i) (by omega)
        rw [show 7 - (7 - i) = i by omega] at bit
        rw [bit]
      · rw [testBit_octet high, testBit_octet high]
    · rw [decide_eq_false kept, Bool.false_and, Bool.false_and]

/-- The comparison of bytes and of a masked one is one of leading bits. -/
theorem leadingBitsEqual_iff {one other : List UInt8} (same : one.length = other.length)
    (bits : Nat) : leadingBitsEqual one other bits = true ↔ SameLeading bits one other := by
  rw [sameLeading_iff, ← take_eq_iff same]
  simp only [leadingBitsEqual]
  by_cases whole : one.take (bits / 8) = other.take (bits / 8)
  · rw [if_neg (not_not.mpr whole)]
    have partly := @and_mask_iff (octetAt one (bits / 8)) (octetAt other (bits / 8)) (bits % 8)
      (Nat.mod_lt _ (by decide))
    by_cases none : bits % 8 = 0
    · simp [none, whole]
    · rw [if_neg none, decide_eq_true_iff]
      exact ⟨fun masked => ⟨whole, partly.mp masked⟩, fun both => partly.mpr both.2⟩
  · simp [whole]

theorem eq_iff_sameLeading {one other : List UInt8} (sixteen : one.length = 16)
    (sixteen' : other.length = 16) : one = other ↔ SameLeading 128 one other := by
  rw [sameLeading_iff, ← take_eq_iff (sixteen.trans sixteen'.symm),
    List.take_of_length_le sixteen.le, List.take_of_length_le sixteen'.le]
  simp

/-! ## Prefix lengths -/

def Decimal (digits : Text) : Prop := digits ≠ [] ∧ ∀ c ∈ digits, c.isDigit

instance (digits : Text) : Decidable (Decimal digits) := inferInstanceAs (Decidable (_ ∧ _))

def decimalValue (digits : Text) : Nat := Nat.ofDigitChars 10 digits 0

theorem trimChars_decimal {digits : Text} (decimal : Decimal digits) : trimChars digits = digits := by
  refine TranslationText.trimChars_of_unspaced fun c member => ?_
  have code : 48 ≤ c.toNat ∧ c.toNat ≤ 57 := by
    simpa [Char.isDigit, UInt32.le_iff_toNat_le] using decimal.2 c member
  simp only [TranslationText.isJsSpace]
  grind

theorem unsignedDecimal_decimal {digits : Text} (decimal : Decimal digits) :
    unsignedDecimal digits = some (decimalValue digits : Rat) := by
  have all : ∀ c ∈ digits, isDigit c = true := decimal.2
  have whole : digits.takeWhile isDigit = digits := List.takeWhile_eq_self_iff.mpr all
  have rest : digits.dropWhile isDigit = [] := List.dropWhile_eq_nil_iff.mpr all
  simp [unsignedDecimal, whole, rest, decimal.1, exponent, decimalValue]

theorem numeral_decimal {digits : Text} (decimal : Decimal digits) :
    numeral digits = some (decimalValue digits : Rat) := by
  have digit (c : Char) (member : c ∈ digits) : c.isDigit := decimal.2 c member
  rw [numeral, trimChars_decimal decimal]
  split
  · exact absurd rfl decimal.1
  -- the second character is that of a base, or the first is a sign
  · exact absurd (digit 'x' (List.mem_cons_of_mem _ List.mem_cons_self)) (by decide)
  · exact absurd (digit 'X' (List.mem_cons_of_mem _ List.mem_cons_self)) (by decide)
  · exact absurd (digit 'o' (List.mem_cons_of_mem _ List.mem_cons_self)) (by decide)
  · exact absurd (digit 'O' (List.mem_cons_of_mem _ List.mem_cons_self)) (by decide)
  · exact absurd (digit 'b' (List.mem_cons_of_mem _ List.mem_cons_self)) (by decide)
  · exact absurd (digit 'B' (List.mem_cons_of_mem _ List.mem_cons_self)) (by decide)
  · exact absurd (digit '-' List.mem_cons_self) (by decide)
  · exact absurd (digit '+' List.mem_cons_self) (by decide)
  · exact unsignedDecimal_decimal decimal

theorem roundsTo_natCast {value width : Nat} (small : width ≤ 128) :
    roundsTo (value : Rat) width = true ↔ width = value := by
  unfold roundsTo
  split
  · rename_i zero
    subst zero
    simp only [Bool.and_eq_true, decide_eq_true_eq]
    constructor
    · rintro ⟨-, least⟩
      have one : (2 : Rat) ^ (-1075 : Int) < 1 := by
        rw [zpow_neg]
        exact inv_lt_one_of_one_lt₀ (one_lt_zpow₀ (by norm_num) (by norm_num))
      have below : (value : Rat) < 1 := lt_of_le_of_lt least one
      have zero : value = 0 := by exact_mod_cast Nat.lt_one_iff.mp (by exact_mod_cast below)
      exact zero.symm
    · rintro rfl
      have positive : (0 : Rat) < 2 ^ (-1075 : Int) := zpow_pos (by norm_num) _
      simp only [Nat.cast_zero]
      exact ⟨by linarith, positive.le⟩
  · rename_i nonzero
    have short : width.log2 < 8 := (Nat.log2_lt nonzero).mpr (by omega)
    have above : (2 : Rat) ^ ((width.log2 : Int) - 53) < 1 :=
      zpow_lt_one_of_neg₀ (by norm_num) (by omega)
    have positive : (0 : Rat) < 2 ^ ((width.log2 : Int) - 53) := zpow_pos (by norm_num) _
    simp only [Bool.and_eq_true, decide_eq_true_eq]
    generalize (2 : Rat) ^ ((width.log2 : Int) - 53) = step at above positive
    have below : (if width = 2 ^ width.log2 then step / 2 else step) < 1 ∧
        0 < (if width = 2 ^ width.log2 then step / 2 else step) := by
      split
      · constructor <;> linarith
      · exact ⟨above, positive⟩
    generalize (if width = 2 ^ width.log2 then step / 2 else step) = under at below
    constructor
    · rintro ⟨low, high⟩
      have more : (width : Rat) < value + 1 := by linarith [below.1]
      have less : (value : Rat) < width + 1 := by linarith
      have more : width < value + 1 := by exact_mod_cast more
      have less : value < width + 1 := by exact_mod_cast less
      omega
    · rintro rfl
      constructor <;> linarith [below.2]

theorem widthOf_decimal {digits : Text} (decimal : Decimal digits) {most width : Nat}
    (small : most ≤ 128) :
    widthOf most digits = some width ↔ width = decimalValue digits ∧ width ≤ most := by
  rw [widthOf, numeral_decimal decimal, Option.bind_some]
  constructor
  · intro found
    have own := List.find?_some found
    have below := List.mem_range.mp (List.mem_of_find?_eq_some found)
    exact ⟨(roundsTo_natCast (by omega)).mp own, by omega⟩
  · rintro ⟨rfl, within⟩
    rw [List.find?_range_eq_some]
    refine ⟨(roundsTo_natCast (by omega)).mpr rfl, List.mem_range.mpr (by omega), ?_⟩
    intro other before
    have unequal : ¬roundsTo (decimalValue digits : Rat) other = true := fun own => by
      have same := (roundsTo_natCast (by omega)).mp own
      omega
    simpa using unequal

/-! ## Rules -/

/-- The block of a rule: a bare literal is one address, and a prefix length counts the bits of
the literal's own family, of which an IPv4 one has the last 32. -/
inductive Block (rule : Text) : List UInt8 → Nat → Prop where
  | bare {family : Family} {octets : List UInt8} (whole : '/' ∉ rule)
      (names : Names family rule octets) : Block rule octets 128
  | within {family : Family} {network digits : Text} {octets : List UInt8}
      (cut : rule = network ++ '/' :: digits) (whole : '/' ∉ network)
      (names : Names family network octets) (decimal : Decimal digits)
      (fits : decimalValue digits ≤ family.width) :
      Block rule octets (128 - family.width + decimalValue digits)

/-- The address is in the block of the rule. -/
def InBlock (address rule : Text) : Prop :=
  ∃ octets bits, Block rule octets bits ∧
    ∃ family own, Names family address own ∧ SameLeading bits octets own

/-- `matchesProxyRule` answers, and with whether the address is in the block. -/
def Agrees (address rule : Text) : Prop :=
  ∃ answer, matchesProxyRule address rule = .ok answer ∧ (answer = true ↔ InBlock address rule)

def networkOf (rule : Text) : Text := (rule.splitOn '/').headD []

/-- The bits that are compared for a prefix length, where `network.includes(".")` tells the
families apart. -/
def comparedBits (network : Text) (width : Nat) : Nat := if '.' ∈ network then width + 96 else width

/-- The ways in which a rule is not taken for its block. -/
inductive Misread (address rule : Text) : Prop where
  /-- The record of shorthands inherits the name. -/
  | inherited (name : rule.map Char.toLower = "constructor".toList ∨
      rule.map Char.toLower = "__proto__".toList)
  /-- One of the two ends in an IPv4 address that is not read. -/
  | unread (inside : InBlock address rule) (tail : Unread address ∨ Unread (networkOf rule))
  /-- An IPv6 network with a dot in it, in a mapped form or in its zone, is counted as IPv4. -/
  | dotted {network digits : Text} {family : Family} {octets own : List UInt8}
      (cut : rule = network ++ '/' :: digits) (whole : '/' ∉ network)
      (names : Names .v6 network octets) (decimal : Decimal digits)
      (fits : decimalValue digits ≤ 128) (dot : '.' ∈ network) (names' : Names family address own)
      (inside : SameLeading (decimalValue digits) octets own)
      (outside : ¬(decimalValue digits ≤ 32 ∧ SameLeading (decimalValue digits + 96) octets own))
  /-- A second slash, or a prefix that is not decimal but that `Number` reads. -/
  | loose {network text : Text} {more : List Text} {family family' : Family}
      {octets own : List UInt8} {width : Nat} (cut : rule.splitOn '/' = network :: text :: more)
      (malformed : more ≠ [] ∨ ¬Decimal text)
      (number : widthOf (if '.' ∈ network then 32 else 128) text = some width)
      (names : Names family network octets) (names' : Names family' address own)
      (readable : ¬Unread network ∧ ¬Unread address)
      (inside : SameLeading (comparedBits network width) octets own)

theorem toBytes_length {text : Text} {octets : List UInt8} (read : toBytes text = some octets) :
    octets.length = 16 := by
  obtain ⟨⟨family, names⟩, -⟩ := toBytes_iff.mp read
  exact names_length names

/-- What the code compares of a rule that is no shorthand. -/
theorem matchesLiteralRule_iff {address rule network : Text} {rest : List Text}
    (cut : rule.splitOn '/' = network :: rest) :
    matchesLiteralRule address rule = true ↔ ∃ octets own,
      toBytes network = some octets ∧ toBytes address = some own ∧
        ((rest = [] ∧ SameLeading 128 octets own) ∨
          ∃ text more width, rest = text :: more ∧
            widthOf (if '.' ∈ network then 32 else 128) text = some width ∧
              SameLeading (comparedBits network width) octets own) := by
  simp only [matchesLiteralRule, cut, List.headD_cons, List.getElem?_cons_succ]
  cases read : toBytes network with
  | none => simp
  | some octets =>
    cases read' : toBytes address with
    | none => simp
    | some own =>
      have sixteen := toBytes_length read
      have sixteen' := toBytes_length read'
      cases rest with
      | nil => simp [eq_iff_sameLeading sixteen sixteen']
      | cons text more =>
        simp only [List.getElem?_cons_zero]
        cases number : widthOf (if '.' ∈ network then 32 else 128) text with
        | none => simp [number]
        | some width =>
          simp [number, comparedBits, leadingBitsEqual_iff (sixteen.trans sixteen'.symm)]

/-- A rule with one slash. -/
theorem splitOn_cut {network digits : Text} (whole : '/' ∉ network) (decimal : Decimal digits) :
    (network ++ '/' :: digits).splitOn '/' = [network, digits] := by
  have plain : '/' ∉ digits := fun member => absurd (decimal.2 _ member) (by decide)
  rw [List.splitOn_append_cons_self_of_not_mem whole, List.splitOn_eq_singleton plain]

theorem dot_of_v4 {network : Text} {octets : List UInt8} (names : Names .v4 network octets) :
    '.' ∈ network := by
  cases names with
  | dotted read =>
    refine (List.dropWhile_suffix _).subset ((List.rdropWhile_prefix _ _).subset read.dot_mem)

theorem unslashed_of_mem {rule part : Text} (member : part ∈ rule.splitOn '/') : '/' ∉ part := by
  induction rule generalizing part with
  | nil =>
    cases List.mem_singleton.mp member
    exact List.not_mem_nil
  | cons c rule ih =>
    rw [List.splitOn_cons_eq_if_modifyHead] at member
    split at member
    · rcases List.mem_cons.mp member with rfl | later
      · exact List.not_mem_nil
      · exact ih later
    · rename_i other
      obtain ⟨first, parts, split⟩ := List.exists_cons_of_ne_nil (List.splitOn_ne_nil '/' rule)
      rw [split] at member ih
      rcases List.mem_cons.mp member with rfl | later
      · refine List.not_mem_cons_of_ne_of_not_mem ?_ (ih List.mem_cons_self)
        exact fun same => other (beq_iff_eq.mpr same.symm)
      · exact ih (List.mem_cons_of_mem _ later)

/-- The prefix length that the code reads of a well-formed rule. -/
theorem block_width {network digits : Text} (decimal : Decimal digits) {width : Nat} :
    widthOf (if '.' ∈ network then 32 else 128) digits = some width ↔
      width = decimalValue digits ∧ width ≤ if '.' ∈ network then 32 else 128 := by
  refine widthOf_decimal decimal ?_
  split <;> decide

/-- What the code compares is the block, unless the rule is misread. -/
theorem inBlock_of_matches {address rule : Text} (plain : ¬Misread address rule)
    (matched : matchesLiteralRule address rule = true) : InBlock address rule := by
  obtain ⟨network, rest, cut⟩ := List.exists_cons_of_ne_nil (List.splitOn_ne_nil '/' rule)
  obtain ⟨octets, own, read, read', compared⟩ := (matchesLiteralRule_iff cut).mp matched
  obtain ⟨⟨family, names⟩, readable⟩ := toBytes_iff.mp read
  obtain ⟨⟨family', names'⟩, readable'⟩ := toBytes_iff.mp read'
  have joined : ['/'].intercalate (rule.splitOn '/') = rule := List.intercalate_splitOn '/'
  have whole : '/' ∉ network := unslashed_of_mem (cut ▸ List.mem_cons_self : network ∈ _)
  rcases compared with ⟨rfl, same⟩ | ⟨text, more, width, rfl, number, same⟩
  · rw [cut, List.intercalate_singleton] at joined
    subst joined
    exact ⟨octets, 128, .bare whole names, family', own, names', same⟩
  · by_cases malformed : more ≠ [] ∨ ¬Decimal text
    · exact absurd (.loose cut malformed number names names' ⟨readable, readable'⟩ same) plain
    · obtain ⟨rfl, decimal⟩ := not_or.mp malformed |>.imp not_not.mp not_not.mp
      rw [cut, List.intercalate_cons_cons, List.intercalate_singleton, List.append_assoc] at joined
      have shape : rule = network ++ '/' :: text := joined.symm
      obtain ⟨rfl, fits⟩ := (block_width decimal).mp number
      cases family with
      | v4 =>
        rw [if_pos (dot_of_v4 names)] at fits
        rw [comparedBits, if_pos (dot_of_v4 names), Nat.add_comm] at same
        exact ⟨octets, _, .within shape whole names decimal fits, family', own, names', same⟩
      | v6 =>
        refine ⟨octets, _, .within shape whole names decimal ?_, family', own, names', ?_⟩
        · exact Nat.le_trans fits (by split <;> decide)
        · refine same.mono ?_
          simp only [comparedBits, Family.width]
          split <;> omega

theorem matches_of_inBlock {address rule : Text} (plain : ¬Misread address rule)
    (inside : InBlock address rule) : matchesLiteralRule address rule = true := by
  have readable : ¬Unread address ∧ ¬Unread (networkOf rule) :=
    ⟨fun tail => plain (.unread inside (.inl tail)), fun tail => plain (.unread inside (.inr tail))⟩
  obtain ⟨octets, bits, block, family', own, names', same⟩ := inside
  have read' : toBytes address = some own := toBytes_iff.mpr ⟨⟨family', names'⟩, readable.1⟩
  cases block with
  | @bare family octets whole names =>
    have cut : rule.splitOn '/' = [rule] := List.splitOn_eq_singleton whole
    have network : networkOf rule = rule := by rw [networkOf, cut, List.headD_cons]
    rw [network] at readable
    have read := toBytes_iff.mpr ⟨⟨family, names⟩, readable.2⟩
    exact (matchesLiteralRule_iff cut).mpr ⟨octets, own, read, read', .inl ⟨rfl, same⟩⟩
  | @within family network digits octets shape whole names decimal fits =>
    have cut : rule.splitOn '/' = [network, digits] := shape ▸ splitOn_cut whole decimal
    have front : networkOf rule = network := by rw [networkOf, cut, List.headD_cons]
    rw [front] at readable
    have read := toBytes_iff.mpr ⟨⟨family, names⟩, readable.2⟩
    have counted : decimalValue digits ≤ (if '.' ∈ network then 32 else 128) ∧
        SameLeading (comparedBits network (decimalValue digits)) octets own := by
      cases family with
      | v4 =>
        simp only [comparedBits, if_pos (dot_of_v4 names)]
        rw [Nat.add_comm]
        exact ⟨fits, same⟩
      | v6 =>
        have same : SameLeading (decimalValue digits) octets own := by
          simpa only [Family.width, Nat.sub_self, Nat.zero_add] using same
        by_cases dot : '.' ∈ network
        · simp only [comparedBits, if_pos dot]
          by_contra outside
          exact plain (.dotted shape whole names decimal fits dot names' same outside)
        · simp only [comparedBits, if_neg dot]
          exact ⟨fits, same⟩
    exact (matchesLiteralRule_iff cut).mpr ⟨octets, own, read, read', .inr ⟨digits, [],
      decimalValue digits, rfl, (block_width decimal).mpr ⟨rfl, counted.1⟩, counted.2⟩⟩

/-- A misread rule is not taken for its block. -/
theorem not_iff_of_misread {address rule : Text} (misread : Misread address rule)
    (known : ¬(rule.map Char.toLower = "constructor".toList ∨
      rule.map Char.toLower = "__proto__".toList)) :
    ¬(matchesLiteralRule address rule = true ↔ InBlock address rule) := by
  intro same
  cases misread with
  | inherited name => exact known name
  | unread inside tail =>
    obtain ⟨network, rest, cut⟩ := List.exists_cons_of_ne_nil (List.splitOn_ne_nil '/' rule)
    obtain ⟨octets, own, read, read', -⟩ := (matchesLiteralRule_iff cut).mp (same.mpr inside)
    have front : networkOf rule = network := by rw [networkOf, cut, List.headD_cons]
    rw [front] at tail
    exact tail.elim (toBytes_iff.mp read').2 (toBytes_iff.mp read).2
  | @dotted network digits family octets own shape whole names decimal fits dot names' inside
      outside =>
    have cut : rule.splitOn '/' = [network, digits] := shape ▸ splitOn_cut whole decimal
    have block : Block rule octets (128 - Family.v6.width + decimalValue digits) :=
      .within shape whole names decimal fits
    rw [Family.width, Nat.sub_self, Nat.zero_add] at block
    obtain ⟨found, found', read, read', compared⟩ :=
      (matchesLiteralRule_iff cut).mp (same.mpr ⟨octets, _, block, family, own, names', inside⟩)
    have own_read := toBytes_iff.mpr ⟨⟨.v6, names⟩, (toBytes_iff.mp read).2⟩
    cases read.symm.trans own_read
    have own_read' := toBytes_iff.mpr ⟨⟨family, names'⟩, (toBytes_iff.mp read').2⟩
    cases read'.symm.trans own_read'
    rcases compared with ⟨empty, -⟩ | ⟨text, more, width, split, number, counted⟩
    · cases empty
    · cases split
      obtain ⟨rfl, short⟩ := (block_width decimal).mp number
      rw [if_pos dot] at short
      rw [comparedBits, if_pos dot] at counted
      exact outside ⟨short, counted⟩
  | @loose network text more family family' octets own width cut malformed number names names'
      readable inside =>
    have read := toBytes_iff.mpr ⟨⟨family, names⟩, readable.1⟩
    have read' := toBytes_iff.mpr ⟨⟨family', names'⟩, readable.2⟩
    have matched := (matchesLiteralRule_iff cut).mpr
      ⟨octets, own, read, read', .inr ⟨text, more, width, rfl, number, inside⟩⟩
    obtain ⟨octets, bits, block, -⟩ := same.mp matched
    cases block with
    | bare whole _ =>
      rw [List.splitOn_eq_singleton whole] at cut
      cases cut
    | within shape whole _ decimal _ =>
      rw [shape, splitOn_cut whole decimal] at cut
      cases cut
      exact malformed.elim (fun more => more rfl) (fun other => other decimal)

theorem matchesProxyRule_plain {address rule : Text}
    (named : rule.map Char.toLower ≠ "azure-container-apps".toList)
    (known : ¬(rule.map Char.toLower = "constructor".toList ∨
      rule.map Char.toLower = "__proto__".toList)) :
    matchesProxyRule address rule = .ok (matchesLiteralRule address rule) := by
  rw [matchesProxyRule, namedProxyRule, if_neg named, if_neg known]

theorem matchesProxyRule_inherited {address rule : Text}
    (name : rule.map Char.toLower = "constructor".toList ∨
      rule.map Char.toLower = "__proto__".toList) :
    matchesProxyRule address rule = .error "named.some is not a function" := by
  have other : rule.map Char.toLower ≠ "azure-container-apps".toList := by
    rcases name with name | name <;> rw [name] <;> decide
  rw [matchesProxyRule, namedProxyRule, if_neg other, if_pos name]

/-- A rule that is no shorthand matches the addresses of its block, and no others, exactly
where it is not misread. -/
theorem agrees_iff (address rule : Text)
    (named : rule.map Char.toLower ≠ "azure-container-apps".toList) :
    Agrees address rule ↔ ¬Misread address rule := by
  by_cases name : rule.map Char.toLower = "constructor".toList ∨
      rule.map Char.toLower = "__proto__".toList
  · refine iff_of_false ?_ (not_not.mpr (.inherited name))
    rintro ⟨answer, answered, -⟩
    rw [matchesProxyRule_inherited name] at answered
    cases answered
  · rw [Agrees, matchesProxyRule_plain named name]
    constructor
    · rintro ⟨answer, answered, same⟩ misread
      cases answered
      exact not_iff_of_misread misread name same
    · intro plain
      exact ⟨_, rfl, inBlock_of_matches plain, matches_of_inBlock plain⟩

theorem agrees_iff_private : Agrees "10.4.2.1".toList "10.0.0.0/8".toList ↔
    ¬Misread "10.4.2.1".toList "10.0.0.0/8".toList :=
  agrees_iff _ _ (by decide)

/-- An empty prefix is read as zero, and every address matches. -/
theorem not_agrees_emptyPrefix : ¬Agrees "203.0.113.7".toList "10.0.0.0/".toList := by
  rintro ⟨answer, answered, same⟩
  have matched : matchesProxyRule "203.0.113.7".toList "10.0.0.0/".toList = .ok true := by
    decide +kernel
  cases matched.symm.trans answered
  obtain ⟨octets, bits, block, -⟩ := same.mp rfl
  have cut : "10.0.0.0/".toList.splitOn '/' = ["10.0.0.0".toList, []] := by decide +kernel
  cases block with
  | bare whole _ => exact absurd (by decide) whole
  | within shape whole _ decimal _ =>
    rw [shape, splitOn_cut whole decimal] at cut
    cases cut
    exact decimal.1 rfl

end BoothOperator.ClientIp
