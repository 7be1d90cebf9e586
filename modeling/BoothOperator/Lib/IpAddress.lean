import Mathlib.Data.List.Basic
import Mathlib.Data.List.Chain
import Mathlib.Data.List.Forall2

/-! The texts of IPv4 and IPv6 addresses: four decimal octets with dots between them, or
groups of hexadecimal digits with colons between them, of which one run of zero groups may be
left out and the last two written as an IPv4 address. An address is its sixteen octets, an
IPv4 one those of its mapped form. -/
namespace BoothOperator.IpAddress

def hexValue (c : Char) : Nat :=
  if c.isDigit then c.toNat - '0'.toNat
  else if 'a' ≤ c then c.toNat - 'a'.toNat + 10
  else c.toNat - 'A'.toNat + 10

structure Octet (text : List Char) (octet : UInt8) : Prop where
  nonempty : text ≠ []
  short : text.length ≤ 3
  digits : ∀ c ∈ text, c.isDigit
  value : Nat.ofDigitChars 10 text 0 = octet.toNat

/-- A group of a text and its two octets. -/
structure Group (text : List Char) (high low : UInt8) : Prop where
  nonempty : text ≠ []
  short : text.length ≤ 4
  digits : ∀ c ∈ text, c.isHexDigit
  value : text.foldl (fun word c => 16 * word + hexValue c) 0 = 256 * high.toNat + low.toNat

inductive Groups : List (List Char) → List UInt8 → Prop where
  | nil : Groups [] []
  | cons {text : List Char} {texts : List (List Char)} {high low : UInt8} {octets : List UInt8}
      (head : Group text high low) (tail : Groups texts octets) :
      Groups (text :: texts) (high :: low :: octets)

def dots (texts : List (List Char)) : List Char := ['.'].intercalate texts

def colons (texts : List (List Char)) : List Char := [':'].intercalate texts

/-- Groups that more text follows. -/
def terminated (texts : List (List Char)) : List Char := texts.flatMap (· ++ [':'])

structure Dotted (text : List Char) (octets : List UInt8) : Prop where
  runs : ∃ runs, List.Forall₂ Octet runs octets ∧ text = dots runs
  four : octets.length = 4

def zeros (count : Nat) : List UInt8 := List.replicate count 0

/-- An IPv6 address in groups alone. -/
inductive Grouped : List Char → List UInt8 → Prop where
  | full {texts : List (List Char)} {octets : List UInt8} (groups : Groups texts octets)
      (eight : octets.length = 16) : Grouped (colons texts) octets
  | elided {left right : List (List Char)} {front back : List UInt8} (before : Groups left front)
      (after : Groups right back) (fewer : front.length + back.length < 16) :
      Grouped (colons left ++ ':' :: ':' :: colons right)
        (front ++ zeros (16 - (front.length + back.length)) ++ back)

/-- An IPv6 address that ends in an IPv4 one. -/
inductive Tailed : List Char → List UInt8 → Prop where
  | full {texts : List (List Char)} {octets last : List UInt8} {tail : List Char}
      (groups : Groups texts octets) (six : octets.length = 12) (dotted : Dotted tail last) :
      Tailed (terminated texts ++ tail) (octets ++ last)
  | elided {left right : List (List Char)} {front back last : List UInt8} {tail : List Char}
      (before : Groups left front) (after : Groups right back) (dotted : Dotted tail last)
      (fewer : front.length + back.length < 12) :
      Tailed (colons left ++ ':' :: ':' :: terminated right ++ tail)
        (front ++ zeros (12 - (front.length + back.length)) ++ back ++ last)

/-- The octets before an IPv4 address in its mapped form. -/
def mapped : List UInt8 := zeros 10 ++ [0xff, 0xff]

inductive Family where
  | v4 | v6
  deriving DecidableEq, Repr

/-- The bits that a prefix length counts. -/
def Family.width : Family → Nat
  | .v4 => 32
  | .v6 => 128

inductive Literal : Family → List Char → List UInt8 → Prop where
  | dotted {text : List Char} {octets : List UInt8} (read : Dotted text octets) :
      Literal .v4 text (mapped ++ octets)
  | grouped {text : List Char} {octets : List UInt8} (read : Grouped text octets) :
      Literal .v6 text octets
  | tailed {text : List Char} {octets : List UInt8} (read : Tailed text octets) :
      Literal .v6 text octets

/-! ## Characters -/

theorem isHexDigit_ne {c : Char} (hex : c.isHexDigit) : c ≠ ':' ∧ c ≠ '.' ∧ c ≠ '%' := by
  refine ⟨?_, ?_, ?_⟩ <;> rintro rfl <;> revert hex <;> decide

theorem isDigit_ne {c : Char} (digit : c.isDigit) : c ≠ ':' ∧ c ≠ '.' ∧ c ≠ '%' := by
  refine ⟨?_, ?_, ?_⟩ <;> rintro rfl <;> revert digit <;> decide

theorem mem_intercalate {c separator : Char} {texts : List (List Char)}
    (member : c ∈ [separator].intercalate texts) : c = separator ∨ ∃ text ∈ texts, c ∈ text := by
  induction texts with
  | nil => cases member
  | cons text rest ih =>
    cases rest with
    | nil =>
      rw [List.intercalate_singleton] at member
      exact .inr ⟨text, List.mem_singleton_self text, member⟩
    | cons next rest =>
      rw [List.intercalate_cons_cons, List.mem_append, List.mem_append] at member
      rcases member with (own | between) | later
      · exact .inr ⟨text, List.mem_cons_self, own⟩
      · exact .inl (List.mem_singleton.mp between)
      · rcases ih later with same | ⟨other, there, inside⟩
        · exact .inl same
        · exact .inr ⟨other, List.mem_cons_of_mem _ there, inside⟩

section Groups

variable {texts : List (List Char)} {octets : List UInt8}

theorem Groups.each (groups : Groups texts octets) :
    ∀ text ∈ texts, text ≠ [] ∧ ∀ c ∈ text, c.isHexDigit := by
  induction groups with
  | nil =>
    intro text member
    cases member
  | cons head tail ih =>
    intro text member
    rcases List.mem_cons.mp member with rfl | later
    · exact ⟨head.nonempty, head.digits⟩
    · exact ih text later

theorem Groups.length (groups : Groups texts octets) : octets.length = 2 * texts.length := by
  induction groups with
  | nil => rfl
  | cons head tail ih =>
    simp only [List.length_cons, ih]
    omega

theorem Groups.hex (groups : Groups texts octets) {c : Char} (member : c ∈ colons texts) :
    c = ':' ∨ c.isHexDigit := by
  rcases mem_intercalate member with same | ⟨text, there, inside⟩
  · exact .inl same
  · exact .inr ((groups.each text there).2 c inside)

theorem Groups.unseparated (groups : Groups texts octets) : ∀ text ∈ texts, ':' ∉ text :=
  fun text there inside => (isHexDigit_ne ((groups.each text there).2 _ inside)).1 rfl

/-- The text of groups begins with a digit. -/
theorem Groups.starts (groups : Groups texts octets) (some : texts ≠ []) :
    ∃ c rest, c.isHexDigit ∧ colons texts = c :: rest := by
  cases groups with
  | nil => exact absurd rfl some
  | @cons text texts high low octets head tail =>
    cases text with
    | nil => exact absurd rfl head.nonempty
    | cons c text =>
      exact ⟨c, colons (text :: texts), head.digits c List.mem_cons_self,
        List.intercalate_cons_cons_left⟩

end Groups

/-! ## Colons -/

/-- Not two colons. -/
def Apart (a b : Char) : Prop := ¬(a = ':' ∧ b = ':')

theorem isChain_of_not_mem {text : List Char} (unseparated : ':' ∉ text) :
    text.IsChain Apart := by
  induction text with
  | nil => exact .nil
  | cons c text ih =>
    obtain ⟨other, rest⟩ := List.ne_and_not_mem_of_not_mem_cons unseparated
    exact (ih rest).cons fun _ _ both => other both.1.symm

theorem isChain_colons {texts : List (List Char)} {octets : List UInt8}
    (groups : Groups texts octets) : (colons texts ++ [':']).IsChain Apart := by
  induction groups with
  | nil => exact .singleton _
  | @cons text texts high low octets head tail ih =>
    have plain : ':' ∉ text := fun inside => (isHexDigit_ne (head.digits _ inside)).1 rfl
    have own : (text ++ [':']).IsChain Apart := by
      refine (isChain_of_not_mem plain).append (.singleton _) fun c last _ _ both => plain ?_
      exact both.1 ▸ List.mem_of_mem_getLast? last
    cases texts with
    | nil => simpa [colons] using own
    | cons next texts =>
      obtain ⟨c, rest, hex, starts⟩ := tail.starts (List.cons_ne_nil _ _)
      have joined : colons (text :: next :: texts) ++ [':'] =
          (text ++ [':']) ++ (colons (next :: texts) ++ [':']) := by
        simp [colons]
      rw [joined]
      refine own.append ih fun last _ first opening both => ?_
      rw [starts] at opening
      cases Option.some.inj opening
      exact (isHexDigit_ne hex).1 both.2

/-! ## Dotted addresses -/

section Dotted

variable {text : List Char} {octets : List UInt8}

/-- Digits and dots are no separators of other texts. -/
theorem not_mem_dots {runs : List (List Char)} (digits : ∀ run ∈ runs, ∀ c ∈ run, c.isDigit) :
    ':' ∉ dots runs ∧ '%' ∉ dots runs := by
  constructor
  all_goals
    intro member
    rcases mem_intercalate member with same | ⟨run, there, inside⟩
    · exact absurd same (by decide)
    · exact absurd (digits run there _ inside) (by decide)

theorem octet_of_mem {runs : List (List Char)} (read : List.Forall₂ Octet runs octets)
    {run : List Char} (member : run ∈ runs) : ∃ octet, Octet run octet := by
  induction read with
  | nil => cases member
  | cons own _ ih =>
    rcases List.mem_cons.mp member with rfl | later
    · exact ⟨_, own⟩
    · exact ih later

theorem Dotted.plain (dotted : Dotted text octets) : ':' ∉ text ∧ '%' ∉ text := by
  obtain ⟨⟨runs, read, rfl⟩, -⟩ := dotted
  refine not_mem_dots fun run there => ?_
  obtain ⟨octet, own⟩ := octet_of_mem read there
  exact own.digits

theorem dot_mem_dots {runs : List (List Char)} (four : runs.length = 4) : '.' ∈ dots runs := by
  match runs, four with
  | [_, _, _, _], _ => simp [dots]

theorem Dotted.dot_mem (dotted : Dotted text octets) : '.' ∈ text := by
  obtain ⟨⟨runs, read, rfl⟩, four⟩ := dotted
  exact dot_mem_dots (read.length_eq.trans four)

theorem Grouped.each (grouped : Grouped text octets) {c : Char} (member : c ∈ text) :
    c = ':' ∨ c.isHexDigit := by
  cases grouped with
  | full groups eight => exact groups.hex member
  | elided before after fewer =>
    rcases List.mem_append.mp member with front | back
    · exact before.hex front
    · rcases List.mem_cons.mp back with same | back
      · exact .inl same
      · rcases List.mem_cons.mp back with same | back
        · exact .inl same
        · exact after.hex back

theorem Grouped.no_dot (grouped : Grouped text octets) : '.' ∉ text := by
  intro member
  rcases grouped.each member with same | hex
  · exact absurd same (by decide)
  · exact (isHexDigit_ne hex).2.1 rfl

theorem Grouped.colon_mem (grouped : Grouped text octets) : ':' ∈ text := by
  cases grouped with
  | @full texts octets groups eight =>
    have long := groups.length
    rw [eight] at long
    match texts, long with
    | _ :: _ :: _, _ => simp [colons]
  | elided before after fewer => simp

theorem Tailed.colon_mem (tailed : Tailed text octets) : ':' ∈ text := by
  cases tailed with
  | @full texts octets last tail groups six dotted =>
    have long := groups.length
    rw [six] at long
    match texts, long with
    | _ :: _, _ => simp [terminated]
  | elided before after dotted fewer => simp

theorem Tailed.dot_mem (tailed : Tailed text octets) : '.' ∈ text := by
  cases tailed with
  | full groups six dotted => exact List.mem_append_right _ dotted.dot_mem
  | elided before after dotted fewer => exact List.mem_append_right _ dotted.dot_mem

theorem Grouped.length (grouped : Grouped text octets) : octets.length = 16 := by
  cases grouped with
  | full groups eight => exact eight
  | elided before after fewer =>
    simp only [zeros, List.length_append, List.length_replicate]
    omega

theorem Tailed.length (tailed : Tailed text octets) : octets.length = 16 := by
  cases tailed with
  | full groups six dotted => rw [List.length_append, six, dotted.four]
  | elided before after dotted fewer =>
    simp only [zeros, List.length_append, List.length_replicate, dotted.four]
    omega

theorem Literal.length {family : Family} (literal : Literal family text octets) :
    octets.length = 16 := by
  cases literal with
  | dotted read => rw [List.length_append, read.four, mapped, zeros]; rfl
  | grouped read => exact read.length
  | tailed read => exact read.length

end Dotted

/-! ## Blocks -/

def octetAt (octets : List UInt8) (i : Nat) : UInt8 := octets[i]?.getD 0

/-- Bits are counted from the highest of the first octet. -/
def bitAt (octets : List UInt8) (i : Nat) : Bool := (octetAt octets (i / 8)).toNat.testBit (7 - i % 8)

def SameLeading (bits : Nat) (one other : List UInt8) : Prop :=
  ∀ i < bits, bitAt one i = bitAt other i

instance (bits : Nat) (one other : List UInt8) : Decidable (SameLeading bits one other) :=
  inferInstanceAs (Decidable (∀ i < bits, bitAt one i = bitAt other i))

theorem SameLeading.mono {few many : Nat} {one other : List UInt8} (fewer : few ≤ many)
    (same : SameLeading many one other) : SameLeading few one other :=
  fun i below => same i (Nat.lt_of_lt_of_le below fewer)

theorem testBit_octet {octet : UInt8} {i : Nat} (high : 8 ≤ i) : octet.toNat.testBit i = false :=
  Nat.testBit_lt_two_pow (Nat.lt_of_lt_of_le octet.toNat_lt (Nat.pow_le_pow_right (by decide) high))

theorem octet_ext {one other : UInt8}
    (same : ∀ i < 8, one.toNat.testBit i = other.toNat.testBit i) : one = other := by
  refine UInt8.toNat_inj.mp (Nat.eq_of_testBit_eq fun i => ?_)
  rcases Nat.lt_or_ge i 8 with low | high
  · exact same i low
  · rw [testBit_octet high, testBit_octet high]

/-- Leading bits are those of whole octets and of a part of one. -/
theorem sameLeading_iff {bits : Nat} {one other : List UInt8} :
    SameLeading bits one other ↔ (∀ k < bits / 8, octetAt one k = octetAt other k) ∧
      ∀ i < bits % 8, (octetAt one (bits / 8)).toNat.testBit (7 - i) =
        (octetAt other (bits / 8)).toNat.testBit (7 - i) := by
  constructor
  · intro same
    refine ⟨fun k whole => octet_ext fun i low => ?_, fun i partly => ?_⟩
    · have bit := same (8 * k + (7 - i)) (by omega)
      have own : (8 * k + (7 - i)) / 8 = k := by omega
      have place : 7 - (8 * k + (7 - i)) % 8 = i := by omega
      simpa only [bitAt, own, place] using bit
    · have bit := same (8 * (bits / 8) + i) (by omega)
      have own : (8 * (bits / 8) + i) / 8 = bits / 8 := by omega
      have place : (8 * (bits / 8) + i) % 8 = i := by omega
      simpa only [bitAt, own, place] using bit
  · rintro ⟨whole, partly⟩ i below
    rcases Nat.lt_or_ge (i / 8) (bits / 8) with before | last
    · rw [bitAt, bitAt, whole _ before]
    · have own : i / 8 = bits / 8 := by omega
      rw [bitAt, bitAt, own]
      exact partly _ (by omega)

theorem take_eq_iff {count : Nat} {one other : List UInt8} (same : one.length = other.length) :
    one.take count = other.take count ↔ ∀ k < count, octetAt one k = octetAt other k := by
  constructor
  · intro taken k below
    have own := congrArg (fun octets => octetAt octets k) taken
    simpa only [octetAt, List.getElem?_take_of_lt below] using own
  · intro each
    refine List.ext_getElem? fun k => ?_
    rcases Nat.lt_or_ge k count with below | past
    · rw [List.getElem?_take_of_lt below, List.getElem?_take_of_lt below]
      rcases Nat.lt_or_ge k one.length with inside | outside
      · have own := each k below
        rw [octetAt, octetAt, List.getElem?_eq_getElem inside,
          List.getElem?_eq_getElem (same ▸ inside)] at own
        rw [List.getElem?_eq_getElem inside, List.getElem?_eq_getElem (same ▸ inside)]
        exact congrArg some own
      · rw [List.getElem?_eq_none outside, List.getElem?_eq_none (same ▸ outside)]
    · rw [List.getElem?_eq_none, List.getElem?_eq_none]
      · exact Nat.le_trans (List.length_take_le _ _) past
      · exact Nat.le_trans (List.length_take_le _ _) past

end BoothOperator.IpAddress
