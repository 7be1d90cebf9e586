import Mathlib.Algebra.Ring.Nat
import Mathlib.Data.List.Basic

/-! Texts as sequences of UTF-16 code units, any of which may be half of a pair that is not
there, the octets that UTF-8 takes for them, and the JSON of values with such texts. -/
namespace BoothOperator.Utf16

abbrev Text := List UInt16

/-- The units of a text whose characters take one unit each. -/
def units (text : String) : Text := text.toList.map fun c => UInt16.ofNat c.toNat

/-- The first half of a pair. -/
def isHigh (unit : UInt16) : Bool := 0xD800 ≤ unit && unit < 0xDC00

def isLow (unit : UInt16) : Bool := 0xDC00 ≤ unit && unit < 0xE000

/-- The octets of a unit that stands alone; half of a pair is replaced. -/
def unitBytes (unit : UInt16) : Nat :=
  if unit < 0x80 then 1 else if unit < 0x800 then 2 else 3

def byteLength : Text → Nat
  | [] => 0
  | [unit] => unitBytes unit
  | unit :: next :: rest =>
    if isHigh unit && isLow next then 4 + byteLength rest
    else unitBytes unit + byteLength (next :: rest)

/-! ## JSON -/

/-- A JSON value; the members of an object stand in the order of its keys. -/
inductive Value (ν : Type) where
  | null
  | bool (value : Bool)
  | num (value : ν)
  | str (value : Text)
  | arr (items : List (Value ν))
  | obj (members : List (Text × Value ν))

abbrev Members (ν : Type) := List (Text × Value ν)

def hexDigit (n : UInt16) : UInt16 := if n < 10 then 0x30 + n else 0x57 + n

/-- `\u` and four digits. -/
def unicodeEscape (unit : UInt16) : Text :=
  [0x5C, 0x75, hexDigit (unit / 0x1000), hexDigit (unit / 0x100 % 0x10),
    hexDigit (unit / 0x10 % 0x10), hexDigit (unit % 0x10)]

/-- One unit inside a string literal, when it is not part of a pair. -/
def escape (unit : UInt16) : Text :=
  if unit = 0x22 then [0x5C, 0x22]
  else if unit = 0x5C then [0x5C, 0x5C]
  else if unit = 0x08 then [0x5C, 0x62]
  else if unit = 0x0C then [0x5C, 0x66]
  else if unit = 0x0A then [0x5C, 0x6E]
  else if unit = 0x0D then [0x5C, 0x72]
  else if unit = 0x09 then [0x5C, 0x74]
  else if unit < 0x20 || isHigh unit || isLow unit then unicodeEscape unit
  else [unit]

def escaped : Text → Text
  | [] => []
  | [unit] => escape unit
  | unit :: next :: rest =>
    if isHigh unit && isLow next then unit :: next :: escaped rest
    else escape unit ++ escaped (next :: rest)

/-- A string literal with its quotes. -/
def quote (text : Text) : Text := 0x22 :: (escaped text ++ [0x22])

variable {ν : Type}

mutual

/-- `JSON.stringify`, with the texts of the numbers. -/
def stringify (numberText : ν → Text) : Value ν → Text
  | .null => units "null"
  | .bool true => units "true"
  | .bool false => units "false"
  | .num value => numberText value
  | .str value => quote value
  | .arr [] => units "[]"
  | .arr (item :: rest) => 0x5B :: (stringify numberText item ++ stringifyItems numberText rest)
  | .obj [] => units "{}"
  | .obj ((name, item) :: rest) =>
    0x7B :: (quote name ++ 0x3A :: (stringify numberText item ++ stringifyMembers numberText rest))

/-- The rest of an array after an item. -/
def stringifyItems (numberText : ν → Text) : List (Value ν) → Text
  | [] => [0x5D]
  | item :: rest => 0x2C :: (stringify numberText item ++ stringifyItems numberText rest)

/-- The rest of an object after a member. -/
def stringifyMembers (numberText : ν → Text) : Members ν → Text
  | [] => [0x7D]
  | (name, item) :: rest =>
    0x2C :: (quote name ++ 0x3A :: (stringify numberText item ++ stringifyMembers numberText rest))

end

/-! ## Octets -/

section Octets

variable {unit : UInt16} {first second : Text}

/-- A unit that is not the first half of a pair is counted by itself. -/
theorem byteLength_cons (plain : isHigh unit = false) (rest : Text) :
    byteLength (unit :: rest) = unitBytes unit + byteLength rest := by
  cases rest with
  | nil => rfl
  | cons next rest => rw [byteLength, plain, Bool.false_and, if_neg Bool.false_ne_true]

/-- A unit that is no half of a pair separates what is before it from what is after. -/
theorem byteLength_append_cons (plain : isHigh unit = false) (whole : isLow unit = false)
    (first second : Text) :
    byteLength (first ++ unit :: second) =
      byteLength first + (unitBytes unit + byteLength second) := by
  fun_induction byteLength first with
  | case1 => rw [List.nil_append, byteLength_cons plain, Nat.zero_add]
  | case2 last =>
    rw [List.singleton_append, byteLength, whole, Bool.and_false, if_neg Bool.false_ne_true,
      byteLength_cons plain]
  | case3 high low rest pair ih =>
    rw [List.cons_append, List.cons_append, byteLength, if_pos pair, ih, Nat.add_assoc]
  | case4 unit' next rest apart ih =>
    rw [List.cons_append, List.cons_append, byteLength, if_neg apart, ← List.cons_append, ih,
      Nat.add_assoc]

theorem byteLength_quote_append (text rest : Text) :
    byteLength (quote text ++ rest) = byteLength (quote text) + byteLength rest := by
  rw [quote, List.cons_append, byteLength_cons (by decide), byteLength_cons (by decide),
    List.append_assoc, List.singleton_append, byteLength_append_cons (by decide) (by decide),
    byteLength_append_cons (by decide) (by decide), byteLength]
  omega

/-- The strings of an array after its first item, and the bracket. -/
theorem byteLength_stringifyItems_str (numberText : ν → Text) (texts : List Text) :
    byteLength (stringifyItems numberText (texts.map .str)) =
      (texts.map fun text => byteLength (quote text)).sum + texts.length + 1 := by
  induction texts with
  | nil => rfl
  | cons text rest ih =>
    rw [List.map_cons, stringifyItems, stringify, byteLength_cons (by decide),
      byteLength_quote_append, ih, List.map_cons, List.sum_cons, List.length_cons]
    have comma : unitBytes 0x2C = 1 := rfl
    omega

/-- An array of strings takes its strings, a separator or bracket before each and the last
bracket; an empty one takes two. -/
theorem byteLength_stringify_strs (numberText : ν → Text) (texts : List Text) :
    byteLength (stringify numberText (.arr (texts.map .str))) =
      (texts.map fun text => byteLength (quote text)).sum + (texts.length - 1) + 2 := by
  cases texts with
  | nil => rfl
  | cons text rest =>
    rw [List.map_cons, stringify, stringify, byteLength_cons (by decide), byteLength_quote_append,
      byteLength_stringifyItems_str, List.map_cons, List.sum_cons, List.length_cons]
    have bracket : unitBytes 0x5B = 1 := rfl
    omega

end Octets

end BoothOperator.Utf16
