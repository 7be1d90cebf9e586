import Mathlib.Data.List.Basic

/-! JSON values and their text. Numbers are a parameter: a reader keeps the
literal it read, a store its own number type, and a document without numbers
takes the empty type. `stringify` writes a value as `JSON.stringify` does with
no indentation; `stringify_injective` says that no two values share a text, so
that a digest of the text stands for the value. -/
namespace BoothOperator.Json

/-- A JSON value; the members of an object stand in source order. -/
inductive Value (ν : Type) where
  | null
  | bool (value : Bool)
  | num (value : ν)
  | str (value : String)
  | arr (items : List (Value ν))
  | obj (members : List (String × Value ν))
  deriving Repr

variable {ν : Type}

namespace Value

/-- The value of an object's member. Of members with one name the last wins. -/
def lookup (name : String) (members : List (String × Value ν)) : Option (Value ν) :=
  (members.reverse.find? fun member => member.1 == name).map (·.2)

/-- `Object.keys`: each name once. -/
def keys (members : List (String × Value ν)) : List String :=
  (members.map (·.1)).dedup

end Value

/-! ## Writing -/

/-- A hexadecimal digit, in lower case. -/
def hexDigit (n : Nat) : Char :=
  if n < 10 then Char.ofNat (48 + n) else Char.ofNat (87 + n)

/-- One character inside a string literal. -/
def escape (c : Char) : List Char :=
  if c = '"' then ['\\', '"']
  else if c = '\\' then ['\\', '\\']
  else if c = '\x08' then ['\\', 'b']
  else if c = '\x0c' then ['\\', 'f']
  else if c = '\n' then ['\\', 'n']
  else if c = '\r' then ['\\', 'r']
  else if c = '\t' then ['\\', 't']
  else if c.toNat < 32 then ['\\', 'u', '0', '0', hexDigit (c.toNat / 16), hexDigit (c.toNat % 16)]
  else [c]

def quoteTail : List Char → List Char
  | [] => ['"']
  | c :: rest => escape c ++ quoteTail rest

/-- A string literal with its quotes. -/
def quote (text : String) : List Char := '"' :: quoteTail text.toList

mutual

/-- `JSON.stringify`, with `render` for the numbers. -/
def write (render : ν → List Char) : Value ν → List Char
  | .null => ['n', 'u', 'l', 'l']
  | .bool true => ['t', 'r', 'u', 'e']
  | .bool false => ['f', 'a', 'l', 's', 'e']
  | .num value => render value
  | .str value => quote value
  | .arr [] => ['[', ']']
  | .arr (item :: rest) => '[' :: (write render item ++ writeItems render rest)
  | .obj [] => ['{', '}']
  | .obj ((name, item) :: rest) =>
    '{' :: (quote name ++ ':' :: (write render item ++ writeMembers render rest))

/-- The rest of an array after an item. -/
def writeItems (render : ν → List Char) : List (Value ν) → List Char
  | [] => [']']
  | item :: rest => ',' :: (write render item ++ writeItems render rest)

/-- The rest of an object after a member. -/
def writeMembers (render : ν → List Char) : List (String × Value ν) → List Char
  | [] => ['}']
  | (name, item) :: rest =>
    ',' :: (quote name ++ ':' :: (write render item ++ writeMembers render rest))

end

def stringify (render : ν → List Char) (value : Value ν) : String :=
  String.ofList (write render value)

/-! ## Reading back what was written -/

private def hexValue (c : Char) : Nat :=
  if c.toNat < 58 then c.toNat - 48 else c.toNat - 87

/-- The character an escape sequence at the head of the text stands for. -/
private def unescape : List Char → Option (Char × List Char)
  | '\\' :: 'u' :: '0' :: '0' :: high :: low :: rest =>
    some (Char.ofNat (16 * hexValue high + hexValue low), rest)
  | '\\' :: 'b' :: rest => some ('\x08', rest)
  | '\\' :: 'f' :: rest => some ('\x0c', rest)
  | '\\' :: 'n' :: rest => some ('\n', rest)
  | '\\' :: 'r' :: rest => some ('\r', rest)
  | '\\' :: 't' :: rest => some ('\t', rest)
  | '\\' :: c :: rest => some (c, rest)
  | c :: rest => some (c, rest)
  | [] => none

private theorem hex_pair : ∀ n < 32,
    Char.ofNat (16 * hexValue (hexDigit (n / 16)) + hexValue (hexDigit (n % 16))) =
      Char.ofNat n := by decide

private theorem unescape_escape (c : Char) (rest : List Char) :
    unescape (escape c ++ rest) = some (c, rest) := by
  unfold escape
  split_ifs with quoted slash back feed line ret tab control
  · simp [unescape, quoted]
  · simp [unescape, slash]
  · simp [unescape, back]
  · simp [unescape, feed]
  · simp [unescape, line]
  · simp [unescape, ret]
  · simp [unescape, tab]
  · simp [unescape, hex_pair _ control, Char.ofNat_toNat]
  · simp only [List.singleton_append]
    unfold unescape
    split <;> simp_all

private theorem escape_unique {c d : Char} {x y : List Char}
    (same : escape c ++ x = escape d ++ y) : c = d ∧ x = y := by
  have read := unescape_escape c x
  rw [same, unescape_escape] at read
  simpa [eq_comm] using read

private theorem escape_ne_quote (c : Char) (x y : List Char) : escape c ++ x ≠ '"' :: y := by
  unfold escape
  split_ifs with quoted <;> simp [quoted]

private theorem quoteTail_unique {a b x y : List Char}
    (same : quoteTail a ++ x = quoteTail b ++ y) : a = b ∧ x = y := by
  induction a generalizing b with
  | nil =>
    cases b with
    | nil => simpa [quoteTail] using same
    | cons d rest =>
      simp only [quoteTail, List.singleton_append, List.append_assoc] at same
      exact absurd same.symm (escape_ne_quote _ _ _)
  | cons c rest ih =>
    cases b with
    | nil =>
      simp only [quoteTail, List.singleton_append, List.append_assoc] at same
      exact absurd same (escape_ne_quote _ _ _)
    | cons d others =>
      simp only [quoteTail, List.append_assoc] at same
      obtain ⟨rfl, later⟩ := escape_unique same
      obtain ⟨rfl, after⟩ := ih later
      exact ⟨rfl, after⟩

theorem quote_unique {a b : String} {x y : List Char} (same : quote a ++ x = quote b ++ y) :
    a = b ∧ x = y := by
  simp only [quote, List.cons_append, List.cons.injEq, true_and] at same
  obtain ⟨chars, after⟩ := quoteTail_unique same
  exact ⟨String.toList_injective chars, after⟩

/-- What may follow a value: nothing, or the character that ends its place. -/
def Ends : List Char → Prop
  | [] => True
  | c :: _ => c = ',' ∨ c = ']' ∨ c = '}'

/-- What `stringify` needs of the number literals: they begin as a number
does, and where one ends can be told from what follows. -/
structure Literals (render : ν → List Char) : Prop where
  starts : ∀ value, ∃ c rest, render value = c :: rest ∧ (c = '-' ∨ c.isDigit = true)
  unique : ∀ v w x y, Ends x → Ends y → render v ++ x = render w ++ y → v = w ∧ x = y

section Unique

variable {render : ν → List Char}

private theorem ends_items (rest : List (Value ν)) (x : List Char) :
    Ends (writeItems render rest ++ x) := by
  cases rest <;> simp [writeItems, Ends]

private theorem ends_members (rest : List (String × Value ν)) (x : List Char) :
    Ends (writeMembers render rest ++ x) := by
  cases rest <;> simp [writeMembers, Ends]

/-- Which kind of value a text begins. -/
private def kindOf (c : Char) : Nat :=
  if c = '-' ∨ c.isDigit = true then 5 else if c = 'n' then 0 else if c = 't' ∨ c = 'f' then 1
  else if c = '"' then 2 else if c = '[' then 3 else if c = '{' then 4 else 6

private def kind : Value ν → Nat
  | .null => 0
  | .bool _ => 1
  | .str _ => 2
  | .arr _ => 3
  | .obj _ => 4
  | .num _ => 5

private theorem write_kind (literals : Literals render) (a : Value ν) :
    ∃ c rest, write render a = c :: rest ∧ kindOf c = kind a := by
  cases a with
  | null => exact ⟨_, _, rfl, rfl⟩
  | bool v => cases v <;> exact ⟨_, _, rfl, rfl⟩
  | str v => exact ⟨_, _, rfl, rfl⟩
  | arr items => cases items <;> exact ⟨_, _, rfl, rfl⟩
  | obj members => cases members <;> exact ⟨_, _, rfl, rfl⟩
  | num v =>
    obtain ⟨c, rest, start, begins⟩ := literals.starts v
    exact ⟨c, rest, start, if_pos begins⟩

private theorem kind_unique (literals : Literals render) {a b : Value ν} {x y : List Char}
    (same : write render a ++ x = write render b ++ y) : kind a = kind b := by
  obtain ⟨c, rest, startA, kindA⟩ := write_kind literals a
  obtain ⟨d, others, startB, kindB⟩ := write_kind literals b
  rw [startA, startB, List.cons_append, List.cons_append, List.cons.injEq] at same
  rw [← kindA, ← kindB, same.1]

private theorem write_ne_close (literals : Literals render) (a : Value ν) (x y : List Char) :
    write render a ++ x ≠ ']' :: y := by
  obtain ⟨c, rest, start, kinds⟩ := write_kind literals a
  intro same
  rw [start, List.cons_append, List.cons.injEq] at same
  rw [same.1, show kindOf ']' = 6 from rfl] at kinds
  cases a <;> simp [kind] at kinds

mutual

/-- What is written can be read back in only one way. -/
private theorem write_unique (literals : Literals render) (a b : Value ν) {x y : List Char}
    (endX : Ends x) (endY : Ends y) (same : write render a ++ x = write render b ++ y) :
    a = b ∧ x = y := by
  have kinds := kind_unique literals same
  cases a with
  | null =>
    cases b with
    | null => simpa [write] using same
    | _ => simp [kind] at kinds
  | bool v =>
    cases b with
    | bool w => cases v <;> cases w <;> simp_all [write]
    | _ => simp [kind] at kinds
  | num v =>
    cases b with
    | num w =>
      obtain ⟨rfl, after⟩ := literals.unique v w x y endX endY same
      exact ⟨rfl, after⟩
    | _ => simp [kind] at kinds
  | str v =>
    cases b with
    | str w =>
      obtain ⟨rfl, after⟩ := quote_unique same
      exact ⟨rfl, after⟩
    | _ => simp [kind] at kinds
  | arr items =>
    cases b with
    | arr others =>
      match items, others with
      | [], [] => simpa [write] using same
      | [], b :: bs =>
        simp only [write, List.cons_append, List.nil_append, List.cons.injEq, true_and,
          List.append_assoc] at same
        exact absurd same.symm (write_ne_close literals b _ _)
      | a :: as, [] =>
        simp only [write, List.cons_append, List.nil_append, List.cons.injEq, true_and,
          List.append_assoc] at same
        exact absurd same (write_ne_close literals a _ _)
      | a :: as, b :: bs =>
        simp only [write, List.cons_append, List.cons.injEq, true_and, List.append_assoc] at same
        obtain ⟨rfl, later⟩ := write_unique literals a b (ends_items as x) (ends_items bs y) same
        obtain ⟨rfl, after⟩ := writeItems_unique literals as bs endX endY later
        exact ⟨rfl, after⟩
    | _ => simp [kind] at kinds
  | obj members =>
    cases b with
    | obj others =>
      match members, others with
      | [], [] => simpa [write] using same
      | [], _ :: _ => simp [write, quote] at same
      | _ :: _, [] => simp [write, quote] at same
      | (k, a) :: as, (l, b) :: bs =>
        simp only [write, List.cons_append, List.cons.injEq, true_and, List.append_assoc] at same
        obtain ⟨rfl, colon⟩ := quote_unique same
        simp only [List.cons.injEq, true_and] at colon
        obtain ⟨rfl, later⟩ :=
          write_unique literals a b (ends_members as x) (ends_members bs y) colon
        obtain ⟨rfl, after⟩ := writeMembers_unique literals as bs endX endY later
        exact ⟨rfl, after⟩
    | _ => simp [kind] at kinds

private theorem writeItems_unique (literals : Literals render) :
    ∀ (as bs : List (Value ν)) {x y : List Char}, Ends x → Ends y →
      writeItems render as ++ x = writeItems render bs ++ y → as = bs ∧ x = y
  | [], [], _, _, _, _, same => by simpa [writeItems] using same
  | [], _ :: _, _, _, _, _, same => by simp [writeItems] at same
  | _ :: _, [], _, _, _, _, same => by simp [writeItems] at same
  | a :: as, b :: bs, x, y, endX, endY, same => by
    simp only [writeItems, List.cons_append, List.cons.injEq, true_and, List.append_assoc] at same
    obtain ⟨rfl, later⟩ := write_unique literals a b (ends_items as x) (ends_items bs y) same
    obtain ⟨rfl, after⟩ := writeItems_unique literals as bs endX endY later
    exact ⟨rfl, after⟩

private theorem writeMembers_unique (literals : Literals render) :
    ∀ (as bs : List (String × Value ν)) {x y : List Char}, Ends x → Ends y →
      writeMembers render as ++ x = writeMembers render bs ++ y → as = bs ∧ x = y
  | [], [], _, _, _, _, same => by simpa [writeMembers] using same
  | [], _ :: _, _, _, _, _, same => by simp [writeMembers] at same
  | _ :: _, [], _, _, _, _, same => by simp [writeMembers] at same
  | (k, a) :: as, (l, b) :: bs, x, y, endX, endY, same => by
    simp only [writeMembers, List.cons_append, List.cons.injEq, true_and,
      List.append_assoc] at same
    obtain ⟨rfl, colon⟩ := quote_unique same
    simp only [List.cons.injEq, true_and] at colon
    obtain ⟨rfl, later⟩ := write_unique literals a b (ends_members as x) (ends_members bs y) colon
    obtain ⟨rfl, after⟩ := writeMembers_unique literals as bs endX endY later
    exact ⟨rfl, after⟩

end

/-- Two values never have the same text. -/
theorem stringify_injective (literals : Literals render) :
    Function.Injective (stringify render) := by
  intro a b same
  have texts : write render a ++ [] = write render b ++ [] := by
    simpa [stringify] using congrArg String.toList same
  have ends : Ends [] := trivial
  exact (write_unique literals a b ends ends texts).1

end Unique

/-- A document without numbers needs no literals. -/
theorem literals_empty : Literals (Empty.elim : Empty → List Char) :=
  ⟨fun value => value.elim, fun value => value.elim⟩

end BoothOperator.Json
