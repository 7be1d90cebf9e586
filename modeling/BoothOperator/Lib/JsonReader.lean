import BoothOperator.Lib.Json

/-! `JSON.parse` as a pushdown automaton over characters: the open containers
are a stack, the mode says what may come next, and a text is read by one fold.
Number literals are kept as written. A text of this development is a sequence
of Unicode scalar values, so an escape for a lone surrogate reads as U+FFFD,
which is what UTF-8 storage and digests make of it. -/
namespace BoothOperator.Json

/-- A parsed document. -/
abbrev Document := Value String

/-- A container whose members are still being read. -/
inductive Frame where
  | arr (done : List Document)
  | obj (done : List (String × Document)) (key : String)

/-- How far the grammar of a number has come. -/
inductive NumberPhase where
  | minus | zero | whole | point | fraction | exponent | sign | power
  deriving DecidableEq

/-- The number literal is complete as it stands. -/
def NumberPhase.complete : NumberPhase → Bool
  | .zero | .whole | .fraction | .power => true
  | .minus | .point | .exponent | .sign => false

def NumberPhase.next (phase : NumberPhase) (c : Char) : Option NumberPhase :=
  match phase with
  | .minus => if c = '0' then some .zero else if c.isDigit then some .whole else none
  | .zero =>
    if c = '.' then some .point else if c = 'e' ∨ c = 'E' then some .exponent else none
  | .whole =>
    if c.isDigit then some .whole else if c = '.' then some .point
    else if c = 'e' ∨ c = 'E' then some .exponent else none
  | .point => if c.isDigit then some .fraction else none
  | .fraction =>
    if c.isDigit then some .fraction else if c = 'e' ∨ c = 'E' then some .exponent else none
  | .exponent =>
    if c.isDigit then some .power else if c = '+' ∨ c = '-' then some .sign else none
  | .sign | .power => if c.isDigit then some .power else none

/-- Where in a string literal's escape sequence the reader stands. -/
inductive Escape where
  | plain
  | slash
  | unicode (left : Nat) (unit : Nat)

/-- What may come next. -/
inductive Mode where
  | value
  | firstItem
  | firstKey
  | nextKey
  | colon
  | string (isKey : Bool) (units : List Nat) (escape : Escape)
  | word (rest : List Char) (means : Document)
  | number (phase : NumberPhase) (digits : List Char)
  | after (value : Document)

structure ReadState where
  stack : List Frame
  mode : Mode

def isJsonSpace (c : Char) : Bool :=
  c = ' ' || c = '\t' || c = '\n' || c = '\r'

private def hexDigitValue (c : Char) : Option Nat :=
  if c.isDigit then some (c.toNat - 48)
  else if 'a' ≤ c ∧ c ≤ 'f' then some (c.toNat - 87)
  else if 'A' ≤ c ∧ c ≤ 'F' then some (c.toNat - 55)
  else none

/-- The text of UTF-16 code units, last unit first; `low` is a low surrogate
waiting for the high one before it. -/
def decodeUnits : List Nat → Option Nat → List Char → List Char
  | [], none, text => text
  | [], some _, text => Char.ofNat 0xFFFD :: text
  | unit :: rest, none, text =>
    if 0xDC00 ≤ unit ∧ unit ≤ 0xDFFF then decodeUnits rest (some unit) text
    else if 0xD800 ≤ unit ∧ unit ≤ 0xDBFF then decodeUnits rest none (Char.ofNat 0xFFFD :: text)
    else decodeUnits rest none (Char.ofNat unit :: text)
  | unit :: rest, some low, text =>
    if 0xD800 ≤ unit ∧ unit ≤ 0xDBFF then
      decodeUnits rest none
        (Char.ofNat (0x10000 + (unit - 0xD800) * 0x400 + (low - 0xDC00)) :: text)
    else if 0xDC00 ≤ unit ∧ unit ≤ 0xDFFF then
      decodeUnits rest (some unit) (Char.ofNat 0xFFFD :: text)
    else decodeUnits rest none (Char.ofNat unit :: Char.ofNat 0xFFFD :: text)

def textOfUnits (units : List Nat) : String := String.ofList (decodeUnits units none [])

/-- A value begins. -/
def startValue (stack : List Frame) (c : Char) : Option ReadState :=
  if c = '"' then some ⟨stack, .string false [] .plain⟩
  else if c = '[' then some ⟨.arr [] :: stack, .firstItem⟩
  else if c = '{' then some ⟨.obj [] "" :: stack, .firstKey⟩
  else if c = 't' then some ⟨stack, .word ['r', 'u', 'e'] (.bool true)⟩
  else if c = 'f' then some ⟨stack, .word ['a', 'l', 's', 'e'] (.bool false)⟩
  else if c = 'n' then some ⟨stack, .word ['u', 'l', 'l'] .null⟩
  else if c = '-' then some ⟨stack, .number .minus ['-']⟩
  else if c = '0' then some ⟨stack, .number .zero ['0']⟩
  else if c.isDigit then some ⟨stack, .number .whole [c]⟩
  else none

/-- A value has ended: the container it stands in goes on or ends. -/
def afterValue (stack : List Frame) (value : Document) (c : Char) : Option ReadState :=
  if isJsonSpace c then some ⟨stack, .after value⟩
  else match stack with
    | [] => none
    | .arr done :: outer =>
      if c = ',' then some ⟨.arr (done ++ [value]) :: outer, .value⟩
      else if c = ']' then some ⟨outer, .after (.arr (done ++ [value]))⟩
      else none
    | .obj done key :: outer =>
      if c = ',' then some ⟨.obj (done ++ [(key, value)]) "" :: outer, .nextKey⟩
      else if c = '}' then some ⟨outer, .after (.obj (done ++ [(key, value)]))⟩
      else none

/-- A string literal has ended: it is a member's name or a value. -/
def endString (stack : List Frame) (isKey : Bool) (text : String) : Option ReadState :=
  if isKey then
    match stack with
    | .obj done _ :: outer => some ⟨.obj done text :: outer, .colon⟩
    | _ => none
  else some ⟨stack, .after (.str text)⟩

def readString (stack : List Frame) (isKey : Bool) (units : List Nat) (escape : Escape)
    (c : Char) : Option ReadState :=
  let read (unit : Nat) : Option ReadState := some ⟨stack, .string isKey (unit :: units) .plain⟩
  match escape with
  | .plain =>
    if c = '"' then endString stack isKey (textOfUnits units)
    else if c = '\\' then some ⟨stack, .string isKey units .slash⟩
    else if c.toNat < 32 then none
    else read c.toNat
  | .slash =>
    if c = '"' ∨ c = '\\' ∨ c = '/' then read c.toNat
    else if c = 'b' then read 8
    else if c = 'f' then read 12
    else if c = 'n' then read 10
    else if c = 'r' then read 13
    else if c = 't' then read 9
    else if c = 'u' then some ⟨stack, .string isKey units (.unicode 4 0)⟩
    else none
  | .unicode left unit =>
    match hexDigitValue c with
    | none => none
    | some digit =>
      if left ≤ 1 then read (16 * unit + digit)
      else some ⟨stack, .string isKey units (.unicode (left - 1) (16 * unit + digit))⟩

/-- One character of the text. -/
def readChar (state : ReadState) (c : Char) : Option ReadState :=
  match state.mode with
  | .value => if isJsonSpace c then some state else startValue state.stack c
  | .firstItem =>
    if isJsonSpace c then some state
    else if c = ']' then
      match state.stack with
      | .arr _ :: outer => some ⟨outer, .after (.arr [])⟩
      | _ => none
    else startValue state.stack c
  | .firstKey =>
    if isJsonSpace c then some state
    else if c = '}' then
      match state.stack with
      | .obj _ _ :: outer => some ⟨outer, .after (.obj [])⟩
      | _ => none
    else if c = '"' then some ⟨state.stack, .string true [] .plain⟩
    else none
  | .nextKey =>
    if isJsonSpace c then some state
    else if c = '"' then some ⟨state.stack, .string true [] .plain⟩
    else none
  | .colon =>
    if isJsonSpace c then some state
    else if c = ':' then some ⟨state.stack, .value⟩
    else none
  | .string isKey units escape => readString state.stack isKey units escape c
  | .word [] means => afterValue state.stack means c
  | .word (next :: rest) means =>
    if c = next then
      some ⟨state.stack, if rest.isEmpty then .after means else .word rest means⟩
    else none
  | .number phase digits =>
    match phase.next c with
    | some later => some ⟨state.stack, .number later (c :: digits)⟩
    | none =>
      if phase.complete then
        afterValue state.stack (.num (String.ofList digits.reverse)) c
      else none
  | .after value => afterValue state.stack value c

/-- The document read, if the text may end here. -/
def finished (state : ReadState) : Option Document :=
  match state.stack, state.mode with
  | [], .after value => some value
  | [], .number phase digits =>
    if phase.complete then some (.num (String.ofList digits.reverse)) else none
  | _, _ => none

/-- `JSON.parse`; a syntax error is `none`. -/
def parse (text : List Char) : Option Document :=
  (text.foldlM readChar ⟨[], .value⟩).bind finished

end BoothOperator.Json
