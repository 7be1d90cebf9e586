import BoothOperator.Lib.Json
import BoothOperator.Lib.Utf8

/-! PromQL as far as vector selectors joined by `or`. A string literal in double quotes follows
the rules of Go: its value is a sequence of octets, the escapes of which are octets, characters
named by their code points, or characters with names of their own. -/
namespace BoothOperator.PromQl

/-! ## String literals -/

def digit (base : Nat) (c : Char) : Option Nat :=
  let value :=
    if c.isDigit then c.toNat - 48
    else if 'a' ≤ c ∧ c ≤ 'f' then c.toNat - 87
    else if 'A' ≤ c ∧ c ≤ 'F' then c.toNat - 55
    else base
  if value < base then some value else none

/-- So many digits, after those that are read. -/
def readDigits (base : Nat) : Nat → Nat → List Char → Option (Nat × List Char)
  | 0, value, text => some (value, text)
  | _ + 1, _, [] => none
  | count + 1, value, c :: rest =>
    (digit base c).bind fun next => readDigits base count (value * base + next) rest

def readOctet (base count : Nat) (text : List Char) : Option (List UInt8 × List Char) :=
  (readDigits base count 0 text).bind fun (value, rest) =>
    if value ≤ 255 then some ([UInt8.ofNat value], rest) else none

def readCodePoint (count : Nat) (text : List Char) : Option (List UInt8 × List Char) :=
  (readDigits 16 count 0 text).bind fun (value, rest) =>
    if value.isValidChar then some (String.utf8EncodeChar (Char.ofNat value), rest) else none

/-- The characters that have an escape of one letter. -/
def named (c : Char) : Option Char :=
  if c = 'a' then some '\x07'
  else if c = 'b' then some '\x08'
  else if c = 'f' then some '\x0c'
  else if c = 'n' then some '\n'
  else if c = 'r' then some '\r'
  else if c = 't' then some '\t'
  else if c = 'v' then some '\x0b'
  else if c = '\\' then some '\\'
  else if c = '"' then some '"'
  else none

/-- What a backslash begins. -/
def readEscape : List Char → Option (List UInt8 × List Char)
  | [] => none
  | c :: rest =>
    match named c with
    | some char => some (String.utf8EncodeChar char, rest)
    | none =>
      if c = 'x' then readOctet 16 2 rest
      else if c = 'u' then readCodePoint 4 rest
      else if c = 'U' then readCodePoint 8 rest
      else readOctet 8 3 (c :: rest)

section Shorter

variable {base count value : Nat} {text rest : List Char} {octets : List UInt8}

theorem readDigits_shorter {start : Nat} (read : readDigits base count start text = some (value, rest)) :
    rest.length ≤ text.length := by
  induction count generalizing start text with
  | zero => cases read; exact Nat.le_refl _
  | succ count ih =>
    cases text with
    | nil => cases read
    | cons c text =>
      obtain ⟨next, -, later⟩ := Option.bind_eq_some_iff.mp read
      exact Nat.le_succ_of_le (ih later)

theorem readOctet_shorter (read : readOctet base count text = some (octets, rest)) :
    rest.length ≤ text.length := by
  obtain ⟨⟨value, later⟩, digits, small⟩ := Option.bind_eq_some_iff.mp read
  simp only [Option.ite_none_right_eq_some, Option.some.injEq, Prod.mk.injEq] at small
  obtain ⟨-, -, rfl⟩ := small
  exact readDigits_shorter digits

theorem readCodePoint_shorter (read : readCodePoint count text = some (octets, rest)) :
    rest.length ≤ text.length := by
  obtain ⟨⟨value, later⟩, digits, valid⟩ := Option.bind_eq_some_iff.mp read
  simp only [Option.ite_none_right_eq_some, Option.some.injEq, Prod.mk.injEq] at valid
  obtain ⟨-, -, rfl⟩ := valid
  exact readDigits_shorter digits

theorem readEscape_shorter (read : readEscape text = some (octets, rest)) :
    rest.length ≤ text.length := by
  cases text with
  | nil => cases read
  | cons c text =>
    rw [readEscape] at read
    split at read
    · cases read
      exact Nat.le_succ _
    · split_ifs at read
      · exact Nat.le_succ_of_le (readOctet_shorter read)
      · exact Nat.le_succ_of_le (readCodePoint_shorter read)
      · exact Nat.le_succ_of_le (readCodePoint_shorter read)
      · exact readOctet_shorter read

end Shorter

/-- A string literal after its opening quote, and what follows it. -/
def readTail : List Char → Option (List UInt8 × List Char)
  | [] => none
  | c :: rest =>
    if c = '"' then some ([], rest)
    else if c = '\n' then none
    else if c = '\\' then
      match _read : readEscape rest with
      | none => none
      | some (octets, later) => (readTail later).map fun (more, last) => (octets ++ more, last)
    else (readTail rest).map fun (more, last) => (String.utf8EncodeChar c ++ more, last)
termination_by text => text.length
decreasing_by
  · exact Nat.lt_succ_of_le (readEscape_shorter _read)
  · exact Nat.lt_succ_self _

theorem readTail_shorter {text rest : List Char} {octets : List UInt8}
    (read : readTail text = some (octets, rest)) : rest.length ≤ text.length := by
  fun_induction readTail text generalizing octets with
  | case1 => cases read
  | case2 later =>
    cases read
    exact Nat.le_succ _
  | case3 => cases read
  | case4 => cases read
  | case5 _ _ later escape _ _ ih =>
    obtain ⟨⟨more, last⟩, tail, same⟩ := Option.map_eq_some_iff.mp read
    cases same
    have fewer := readEscape_shorter escape
    exact Nat.le_succ_of_le (Nat.le_trans (ih tail) fewer)
  | case6 c later _ _ _ ih =>
    obtain ⟨⟨more, last⟩, tail, same⟩ := Option.map_eq_some_iff.mp read
    cases same
    exact Nat.le_succ_of_le (ih tail)

def readString : List Char → Option (List UInt8 × List Char)
  | '"' :: rest => readTail rest
  | _ => none

/-! ### The strings that JSON writes -/

section Json

variable {c : Char} {rest : List Char}

/-- What is read in front of a text that is read further. -/
def before (octets : List UInt8) (rest : List Char) : Option (List UInt8 × List Char) :=
  (readTail rest).map fun (more, last) => (octets ++ more, last)

theorem readTail_of_escape {text : List Char} {octets : List UInt8}
    (escape : readEscape text = some (octets, rest)) :
    readTail ('\\' :: text) = before octets rest := by
  rw [readTail, if_neg (by decide), if_neg (by decide), if_pos rfl]
  split
  next none => rw [escape] at none; cases none
  next octets later read =>
    rw [escape] at read
    cases read
    rfl

theorem readTail_named {letter : Char} (letters : named letter = some c) :
    readTail ('\\' :: letter :: rest) = before (String.utf8EncodeChar c) rest := by
  have escape : readEscape (letter :: rest) = some (String.utf8EncodeChar c, rest) := by
    rw [readEscape, letters]
  exact readTail_of_escape escape

theorem digit_hexDigit : ∀ n < 16, digit 16 (Json.hexDigit n) = some n := by decide

theorem readTail_control (control : c.toNat < 32) :
    readTail ('\\' :: 'u' :: '0' :: '0' :: Json.hexDigit (c.toNat / 16) ::
      Json.hexDigit (c.toNat % 16) :: rest) = before (String.utf8EncodeChar c) rest := by
  have digits : readDigits 16 4 0 ('0' :: '0' :: Json.hexDigit (c.toNat / 16) ::
      Json.hexDigit (c.toNat % 16) :: rest) = some (c.toNat, rest) := by
    simp only [readDigits, digit_hexDigit (c.toNat / 16) (by omega),
      digit_hexDigit (c.toNat % 16) (by omega), Option.bind_some,
      (by decide : digit 16 '0' = some 0)]
    rw [show ((0 * 16 + 0) * 16 + 0) * 16 + c.toNat / 16 = c.toNat / 16 by omega,
      show c.toNat / 16 * 16 + c.toNat % 16 = c.toNat by omega]
  have escape : readEscape ('u' :: '0' :: '0' :: Json.hexDigit (c.toNat / 16) ::
      Json.hexDigit (c.toNat % 16) :: rest) = some (String.utf8EncodeChar c, rest) := by
    rw [readEscape, (by decide : named 'u' = none)]
    simp only [(by decide : ('u' : Char) ≠ 'x'), if_false, if_true, readCodePoint, digits,
      Option.bind_some, if_pos (show c.toNat.isValidChar from c.valid), Char.ofNat_toNat]
  exact readTail_of_escape escape

/-- One character as JSON writes it is read back, whatever follows. -/
theorem readTail_escape (c : Char) (rest : List Char) :
    readTail (Json.escape c ++ rest) = before (String.utf8EncodeChar c) rest := by
  unfold Json.escape
  split_ifs with quoted slash back feed line ret tab control
  · rw [quoted]; exact readTail_named (by decide)
  · rw [slash]; exact readTail_named (by decide)
  · rw [back]; exact readTail_named (by decide)
  · rw [feed]; exact readTail_named (by decide)
  · rw [line]; exact readTail_named (by decide)
  · rw [ret]; exact readTail_named (by decide)
  · rw [tab]; exact readTail_named (by decide)
  · exact readTail_control control
  · rw [List.singleton_append, readTail, if_neg quoted, if_neg line, if_neg slash]
    rfl

theorem readTail_quoteTail (text rest : List Char) :
    readTail (Json.quoteTail text ++ rest) = some (Utf8.encode text, rest) := by
  induction text with
  | nil => rw [Json.quoteTail, List.singleton_append, readTail, if_pos rfl]; rfl
  | cons c text ih =>
    rw [Json.quoteTail, List.append_assoc, readTail_escape, before, ih]
    rfl

/-- The literal of JSON is read as the text that it was written for, and up to its end. -/
theorem readString_quote (text : String) (rest : List Char) :
    readString (Json.quote text ++ rest) = some (Utf8.encode text.toList, rest) :=
  readTail_quoteTail text.toList rest

end Json

/-! ## Selectors -/

inductive MatchOp where
  | equal
  | notEqual
  | regex
  | notRegex
  deriving DecidableEq

inductive Token where
  | name (text : String)
  | string (octets : List UInt8)
  | op (op : MatchOp)
  | leftBrace
  | rightBrace
  | comma
  deriving DecidableEq

def isSpace (c : Char) : Bool := c = ' ' ∨ c = '\t' ∨ c = '\n' ∨ c = '\r'

def startsName (c : Char) : Bool := c.isAlpha ∨ c = '_' ∨ c = ':'

def isNameChar (c : Char) : Bool := startsName c ∨ c.isDigit

def isName (name : String) : Bool :=
  name.toList.head?.any startsName && name.toList.tail.all isNameChar

theorem exists_of_isName {name : String} (named : isName name = true) :
    ∃ first more, name.toList = first :: more ∧ startsName first = true ∧
      more.all isNameChar = true := by
  rw [isName, Bool.and_eq_true] at named
  cases whole : name.toList with
  | nil => rw [whole] at named; cases named.1
  | cons first more =>
    rw [whole] at named
    exact ⟨first, more, rfl, named⟩

def readOp (c : Char) (rest : List Char) : Option (MatchOp × List Char) :=
  let next := rest.head?
  if c = '=' then if next = some '~' then some (.regex, rest.tail) else some (.equal, rest)
  else if c = '!' ∧ next = some '=' then some (.notEqual, rest.tail)
  else if c = '!' ∧ next = some '~' then some (.notRegex, rest.tail)
  else none

theorem readOp_shorter {c : Char} {text rest : List Char} {op : MatchOp}
    (read : readOp c text = some (op, rest)) : rest.length ≤ text.length := by
  have fewer : text.tail.length ≤ text.length := by
    rw [List.length_tail]
    exact Nat.sub_le _ _
  unfold readOp at read
  simp only at read
  split_ifs at read
  all_goals cases read
  all_goals first
    | exact fewer
    | exact Nat.le_refl _

def readTokens : List Char → Option (List Token)
  | [] => some []
  | c :: rest =>
    if isSpace c then readTokens rest
    else if c = '{' then (readTokens rest).map (.leftBrace :: ·)
    else if c = '}' then (readTokens rest).map (.rightBrace :: ·)
    else if c = ',' then (readTokens rest).map (.comma :: ·)
    else if c = '"' then
      match _read : readTail rest with
      | none => none
      | some (octets, later) => (readTokens later).map (.string octets :: ·)
    else if startsName c then
      (readTokens (rest.dropWhile isNameChar)).map
        (.name (String.ofList (c :: rest.takeWhile isNameChar)) :: ·)
    else
      match _read : readOp c rest with
      | none => none
      | some (op, later) => (readTokens later).map (.op op :: ·)
termination_by text => text.length
decreasing_by
  all_goals rw [List.length_cons]
  all_goals first
    | exact Nat.lt_succ_self _
    | exact Nat.lt_succ_of_le (readOp_shorter _read)
    | exact Nat.lt_succ_of_le (readTail_shorter _read)
    | exact Nat.lt_succ_of_le (List.dropWhile_suffix _).length_le

section Tokens

variable {text name : String} {rest : List Char}

theorem readTokens_cons (c : Char) (rest : List Char) : readTokens (c :: rest) =
    if isSpace c then readTokens rest
    else if c = '{' then (readTokens rest).map (.leftBrace :: ·)
    else if c = '}' then (readTokens rest).map (.rightBrace :: ·)
    else if c = ',' then (readTokens rest).map (.comma :: ·)
    else if c = '"' then
      match _read : readTail rest with
      | none => none
      | some (octets, later) => (readTokens later).map (.string octets :: ·)
    else if startsName c then
      (readTokens (rest.dropWhile isNameChar)).map
        (.name (String.ofList (c :: rest.takeWhile isNameChar)) :: ·)
    else
      match _read : readOp c rest with
      | none => none
      | some (op, later) => (readTokens later).map (.op op :: ·) := by
  rw [readTokens]

theorem readTokens_string (text : String) (rest : List Char) :
    readTokens (Json.quote text ++ rest) =
      (readTokens rest).map (.string (Utf8.encode text.toList) :: ·) := by
  rw [Json.quote, List.cons_append, readTokens_cons]
  simp only [(by decide : isSpace '"' = false), Bool.false_eq_true, if_false, if_true,
    (by decide : ¬ '"' = '{'), (by decide : ¬ '"' = '}'), (by decide : ¬ '"' = ',')]
  split
  next none => rw [readTail_quoteTail] at none; cases none
  next octets later read =>
    rw [readTail_quoteTail] at read
    cases read
    rfl

/-- A name up to a character that no name has. -/
theorem readTokens_name (named : isName name = true)
    (ends : rest.head?.all (fun c => !isNameChar c) = true) :
    readTokens (name.toList ++ rest) = (readTokens rest).map (.name name :: ·) := by
  obtain ⟨first, more, whole, starts, all⟩ := exists_of_isName named
  have apart (c : Char) (other : startsName c = false) : first ≠ c := by
    rintro rfl
    rw [starts] at other
    cases other
  have unspaced : isSpace first = false := by
    simp only [isSpace, apart ' ' (by decide), apart '\t' (by decide), apart '\n' (by decide),
      apart '\r' (by decide), or_self, decide_false]
  have stops : rest.dropWhile isNameChar = rest ∧ rest.takeWhile isNameChar = [] := by
    cases rest with
    | nil => exact ⟨rfl, rfl⟩
    | cons c rest =>
      have other : isNameChar c = false := by simpa using ends
      simp [List.dropWhile, List.takeWhile, other]
  rw [← String.ofList_toList (s := name), whole, String.toList_ofList, List.cons_append, readTokens_cons]
  simp only [unspaced, Bool.false_eq_true, if_false, apart '{' (by decide), apart '}' (by decide),
    apart ',' (by decide), apart '"' (by decide), starts, if_true]
  rw [List.dropWhile_append_of_pos (List.all_eq_true.mp all),
    List.takeWhile_append_of_pos (List.all_eq_true.mp all), stops.1, stops.2, List.append_nil]

@[simp] theorem readTokens_leftBrace :
    readTokens ('{' :: rest) = (readTokens rest).map (.leftBrace :: ·) := by
  rw [readTokens_cons]
  rfl

@[simp] theorem readTokens_rightBrace :
    readTokens ('}' :: rest) = (readTokens rest).map (.rightBrace :: ·) := by
  rw [readTokens_cons]
  rfl

@[simp] theorem readTokens_comma :
    readTokens (',' :: rest) = (readTokens rest).map (.comma :: ·) := by
  rw [readTokens_cons]
  rfl

@[simp] theorem readTokens_space : readTokens (' ' :: rest) = readTokens rest := by
  rw [readTokens_cons]
  rfl

theorem readTokens_op {c : Char} {text : List Char} {op : MatchOp}
    (opens : c = '=' ∨ c = '!') (read : readOp c text = some (op, rest)) :
    readTokens (c :: text) = (readTokens rest).map (.op op :: ·) := by
  rcases opens with rfl | rfl
  all_goals
    rw [readTokens_cons]
    simp only [(by decide : isSpace '=' = false), (by decide : isSpace '!' = false),
      (by decide : startsName '=' = false), (by decide : startsName '!' = false),
      Bool.false_eq_true, if_false, Char.reduceEq]
    split
    next none => rw [read] at none; cases none
    next other later again =>
      rw [read] at again
      cases again
      rfl

/-- A label that is equal to a string. -/
theorem readTokens_equal (named : isName name = true) :
    readTokens (name.toList ++ '=' :: (Json.quote text ++ rest)) = (readTokens rest).map
      fun tokens => .name name :: .op .equal :: .string (Utf8.encode text.toList) :: tokens := by
  have equal : readOp '=' (Json.quote text ++ rest) = some (.equal, Json.quote text ++ rest) := rfl
  rw [readTokens_name named rfl, readTokens_op (Or.inl rfl) equal, readTokens_string,
    Option.map_map, Option.map_map]
  rfl

/-- A label that matches a regular expression. -/
theorem readTokens_regex (named : isName name = true) :
    readTokens (name.toList ++ '=' :: '~' :: (Json.quote text ++ rest)) = (readTokens rest).map
      fun tokens => .name name :: .op .regex :: .string (Utf8.encode text.toList) :: tokens := by
  have regex : readOp '=' ('~' :: (Json.quote text ++ rest)) =
      some (.regex, Json.quote text ++ rest) := rfl
  rw [readTokens_name named rfl, readTokens_op (Or.inl rfl) regex, readTokens_string,
    Option.map_map, Option.map_map]
  rfl

end Tokens

structure Matcher where
  label : String
  op : MatchOp
  value : List UInt8
  deriving DecidableEq

structure Selector where
  metric : Option String
  matchers : List Matcher
  deriving DecidableEq

/-- The matchers of a selector after its opening brace. -/
def readMatchers : List Token → Option (List Matcher × List Token)
  | .rightBrace :: rest => some ([], rest)
  | .name label :: .op op :: .string value :: .rightBrace :: rest =>
    some ([⟨label, op, value⟩], rest)
  | .name label :: .op op :: .string value :: .comma :: rest =>
    (readMatchers rest).map fun (matchers, rest) => (⟨label, op, value⟩ :: matchers, rest)
  | _ => none

def readSelector : List Token → Option (Selector × List Token)
  | .leftBrace :: rest =>
    (readMatchers rest).map fun (matchers, rest) => (⟨none, matchers⟩, rest)
  | .name metric :: .leftBrace :: rest =>
    (readMatchers rest).map fun (matchers, rest) => (⟨some metric, matchers⟩, rest)
  | .name metric :: rest => some (⟨some metric, []⟩, rest)
  | _ => none

/-- At most so many selectors, joined by `or`. -/
def readUnion : Nat → List Token → Option (List Selector)
  | 0, _ => none
  | more + 1, tokens =>
    match readSelector tokens with
    | none => none
    | some (selector, []) => some [selector]
    | some (selector, .name "or" :: rest) => (readUnion more rest).map (selector :: ·)
    | some _ => none

/-- A query of vector selectors. A selector has a token at least. -/
def readQuery (query : String) : Option (List Selector) :=
  (readTokens query.toList).bind fun tokens => readUnion tokens.length tokens

end BoothOperator.PromQl
