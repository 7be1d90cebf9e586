import Mathlib.Algebra.Ring.Nat
import BoothOperator.TranslationText

/-! `lib/client-ip.ts`: the bytes of an address, the rules that name trusted proxies, and the
address that a chain of forwarding entries gives. Texts are their characters. -/
namespace BoothOperator.ClientIp

open BoothOperator.TranslationText (trimChars)

abbrev Text := List Char

def csv (input : Option Text) : List Text :=
  (((input.getD []).splitOn ',').map trimChars).filter (· ≠ [])

/-! ## Addresses -/

def isDigit (c : Char) : Bool := '0' ≤ c && c ≤ '9'

def isHexDigit (c : Char) : Bool :=
  isDigit c || ('a' ≤ c && c ≤ 'f') || ('A' ≤ c && c ≤ 'F')

def hexValue (c : Char) : Nat :=
  if isDigit c then c.toNat - '0'.toNat else c.toLower.toNat - 'a'.toNat + 10

/-- Four runs of digits with dots between them, each no longer than allowed. -/
def dottedRuns (allowed : Text → Bool) (text : Text) : Option (List Text) :=
  let runs := text.splitOn '.'
  if runs.length = 4 ∧ runs.all (fun run => run ≠ [] && run.all isDigit && allowed run) then some runs
  else none

def mappedPrefix : Text := [':', ':', 'f', 'f', 'f', 'f', ':']

/-- An IPv4-mapped address is taken in its IPv4 form. -/
def normalize (value : Text) : Option Text :=
  let trimmed := trimChars value
  if trimmed = [] then none
  else
    let dotted := trimmed.drop mappedPrefix.length
    if (trimmed.take mappedPrefix.length).map Char.toLower = mappedPrefix ∧
        (dottedRuns (fun _ => true) dotted).isSome then some dotted
    else some trimmed

/-- `text.split("::")`. -/
def splitPair : Text → List Text
  | ':' :: ':' :: rest => [] :: splitPair rest
  | c :: rest =>
    match splitPair rest with
    | [] => [[c]]
    | part :: parts => (c :: part) :: parts
  | [] => [[]]

def wordOf (piece : Text) : Nat := piece.foldl (fun word c => 16 * word + hexValue c) 0

/-- The bytes of a piece of one to four digits. -/
def parsePiece (piece : Text) : Option (List UInt8) :=
  if piece ≠ [] ∧ piece.length ≤ 4 ∧ piece.all isHexDigit then
    some [UInt8.ofNat (wordOf piece / 256), UInt8.ofNat (wordOf piece % 256)]
  else none

def parseGroup (group : Text) : Option (List UInt8) :=
  if group = [] then some [] else ((group.splitOn ':').mapM parsePiece).map List.flatten

def v4Prefix : List UInt8 := List.replicate 10 0 ++ [0xff, 0xff]

def v4Bytes (runs : List Text) : Option (List UInt8) :=
  let octets := runs.map fun run => Nat.ofDigitChars 10 run 0
  if octets.any (255 < ·) then none else some (v4Prefix ++ octets.map UInt8.ofNat)

def v6Bytes (literal : Text) : Option (List UInt8) :=
  if literal = [] ∨ literal.any (fun c => !(isHexDigit c || c = ':')) then none
  else
    match splitPair literal with
    | [head] => do
      let left ← parseGroup head
      if left.length ≠ 16 then none else some left
    | [head, tail] => do
      let left ← parseGroup head
      let right ← parseGroup tail
      if 16 ≤ left.length + right.length then none
      else some (left ++ List.replicate (16 - (left.length + right.length)) 0 ++ right)
    | _ => none

/-- The sixteen bytes of a literal: a dotted one in its mapped form, and another without its
zone. -/
def toBytes (address : Text) : Option (List UInt8) :=
  (normalize address).bind fun plain =>
    match dottedRuns (·.length ≤ 3) plain with
    | some runs => v4Bytes runs
    | none => v6Bytes (plain.takeWhile (· ≠ '%'))

/-! ## Numbers -/

/-- The digits of an unsigned literal in a base of its own. -/
def inBase (base : Nat) (digits : Text) : Option Rat :=
  let allowed (c : Char) : Bool := isHexDigit c && hexValue c < base
  if digits ≠ [] ∧ digits.all allowed then
    some (digits.foldl (fun value c => base * value + hexValue c) 0 : Nat)
  else none

/-- `e` or `E`, a sign, and digits; nothing is an exponent of zero. -/
def exponent : Text → Option Int
  | [] => some 0
  | e :: rest =>
    if e ≠ 'e' ∧ e ≠ 'E' then none
    else
      let (sign, digits) : Int × Text :=
        match rest with
        | '-' :: digits => (-1, digits)
        | '+' :: digits => (1, digits)
        | digits => (1, digits)
      if digits ≠ [] ∧ digits.all isDigit then some (sign * Nat.ofDigitChars 10 digits 0) else none

def unsignedDecimal (text : Text) : Option Rat :=
  let whole := text.takeWhile isDigit
  let rest := text.dropWhile isDigit
  let (fraction, rest) : Text × Text :=
    match rest with
    | '.' :: rest => (rest.takeWhile isDigit, rest.dropWhile isDigit)
    | rest => ([], rest)
  if whole = [] ∧ fraction = [] then none
  else
    (exponent rest).map fun (power : Int) =>
      (Nat.ofDigitChars 10 (whole ++ fraction) 0 : Rat) * (10 : Rat) ^ (power - fraction.length)

/-- What a text stands for as a number, before it is rounded; none for `NaN` and the
infinities. -/
def numeral (text : Text) : Option Rat :=
  match trimChars text with
  | [] => some 0
  | '0' :: 'x' :: digits => inBase 16 digits
  | '0' :: 'X' :: digits => inBase 16 digits
  | '0' :: 'o' :: digits => inBase 8 digits
  | '0' :: 'O' :: digits => inBase 8 digits
  | '0' :: 'b' :: digits => inBase 2 digits
  | '0' :: 'B' :: digits => inBase 2 digits
  | '-' :: text => (unsignedDecimal text).map (-·)
  | '+' :: text => unsignedDecimal text
  | text => unsignedDecimal text

/-- The double nearest to a value is the natural number, which has at most eight bits: half
the distance to the next double is a part of its highest bit. -/
def roundsTo (value : Rat) (width : Nat) : Bool :=
  if width = 0 then
    let least : Rat := (2 : Rat) ^ (-1075 : Int)
    decide (-least ≤ value) && decide (value ≤ least)
  else
    let above : Rat := (2 : Rat) ^ ((width.log2 : Int) - 53)
    let below : Rat := if width = 2 ^ width.log2 then above / 2 else above
    width - below ≤ value && value ≤ width + above

/-- `Number(prefix)`, where that is an integer from 0 to `most`. -/
def widthOf (most : Nat) (text : Text) : Option Nat :=
  (numeral text).bind fun value => (List.range (most + 1)).find? (roundsTo value)

/-! ## Rules -/

/-- Whether the leading bits are those of the rule. -/
def leadingBitsEqual (ruleBytes addressBytes : List UInt8) (bits : Nat) : Bool :=
  let fullBytes := bits / 8
  let remainder := bits % 8
  if ruleBytes.take fullBytes ≠ addressBytes.take fullBytes then false
  else if remainder = 0 then true
  else
    let mask := 0xff <<< (8 - remainder)
    ((ruleBytes[fullBytes]?.getD 0).toNat &&& mask) =
      ((addressBytes[fullBytes]?.getD 0).toNat &&& mask)

/-- A rule that is no shorthand. -/
def matchesLiteralRule (address rule : Text) : Bool :=
  let parts := rule.splitOn '/'
  let network := parts.headD []
  match toBytes network, toBytes address with
  | some ruleBytes, some addressBytes =>
    match parts[1]? with
    | none => ruleBytes = addressBytes
    | some prefixText =>
      let isV4Rule := '.' ∈ network
      match widthOf (if isV4Rule then 32 else 128) prefixText with
      | none => false
      | some width =>
        leadingBitsEqual ruleBytes addressBytes (if isV4Rule then width + 96 else width)
  | _, _ => false

def azureContainerApps : List String :=
  ["10.0.0.0/8", "172.16.0.0/12", "192.168.0.0/16", "100.64.0.0/10", "127.0.0.0/8", "::1/128",
    "fc00::/7", "fe80::/10"]

/-- `NAMED_PROXY_RULES[name]`: besides its one entry, what the record inherits. -/
inductive NamedRule where
  | expanded (rules : List String) | inherited

def namedProxyRule (name : Text) : Option NamedRule :=
  if name = "azure-container-apps".toList then some (.expanded azureContainerApps)
  else if name = "constructor".toList ∨ name = "__proto__".toList then some .inherited
  else none

/-- No expanded rule is itself a shorthand. -/
def matchesProxyRule (address rule : Text) : Except String Bool :=
  match namedProxyRule (rule.map Char.toLower) with
  | some (.expanded rules) => .ok (rules.any fun rule => matchesLiteralRule address rule.toList)
  | some .inherited => .error "named.some is not a function"
  | none => .ok (matchesLiteralRule address rule)

/-- `proxies.some`, which asks one rule after the other. -/
def isTrustedBy (address : Text) : List Text → Except String Bool
  | [] => .ok false
  | rule :: rules =>
    match matchesProxyRule address rule with
    | .ok false => isTrustedBy address rules
    | answer => answer

/-! ## Forwarding -/

/-- The walk through the entries, the last first. -/
def walk (proxies : List Text) : List Text → Except String (Option Text)
  | [] => .ok none
  | entry :: entries =>
    match normalize entry with
    | none => walk proxies entries
    | some candidate =>
      if (toBytes candidate).isNone then walk proxies entries
      else
        match isTrustedBy candidate proxies with
        | .error reason => .error reason
        | .ok true => walk proxies entries
        | .ok false => .ok (some candidate)

def forwardedClientIp (proxies : List Text) (header : Option Text) : Except String (Option Text) :=
  walk proxies (csv header).reverse

end BoothOperator.ClientIp
