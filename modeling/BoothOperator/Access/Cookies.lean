import BoothOperator.TranslationText

/-! The signed cookies: `signedCookieValue`, `verifyCookieValue` and
`cookieValueFromHeader`. Texts are handled as their characters where the source
indexes or splits them. -/
namespace BoothOperator.Access

open BoothOperator.TranslationText (trimChars)

def hexDigit (char : Char) : Option Nat :=
  if '0' ≤ char ∧ char ≤ '9' then some (char.toNat - '0'.toNat)
  else if 'a' ≤ char ∧ char ≤ 'f' then some (char.toNat - 'a'.toNat + 10)
  else if 'A' ≤ char ∧ char ≤ 'F' then some (char.toNat - 'A'.toNat + 10)
  else none

/-- A character as it stands, or an octet that was written as an escape. -/
inductive Unit8 where
  | char (char : Char)
  | octet (octet : Nat)
  deriving DecidableEq

/-- The text with its escapes read: none where a `%` is not followed by two digits. -/
def readEscapes : List Char → Option (List Unit8)
  | [] => some []
  | '%' :: high :: low :: rest =>
    match hexDigit high, hexDigit low with
    | some high, some low => (readEscapes rest).map (.octet (16 * high + low) :: ·)
    | _, _ => none
  | char :: rest => if char = '%' then none else (readEscapes rest).map (.char char :: ·)

def continues (octet : Nat) : Bool := 0x80 ≤ octet && octet ≤ 0xBF

/-- The characters, with the octets read as UTF-8: none where they are not. Of a
sequence that is begun there are `needed` octets to come, and the code point
that it makes is at least `least`. -/
def readUtf8 : (needed least code : Nat) → List Unit8 → Option (List Char)
  | 0, _, _, [] => some []
  | 0, _, _, .char char :: rest => (readUtf8 0 0 0 rest).map (char :: ·)
  | 0, _, _, .octet octet :: rest =>
    if octet < 0x80 then (readUtf8 0 0 0 rest).map (Char.ofNat octet :: ·)
    else if 0xC0 ≤ octet ∧ octet < 0xE0 then readUtf8 1 0x80 (octet - 0xC0) rest
    else if 0xE0 ≤ octet ∧ octet < 0xF0 then readUtf8 2 0x800 (octet - 0xE0) rest
    else if 0xF0 ≤ octet ∧ octet < 0xF8 then readUtf8 3 0x10000 (octet - 0xF0) rest
    else none
  | needed + 1, least, code, .octet octet :: rest =>
    if continues octet then
      let code := code * 64 + (octet - 0x80)
      if needed ≠ 0 then readUtf8 needed least code rest
      else if least ≤ code ∧ code ≤ 0x10FFFF ∧ ¬ (0xD800 ≤ code ∧ code ≤ 0xDFFF) then
        (readUtf8 0 0 0 rest).map (Char.ofNat code :: ·)
      else none
    else none
  | _ + 1, _, _, _ => none

/-- `decodeURIComponent`: none where it throws. -/
def decodeURIComponent (text : List Char) : Option (List Char) :=
  (readEscapes text).bind (readUtf8 0 0 0)

/-- The value of the first part of the header that has the name, and an error
where that value cannot be decoded. -/
def cookieValueFromHeader (cookieHeader : Option String) (name : String) :
    Except String (Option String) :=
  match cookieHeader with
  | none => .ok none
  | some header => value (header.toList.splitOn ';')
where
  value : List (List Char) → Except String (Option String)
    | [] => .ok none
    | part :: rest =>
      let trimmed := trimChars part
      let own := trimmed.takeWhile (· ≠ '=')
      -- there is a `=`, and it is not the first character
      if own = [] ∨ own = trimmed then value rest
      else if String.ofList own ≠ name then value rest
      else match decodeURIComponent (trimmed.drop (own.length + 1)) with
        | none => .error "URI malformed"
        | some decoded => .ok (some (String.ofList decoded))

section Signatures

variable (signValue : String → String)

def signedCookieValue (payload : String) : String := payload ++ "." ++ signValue payload

/-- The payload before the last dot, when what follows it is its signature. -/
def verifyCookieValue (value : Option String) : Option String :=
  match value with
  | none => none
  | some value =>
    match value.toList.reverse.dropWhile (· ≠ '.') with
    | [] => none
    | _ :: before =>
      if before = [] then none
      else
        let payload := String.ofList before.reverse
        let signature := String.ofList (value.toList.drop (before.length + 1))
        if signature = signValue payload then some payload else none

end Signatures

theorem dropWhile_reverse_append_dot {payload signature : List Char} (plain : '.' ∉ signature) :
    (payload ++ '.' :: signature).reverse.dropWhile (· ≠ '.') = '.' :: payload.reverse := by
  rw [List.reverse_append, List.reverse_cons, List.append_assoc, List.dropWhile_append_of_pos]
  · simp
  · intro char member
    rw [List.mem_reverse] at member
    simp only [ne_eq, decide_eq_true_eq]
    rintro rfl
    exact plain member

/-- What is signed verifies, as a signature has no dot in it. -/
theorem verifyCookieValue_signedCookieValue {signValue : String → String} {payload : String}
    (plain : '.' ∉ (signValue payload).toList) (filled : payload ≠ "") :
    verifyCookieValue signValue (some (signedCookieValue signValue payload)) = some payload := by
  have chars : (signedCookieValue signValue payload).toList =
      payload.toList ++ '.' :: (signValue payload).toList := by
    simp [signedCookieValue]
  have nonempty : payload.toList.reverse ≠ [] := by simpa using filled
  unfold verifyCookieValue
  simp only [chars, dropWhile_reverse_append_dot plain, if_neg nonempty]
  have own : (payload.toList ++ '.' :: (signValue payload).toList).drop
      (payload.toList.reverse.length + 1) = (signValue payload).toList := by
    rw [List.length_reverse, List.drop_append]
    simp
  rw [own]
  simp

/-- What verifies is a payload with its signature. -/
theorem eq_of_verifyCookieValue {signValue : String → String} {value : Option String}
    {payload : String} (verified : verifyCookieValue signValue value = some payload) :
    value = some (signedCookieValue signValue payload) := by
  unfold verifyCookieValue at verified
  cases value with
  | none => cases verified
  | some value =>
    simp only at verified
    split at verified
    · cases verified
    · rename_i dot before cut
      split at verified
      · cases verified
      · split at verified
        · rename_i filled signed
          cases verified
          have reversed : value.toList.reverse =
              value.toList.reverse.takeWhile (· ≠ '.') ++ dot :: before := by
            rw [← cut, List.takeWhile_append_dropWhile]
          have isDot : dot = '.' := by
            have first := List.head?_dropWhile_not (fun char : Char => char ≠ '.') value.toList.reverse
            rw [cut] at first
            simpa using first
          have whole : value.toList = before.reverse ++
              dot :: (value.toList.reverse.takeWhile (· ≠ '.')).reverse := by
            have twice := congrArg List.reverse reversed
            simpa using twice
          have tail : value.toList.drop (before.length + 1) =
              (value.toList.reverse.takeWhile (· ≠ '.')).reverse := by
            conv_lhs => rw [whole]
            rw [← List.length_reverse, List.drop_append]
            simp
          have signature : (signValue (String.ofList before.reverse)).toList =
              (value.toList.reverse.takeWhile (· ≠ '.')).reverse := by
            rw [← signed, String.toList_ofList, tail]
          apply congrArg some
          apply String.toList_inj.mp
          rw [whole, signedCookieValue, String.toList_append, String.toList_append,
            String.toList_ofList, signature, isDot]
          simp
        · cases verified

end BoothOperator.Access
