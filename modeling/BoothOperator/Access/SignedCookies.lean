import Mathlib
import BoothOperator.Access.StatusSocket
import BoothOperator.Lib.SlashReference
import BoothOperator.Lib.Utf8

/-! Signed cookies there and back: what is signed and written into a header is found in it again
and verifies, and nothing else verifies to the same payload. -/
namespace BoothOperator.Access

open BoothOperator.SlashReference (percentEncode)
open BoothOperator.TranslationText (trimChars isJsSpace trimChars_trimChars)

/-! ## Percent sequences -/

/-- All but letters, digits and `-_.!~*'()`. -/
def componentSet (c : Char) : Bool := !c.isAlphanum && c ∉ "-_.!~*'()".toList

def encodeURIComponent (text : List Char) : List Char := text.flatMap (percentEncode componentSet)

section Percent

variable {c : Char} {text rest : List Char}

/-- The units that an encoded character is read as. -/
def unitsOf (c : Char) : List Unit8 :=
  if componentSet c then (String.utf8EncodeChar c).map fun octet => .octet octet.toNat
  else [.char c]

theorem hexDigit_hexDigit : ∀ n < 16, hexDigit (SlashReference.hexDigit n) = some n := by
  decide

theorem readEscapes_octet (octet : UInt8) (rest : List Char) :
    readEscapes ('%' :: SlashReference.hexDigit (octet.toNat / 16) ::
        SlashReference.hexDigit (octet.toNat % 16) :: rest) =
      (readEscapes rest).map (.octet octet.toNat :: ·) := by
  have size := octet.toNat_lt
  rw [readEscapes, hexDigit_hexDigit _ (by omega), hexDigit_hexDigit _ (by omega)]
  have whole : 16 * (octet.toNat / 16) + octet.toNat % 16 = octet.toNat := by omega
  simp only [whole]

theorem readEscapes_octets (octets : List UInt8) (rest : List Char) :
    readEscapes ((octets.flatMap fun octet => ['%', SlashReference.hexDigit (octet.toNat / 16),
        SlashReference.hexDigit (octet.toNat % 16)]) ++ rest) =
      (readEscapes rest).map ((octets.map fun octet => .octet octet.toNat) ++ ·) := by
  induction octets with
  | nil => simp
  | cons octet octets ih =>
    rw [List.flatMap_cons, List.append_assoc]
    simp only [List.cons_append, List.nil_append]
    rw [readEscapes_octet, ih, Option.map_map]
    rfl

theorem readEscapes_char (other : c ≠ '%') (rest : List Char) :
    readEscapes (c :: rest) = (readEscapes rest).map (.char c :: ·) := by
  rw [readEscapes]
  · rw [if_neg other]
  · intro _ _ _ percent
    exact absurd percent other

theorem readEscapes_encode (c : Char) (rest : List Char) :
    readEscapes (percentEncode componentSet c ++ rest) =
      (readEscapes rest).map (unitsOf c ++ ·) := by
  rw [percentEncode, unitsOf]
  split
  next => exact readEscapes_octets _ rest
  next plain =>
    have other : c ≠ '%' := by
      rintro rfl
      exact plain (by decide)
    exact readEscapes_char other rest

theorem readEscapes_encodeURIComponent (text : List Char) :
    readEscapes (encodeURIComponent text) = some (text.flatMap unitsOf) := by
  induction text with
  | nil => rfl
  | cons c text ih =>
    rw [encodeURIComponent, List.flatMap_cons, readEscapes_encode]
    exact congrArg (Option.map (unitsOf c ++ ·)) ih

/-- An octet that begins a character. -/
theorem readUtf8_octet (least code octet : Nat) (rest : List Unit8) :
    readUtf8 0 least code (.octet octet :: rest) =
      if octet < 0x80 then (readUtf8 0 0 0 rest).map (Char.ofNat octet :: ·)
      else if 0xC0 ≤ octet ∧ octet < 0xE0 then readUtf8 1 0x80 (octet - 0xC0) rest
      else if 0xE0 ≤ octet ∧ octet < 0xF0 then readUtf8 2 0x800 (octet - 0xE0) rest
      else if 0xF0 ≤ octet ∧ octet < 0xF8 then readUtf8 3 0x10000 (octet - 0xF0) rest
      else none := by
  rw [readUtf8]

/-- An octet that goes on with one. -/
theorem readUtf8_continues {octet : Nat} (goesOn : continues octet = true)
    (needed least code : Nat) (rest : List Unit8) :
    readUtf8 (needed + 1) least code (.octet octet :: rest) =
      if needed ≠ 0 then readUtf8 needed least (code * 64 + (octet - 0x80)) rest
      else if least ≤ code * 64 + (octet - 0x80) ∧ code * 64 + (octet - 0x80) ≤ 0x10FFFF ∧
          ¬ (0xD800 ≤ code * 64 + (octet - 0x80) ∧ code * 64 + (octet - 0x80) ≤ 0xDFFF) then
        (readUtf8 0 0 0 rest).map (Char.ofNat (code * 64 + (octet - 0x80)) :: ·)
      else none := by
  rw [readUtf8, if_pos goesOn]

theorem readUtf8_two {octet : Nat} (low : 0xC0 ≤ octet) (high : octet < 0xE0) (rest : List Unit8) :
    readUtf8 0 0 0 (.octet octet :: rest) = readUtf8 1 0x80 (octet - 0xC0) rest := by
  rw [readUtf8_octet, if_neg (by omega), if_pos (by omega)]

theorem readUtf8_three {octet : Nat} (low : 0xE0 ≤ octet) (high : octet < 0xF0)
    (rest : List Unit8) :
    readUtf8 0 0 0 (.octet octet :: rest) = readUtf8 2 0x800 (octet - 0xE0) rest := by
  rw [readUtf8_octet, if_neg (by omega), if_neg (by omega), if_pos (by omega)]

theorem readUtf8_four {octet : Nat} (low : 0xF0 ≤ octet) (high : octet < 0xF8)
    (rest : List Unit8) :
    readUtf8 0 0 0 (.octet octet :: rest) = readUtf8 3 0x10000 (octet - 0xF0) rest := by
  rw [readUtf8_octet, if_neg (by omega), if_neg (by omega), if_neg (by omega), if_pos (by omega)]

theorem continues_of {octet : Nat} (low : 0x80 ≤ octet) (high : octet ≤ 0xBF) :
    continues octet = true := by
  simp [continues, low, high]

theorem readUtf8_more {octet needed least code : Nat} (low : 0x80 ≤ octet) (high : octet ≤ 0xBF)
    (rest : List Unit8) : readUtf8 (needed + 2) least code (.octet octet :: rest) =
      readUtf8 (needed + 1) least (code * 64 + (octet - 0x80)) rest := by
  rw [readUtf8_continues (continues_of low high), if_pos (Nat.succ_ne_zero needed)]

theorem readUtf8_last (c : Char) {octet least code : Nat} (low : 0x80 ≤ octet) (high : octet ≤ 0xBF)
    (own : c.toNat = code * 64 + (octet - 0x80)) (enough : least ≤ c.toNat) (rest : List Unit8) :
    readUtf8 1 least code (.octet octet :: rest) = (readUtf8 0 0 0 rest).map (c :: ·) := by
  have bound := Utf8.toNat_lt c
  rw [readUtf8_continues (continues_of low high), ← own, if_neg (not_not.mpr rfl), if_pos (by omega),
    Char.ofNat_toNat]

/-- One character, in its octets or as it stands. -/
theorem readUtf8_unitsOf (c : Char) (rest : List Unit8) :
    readUtf8 0 0 0 (unitsOf c ++ rest) = (readUtf8 0 0 0 rest).map (c :: ·) := by
  rw [unitsOf]
  split
  next =>
    have bound := Utf8.toNat_lt c
    have value : c.val.toNat = c.toNat := rfl
    rw [String.utf8EncodeChar]
    simp only [value]
    have octet {n : Nat} (small : n < 0x100) : (UInt8.ofNat n).toNat = n := Utf8.octet_toNat small
    split
    next ascii =>
      rw [List.map_singleton, List.singleton_append, octet (by omega), readUtf8_octet, if_pos (by omega),
        Char.ofNat_toNat]
    split
    next =>
      simp only [List.map_cons, List.map_nil, List.cons_append, List.nil_append]
      rw [octet (by omega), octet (by omega), readUtf8_two (by omega) (by omega),
        readUtf8_last c (by omega) (by omega) (by omega) (by omega)]
    split
    next =>
      simp only [List.map_cons, List.map_nil, List.cons_append, List.nil_append]
      rw [octet (by omega), octet (by omega), octet (by omega), readUtf8_three (by omega) (by omega),
        readUtf8_more (by omega) (by omega),
        readUtf8_last c (by omega) (by omega) (by omega) (by omega)]
    next =>
      simp only [List.map_cons, List.map_nil, List.cons_append, List.nil_append]
      rw [octet (by omega), octet (by omega), octet (by omega), octet (by omega),
        readUtf8_four (by omega) (by omega), readUtf8_more (by omega) (by omega),
        readUtf8_more (by omega) (by omega),
        readUtf8_last c (by omega) (by omega) (by omega) (by omega)]
  next => rw [List.singleton_append, readUtf8]

theorem readUtf8_units (text : List Char) :
    readUtf8 0 0 0 (text.flatMap unitsOf) = some text := by
  induction text with
  | nil => rfl
  | cons c text ih => rw [List.flatMap_cons, readUtf8_unitsOf, ih, Option.map_some]

theorem decodeURIComponent_encodeURIComponent (text : List Char) :
    decodeURIComponent (encodeURIComponent text) = some text := by
  rw [decodeURIComponent, readEscapes_encodeURIComponent, Option.bind_some, readUtf8_units]

end Percent

/-! ## Parts of a header -/

/-- What a part may hold without ending it, its name or its text. -/
def inCookie (c : Char) : Bool := c ≠ ';' && c ≠ '=' && !isJsSpace c

/-- The part gives a cookie of this name a value. -/
def Names (name : String) (part : List Char) : Prop :=
  ∃ value, trimChars part = name.toList ++ '=' :: value

/-- A name that can be written in a header and read back. -/
structure IsCookieName (name : String) : Prop where
  filled : name ≠ ""
  token : ∀ c ∈ name.toList, inCookie c = true

section Header

variable {name : String} {part value : List Char}

theorem takeWhile_pair (token : IsCookieName name) :
    (name.toList ++ '=' :: value).takeWhile (· ≠ '=') = name.toList := by
  have apart : ∀ c ∈ name.toList, decide (c ≠ '=') = true := by
    intro c member
    have inside := token.token c member
    simp only [inCookie, Bool.and_eq_true] at inside
    exact inside.1.2
  rw [List.takeWhile_append_of_pos apart]
  simp

theorem rawOfPart_of_names (token : IsCookieName name)
    (pair : trimChars part = name.toList ++ '=' :: value) : rawOfPart name part = some value := by
  have filled : name.toList ≠ [] := by simpa using token.filled
  rw [rawOfPart, pair, takeWhile_pair token, if_pos]
  · simp
  · refine ⟨filled, fun same => ?_, String.ofList_toList⟩
    simpa using congrArg List.length same

theorem rawOfPart_of_not_names (other : ¬Names name part) : rawOfPart name part = none := by
  rw [rawOfPart]
  refine if_neg fun named => other ?_
  obtain ⟨-, shorter, own⟩ := named
  have split := List.takeWhile_append_dropWhile (p := (· ≠ '=')) (l := trimChars part)
  cases rest : (trimChars part).dropWhile (· ≠ '=') with
  | nil =>
    rw [rest, List.append_nil] at split
    exact absurd split shorter
  | cons c value =>
    have first := List.head?_dropWhile_not (fun c : Char => c ≠ '=') (trimChars part)
    rw [rest] at first
    obtain rfl : c = '=' := by simpa using first
    refine ⟨value, ?_⟩
    rw [← own, String.toList_ofList, ← rest, split]

/-- The first part of the name is the one that is read. -/
theorem rawCookie_of_first (token : IsCookieName name) {before after : List (List Char)}
    (whole : ∀ other ∈ before ++ part :: after, ';' ∉ other)
    (first : ∀ earlier ∈ before, ¬Names name earlier)
    (pair : trimChars part = name.toList ++ '=' :: value) :
    rawCookie (some (String.ofList ([';'].intercalate (before ++ part :: after)))) name =
      some value := by
  have split := List.splitOn_intercalate ';' whole (by simp)
  rw [rawCookie, Option.bind_some, String.toList_ofList, split, List.findSome?_append]
  have none' : before.findSome? (rawOfPart name) = none :=
    List.findSome?_eq_none_iff.mpr fun earlier member => rawOfPart_of_not_names (first earlier member)
  rw [none', Option.none_or, List.findSome?_cons, rawOfPart_of_names token pair]

end Header

/-! ## Signatures -/

/-- `signatureBuffer.length` is that of `expectedBuffer`, and `timingSafeEqual`. -/
def sameBuffers (signature expected : String) : Bool :=
  let signatureBuffer := Utf8.encode signature.toList
  let expectedBuffer := Utf8.encode expected.toList
  signatureBuffer.length = expectedBuffer.length && signatureBuffer = expectedBuffer

/-- Texts are told apart by their octets. -/
theorem sameBuffers_iff {signature expected : String} :
    sameBuffers signature expected = true ↔ signature = expected := by
  simp only [sameBuffers, Bool.and_eq_true, decide_eq_true_eq]
  constructor
  · rintro ⟨-, same⟩
    have decoded := congrArg Utf8.decode same
    rw [Utf8.decode_encode, Utf8.decode_encode] at decoded
    exact String.toList_inj.mp decoded
  · rintro rfl
    exact ⟨rfl, rfl⟩

section Verify

variable (signValue : String → String)

/-- `verifyCookieValue`, with the signatures compared as buffers. -/
def verifyCookieBuffers (value : Option String) : Option String :=
  match value with
  | none => none
  | some value =>
    match value.toList.reverse.dropWhile (· ≠ '.') with
    | [] => none
    | _ :: before =>
      if before = [] then none
      else
        let payload := String.ofList before.reverse
        let signature := String.ofList (value.toList.drop (before.length + 1))
        if sameBuffers signature (signValue payload) then some payload else none

theorem verifyCookieBuffers_eq (value : Option String) :
    verifyCookieBuffers signValue value = verifyCookieValue signValue value := by
  cases value with
  | none => rfl
  | some value =>
    unfold verifyCookieBuffers verifyCookieValue
    simp only
    generalize value.toList.reverse.dropWhile (· ≠ '.') = rest
    cases rest with
    | nil => rfl
    | cons dot before =>
      have same : sameBuffers (String.ofList (value.toList.drop (before.length + 1)))
          (signValue (String.ofList before.reverse)) = true ↔ _ := sameBuffers_iff
      by_cases equal : String.ofList (value.toList.drop (before.length + 1)) =
          signValue (String.ofList before.reverse)
      · simp only [if_pos equal, if_pos (same.mpr equal)]
      · simp only [if_neg equal, if_neg (mt same.mp equal)]

end Verify

def isBase64Url (c : Char) : Bool := c.isAlphanum || c = '-' || c = '_'

/-- A digest in `base64url`. -/
def IsBase64Url (text : String) : Prop := text ≠ "" ∧ ∀ c ∈ text.toList, isBase64Url c = true

/-- The parts of a header: the pair of a cookie, and no earlier one of its name. -/
structure Carries (name : String) (value : List Char) (parts : List (List Char)) : Prop where
  whole : ∀ part ∈ parts, ';' ∉ part
  pair : ∃ before part after, parts = before ++ part :: after ∧
    trimChars part = name.toList ++ '=' :: value ∧ ∀ earlier ∈ before, ¬Names name earlier

theorem cookieValueFromHeader_carries {name : String} (token : IsCookieName name)
    {value : String} {parts : List (List Char)}
    (carries : Carries name (encodeURIComponent value.toList) parts) :
    cookieValueFromHeader (some (String.ofList ([';'].intercalate parts))) name =
      .ok (some value) := by
  obtain ⟨before, part, after, rfl, pair, first⟩ := carries.pair
  rw [cookieValueFromHeader_eq, rawCookie_of_first token carries.whole first pair, Option.elim_some,
    decodeCookie, decodeURIComponent_encodeURIComponent]
  simp only [String.ofList_toList]

theorem signed_cookies_round_trip {signValue : String → String}
    (digest : ∀ payload, IsBase64Url (signValue payload)) :
    (∀ payload, payload ≠ "" →
      verifyCookieBuffers signValue (some (signedCookieValue signValue payload)) = some payload) ∧
    (∀ value payload, verifyCookieBuffers signValue value = some payload →
      value = some (signedCookieValue signValue payload)) ∧
    (∀ value other payload, verifyCookieBuffers signValue value = some payload →
      verifyCookieBuffers signValue other = some payload → value = other) ∧
    ∀ name payload parts, IsCookieName name → payload ≠ "" →
      Carries name (encodeURIComponent (signedCookieValue signValue payload).toList) parts →
      cookieValueFromHeader (some (String.ofList ([';'].intercalate parts))) name =
        .ok (some (signedCookieValue signValue payload)) := by
  have altered : ∀ value payload, verifyCookieBuffers signValue value = some payload →
      value = some (signedCookieValue signValue payload) := by
    intro value payload verified
    rw [verifyCookieBuffers_eq] at verified
    exact eq_of_verifyCookieValue verified
  refine ⟨fun payload filled => ?_, altered, fun value other payload verified verified' => ?_,
    fun name payload parts token _ carries => cookieValueFromHeader_carries token carries⟩
  · have plain : '.' ∉ (signValue payload).toList := fun member =>
      absurd ((digest payload).2 '.' member) (by decide)
    rw [verifyCookieBuffers_eq]
    exact verifyCookieValue_signedCookieValue plain filled
  · rw [altered value payload verified, altered other payload verified']

/-- A payload with a dot, a separator and a letter beyond ASCII, behind a cookie whose name begins
as its own. -/
theorem signed_cookies_round_trip_session :
    let signed := signedCookieValue (fun _ => "c2ln") "a.b;é"
    verifyCookieBuffers (fun _ => "c2ln") (some signed) = some "a.b;é" ∧
      cookieValueFromHeader
        (some "__Host-booth_session_x=%; __Host-booth_session=a.b%3B%C3%A9.c2ln")
        sessionCookieName = .ok (some signed) := by
  intro signed
  have digest : IsBase64Url "c2ln" := ⟨by decide, List.all_eq_true.mp (by decide)⟩
  obtain ⟨verifies, -, -, found⟩ := signed_cookies_round_trip fun _ => digest
  refine ⟨verifies "a.b;é" (by decide), ?_⟩
  have token : IsCookieName sessionCookieName :=
    ⟨by decide, List.all_eq_true.mp (by decide)⟩
  refine found sessionCookieName "a.b;é" ["__Host-booth_session_x=%".toList,
    " __Host-booth_session=a.b%3B%C3%A9.c2ln".toList] token (by decide) ⟨by decide, ?_⟩
  refine ⟨["__Host-booth_session_x=%".toList], _, [], rfl, by decide +kernel, ?_⟩
  rintro earlier member ⟨value, pair⟩
  rw [List.mem_singleton.mp member] at pair
  have own := rawOfPart_of_names token pair
  revert own
  have none' : rawOfPart sessionCookieName "__Host-booth_session_x=%".toList = none := by
    decide +kernel
  rw [none']
  nofun

end BoothOperator.Access
