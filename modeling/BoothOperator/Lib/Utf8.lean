import Mathlib.Data.Int.Order.Basic

/-! UTF-8 as buffers read and write it. `decode` is the decoder of the Encoding
Standard: octets that belong to no character are replaced, those of a sequence that
breaks off by one replacement character. -/
namespace BoothOperator.Utf8

def encode (text : List Char) : List UInt8 := text.flatMap String.utf8EncodeChar

/-- A sequence that is begun: the octets to come after the next, the bounds of the next, and
the code point so far. -/
structure Sequence where
  later : Nat
  low : Nat := 0x80
  high : Nat := 0xBF
  code : Nat

def replacement : Char := '\uFFFD'

/-- An octet between two characters. -/
def lead (octet : UInt8) : List Char × Option Sequence :=
  let o := octet.toNat
  if o < 0x80 then ([Char.ofNat o], none)
  else if 0xC2 ≤ o ∧ o ≤ 0xDF then ([], some { later := 0, code := o - 0xC0 })
  else if 0xE0 ≤ o ∧ o ≤ 0xEF then
    -- neither an overlong form nor a surrogate
    ([], some
      { later := 1
        low := if o = 0xE0 then 0xA0 else 0x80
        high := if o = 0xED then 0x9F else 0xBF
        code := o - 0xE0 })
  else if 0xF0 ≤ o ∧ o ≤ 0xF4 then
    ([], some
      { later := 2
        low := if o = 0xF0 then 0x90 else 0x80
        high := if o = 0xF4 then 0x8F else 0xBF
        code := o - 0xF0 })
  else ([replacement], none)

/-- An octet within a sequence: one that cannot continue it is read again by itself. -/
def continue_ (begun : Sequence) (octet : UInt8) : List Char × Option Sequence :=
  if begun.low ≤ octet.toNat ∧ octet.toNat ≤ begun.high then
    let code := begun.code * 64 + (octet.toNat - 0x80)
    match begun.later with
    | 0 => ([Char.ofNat code], none)
    | later + 1 => ([], some { later, code })
  else
    let (chars, next) := lead octet
    (replacement :: chars, next)

def step : Option Sequence → UInt8 → List Char × Option Sequence
  | none => lead
  | some begun => continue_ begun

def decodeFrom (state : Option Sequence) : List UInt8 → List Char
  | [] => if state.isSome then [replacement] else []
  | octet :: rest => (step state octet).1 ++ decodeFrom (step state octet).2 rest

def decode (octets : List UInt8) : List Char := decodeFrom none octets

theorem toNat_lt (c : Char) : c.toNat < 0xD800 ∨ (0xDFFF < c.toNat ∧ c.toNat ≤ 0x10FFFF) := by
  have valid := c.valid
  simp only [UInt32.isValidChar, Nat.isValidChar] at valid
  change c.val.toNat < 0xD800 ∨ _
  have : c.toNat = c.val.toNat := rfl
  omega

section Octets

variable {n : Nat} {rest : List UInt8} {begun : Sequence}

theorem octet_toNat (small : n < 0x100) : (UInt8.ofNat n).toNat = n := by
  rw [UInt8.toNat_ofNat']
  exact Nat.mod_eq_of_lt small

theorem decodeFrom_cons (state : Option Sequence) (octet : UInt8) (rest : List UInt8) :
    decodeFrom state (octet :: rest) =
      (step state octet).1 ++ decodeFrom (step state octet).2 rest := rfl

theorem decodeFrom_lead {next : Sequence}
    (opens : lead (UInt8.ofNat n) = ([], some next)) :
    decodeFrom none (UInt8.ofNat n :: rest) = decodeFrom (some next) rest := by
  simp [decodeFrom_cons, step, opens]

theorem decodeFrom_more {later : Nat} (more : begun.later = later + 1) (small : n < 0x100)
    (low : begun.low ≤ n) (high : n ≤ begun.high) :
    decodeFrom (some begun) (UInt8.ofNat n :: rest) =
      decodeFrom (some { later, code := begun.code * 64 + (n - 0x80) }) rest := by
  simp [decodeFrom_cons, step, continue_, octet_toNat small, low, high, more]

theorem decodeFrom_last (last : begun.later = 0) (small : n < 0x100)
    (low : begun.low ≤ n) (high : n ≤ begun.high) :
    decodeFrom (some begun) (UInt8.ofNat n :: rest) =
      Char.ofNat (begun.code * 64 + (n - 0x80)) :: decodeFrom none rest := by
  simp [decodeFrom_cons, step, continue_, octet_toNat small, low, high, last]

end Octets

theorem decodeFrom_encodeChar (c : Char) (rest : List UInt8) :
    decodeFrom none (String.utf8EncodeChar c ++ rest) = c :: decodeFrom none rest := by
  have bound := toNat_lt c
  have back : Char.ofNat c.toNat = c := Char.ofNat_toNat c
  have value : c.val.toNat = c.toNat := rfl
  rw [String.utf8EncodeChar]
  simp only [value]
  generalize c.toNat = v at *
  split
  · have small : (UInt8.ofNat v).toNat = v := octet_toNat (by omega)
    simp [decodeFrom_cons, step, lead, small, show v < 0x80 by omega, back]
  split
  · have small : v / 64 % 0x20 + 0xC0 < 0x100 := by omega
    have opens : lead (UInt8.ofNat (v / 64 % 0x20 + 0xC0)) =
        ([], some { later := 0, code := v / 64 % 0x20 + 0xC0 - 0xC0 }) := by
      rw [lead, octet_toNat small, if_neg (by omega), if_pos (by omega)]
    rw [List.cons_append, decodeFrom_lead opens, List.cons_append,
      decodeFrom_last rfl (by omega) (by simp) (by simp; omega)]
    have whole : (v / 64 % 0x20 + 0xC0 - 0xC0) * 64 + (v % 0x40 + 0x80 - 0x80) = v := by omega
    simp only [whole, back, List.nil_append]
  split
  · have small : v / 4096 % 0x10 + 0xE0 < 0x100 := by omega
    have opens : lead (UInt8.ofNat (v / 4096 % 0x10 + 0xE0)) =
        ([], some
          { later := 1
            low := if v / 4096 % 0x10 + 0xE0 = 0xE0 then 0xA0 else 0x80
            high := if v / 4096 % 0x10 + 0xE0 = 0xED then 0x9F else 0xBF
            code := v / 4096 % 0x10 + 0xE0 - 0xE0 }) := by
      rw [lead, octet_toNat small, if_neg (by omega), if_neg (by omega), if_pos (by omega)]
    rw [List.cons_append, decodeFrom_lead opens, List.cons_append,
      decodeFrom_more rfl (by omega) (by simp only; split <;> omega) (by simp only; split <;> omega),
      List.cons_append, decodeFrom_last rfl (by omega) (by simp) (by simp; omega)]
    have whole : ((v / 4096 % 0x10 + 0xE0 - 0xE0) * 64 + (v / 64 % 0x40 + 0x80 - 0x80)) * 64 +
        (v % 0x40 + 0x80 - 0x80) = v := by omega
    simp only [whole, back, List.nil_append]
  · have small : v / 262144 % 0x08 + 0xF0 < 0x100 := by omega
    have opens : lead (UInt8.ofNat (v / 262144 % 0x08 + 0xF0)) =
        ([], some
          { later := 2
            low := if v / 262144 % 0x08 + 0xF0 = 0xF0 then 0x90 else 0x80
            high := if v / 262144 % 0x08 + 0xF0 = 0xF4 then 0x8F else 0xBF
            code := v / 262144 % 0x08 + 0xF0 - 0xF0 }) := by
      rw [lead, octet_toNat small, if_neg (by omega), if_neg (by omega), if_neg (by omega),
        if_pos (by omega)]
    rw [List.cons_append, decodeFrom_lead opens, List.cons_append,
      decodeFrom_more rfl (by omega) (by simp only; split <;> omega) (by simp only; split <;> omega),
      List.cons_append, decodeFrom_more rfl (by omega) (by simp) (by simp; omega),
      List.cons_append, decodeFrom_last rfl (by omega) (by simp) (by simp; omega)]
    have whole : (((v / 262144 % 0x08 + 0xF0 - 0xF0) * 64 + (v / 4096 % 0x40 + 0x80 - 0x80)) * 64 +
        (v / 64 % 0x40 + 0x80 - 0x80)) * 64 + (v % 0x40 + 0x80 - 0x80) = v := by omega
    simp only [whole, back, List.nil_append]

/-- What is encoded is decoded. -/
theorem decode_encode (text : List Char) : decode (encode text) = text := by
  have each (rest : List UInt8) : decodeFrom none (encode text ++ rest) =
      text ++ decodeFrom none rest := by
    induction text with
    | nil => rfl
    | cons c text ih =>
      rw [encode, List.flatMap_cons, List.append_assoc, decodeFrom_encodeChar]
      exact congrArg (c :: ·) ih
  have whole := each []
  rw [decode]
  simpa [decodeFrom] using whole

theorem zero_mem_encode {text : List Char} (zero : 0 ∈ encode text) : '\x00' ∈ text := by
  obtain ⟨c, member, zero⟩ := List.mem_flatMap.mp zero
  suffices c.toNat = 0 by
    have nul : c = '\x00' := by rw [← Char.ofNat_toNat c, this]
    exact nul ▸ member
  have value : c.val.toNat = c.toNat := rfl
  have small {n : Nat} (bound : n < 0x100) (same : (0 : UInt8) = UInt8.ofNat n) : n = 0 := by
    rw [← octet_toNat bound, ← same]
    rfl
  rw [String.utf8EncodeChar] at zero
  simp only [value] at zero
  split at zero
  · exact small (by omega) (List.mem_singleton.mp zero)
  exfalso
  split at zero
  · simp only [List.mem_cons, List.not_mem_nil, or_false] at zero
    rcases zero with zero | zero <;> have := small (by omega) zero <;> omega
  split at zero
  · simp only [List.mem_cons, List.not_mem_nil, or_false] at zero
    rcases zero with zero | zero | zero <;> have := small (by omega) zero <;> omega
  · simp only [List.mem_cons, List.not_mem_nil, or_false] at zero
    rcases zero with zero | zero | zero | zero <;> have := small (by omega) zero <;> omega

end BoothOperator.Utf8
