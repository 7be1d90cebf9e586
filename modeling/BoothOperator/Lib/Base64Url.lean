import Mathlib.Data.List.Basic

/-! Base64 with the alphabet that is safe in URLs and no padding. `decode` reads both
alphabets and passes over every other character, as the buffers of Node do. -/
namespace BoothOperator.Base64Url

def symbols : List Char :=
  "ABCDEFGHIJKLMNOPQRSTUVWXYZabcdefghijklmnopqrstuvwxyz0123456789-_".toList

def symbol (value : Nat) : Char := symbols.getD value 'A'

def valueOf (c : Char) : Option Nat :=
  if c = '+' then some 62
  else if c = '/' then some 63
  else if c ∈ symbols then some (symbols.idxOf c)
  else none

/-- The groups of six bits. -/
def sextets : List UInt8 → List Nat
  | a :: b :: c :: rest =>
    a.toNat / 4 :: (a.toNat % 4 * 16 + b.toNat / 16) :: (b.toNat % 16 * 4 + c.toNat / 64) ::
      (c.toNat % 64) :: sextets rest
  | [a, b] => [a.toNat / 4, a.toNat % 4 * 16 + b.toNat / 16, b.toNat % 16 * 4]
  | [a] => [a.toNat / 4, a.toNat % 4 * 16]
  | [] => []

/-- The octets of the groups; what is left of an octet at the end is dropped. -/
def octets : List Nat → List UInt8
  | w :: x :: y :: z :: rest =>
    UInt8.ofNat (w * 4 + x / 16) :: UInt8.ofNat (x % 16 * 16 + y / 4) ::
      UInt8.ofNat (y % 4 * 64 + z) :: octets rest
  | [w, x, y] => [UInt8.ofNat (w * 4 + x / 16), UInt8.ofNat (x % 16 * 16 + y / 4)]
  | [w, x] => [UInt8.ofNat (w * 4 + x / 16)]
  | _ => []

def encode (data : List UInt8) : List Char := (sextets data).map symbol

def decode (text : List Char) : List UInt8 := octets (text.filterMap valueOf)

theorem valueOf_symbol {value : Nat} (bound : value < 64) : valueOf (symbol value) = some value := by
  have all : ∀ n < 64, valueOf (symbol n) = some n := by decide +kernel
  exact all value bound

theorem sextets_bound (data : List UInt8) : ∀ value ∈ sextets data, value < 64 := by
  induction data using sextets.induct with
  | case1 a b c rest ih =>
    have := a.toNat_lt
    have := b.toNat_lt
    have := c.toNat_lt
    intro value member
    simp only [sextets, List.mem_cons] at member
    rcases member with rfl | rfl | rfl | rfl | member
    · omega
    · omega
    · omega
    · omega
    · exact ih value member
  | case2 a b =>
    have := a.toNat_lt
    have := b.toNat_lt
    intro value member
    simp only [sextets, List.mem_cons, List.not_mem_nil, or_false] at member
    omega
  | case3 a =>
    have := a.toNat_lt
    intro value member
    simp only [sextets, List.mem_cons, List.not_mem_nil, or_false] at member
    omega
  | case4 => simp [sextets]

theorem octet_eq {a : UInt8} {n : Nat} (same : n = a.toNat) : UInt8.ofNat n = a := by
  rw [same]
  exact UInt8.ofNat_toNat

theorem octets_sextets (data : List UInt8) : octets (sextets data) = data := by
  induction data using sextets.induct with
  | case1 a b c rest ih =>
    have := a.toNat_lt
    have := b.toNat_lt
    have := c.toNat_lt
    rw [sextets, octets, ih, @octet_eq a _ (by omega), @octet_eq b _ (by omega),
      @octet_eq c _ (by omega)]
  | case2 a b =>
    have := a.toNat_lt
    have := b.toNat_lt
    rw [sextets, octets, @octet_eq a _ (by omega), @octet_eq b _ (by omega)]
  | case3 a =>
    have := a.toNat_lt
    rw [sextets, octets, @octet_eq a _ (by omega)]
  | case4 => rfl

theorem decode_encode (data : List UInt8) : decode (encode data) = data := by
  have values : (encode data).filterMap valueOf = sextets data := by
    rw [encode, List.filterMap_map]
    have each : ∀ value ∈ sextets data, (valueOf ∘ symbol) value = some value :=
      fun value member => valueOf_symbol (sextets_bound data value member)
    rw [List.filterMap_congr each, List.filterMap_some]
  rw [decode, values, octets_sextets]

end BoothOperator.Base64Url
