import Mathlib.Data.List.Basic

/-! Buffers of octets. A part is taken by two offsets, of which a negative one counts from
the end of the buffer, and octets are written over those that are there. -/
namespace BoothOperator.Octets

variable {buffer octets : List UInt8} {start stop offset : Nat}

/-- `buffer[index]`. -/
def octetAt (buffer : List UInt8) (index : Int) : Option UInt8 :=
  if index < 0 then none else buffer[index.toNat]?

/-- An offset as `subarray` takes it. -/
def adjustOffset (length : Nat) (offset : Int) : Nat :=
  if offset < 0 then (offset + length).toNat else min offset.toNat length

def subarray (buffer : List UInt8) (start stop : Int) : List UInt8 :=
  (buffer.drop (adjustOffset buffer.length start)).take
    (adjustOffset buffer.length stop - adjustOffset buffer.length start)

/-- `buffer.fill`, and `buffer.write` of a text in its encoding. -/
def write (buffer octets : List UInt8) (offset : Nat) : List UInt8 :=
  buffer.take offset ++ octets ++ buffer.drop (offset + octets.length)

/-- The octets between two offsets. -/
def slice (buffer : List UInt8) (start stop : Nat) : List UInt8 :=
  (buffer.drop start).take (stop - start)

theorem length_write (fits : offset + octets.length ≤ buffer.length) :
    (write buffer octets offset).length = buffer.length := by
  simp only [write, List.length_append, List.length_take, List.length_drop]
  omega

theorem slice_write_before (fits : offset + octets.length ≤ buffer.length)
    (before : stop ≤ offset) : slice (write buffer octets offset) start stop =
      slice buffer start stop := by
  have taken (whole : List UInt8) : slice whole start stop = (whole.take stop).drop start :=
    List.drop_take.symm
  rw [taken, taken, write, List.append_assoc, List.take_append_of_le_length, List.take_take,
    Nat.min_eq_left before]
  rw [List.length_take]
  omega

theorem slice_write_after (fits : offset + octets.length ≤ buffer.length)
    (after : offset + octets.length ≤ start) : slice (write buffer octets offset) start stop =
      slice buffer start stop := by
  have front : (buffer.take offset ++ octets).length = offset + octets.length := by
    rw [List.length_append, List.length_take]
    omega
  rw [slice, write, List.drop_append, List.drop_of_length_le (by omega), List.nil_append, front,
    List.drop_drop, slice]
  congr 2
  omega

theorem slice_write (fits : offset + octets.length ≤ buffer.length) :
    slice (write buffer octets offset) offset (offset + octets.length) = octets := by
  have front : (buffer.take offset).length = offset := by
    rw [List.length_take]
    omega
  rw [slice, write, List.append_assoc, List.drop_append, front, Nat.sub_self, List.drop_zero,
    List.drop_of_length_le (by omega), List.nil_append, Nat.add_sub_cancel_left, List.take_left]

theorem subarray_eq_slice (start stop : Nat) (inside : stop ≤ buffer.length) :
    subarray buffer start stop = slice buffer start stop := by
  have begin_ : adjustOffset buffer.length start = min start buffer.length := by
    rw [adjustOffset, if_neg (by omega), Int.toNat_natCast]
  have end_ : adjustOffset buffer.length stop = stop := by
    rw [adjustOffset, if_neg (by omega), Int.toNat_natCast, Nat.min_eq_left inside]
  rw [subarray, begin_, end_, slice]
  rcases Nat.le_total start buffer.length with within | beyond
  · rw [Nat.min_eq_left within]
  · rw [Nat.min_eq_right beyond, List.drop_length, List.drop_of_length_le beyond, List.take_nil,
      List.take_nil]

/-- A part that begins where another buffer ends is a part of what follows. -/
theorem slice_append_right (front rest : List UInt8) (start stop : Nat) :
    slice (front ++ rest) (front.length + start) (front.length + stop) = slice rest start stop := by
  rw [slice, List.drop_length_add_append, Nat.add_sub_add_left, slice]

theorem slice_append_left (front rest : List UInt8) (inside : stop ≤ front.length) :
    slice (front ++ rest) start stop = slice front start stop := by
  rw [slice, slice, ← List.drop_take, ← List.drop_take, List.take_append_of_le_length inside]

end BoothOperator.Octets
