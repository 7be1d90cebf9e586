import Mathlib
import BoothOperator.Events.Batch
import BoothOperator.Lib.Base64Url
import BoothOperator.Lib.IsoTime
import BoothOperator.Lib.Utf8

/-! `lib/cursor.ts`, and the columns that a cursor points into: the timestamp that a
listing goes by, and an id that is a uuid or a text. What an engine reads from a text
that is not as `toISOString` writes it is a parameter. -/
namespace BoothOperator.Listings

open BoothOperator.Events (isGuid isGuid_toLower)

/-- A `Date`. -/
abbrev Instant := { ms : Int // IsoTime.Valid ms }

-- Stated, so that they are the ones that compute.
instance : LinearOrder Instant := @Subtype.instLinearOrder Int Int.instLinearOrder IsoTime.Valid
instance : DecidableLE Instant := fun one other => Int.decLe one.1 other.1
instance : DecidableLT Instant := fun one other => Int.decLt one.1 other.1

def Instant.toISOString (time : Instant) : String := IsoTime.toISOString time.1

/-- `new Date(text)`, or none where it is not valid. -/
def newDate (otherFormats : String → Option Instant) (text : String) : Option Instant :=
  match IsoTime.fromISOString text with
  | none => otherFormats text
  | some ms => if valid : IsoTime.Valid ms then some ⟨ms, valid⟩ else none

structure Cursor where
  timestamp : String
  id : String

def encodeCursor (cursor : Cursor) : String :=
  String.ofList (Base64Url.encode (Utf8.encode (cursor.timestamp.toList ++ '\t' :: cursor.id.toList)))

def decodeCursor (otherFormats : String → Option Instant) (raw : String) : Option Cursor :=
  let decoded := Utf8.decode (Base64Url.decode raw.toList)
  if '\t' ∉ decoded then none
  else
    let timestamp := String.ofList (decoded.takeWhile (· ≠ '\t'))
    let id := String.ofList (decoded.dropWhile (· ≠ '\t')).tail
    if timestamp = "" ∨ id = "" then none
    else if (newDate otherFormats timestamp).isNone then none
    else some { timestamp, id }

/-- An id column: its values as texts, and a text as a value, where the column takes it. -/
structure IdColumn (ι : Type) where
  text : ι → String
  cast : String → Option ι
  cast_text : ∀ id, cast (text id) = some id
  filled : ∀ id, text id ≠ ""

/-- A value of a `@db.Uuid` column. -/
structure Uuid where
  text : String
  guid : isGuid text
  lower : text.toLower = text

/-- A text that is an id. -/
structure TextId where
  text : String
  filled : text ≠ ""

theorem toLower_toLower (text : String) : text.toLower.toLower = text.toLower := by
  apply String.toList_inj.mp
  simp [String.toLower, String.toList_map]

def uuidColumn : IdColumn Uuid where
  text := Uuid.text
  cast raw :=
    if guid : isGuid raw then some ⟨raw.toLower, isGuid_toLower guid, toLower_toLower raw⟩ else none
  cast_text := by
    rintro ⟨text, guid, lower⟩
    simp [guid, lower]
  filled := by
    rintro ⟨text, guid, -⟩ rfl
    exact absurd guid (by decide)

def textColumn : IdColumn TextId where
  text := TextId.text
  cast raw := if filled : raw ≠ "" then some ⟨raw, filled⟩ else none
  cast_text := by
    rintro ⟨text, filled⟩
    simp [filled]
  filled := TextId.filled

section Roundtrip

variable {otherFormats : String → Option Instant} {ι : Type} (column : IdColumn ι)

theorem newDate_toISOString (time : Instant) : newDate otherFormats time.toISOString = some time := by
  obtain ⟨ms, valid⟩ := time
  simp [newDate, Instant.toISOString, IsoTime.fromISOString_toISOString valid, valid]

theorem tab_ne_digit (value : Int) : '\t' ≠ IsoTime.digit value := by
  intro same
  have code : (IsoTime.digit value).toNat = 9 := congrArg Char.toNat same.symm
  unfold IsoTime.digit Char.ofNat at code
  split at code
  · change 48 + value.toNat = 9 at code
    omega
  · cases code

theorem tab_not_mem_toISOString (time : Instant) : '\t' ∉ time.toISOString.toList := by
  unfold Instant.toISOString IsoTime.toISOString
  split
  · simp [IsoTime.format, IsoTime.four, IsoTime.three, IsoTime.two, tab_ne_digit]
  · simp only [String.toList_ofList, List.cons_append, List.mem_cons, List.mem_append, not_or]
    refine ⟨?_, ?_, ?_⟩
    · split <;> decide
    · simp [IsoTime.six, IsoTime.four, IsoTime.three, IsoTime.two, tab_ne_digit]
    · simp [IsoTime.format, IsoTime.four, IsoTime.three, IsoTime.two, tab_ne_digit]

theorem toISOString_ne_empty (time : Instant) : time.toISOString ≠ "" := by
  unfold Instant.toISOString IsoTime.toISOString
  split <;> simp [IsoTime.format, IsoTime.four]

/-- The cursor of a row. -/
def cursorOf (time : Instant) (id : ι) : Cursor := ⟨time.toISOString, column.text id⟩

theorem decodeCursor_encodeCursor (time : Instant) (id : ι) :
    decodeCursor otherFormats (encodeCursor (cursorOf column time id)) =
      some (cursorOf column time id) := by
  have tabless : ∀ c ∈ time.toISOString.toList, decide (c ≠ '\t') = true := by
    intro c member
    refine decide_eq_true ?_
    rintro rfl
    exact tab_not_mem_toISOString time member
  have before : (time.toISOString.toList ++ '\t' :: (column.text id).toList).takeWhile
      (· ≠ '\t') = time.toISOString.toList := by
    rw [List.takeWhile_append_of_pos tabless]
    simp
  have after : (time.toISOString.toList ++ '\t' :: (column.text id).toList).dropWhile
      (· ≠ '\t') = '\t' :: (column.text id).toList := by
    rw [List.dropWhile_append_of_pos tabless]
    simp
  unfold decodeCursor encodeCursor
  simp only [String.toList_ofList, Base64Url.decode_encode, Utf8.decode_encode, cursorOf, before,
    after, List.tail_cons, String.ofList_toList]
  rw [if_neg (by simp), if_neg (not_or.mpr ⟨toISOString_ne_empty time, column.filled id⟩),
    newDate_toISOString]
  rfl

end Roundtrip

end BoothOperator.Listings
