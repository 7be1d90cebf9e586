import Mathlib.Algebra.Ring.Nat
import BoothOperator.Lib.Octets
import BoothOperator.Lib.Utf8
import BoothOperator.TranslationText

/-! `lib/archive.ts`: tar archives as they are written for an export, and read from an
upload. Sizes and offsets of a read archive are what its headers say, so they are
integers, and `none` where they are not a number. -/
namespace BoothOperator.Tar

open BoothOperator.Octets
open BoothOperator.TranslationText (trimChars isJsSpace)

def blockSize : Nat := 512

structure ArchiveEntry where
  name : String
  data : List UInt8
  deriving DecidableEq

/-! ## Writing -/

def ascii (text : List Char) : List UInt8 := text.map fun c => UInt8.ofNat c.toNat

/-- `value.toString(8).padStart(length, "0")`. -/
def octal (value length : Nat) : List Char :=
  let text := Nat.toDigits 8 value
  List.replicate (length - text.length) '0' ++ text

def writeOctal (buffer : List UInt8) (value offset length : Nat) : List UInt8 :=
  let text := octal value (length - 1)
  write (write buffer ((ascii text).take (length - 1)) offset) [0] (offset + length - 1)

def headerFor (name : String) (size : Nat) : Except String (List UInt8) :=
  let nameOctets := Utf8.encode name.toList
  if nameOctets.length > 100 then .error s!"archive entry name too long: {name}"
  else
    let header := List.replicate blockSize 0
    let header := write header nameOctets 0
    -- mode, uid, gid, size, mtime
    let header := writeOctal header 420 100 8
    let header := writeOctal header 0 108 8
    let header := writeOctal header 0 116 8
    let header := writeOctal header size 124 12
    let header := writeOctal header 0 136 12
    -- typeflag, magic and version
    let header := write header (ascii ['0']) 156
    let header := write header (ascii ['u', 's', 't', 'a', 'r', '\x00']) 257
    let header := write header (ascii ['0', '0']) 263
    -- the checksum, over a header that has spaces in its place
    let header := write header (List.replicate 8 0x20) 148
    let checksum := (header.map UInt8.toNat).sum
    let header := write header ((ascii (octal checksum 6)).take 6) 148
    let header := write header [0] 154
    .ok (write header [0x20] 155)

/-- The remainder has the sign of the size. -/
def padTo512 (size : Int) : Int :=
  if size.tmod blockSize = 0 then 0 else blockSize - size.tmod blockSize

theorem padTo512_nonneg (size : Nat) : 0 ≤ padTo512 size := by
  have remainder : (size : Int).tmod blockSize = ↑(size % 512) := (Int.ofNat_tmod size 512).symm
  rw [padTo512, remainder]
  simp only [blockSize]
  split <;> omega

def chunksOf (entry : ArchiveEntry) : Except String (List UInt8) := do
  let header ← headerFor entry.name entry.data.length
  return header ++ entry.data ++ List.replicate (padTo512 entry.data.length).toNat 0

/-- Two zero blocks mark the end of the archive. -/
def createTar (entries : List ArchiveEntry) : Except String (List UInt8) := do
  let chunks ← entries.mapM chunksOf
  return chunks.flatten ++ List.replicate (blockSize * 2) 0

/-! ## Reading -/

def isZeroBlock (buffer : List UInt8) (offset : Int) : Bool :=
  (List.range blockSize).all fun index => octetAt buffer (offset + index) = some 0

/-- The octets before the first that is zero. -/
def readString (buffer : List UInt8) (offset : Int) (length : Nat) : List Char :=
  Utf8.decode ((subarray buffer offset (offset + length)).takeWhile (· ≠ 0))

def isOctalDigit (c : Char) : Bool := '0' ≤ c && c ≤ '7'

/-- `Number.parseInt(text, 8)`, or none for `NaN`. -/
def parseOctal (text : List Char) : Option Int :=
  let rest := text.dropWhile isJsSpace
  let (sign, rest) : Int × List Char :=
    match rest with
    | '-' :: rest => (-1, rest)
    | '+' :: rest => (1, rest)
    | rest => (1, rest)
  let digits := rest.takeWhile isOctalDigit
  if digits = [] then none else some (sign * Nat.ofDigitChars 8 digits 0)

/-- The size field of the header at an offset. -/
def sizeAt (archive : List UInt8) (offset : Int) : Option Int :=
  let sizeText := trimChars (readString archive (offset + 124) 12)
  if sizeText = [] then some 0 else parseOctal sizeText

/-- Whether the loop goes on at an offset. -/
def hasHeader (archive : List UInt8) (offset : Int) : Bool :=
  offset + blockSize ≤ archive.length && !isZeroBlock archive offset

/-- A turn of the loop, at a header: the entry, and the offset of the next. -/
def turn (archive : List UInt8) (offset : Int) : ArchiveEntry × Option Int :=
  let name := String.ofList (readString archive offset 100)
  let dataStart := offset + blockSize
  match sizeAt archive offset with
  -- `NaN` ends the data where the buffer begins
  | none => (⟨name, subarray archive dataStart 0⟩, none)
  | some size =>
    (⟨name, subarray archive dataStart (dataStart + size)⟩, some (dataStart + size + padTo512 size))

/-- The loop from an offset, when it ends within so many turns. -/
def readTarFrom (archive : List UInt8) : Nat → Int → Option (List ArchiveEntry)
  | 0, _ => none
  | turns + 1, offset =>
    if hasHeader archive offset then
      match turn archive offset with
      | (entry, none) => some [entry]
      | (entry, some next) => (readTarFrom archive turns next).map (entry :: ·)
    else some []

def readTar (turns : Nat) (archive : List UInt8) : Option (List ArchiveEntry) :=
  readTarFrom archive turns 0

end BoothOperator.Tar
