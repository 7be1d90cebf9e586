import BoothOperator.Archive.Tar

/-! Reading a written archive gives its entries: a header keeps the name and the size apart
from its other fields, and the padding leaves the reader at the next header, whatever the
data is. -/
namespace BoothOperator.Tar

open BoothOperator.Octets
open BoothOperator.TranslationText (trimChars isJsSpace)

/-! ## Octal fields -/

theorem digitChar_octal : ∀ n < 8, isOctalDigit (Nat.digitChar n) = true := by
  decide

theorem octal_of_mem_toDigits {n : Nat} {c : Char} (member : c ∈ Nat.toDigits 8 n) :
    isOctalDigit c = true := by
  induction n using Nat.strongRecOn with
  | ind n ih =>
    rw [Nat.toDigits_eq_if (by decide)] at member
    split at member
    · rw [List.mem_singleton.mp member]
      exact digitChar_octal n (by omega)
    · rcases List.mem_append.mp member with front | last
      · exact ih (n / 8) (by omega) front
      · rw [List.mem_singleton.mp last]
        exact digitChar_octal _ (Nat.mod_lt _ (by decide))

theorem octal_digits (value length : Nat) : ∀ c ∈ octal value length, isOctalDigit c = true := by
  intro c member
  rcases List.mem_append.mp member with padding | digit
  · rw [List.eq_of_mem_replicate padding]
    rfl
  · exact octal_of_mem_toDigits digit

theorem length_octal_le (value length : Nat) : length ≤ (octal value length).length := by
  rw [octal, List.length_append, List.length_replicate]
  omega

theorem length_octal {value length : Nat} (positive : 0 < length) (fits : value < 8 ^ length) :
    (octal value length).length = length := by
  have digits := (Nat.length_toDigits_le_iff (b := 8) (by decide) positive).mpr fits
  rw [octal, List.length_append, List.length_replicate]
  omega

theorem code_of_octal {c : Char} (digit : isOctalDigit c = true) :
    0x30 ≤ c.toNat ∧ c.toNat ≤ 0x37 := by
  simp only [isOctalDigit, Bool.and_eq_true, decide_eq_true_eq] at digit
  exact digit

theorem space_of_octal {c : Char} (digit : isOctalDigit c = true) : isJsSpace c = false := by
  obtain ⟨low, high⟩ := code_of_octal digit
  simp only [isJsSpace]
  grind

/-- Digits are read as they are written. -/
theorem parseOctal_digits {digits : List Char} (octal : ∀ c ∈ digits, isOctalDigit c = true)
    (some_ : digits ≠ []) : parseOctal digits = some ↑(Nat.ofDigitChars 8 digits 0) := by
  obtain ⟨c, rest, rfl⟩ := List.exists_cons_of_ne_nil some_
  have first := octal c List.mem_cons_self
  have code := code_of_octal first
  have unsigned : c ≠ '-' ∧ c ≠ '+' := by
    constructor <;> rintro rfl <;> simp at code
  have whole : (c :: rest).takeWhile isOctalDigit = c :: rest := List.takeWhile_eq_self_iff.mpr octal
  have front : (c :: rest).dropWhile isJsSpace = c :: rest := by
    rw [List.dropWhile_cons_of_neg (by simp [space_of_octal first])]
  rw [parseOctal, front]
  simp [unsigned, whole]

theorem trimChars_digits {digits : List Char} (octal : ∀ c ∈ digits, isOctalDigit c = true) :
    trimChars digits = digits :=
  TranslationText.trimChars_of_unspaced fun c member => space_of_octal (octal c member)

theorem ofDigitChars_octal (value length : Nat) :
    Nat.ofDigitChars 8 (octal value length) 0 = value := by
  rw [octal, Nat.ofDigitChars_append, Nat.ofDigitChars_replicate_zero, Nat.mul_zero,
    Nat.ofDigitChars_toDigits (by decide) (by decide)]

theorem ascii_digits {digits : List Char} (octal : ∀ c ∈ digits, isOctalDigit c = true) :
    ascii digits = Utf8.encode digits := by
  induction digits with
  | nil => rfl
  | cons c rest ih =>
    have code := code_of_octal (octal c List.mem_cons_self)
    have one : String.utf8EncodeChar c = [UInt8.ofNat c.toNat] := by
      have small : c.val.toNat ≤ 0x7F := by
        change c.toNat ≤ 0x7F
        omega
      simp only [String.utf8EncodeChar, if_pos small]
      rfl
    rw [ascii, List.map_cons, Utf8.encode, List.flatMap_cons, one, List.singleton_append]
    exact congrArg _ (ih fun d member => octal d (List.mem_cons_of_mem _ member))

theorem zero_not_mem_ascii {digits : List Char} (octal : ∀ c ∈ digits, isOctalDigit c = true) :
    ∀ o ∈ ascii digits, o ≠ 0 := by
  rintro o member rfl
  obtain ⟨c, digit, zero⟩ := List.mem_map.mp member
  have code := code_of_octal (octal c digit)
  have value := congrArg UInt8.toNat zero
  rw [Utf8.octet_toNat (by omega)] at value
  simp at value
  omega

/-! ## A header -/

/-- A header after a field was written past the size field, or between it and the name. -/
structure Keeps (before after : List UInt8) : Prop where
  length : after.length = before.length
  name : slice after 0 100 = slice before 0 100
  size : slice after 124 136 = slice before 124 136

theorem Keeps.refl (header : List UInt8) : Keeps header header := ⟨rfl, rfl, rfl⟩

theorem Keeps.write {before buffer octets : List UInt8} {offset : Nat} (kept : Keeps before buffer)
    (whole : before.length = 512) (fits : offset + octets.length ≤ 512) (name : 100 ≤ offset)
    (size : offset + octets.length ≤ 124 ∨ 136 ≤ offset) :
    Keeps before (write buffer octets offset) where
  length := by
    rw [length_write (by rw [kept.length]; omega), kept.length]
  name := by
    rw [slice_write_before (by rw [kept.length]; omega) name, kept.name]
  size := by
    rcases size with earlier | later
    · rw [slice_write_after (by rw [kept.length]; omega) earlier, kept.size]
    · rw [slice_write_before (by rw [kept.length]; omega) later, kept.size]

theorem length_field (value length : Nat) :
    ((ascii (octal value length)).take length).length = length := by
  have long := length_octal_le value length
  rw [List.length_take, ascii, List.length_map]
  omega

theorem Keeps.writeOctal {before buffer : List UInt8} {value offset length : Nat}
    (kept : Keeps before buffer) (whole : before.length = 512) (positive : 0 < length)
    (fits : offset + length ≤ 512) (name : 100 ≤ offset)
    (size : offset + length ≤ 124 ∨ 136 ≤ offset) :
    Keeps before (writeOctal buffer value offset length) := by
  have field := length_field value (length - 1)
  have digits : Keeps before
      (Octets.write buffer ((ascii (octal value (length - 1))).take (length - 1)) offset) :=
    kept.write whole (by omega) name (by omega)
  refine digits.write whole ?_ (by omega) ?_
  · rw [List.length_singleton]
    omega
  · rw [List.length_singleton]
    omega

/-- The size field, once it is written. -/
theorem slice_writeOctal {buffer : List UInt8} {size : Nat} (whole : buffer.length = 512)
    (fits : size < 8 ^ 11) :
    (writeOctal buffer size 124 12).length = 512 ∧
    slice (writeOctal buffer size 124 12) 0 100 = slice buffer 0 100 ∧
    slice (writeOctal buffer size 124 12) 124 136 = ascii (octal size 11) ++ [0] := by
  have long : (ascii (octal size 11)).length = 11 := by
    rw [ascii, List.length_map, length_octal (by decide) fits]
  have joined : writeOctal buffer size 124 12 =
      write (write buffer (ascii (octal size 11)) 124) [0] 135 := by
    simp only [writeOctal, Nat.reduceSub, Nat.reduceAdd]
    rw [List.take_of_length_le (by omega)]
  have half : (write buffer (ascii (octal size 11)) 124).length = 512 := by
    rw [length_write (by omega), whole]
  have apart (octets : List UInt8) :
      slice octets 124 136 = slice octets 124 135 ++ slice octets 135 136 := by
    simp only [slice]
    rw [show 136 - 124 = 11 + (136 - 135) from rfl, List.take_add, List.drop_drop]
  rw [joined]
  refine ⟨?_, ?_, ?_⟩
  · rw [length_write (by simp [half]), half]
  · rw [slice_write_before (by simp [half]) (by decide), slice_write_before (by omega) (by decide)]
  · rw [apart, slice_write_before (by simp [half]) (by decide)]
    have own : slice (write buffer (ascii (octal size 11)) 124) 124
        (124 + (ascii (octal size 11)).length) = ascii (octal size 11) := slice_write (by omega)
    rw [long] at own
    rw [own]
    exact congrArg _ (slice_write (by simp [half]))

theorem headerFor_ok {name : String} {size : Nat} (short : (Utf8.encode name.toList).length ≤ 100)
    (fits : size < 8 ^ 11) :
    ∃ header, headerFor name size = .ok header ∧ header.length = 512 ∧
      slice header 0 100 = Utf8.encode name.toList ++
        List.replicate (100 - (Utf8.encode name.toList).length) 0 ∧
      slice header 124 136 = ascii (octal size 11) ++ [0] := by
  rw [headerFor, if_neg (by omega)]
  refine ⟨_, rfl, ?_⟩
  generalize Utf8.encode name.toList = octets at short
  have empty : (write (List.replicate blockSize 0) octets 0).length = 512 := by
    rw [length_write, List.length_replicate, blockSize]
    rw [List.length_replicate, blockSize]
    omega
  have named : slice (write (List.replicate blockSize 0) octets 0) 0 100 =
      octets ++ List.replicate (100 - octets.length) 0 := by
    simp only [slice, write, blockSize, List.take_zero, List.nil_append, List.drop_zero,
      Nat.zero_add, List.drop_replicate]
    rw [List.take_append, List.take_of_length_le short, List.take_replicate,
      Nat.min_eq_left (by omega)]
  generalize write (List.replicate blockSize 0) octets 0 = header at empty named
  have owned : Keeps header (writeOctal (writeOctal (writeOctal header 420 100 8) 0 108 8) 0 116 8) :=
    (((Keeps.refl header).writeOctal empty (by decide) (by decide) (by decide) (by decide)).writeOctal
      empty (by decide) (by decide) (by decide) (by decide)).writeOctal
      empty (by decide) (by decide) (by decide) (by decide)
  obtain ⟨sized, before, field⟩ := slice_writeOctal (owned.length.trans empty) fits
  rw [owned.name, named] at before
  generalize writeOctal _ size 124 12 = header at sized before field
  suffices kept : Keeps header _ from
    ⟨kept.length.trans sized, kept.name.trans before, kept.size.trans field⟩
  -- from the last write back to the first after the size
  refine Keeps.write ?_ sized (by decide) (by decide) (by decide)
  refine Keeps.write ?_ sized (by decide) (by decide) (by decide)
  refine Keeps.write ?_ sized (by rw [length_field]; decide) (by decide) (by rw [length_field]; decide)
  refine Keeps.write ?_ sized (by decide) (by decide) (by decide)
  refine Keeps.write ?_ sized (by decide) (by decide) (by decide)
  refine Keeps.write ?_ sized (by decide) (by decide) (by decide)
  refine Keeps.write ?_ sized (by decide) (by decide) (by decide)
  exact (Keeps.refl header).writeOctal sized (by decide) (by decide) (by decide) (by decide)

/-! ## An archive -/

/-- An entry whose name is without a NUL and has room, and whose size has as well. -/
structure Storable (entry : ArchiveEntry) : Prop where
  name : (Utf8.encode entry.name.toList).length ≤ 100
  text : '\x00' ∉ entry.name.toList
  data : entry.data.length < 8 ^ 11

theorem readString_eq {buffer : List UInt8} {offset length : Nat}
    (inside : offset + length ≤ buffer.length) : readString buffer offset length =
      Utf8.decode ((slice buffer offset (offset + length)).takeWhile (· ≠ 0)) := by
  rw [readString, ← Int.natCast_add, subarray_eq_slice _ _ inside]

theorem takeWhile_field {octets rest : List UInt8} (text : ∀ o ∈ octets, o ≠ 0)
    (ends : rest.takeWhile (· ≠ 0) = []) : (octets ++ rest).takeWhile (· ≠ 0) = octets := by
  rw [List.takeWhile_append_of_pos (by simpa using text), ends, List.append_nil]

theorem chunksOf_ok {entry : ArchiveEntry} (storable : Storable entry) :
    ∃ header, header.length = 512 ∧
      chunksOf entry = .ok (header ++ entry.data ++
        List.replicate (padTo512 entry.data.length).toNat 0) ∧
      slice header 0 100 = Utf8.encode entry.name.toList ++
        List.replicate (100 - (Utf8.encode entry.name.toList).length) 0 ∧
      slice header 124 136 = ascii (octal entry.data.length 11) ++ [0] := by
  obtain ⟨header, written, whole, name, size⟩ := headerFor_ok storable.name storable.data
  refine ⟨header, whole, ?_, name, size⟩
  rw [chunksOf, written]
  rfl

section Header

variable {entry : ArchiveEntry} {front header rest : List UInt8}

theorem name_read (storable : Storable entry) (whole : header.length = 512)
    (name : slice header 0 100 = Utf8.encode entry.name.toList ++
      List.replicate (100 - (Utf8.encode entry.name.toList).length) 0) :
    String.ofList (readString (front ++ (header ++ rest)) front.length 100) = entry.name := by
  have inside : front.length + 100 ≤ (front ++ (header ++ rest)).length := by
    simp only [List.length_append]
    omega
  have text : ∀ o ∈ Utf8.encode entry.name.toList, o ≠ 0 := by
    rintro o member rfl
    exact storable.text (Utf8.zero_mem_encode member)
  rw [readString_eq inside]
  have own := slice_append_right front (header ++ rest) 0 100
  rw [Nat.add_zero] at own
  rw [own, slice_append_left _ _ (by omega), name, takeWhile_field text (by simp),
    Utf8.decode_encode, String.ofList_toList]

theorem sizeAt_read {size : Nat} (whole : header.length = 512)
    (field : slice header 124 136 = ascii (octal size 11) ++ [0]) :
    sizeAt (front ++ (header ++ rest)) front.length = some ↑size := by
  have inside : front.length + 124 + 12 ≤ (front ++ (header ++ rest)).length := by
    simp only [List.length_append]
    omega
  have digits := octal_digits size 11
  have long : octal size 11 ≠ [] := by
    have count := length_octal_le size 11
    rw [← List.length_pos_iff]
    omega
  have read : readString (front ++ (header ++ rest)) (front.length + 124 : Nat) 12 =
      octal size 11 := by
    rw [readString_eq inside, Nat.add_assoc, slice_append_right, slice_append_left _ _ (by omega),
      field, takeWhile_field (zero_not_mem_ascii digits) (by simp), ascii_digits digits,
      Utf8.decode_encode]
  rw [sizeAt, show (front.length + 124 : Int) = (front.length + 124 : Nat) from rfl, read,
    trimChars_digits digits, if_neg long, parseOctal_digits digits long,
    ofDigitChars_octal]

theorem hasHeader_read {size : Nat} (whole : header.length = 512)
    (field : slice header 124 136 = ascii (octal size 11) ++ [0]) :
    hasHeader (front ++ (header ++ rest)) front.length = true := by
  have inside : front.length + 512 ≤ (front ++ (header ++ rest)).length := by
    simp only [List.length_append]
    omega
  obtain ⟨digit, more, digits⟩ : ∃ digit more, ascii (octal size 11) = digit :: more := by
    apply List.exists_cons_of_ne_nil
    have count := length_octal_le size 11
    rw [← List.length_pos_iff, ascii, List.length_map]
    omega
  have filled : digit ≠ 0 := by
    apply zero_not_mem_ascii (octal_digits size 11)
    rw [digits]
    exact List.mem_cons_self
  have octet : octetAt (front ++ (header ++ rest)) (front.length + (124 : Nat)) = some digit := by
    have first := congrArg (fun octets => octets[0]?) field
    simp only [slice, digits, List.getElem?_take, List.getElem?_drop] at first
    rw [octetAt, if_neg (by omega), ← Int.natCast_add, Int.toNat_natCast,
      List.getElem?_append_right (by omega), Nat.add_sub_cancel_left,
      List.getElem?_append_left (by omega)]
    simpa using first
  have some_ : isZeroBlock (front ++ (header ++ rest)) front.length = false := by
    rw [isZeroBlock, List.all_eq_false]
    refine ⟨124, List.mem_range.mpr (by decide), ?_⟩
    simp only [octet, Option.some.injEq, filled, decide_false]
    decide
  rw [hasHeader, some_]
  refine (Bool.and_true _).trans (decide_eq_true ?_)
  simp only [blockSize]
  omega

end Header

/-- At the header of an entry the loop reads the entry, and comes to what follows it. -/
theorem turn_chunk {entry : ArchiveEntry} {chunk : List UInt8} (storable : Storable entry)
    (written : chunksOf entry = .ok chunk) (front rest : List UInt8) :
    hasHeader (front ++ (chunk ++ rest)) front.length = true ∧
      turn (front ++ (chunk ++ rest)) front.length = (entry, some ↑(front ++ chunk).length) := by
  obtain ⟨header, whole, same, name, field⟩ := chunksOf_ok storable
  cases written.symm.trans same
  have padding := padTo512_nonneg entry.data.length
  rw [List.append_assoc (header ++ entry.data), List.append_assoc header]
  generalize tail : List.replicate (padTo512 entry.data.length).toNat (0 : UInt8) ++ rest = more
  refine ⟨hasHeader_read whole field, ?_⟩
  have data : subarray (front ++ (header ++ (entry.data ++ more))) ↑(front.length + 512)
      ↑(front.length + 512 + entry.data.length) = entry.data := by
    have own := slice_append_right header (entry.data ++ more) 0 entry.data.length
    rw [whole, Nat.add_zero] at own
    rw [subarray_eq_slice, Nat.add_assoc, slice_append_right, own,
      slice_append_left _ _ (Nat.le_refl _)]
    · simp [slice]
    · simp only [List.length_append]
      omega
  rw [turn, name_read storable whole name, sizeAt_read whole field]
  simp only [blockSize]
  rw [show (front.length + (512 : Nat) : Int) = ↑(front.length + 512) from rfl,
    ← Int.natCast_add, data]
  simp only [Prod.mk.injEq, Option.some.injEq, true_and, List.length_append,
    List.length_replicate]
  omega

theorem hasHeader_end (front : List UInt8) :
    hasHeader (front ++ List.replicate (blockSize * 2) 0) front.length = false := by
  have zero : isZeroBlock (front ++ List.replicate (blockSize * 2) 0) front.length = true := by
    refine List.all_eq_true.mpr fun index inside => decide_eq_true ?_
    have small : index < blockSize * 2 := by
      have below := List.mem_range.mp inside
      omega
    rw [octetAt, if_neg (by omega), ← Int.natCast_add, Int.toNat_natCast,
      List.getElem?_append_right (by omega), Nat.add_sub_cancel_left,
      List.getElem?_replicate, if_pos small]
  rw [hasHeader, zero]
  exact Bool.and_false _

theorem createTar_nil : createTar [] = .ok (List.replicate (blockSize * 2) 0) := rfl

theorem createTar_cons {entry : ArchiveEntry} {entries : List ArchiveEntry}
    {chunk archive : List UInt8} (first : chunksOf entry = .ok chunk)
    (others : createTar entries = .ok archive) :
    createTar (entry :: entries) = .ok (chunk ++ archive) := by
  unfold createTar at others ⊢
  rw [List.mapM_cons, first]
  cases written : entries.mapM chunksOf with
  | error reason =>
    rw [written] at others
    cases others
  | ok chunks =>
    rw [written] at others
    cases others
    simp [bind, Except.bind, pure, Except.pure]

/-- The loop reads the entries of an archive wherever in the buffer it begins. -/
theorem readTarFrom_createTar {entries : List ArchiveEntry}
    (storable : ∀ entry ∈ entries, Storable entry) :
    ∃ archive, createTar entries = .ok archive ∧ ∀ front : List UInt8,
      readTarFrom (front ++ archive) (entries.length + 1) front.length = some entries := by
  induction entries with
  | nil =>
    refine ⟨_, createTar_nil, ?_⟩
    intro front
    rw [readTarFrom, hasHeader_end]
    rfl
  | cons entry entries ih =>
    obtain ⟨archive, others, read⟩ := ih fun other member =>
      storable other (List.mem_cons_of_mem _ member)
    obtain ⟨header, -, first, -⟩ := chunksOf_ok (storable entry List.mem_cons_self)
    refine ⟨_, createTar_cons first others, ?_⟩
    intro front
    obtain ⟨found, turned⟩ := turn_chunk (storable entry List.mem_cons_self) first front archive
    have next := read (front ++ (header ++ entry.data ++
      List.replicate (padTo512 entry.data.length).toNat 0))
    rw [List.append_assoc] at next
    rw [List.length_cons, readTarFrom, found, turned]
    simp only [if_true, next, Option.map_some]

theorem readTar_createTar {entries : List ArchiveEntry}
    (storable : ∀ entry ∈ entries, Storable entry) :
    ∃ archive turns, createTar entries = .ok archive ∧ readTar turns archive = some entries := by
  obtain ⟨archive, written, read⟩ := readTarFrom_createTar storable
  exact ⟨archive, entries.length + 1, written, read []⟩

/-- Data that looks like the end of an archive. -/
def zeros : ArchiveEntry := ⟨"blobs/é", List.replicate 1024 0⟩

/-- An entry without data, that one, and one whose data ends inside a third block. -/
def several : List ArchiveEntry :=
  [⟨"data.json", []⟩, zeros, ⟨"manifest.json", List.replicate 1300 65⟩]

theorem readTar_createTar_several :
    ∃ archive turns, createTar several = .ok archive ∧ readTar turns archive = some several := by
  refine readTar_createTar fun entry member => ?_
  simp only [several, List.mem_cons, List.not_mem_nil, or_false] at member
  rcases member with rfl | rfl | rfl
  · exact ⟨by decide, by decide, by decide⟩
  · refine ⟨by decide, by decide, ?_⟩
    rw [zeros, List.length_replicate]
    decide
  · refine ⟨by decide, by decide, ?_⟩
    rw [List.length_replicate]
    decide

end BoothOperator.Tar
