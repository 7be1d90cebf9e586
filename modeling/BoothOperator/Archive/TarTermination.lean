import BoothOperator.Archive.Tar

/-! How far the reader of an archive goes in a turn. A size that is not negative moves it
past its header; a negative one may leave it where it is, or take it back. -/
namespace BoothOperator.Tar

open BoothOperator.Octets

/-- The offsets that the loop comes to. -/
inductive Reached (archive : List UInt8) : Int → Prop where
  | start : Reached archive 0
  | next {offset size : Int} (here : Reached archive offset) (header : hasHeader archive offset)
      (sized : sizeAt archive offset = some size) :
      Reached archive (offset + blockSize + size + padTo512 size)

/-- A size from which the next header is further on: of the negative ones, those down to
-1023 but for -512. -/
def Advancing (size : Int) : Prop := -1024 < size ∧ size ≠ -512

/-- Every header on the way has such a size, or none that is a number. -/
def Steady (archive : List UInt8) : Prop :=
  ∀ offset size, Reached archive offset → hasHeader archive offset →
    sizeAt archive offset = some size → Advancing size

/-- Every turn ends the loop or moves it on by a block, and the loop ends with no more entries
than there are blocks. -/
structure Terminates (archive : List UInt8) : Prop where
  advances : ∀ {offset next entry}, Reached archive offset → hasHeader archive offset →
    turn archive offset = (entry, some next) → offset + blockSize ≤ next
  finishes : ∃ turns entries, readTar turns archive = some entries ∧
    entries.length ≤ archive.length / blockSize

theorem advancing_iff (size : Int) : Advancing size ↔ 0 ≤ size + padTo512 size := by
  obtain ⟨n, rfl | rfl⟩ := Int.eq_nat_or_neg size
  · have padding := padTo512_nonneg n
    rw [Advancing]
    omega
  · have remainder : (-n : Int).tmod blockSize = -↑(n % 512) := by
      rw [Int.neg_tmod]
      exact congrArg _ (Int.ofNat_tmod n 512).symm
    simp only [Advancing, padTo512, remainder]
    simp only [blockSize]
    split <;> omega

theorem turn_next {archive : List UInt8} {offset next : Int} {entry : ArchiveEntry}
    (turned : turn archive offset = (entry, some next)) :
    ∃ size, sizeAt archive offset = some size ∧
      next = offset + blockSize + size + padTo512 size := by
  rw [turn] at turned
  cases sized : sizeAt archive offset with
  | none =>
    rw [sized] at turned
    cases turned
  | some size =>
    rw [sized] at turned
    cases turned
    exact ⟨size, rfl, rfl⟩

theorem turn_sized {archive : List UInt8} {offset size : Int}
    (sized : sizeAt archive offset = some size) :
    ∃ entry, turn archive offset = (entry, some (offset + blockSize + size + padTo512 size)) := by
  rw [turn, sized]
  exact ⟨_, rfl⟩

section Steady

variable {archive : List UInt8} (steady : Steady archive)
include steady

theorem next_of_steady {offset next : Int} {entry : ArchiveEntry} (here : Reached archive offset)
    (header : hasHeader archive offset) (turned : turn archive offset = (entry, some next)) :
    offset + blockSize ≤ next ∧ Reached archive next := by
  obtain ⟨size, sized, rfl⟩ := turn_next turned
  have further := (advancing_iff size).mp (steady offset size here header sized)
  refine ⟨?_, here.next header sized⟩
  omega

/-- From an offset on there are no more entries than blocks. -/
theorem readTarFrom_ends (left : Nat) {offset : Int} (here : Reached archive offset)
    (positive : 0 ≤ offset) (measure : archive.length - offset.toNat ≤ left) :
    ∃ turns entries, readTarFrom archive turns offset = some entries ∧
      entries.length * blockSize ≤ archive.length - offset.toNat := by
  induction left using Nat.strongRecOn generalizing offset with
  | ind left ih =>
    cases header : hasHeader archive offset with
    | false =>
      refine ⟨1, [], ?_, Nat.zero_le _⟩
      rw [readTarFrom, header]
      rfl
    | true =>
      have inside : offset + blockSize ≤ archive.length :=
        of_decide_eq_true (Bool.and_eq_true_iff.mp header).1
      simp only [blockSize] at inside
      rcases turned : turn archive offset with ⟨entry, next⟩
      cases next with
      | none =>
        refine ⟨1, [entry], ?_, ?_⟩
        · rw [readTarFrom, header, turned]
          rfl
        · simp only [blockSize, List.length_singleton]
          omega
      | some next =>
        obtain ⟨further, there⟩ := next_of_steady steady here header turned
        simp only [blockSize] at further
        obtain ⟨turns, entries, read, count⟩ := ih (archive.length - next.toNat) (by omega) there
          (by omega) (Nat.le_refl _)
        refine ⟨turns + 1, entry :: entries, ?_, ?_⟩
        · rw [readTarFrom, header, turned]
          simp only [if_true, read, Option.map_some]
        · rw [List.length_cons, Nat.succ_mul]
          simp only [blockSize] at count ⊢
          generalize entries.length * 512 = octets at count ⊢
          omega

end Steady

theorem terminates_iff_steady (archive : List UInt8) : Terminates archive ↔ Steady archive := by
  constructor
  · intro terminates offset size here header sized
    obtain ⟨entry, turned⟩ := turn_sized sized
    have further := terminates.advances here header turned
    exact (advancing_iff size).mpr (by omega)
  · intro steady
    refine ⟨fun here header turned => (next_of_steady steady here header turned).1, ?_⟩
    obtain ⟨turns, entries, read, count⟩ :=
      readTarFrom_ends steady archive.length .start (Int.le_refl 0) (Nat.sub_le _ _)
    exact ⟨turns, entries, read, (Nat.le_div_iff_mul_le (by decide)).mpr count⟩

/-! ## A size that leads back to its own header -/

/-- A header for `a` whose size field says `-1000`, which is -512. -/
def standing : List UInt8 :=
  write (write (List.replicate blockSize 0) (ascii ['a']) 0) (ascii ['-', '1', '0', '0', '0']) 124

theorem hasHeader_standing : hasHeader standing 0 = true := by decide +kernel

theorem turn_standing : (turn standing 0).2 = some 0 := by decide +kernel

theorem readTar_standing : ¬∃ turns entries, readTar turns standing = some entries := by
  rintro ⟨turns, entries, read⟩
  have never (turns : Nat) : readTarFrom standing turns 0 = none := by
    induction turns with
    | zero => rfl
    | succ turns ih =>
      rcases turned : turn standing 0 with ⟨entry, next⟩
      have same := turn_standing
      rw [turned] at same
      cases same
      rw [readTarFrom, hasHeader_standing, turned]
      simp only [if_true, ih, Option.map_none]
  rw [readTar, never] at read
  cases read

end BoothOperator.Tar
