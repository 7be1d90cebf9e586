import Mathlib.Data.Prod.Lex
import BoothOperator.Console.StatusHistory
import BoothOperator.Lib.Greatest

/-! The status on display. Between frames with ids, `isNewerThan` compares the times, then the
ids, then the counts: the ways it goes about it are one order. -/
namespace BoothOperator.Console

/-- What `isNewerThan` compares of a frame with an id. -/
def rank (status : BoothStatus) : Int ×ₗ Int ×ₗ Nat :=
  toLex (status.updatedAt.ms, toLex (status.id.getD 0, repeatCountOf status))

/-- Frames of one row that say the same time and count are the same. -/
def SameViews (frames : List BoothStatus) : Prop :=
  ∀ one ∈ frames, ∀ other ∈ frames, one.id = other.id →
    one.updatedAt.ms = other.updatedAt.ms → repeatCountOf one = repeatCountOf other → one = other

instance (frames : List BoothStatus) : Decidable (SameViews frames) :=
  inferInstanceAs (Decidable (∀ one ∈ frames, ∀ other ∈ frames, _ → _ → _ → _))

variable {status current : BoothStatus} {frames arrived : List BoothStatus}

theorem isNewerThan_iff (one : status.id.isSome) (other : current.id.isSome) :
    isNewerThan status (some current) = true ↔ rank current ≤ rank status := by
  obtain ⟨id, read⟩ := Option.isSome_iff_exists.mp one
  obtain ⟨shown, held⟩ := Option.isSome_iff_exists.mp other
  simp only [isNewerThan, rank, Prod.Lex.toLex_le_toLex, read, held, Option.isSome_some,
    Option.getD_some, true_and, Option.some.injEq, ne_eq]
  by_cases row : id = shown
  · subst row
    rw [if_pos rfl, Bool.not_eq_true', ← Bool.not_eq_true, isStaleFrame_iff]
    grind
  · rw [if_neg row]
    by_cases time : status.updatedAt.ms = current.updatedAt.ms
    · simp [time, lt_iff_le_and_ne, Ne.symm row]
    · have apart : current.updatedAt.ms ≠ status.updatedAt.ms := Ne.symm time
      simp [time, apart]

/-- Folding the frames keeps the one of the highest rank. -/
theorem foldl_currentAfter (identified : Identified frames) :
    frames.foldl currentAfter none = Greatest.greatest rank frames := by
  induction frames using List.reverseRecOn with
  | nil => rfl
  | append_singleton front last ih =>
    have before : Identified front := fun frame member =>
      identified frame (List.mem_append_left _ member)
    have here := identified last (List.mem_append_right _ List.mem_cons_self)
    rw [List.foldl_append, List.foldl_cons, List.foldl_nil, ih before, Greatest.greatest_snoc]
    cases held : Greatest.greatest rank front with
    | none => rfl
    | some current =>
      have there := before current (Greatest.greatest_max held).1
      simp only [currentAfter, Greatest.keep, isNewerThan_iff here there]

/-- **Whatever the order of arrival, the same frame is on display in the end.** -/
theorem current_order_independent (identified : Identified frames) (views : SameViews frames)
    (same : ∀ frame, frame ∈ arrived ↔ frame ∈ frames) :
    arrived.foldl currentAfter none = frames.foldl currentAfter none := by
  have arrivedIds : Identified arrived := fun frame member =>
    identified frame ((same frame).mp member)
  rw [foldl_currentAfter identified, foldl_currentAfter arrivedIds]
  refine Greatest.greatest_eq_of_mem_iff (fun one member other there equal => ?_) same
  obtain ⟨id, read⟩ := Option.isSome_iff_exists.mp (identified one member)
  obtain ⟨shown, held⟩ := Option.isSome_iff_exists.mp (identified other there)
  simp only [rank, read, held, Option.getD_some, EmbeddingLike.apply_eq_iff_eq,
    Prod.mk.injEq] at equal
  exact views one member other there (by rw [read, held, equal.2.1]) equal.1 equal.2.2

/-- A view of a row, at a time, that has counted so many reports. -/
def viewAt (id : Int) (text : String) (ms : Int) (count : Nat) : BoothStatus where
  id := some id
  state := .idle
  updatedAt := ⟨text, ms⟩
  repeatCount := some count

/-- Two views of one row and a view of another one, at one time, in either order: the later view of
the later row is on display. -/
theorem current_order_independent_three :
    [viewAt 5 "1970-01-01T00:00:00.020Z" 20 3, viewAt 5 "1970-01-01T00:00:00.020Z" 20 2,
        viewAt 4 "1970-01-01T00:00:00.020Z" 20 9].foldl currentAfter none =
      some (viewAt 5 "1970-01-01T00:00:00.020Z" 20 3) ∧
    [viewAt 5 "1970-01-01T00:00:00.020Z" 20 2, viewAt 4 "1970-01-01T00:00:00.020Z" 20 9,
        viewAt 5 "1970-01-01T00:00:00.020Z" 20 3].foldl currentAfter none =
      [viewAt 5 "1970-01-01T00:00:00.020Z" 20 3, viewAt 5 "1970-01-01T00:00:00.020Z" 20 2,
        viewAt 4 "1970-01-01T00:00:00.020Z" 20 9].foldl currentAfter none :=
  ⟨by decide, current_order_independent (by decide) (by decide) (by
    intro frame
    simp only [List.mem_cons, List.not_mem_nil, or_false]
    tauto)⟩

end BoothOperator.Console
