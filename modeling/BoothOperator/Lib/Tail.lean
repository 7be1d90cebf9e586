import Mathlib.Data.List.DropRight
import Mathlib.Data.List.Sort
import Mathlib.Order.Lattice

/-! The last entries of a list in the order of a time. When the entries wanted
are later than all others they are the last ones, whatever the order among equal
times; when another is as late as one of them, some order has it last. -/
namespace BoothOperator.Tail

variable {α τ : Type*} [LinearOrder τ] {time : α → τ}

/-- Later entries come last, and those of one time in the order of their rank. -/
def Before (time : α → τ) (rank : α → Nat) (one other : α) : Prop :=
  time one < time other ∨ (time one = time other ∧ rank one ≤ rank other)

instance (rank : α → Nat) : DecidableRel (Before time rank) :=
  fun _ _ => inferInstanceAs (Decidable (_ ∨ _))

instance (rank : α → Nat) : Std.Total (Before time rank) where
  total one other := by
    rcases lt_trichotomy (time one) (time other) with earlier | same | later
    · exact .inl (.inl earlier)
    · rcases Nat.le_total (rank one) (rank other) with first | second
      · exact .inl (.inr ⟨same, first⟩)
      · exact .inr (.inr ⟨same.symm, second⟩)
    · exact .inr (.inl later)

instance (rank : α → Nat) : IsTrans α (Before time rank) where
  trans one other third := by
    rintro (earlier | ⟨same, low⟩) (later | ⟨same', high⟩)
    · exact .inl (earlier.trans later)
    · exact .inl (same' ▸ earlier)
    · exact .inl (same ▸ later)
    · exact .inr ⟨same.trans same', low.trans high⟩

/-- The entries in the order of their time. -/
def inOrder (time : α → τ) (rank : α → Nat) (entries : List α) : List α :=
  entries.insertionSort (Before time rank)

theorem inOrder_perm (rank : α → Nat) (entries : List α) :
    (inOrder time rank entries).Perm entries :=
  List.perm_insertionSort _ _

theorem inOrder_sorted (rank : α → Nat) (entries : List α) :
    (inOrder time rank entries).Pairwise (Before time rank) :=
  List.pairwise_insertionSort _ _

/-- In order of time, the entries from some time on are the last ones. -/
theorem rtake_filter {wanted : α → Bool} {entries : List α}
    (sorted : entries.Pairwise fun one other => time one ≤ time other)
    (upward : ∀ one other, wanted one → time one ≤ time other → wanted other) :
    entries.rtake (entries.filter wanted).length = entries.filter wanted := by
  induction entries with
  | nil => rfl
  | cons head rest ih =>
    obtain ⟨first, sorted⟩ := List.pairwise_cons.mp sorted
    by_cases chosen : wanted head = true
    · have whole : (head :: rest).filter wanted = head :: rest := by
        refine List.filter_eq_self.mpr fun other member => ?_
        rcases List.mem_cons.mp member with rfl | later
        · exact chosen
        · exact upward head other chosen (first other later)
      rw [whole, List.rtake, Nat.sub_self, List.drop_zero]
    · rw [List.filter_cons_of_neg chosen]
      have short := List.length_filter_le wanted rest
      have skipped : (head :: rest).length - (rest.filter wanted).length =
          (rest.length - (rest.filter wanted).length) + 1 := by
        rw [List.length_cons]
        omega
      rw [List.rtake, skipped, List.drop_succ_cons]
      exact ih sorted

/-- Entries of one time that are later than all others are the last ones. -/
theorem rtake_inOrder {entries own others : List α} {moment : τ} (rank : α → Nat)
    (parts : entries.Perm (others ++ own)) (at_ : ∀ entry ∈ own, time entry = moment)
    (earlier : ∀ other ∈ others, time other < moment) :
    ((inOrder time rank entries).rtake own.length).Perm own := by
  have chosen : (inOrder time rank entries).filter (fun entry => moment ≤ time entry) |>.Perm own := by
    refine (((inOrder_perm rank entries).trans parts).filter _).trans ?_
    rw [List.filter_append]
    have none_ : others.filter (fun entry => decide (moment ≤ time entry)) = [] := by
      refine List.filter_eq_nil_iff.mpr fun other member late => ?_
      exact (earlier other member).not_ge (of_decide_eq_true late)
    have all_ : own.filter (fun entry => decide (moment ≤ time entry)) = own := by
      refine List.filter_eq_self.mpr fun entry member => ?_
      exact decide_eq_true (at_ entry member).ge
    rw [none_, all_, List.nil_append]
  have sorted : (inOrder time rank entries).Pairwise fun one other => time one ≤ time other := by
    refine (inOrder_sorted rank entries).imp fun before => ?_
    rcases before with earlier | ⟨same, _⟩
    · exact earlier.le
    · exact same.le
  rw [← chosen.length_eq]
  rw [rtake_filter sorted]
  · exact chosen
  · intro one other late later
    exact decide_eq_true ((of_decide_eq_true late).trans later)

/-- The last entry in order is before no other. -/
theorem inOrder_last {entries front : List α} {rank : α → Nat} {last : α}
    (ends : inOrder time rank entries = front ++ [last]) :
    ∀ entry ∈ entries, entry ≠ last → Before time rank entry last := by
  intro entry member other
  have sorted : (inOrder time rank entries).Pairwise (Before time rank) :=
    inOrder_sorted rank entries
  rw [ends] at sorted
  have there : entry ∈ front ++ [last] := ends ▸ (inOrder_perm rank entries).mem_iff.mpr member
  rcases List.mem_append.mp there with before | same
  · exact (List.pairwise_append.mp sorted).2.2 entry before last List.mem_cons_self
  · exact absurd (List.mem_singleton.mp same) other

/-- When an entry is as late as the wanted ones, some order of equal times has
one that is not wanted among the last. -/
theorem rtake_inOrder_foreign {entries own : List α} {foreign : α} {moment : τ}
    (some_ : own ≠ []) (at_ : ∀ entry ∈ own, time entry = moment) (member : foreign ∈ entries)
    (other : foreign ∉ own) (late : moment ≤ time foreign) :
    ∃ rank, ¬ ((inOrder time rank entries).rtake own.length).Perm own := by
  classical
  let rank : α → Nat := fun entry => if entry ∈ own then 0 else 1
  refine ⟨rank, fun same => ?_⟩
  have there : foreign ∈ inOrder time rank entries :=
    (inOrder_perm rank entries).mem_iff.mpr member
  rcases List.eq_nil_or_concat' (inOrder time rank entries) with empty | ⟨front, last, ends⟩
  · rw [empty] at there
    exact List.not_mem_nil there
  have latest : last ∉ own := by
    intro mine
    have apart : foreign ≠ last := fun same => other (same ▸ mine)
    rcases inOrder_last ends foreign member apart with earlier | ⟨_, low⟩
    · rw [at_ last mine] at earlier
      exact earlier.not_ge late
    · simp [rank, mine, other] at low
  obtain ⟨count, long⟩ : ∃ count, own.length = count + 1 :=
    Nat.exists_eq_succ_of_ne_zero (mt List.length_eq_zero_iff.mp some_)
  refine latest (same.mem_iff.mp ?_)
  rw [ends, long, List.rtake_concat_succ]
  exact List.mem_append_right _ List.mem_cons_self

end BoothOperator.Tail
