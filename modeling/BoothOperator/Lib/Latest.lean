import Mathlib.Data.List.Basic
import Mathlib.Data.List.Induction

/-! The last entry of a kind in a log, and registers written from the entries of
a kind. A register that takes every write, `none` included, and one that keeps
its value when it is offered `none` hold the same when no `none` follows a
value; then the log may be cut anywhere. -/
namespace BoothOperator.Latest

variable {α β : Type*} {kind : α → Bool} {value : α → Option β}

/-- The last entry of a kind. -/
def last (kind : α → Bool) (log : List α) : Option α := (log.filter kind).getLast?

theorem last_append (kind : α → Bool) (first second : List α) :
    last kind (first ++ second) = (last kind second).or (last kind first) := by
  simp [last, List.getLast?_append]

theorem last_snoc (kind : α → Bool) (log : List α) (entry : α) :
    last kind (log ++ [entry]) = if kind entry then some entry else last kind log := by
  rw [last_append]
  by_cases own : kind entry = true
  · simp [last, own]
  · simp [last, own]

theorem last_eq_none {log : List α} : last kind log = none ↔ ∀ entry ∈ log, kind entry = false := by
  simp [last]

theorem last_mem {log : List α} {entry : α} (found : last kind log = some entry) :
    entry ∈ log ∧ kind entry = true :=
  List.mem_filter.mp (List.mem_of_getLast? found)

/-- No entry of the kind without a value follows one with a value. -/
def Settled (kind : α → Bool) (value : α → Option β) (log : List α) : Prop :=
  (log.filter kind).Pairwise fun earlier later => (value earlier).isSome → (value later).isSome

instance (log : List α) : Decidable (Settled kind value log) :=
  inferInstanceAs (Decidable (List.Pairwise _ _))

theorem Settled.left {first second : List α} (settled : Settled kind value (first ++ second)) :
    Settled kind value first := by
  rw [Settled, List.filter_append, List.pairwise_append] at settled
  exact settled.1

/-- Once an entry has a value, every later one of the kind has. -/
theorem Settled.across {first second : List α} (settled : Settled kind value (first ++ second))
    {earlier later : α} (before : earlier ∈ first) (after : later ∈ second)
    (one : kind earlier = true) (other : kind later = true) (some : (value earlier).isSome) :
    (value later).isSome := by
  rw [Settled, List.filter_append, List.pairwise_append] at settled
  exact settled.2.2 earlier (List.mem_filter.mpr ⟨before, one⟩) later
    (List.mem_filter.mpr ⟨after, other⟩) some

/-- The last entry has a value when any has. -/
theorem Settled.last {log : List α} (settled : Settled kind value log) {entry final : α}
    (member : entry ∈ log) (own : kind entry = true) (some : (value entry).isSome)
    (found : last kind log = .some final) : (value final).isSome := by
  induction log using List.reverseRecOn with
  | nil => cases member
  | append_singleton log latest ih =>
    rw [last_snoc] at found
    by_cases latestOwn : kind latest = true
    · rw [if_pos latestOwn] at found
      cases found
      rcases List.mem_append.mp member with before | here
      · exact settled.across before List.mem_cons_self own latestOwn some
      · rw [List.mem_singleton] at here
        exact here ▸ some
    · rw [if_neg latestOwn] at found
      rcases List.mem_append.mp member with before | here
      · exact ih settled.left before found
      · rw [List.mem_singleton] at here
        exact absurd (here ▸ own) latestOwn

/-- One more entry keeps the log settled when it does not drop the last value. -/
theorem settled_snoc {log : List α} {entry : α} (settled : Settled kind value log)
    (kept : kind entry = true → ∀ final, last kind log = some final → (value final).isSome →
      (value entry).isSome) : Settled kind value (log ++ [entry]) := by
  rw [Settled, List.filter_append, List.pairwise_append]
  refine ⟨settled, ?_, ?_⟩
  · by_cases own : kind entry = true
    · simp [own]
    · simp [own]
  · intro earlier before later after some
    obtain ⟨member, own⟩ := List.mem_filter.mp before
    obtain ⟨here, latest⟩ := List.mem_filter.mp after
    rw [List.mem_singleton] at here
    subst here
    cases found : last kind log with
    | none =>
      rw [last_eq_none.mp found earlier member] at own
      cases own
    | some final => exact kept latest final found (settled.last member own some found)

/-- A register that keeps its value on `none`, written piece by piece with the
last value of each piece, holds the last value of the whole log. -/
theorem register_step {first second : List α} {old : Option β}
    (kept : ∀ later earlier, last kind second = some later → last kind first = some earlier →
      value later = none → value earlier = none) :
    (((last kind second).map value).join <|> ((last kind first).bind value <|> old)) =
      ((last kind (first ++ second)).bind value <|> old) := by
  rw [last_append]
  cases later : last kind second with
  | none => simp
  | some entry =>
    cases written : value entry with
    | some new => simp [written]
    | none =>
      cases earlier : last kind first with
      | none => simp [written]
      | some previous => simp [written, kept entry previous later earlier written]

end BoothOperator.Latest
