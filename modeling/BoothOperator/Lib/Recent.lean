import Mathlib.Data.List.Dedup
import Mathlib.Data.List.DropRight
import BoothOperator.Lib.Latest

/-! A bounded history with one entry for each key. A new entry goes last and
takes the place of the one with its key, and the oldest entries over the bound
are forgotten: what is left are the last distinct keys of the log, each with its
last entry. -/
namespace BoothOperator.Recent

variable {α κ : Type*} [DecidableEq κ] {key : α → κ} {limit : Nat}

/-- Put an entry last, forget the one it replaces, and keep the last ones. -/
def remember (key : α → κ) (limit : Nat) (entry : α) (history : List α) : List α :=
  (history.filter (fun other => key other ≠ key entry) ++ [entry]).rtake limit

/-- The last entry of every key, in the order of the log. -/
def lasts (key : α → κ) (log : List α) : List α :=
  log.pwFilter fun earlier later => key earlier ≠ key later

def recent (key : α → κ) (limit : Nat) (log : List α) : List α := (lasts key log).rtake limit

theorem lasts_snoc (log : List α) (entry : α) :
    lasts key (log ++ [entry]) =
      (lasts key log).filter (fun other => key other ≠ key entry) ++ [entry] := by
  induction log with
  | nil => rfl
  | cons head rest ih =>
    unfold lasts at ih ⊢
    rw [List.cons_append]
    by_cases apart : ∀ later ∈ List.pwFilter (fun earlier later => key earlier ≠ key later) rest,
        key head ≠ key later
    · by_cases same : key head = key entry
      · rw [List.pwFilter_cons_of_pos apart, List.pwFilter_cons_of_neg, ih]
        · simp [same]
        · rw [ih]
          simp [same]
      · rw [List.pwFilter_cons_of_pos apart, List.pwFilter_cons_of_pos, ih]
        · simp [same]
        · rw [ih]
          intro later member
          rcases List.mem_append.mp member with old | new
          · exact apart later (List.mem_filter.mp old).1
          · rw [List.mem_singleton] at new
            exact new ▸ same
    · rw [List.pwFilter_cons_of_neg apart, List.pwFilter_cons_of_neg, ih]
      intro apart'
      refine apart fun later member => ?_
      have other := apart' entry (ih ▸ List.mem_append_right _ List.mem_cons_self)
      by_cases same : key later = key entry
      · exact same ▸ other
      · refine apart' later ?_
        rw [ih]
        exact List.mem_append_left _ (List.mem_filter.mpr ⟨member, decide_eq_true same⟩)

theorem distinct_lasts (log : List α) : ((lasts key log).map key).Nodup :=
  List.pairwise_map.mpr (List.pairwise_pwFilter log)

theorem lasts_sublist (log : List α) : (lasts key log).Sublist log := List.pwFilter_sublist log

theorem keys_lasts (log : List α) : (lasts key log).map key = (log.map key).dedup := by
  rw [List.dedup, List.pwFilter_map]
  rfl

/-- What is kept of a key is its last entry. -/
theorem last_of_mem_lasts {log : List α} {entry : α} (member : entry ∈ lasts key log) :
    Latest.last (fun other => key other = key entry) log = some entry := by
  induction log using List.reverseRecOn with
  | nil => cases member
  | append_singleton log latest ih =>
    rw [Latest.last_snoc]
    rw [lasts_snoc, List.mem_append, List.mem_singleton] at member
    rcases member with old | rfl
    · obtain ⟨there, other⟩ := List.mem_filter.mp old
      have apart : ¬ key latest = key entry := fun same => of_decide_eq_true other same.symm
      rw [if_neg (by simpa using apart)]
      exact ih there
    · rw [if_pos (decide_eq_true rfl)]

/-- Only one entry has a key. -/
theorem length_le_filter {entries : List α} (distinct : (entries.map key).Nodup) (wanted : κ) :
    entries.length ≤ (entries.filter fun other => key other ≠ wanted).length + 1 := by
  induction entries with
  | nil => exact Nat.zero_le _
  | cons head rest ih =>
    rw [List.map_cons, List.nodup_cons] at distinct
    obtain ⟨fresh, distinct⟩ := distinct
    by_cases own : key head = wanted
    · have others : rest.filter (fun other => key other ≠ wanted) = rest := by
        refine List.filter_eq_self.mpr fun other member => decide_eq_true ?_
        rintro same
        exact fresh (List.mem_map.mpr ⟨other, member, same.trans own.symm⟩)
      rw [List.filter_cons_of_neg (by simpa using own), others, List.length_cons]
    · rw [List.filter_cons_of_pos (by simpa using own), List.length_cons, List.length_cons]
      exact Nat.succ_le_succ (ih distinct)

/-- Of a list and an entry after it, a long enough suffix and the entry keep the same. -/
theorem rtake_snoc_suffix {entries suffix : List α} (entry : α) (tail : suffix <:+ entries)
    (long : limit ≤ suffix.length + 1) :
    (suffix ++ [entry]).rtake limit = (entries ++ [entry]).rtake limit := by
  obtain ⟨front, rfl⟩ := tail
  have skipped : (front ++ (suffix ++ [entry])).length - limit =
      front.length + ((suffix ++ [entry]).length - limit) := by
    rw [List.length_append, List.length_append, List.length_singleton]
    omega
  rw [List.rtake, List.rtake, List.append_assoc, skipped, List.drop_length_add_append]

/-- Remembering one more entry keeps the history the recent part of the log. -/
theorem remember_recent (log : List α) (entry : α) :
    remember key limit entry (recent key limit log) = recent key limit (log ++ [entry]) := by
  unfold remember recent
  rw [lasts_snoc]
  rcases Nat.lt_or_ge (lasts key log).length limit with short | long
  · have whole : (lasts key log).rtake limit = lasts key log := by
      rw [List.rtake, Nat.sub_eq_zero_of_le short.le, List.drop_zero]
    rw [whole]
  · refine rtake_snoc_suffix entry (List.IsSuffix.filter _ (List.drop_suffix _ _)) ?_
    have kept : ((lasts key log).rtake limit).length = limit := by
      rw [List.rtake, List.length_drop, Nat.sub_sub_self long]
    have distinct : (((lasts key log).rtake limit).map key).Nodup :=
      (distinct_lasts log).sublist ((List.drop_sublist _ _).map key)
    exact kept.symm.le.trans (length_le_filter distinct (key entry))

theorem recent_nil : recent key limit [] = [] := by
  simp [recent, lasts]

theorem distinct_recent (log : List α) : ((recent key limit log).map key).Nodup :=
  (distinct_lasts log).sublist ((List.drop_sublist _ _).map key)

theorem length_recent_le (log : List α) : (recent key limit log).length ≤ limit := by
  rw [recent, List.rtake, List.length_drop]
  exact Nat.sub_le_iff_le_add.mpr (by omega)

theorem recent_sublist (log : List α) : (recent key limit log).Sublist log :=
  (List.drop_sublist _ _).trans (lasts_sublist log)

/-- The keys of the history are the last distinct keys of the log. -/
theorem keys_recent (log : List α) :
    (recent key limit log).map key = (log.map key).dedup.rtake limit := by
  rw [recent, List.rtake, List.rtake, ← keys_lasts, List.map_drop, List.length_map]

theorem last_of_mem_recent {log : List α} {entry : α} (member : entry ∈ recent key limit log) :
    Latest.last (fun other => key other = key entry) log = some entry :=
  last_of_mem_lasts ((List.drop_sublist _ _).subset member)

end BoothOperator.Recent
