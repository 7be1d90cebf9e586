import BoothOperator.Lib.Jumps
import BoothOperator.Reports.LocalDates

/-! The scan for transitions finds each of them, where no step of it has two, and the offset of
every second that it goes over. -/
namespace BoothOperator.Reports

open BoothOperator.Jumps (Jump)

/-- The second is the first with an offset other than before. -/
def Transition (timeZone : TimeZone) (second : Int) : Prop := Jump timeZone.offset second

/-- A step of the scan from an origin ends with the second or after it. -/
def InStep (origin step second : Int) : Prop :=
  origin + step * timeZoneScanStepMs < second * 1000 ∧
    second * 1000 ≤ origin + (step + 1) * timeZoneScanStepMs

def OnePerStep (timeZone : TimeZone) (origin : Int) : Prop :=
  ∀ step second other, Transition timeZone second → Transition timeZone other →
    InStep origin step second → InStep origin step other → second = other

theorem mem_add {α : Type} [DecidableEq α] {set : List α} {value other : α} :
    other ∈ add set value ↔ other ∈ set ∨ other = value := by
  unfold add
  split
  · rename_i known
    exact ⟨.inl, fun either => either.elim id fun same => same ▸ known⟩
  · simp

theorem nodup_add {α : Type} [DecidableEq α] {set : List α} (distinct : set.Nodup) (value : α) :
    (add set value).Nodup := by
  unfold add
  split
  · exact distinct
  · rename_i fresh
    rw [← List.concat_eq_append]
    exact distinct.concat fresh

theorem mem_foldl_add {α : Type} [DecidableEq α] {values set : List α} {other : α} :
    other ∈ values.foldl add set ↔ other ∈ set ∨ other ∈ values := by
  induction values generalizing set with
  | nil => simp
  | cons value values ih => rw [List.foldl_cons, ih, mem_add, List.mem_cons, or_assoc]

theorem nodup_foldl_add {α : Type} [DecidableEq α] (values : List α) {set : List α}
    (distinct : set.Nodup) : (values.foldl add set).Nodup := by
  induction values generalizing set with
  | nil => exact distinct
  | cons value values ih => exact ih (nodup_add distinct value)

section Scan

variable {timeZone : TimeZone}

/-- The search ends at the second from which on the offset is another. -/
theorem findTransition_eq {previousOffset lowerSecond upperSecond second : Int}
    (low : lowerSecond ≤ second) (high : second ≤ upperSecond)
    (told : ∀ m, lowerSecond ≤ m → m < upperSecond →
      (offsetAt (m * 1000) timeZone = previousOffset ↔ m < second)) :
    findTransition timeZone previousOffset lowerSecond upperSecond = second := by
  fun_induction findTransition timeZone previousOffset lowerSecond upperSecond with
  | case1 lowerSecond upperSecond open_ midpoint same ih =>
    have before := (told midpoint (by omega) (by omega)).mp same
    exact ih (by omega) high fun m past below => told m (by omega) below
  | case2 lowerSecond upperSecond open_ midpoint other ih =>
    have after := mt (told midpoint (by omega) (by omega)).mpr other
    exact ih low (by omega) fun m past below => told m past (by omega)
  | case3 lowerSecond upperSecond closed => omega

/-- The seconds that a step goes over have one offset, or one transition among them. -/
theorem step_cases {origin step previousTime currentTime : Int}
    (one : OnePerStep timeZone origin) (start : previousTime = origin + step * timeZoneScanStepMs)
    (ordered : previousTime ≤ currentTime)
    (short : currentTime ≤ previousTime + timeZoneScanStepMs) :
    (∀ m, previousTime / 1000 ≤ m → m ≤ currentTime / 1000 →
      timeZone.offset m = timeZone.offset (previousTime / 1000)) ∨
    ∃ second, previousTime / 1000 < second ∧ second ≤ currentTime / 1000 ∧
      Transition timeZone second ∧ ∀ other, previousTime / 1000 < other →
        other ≤ currentTime / 1000 → Transition timeZone other → other = second := by
  have floors : previousTime / 1000 ≤ currentTime / 1000 := by omega
  rcases Jumps.on_to_jump (f := timeZone.offset) floors with constant |
    ⟨second, after, within, jumps, -⟩
  · exact .inl constant
  · refine .inr ⟨second, after, within, jumps, fun other past until_ another => ?_⟩
    have next : origin + (step + 1) * timeZoneScanStepMs = previousTime + timeZoneScanStepMs := by
      rw [start, Int.add_mul, Int.one_mul, Int.add_assoc]
    have inside (m : Int) (past : previousTime / 1000 < m) (until_ : m ≤ currentTime / 1000) :
        InStep origin step m := by
      refine ⟨?_, ?_⟩
      · rw [← start]
        omega
      · rw [next]
        omega
    exact one step other second another jumps (inside other past until_)
      (inside second after within)

/-- The seconds from one time to another, on which `Date.UTC` is exact. -/
def ModernFrom (timeZone : TimeZone) (start stop : Int) : Prop :=
  ∀ second, start / 1000 ≤ second → second ≤ stop / 1000 → Modern second timeZone

/-- What the scan has to find from a time on. -/
structure Scanned (timeZone : TimeZone) (stop previousTime : Int)
    (found result : OffsetsAndTransitions) : Prop where
  transitions : ∀ instant, instant ∈ result.transitions ↔ instant ∈ found.transitions ∨
    ∃ second, Transition timeZone second ∧ previousTime < second * 1000 ∧
      second * 1000 ≤ stop ∧ instant = second * 1000
  kept : ∀ offset ∈ found.offsets, offset ∈ result.offsets
  offsets : ∀ second, previousTime / 1000 ≤ second → second ≤ stop / 1000 →
    timeZone.offset second * 1000 ∈ result.offsets

theorem offsetAt_of_modern {start stop second : Int} (modern : ModernFrom timeZone start stop)
    (low : start / 1000 ≤ second) (high : second ≤ stop / 1000) :
    offsetAt (second * 1000) timeZone = timeZone.offset second * 1000 := by
  have whole : second * 1000 / 1000 = second := by omega
  have own : Modern (second * 1000 / 1000) timeZone := whole.symm ▸ modern second low high
  rw [offsetAt_eq own, whole]

/-- A step finds the transition that it goes over. -/
theorem step_found {origin step previousTime currentTime previousOffset : Int}
    (one : OnePerStep timeZone origin) (start : previousTime = origin + step * timeZoneScanStepMs)
    (ordered : previousTime ≤ currentTime)
    (short : currentTime ≤ previousTime + timeZoneScanStepMs)
    (modern : ModernFrom timeZone previousTime currentTime)
    (own : previousOffset = timeZone.offset (previousTime / 1000) * 1000)
    (transitions : List Int) :
    (∀ instant, instant ∈
      (if offsetAt currentTime timeZone ≠ previousOffset then transitions ++
        [findTransition timeZone previousOffset (previousTime / 1000) (-(-currentTime / 1000)) * 1000]
      else transitions) ↔ instant ∈ transitions ∨ ∃ second, Transition timeZone second ∧
        previousTime < second * 1000 ∧ second * 1000 ≤ currentTime ∧ instant = second * 1000) ∧
    ∀ second, previousTime / 1000 ≤ second → second ≤ currentTime / 1000 →
      timeZone.offset second * 1000 = previousOffset ∨
        timeZone.offset second * 1000 = offsetAt currentTime timeZone := by
  have floors : previousTime / 1000 ≤ currentTime / 1000 := by omega
  have current : offsetAt currentTime timeZone = timeZone.offset (currentTime / 1000) * 1000 := by
    rw [offsetAt_second, offsetAt_of_modern modern floors (Int.le_refl _)]
  rw [current]
  rcases step_cases one start ordered short with constant | ⟨second, after, within, jumps, only⟩
  · have same := constant (currentTime / 1000) floors (Int.le_refl _)
    rw [if_neg (by rw [own, same]; exact not_not.mpr rfl)]
    refine ⟨fun instant => ⟨.inl, ?_⟩, fun second low high => .inl ?_⟩
    · rintro (member | ⟨second, jumps, after, before, -⟩)
      · exact member
      · have here := constant second (by omega) (by omega)
        have prior := constant (second - 1) (by omega) (by omega)
        exact absurd (here.trans prior.symm) jumps
    · rw [own, constant second low high]
  · have values (m : Int) (low : previousTime / 1000 ≤ m) (high : m ≤ currentTime / 1000) :=
      Jumps.values_of_one_jump after within jumps only low high
    have changed : timeZone.offset (currentTime / 1000) * 1000 ≠ previousOffset := by
      have other := (values _ floors (Int.le_refl _)).2.2
      omega
    have search : findTransition timeZone previousOffset (previousTime / 1000)
        (-(-currentTime / 1000)) = second := by
      refine findTransition_eq (by omega) (by omega) fun m low below => ?_
      have high : m ≤ currentTime / 1000 := by omega
      rw [offsetAt_of_modern modern low high, own]
      obtain ⟨before, later, other⟩ := values m low high
      constructor
      · intro same
        by_contra past
        have here := later (by omega)
        omega
      · intro past
        rw [before past]
    rw [if_pos changed, search]
    refine ⟨fun instant => ?_, fun m low high => ?_⟩
    · rw [List.mem_append, List.mem_singleton]
      refine or_congr_right ⟨?_, ?_⟩
      · rintro rfl
        exact ⟨second, jumps, by omega, by omega, rfl⟩
      · rintro ⟨other, another, past, until_, rfl⟩
        rw [only other (by omega) (by omega) another]
    · obtain ⟨before, later, -⟩ := values m low high
      rcases lt_or_ge m second with past | reached
      · exact .inl (by rw [own, before past])
      · exact .inr (by rw [later reached])

theorem scanFrom_scanned {stop previousTime previousOffset origin : Int}
    {found : OffsetsAndTransitions} (one : OnePerStep timeZone origin)
    (modern : ModernFrom timeZone previousTime stop) (ordered : previousTime ≤ stop)
    (start : stop ≤ previousTime ∨ ∃ step, previousTime = origin + step * timeZoneScanStepMs)
    (own : previousOffset = timeZone.offset (previousTime / 1000) * 1000)
    (known : previousOffset ∈ found.offsets) :
    Scanned timeZone stop previousTime found
      (scanFrom timeZone stop previousTime previousOffset found) := by
  fun_induction scanFrom timeZone stop previousTime previousOffset found with
  | case1 previousTime previousOffset found open_ currentTime currentOffset lowerSecond upperSecond
      transitions ih =>
    obtain ⟨step, start⟩ := start.resolve_left (by omega)
    have forward : previousTime ≤ currentTime := by
      simp only [currentTime, timeZoneScanStepMs]
      omega
    have short : currentTime ≤ previousTime + timeZoneScanStepMs := min_le_left _ _
    have until_ : currentTime ≤ stop := min_le_right _ _
    have until_stop : ModernFrom timeZone previousTime currentTime :=
      fun second low high => modern second low (by omega)
    have floors : previousTime / 1000 ≤ currentTime / 1000 := by omega
    have current : currentOffset = timeZone.offset (currentTime / 1000) * 1000 := by
      simp only [currentOffset]
      rw [offsetAt_second, offsetAt_of_modern until_stop floors (Int.le_refl _)]
    obtain ⟨within, values⟩ :=
      step_found one start forward short until_stop own found.transitions
    have next : stop ≤ currentTime ∨ ∃ step, currentTime = origin + step * timeZoneScanStepMs := by
      rcases min_choice (previousTime + timeZoneScanStepMs) stop with whole | last
      · refine .inr ⟨step + 1, ?_⟩
        rw [Int.add_mul, Int.one_mul, ← Int.add_assoc, ← start]
        exact whole
      · exact .inl (by simp only [currentTime]; omega)
    obtain ⟨later, kept, offsets⟩ := ih
      (fun second low high => modern second (by omega) high) until_ next current
      (mem_add.mpr (.inr rfl))
    refine ⟨fun instant => ?_, fun offset member => kept offset (mem_add.mpr (.inl member)), ?_⟩
    · rw [later]
      have own_step := within instant
      constructor
      · rintro (member | ⟨second, jumps, past, before, same⟩)
        · rcases own_step.mp member with member | ⟨second, jumps, past, before, same⟩
          · exact .inl member
          · exact .inr ⟨second, jumps, past, by omega, same⟩
        · exact .inr ⟨second, jumps, by omega, before, same⟩
      · rintro (member | ⟨second, jumps, past, before, same⟩)
        · exact .inl (own_step.mpr (.inl member))
        · rcases lt_or_ge currentTime (second * 1000) with beyond | inside
          · exact .inr ⟨second, jumps, beyond, before, same⟩
          · exact .inl (own_step.mpr (.inr ⟨second, jumps, past, inside, same⟩))
    · intro second low high
      rcases le_or_gt (currentTime / 1000) second with beyond | inside
      · exact offsets second beyond high
      · rcases values second low (by omega) with same | same
        · rw [same]
          exact kept _ (mem_add.mpr (.inl known))
        · rw [same]
          exact kept _ (mem_add.mpr (.inr rfl))
  | case2 previousTime previousOffset found closed => 
    have last : previousTime = stop := by omega
    subst last
    refine ⟨fun instant => ⟨.inl, ?_⟩, fun _ member => member, fun second low high => ?_⟩
    · rintro (member | ⟨second, -, after, before, -⟩)
      · exact member
      · omega
    · rw [show second = previousTime / 1000 by omega, ← own]
      exact known

/-- The scan of a range. -/
theorem offsetsAndTransitions_scanned {start stop : Int} (one : OnePerStep timeZone start)
    (modern : ModernFrom timeZone start stop) (ordered : start ≤ stop) :
    (∀ instant, instant ∈ (offsetsAndTransitions start stop timeZone).transitions ↔
      ∃ second, Transition timeZone second ∧ start < second * 1000 ∧ second * 1000 ≤ stop ∧
        instant = second * 1000) ∧
    ∀ second, start / 1000 ≤ second → second ≤ stop / 1000 →
      timeZone.offset second * 1000 ∈ (offsetsAndTransitions start stop timeZone).offsets := by
  have own : offsetAt start timeZone = timeZone.offset (start / 1000) * 1000 := by
    rw [offsetAt_second, offsetAt_of_modern modern (Int.le_refl _) (by omega)]
  let first : OffsetsAndTransitions := { offsets := [offsetAt start timeZone], transitions := [] }
  have known : offsetAt start timeZone ∈ first.offsets := List.mem_singleton_self _
  have scanned := scanFrom_scanned one modern ordered
    (.inr ⟨0, by rw [Int.zero_mul, Int.add_zero]⟩) own known
  refine ⟨fun instant => ?_, scanned.offsets⟩
  rw [offsetsAndTransitions, scanned.transitions]
  simp [first]

end Scan

end BoothOperator.Reports
