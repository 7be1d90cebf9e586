import BoothOperator.Reports.DateRanges

/-! The dates of a range of instants, and its division into local days. A date has an instant
among the samples: its day begins or ends with the range or at a transition, or it is whole and
under one offset. -/
namespace BoothOperator.Reports

open BoothOperator.IsoTime (dateOf daysOf)
open BoothOperator.Ranges

section Samples

variable {timeZone : TimeZone} {start stop : Int}

theorem samplesFrom_bounds {timestamp x : Int} (member : x ∈ samplesFrom stop timestamp) :
    timestamp ≤ x ∧ x ≤ stop := by
  fun_induction samplesFrom stop timestamp with
  | case1 timestamp open_ ih =>
    rcases List.mem_cons.mp member with rfl | later
    · exact ⟨Int.le_refl _, open_⟩
    · have bounds := ih later
      simp only [utcDateSampleStepMs] at bounds
      omega
  | case2 timestamp closed => cases member

theorem mem_samplesFrom {timestamp : Int} (count : Nat)
    (within : timestamp + count * utcDateSampleStepMs ≤ stop) :
    timestamp + count * utcDateSampleStepMs ∈ samplesFrom stop timestamp := by
  induction count generalizing timestamp with
  | zero =>
    rw [samplesFrom, if_pos (by simpa using within)]
    simp
  | succ count ih =>
    have next : timestamp + (count + 1 : Nat) * utcDateSampleStepMs =
        timestamp + utcDateSampleStepMs + count * utcDateSampleStepMs := by
      rw [Int.natCast_add, Int.add_mul]
      omega
    rw [next] at within ⊢
    rw [samplesFrom, if_pos]
    · exact List.mem_cons_of_mem _ (ih within)
    · simp only [utcDateSampleStepMs] at within ⊢
      omega

/-- The instants whose keys `dateKeysInUtcRange` collects. -/
def sampled (start stop : Int) (timeZone : TimeZone) : List Int :=
  samplesFrom stop start ++ stop ::
    (offsetsAndTransitions start stop timeZone).transitions.flatMap (besideTransition start stop)

theorem mem_besideTransition {transition x : Int} : x ∈ besideTransition start stop transition ↔
    (start < transition ∧ x = transition - 1) ∨ (transition ≤ stop ∧ x = transition) := by
  unfold besideTransition
  split <;> split <;> simp_all

/-- A transition of the range gives two samples. -/
theorem sampled_beside (one : OnePerStep timeZone start) (modern : ModernFrom timeZone start stop)
    (ordered : start ≤ stop) {second : Int} (jumps : Transition timeZone second)
    (past : start < second * 1000) (until_ : second * 1000 ≤ stop) :
    second * 1000 - 1 ∈ sampled start stop timeZone ∧
      second * 1000 ∈ sampled start stop timeZone := by
  have found := ((offsetsAndTransitions_scanned one modern ordered).1 _).mpr
    ⟨second, jumps, past, until_, rfl⟩
  constructor
  · refine List.mem_append_right _ (List.mem_cons_of_mem _ (List.mem_flatMap.mpr ⟨_, found, ?_⟩))
    exact mem_besideTransition.mpr (.inl ⟨past, rfl⟩)
  · refine List.mem_append_right _ (List.mem_cons_of_mem _ (List.mem_flatMap.mpr ⟨_, found, ?_⟩))
    exact mem_besideTransition.mpr (.inr ⟨until_, rfl⟩)

theorem sampled_bounds (one : OnePerStep timeZone start) (modern : ModernFrom timeZone start stop)
    (ordered : start ≤ stop) {x : Int} (member : x ∈ sampled start stop timeZone) :
    start ≤ x ∧ x ≤ stop := by
  rcases List.mem_append.mp member with sample | other
  · exact samplesFrom_bounds sample
  · rcases List.mem_cons.mp other with rfl | other
    · exact ⟨ordered, Int.le_refl _⟩
    · obtain ⟨transition, found, beside⟩ := List.mem_flatMap.mp other
      obtain ⟨second, -, past, until_, rfl⟩ :=
        ((offsetsAndTransitions_scanned one modern ordered).1 _).mp found
      rcases mem_besideTransition.mp beside with ⟨-, rfl⟩ | ⟨-, rfl⟩ <;> omega

/-- Every day of the range has a sample. -/
theorem sampled_day (one : OnePerStep timeZone start) (modern : ModernFrom timeZone start stop)
    {t : Int} (low : start ≤ t) (high : t ≤ stop) :
    ∃ x ∈ sampled start stop timeZone, localDay x timeZone = localDay t timeZone := by
  have ordered : start ≤ stop := by omega
  generalize own : timeZone.offset (t / 1000) = offset
  generalize day : localDay t timeZone = days
  obtain ⟨begun, unended⟩ := (localDay_iff own).mp day
  -- the day under the offset of the instant
  generalize first : days * 86400000 - offset * 1000 = midnight at begun
  have same (x : Int) (here : timeZone.offset (x / 1000) = offset) (after : midnight ≤ x)
      (before : x < midnight + 86400000) : localDay x timeZone = days :=
    (localDay_iff here).mpr (by omega)
  have whole : midnight / 1000 * 1000 = midnight := by omega
  rcases Jumps.back_to_jump (f := timeZone.offset)
      (by omega : max (start / 1000) (midnight / 1000) ≤ t / 1000) with
    constant | ⟨second, after, before, jumps, constant⟩
  · rcases Int.le_total midnight start with early | late
    · -- it goes back to the start of the range
      refine ⟨start, ?_, same start ?_ early (by omega)⟩
      · have member := @mem_samplesFrom stop start 0 (by simpa using ordered)
        exact List.mem_append_left _ (by simpa using member)
      · rw [← own]
        exact constant _ (by omega) (by omega)
    · rcases Jumps.on_to_jump (f := timeZone.offset)
          (by omega : t / 1000 ≤ min (stop / 1000) ((midnight + 86400000) / 1000 - 1)) with
        on | ⟨second, past, until_, jumps, on⟩
      · rcases le_or_gt (midnight + 86400000) stop with inside | outside
        · -- it is whole, and longer than the distance of two samples
          have ahead : 0 ≤ (midnight - start + 21599999) / 21600000 := by omega
          obtain ⟨count, steps⟩ := Int.eq_ofNat_of_zero_le ahead
          have sample : midnight ≤ start + count * utcDateSampleStepMs ∧
              start + count * utcDateSampleStepMs < midnight + 21600000 := by
            simp only [utcDateSampleStepMs]
            omega
          refine ⟨start + count * utcDateSampleStepMs, List.mem_append_left _
            (mem_samplesFrom count (by omega)), same _ ?_ (by omega) (by omega)⟩
          rcases Int.le_total (t / 1000) ((start + count * utcDateSampleStepMs) / 1000) with
            behind | before
          · rw [on _ behind (by omega), own]
          · rw [constant _ (by omega) before, own]
        · -- it goes on to the end of the range
          refine ⟨stop, List.mem_append_right _ List.mem_cons_self, same stop ?_ (by omega) outside⟩
          rw [on _ (by omega) (by omega), own]
      · -- it goes on to a transition
        refine ⟨second * 1000 - 1, (sampled_beside one modern ordered jumps (by omega)
          (by omega)).1, same _ ?_ (by omega) (by omega)⟩
        rw [on _ (by omega) (by omega), own]
  · -- it goes back to a transition
    refine ⟨second * 1000, (sampled_beside one modern ordered jumps (by omega) (by omega)).2,
      same _ ?_ (by omega) (by omega)⟩
    rw [constant _ (by omega) (by omega), own]

/-- The dates of all instants of the range have four digits in their year. -/
def FourDigitDates (timeZone : TimeZone) (start stop : Int) : Prop :=
  ∀ instant, start ≤ instant → instant ≤ stop → FourDigit (dateOf (localDay instant timeZone))

theorem FourDigitDates.modern (years : FourDigitDates timeZone start stop) (ordered : start ≤ stop) :
    ModernFrom timeZone start stop := by
  intro second low high
  have year := (years (max start (second * 1000)) (by omega) (by omega)).1
  have own : max start (second * 1000) / 1000 = second := by omega
  rw [localDay, shownAt, own] at year
  exact lt_of_lt_of_le (by decide) year

/-- The keys of a range. -/
theorem dateKeys_exact (one : OnePerStep timeZone start) (ordered : start ≤ stop)
    (years : FourDigitDates timeZone start stop) :
    ∃ dates, dateKeysInUtcRange start stop timeZone = some dates ∧ dates.Nodup ∧
      ∀ key, key ∈ dates ↔ ∃ instant, start ≤ instant ∧ instant ≤ stop ∧
        dateKeyInTimeZone instant timeZone = key := by
  have modern := years.modern ordered
  rw [dateKeysInUtcRange, if_neg (by omega)]
  refine ⟨_, rfl, ?_, fun key => ?_⟩
  · exact (List.perm_insertionSort _ _).nodup_iff.mpr (nodup_foldl_add _ List.nodup_nil)
  · rw [(List.perm_insertionSort _ _).mem_iff, mem_foldl_add, List.mem_map]
    constructor
    · rintro (⟨⟨⟩⟩ | ⟨x, member, same⟩)
      obtain ⟨low, high⟩ := sampled_bounds one modern ordered member
      exact ⟨x, low, high, same⟩
    · rintro ⟨instant, low, high, rfl⟩
      obtain ⟨x, member, day⟩ := sampled_day one modern low high
      refine .inr ⟨x, member, ?_⟩
      rw [dateKeyInTimeZone_eq, dateKeyInTimeZone_eq, day]

end Samples

/-! ## Local days -/

def LocalDayRange.Has (day : LocalDayRange) (instant : Int) : Prop :=
  day.start ≤ instant ∧ instant ≤ day.stop

/-- Every instant from the start to the stop is in one of the days and in no other, and the
days have no other instants; an instant's day carries its date. -/
structure Partitions (timeZone : TimeZone) (start stop : Int) (days : List LocalDayRange) : Prop where
  filled : ∀ day ∈ days, start ≤ day.start ∧ day.start ≤ day.stop ∧ day.stop ≤ stop
  disjoint : days.Pairwise fun one other => ∀ instant, one.Has instant → ¬other.Has instant
  covers : ∀ instant, start ≤ instant → instant ≤ stop → ∃ day ∈ days, day.Has instant
  dated : ∀ day ∈ days, ∀ instant, day.Has instant →
    dateKeyInTimeZone instant timeZone = day.date

section Clip

variable {timeZone : TimeZone} {start stop : Int} {date : String}

theorem mem_clipRange {range : LocalDateRange} {day : LocalDayRange} :
    day ∈ clipRange start stop date range ↔ max start range.start ≤ min stop range.stop ∧
      day = { date, start := max start range.start, stop := min stop range.stop } := by
  simp only [clipRange]
  split <;> simp_all

/-- The days that a date has in the report. -/
theorem clipped {ranges : List LocalDateRange} (separated : Separated ranges)
    (inside : ∀ instant, Inside ranges instant ↔ dateKeyInTimeZone instant timeZone = date) :
    (∀ day ∈ ranges.flatMap (clipRange start stop date),
      (start ≤ day.start ∧ day.start ≤ day.stop ∧ day.stop ≤ stop) ∧ day.date = date ∧
        ∀ instant, day.Has instant → dateKeyInTimeZone instant timeZone = date) ∧
    (ranges.flatMap (clipRange start stop date)).Pairwise
      (fun one other => ∀ instant, one.Has instant → ¬other.Has instant) ∧
    ∀ instant, start ≤ instant → instant ≤ stop → dateKeyInTimeZone instant timeZone = date →
      ∃ day ∈ ranges.flatMap (clipRange start stop date), day.Has instant := by
  refine ⟨?_, ?_, ?_⟩
  · intro day member
    obtain ⟨range, there, clip⟩ := List.mem_flatMap.mp member
    obtain ⟨open_, rfl⟩ := mem_clipRange.mp clip
    refine ⟨⟨le_max_left _ _, open_, min_le_left _ _⟩, rfl, fun instant has => ?_⟩
    obtain ⟨low, high⟩ := has
    simp only at low high
    exact (inside instant).mp ⟨range, there, by omega, by omega⟩
  · rw [List.pairwise_flatMap]
    constructor
    · intro range _
      unfold clipRange
      simp only
      split
      · exact List.pairwise_singleton _ _
      · exact .nil
    · refine separated.gaps.imp ?_
      rintro one other gap day clip day' clip' instant ⟨low, high⟩ ⟨low', high'⟩
      obtain ⟨-, rfl⟩ := mem_clipRange.mp clip
      obtain ⟨-, rfl⟩ := mem_clipRange.mp clip'
      simp only at low high low' high'
      omega
  · intro instant low high key
    obtain ⟨range, there, first, last⟩ := (inside instant).mpr key
    refine ⟨_, List.mem_flatMap.mpr ⟨range, there, mem_clipRange.mpr ⟨by omega, rfl⟩⟩, ?_, ?_⟩
    · simp only
      omega
    · simp only
      omega

end Clip

theorem mapM_eq_some {α β : Type} {f : α → Option β} {g : α → β} {values : List α}
    (each : ∀ value ∈ values, f value = some (g value)) :
    values.mapM f = some (values.map g) := by
  induction values with
  | nil => rfl
  | cons value values ih =>
    have rest := ih fun other member => each other (List.mem_cons_of_mem _ member)
    simp [List.mapM_cons, each value List.mem_cons_self, rest]

/-- The division of a report into local days. -/
theorem buildLocalDayRanges_partitions {timeZone : TimeZone} {start stop : Int}
    (aligned : OnePerStep timeZone 0) (one : OnePerStep timeZone start) (ordered : start ≤ stop)
    (years : FourDigitDates timeZone start stop) :
    ∃ days, buildLocalDayRanges start stop timeZone = some days ∧
      Partitions timeZone start stop days := by
  obtain ⟨dates, found, distinct, keys⟩ := dateKeys_exact one ordered years
  have exact_ (date : String) (member : date ∈ dates) : ∃ ranges,
      rangesForDateInTimeZone date timeZone = some ranges ∧ Separated ranges ∧
        ∀ instant, Inside ranges instant ↔ dateKeyInTimeZone instant timeZone = date := by
    obtain ⟨instant, low, high, rfl⟩ := (keys date).mp member
    have year := years instant low high
    exact rangesForDate_exact aligned (parseLocalDate_dateKey year) year.1
  let rangesOf (date : String) : List LocalDateRange :=
    (rangesForDateInTimeZone date timeZone).getD []
  have ranges (date : String) (member : date ∈ dates) :
      rangesForDateInTimeZone date timeZone = some (rangesOf date) ∧ Separated (rangesOf date) ∧
        ∀ instant, Inside (rangesOf date) instant ↔
          dateKeyInTimeZone instant timeZone = date := by
    obtain ⟨ranges, read, rest⟩ := exact_ date member
    have same : rangesOf date = ranges := by simp only [rangesOf, read, Option.getD_some]
    exact same.symm ▸ ⟨read, rest⟩
  have built : buildLocalDayRanges start stop timeZone =
      some (dates.flatMap fun date => (rangesOf date).flatMap (clipRange start stop date)) := by
    have all := @mapM_eq_some _ _ (fun date => (rangesForDateInTimeZone date timeZone).bind
        fun ranges => some (ranges.flatMap (clipRange start stop date)))
      (fun date => (rangesOf date).flatMap (clipRange start stop date)) dates
      (fun date member => by rw [(ranges date member).1, Option.bind_some])
    rw [buildLocalDayRanges, if_neg (by omega), found]
    exact Option.bind_eq_some_iff.mpr ⟨_, rfl, Option.bind_eq_some_iff.mpr ⟨_, all, rfl⟩⟩
  refine ⟨_, built, ?_, ?_, ?_, ?_⟩
  · intro day member
    obtain ⟨date, there, own⟩ := List.mem_flatMap.mp member
    obtain ⟨-, separated, inside⟩ := ranges date there
    exact ((clipped separated inside).1 day own).1
  · rw [List.pairwise_flatMap]
    constructor
    · intro date there
      obtain ⟨-, separated, inside⟩ := ranges date there
      exact (clipped separated inside).2.1
    · refine distinct.imp_of_mem ?_
      intro date other there there' apart day own day' own' instant has has'
      obtain ⟨-, separated, inside⟩ := ranges date there
      obtain ⟨-, separated', inside'⟩ := ranges other there'
      have key := ((clipped separated inside).1 day own).2.2 instant has
      have key' := ((clipped separated' inside').1 day' own').2.2 instant has'
      exact apart (key.symm.trans key')
  · intro instant low high
    have there := (keys _).mpr ⟨instant, low, high, rfl⟩
    obtain ⟨-, separated, inside⟩ := ranges _ there
    obtain ⟨day, own, has⟩ := (clipped separated inside).2.2 instant low high rfl
    exact ⟨day, List.mem_flatMap.mpr ⟨_, there, own⟩, has⟩
  · intro day member instant has
    obtain ⟨date, there, own⟩ := List.mem_flatMap.mp member
    obtain ⟨-, separated, inside⟩ := ranges date there
    obtain ⟨-, dated, keyed⟩ := (clipped separated inside).1 day own
    rw [dated]
    exact keyed instant has

/-- Local days are exact, where no step of a scan goes over two transitions: those of a date's
scan begin at the half hours, and those of a range's at its start. -/
theorem local_days_exact (timeZone : TimeZone) (aligned : OnePerStep timeZone 0) :
    (∀ localDate date, parseLocalDate localDate = some date → 1000 ≤ date.year →
      ∃ ranges, rangesForDateInTimeZone localDate timeZone = some ranges ∧ Separated ranges ∧
        ∀ instant, Inside ranges instant ↔ dateKeyInTimeZone instant timeZone = localDate) ∧
    ∀ start stop, start ≤ stop → OnePerStep timeZone start →
      FourDigitDates timeZone start stop →
      (∃ dates, dateKeysInUtcRange start stop timeZone = some dates ∧ dates.Nodup ∧
        ∀ key, key ∈ dates ↔ ∃ instant, start ≤ instant ∧ instant ≤ stop ∧
          dateKeyInTimeZone instant timeZone = key) ∧
      ∃ days, buildLocalDayRanges start stop timeZone = some days ∧
        Partitions timeZone start stop days :=
  ⟨fun _ _ parsed year => rangesForDate_exact aligned parsed year,
    fun _ _ ordered one years => ⟨dateKeys_exact one ordered years,
      buildLocalDayRanges_partitions aligned one ordered years⟩⟩

/-- At 23:00 of the first day the clock goes forward to midnight. -/
def midnightZone : TimeZone where
  offset second := if second < 82800 then 0 else 3600
  bounded second := by split <;> decide

theorem midnightZone_onePerStep (origin : Int) : OnePerStep midnightZone origin := by
  have only (second : Int) (jumps : Transition midnightZone second) : second = 82800 := by
    by_contra other
    refine jumps ?_
    simp only [midnightZone]
    split <;> split <;> omega
  intro step second other jumps jumps' _ _
  rw [only second jumps, only other jumps']

theorem local_days_exact_midnight :
    (∃ ranges, rangesForDateInTimeZone "1970-01-01" midnightZone = some ranges ∧
      Separated ranges ∧ ∀ instant, Inside ranges instant ↔
        dateKeyInTimeZone instant midnightZone = "1970-01-01") ∧
    ∃ days, buildLocalDayRanges 82000000 83000000 midnightZone = some days ∧
      Partitions midnightZone 82000000 83000000 days := by
  obtain ⟨dates, reports⟩ := local_days_exact midnightZone (midnightZone_onePerStep 0)
  have years : FourDigitDates midnightZone 82000000 83000000 := by
    intro instant low high
    have day : localDay instant midnightZone = 0 ∨ localDay instant midnightZone = 1 := by
      simp only [localDay, shownAt, midnightZone]
      split <;> omega
    rcases day with day | day <;> rw [day] <;> exact ⟨by decide, by decide⟩
  have text : dateKey (dateOf 0) = "1970-01-01" := by decide +kernel
  have parsed := @parseLocalDate_dateKey 0 ⟨by decide, by decide⟩
  rw [text] at parsed
  exact ⟨dates _ _ parsed (by decide),
    (reports _ _ (by decide) (midnightZone_onePerStep _) years).2⟩

end BoothOperator.Reports
