import BoothOperator.Reports.Scan

/-! The ranges of a date are the instants with its key: between two boundaries they all have the
key or none has. -/
namespace BoothOperator.Reports

open BoothOperator.IsoTime (Date dateOf daysOf)
open BoothOperator.Ranges

section Collect

variable {own : Int → Bool} {first : Int}

theorem collectRange_collected {ranges : List LocalDateRange} {start endExclusive : Int}
    (collected : Collected own first start ranges) (low : first ≤ start)
    (ordered : start < endExclusive)
    (steady : ∀ t, start ≤ t → t < endExclusive → own t = own start) :
    Collected own first endExclusive (collectRange own ranges start endExclusive) := by
  simp only [collectRange]
  rw [if_neg (by omega), steady _ (by omega) (by omega)]
  cases has : own start with
  | false =>
    rw [if_neg (by decide)]
    exact collected.skip ordered.le fun t past high => (steady t past high).trans has
  | true =>
    have throughout : ∀ t, start ≤ t → t < endExclusive → own t = true :=
      fun t past high => (steady t past high).trans has
    rw [if_pos rfl]
    cases last : ranges.getLast? with
    | none =>
      cases List.getLast?_eq_none_iff.mp last
      exact collected.push low ordered (by simp) throughout
    | some previous =>
      obtain ⟨front, rfl⟩ := List.getLast?_eq_some_iff.mp last
      simp only [List.dropLast_concat]
      split
      · rename_i adjacent
        exact collected.extend low ordered adjacent throughout
      · rename_i apart
        refine collected.push low ordered (fun range member => ?_) throughout
        have last_before := collected.before previous
          (List.mem_append_right _ (List.mem_singleton_self _))
        rcases List.mem_append.mp member with earlier | last
        · obtain ⟨-, filled, gaps⟩ := separated_snoc.mp collected.separated
          have gap := gaps range earlier
          omega
        · rw [List.mem_singleton.mp last]
          omega

/-- Neighbours in a sorted list have nothing between them. -/
theorem collectRanges_collected {cuts done rest : List Int} {start : Int}
    {ranges : List LocalDateRange} (sorted : cuts.Pairwise (· < ·))
    (steady : ∀ s ∈ cuts, ∀ e ∈ cuts, (∀ x ∈ cuts, x ≤ s ∨ e ≤ x) →
      ∀ t, s ≤ t → t < e → own t = own s)
    (split : cuts = done ++ start :: rest) (low : first ≤ start)
    (collected : Collected own first start ranges) :
    Collected own first ((start :: rest).getLast (List.cons_ne_nil _ _))
      (collectRanges own ranges (start :: rest)) := by
  induction rest generalizing done start ranges with
  | nil => exact collected
  | cons next rest ih =>
    rw [split] at sorted
    obtain ⟨-, later, before⟩ := List.pairwise_append.mp sorted
    obtain ⟨after, behind⟩ := List.pairwise_cons.mp later
    have ordered := after next List.mem_cons_self
    have between : ∀ x ∈ cuts, x ≤ start ∨ next ≤ x := by
      intro x member
      rw [split] at member
      rcases List.mem_append.mp member with earlier | member
      · exact .inl (before x earlier start List.mem_cons_self).le
      · rcases List.mem_cons.mp member with rfl | member
        · exact .inl (Int.le_refl _)
        · rcases List.mem_cons.mp member with rfl | member
          · exact .inr (Int.le_refl _)
          · exact .inr ((List.pairwise_cons.mp behind).1 x member).le
    have here : start ∈ cuts := split ▸ List.mem_append_right _ List.mem_cons_self
    have there : next ∈ cuts :=
      split ▸ List.mem_append_right _ (List.mem_cons_of_mem _ List.mem_cons_self)
    rw [collectRanges, List.getLast_cons (List.cons_ne_nil _ _)]
    refine @ih (done ++ [start]) next _ (by rw [split]; simp) (by omega) ?_
    exact collectRange_collected collected low ordered (steady start here next there between)

end Collect

/-! ## The calendar around a date -/

theorem modern_of_days {days : Int} (late : -500000 ≤ days) : 99 < (dateOf days).year := by
  obtain ⟨low, high⟩ := IsoTime.within_bounds days
  obtain ⟨first, -⟩ := IsoTime.yearOfEra_bounds low high
  simp only [dateOf, IsoTime.nextYear]
  split <;> omega

theorem daysOf_ge {date : Date} (calendar : OnCalendar date) (year : 1000 ≤ date.year) :
    -430000 ≤ daysOf date := by
  obtain ⟨⟨month, months⟩, day, -⟩ := calendar
  simp only [daysOf, IsoTime.dayOfEra, IsoTime.marchOf, IsoTime.nextYear]
  split <;> omega

/-- The keys of an instant, by its day. -/
theorem dateKeyInTimeZone_eq (instant : Int) (timeZone : TimeZone) :
    dateKeyInTimeZone instant timeZone = dateKey (dateOf (localDay instant timeZone)) := by
  simp only [dateKeyInTimeZone, partsFor, localDay]

theorem dateKey_iff {localDate : String} {date : Date}
    (parsed : parseLocalDate localDate = some date) (year : 1000 ≤ date.year) (instant : Int)
    (timeZone : TimeZone) :
    dateKeyInTimeZone instant timeZone = localDate ↔ localDay instant timeZone = daysOf date := by
  obtain ⟨years, real, rfl⟩ := parseLocalDate_eq_some parsed year
  have calendar : OnCalendar date := real ▸ onCalendar_dateOf _
  rw [dateKeyInTimeZone_eq]
  constructor
  · intro same
    rw [← dateKey_injective (onCalendar_dateOf _) calendar years same, IsoTime.daysOf_dateOf]
  · intro same
    rw [same, real]

section Boundaries

variable {timeZone : TimeZone}

/-- The day of an instant, where the offset is known. -/
theorem localDay_iff {instant offset days : Int}
    (own : timeZone.offset (instant / 1000) = offset) :
    localDay instant timeZone = days ↔
      days * 86400000 - offset * 1000 ≤ instant ∧ instant < (days + 1) * 86400000 - offset * 1000 := by
  rw [localDay, shownAt, own]
  omega

theorem onePerStep_shift (aligned : OnePerStep timeZone 0) (steps : Int) :
    OnePerStep timeZone (steps * timeZoneScanStepMs) := by
  intro step second other jumps jumps' inside inside'
  have shifted (m : Int) (within : InStep (steps * timeZoneScanStepMs) step m) :
      InStep 0 (steps + step) m := by
    simp only [InStep, timeZoneScanStepMs] at within ⊢
    omega
  exact aligned _ second other jumps jumps' (shifted _ inside) (shifted _ inside')

/-- Sorted, and without a repetition. -/
theorem sorted_insertionSort {values : List Int} (distinct : values.Nodup) :
    (values.insertionSort (· ≤ ·)).Pairwise (· < ·) := by
  have unique := (List.perm_insertionSort (· ≤ ·) values).nodup_iff.mpr distinct
  exact (List.pairwise_insertionSort (· ≤ ·) values).imp₂ (fun _ _ => lt_of_le_of_ne) unique

theorem getLast_of_max {cuts : List Int} {last : Int} (sorted : cuts.Pairwise (· < ·))
    (member : last ∈ cuts) (most : ∀ x ∈ cuts, x ≤ last) (some : cuts ≠ []) :
    cuts.getLast some = last := by
  have whole := List.dropLast_append_getLast some
  rw [← whole] at member
  rcases List.mem_append.mp member with earlier | own
  · rw [← whole] at sorted
    have below := (List.pairwise_append.mp sorted).2.2 last earlier _ (List.mem_singleton_self _)
    have above := most _ (List.getLast_mem some)
    omega
  · exact (List.mem_singleton.mp own).symm

theorem head_of_min {cuts : List Int} {first : Int} (sorted : cuts.Pairwise (· < ·))
    (member : first ∈ cuts) (least : ∀ x ∈ cuts, first ≤ x) : ∃ rest, cuts = first :: rest := by
  cases cuts with
  | nil => cases member
  | cons head rest =>
    rcases List.mem_cons.mp member with rfl | later
    · exact ⟨rest, rfl⟩
    · have above := (List.pairwise_cons.mp sorted).1 first later
      have below := least head List.mem_cons_self
      omega

/-- Cuts at both ends, at the transitions and at the midnights of every offset. -/
structure Cuts (timeZone : TimeZone) (days searchStart searchEnd : Int) (cuts : List Int) : Prop where
  sorted : cuts.Pairwise (· < ·)
  window : ∀ x ∈ cuts, searchStart ≤ x ∧ x ≤ searchEnd
  start : searchStart ∈ cuts
  stop : searchEnd ∈ cuts
  transitions : ∀ second, Transition timeZone second → searchStart < second * 1000 →
    second * 1000 ≤ searchEnd → second * 1000 ∈ cuts
  midnights : ∀ second, searchStart / 1000 ≤ second → second ≤ searchEnd / 1000 →
    days * 86400000 - timeZone.offset second * 1000 ∈ cuts ∧
      (days + 1) * 86400000 - timeZone.offset second * 1000 ∈ cuts

/-- Between two cuts the day begins or ends nowhere. -/
theorem Cuts.steady {days searchStart searchEnd : Int} {cuts : List Int}
    (made : Cuts timeZone days searchStart searchEnd cuts) {s e t : Int} (here : s ∈ cuts)
    (there : e ∈ cuts) (between : ∀ x ∈ cuts, x ≤ s ∨ e ≤ x) (low : s ≤ t) (high : t < e) :
    localDay t timeZone = days ↔ localDay s timeZone = days := by
  have start := (made.window s here).1
  have stop := (made.window e there).2
  have constant : timeZone.offset (t / 1000) = timeZone.offset (s / 1000) := by
    refine Jumps.constant_of_no_jump (by omega : s / 1000 ≤ t / 1000) ?_ _ (by omega)
      (Int.le_refl _)
    intro second past until_ jumps
    have cut := made.transitions second jumps (by omega) (by omega)
    have apart := between _ cut
    omega
  obtain ⟨first, last⟩ := made.midnights (s / 1000) (by omega) (by omega)
  have first := between _ first
  have last := between _ last
  rw [localDay_iff constant, localDay_iff rfl]
  omega

theorem mem_midnights {offsets boundaries : List Int} {target nextTarget x : Int} :
    x ∈ offsets.foldl (fun boundaries offset =>
      add (add boundaries (target - offset)) (nextTarget - offset)) boundaries ↔
    x ∈ boundaries ∨ ∃ offset ∈ offsets, x = target - offset ∨ x = nextTarget - offset := by
  induction offsets generalizing boundaries with
  | nil => simp
  | cons offset offsets ih =>
    rw [List.foldl_cons, ih, mem_add, mem_add, or_assoc, or_assoc]
    simp only [List.mem_cons, exists_eq_or_imp, or_assoc]

theorem nodup_midnights {offsets boundaries : List Int} {target nextTarget : Int}
    (distinct : boundaries.Nodup) :
    (offsets.foldl (fun boundaries offset =>
      add (add boundaries (target - offset)) (nextTarget - offset)) boundaries).Nodup := by
  induction offsets generalizing boundaries with
  | nil => exact distinct
  | cons offset offsets ih => exact ih (nodup_add (nodup_add distinct _) _)

theorem mem_sortedBoundaries {target nextTarget x : Int} :
    x ∈ sortedBoundaries timeZone target nextTarget ↔
      (target - timeZoneSearchWindowMs ≤ x ∧ x ≤ nextTarget + timeZoneSearchWindowMs) ∧
      ((x = target - timeZoneSearchWindowMs ∨ x = nextTarget + timeZoneSearchWindowMs ∨
        x ∈ (offsetsAndTransitions (target - timeZoneSearchWindowMs)
          (nextTarget + timeZoneSearchWindowMs) timeZone).transitions) ∨
        ∃ offset ∈ (offsetsAndTransitions (target - timeZoneSearchWindowMs)
          (nextTarget + timeZoneSearchWindowMs) timeZone).offsets,
          x = target - offset ∨ x = nextTarget - offset) := by
  simp only [sortedBoundaries]
  rw [(List.perm_insertionSort _ _).mem_iff, List.mem_filter, mem_midnights, mem_foldl_add,
    decide_eq_true_iff, and_comm]
  simp

theorem cuts_made {days : Int} (aligned : OnePerStep timeZone 0) (late : -430000 ≤ days) :
    Cuts timeZone days (days * 86400000 - timeZoneSearchWindowMs)
      ((days + 1) * 86400000 + timeZoneSearchWindowMs)
      (sortedBoundaries timeZone (days * 86400000) ((days + 1) * 86400000)) := by
  have grid : days * 86400000 - timeZoneSearchWindowMs = (days * 48 - 96) * timeZoneScanStepMs := by
    simp only [timeZoneSearchWindowMs, timeZoneScanStepMs]
    omega
  have window : timeZoneSearchWindowMs = 172800000 := rfl
  have modern : ModernFrom timeZone (days * 86400000 - timeZoneSearchWindowMs)
      ((days + 1) * 86400000 + timeZoneSearchWindowMs) := by
    intro second low high
    refine modern_of_days ?_
    have bounded := timeZone.bounded second
    omega
  obtain ⟨transitions, offsets⟩ := offsetsAndTransitions_scanned
    (grid ▸ onePerStep_shift aligned _) modern (by omega)
  refine ⟨?_, fun x there => (mem_sortedBoundaries.mp there).1, ?_, ?_, ?_, ?_⟩
  · exact sorted_insertionSort ((nodup_midnights (nodup_foldl_add _ List.nodup_nil)).filter _)
  · exact mem_sortedBoundaries.mpr ⟨by omega, .inl (.inl rfl)⟩
  · exact mem_sortedBoundaries.mpr ⟨by omega, .inl (.inr (.inl rfl))⟩
  · intro second jumps past until_
    exact mem_sortedBoundaries.mpr ⟨⟨past.le, until_⟩,
      .inl (.inr (.inr ((transitions _).mpr ⟨second, jumps, past, until_, rfl⟩)))⟩
  · intro second low high
    have bounded := timeZone.bounded second
    have known := offsets second low high
    exact ⟨mem_sortedBoundaries.mpr ⟨by omega, .inr ⟨_, known, .inl rfl⟩⟩,
      mem_sortedBoundaries.mpr ⟨by omega, .inr ⟨_, known, .inr rfl⟩⟩⟩

/-- The ranges of a date. -/
theorem rangesForDate_exact {localDate : String} {date : Date} (aligned : OnePerStep timeZone 0)
    (parsed : parseLocalDate localDate = some date) (year : 1000 ≤ date.year) :
    ∃ ranges, rangesForDateInTimeZone localDate timeZone = some ranges ∧ Separated ranges ∧
      ∀ instant, Inside ranges instant ↔ dateKeyInTimeZone instant timeZone = localDate := by
  obtain ⟨years, real, -⟩ := parseLocalDate_eq_some parsed year
  have calendar : OnCalendar date := real ▸ onCalendar_dateOf _
  have made := @cuts_made timeZone (daysOf date) aligned (daysOf_ge calendar year)
  have target : dateUTC date.year (date.month - 1) date.day 0 0 0 = daysOf date * 86400000 := by
    rw [dateUTC_eq (by omega) calendar.month.1 calendar.month.2]
    omega
  have nextTarget : dateUTC date.year (date.month - 1) (date.day + 1) 0 0 0 =
      (daysOf date + 1) * 86400000 := by
    rw [dateUTC_eq (by omega) calendar.month.1 calendar.month.2]
    omega
  simp only [rangesForDateInTimeZone, parsed, Option.map_some, target, nextTarget,
    Option.some.injEq, exists_eq_left']
  generalize sortedBoundaries timeZone (daysOf date * 86400000) ((daysOf date + 1) * 86400000) =
    cuts at made ⊢
  generalize hstart : daysOf date * 86400000 - timeZoneSearchWindowMs = searchStart at made
  generalize hstop : (daysOf date + 1) * 86400000 + timeZoneSearchWindowMs = searchEnd at made
  obtain ⟨rest, rfl⟩ := head_of_min made.sorted made.start fun x member => (made.window x member).1
  have last := getLast_of_max made.sorted made.stop (fun x member => (made.window x member).2)
    (List.cons_ne_nil _ _)
  let own (instant : Int) : Bool := dateKeyInTimeZone instant timeZone = localDate
  have steady : ∀ s ∈ searchStart :: rest, ∀ e ∈ searchStart :: rest,
      (∀ x ∈ searchStart :: rest, x ≤ s ∨ e ≤ x) → ∀ t, s ≤ t → t < e → own t = own s := by
    intro s here e there between t low high
    simp only [own, dateKey_iff parsed year, made.steady here there between low high]
  have collected := collectRanges_collected made.sorted steady (List.nil_append _).symm
    (Int.le_refl _) collected_nil
  rw [last] at collected
  refine ⟨collected.separated, fun instant => ?_⟩
  rw [collected.inside, decide_eq_true_iff]
  refine ⟨fun ⟨_, _, has⟩ => has, fun has => ⟨?_, ?_, has⟩⟩
  all_goals
    have day := (localDay_iff rfl).mp ((dateKey_iff parsed year instant timeZone).mp has)
    have bounded := timeZone.bounded (instant / 1000)
    simp only [timeZoneSearchWindowMs] at hstart hstop
    omega

end Boundaries

end BoothOperator.Reports
