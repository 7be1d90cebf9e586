import Mathlib.Algebra.BigOperators.Group.List.Basic
import BoothOperator.Reports.Overview

/-! The days of the overview: which of them have a bucket, what the buckets add up to, and that the
order of the sessions makes no difference. `Date.UTC` takes the years 0 to 99 for those of the last
century, so that a range that begins in one of them is filled from 1900 years later on. -/
namespace BoothOperator.Overviews

open BoothOperator.Installations
open BoothOperator.Reports (dateUTC)
open BoothOperator.IsoTime (Date dateOf daysOf format toISOString InRange digit)

/-! ## The text of a day -/

section Text

variable {time day other : Int}

/-- The date alone is in the text. -/
def dateText (date : Date) : List Char :=
  if 0 ≤ date.year ∧ date.year ≤ 9999 then
    IsoTime.four date.year ++ '-' :: IsoTime.two date.month ++ '-' :: IsoTime.two date.day
  else (if date.year < 0 then '-' else '+') :: IsoTime.six date.year.natAbs ++
    '-' :: IsoTime.two date.month

theorem isoDay_eq (time : Int) : isoDay time = String.ofList (dateText (dateOf (time / dayMs))) := by
  have date : dateOf (time / dayMs) = dateOf (time / 86400000) := rfl
  unfold isoDay toISOString dateText
  rw [date]
  by_cases range : InRange time
  · rw [if_pos range, if_pos (show _ ∧ _ from range)]
    simp [format, IsoTime.four, IsoTime.three, IsoTime.two]
  · rw [if_neg range, if_neg (show ¬ (_ ∧ _) from range)]
    simp [format, IsoTime.six, IsoTime.four, IsoTime.three, IsoTime.two]

theorem day_mul_ediv (day : Int) : day * dayMs / dayMs = day :=
  Int.mul_ediv_cancel day (by decide)

/-- A day has one text, at any time of it. -/
theorem isoDay_of_day (time : Int) : isoDay (time / dayMs * dayMs) = isoDay time := by
  rw [isoDay_eq, isoDay_eq, day_mul_ediv]

theorem digit_ne_sign {value : Int} (low : 0 ≤ value) (high : value ≤ 9) :
    digit value ≠ '-' ∧ digit value ≠ '+' := by
  obtain ⟨n, rfl⟩ := Int.eq_ofNat_of_zero_le low
  have all : ∀ n < 10, digit (n : Nat) ≠ '-' ∧ digit (n : Nat) ≠ '+' := by decide
  exact all n (by omega)

/-- A day of a year with four digits is told by its text. -/
theorem isoDay_injective (range : InRange (day * dayMs))
    (same : isoDay (day * dayMs) = isoDay (other * dayMs)) : day = other := by
  rw [isoDay_eq, isoDay_eq, day_mul_ediv, day_mul_ediv] at same
  have texts := String.ofList_injective same
  have years : 0 ≤ (dateOf day).year ∧ (dateOf day).year ≤ 9999 := by
    have date : dateOf (day * dayMs / 86400000) = dateOf day := congrArg dateOf (day_mul_ediv day)
    unfold InRange at range
    rwa [date] at range
  by_cases range' : 0 ≤ (dateOf other).year ∧ (dateOf other).year ≤ 9999
  · rw [dateText, dateText, if_pos years, if_pos range'] at texts
    have written : format (day * dayMs) = format (other * dayMs) := by
      unfold format
      have first : day * dayMs / 86400000 = day := day_mul_ediv day
      have second : other * dayMs / 86400000 = other := day_mul_ediv other
      have midnight : day * dayMs % 86400000 = 0 := by unfold dayMs; omega
      have midnight' : other * dayMs % 86400000 = 0 := by unfold dayMs; omega
      simp only [first, second, midnight, midnight']
      rw [texts]
    have range'' : InRange (other * dayMs) := by
      have date : dateOf (other * dayMs / 86400000) = dateOf other :=
        congrArg dateOf (day_mul_ediv other)
      unfold InRange
      rwa [date]
    have times := IsoTime.read_format range
    rw [written, IsoTime.read_format range''] at times
    have equal := Option.some.inj times
    unfold dayMs at equal
    omega
  · rw [dateText, dateText, if_pos years, if_neg range'] at texts
    have sign := congrArg List.head? texts
    simp only [IsoTime.four, List.cons_append, List.head?_cons, Option.some.injEq] at sign
    have no_sign := @digit_ne_sign ((dateOf day).year / 1000) (by omega) (by omega)
    split at sign
    · exact absurd sign no_sign.1
    · exact absurd sign no_sign.2

end Text

/-! ## `Date.UTC` of a date -/

section UtcDay

variable {date : Int}

/-- The day that `Date.UTC` makes of a time's year, month and day. -/
def utcDayNumber (date : Int) : Int := utcDay date / dayMs

theorem utcDay_eq (date : Int) : utcDay date =
    (daysOf { dateOf (date / dayMs) with
      year := if 0 ≤ (dateOf (date / dayMs)).year ∧ (dateOf (date / dayMs)).year ≤ 99
        then 1900 + (dateOf (date / dayMs)).year else (dateOf (date / dayMs)).year
      day := 1 } + (dateOf (date / dayMs)).day - 1) * dayMs := by
  obtain ⟨first, last⟩ := IsoTime.month_bounds (date / dayMs)
  have carried : ((dateOf (date / dayMs)).month - 1) / 12 = 0 := by omega
  have month : ((dateOf (date / dayMs)).month - 1) % 12 + 1 = (dateOf (date / dayMs)).month := by omega
  simp only [utcDay, dateUTC, carried, month, Int.add_zero, Int.zero_mul]
  rfl

theorem utcDay_midnight (date : Int) : utcDay date = utcDayNumber date * dayMs := by
  rw [utcDayNumber, utcDay_eq, day_mul_ediv]

/-- The first of its month and the days since. -/
theorem daysOf_first (days : Int) :
    daysOf { dateOf days with day := 1 } + (dateOf days).day - 1 = days := by
  have back := IsoTime.daysOf_dateOf days
  generalize dateOf days = date at *
  simp only [daysOf, IsoTime.dayOfEra] at back ⊢
  omega

/-- The year is one that `Date.UTC` takes for a year of the last century. -/
def TwoDigitYear (date : Int) : Prop :=
  0 ≤ (dateOf (date / dayMs)).year ∧ (dateOf (date / dayMs)).year ≤ 99

theorem utcDayNumber_of_not (other : ¬ TwoDigitYear date) : utcDayNumber date = date / dayMs := by
  rw [utcDayNumber, utcDay_eq, day_mul_ediv, if_neg (show ¬ (_ ∧ _) from other)]
  exact daysOf_first _

theorem twoDigitYear_of_lt (later : date / dayMs < utcDayNumber date) : TwoDigitYear date := by
  by_contra other
  rw [utcDayNumber_of_not other] at later
  exact Int.lt_irrefl _ later

theorem le_utcDayNumber (date : Int) : date / dayMs ≤ utcDayNumber date := by
  by_cases early : TwoDigitYear date
  · have same := daysOf_first (date / dayMs)
    obtain ⟨low, high⟩ := early
    rw [utcDayNumber, utcDay_eq, day_mul_ediv, if_pos ⟨low, high⟩]
    generalize dateOf (date / dayMs) = parts at *
    simp only [daysOf, IsoTime.dayOfEra] at same ⊢
    generalize IsoTime.marchOf parts.month = march at *
    have before : IsoTime.nextYear parts.month = 0 ∨ IsoTime.nextYear parts.month = 1 := by
      unfold IsoTime.nextYear
      split <;> simp
    generalize IsoTime.nextYear parts.month = next at *
    omega
  · rw [utcDayNumber_of_not early]

theorem year_of_bounds {day : Int} (low : -719528 ≤ day) (high : day ≤ 800000) :
    0 ≤ (dateOf day).year ∧ (dateOf day).year ≤ 9999 := by
  obtain ⟨least, most⟩ := IsoTime.within_bounds day
  obtain ⟨firstYear, lastYear⟩ := IsoTime.yearOfEra_bounds least most
  by_cases era : 0 ≤ (day + 719468) / 146097
  · simp only [dateOf, IsoTime.nextYear]
    split <;> omega
  · -- the first of the eras ends with the January and the February of the year 0
    have last : IsoTime.yearOfEra ((day + 719468) % 146097) = 399 := by
      unfold IsoTime.yearOfEra
      omega
    have winter : IsoTime.monthOf ((5 * ((day + 719468) % 146097 -
        IsoTime.dayOfEra 399 0) + 2) / 153) ≤ 2 := by
      unfold IsoTime.monthOf IsoTime.dayOfEra
      split <;> omega
    simp only [dateOf, last, IsoTime.nextYear, if_pos winter]
    omega

theorem bounds_of_twoDigitYear (early : TwoDigitYear date) :
    -719528 ≤ date / dayMs ∧ utcDayNumber date ≤ 800000 := by
  have same := IsoTime.daysOf_dateOf (date / dayMs)
  obtain ⟨firstMonth, lastMonth⟩ := IsoTime.month_bounds (date / dayMs)
  obtain ⟨firstDay, lastDay⟩ := IsoTime.day_bounds (date / dayMs)
  obtain ⟨low, high⟩ := early
  rw [utcDayNumber, utcDay_eq, day_mul_ediv, if_pos ⟨low, high⟩]
  generalize dateOf (date / dayMs) = parts at *
  simp only [daysOf, IsoTime.dayOfEra, IsoTime.nextYear, IsoTime.marchOf] at same ⊢
  split at same
  next winter =>
    simp only [if_pos winter]
    omega
  next summer =>
    simp only [if_neg summer]
    omega

/-- The days from such a year on until 1900 years later have four digits. -/
theorem inRange_of_twoDigitYear {day : Int} (early : TwoDigitYear date)
    (first : date / dayMs ≤ day) (last : day < utcDayNumber date) : InRange (day * dayMs) := by
  obtain ⟨low, high⟩ := bounds_of_twoDigitYear early
  have years := @year_of_bounds day (by omega) (by omega)
  have same : dateOf (day * dayMs / 86400000) = dateOf day := congrArg dateOf (day_mul_ediv day)
  unfold InRange
  rwa [same]

end UtcDay

/-! ## The buckets -/

section Buckets

variable {ν : Type} {zero value : ν} {count : ν → InteractionSession → ν} {cursor endDay : Int}
  {buckets : OrderedMap String ν} {key : String} {rangeStart : Option Int} {rangeEnd : Int}
  {sessions : List InteractionSession}

theorem zeroFill_get (read : (zeroFill zero cursor endDay buckets).get key = some value) :
    value = zero ∨ buckets.get key = some value := by
  fun_induction zeroFill zero cursor endDay buckets with
  | case1 cursor buckets _ ih =>
    rcases ih read with same | before
    · exact Or.inl same
    · rcases OrderedMap.get_set_eq_some.mp before with ⟨-, same⟩ | ⟨-, old⟩
      · exact Or.inl same
      · exact Or.inr old
  | case2 => exact Or.inr read

theorem has_set {other : String} : (buckets.set other value).has key = true ↔
    key = other ∨ buckets.has key = true := by
  by_cases same : key = other
  · subst same
    simp [OrderedMap.has]
  · rw [OrderedMap.has, OrderedMap.get_set_of_ne same]
    exact (or_iff_right same).symm

/-- The days that are filled. -/
theorem has_zeroFill : (zeroFill zero cursor endDay buckets).has key = true ↔
    buckets.has key = true ∨
      ∃ days : Nat, cursor + days * dayMs ≤ endDay ∧ isoDay (cursor + days * dayMs) = key := by
  fun_induction zeroFill zero cursor endDay buckets with
  | case1 cursor buckets within ih =>
    rw [ih, has_set, setUTCDate_next]
    constructor
    · rintro ((rfl | there) | ⟨days, last, same⟩)
      · exact Or.inr ⟨0, by simpa using within, by simp⟩
      · exact Or.inl there
      · have next : cursor + dayMs + days * dayMs = cursor + (days + 1 : Nat) * dayMs := by
          unfold dayMs
          omega
        rw [next] at last same
        exact Or.inr ⟨days + 1, last, same⟩
    · rintro (there | ⟨days, last, same⟩)
      · exact Or.inl (Or.inr there)
      · cases days with
        | zero =>
          rw [Int.natCast_zero, Int.zero_mul, Int.add_zero] at same
          exact Or.inl (Or.inl same.symm)
        | succ days =>
          have next : cursor + dayMs + days * dayMs = cursor + (days + 1 : Nat) * dayMs := by
            unfold dayMs
            omega
          rw [← next] at last same
          exact Or.inr ⟨days, last, same⟩
  | case2 cursor buckets beyond =>
    refine (or_iff_left ?_).symm
    rintro ⟨days, last, -⟩
    have later : 0 ≤ (days : Int) * dayMs := Int.mul_nonneg (by omega) (by decide)
    omega

theorem has_zeroFill_empty {date last : Int} :
    (zeroFill zero (utcDay date) (utcDay last) .empty).has key = true ↔
      ∃ day, utcDayNumber date ≤ day ∧ day ≤ utcDayNumber last ∧ isoDay (day * dayMs) = key := by
  rw [has_zeroFill, or_iff_right (show ¬ OrderedMap.empty.has key = true by simp [OrderedMap.has]),
    utcDay_midnight, utcDay_midnight]
  constructor
  · rintro ⟨days, within, same⟩
    have whole : utcDayNumber date * dayMs + days * dayMs =
        (utcDayNumber date + days) * dayMs := (Int.add_mul _ _ _).symm
    rw [whole] at within same
    exact ⟨utcDayNumber date + days, by omega,
      Int.le_of_mul_le_mul_right within (by decide), same⟩
  · rintro ⟨day, first, within, same⟩
    have whole : utcDayNumber date * dayMs + (day - utcDayNumber date).toNat * dayMs =
        day * dayMs := by
      rw [Int.toNat_of_nonneg (by omega), ← Int.add_mul]
      congr 1
      omega
    refine ⟨(day - utcDayNumber date).toNat, ?_, by rw [whole, same]⟩
    rw [whole]
    exact Int.mul_le_mul_of_nonneg_right within (by decide)

theorem sumOf_zeroFill {measure : ν → Nat} (nothing : measure zero = 0) (date last : Int) :
    Tally.sumOf measure (zeroFill zero date last .empty) = 0 := by
  refine List.sum_eq_zero fun share among => ?_
  obtain ⟨entry, there, rfl⟩ := List.mem_map.mp among
  rcases zeroFill_get (OrderedMap.get_eq_some.mpr there) with same | before
  · rw [same, nothing]
  · cases before

/-! ### The days in order -/

theorem mem_dates {date : String} :
    date ∈ (perDay zero count rangeStart rangeEnd sessions).map DayBucket.date ↔
      (dayCounts zero count rangeStart rangeEnd sessions).has date = true := by
  rw [← OrderedMap.mem_map_fst_iff_has, perDay, ((Tally.sortBy_perm _ _).map _).mem_iff, List.map_map]
  rfl

theorem nodup_dates (buckets : OrderedMap String ν) :
    ((buckets.entries.map fun (date, counts) => ({ date, counts } : DayBucket ν)).map
      DayBucket.date).Nodup := by
  rw [List.map_map]
  exact buckets.distinct

/-- The dates ascend, so that no two are the same. -/
theorem pairwise_perDay : (perDay zero count rangeStart rangeEnd sessions).Pairwise
    fun left right => left.date < right.date := Tally.pairwise_sortBy (nodup_dates _)

/-- What each session adds, over all days. -/
theorem sum_perDay {measure : ν → Nat} {share : InteractionSession → Nat}
    (nothing : measure zero = 0)
    (raises : ∀ bucket session, measure (count bucket session) = measure bucket + share session) :
    ((perDay zero count rangeStart rangeEnd sessions).map fun bucket => measure bucket.counts).sum =
      (sessions.map share).sum := by
  have sorted := ((Tally.sortBy_perm DayBucket.date
    ((dayCounts zero count rangeStart rangeEnd sessions).entries.map fun (date, counts) =>
      { date, counts })).map fun bucket => measure bucket.counts).sum_eq
  rw [perDay, sorted, List.map_map]
  have tallied := Tally.sumOf_tally (fun session => isoDay session.startedAt) zero count nothing
    raises (zeroFill zero (utcDay (startDay rangeStart rangeEnd sessions)) (utcDay rangeEnd) .empty)
    sessions
  rw [sumOf_zeroFill nothing, Nat.zero_add] at tallied
  exact tallied

/-- The first of them does not depend on their order. -/
theorem minStartedAt_eq (sessions : List InteractionSession) :
    minStartedAt sessions = (sessions.map (·.startedAt)).min? := by
  cases sessions with
  | nil => rfl
  | cons first rest =>
    rw [minStartedAt, List.map_cons, List.min?_cons', List.foldl_cons, if_neg (Int.lt_irrefl _),
      List.foldl_map]
    congr 2
    funext least session
    split
    next earlier => exact (Int.min_eq_right (Int.le_of_lt earlier)).symm
    next later => exact (Int.min_eq_left (Int.not_lt.mp later)).symm

theorem minStartedAt_perm {other : List InteractionSession} (perm : sessions.Perm other) :
    minStartedAt sessions = minStartedAt other := by
  rw [minStartedAt_eq, minStartedAt_eq]
  apply Option.ext
  intro least
  rw [List.min?_eq_some_iff, List.min?_eq_some_iff, (perm.map _).mem_iff]
  exact and_congr_right fun _ => forall_congr' fun time => by rw [(perm.map _).mem_iff]

theorem perDay_perm [RightCommutative count] {other : List InteractionSession}
    (perm : sessions.Perm other) :
    perDay zero count rangeStart rangeEnd sessions = perDay zero count rangeStart rangeEnd other := by
  refine Tally.sortBy_congr (nodup_dates _) (List.Perm.map _ ?_)
  rw [dayCounts, dayCounts, startDay, startDay, minStartedAt_perm perm]
  exact Tally.tally_perm _ _ _ _ perm

/-! ### Every day of the range -/

/-- Each day of the range has a bucket. -/
def Covers (rangeStart : Option Int) (rangeEnd : Int) (sessions : List InteractionSession)
    (dates : List String) : Prop :=
  ∀ day, startDay rangeStart rangeEnd sessions / dayMs ≤ day → day ≤ rangeEnd / dayMs →
    isoDay (day * dayMs) ∈ dates

/-- A day of the range has a session when it is before the one that the filling begins with. -/
def SessionsBeforeFill (rangeStart : Option Int) (rangeEnd : Int)
    (sessions : List InteractionSession) : Prop :=
  ∀ day, startDay rangeStart rangeEnd sessions / dayMs ≤ day → day ≤ rangeEnd / dayMs →
    day < utcDayNumber (startDay rangeStart rangeEnd sessions) →
    ∃ session ∈ sessions, session.startedAt / dayMs = day

theorem covers_perDay_iff :
    Covers rangeStart rangeEnd sessions
        ((perDay zero count rangeStart rangeEnd sessions).map DayBucket.date) ↔
      SessionsBeforeFill rangeStart rangeEnd sessions := by
  refine forall_congr' fun day => forall_congr' fun first => forall_congr' fun last => ?_
  rw [mem_dates, dayCounts, Tally.has_tally, has_zeroFill_empty]
  constructor
  · intro there early
    -- a day before the filled ones has a text that no other day has
    have range := inRange_of_twoDigitYear (twoDigitYear_of_lt (by omega)) first early
    rcases there with ⟨other, fromFirst, -, same⟩ | ⟨session, among, same⟩
    · have equal := isoDay_injective range same.symm
      omega
    · rw [← isoDay_of_day session.startedAt] at same
      exact ⟨session, among, (isoDay_injective range same.symm).symm⟩
  · intro filled
    by_cases early : day < utcDayNumber (startDay rangeStart rangeEnd sessions)
    · obtain ⟨session, among, same⟩ := filled early
      refine Or.inr ⟨session, among, ?_⟩
      rw [← isoDay_of_day, same]
    · have later := le_utcDayNumber rangeEnd
      exact Or.inl ⟨day, by omega, by omega, rfl⟩

/-- So it is in every range that begins in no year of two digits. -/
theorem sessionsBeforeFill_of_not (other : ¬ TwoDigitYear (startDay rangeStart rangeEnd sessions)) :
    SessionsBeforeFill rangeStart rangeEnd sessions := by
  intro day first _ early
  rw [utcDayNumber_of_not other] at early
  omega

end Buckets

end BoothOperator.Overviews
