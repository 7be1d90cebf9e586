import BoothOperator.Reports.TimeZone

/-! Offsets and dates as they are written: the offset that is read off the parts of a clock is
that of the zone, and the key of a date with a year of four digits is read back as it. -/
namespace BoothOperator.Reports

open BoothOperator.IsoTime (Date dateOf daysOf digitValue digit two four)

/-! ## Offsets -/

/-- The day on the calendar of a time zone, counted from 1970. -/
def localDay (date : Int) (timeZone : TimeZone) : Int := shownAt date timeZone / 86400

/-- No year of the calendar's first hundred, which `Date.UTC` takes for others. -/
def Modern (second : Int) (timeZone : TimeZone) : Prop :=
  99 < (dateOf ((second + timeZone.offset second) / 86400)).year

theorem daysOf_add (year month day : Int) :
    daysOf { year, month, day := 1 } + day - 1 = daysOf { year, month, day } := by
  simp only [daysOf, IsoTime.dayOfEra]
  omega

theorem dateUTC_eq {date : Date} (modern : 99 < date.year) (month : 1 ≤ date.month)
    (months : date.month ≤ 12) (day hour minute second : Int) :
    dateUTC date.year (date.month - 1) day hour minute second =
      (daysOf date + day - date.day) * 86400000 + hour * 3600000 + minute * 60000 +
        second * 1000 := by
  have own : (date.month - 1) / 12 = 0 := by omega
  have index : (date.month - 1) % 12 + 1 = date.month := by omega
  have first := daysOf_add date.year date.month date.day
  have whole : daysOf { year := date.year, month := date.month, day := date.day } = daysOf date := rfl
  rw [whole] at first
  rw [dateUTC, if_neg (by omega), own, index, Int.add_zero]
  omega

theorem offsetAt_eq {timestamp : Int} {timeZone : TimeZone}
    (modern : Modern (timestamp / 1000) timeZone) :
    offsetAt timestamp timeZone = timeZone.offset (timestamp / 1000) * 1000 := by
  have second : timestamp / 1000 * 1000 / 1000 = timestamp / 1000 := by omega
  obtain ⟨month, months⟩ := IsoTime.month_bounds (shownAt timestamp timeZone / 86400)
  have day := IsoTime.daysOf_dateOf (shownAt timestamp timeZone / 86400)
  have utc := @dateUTC_eq (dateOf (shownAt timestamp timeZone / 86400)) modern month months
  simp only [offsetAt, partsAsUtc, partsFor, shownAt, second] at utc day ⊢
  rw [utc, day]
  omega

theorem offsetAt_second (timestamp : Int) (timeZone : TimeZone) :
    offsetAt timestamp timeZone = offsetAt (timestamp / 1000 * 1000) timeZone := by
  have second : timestamp / 1000 * 1000 / 1000 = timestamp / 1000 := by omega
  simp only [offsetAt, second]

/-! ## Keys -/

theorem pad_eq {value : Int} (low : 0 ≤ value) (high : value ≤ 31) : pad value = two value := by
  obtain ⟨n, rfl⟩ := Int.eq_ofNat_of_zero_le low
  have all : ∀ k < 32, pad (k : Nat) = two (k : Nat) := by decide
  exact all n (by omega)

theorem toList_toString (n : Nat) : (toString (n : Int)).toList = Nat.toDigits 10 n := by
  rw [show toString (n : Int) = n.repr from rfl, Nat.toList_repr]

theorem digitChar_eq : ∀ n < 10, Nat.digitChar n = digit (n : Nat) := by
  decide

theorem toString_year {year : Int} (low : 1000 ≤ year) (high : year ≤ 9999) :
    (toString year).toList = four year := by
  obtain ⟨n, rfl⟩ := Int.eq_ofNat_of_zero_le (by omega : 0 ≤ year)
  have digits : Nat.toDigits 10 n = [Nat.digitChar (n / 1000), Nat.digitChar (n % 1000 / 100),
      Nat.digitChar (n % 1000 % 100 / 10), Nat.digitChar (n % 1000 % 100 % 10)] := by
    rw [Nat.toDigits_of_base_le (by decide) (by omega), Nat.toDigits_of_base_le (by decide) (by omega),
      Nat.toDigits_of_base_le (by decide) (by omega), Nat.toDigits_of_lt_base (by omega)]
    rw [show n / 10 / 10 / 10 = n / 1000 by omega, show n / 10 / 10 % 10 = n % 1000 / 100 by omega,
      show n / 10 % 10 = n % 1000 % 100 / 10 by omega, show n % 10 = n % 1000 % 100 % 10 by omega]
    rfl
  rw [toList_toString, digits]
  simp only [four, IsoTime.three, two]
  rw [digitChar_eq _ (by omega), digitChar_eq _ (by omega), digitChar_eq _ (by omega),
    digitChar_eq _ (by omega)]
  rfl

/-- The key of a date whose year has four digits. -/
def keyText (date : Date) : List Char :=
  four date.year ++ '-' :: two date.month ++ '-' :: two date.day

/-- A month and a day that a calendar can have. -/
structure OnCalendar (date : Date) : Prop where
  month : 1 ≤ date.month ∧ date.month ≤ 12
  day : 1 ≤ date.day ∧ date.day ≤ 31

def FourDigit (date : Date) : Prop := 1000 ≤ date.year ∧ date.year ≤ 9999

theorem onCalendar_dateOf (days : Int) : OnCalendar (dateOf days) :=
  ⟨IsoTime.month_bounds days, IsoTime.day_bounds days⟩

theorem dateKey_eq {date : Date} (calendar : OnCalendar date) (years : FourDigit date) :
    (dateKey date).toList = keyText date := by
  obtain ⟨⟨month, months⟩, day, days⟩ := calendar
  rw [dateKey, String.toList_ofList, toString_year years.1 years.2, pad_eq (by omega) (by omega),
    pad_eq (by omega) (by omega)]
  rfl

theorem length_four (year : Int) : (four year).length = 4 := rfl

theorem isDigit_digit {value : Int} (low : 0 ≤ value) (high : value ≤ 9) :
    (digit value).isDigit := by
  obtain ⟨n, rfl⟩ := Int.eq_ofNat_of_zero_le low
  have all : ∀ k < 10, (digit (k : Nat)).isDigit := by decide
  exact all n (by omega)

theorem digitValue_bounds {c : Char} (isDigit : c.isDigit) :
    0 ≤ digitValue c ∧ digitValue c ≤ 9 ∧ digit (digitValue c) = c := by
  have code : 48 ≤ c.toNat ∧ c.toNat ≤ 57 := by
    simpa [Char.isDigit, UInt32.le_iff_toNat_le] using isDigit
  refine ⟨by unfold digitValue; omega, by unfold digitValue; omega, ?_⟩
  have same : 48 + (digitValue c).toNat = c.toNat := by
    unfold digitValue
    omega
  rw [digit, same, Char.ofNat_toNat]

/-- A year is written with four digits only where it has them. -/
theorem fourDigit_of_toString {year other : Int} (low : 0 ≤ other) (high : other ≤ 9999)
    (written : (toString year).toList = four other) : 1000 ≤ year ∧ year ≤ 9999 := by
  rcases lt_or_ge year 0 with negative | positive
  · obtain ⟨n, rfl⟩ := Int.eq_negSucc_of_lt_zero negative
    have first : (toString (Int.negSucc n)).toList.head? = some '-' := by
      simp [toString, Int.repr]
    rw [written] at first
    have same : digit (other / 1000) = '-' := Option.some.inj first
    have isDigit := @isDigit_digit (other / 1000) (by omega) (by omega)
    rw [same] at isDigit
    exact absurd isDigit (by decide)
  · obtain ⟨n, rfl⟩ := Int.eq_ofNat_of_zero_le positive
    rw [toList_toString] at written
    have length : (Nat.toDigits 10 n).length = 4 := by rw [written, length_four]
    have most : n < 10 ^ 4 := (Nat.length_toDigits_le_iff (by decide) (by decide)).mp length.le
    have least : ¬n < 10 ^ 3 := fun less => by
      have short := (@Nat.length_toDigits_le_iff 10 n 3 (by decide) (by decide)).mpr less
      omega
    omega

theorem keyText_injective {date other : Date} (calendar : OnCalendar date)
    (calendar' : OnCalendar other) (years : FourDigit date) (years' : FourDigit other)
    (same : keyText date = keyText other) : date = other := by
  obtain ⟨⟨month, months⟩, day, days⟩ := calendar
  obtain ⟨⟨month', months'⟩, day', days'⟩ := calendar'
  obtain ⟨low, high⟩ := years
  obtain ⟨low', high'⟩ := years'
  have year := @IsoTime.four_value date.year (by omega) (by omega)
  have year' := @IsoTime.four_value other.year (by omega) (by omega)
  have month := @IsoTime.two_value date.month (by omega) (by omega)
  have month' := @IsoTime.two_value other.month (by omega) (by omega)
  have day := @IsoTime.two_value date.day (by omega) (by omega)
  have day' := @IsoTime.two_value other.day (by omega) (by omega)
  simp only [keyText, four, IsoTime.three, two, List.cons_append, List.nil_append,
    List.cons.injEq, and_true, true_and] at same
  obtain ⟨y, e, a, r, m, n, d, f⟩ := same
  rw [y, e, a, r, year'] at year
  rw [m, n, month'] at month
  rw [d, f, day'] at day
  cases date
  cases other
  simp_all

/-- Keys tell dates apart. -/
theorem dateKey_injective {date other : Date} (calendar : OnCalendar date)
    (calendar' : OnCalendar other) (years : FourDigit other)
    (same : dateKey date = dateKey other) : date = other := by
  have texts := congrArg String.toList same
  rw [dateKey_eq calendar' years, dateKey, String.toList_ofList, keyText] at texts
  obtain ⟨⟨month, months⟩, day, days⟩ := calendar
  rw [pad_eq (by omega) (by omega), pad_eq (by omega) (by omega)] at texts
  have written := List.append_inj_left' (List.append_inj_left' texts rfl) rfl
  have own : FourDigit date :=
    fourDigit_of_toString (by have := years.1; omega) years.2 written
  have calendar : OnCalendar date := ⟨⟨month, months⟩, day, days⟩
  refine keyText_injective calendar calendar' own years ?_
  rw [← dateKey_eq calendar own, ← dateKey_eq calendar' years, same]

theorem four_chars {y e a r : Char} (digits : y.isDigit ∧ e.isDigit ∧ a.isDigit ∧ r.isDigit) :
    four (1000 * digitValue y + 100 * digitValue e + 10 * digitValue a + digitValue r) =
      [y, e, a, r] := by
  obtain ⟨y_low, y_high, y_same⟩ := digitValue_bounds digits.1
  obtain ⟨e_low, e_high, e_same⟩ := digitValue_bounds digits.2.1
  obtain ⟨a_low, a_high, a_same⟩ := digitValue_bounds digits.2.2.1
  obtain ⟨r_low, r_high, r_same⟩ := digitValue_bounds digits.2.2.2
  generalize whole : 1000 * digitValue y + 100 * digitValue e + 10 * digitValue a + digitValue r = year
  simp only [four, IsoTime.three, two]
  rw [show year / 1000 = digitValue y by omega, show year % 1000 / 100 = digitValue e by omega,
    show year % 1000 % 100 / 10 = digitValue a by omega,
    show year % 1000 % 100 % 10 = digitValue r by omega, y_same, e_same, a_same, r_same]

theorem two_chars {m n : Char} (digits : m.isDigit ∧ n.isDigit) :
    two (10 * digitValue m + digitValue n) = [m, n] := by
  obtain ⟨m_low, m_high, m_same⟩ := digitValue_bounds digits.1
  obtain ⟨n_low, n_high, n_same⟩ := digitValue_bounds digits.2
  rw [two, show (10 * digitValue m + digitValue n) / 10 = digitValue m by omega,
    show (10 * digitValue m + digitValue n) % 10 = digitValue n by omega, m_same, n_same]

/-- A date that `Date.UTC` does not carry over is one of the calendar. -/
theorem real_of_candidate {date candidate : Date} (modern : 99 < date.year)
    (carried : candidate =
      dateOf (dateUTC date.year (date.month - 1) date.day 0 0 0 / 86400000))
    (whole : candidate.year = date.year ∧ candidate.month = date.month ∧
      candidate.day = date.day) : OnCalendar date ∧ dateOf (daysOf date) = date := by
  have same : candidate = date := by
    cases candidate
    cases date
    simp_all
  rw [same] at carried
  have calendar : OnCalendar date := by
    rw [carried]
    exact onCalendar_dateOf _
  refine ⟨calendar, ?_⟩
  have days : dateUTC date.year (date.month - 1) date.day 0 0 0 / 86400000 = daysOf date := by
    rw [dateUTC_eq modern calendar.month.1 calendar.month.2]
    omega
  rw [days] at carried
  exact carried.symm

theorem parseLocalDate_eq_some {localDate : String} {date : Date}
    (parsed : parseLocalDate localDate = some date) (year : 1000 ≤ date.year) :
    FourDigit date ∧ dateOf (daysOf date) = date ∧ localDate = dateKey date := by
  unfold parseLocalDate at parsed
  split at parsed
  · rename_i y e a r m n d f chars
    split at parsed
    · rename_i digits
      simp only [List.all_cons, List.all_nil, Bool.and_eq_true, Bool.and_true] at digits
      obtain ⟨y_digit, e_digit, a_digit, r_digit, m_digit, n_digit, d_digit, f_digit⟩ := digits
      simp only at parsed
      split at parsed
      · rename_i whole
        have own := Option.some.inj parsed
        have year_eq : 1000 * digitValue y + 100 * digitValue e + 10 * digitValue a +
            digitValue r = date.year := congrArg Date.year own
        have month_eq : 10 * digitValue m + digitValue n = date.month := congrArg Date.month own
        have day_eq : 10 * digitValue d + digitValue f = date.day := congrArg Date.day own
        rw [year_eq, month_eq, day_eq] at whole
        obtain ⟨calendar, real⟩ := real_of_candidate (by omega) rfl whole
        have years : FourDigit date := by
          obtain ⟨_, y_high, _⟩ := digitValue_bounds y_digit
          obtain ⟨_, e_high, _⟩ := digitValue_bounds e_digit
          obtain ⟨_, a_high, _⟩ := digitValue_bounds a_digit
          obtain ⟨_, r_high, _⟩ := digitValue_bounds r_digit
          exact ⟨year, by omega⟩
        refine ⟨years, real, String.toList_inj.mp ?_⟩
        rw [dateKey_eq calendar years, chars, keyText, ← year_eq, ← month_eq, ← day_eq,
          four_chars ⟨y_digit, e_digit, a_digit, r_digit⟩, two_chars ⟨m_digit, n_digit⟩,
          two_chars ⟨d_digit, f_digit⟩]
        rfl
      · cases parsed
    · cases parsed
  · cases parsed

theorem parseLocalDate_dateKey {days : Int} (years : FourDigit (dateOf days)) :
    parseLocalDate (dateKey (dateOf days)) = some (dateOf days) := by
  have calendar := onCalendar_dateOf days
  have text := dateKey_eq calendar years
  obtain ⟨⟨month, months⟩, day, most⟩ := calendar
  obtain ⟨low, high⟩ := years
  have candidate : dateUTC (dateOf days).year ((dateOf days).month - 1) (dateOf days).day 0 0 0 /
      86400000 = days := by
    rw [dateUTC_eq (by omega) month months, IsoTime.daysOf_dateOf]
    omega
  have digits (value : Int) (low : 0 ≤ value) (high : value ≤ 9) : (digit value).isDigit = true :=
    isDigit_digit low high
  simp only [parseLocalDate, text, keyText, four, IsoTime.three, two, List.cons_append,
    List.nil_append, IsoTime.four_value (by omega : 0 ≤ (dateOf days).year) high,
    IsoTime.two_value (by omega : 0 ≤ (dateOf days).month) (by omega),
    IsoTime.two_value (by omega : 0 ≤ (dateOf days).day) (by omega), candidate]
  rw [if_pos, if_pos ⟨trivial, trivial, trivial⟩]
  simp only [List.all_cons, List.all_nil, Bool.and_true, Bool.and_eq_true]
  refine ⟨?_, ?_, ?_, ?_, ?_, ?_, ?_, ?_⟩ <;> exact digits _ (by omega) (by omega)

end BoothOperator.Reports
