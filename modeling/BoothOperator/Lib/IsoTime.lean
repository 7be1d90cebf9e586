import Mathlib.Data.Int.Order.Basic

/-! Instants as text. A time is a number of milliseconds since 1970; `format`
writes it as `Date.prototype.toISOString` does for the years 0 to 9999, on the
proleptic Gregorian calendar, and `read` takes exactly those texts. Days are
counted from the first of March of the year 0, so that a leap day ends its
year. -/
namespace BoothOperator.IsoTime

/-! ## Days and dates -/

/-- A date of the calendar. -/
structure Date where
  year : Int
  month : Int
  day : Int

/-- The day of its 400 years, from the years in them and the day of the year. -/
def dayOfEra (yearOfEra dayOfYear : Int) : Int :=
  365 * yearOfEra + yearOfEra / 4 - yearOfEra / 100 + dayOfYear

def yearOfEra (day : Int) : Int := (day - day / 1460 + day / 36524 - day / 146096) / 365

/-- The month of the calendar, from the months since March. -/
def monthOf (march : Int) : Int := if march < 10 then march + 3 else march - 9

def marchOf (month : Int) : Int := if month ≤ 2 then month + 9 else month - 3

/-- January and February belong to the next year of the calendar. -/
def nextYear (month : Int) : Int := if month ≤ 2 then 1 else 0

/-- The date of a day counted from 1970. -/
def dateOf (days : Int) : Date :=
  let shifted := days + 719468
  let within := shifted % 146097
  let year := yearOfEra within
  let dayOfYear := within - dayOfEra year 0
  let march := (5 * dayOfYear + 2) / 153
  { year := year + shifted / 146097 * 400 + nextYear (monthOf march)
    month := monthOf march
    day := dayOfYear - (153 * march + 2) / 5 + 1 }

/-- The day of a date, counted from 1970. -/
def daysOf (date : Date) : Int :=
  let year := date.year - nextYear date.month
  let dayOfYear := (153 * marchOf date.month + 2) / 5 + date.day - 1
  year / 400 * 146097 + dayOfEra (year % 400) dayOfYear - 719468

theorem marchOf_monthOf {march : Int} (low : 0 ≤ march) (high : march ≤ 11) :
    marchOf (monthOf march) = march := by
  unfold marchOf monthOf
  split <;> split <;> omega

theorem yearOfEra_bounds {day : Int} (low : 0 ≤ day) (high : day < 146097) :
    0 ≤ yearOfEra day ∧ yearOfEra day ≤ 399 := by
  unfold yearOfEra
  omega

theorem dayOfYear_bounds {day : Int} (low : 0 ≤ day) (high : day < 146097) :
    0 ≤ day - dayOfEra (yearOfEra day) 0 ∧ day - dayOfEra (yearOfEra day) 0 ≤ 365 := by
  unfold dayOfEra
  have century : day / 36524 = 0 ∨ day / 36524 = 1 ∨ day / 36524 = 2 ∨ day / 36524 = 3 ∨
      day / 36524 = 4 := by omega
  have last : day / 146096 = 0 ∨ day / 146096 = 1 := by omega
  obtain ⟨small, large⟩ := yearOfEra_bounds low high
  have hundreds : yearOfEra day / 100 = 0 ∨ yearOfEra day / 100 = 1 ∨ yearOfEra day / 100 = 2 ∨
      yearOfEra day / 100 = 3 := by omega
  unfold yearOfEra at hundreds small large ⊢
  rcases century with c | c | c | c | c <;> rcases last with l | l <;>
    rcases hundreds with h | h | h | h <;> omega

/-- Months from March: the first day of each and its length. -/
theorem march_bounds {dayOfYear : Int} (low : 0 ≤ dayOfYear) (high : dayOfYear ≤ 365) :
    0 ≤ (5 * dayOfYear + 2) / 153 ∧ (5 * dayOfYear + 2) / 153 ≤ 11 ∧
      0 ≤ dayOfYear - (153 * ((5 * dayOfYear + 2) / 153) + 2) / 5 ∧
      dayOfYear - (153 * ((5 * dayOfYear + 2) / 153) + 2) / 5 ≤ 30 := by
  refine ⟨by omega, by omega, ?_, ?_⟩ <;> omega

/-- The day within its 400 years. -/
theorem within_bounds (days : Int) :
    0 ≤ (days + 719468) % 146097 ∧ (days + 719468) % 146097 < 146097 := by
  omega

theorem month_bounds (days : Int) : 1 ≤ (dateOf days).month ∧ (dateOf days).month ≤ 12 := by
  obtain ⟨low, high⟩ := within_bounds days
  obtain ⟨first, last⟩ := dayOfYear_bounds low high
  obtain ⟨start, stop, -, -⟩ := march_bounds first last
  simp only [dateOf, monthOf]
  split <;> omega

theorem day_bounds (days : Int) : 1 ≤ (dateOf days).day ∧ (dateOf days).day ≤ 31 := by
  obtain ⟨low, high⟩ := within_bounds days
  obtain ⟨first, last⟩ := dayOfYear_bounds low high
  obtain ⟨-, -, start, stop⟩ := march_bounds first last
  simp only [dateOf]
  omega

theorem daysOf_dateOf (days : Int) : daysOf (dateOf days) = days := by
  obtain ⟨low, high⟩ := within_bounds days
  obtain ⟨firstYear, lastYear⟩ := yearOfEra_bounds low high
  obtain ⟨first, last⟩ := dayOfYear_bounds low high
  obtain ⟨start, stop, -, -⟩ := march_bounds first last
  have whole := Int.mul_ediv_add_emod (days + 719468) 146097
  simp only [daysOf, dateOf, marchOf_monthOf start stop]
  generalize yearOfEra ((days + 719468) % 146097) = year at *
  generalize (days + 719468) % 146097 = within at *
  generalize (days + 719468) / 146097 = era at *
  have years : year + era * 400 + nextYear (monthOf ((5 * (within - dayOfEra year 0) + 2) / 153)) -
      nextYear (monthOf ((5 * (within - dayOfEra year 0) + 2) / 153)) = year + era * 400 := by
    omega
  have eras : (year + era * 400) / 400 = era := by omega
  have rest : (year + era * 400) % 400 = year := by omega
  rw [years, eras, rest]
  unfold dayOfEra
  omega

/-! ## Text -/

def digit (value : Int) : Char := Char.ofNat (48 + value.toNat)

def digitValue (c : Char) : Int := (c.toNat : Int) - 48

def two (value : Int) : List Char := [digit (value / 10), digit (value % 10)]

def three (value : Int) : List Char := digit (value / 100) :: two (value % 100)

def four (value : Int) : List Char := digit (value / 1000) :: three (value % 1000)

/-- `toISOString` for the years 0 to 9999. -/
def format (time : Int) : String :=
  let date := dateOf (time / 86400000)
  let clock := time % 86400000
  String.ofList
    (four date.year ++ '-' :: two date.month ++ '-' :: two date.day ++ 'T' ::
      two (clock / 3600000) ++ ':' :: two (clock / 60000 % 60) ++ ':' ::
      two (clock / 1000 % 60) ++ '.' :: three (clock % 1000) ++ ['Z'])

/-- The time whose digits stand in the places of `format`. -/
def parse : List Char → Option Int
  | [y, e, a, r, '-', m, n, '-', d, f, 'T', h, i, ':', j, k, ':', s, t, '.', u, v, w, 'Z'] =>
    let days := daysOf
      { year := 1000 * digitValue y + 100 * digitValue e + 10 * digitValue a + digitValue r
        month := 10 * digitValue m + digitValue n
        day := 10 * digitValue d + digitValue f }
    some (days * 86400000 + (10 * digitValue h + digitValue i) * 3600000 +
      (10 * digitValue j + digitValue k) * 60000 + (10 * digitValue s + digitValue t) * 1000 +
      (100 * digitValue u + 10 * digitValue v + digitValue w))
  | _ => none

/-- The time a text was written from. -/
def read (text : String) : Option Int :=
  match parse text.toList with
  | none => none
  | some time => if format time = text then some time else none

/-- The years 0 to 9999. -/
def InRange (time : Int) : Prop :=
  0 ≤ (dateOf (time / 86400000)).year ∧ (dateOf (time / 86400000)).year ≤ 9999

instance (time : Int) : Decidable (InRange time) := inferInstanceAs (Decidable (_ ∧ _))

theorem digitValue_digit {value : Int} (low : 0 ≤ value) (high : value ≤ 9) :
    digitValue (digit value) = value := by
  obtain ⟨n, rfl⟩ := Int.eq_ofNat_of_zero_le low
  have small : n < 10 := by omega
  have all : ∀ k < 10, digitValue (digit (k : Nat)) = (k : Nat) := by decide
  exact all n small

/-- Two digits read back. -/
theorem two_value {value : Int} (low : 0 ≤ value) (high : value ≤ 99) :
    10 * digitValue (digit (value / 10)) + digitValue (digit (value % 10)) = value := by
  rw [digitValue_digit (by omega) (by omega), digitValue_digit (by omega) (by omega)]
  omega

theorem three_value {value : Int} (low : 0 ≤ value) (high : value ≤ 999) :
    100 * digitValue (digit (value / 100)) + 10 * digitValue (digit (value % 100 / 10)) +
      digitValue (digit (value % 100 % 10)) = value := by
  have tail := @two_value (value % 100) (by omega) (by omega)
  rw [digitValue_digit (by omega) (by omega)]
  omega

theorem four_value {value : Int} (low : 0 ≤ value) (high : value ≤ 9999) :
    1000 * digitValue (digit (value / 1000)) + 100 * digitValue (digit (value % 1000 / 100)) +
      10 * digitValue (digit (value % 1000 % 100 / 10)) +
      digitValue (digit (value % 1000 % 100 % 10)) = value := by
  have tail := @three_value (value % 1000) (by omega) (by omega)
  rw [digitValue_digit (by omega) (by omega)]
  omega

theorem parse_format {time : Int} (range : InRange time) :
    parse (format time).toList = some time := by
  obtain ⟨low, high⟩ := range
  obtain ⟨month, months⟩ := month_bounds (time / 86400000)
  obtain ⟨day, days⟩ := day_bounds (time / 86400000)
  have back := daysOf_dateOf (time / 86400000)
  simp only [format, String.toList_ofList, four, three, two, List.cons_append, List.nil_append,
    parse]
  generalize dateOf (time / 86400000) = date at *
  rw [four_value low high, two_value (by omega) (by omega), two_value (by omega) (by omega),
    two_value (by omega) (by omega), two_value (by omega) (by omega),
    two_value (by omega) (by omega), three_value (by omega) (by omega), back]
  refine congrArg some ?_
  omega

theorem read_format {time : Int} (range : InRange time) : read (format time) = some time := by
  simp [read, parse_format range]

theorem format_of_read {text : String} {time : Int} (taken : read text = some time) :
    format time = text := by
  rw [read] at taken
  split at taken
  · cases taken
  · split at taken
    · next same =>
      cases taken
      exact same
    · cases taken

/-! ## Every year of a date -/

/-- The times that a `Date` can hold. -/
def maxTime : Int := 8640000000000000

def Valid (time : Int) : Prop := -maxTime ≤ time ∧ time ≤ maxTime

instance (time : Int) : Decidable (Valid time) := inferInstanceAs (Decidable (_ ∧ _))

def six (value : Int) : List Char :=
  digit (value / 100000) :: digit (value % 100000 / 10000) :: four (value % 10000)

/-- `toISOString`: a year that four digits do not hold is written with its sign and six. -/
def toISOString (time : Int) : String :=
  if InRange time then format time
  else
    let year := (dateOf (time / 86400000)).year
    let afterYear := (format time).toList.drop 4
    String.ofList ((if year < 0 then '-' else '+') :: six year.natAbs ++ afterYear)

/-- The time whose digits stand in the places of such a text. -/
def parseExpanded : List Char → Option Int
  | [sign, x, z, y, e, a, r, '-', m, n, '-', d, f, 'T', h, i, ':', j, k, ':', s, t, '.', u, v, w,
      'Z'] =>
    let year := 100000 * digitValue x + 10000 * digitValue z + (1000 * digitValue y +
      100 * digitValue e + 10 * digitValue a + digitValue r)
    let days := daysOf
      { year := if sign = '-' then -year else year
        month := 10 * digitValue m + digitValue n
        day := 10 * digitValue d + digitValue f }
    some (days * 86400000 + (10 * digitValue h + digitValue i) * 3600000 +
      (10 * digitValue j + digitValue k) * 60000 + (10 * digitValue s + digitValue t) * 1000 +
      (100 * digitValue u + 10 * digitValue v + digitValue w))
  | _ => none

/-- The time that `toISOString` wrote the text from. -/
def fromISOString (text : String) : Option Int :=
  match (parse text.toList).or (parseExpanded text.toList) with
  | none => none
  | some time => if Valid time ∧ toISOString time = text then some time else none

theorem year_bounds {time : Int} (valid : Valid time) :
    -999999 ≤ (dateOf (time / 86400000)).year ∧ (dateOf (time / 86400000)).year ≤ 999999 := by
  obtain ⟨low, high⟩ := within_bounds (time / 86400000)
  obtain ⟨first, last⟩ := yearOfEra_bounds low high
  obtain ⟨early, late⟩ := valid
  simp only [maxTime] at early late
  simp only [dateOf, nextYear]
  split <;> omega

theorem six_value {value : Int} (low : 0 ≤ value) (high : value ≤ 999999) :
    100000 * digitValue (digit (value / 100000)) +
        10000 * digitValue (digit (value % 100000 / 10000)) +
      (1000 * digitValue (digit (value % 10000 / 1000)) +
        100 * digitValue (digit (value % 10000 % 1000 / 100)) +
        10 * digitValue (digit (value % 10000 % 1000 % 100 / 10)) +
        digitValue (digit (value % 10000 % 1000 % 100 % 10))) = value := by
  rw [@four_value (value % 10000) (by omega) (by omega), digitValue_digit (by omega) (by omega),
    digitValue_digit (by omega) (by omega)]
  omega

theorem parseExpanded_toISOString {time : Int} (valid : Valid time) (beyond : ¬ InRange time) :
    parseExpanded (toISOString time).toList = some time := by
  obtain ⟨low, high⟩ := year_bounds valid
  obtain ⟨month, months⟩ := month_bounds (time / 86400000)
  obtain ⟨day, days⟩ := day_bounds (time / 86400000)
  have back := daysOf_dateOf (time / 86400000)
  rw [toISOString, if_neg beyond]
  simp only [format, String.toList_ofList, six, four, three, two, List.cons_append,
    List.nil_append, List.drop_succ_cons, List.drop_zero, parseExpanded]
  generalize dateOf (time / 86400000) = date at *
  have signed : (if (if date.year < 0 then '-' else '+') = '-' then -(date.year.natAbs : Int)
      else date.year.natAbs) = date.year := by
    by_cases before : date.year < 0
    · simp only [if_pos before, if_true]
      omega
    · rw [if_neg before, if_neg (by decide)]
      omega
  rw [six_value (by omega) (by omega), signed, two_value (by omega) (by omega),
    two_value (by omega) (by omega), two_value (by omega) (by omega),
    two_value (by omega) (by omega), two_value (by omega) (by omega),
    three_value (by omega) (by omega), back]
  refine congrArg some ?_
  omega

theorem fromISOString_toISOString {time : Int} (valid : Valid time) :
    fromISOString (toISOString time) = some time := by
  by_cases range : InRange time
  · have written : toISOString time = format time := if_pos range
    simp [fromISOString, written, parse_format range, valid]
  · have other : parse (toISOString time).toList = none := by
      rw [toISOString, if_neg range]
      simp [format, six, four, three, two, parse]
    simp [fromISOString, other, parseExpanded_toISOString valid range, valid]

end BoothOperator.IsoTime
