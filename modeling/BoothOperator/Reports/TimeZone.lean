import Mathlib.Data.List.Sort
import BoothOperator.Lib.IsoTime
import BoothOperator.Lib.Ranges

/-! `lib/time-zone.ts`, and the local days of `lib/exhibition-report.ts`. Instants are their
milliseconds since 1970; a time zone is its offset at each second, and the calendar that
formats in it is the proleptic Gregorian one. -/
namespace BoothOperator.Reports

open BoothOperator.IsoTime (Date dateOf daysOf digitValue)

structure TimeZone where
  offset : Int → Int
  bounded : ∀ second, -86400 < offset second ∧ offset second < 86400

/-- `{ start, end }` -/
abbrev LocalDateRange := Ranges.Range

structure DateTimeParts where
  year : Int
  month : Int
  day : Int
  hour : Int
  minute : Int
  second : Int

/-- The second that a clock in the time zone shows, counted from its 1970. -/
def shownAt (date : Int) (timeZone : TimeZone) : Int :=
  date / 1000 + timeZone.offset (date / 1000)

def partsFor (date : Int) (timeZone : TimeZone) : DateTimeParts :=
  let shown := shownAt date timeZone
  let calendar := dateOf (shown / 86400)
  { year := calendar.year
    month := calendar.month
    day := calendar.day
    hour := shown % 86400 / 3600
    minute := shown % 3600 / 60
    second := shown % 60 }

/-- `Date.UTC`: two digits are a year of the last century, a month index carries into the
years, and every other part into the days. -/
def dateUTC (year monthIndex day hour minute second : Int) : Int :=
  let year := if 0 ≤ year ∧ year ≤ 99 then 1900 + year else year
  let first := daysOf { year := year + monthIndex / 12, month := monthIndex % 12 + 1, day := 1 }
  (first + day - 1) * 86400000 + hour * 3600000 + minute * 60000 + second * 1000

def partsAsUtc (parts : DateTimeParts) : Int :=
  dateUTC parts.year (parts.month - 1) parts.day parts.hour parts.minute parts.second

/-- `String(value).padStart(2, "0")` -/
def pad (value : Int) : List Char := (toString value).toList.leftpad 2 '0'

def timeZoneSearchWindowMs : Int := 48 * 60 * 60 * 1000

def timeZoneScanStepMs : Int := 30 * 60 * 1000

def utcDateSampleStepMs : Int := 6 * 60 * 60 * 1000

/-- `/^(\d{4})-(\d{2})-(\d{2})$/`, and the date that it names is one of the calendar. -/
def parseLocalDate (localDate : String) : Option Date :=
  match localDate.toList with
  | [y, e, a, r, '-', m, n, '-', d, f] =>
    if [y, e, a, r, m, n, d, f].all Char.isDigit then
      let year := 1000 * digitValue y + 100 * digitValue e + 10 * digitValue a + digitValue r
      let month := 10 * digitValue m + digitValue n
      let day := 10 * digitValue d + digitValue f
      let candidate := dateOf (dateUTC year (month - 1) day 0 0 0 / 86400000)
      if candidate.year = year ∧ candidate.month = month ∧ candidate.day = day then
        some { year, month, day }
      else none
    else none
  | _ => none

/-- The text of a date. -/
def dateKey (date : Date) : String :=
  String.ofList ((toString date.year).toList ++ '-' :: pad date.month ++ '-' :: pad date.day)

def dateKeyInTimeZone (date : Int) (timeZone : TimeZone) : String :=
  let shown := partsFor date timeZone
  dateKey { year := shown.year, month := shown.month, day := shown.day }

def offsetAt (timestamp : Int) (timeZone : TimeZone) : Int :=
  let wholeSecond := timestamp / 1000 * 1000
  partsAsUtc (partsFor wholeSecond timeZone) - wholeSecond

/-- `set.add(value)`, over the values of the set in their order. -/
def add {α : Type} [DecidableEq α] (set : List α) (value : α) : List α :=
  if value ∈ set then set else set ++ [value]

/-! ## The scan for transitions -/

/-- The binary search, over seconds. -/
def findTransition (timeZone : TimeZone) (previousOffset lowerSecond upperSecond : Int) : Int :=
  if lowerSecond < upperSecond then
    let midpoint := lowerSecond + (upperSecond - lowerSecond) / 2
    if offsetAt (midpoint * 1000) timeZone = previousOffset then
      findTransition timeZone previousOffset (midpoint + 1) upperSecond
    else findTransition timeZone previousOffset lowerSecond midpoint
  else lowerSecond
termination_by (upperSecond - lowerSecond).toNat

structure OffsetsAndTransitions where
  offsets : List Int
  transitions : List Int

/-- The loop of `offsetsAndTransitions`, from a time and its offset. -/
def scanFrom (timeZone : TimeZone) (stop previousTime previousOffset : Int)
    (found : OffsetsAndTransitions) : OffsetsAndTransitions :=
  if previousTime < stop then
    let currentTime := min (previousTime + timeZoneScanStepMs) stop
    let currentOffset := offsetAt currentTime timeZone
    let lowerSecond := previousTime / 1000
    let upperSecond := -(-currentTime / 1000)
    let transitions :=
      if currentOffset ≠ previousOffset then
        found.transitions ++
          [findTransition timeZone previousOffset lowerSecond upperSecond * 1000]
      else found.transitions
    scanFrom timeZone stop currentTime currentOffset
      { offsets := add found.offsets currentOffset, transitions }
  else found
termination_by (stop - previousTime).toNat
decreasing_by
  simp only [timeZoneScanStepMs]
  omega

def offsetsAndTransitions (start stop : Int) (timeZone : TimeZone) : OffsetsAndTransitions :=
  let previousOffset := offsetAt start timeZone
  scanFrom timeZone stop start previousOffset { offsets := [previousOffset], transitions := [] }

/-! ## Ranges and keys -/

/-- A turn of the loop over neighbouring boundaries. -/
def collectRange (own : Int → Bool) (ranges : List LocalDateRange) (start endExclusive : Int) :
    List LocalDateRange :=
  if endExclusive ≤ start then ranges
  else
    let midpoint := start + (endExclusive - start) / 2
    if own midpoint then
      match ranges.getLast? with
      | some previous =>
        if previous.stop + 1 = start then
          ranges.dropLast ++ [{ previous with stop := endExclusive - 1 }]
        else ranges ++ [⟨start, endExclusive - 1⟩]
      | none => ranges ++ [⟨start, endExclusive - 1⟩]
    else ranges

def collectRanges (own : Int → Bool) (ranges : List LocalDateRange) : List Int →
    List LocalDateRange
  | start :: endExclusive :: rest =>
    collectRanges own (collectRange own ranges start endExclusive) (endExclusive :: rest)
  | _ => ranges

/-- `sortedBoundaries` of `rangesForDateInTimeZone`. -/
def sortedBoundaries (timeZone : TimeZone) (target nextTarget : Int) : List Int :=
  let searchStart := target - timeZoneSearchWindowMs
  let searchEnd := nextTarget + timeZoneSearchWindowMs
  let scan := offsetsAndTransitions searchStart searchEnd timeZone
  let boundaries := (searchStart :: searchEnd :: scan.transitions).foldl add []
  let boundaries := scan.offsets.foldl
    (fun boundaries offset => add (add boundaries (target - offset)) (nextTarget - offset))
    boundaries
  (boundaries.filter fun timestamp =>
    searchStart ≤ timestamp ∧ timestamp ≤ searchEnd).insertionSort (· ≤ ·)

/-- Fails where the text is no date. -/
def rangesForDateInTimeZone (localDate : String) (timeZone : TimeZone) :
    Option (List LocalDateRange) :=
  (parseLocalDate localDate).map fun date =>
    let target := dateUTC date.year (date.month - 1) date.day 0 0 0
    let nextTarget := dateUTC date.year (date.month - 1) (date.day + 1) 0 0 0
    collectRanges (fun instant => dateKeyInTimeZone instant timeZone = localDate) []
      (sortedBoundaries timeZone target nextTarget)

/-- The timestamps from one on that are a sample. -/
def samplesFrom (stop timestamp : Int) : List Int :=
  if timestamp ≤ stop then timestamp :: samplesFrom stop (timestamp + utcDateSampleStepMs) else []
termination_by (stop + 1 - timestamp).toNat
decreasing_by
  simp only [utcDateSampleStepMs]
  omega

/-- The instants beside a transition that are in the range. -/
def besideTransition (start stop transition : Int) : List Int :=
  (if transition > start then [transition - 1] else []) ++
    if transition ≤ stop then [transition] else []

/-- Fails where the range ends before it starts. -/
def dateKeysInUtcRange (start stop : Int) (timeZone : TimeZone) : Option (List String) :=
  if stop < start then none
  else
    let scan := offsetsAndTransitions start stop timeZone
    let instants := samplesFrom stop start ++ stop ::
      scan.transitions.flatMap (besideTransition start stop)
    let dates := (instants.map (dateKeyInTimeZone · timeZone)).foldl add []
    some (dates.insertionSort (· ≤ ·))

structure LocalDayRange where
  date : String
  start : Int
  stop : Int

/-- The part of a date's range that is in the report. -/
def clipRange (start stop : Int) (date : String) (range : LocalDateRange) : List LocalDayRange :=
  let rangeStart := max start range.start
  let rangeEnd := min stop range.stop
  if rangeStart ≤ rangeEnd then [{ date, start := rangeStart, stop := rangeEnd }] else []

def buildLocalDayRanges (start stop : Int) (timeZone : TimeZone) : Option (List LocalDayRange) :=
  if stop < start then none
  else do
    let dates ← dateKeysInUtcRange start stop timeZone
    let days ← dates.mapM fun date => do
      let ranges ← rangesForDateInTimeZone date timeZone
      return ranges.flatMap (clipRange start stop date)
    return days.flatten

end BoothOperator.Reports
