import Mathlib.Data.String.Basic
import BoothOperator.Installations.Summary
import BoothOperator.Lib.Tally
import BoothOperator.Reports.TimeZone

/-! The breakdowns of the overview: sessions by day, by hour and by booth, and the digits of the
events. Each is a tally of its own, the days with a zero for every day of the range. -/
namespace BoothOperator.Overviews

open BoothOperator.Installations
open BoothOperator.Reports (dateUTC)
open BoothOperator.IsoTime (dateOf daysOf)

/-! ## Rows and buckets -/

structure CallSessionRow extends InteractionSession where
  id : String
  boothId : String

/-- `{ date, ...counts }` -/
structure DayBucket (ν : Type) where
  date : String
  counts : ν

structure CallCounts where
  total : Nat := 0
  completed : Nat := 0

structure InteractionCounts where
  total : Nat := 0
  noSelection : Nat := 0
  messagesLeft : Nat := 0

structure HourBucket where
  hour : Nat
  interactions : Nat := 0
  calls : Nat := 0
  messages : Nat := 0
  deriving DecidableEq

structure BoothCalls where
  calls : Nat := 0
  lastSeenAt : Option Int := none

/-- A message has no booth. -/
structure BoothBucket where
  boothId : String
  interactions : Nat
  calls : Nat
  messages : Option Nat := none
  lastSeenAt : Option String

/-! ## Days -/

def dayMs : Int := 86400000

def isoDay (date : Int) : String := String.ofList ((IsoTime.toISOString date).toList.take 10)

/-- `Date.UTC` of the year, the month and the day of the month. -/
def utcDay (date : Int) : Int :=
  let parts := dateOf (date / dayMs)
  dateUTC parts.year (parts.month - 1) parts.day 0 0 0

def getUTCDate (time : Int) : Int := (dateOf (time / dayMs)).day

/-- `setUTCDate`: a day after the last of its month is one of the next. -/
def setUTCDate (time : Int) (day : Int) : Int :=
  (daysOf { dateOf (time / dayMs) with day := 1 } + day - 1) * dayMs + time % dayMs

theorem setUTCDate_next (time : Int) : setUTCDate time (getUTCDate time + 1) = time + dayMs := by
  have back := IsoTime.daysOf_dateOf (time / dayMs)
  have whole := Int.mul_ediv_add_emod time dayMs
  unfold setUTCDate getUTCDate
  generalize dateOf (time / dayMs) = date at *
  simp only [daysOf, IsoTime.dayOfEra] at back ⊢
  unfold dayMs at *
  omega

def minStartedAt (sessions : List InteractionSession) : Option Int :=
  match sessions with
  | [] => none
  | first :: _ => some <| sessions.foldl
      (fun least session => if session.startedAt < least then session.startedAt else least)
      first.startedAt

section Days

variable {ν : Type} (zero : ν) (count : ν → InteractionSession → ν)

/-- A zero for each day from the cursor to the last day. -/
def zeroFill (cursor endDay : Int) (buckets : OrderedMap String ν) : OrderedMap String ν :=
  if cursor ≤ endDay then
    zeroFill (setUTCDate cursor (getUTCDate cursor + 1)) endDay (buckets.set (isoDay cursor) zero)
  else buckets
termination_by (endDay + 1 - cursor).toNat
decreasing_by
  rw [setUTCDate_next]
  unfold dayMs
  omega

def startDay (rangeStart : Option Int) (rangeEnd : Int) (sessions : List InteractionSession) :
    Int := (rangeStart.or (minStartedAt sessions)).getD rangeEnd

def dayCounts (rangeStart : Option Int) (rangeEnd : Int) (sessions : List InteractionSession) :
    OrderedMap String ν :=
  Tally.tally (fun session => isoDay session.startedAt) zero count
    (zeroFill zero (utcDay (startDay rangeStart rangeEnd sessions)) (utcDay rangeEnd) .empty) sessions

/-- The tally of each day, the days in order. -/
def perDay (rangeStart : Option Int) (rangeEnd : Int) (sessions : List InteractionSession) :
    List (DayBucket ν) :=
  Tally.sortBy DayBucket.date
    ((dayCounts zero count rangeStart rangeEnd sessions).entries.map fun (date, counts) =>
      { date, counts })

end Days

def countCall (bucket : CallCounts) (session : InteractionSession) : CallCounts :=
  { total := bucket.total + 1
    completed :=
      if session.outcome = some "recording_completed" then bucket.completed + 1
      else bucket.completed }

def buildPerDay (rangeStart : Option Int) (rangeEnd : Int) (sessions : List CallSessionRow) :
    List (DayBucket CallCounts) :=
  perDay {} countCall rangeStart rangeEnd (sessions.map (·.toInteractionSession))

def countInteraction (bucket : InteractionCounts) (session : InteractionSession) :
    InteractionCounts :=
  { total := bucket.total + 1
    noSelection :=
      if session.outcome = some noSelectionOutcome then bucket.noSelection + 1
      else bucket.noSelection
    messagesLeft :=
      if session.outcome = some messageLeftOutcome then bucket.messagesLeft + 1
      else bucket.messagesLeft }

def buildInteractionPerDay (rangeStart : Option Int) (rangeEnd : Int)
    (sessions : List InteractionSession) : List (DayBucket InteractionCounts) :=
  perDay {} countInteraction rangeStart rangeEnd sessions

/-! ## Hours, booths and digits -/

def getUTCHours (time : Int) : Nat := (time % dayMs / 3600000).toNat

def buildHourly (callTimes messageTimes : List Int) : List HourBucket :=
  let buckets := (List.range 24).map fun hour => { hour }
  let buckets := callTimes.foldl (fun buckets time => buckets.modify (getUTCHours time) fun bucket =>
    { bucket with interactions := bucket.interactions + 1, calls := bucket.calls + 1 }) buckets
  messageTimes.foldl (fun buckets time => buckets.modify (getUTCHours time) fun bucket =>
    { bucket with messages := bucket.messages + 1 }) buckets

def countBooth (existing : BoothCalls) (session : CallSessionRow) : BoothCalls :=
  let candidate := session.endedAt.getD session.startedAt
  { calls := existing.calls + 1
    lastSeenAt :=
      if existing.lastSeenAt.all (· < candidate) then some candidate else existing.lastSeenAt }

def boothCalls (sessions : List CallSessionRow) : OrderedMap String BoothCalls :=
  Tally.tally CallSessionRow.boothId {} countBooth .empty sessions

def boothBreakdown (sessions : List CallSessionRow) : List BoothBucket :=
  if 1 < (boothCalls sessions).size then
    ((boothCalls sessions).entries.map fun (boothId, info) =>
      { boothId
        interactions := info.calls
        calls := info.calls
        lastSeenAt := info.lastSeenAt.map IsoTime.toISOString }).mergeSort
      fun left right => right.calls ≤ left.calls
  else []

/-- The digits that a session stored, and no other character. -/
def countChar (digits : Record) (char : Char) : Record :=
  if digits.any fun entry => entry.1 = char.toString then incRecord digits char.toString else digits

def tallyLegacyDigitHistogram (sessions : List InteractionSession)
    (digitEvents : List InteractionEvent) : Record :=
  if digitEvents ≠ [] then (summarizeInteractionActions digitEvents).digitsDialed
  else sessions.foldl
    (fun digits session => (session.digitsDialed.getD "").toList.foldl countChar digits)
    emptyDigitsDialed

end BoothOperator.Overviews
