import Std.Data.String.ToNat
import Mathlib.Data.List.Induction
import Mathlib.Tactic.IntervalCases
import BoothOperator.Reports.OverviewDays

/-! The breakdowns of the overview against its totals: each row is counted once by the day, by the
hour and by the booth, each digit by its own count and by one of the four selections. -/
namespace BoothOperator.Overviews

open BoothOperator.Installations

/-! ## Hours -/

section Hours

variable {callTimes messageTimes : List Int}

theorem getUTCHours_lt (time : Int) : getUTCHours time < 24 := by
  unfold getUTCHours dayMs
  omega

theorem iterate_calls (n : Nat) (bucket : HourBucket) :
    (fun bucket : HourBucket => { bucket with
      interactions := bucket.interactions + 1, calls := bucket.calls + 1 })^[n] bucket =
      { bucket with interactions := bucket.interactions + n, calls := bucket.calls + n } := by
  induction n generalizing bucket with
  | zero => rfl
  | succ n ih =>
    rw [Function.iterate_succ_apply, ih]
    simp only [Nat.add_assoc, Nat.add_comm 1]

theorem iterate_messages (n : Nat) (bucket : HourBucket) :
    (fun bucket : HourBucket => { bucket with messages := bucket.messages + 1 })^[n] bucket =
      { bucket with messages := bucket.messages + n } := by
  induction n generalizing bucket with
  | zero => rfl
  | succ n ih =>
    rw [Function.iterate_succ_apply, ih]
    simp only [Nat.add_assoc, Nat.add_comm 1]

/-- The count of each hour. -/
theorem buildHourly_eq (callTimes messageTimes : List Int) : buildHourly callTimes messageTimes =
    (List.range 24).map fun hour =>
      { hour
        interactions := callTimes.countP fun time => getUTCHours time = hour
        calls := callTimes.countP fun time => getUTCHours time = hour
        messages := messageTimes.countP fun time => getUTCHours time = hour } := by
  refine List.ext_getElem? fun i => ?_
  unfold buildHourly
  simp only [Tally.getElem?_foldl_modify, List.getElem?_map, Option.map_map]
  cases read : (List.range 24)[i]? with
  | none => rfl
  | some hour =>
    obtain ⟨_, same⟩ := List.getElem?_eq_some_iff.mp read
    rw [List.getElem_range] at same
    subst same
    simp only [Option.map_some, Function.comp_apply, iterate_calls, iterate_messages, Nat.zero_add]

theorem sum_buildHourly : ((buildHourly callTimes messageTimes).map (·.interactions)).sum =
    callTimes.length := by
  have counted := Tally.sum_countP_range (fun time => some (getUTCHours time)) 24 callTimes
  rw [buildHourly_eq, List.map_map]
  simp only [Option.some.injEq, Option.any_some] at counted
  refine counted.trans (List.countP_eq_length.mpr fun time _ => ?_)
  exact decide_eq_true (getUTCHours_lt time)

theorem buildHourly_perm {callTimes' messageTimes' : List Int} (calls : callTimes.Perm callTimes')
    (messages : messageTimes.Perm messageTimes') :
    buildHourly callTimes messageTimes = buildHourly callTimes' messageTimes' := by
  rw [buildHourly_eq, buildHourly_eq]
  refine List.map_congr_left fun hour _ => ?_
  rw [calls.countP_eq, messages.countP_eq]

end Hours

/-! ## Booths -/

section Booths

variable {sessions other : List CallSessionRow}

/-- The later of the two times. -/
theorem lastSeenAt_eq (seen : Option Int) (candidate : Int) :
    (if seen.all (· < candidate) then some candidate else seen) =
      some (seen.elim candidate fun latest => max latest candidate) := by
  cases seen with
  | none => rfl
  | some latest =>
    simp only [Option.all_some, decide_eq_true_eq, Option.elim_some]
    split
    next later => rw [Int.max_eq_right (Int.le_of_lt later)]
    next earlier => rw [Int.max_eq_left (Int.not_lt.mp earlier)]

instance : RightCommutative countBooth where
  right_comm existing first second := by
    simp only [countBooth, lastSeenAt_eq, Option.elim_some]
    cases existing.lastSeenAt with
    | none => simp only [Option.elim_none, Int.max_comm]
    | some latest =>
      simp only [Option.elim_some, Int.max_assoc]
      rw [Int.max_comm (first.endedAt.getD first.startedAt)]

theorem sumOf_boothCalls (sessions : List CallSessionRow) :
    Tally.sumOf BoothCalls.calls (boothCalls sessions) = sessions.length := by
  have raises (existing : BoothCalls) (session : CallSessionRow) :
      (countBooth existing session).calls = existing.calls + (fun _ => 1) session := rfl
  rw [boothCalls, Tally.sumOf_tally CallSessionRow.boothId {} countBooth rfl raises .empty sessions]
  simp [Tally.sumOf, OrderedMap.empty]

/-- When it is shown it has each session at its booth. -/
theorem sum_boothBreakdown (shown : boothBreakdown sessions ≠ []) :
    ((boothBreakdown sessions).map (·.interactions)).sum = sessions.length ∧
      ((boothBreakdown sessions).map (·.calls)).sum = sessions.length := by
  have summed := sumOf_boothCalls sessions
  unfold boothBreakdown at shown ⊢
  split
  next =>
    constructor
    all_goals
      rw [((List.mergeSort_perm _ _).map _).sum_eq, List.map_map]
      exact summed
  next few => exact absurd (if_neg few) shown

theorem boothBreakdown_perm (perm : sessions.Perm other) :
    (boothBreakdown sessions).Perm (boothBreakdown other) := by
  have tallies : (boothCalls sessions).entries.Perm (boothCalls other).entries :=
    Tally.tally_perm _ _ _ _ perm
  have size : (boothCalls sessions).size = (boothCalls other).size := tallies.length_eq
  unfold boothBreakdown
  rw [size]
  split
  next =>
    exact (List.mergeSort_perm _ _).trans
      ((tallies.map _).trans (List.mergeSort_perm _ _).symm)
  next => exact .refl _

theorem pairwise_boothBreakdown (sessions : List CallSessionRow) :
    (boothBreakdown sessions).Pairwise fun left right => right.calls ≤ left.calls := by
  unfold boothBreakdown
  split
  next =>
    refine (List.pairwise_mergeSort (fun a b c first second => ?_) (fun a b => ?_) _).imp
      fun {left right} sorted => of_decide_eq_true sorted
    · rw [decide_eq_true_iff] at first second ⊢
      omega
    · rw [Bool.or_eq_true, decide_eq_true_iff, decide_eq_true_iff]
      omega
  next => exact .nil

/-- Booths with as many calls may change places, the counts do not. -/
theorem calls_boothBreakdown_perm (perm : sessions.Perm other) :
    (boothBreakdown sessions).map (·.calls) = (boothBreakdown other).map (·.calls) := by
  refine List.Perm.eq_of_pairwise (fun a b _ _ first second => Nat.le_antisymm second first)
    (List.pairwise_map.mpr (pairwise_boothBreakdown sessions))
    (List.pairwise_map.mpr (pairwise_boothBreakdown other)) ((boothBreakdown_perm perm).map _)

end Booths

/-! ## Digits -/

section Digits

variable {events other : List InteractionEvent} {sessions : List InteractionSession}

/-- The digit that an event says was dialed. -/
def digitOf (event : InteractionEvent) : Option Nat :=
  if event.type = "digit_dialed" then parseDigit event.payload else none

/-- The event says that the booth began to play. -/
def startsPlayback (state : String) (event : InteractionEvent) : Bool :=
  event.type = "state_transition" &&
    match member event.payload "to" with
    | some (.str reached) => reached = state
    | _ => false

theorem parseDigit_le {payload : Schema.JsonValue} {d : Nat} (read : parseDigit payload = some d) :
    d ≤ 9 := by
  unfold parseDigit at read
  split at read
  next digit _ =>
    split at read
    next bounds =>
      obtain ⟨whole, low, high⟩ := bounds
      cases read
      have bound : digit.num * 1 ≤ 9 * digit.den := (Rat.le_iff digit 9).mp high
      rw [whole] at bound
      omega
    next => cases read
  next => cases read

theorem digitOf_le {event : InteractionEvent} {d : Nat} (read : digitOf event = some d) : d ≤ 9 := by
  unfold digitOf at read
  split at read
  · exact parseDigit_le read
  · cases read

/-- A digit of the record is counted in its place. -/
theorem incRecord_map {digits : List Nat} (distinct : digits.Nodup) {d : Nat} (among : d ∈ digits)
    (counts : Nat → Nat) :
    incRecord (digits.map fun n => (toString n, counts n)) (toString d) =
      digits.map fun n => (toString n, counts n + if n = d then 1 else 0) := by
  induction digits with
  | nil => cases among
  | cons n rest ih =>
    obtain ⟨new, distinct⟩ := List.nodup_cons.mp distinct
    rw [List.map_cons, List.map_cons, incRecord]
    by_cases same : n = d
    · subst same
      rw [if_pos rfl, if_pos rfl]
      congr 1
      refine List.map_congr_left fun m there => ?_
      have apart : m ≠ n := fun same => new (same ▸ there)
      rw [if_neg apart, Nat.add_zero]
    · have apart : toString n ≠ toString d := fun text => same (Nat.repr_injective text)
      rw [if_neg apart, if_neg same, Nat.add_zero,
        ih distinct ((List.mem_cons.mp among).resolve_left (Ne.symm same))]

/-- The counts of ten digits. -/
def histogram (counts : Nat → Nat) : Record := (List.range 10).map fun d => (toString d, counts d)

theorem incRecord_histogram {d : Nat} (small : d ≤ 9) (counts : Nat → Nat) :
    incRecord (histogram counts) (toString d) =
      histogram fun n => counts n + if n = d then 1 else 0 :=
  incRecord_map List.nodup_range (List.mem_range.mpr (by omega)) counts

theorem selectDigit_eq {d : Nat} (small : d ≤ 9) (summary : InteractionActionsSummary) :
    selectDigit d summary =
      { summary with
        leaveMessageSelections := summary.leaveMessageSelections + if d = 1 then 1 else 0
        listenMessageSelections := summary.listenMessageSelections + if d = 2 then 1 else 0
        instructionSelections := summary.instructionSelections + if d = 0 then 1 else 0
        wrongNumberAttempts := summary.wrongNumberAttempts + if 3 ≤ d then 1 else 0 } := by
  interval_cases d <;> rfl

theorem selectPlayback_eq {event : InteractionEvent} (moved : event.type = "state_transition")
    (summary : InteractionActionsSummary) : selectPlayback event.payload summary =
      { summary with
        messagePlaybackStarts := summary.messagePlaybackStarts +
          if startsPlayback messagePlaybackState event then 1 else 0
        instructionPlaybackStarts := summary.instructionPlaybackStarts +
          if startsPlayback instructionPlaybackState event then 1 else 0 } := by
  simp only [startsPlayback, moved, decide_true, Bool.true_and]
  unfold selectPlayback
  generalize member event.payload "to" = reached
  rcases reached with _ | (_ | _ | _ | state | _ | _)
  case some.str =>
    have apart : messagePlaybackState ≠ instructionPlaybackState := by decide
    by_cases message : state = messagePlaybackState
    · simp [message, apart]
    · by_cases instruction : state = instructionPlaybackState
      · simp [instruction, apart.symm]
      · simp [message, instruction]
  all_goals rfl

/-- The summary of the events, by what each of them says. -/
theorem summarizeInteractionActions_eq (events : List InteractionEvent) :
    summarizeInteractionActions events =
      { digitsDialed := histogram fun d => events.countP fun event => digitOf event = some d
        leaveMessageSelections := events.countP fun event => digitOf event = some 1
        listenMessageSelections := events.countP fun event => digitOf event = some 2
        instructionSelections := events.countP fun event => digitOf event = some 0
        wrongNumberAttempts := events.countP fun event => (digitOf event).any (3 ≤ ·)
        messagePlaybackStarts := events.countP (startsPlayback messagePlaybackState)
        instructionPlaybackStarts := events.countP (startsPlayback instructionPlaybackState) } := by
  induction events using List.reverseRecOn with
  | nil => rfl
  | append_singleton events event ih =>
    have next : summarizeInteractionActions (events ++ [event]) =
        countAction (summarizeInteractionActions events) event := List.foldl_concat ..
    rw [next, ih]
    simp only [List.countP_append, List.countP_singleton]
    by_cases dialed : event.type = "digit_dialed"
    · have silent (state : String) : startsPlayback state event = false := by
        simp [startsPlayback, dialed]
      have digit : digitOf event = parseDigit event.payload := if_pos dialed
      rw [countAction, if_pos dialed]
      simp only [silent, digit]
      cases read : parseDigit event.payload with
      | none => simp
      | some d =>
        have small := parseDigit_le read
        have placed (n : Nat) : (if n = d then 1 else 0) = if d = n then 1 else 0 := by
          simp only [eq_comm]
        simp only [incRecord_histogram small, selectDigit_eq small, placed, Option.some.injEq, Option.any_some, decide_eq_true_eq,
          Bool.false_eq_true, if_false, Nat.add_zero]
    · have digit : digitOf event = none := if_neg dialed
      rw [countAction, if_neg dialed]
      by_cases moved : event.type = "state_transition"
      · rw [if_pos moved, selectPlayback_eq moved]
        simp [digit]
      · rw [if_neg moved]
        simp [digit, startsPlayback, moved]

theorem summarizeInteractionActions_perm (perm : events.Perm other) :
    summarizeInteractionActions events = summarizeInteractionActions other := by
  simp only [summarizeInteractionActions_eq, perm.countP_eq]

/-- Each digit is one of the four selections. -/
theorem sum_digitsDialed (events : List InteractionEvent) :
    ((summarizeInteractionActions events).digitsDialed.map Prod.snd).sum =
      (summarizeInteractionActions events).leaveMessageSelections +
      (summarizeInteractionActions events).listenMessageSelections +
      (summarizeInteractionActions events).instructionSelections +
      (summarizeInteractionActions events).wrongNumberAttempts := by
  have counted := Tally.sum_countP_range digitOf 10 events
  rw [summarizeInteractionActions_eq]
  simp only [histogram, List.map_map, Function.comp_def]
  rw [counted]
  clear counted
  induction events with
  | nil => rfl
  | cons event rest ih =>
    simp only [List.countP_cons, ih]
    cases read : digitOf event with
    | none => simp
    | some d =>
      have small := digitOf_le read
      simp only [Option.any_some, Option.some.injEq, decide_eq_true_eq]
      split_ifs <;> omega

/-- A digit of the stored text is counted in its place, and no other character. -/
theorem countChar_histogram (counts : Nat → Nat) (char : Char) :
    countChar (histogram counts) char =
      histogram fun d => counts d + if char.toString = toString d then 1 else 0 := by
  unfold countChar
  split
  next there =>
    obtain ⟨entry, among, same⟩ := List.any_eq_true.mp there
    obtain ⟨d, small, rfl⟩ := List.mem_map.mp among
    have text : toString d = char.toString := of_decide_eq_true same
    rw [← text, incRecord_histogram (by have := List.mem_range.mp small; omega)]
    refine congrArg histogram (funext fun n => ?_)
    have placed : n = d ↔ toString d = toString n :=
      ⟨fun same => by rw [same], fun same => (Nat.repr_injective same).symm⟩
    simp only [placed]
  next not_there =>
    refine List.map_congr_left fun d among => ?_
    have apart : char.toString ≠ toString d := by
      intro same
      refine not_there (List.any_eq_true.mpr ⟨(toString d, counts d), ?_, decide_eq_true same.symm⟩)
      exact List.mem_map_of_mem among
    simp only [if_neg apart, Nat.add_zero]

theorem foldl_countChar (chars : List Char) (counts : Nat → Nat) :
    chars.foldl countChar (histogram counts) =
      histogram fun d => counts d + chars.countP fun char => char.toString = toString d := by
  induction chars generalizing counts with
  | nil => rfl
  | cons char rest ih =>
    rw [List.foldl_cons, countChar_histogram, ih]
    refine congrArg histogram (funext fun d => ?_)
    simp only [List.countP_cons, decide_eq_true_eq]
    omega

theorem tallyLegacyDigitHistogram_perm {sessions' : List InteractionSession}
    (rows : sessions.Perm sessions') (perm : events.Perm other) :
    tallyLegacyDigitHistogram sessions events = tallyLegacyDigitHistogram sessions' other := by
  unfold tallyLegacyDigitHistogram
  by_cases none : events = []
  · subst none
    rw [List.nil_perm.mp perm]
    simp only [ne_eq, not_true_eq_false, if_false]
    have folded (sessions : List InteractionSession) :
        (sessions.flatMap fun session => (session.digitsDialed.getD "").toList).foldl countChar
            (histogram fun _ => 0) =
          sessions.foldl (fun digits session =>
            (session.digitsDialed.getD "").toList.foldl countChar digits) (histogram fun _ => 0) :=
      List.foldl_flatMap
    have empty : emptyDigitsDialed = histogram fun _ => 0 := rfl
    rw [empty, ← folded, ← folded, foldl_countChar, foldl_countChar]
    simp only [(rows.flatMap_right _).countP_eq]
  · have some_other : other ≠ [] := fun nil => none (List.perm_nil.mp (nil ▸ perm))
    rw [if_pos none, if_pos some_other, summarizeInteractionActions_perm perm]

end Digits

/-! ## Outcomes -/

section Outcomes

variable {sessions : List InteractionSession}

/-- The count under a name, none when it is not there. -/
def countOf (record : Record) (name : String) : Nat :=
  ((record.find? fun entry => entry.1 = name).map Prod.snd).getD 0

theorem countOf_incRecord (record : Record) (key name : String) :
    countOf (incRecord record key) name = countOf record name + if key = name then 1 else 0 := by
  unfold countOf
  induction record with
  | nil =>
    rw [incRecord]
    by_cases same : key = name
    · simp [same]
    · simp [same]
  | cons entry rest ih =>
    obtain ⟨other, count⟩ := entry
    rw [incRecord]
    by_cases mine : other = key
    · subst mine
      by_cases same : other = name
      · simp [same]
      · simp [same]
    · rw [if_neg mine]
      by_cases same : other = name
      · subst same
        simp [Ne.symm mine]
      · simpa [List.find?_cons, same] using ih

theorem countOf_foldl (keys : List String) (record : Record) (name : String) :
    countOf (keys.foldl incRecord record) name = countOf record name + keys.count name := by
  induction keys generalizing record with
  | nil => rfl
  | cons key rest ih =>
    rw [List.foldl_cons, ih, countOf_incRecord, List.count_cons]
    simp only [beq_iff_eq]
    omega

/-- A known outcome is counted whenever a session has it. -/
theorem countOf_outcomes {name : String} (known : name ≠ "unknown") :
    countOf (summarizeInteractionSessions sessions).outcomes name =
      sessions.countP fun session => session.outcome = some name := by
  have keys (counted : List InteractionSession) : counted.foldl
      (fun record session => incRecord record (session.outcome.getD "unknown")) [] =
      (counted.map fun session => session.outcome.getD "unknown").foldl incRecord [] :=
    List.foldl_map.symm
  simp only [summarizeInteractionSessions, keys, countOf_foldl]
  rw [List.count, List.countP_map, List.countP_filter]
  have none : countOf [] name = 0 := rfl
  rw [none, Nat.zero_add]
  refine List.countP_congr fun session _ => ?_
  simp only [Function.comp_apply]
  generalize session.outcome = outcome
  cases outcome with
  | none => simp [Ne.symm known]
  | some outcome => simp

end Outcomes

/-! ## The overview -/

instance : RightCommutative countCall where
  right_comm bucket first second := by
    unfold countCall
    split_ifs <;> rfl

instance : RightCommutative countInteraction where
  right_comm bucket first second := by
    unfold countInteraction
    split_ifs <;> rfl

/-- The breakdowns of an overview agree with each other, and with those of the same rows in any other
order. -/
structure Reconciles (rangeStart : Option Int) (rangeEnd : Int) (sessions : List CallSessionRow)
    (messageTimes : List Int) (events : List InteractionEvent) : Prop where
  perDay_sorted : (buildPerDay rangeStart rangeEnd sessions).Pairwise
    fun left right => left.date < right.date
  perDay_covers : Covers rangeStart rangeEnd (sessions.map (·.toInteractionSession))
    ((buildPerDay rangeStart rangeEnd sessions).map DayBucket.date)
  perDay_total : ((buildPerDay rangeStart rangeEnd sessions).map (·.counts.total)).sum =
    sessions.length
  perDay_completed : ((buildPerDay rangeStart rangeEnd sessions).map (·.counts.completed)).sum =
    countOf (summarizeInteractionSessions (sessions.map (·.toInteractionSession))).outcomes
      "recording_completed"
  interactions_sorted : (buildInteractionPerDay rangeStart rangeEnd
    (sessions.map (·.toInteractionSession))).Pairwise fun left right => left.date < right.date
  interactions_cover : Covers rangeStart rangeEnd (sessions.map (·.toInteractionSession))
    ((buildInteractionPerDay rangeStart rangeEnd
      (sessions.map (·.toInteractionSession))).map DayBucket.date)
  interactions_total : ((buildInteractionPerDay rangeStart rangeEnd
    (sessions.map (·.toInteractionSession))).map (·.counts.total)).sum =
      (summarizeInteractionSessions (sessions.map (·.toInteractionSession))).total
  interactions_noSelection : ((buildInteractionPerDay rangeStart rangeEnd
    (sessions.map (·.toInteractionSession))).map (·.counts.noSelection)).sum =
      countOf (summarizeInteractionSessions (sessions.map (·.toInteractionSession))).outcomes
        noSelectionOutcome
  interactions_messagesLeft : ((buildInteractionPerDay rangeStart rangeEnd
    (sessions.map (·.toInteractionSession))).map (·.counts.messagesLeft)).sum =
      countOf (summarizeInteractionSessions (sessions.map (·.toInteractionSession))).outcomes
        messageLeftOutcome
  hourly : ((buildHourly (sessions.map (·.startedAt)) messageTimes).map (·.interactions)).sum =
    sessions.length
  booths : boothBreakdown sessions ≠ [] →
    ((boothBreakdown sessions).map (·.interactions)).sum = sessions.length ∧
      ((boothBreakdown sessions).map (·.calls)).sum = sessions.length
  digits : ((summarizeInteractionActions events).digitsDialed.map Prod.snd).sum =
    (summarizeInteractionActions events).leaveMessageSelections +
    (summarizeInteractionActions events).listenMessageSelections +
    (summarizeInteractionActions events).instructionSelections +
    (summarizeInteractionActions events).wrongNumberAttempts
  perDay_reordered : ∀ sessions', sessions.Perm sessions' →
    buildPerDay rangeStart rangeEnd sessions = buildPerDay rangeStart rangeEnd sessions' ∧
      buildInteractionPerDay rangeStart rangeEnd (sessions.map (·.toInteractionSession)) =
        buildInteractionPerDay rangeStart rangeEnd (sessions'.map (·.toInteractionSession))
  hourly_reordered : ∀ sessions' messageTimes', sessions.Perm sessions' →
    messageTimes.Perm messageTimes' →
    buildHourly (sessions.map (·.startedAt)) messageTimes =
      buildHourly (sessions'.map (·.startedAt)) messageTimes'
  booths_reordered : ∀ sessions', sessions.Perm sessions' →
    (boothBreakdown sessions).Perm (boothBreakdown sessions') ∧
      (boothBreakdown sessions).map (·.calls) = (boothBreakdown sessions').map (·.calls)
  digits_reordered : ∀ sessions' events', sessions.Perm sessions' → events.Perm events' →
    summarizeInteractionActions events = summarizeInteractionActions events' ∧
      tallyLegacyDigitHistogram (sessions.map (·.toInteractionSession)) events =
        tallyLegacyDigitHistogram (sessions'.map (·.toInteractionSession)) events'

section Overview

variable {rangeStart : Option Int} {rangeEnd : Int} {rows : List InteractionSession}

theorem sum_total_perDay {ν : Type} {zero : ν} (count : ν → InteractionSession → ν)
    (total : ν → Nat) (nothing : total zero = 0)
    (raises : ∀ bucket session, total (count bucket session) = total bucket + 1) :
    ((perDay zero count rangeStart rangeEnd rows).map fun bucket => total bucket.counts).sum =
      rows.length := by
  rw [sum_perDay nothing raises]
  simp

/-- The days' counts of one outcome are its count in the summary. -/
theorem sum_outcome_perDay {ν : Type} {zero : ν} {count : ν → InteractionSession → ν}
    {part : ν → Nat} {name : String} (known : name ≠ "unknown") (nothing : part zero = 0)
    (raises : ∀ bucket session, part (count bucket session) =
      if session.outcome = some name then part bucket + 1 else part bucket) :
    ((perDay zero count rangeStart rangeEnd rows).map fun bucket => part bucket.counts).sum =
      countOf (summarizeInteractionSessions rows).outcomes name := by
  have shares (bucket : ν) (session : InteractionSession) : part (count bucket session) =
      part bucket + if decide (session.outcome = some name) = true then 1 else 0 := by
    rw [raises]
    by_cases same : session.outcome = some name
    · simp [same]
    · simp [same]
  rw [sum_perDay nothing shares, Tally.sum_indicator, countOf_outcomes known]

end Overview

/-- The breakdowns of the overview reconcile just when each day of the range that is before the one
that `Date.UTC` makes of its first day has a session; so in every range that begins in no year from
0 to 99. -/
theorem overview_reconciles_iff (rangeStart : Option Int) (rangeEnd : Int)
    (sessions : List CallSessionRow) (messageTimes : List Int) (events : List InteractionEvent) :
    Reconciles rangeStart rangeEnd sessions messageTimes events ↔
      SessionsBeforeFill rangeStart rangeEnd (sessions.map (·.toInteractionSession)) := by
  constructor
  · exact fun reconciles => covers_perDay_iff.mp reconciles.perDay_covers
  · intro filled
    exact
      { perDay_sorted := pairwise_perDay
        perDay_covers := covers_perDay_iff.mpr filled
        perDay_total := (sum_total_perDay countCall CallCounts.total rfl fun _ _ => rfl).trans
          (List.length_map _)
        perDay_completed := sum_outcome_perDay (by decide) rfl fun _ _ => rfl
        interactions_sorted := pairwise_perDay
        interactions_cover := covers_perDay_iff.mpr filled
        interactions_total :=
          sum_total_perDay countInteraction InteractionCounts.total rfl fun _ _ => rfl
        interactions_noSelection := sum_outcome_perDay (by decide) rfl fun _ _ => rfl
        interactions_messagesLeft := sum_outcome_perDay (by decide) rfl fun _ _ => rfl
        hourly := sum_buildHourly.trans (List.length_map _)
        booths := sum_boothBreakdown
        digits := sum_digitsDialed events
        perDay_reordered := fun sessions' perm => ⟨perDay_perm (perm.map _), perDay_perm (perm.map _)⟩
        hourly_reordered := fun sessions' messageTimes' perm times =>
          buildHourly_perm (perm.map _) times
        booths_reordered := fun sessions' perm =>
          ⟨boothBreakdown_perm perm, calls_boothBreakdown_perm perm⟩
        digits_reordered := fun sessions' events' rows perm =>
          ⟨summarizeInteractionActions_perm perm,
            tallyLegacyDigitHistogram_perm (rows.map _) perm⟩ }

/-- The first two days of the year 50: the days that are filled are those of 1950. -/
theorem overview_not_reconciled_in_year_50 :
    ¬ ∀ (rangeStart : Option Int) (rangeEnd : Int) (sessions : List CallSessionRow)
      (messageTimes : List Int) (events : List InteractionEvent),
      (∀ session ∈ sessions, (∀ start ∈ rangeStart, start ≤ session.startedAt) ∧
        session.startedAt ≤ rangeEnd) →
      Reconciles rangeStart rangeEnd sessions messageTimes events := by
  intro reconciles
  have always := reconciles (some (IsoTime.daysOf ⟨50, 1, 1⟩ * dayMs))
    (IsoTime.daysOf ⟨50, 1, 2⟩ * dayMs) [] [] [] fun session among => nomatch among
  have filled := covers_perDay_iff.mp always.perDay_covers
  obtain ⟨session, among, -⟩ := filled (IsoTime.daysOf ⟨50, 1, 1⟩) (by decide +kernel)
    (by decide +kernel) (by decide +kernel)
  cases among

end BoothOperator.Overviews
